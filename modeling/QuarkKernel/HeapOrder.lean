import Mathlib.Order.Defs.LinearOrder
import QuarkKernel.PrefixBag

/-! # Binary heaps in an array

`keys i` is the key in slot `i`, and slot `i` is the parent of `2 i + 1` and
`2 i + 2`.  Only the order of the keys is described here: what a sift may assume of
the slots around its hole, and what one exchange makes of it.  A sift down starts
from `SinksAt`, a sift up from `RisesAt`; both end with `Ordered`. -/
namespace BinaryHeap
variable {κ : Type} [LinearOrder κ]

/-- The slot above slot `i`, for `0 < i`. -/
def parent (i : Nat) : Nat := (i - 1) / 2

/-- Slot `c` is right below slot `i`. -/
def IsChild (c i : Nat) : Prop := 0 < c ∧ parent c = i

theorem isChild_iff {c i : Nat} : IsChild c i ↔ c = i * 2 + 1 ∨ c = i * 2 + 2 := by
  unfold IsChild parent
  omega

theorem isChild_parent {i : Nat} (h : 0 < i) : IsChild i (parent i) := ⟨h, rfl⟩

theorem IsChild.lt {c i : Nat} (h : IsChild c i) : i < c := by
  have := isChild_iff.mp h
  omega

theorem parent_lt {i : Nat} (h : 0 < i) : parent i < i := (isChild_parent h).lt

/-- No slot holds a smaller key than the slot above it. -/
def Ordered (keys : Nat → κ) (n : Nat) : Prop :=
  ∀ c i, IsChild c i → c < n → keys i ≤ keys c

/-- Heap order but for the slots below `hole`, which may hold smaller keys than it. -/
structure SinksAt (keys : Nat → κ) (n hole : Nat) : Prop where
  apart : ∀ c i, IsChild c i → c < n → i ≠ hole → keys i ≤ keys c
  bridge : ∀ c, 0 < hole → IsChild c hole → c < n → keys (parent hole) ≤ keys c

/-- Heap order around a hole that `key` is to go into, or further up. -/
structure RisesAt (keys : Nat → κ) (n hole : Nat) (key : κ) : Prop where
  apart : ∀ c i, IsChild c i → c < n → c ≠ hole → i ≠ hole → keys i ≤ keys c
  bridge : ∀ c, 0 < hole → IsChild c hole → c < n → keys (parent hole) ≤ keys c
  below : ∀ c, IsChild c hole → c < n → key ≤ keys c

theorem Ordered.congr {keys keys' : Nat → κ} {n : Nat} (h : Ordered keys n)
    (hkeys : ∀ i, i < n → keys' i = keys i) : Ordered keys' n := by
  intro c i hc hcn
  rw [hkeys c hcn, hkeys i (Nat.lt_trans hc.lt hcn)]
  exact h c i hc hcn

theorem Ordered.mono {keys : Nat → κ} {n m : Nat} (h : Ordered keys n) (hm : m ≤ n) :
    Ordered keys m := fun c i hc hcm => h c i hc (Nat.lt_of_lt_of_le hcm hm)

theorem ordered_iff {keys : Nat → κ} {n : Nat} :
    Ordered keys n ↔ ∀ c, c < n → 0 < c → keys (parent c) ≤ keys c := by
  constructor
  · intro h c hcn hpos
    exact h c _ (isChild_parent hpos) hcn
  · rintro h c i ⟨hpos, rfl⟩ hcn
    exact h c hcn hpos

instance (keys : Nat → κ) (n : Nat) : Decidable (Ordered keys n) :=
  decidable_of_iff _ ordered_iff.symm

@[simp] theorem ordered_zero (keys : Nat → κ) : Ordered keys 0 :=
  fun _ _ _ h => absurd h (Nat.not_lt_zero _)

/-- The root holds a least key. -/
theorem Ordered.root_le {keys : Nat → κ} {n : Nat} (h : Ordered keys n) {i : Nat} (hi : i < n) :
    keys 0 ≤ keys i := by
  induction i using Nat.strongRecOn with
  | ind i ih =>
    rcases Nat.eq_zero_or_pos i with rfl | hpos
    · exact le_refl _
    · have hlt := parent_lt hpos
      exact le_trans (ih _ hlt (Nat.lt_trans hlt hi)) (h i _ (isChild_parent hpos) hi)

/-! ### Sifting down -/

/-- A hole no child of which is smaller is no hole. -/
theorem SinksAt.stop {keys : Nat → κ} {n hole : Nat} (h : SinksAt keys n hole)
    (hmin : ∀ c, IsChild c hole → c < n → keys hole ≤ keys c) : Ordered keys n := by
  intro c i hc hcn
  by_cases hi : i = hole
  · subst hi
    exact hmin c hc hcn
  · exact h.apart c i hc hcn hi

/-- Exchanging the hole with a least child moves the hole down. -/
theorem SinksAt.sink {keys : Nat → κ} {n hole least : Nat} (h : SinksAt keys n hole)
    (hchild : IsChild least hole) (hn : least < n) (hle : keys least ≤ keys hole)
    (hmin : ∀ c, IsChild c hole → c < n → keys least ≤ keys c) :
    SinksAt (PrefixBag.swap keys hole least) n least := by
  have hlt := hchild.lt
  constructor
  · intro c i hc hcn hi
    have hci := hc.lt
    by_cases hil : i = hole
    · -- the least child now stands over its sibling
      subst hil
      rw [PrefixBag.swap_left]
      by_cases hcl : c = least
      · rw [hcl, PrefixBag.swap_right]
        exact hle
      · rw [PrefixBag.swap_of_ne _ (by omega) hcl]
        exact hmin c hc hcn
    · rw [PrefixBag.swap_of_ne _ hil hi]
      by_cases hch : c = hole
      · -- the key that moves up stays below the slot above the hole
        subst hch
        obtain rfl : parent c = i := hc.2
        rw [PrefixBag.swap_left]
        exact h.bridge least hc.1 hchild hn
      · have hcl : c ≠ least := by
          rintro rfl
          exact hil (hc.2.symm.trans hchild.2)
        rw [PrefixBag.swap_of_ne _ hch hcl]
        exact h.apart c i hc hcn hil
  · intro c _ hc hcn
    have hcl := hc.lt
    rw [hchild.2, PrefixBag.swap_left, PrefixBag.swap_of_ne _ (by omega) (by omega)]
    exact h.apart c least hc hcn (by omega)

/-- Overwriting a slot of an ordered heap by a key not below the one above it. -/
theorem Ordered.sinksAt {keys : Nat → κ} {n m hole : Nat} (h : Ordered keys n) (hm : m ≤ n)
    {key : κ} (habove : 0 < hole → hole < m → keys (parent hole) ≤ key) :
    SinksAt (Function.update keys hole key) m hole := by
  constructor
  · intro c i hc hcm hi
    rw [Function.update_of_ne hi]
    by_cases hch : c = hole
    · subst hch
      obtain rfl : parent c = i := hc.2
      rw [Function.update_self]
      exact habove hc.1 hcm
    · rw [Function.update_of_ne hch]
      exact h c i hc (Nat.lt_of_lt_of_le hcm hm)
  · intro c hpos hc hcm
    have hlt := hc.lt
    have hup := parent_lt hpos
    rw [Function.update_of_ne (by omega), Function.update_of_ne (by omega)]
    exact le_trans (h hole _ (isChild_parent hpos) (by omega)) (h c hole hc (by omega))

/-! ### Sifting up -/

/-- A slot past the end can be made a hole. -/
theorem Ordered.risesAt {keys : Nat → κ} {n : Nat} (h : Ordered keys n) (key : κ) :
    RisesAt keys (n + 1) n key := by
  refine ⟨fun c i hc hcn hne _ => h c i hc (by omega), ?_, ?_⟩
  · intro c _ hc hcn
    have := hc.lt
    omega
  · intro c hc hcn
    have := hc.lt
    omega

/-- Moving a larger key down from above moves the hole up. -/
theorem RisesAt.rise {keys : Nat → κ} {n hole : Nat} {key : κ} (h : RisesAt keys n hole key)
    (hpos : 0 < hole) (hn : hole < n) (hle : key ≤ keys (parent hole)) :
    RisesAt (Function.update keys hole (keys (parent hole))) n (parent hole) key := by
  have hup := parent_lt hpos
  have hkeep : ∀ c, IsChild c (parent hole) → c < n → c ≠ hole → keys (parent hole) ≤ keys c :=
    fun c hc hcn hne => h.apart c _ hc hcn hne (by omega)
  constructor
  · intro c i hc hcn hci hi
    by_cases hih : i = hole
    · -- the key from above comes to stand over the children of the hole
      subst hih
      have hlt := hc.lt
      rw [Function.update_self, Function.update_of_ne (by omega)]
      exact h.bridge c hpos hc hcn
    · have hch : c ≠ hole := by
        rintro rfl
        exact hi hc.2.symm
      rw [Function.update_of_ne hih, Function.update_of_ne hch]
      exact h.apart c i hc hcn hch hih
  · intro c hpos' hc hcn
    have hup' := parent_lt hpos'
    have habove := h.apart (parent hole) _ (isChild_parent hpos') (by omega) (by omega) (by omega)
    rw [Function.update_of_ne (by omega)]
    by_cases hch : c = hole
    · rw [hch, Function.update_self]
      exact habove
    · rw [Function.update_of_ne hch]
      exact le_trans habove (hkeep c hc hcn hch)
  · intro c hc hcn
    by_cases hch : c = hole
    · rw [hch, Function.update_self]
      exact hle
    · rw [Function.update_of_ne hch]
      exact le_trans hle (hkeep c hc hcn hch)

/-- The key goes into a hole below a key that is not larger. -/
theorem RisesAt.stop {keys : Nat → κ} {n hole : Nat} {key : κ} (h : RisesAt keys n hole key)
    (habove : 0 < hole → keys (parent hole) ≤ key) : Ordered (Function.update keys hole key) n := by
  intro c i hc hcn
  have hlt := hc.lt
  by_cases hih : i = hole
  · subst hih
    rw [Function.update_self, Function.update_of_ne (by omega)]
    exact h.below c hc hcn
  · rw [Function.update_of_ne hih]
    by_cases hch : c = hole
    · subst hch
      obtain rfl : parent c = i := hc.2
      rw [Function.update_self]
      exact habove hc.1
    · rw [Function.update_of_ne hch]
      exact h.apart c i hc hcn hch hih

end BinaryHeap
