import Mathlib.Data.Multiset.Range
import Mathlib.Data.Multiset.Basic
import Mathlib.Logic.Function.Basic

/-! # The first slots of an array, as a multiset

`bag f n` holds what the slots `0, …, n - 1` of an array `f` hold.  Overwriting a
slot exchanges one element, swapping two slots exchanges none. -/
namespace PrefixBag
variable {β : Type}

/-- The contents of the first `n` slots. -/
def bag (f : Nat → β) (n : Nat) : Multiset β := (Multiset.range n).map f

@[simp] theorem bag_zero (f : Nat → β) : bag f 0 = 0 := rfl

theorem bag_succ (f : Nat → β) (n : Nat) : bag f (n + 1) = f n ::ₘ bag f n := by
  rw [bag, Multiset.range_succ, Multiset.map_cons]
  rfl

@[simp] theorem card_bag (f : Nat → β) (n : Nat) : (bag f n).card = n := by
  rw [bag, Multiset.card_map, Multiset.card_range]

theorem mem_bag {f : Nat → β} {n : Nat} {x : β} : x ∈ bag f n ↔ ∃ i, i < n ∧ f i = x := by
  simp [bag]

theorem bag_congr {f g : Nat → β} {n : Nat} (h : ∀ i, i < n → f i = g i) : bag f n = bag g n :=
  Multiset.map_congr rfl fun i hi => h i (Multiset.mem_range.mp hi)

/-- A slot past the end does not count. -/
theorem bag_update_of_le (f : Nat → β) {i n : Nat} (x : β) (h : n ≤ i) :
    bag (Function.update f i x) n = bag f n :=
  bag_congr fun j hj => Function.update_of_ne (by omega) x f

/-- Overwriting slot `i` exchanges what it held for `x`. -/
theorem bag_update {f : Nat → β} {i n : Nat} (x : β) (h : i < n) :
    f i ::ₘ bag (Function.update f i x) n = x ::ₘ bag f n := by
  induction n with
  | zero => omega
  | succ n ih =>
    rw [bag_succ, bag_succ]
    by_cases hi : i = n
    · subst hi
      rw [Function.update_self, bag_update_of_le f x (Nat.le_refl i), Multiset.cons_swap]
    · rw [Function.update_of_ne (by omega), Multiset.cons_swap, ih (by omega),
        Multiset.cons_swap]

/-- The array with slots `i` and `j` exchanged. -/
def swap (f : Nat → β) (i j : Nat) : Nat → β :=
  Function.update (Function.update f i (f j)) j (f i)

@[simp] theorem swap_right (f : Nat → β) (i j : Nat) : swap f i j j = f i :=
  Function.update_self ..

@[simp] theorem swap_left (f : Nat → β) (i j : Nat) : swap f i j i = f j := by
  by_cases h : i = j
  · subst h
    exact swap_right f i i
  · rw [swap, Function.update_of_ne h, Function.update_self]

theorem swap_of_ne (f : Nat → β) {i j k : Nat} (hi : k ≠ i) (hj : k ≠ j) : swap f i j k = f k := by
  rw [swap, Function.update_of_ne hj, Function.update_of_ne hi]

/-- Exchanging equal contents does nothing. -/
theorem swap_of_eq {f : Nat → β} {i j : Nat} (h : f i = f j) : swap f i j = f := by
  funext k
  by_cases hj : k = j
  · rw [hj, swap_right, h]
  · by_cases hi : k = i
    · rw [hi, swap_left, h]
    · exact swap_of_ne f hi hj

/-- Exchanging two slots keeps the bag. -/
theorem bag_swap (f : Nat → β) {i j n : Nat} (hi : i < n) (hj : j < n) :
    bag (swap f i j) n = bag f n := by
  by_cases h : i = j
  · rw [swap_of_eq (congrArg f h)]
  · have hone := bag_update (f := f) (f j) hi
    have htwo := bag_update (f := Function.update f i (f j)) (f i) hj
    rw [Function.update_of_ne (Ne.symm h), hone] at htwo
    exact (Multiset.cons_inj_right (f j)).mp htwo

end PrefixBag
