import Mathlib.Order.Lattice
import Mathlib.Data.List.Nodup

/-! # Finite maps as sorted association lists

An association list whose keys increase strictly, read with `List.lookup`.
`insertNew` adds a binding unless the key has one; `eraseKey` removes a key.  The
lemmas on `l ++ e :: r` follow the shape an in-order traversal of a search tree
has, and the `lookup` lemmas say that the lists are finite maps. -/
namespace SortedAssoc
variable {κ β : Type} [LinearOrder κ]

/-- The keys increase strictly. -/
def Sorted (l : List (κ × β)) : Prop := l.Pairwise (fun a b => a.1 < b.1)

theorem sorted_append_cons {l r : List (κ × β)} {e : κ × β} :
    Sorted (l ++ e :: r) ↔
      Sorted l ∧ Sorted r ∧ (∀ a ∈ l, a.1 < e.1) ∧ (∀ b ∈ r, e.1 < b.1) := by
  unfold Sorted
  rw [List.pairwise_append, List.pairwise_cons]
  constructor
  · rintro ⟨hl, ⟨her, hr⟩, hlr⟩
    exact ⟨hl, hr, fun a ha => hlr a ha e List.mem_cons_self, her⟩
  · rintro ⟨hl, hr, hle, her⟩
    refine ⟨hl, ⟨her, hr⟩, fun a ha b hb => ?_⟩
    rcases List.mem_cons.mp hb with rfl | hb
    · exact hle a ha
    · exact (hle a ha).trans (her b hb)

theorem Sorted.nodup_keys {l : List (κ × β)} (h : Sorted l) : (l.map Prod.fst).Nodup :=
  List.pairwise_map.mpr (h.imp ne_of_lt)

/-- Add `k ↦ v` at its place, unless `k` is bound already. -/
def insertNew (k : κ) (v : β) : List (κ × β) → List (κ × β)
  | [] => [(k, v)]
  | e :: l =>
      if k < e.1 then (k, v) :: e :: l
      else if e.1 < k then e :: insertNew k v l
      else e :: l

/-- Remove the binding of `k`. -/
def eraseKey (k : κ) (l : List (κ × β)) : List (κ × β) := l.filter (fun e => e.1 ≠ k)

/-! ### Insertion -/

theorem mem_insertNew {k : κ} {v : β} {a : κ × β} {l : List (κ × β)}
    (h : a ∈ insertNew k v l) : a = (k, v) ∨ a ∈ l := by
  induction l with
  | nil => exact Or.inl (List.mem_singleton.mp h)
  | cons e l ih =>
    rw [insertNew] at h
    split at h
    · exact List.mem_cons.mp h
    · split at h
      · rcases List.mem_cons.mp h with rfl | h
        · exact Or.inr List.mem_cons_self
        · exact (ih h).imp_right (List.mem_cons_of_mem e)
      · exact Or.inr h

theorem Sorted.insertNew {l : List (κ × β)} (h : Sorted l) (k : κ) (v : β) :
    Sorted (insertNew k v l) := by
  induction l with
  | nil => exact List.pairwise_singleton _ _
  | cons e l ih =>
    obtain ⟨hel, hl⟩ := List.pairwise_cons.mp h
    rw [SortedAssoc.insertNew]
    split
    · rename_i hk
      refine List.pairwise_cons.mpr ⟨fun b hb => ?_, h⟩
      rcases List.mem_cons.mp hb with rfl | hb
      · exact hk
      · exact hk.trans (hel b hb)
    · split
      · rename_i hk
        refine List.pairwise_cons.mpr ⟨fun b hb => ?_, ih hl⟩
        rcases mem_insertNew hb with rfl | hb
        · exact hk
        · exact hel b hb
      · exact h

/-- Below `e`, insertion works in the part before `e`. -/
theorem insertNew_append_lt {k : κ} {v : β} {l r : List (κ × β)} {e : κ × β}
    (hk : k < e.1) : insertNew k v (l ++ e :: r) = insertNew k v l ++ e :: r := by
  induction l with
  | nil => simp [insertNew, hk]
  | cons d l ih =>
    simp only [List.cons_append, insertNew]
    split
    · rfl
    · split
      · rw [ih, List.cons_append]
      · rfl

/-- Above `e`, insertion works in the part after `e`. -/
theorem insertNew_append_gt {k : κ} {v : β} {l r : List (κ × β)} {e : κ × β}
    (hl : ∀ a ∈ l, a.1 < e.1) (hk : e.1 < k) :
    insertNew k v (l ++ e :: r) = l ++ e :: insertNew k v r := by
  induction l with
  | nil => simp [insertNew, hk, not_lt_of_gt hk]
  | cons d l ih =>
    have hd : d.1 < k := (hl d List.mem_cons_self).trans hk
    simp only [List.cons_append, insertNew, if_neg (not_lt_of_gt hd), if_pos hd]
    rw [ih (fun a ha => hl a (List.mem_cons_of_mem d ha))]

/-- At a key that is bound, insertion does nothing. -/
theorem insertNew_append_self {k : κ} {v w : β} {l r : List (κ × β)}
    (hl : ∀ a ∈ l, a.1 < k) : insertNew k v (l ++ (k, w) :: r) = l ++ (k, w) :: r := by
  induction l with
  | nil => simp [insertNew]
  | cons d l ih =>
    have hd : d.1 < k := hl d List.mem_cons_self
    simp only [List.cons_append, insertNew, if_neg (not_lt_of_gt hd), if_pos hd]
    rw [ih (fun a ha => hl a (List.mem_cons_of_mem d ha))]

/-- The key is bound afterwards. -/
theorem exists_mem_insertNew (k : κ) (v : β) (l : List (κ × β)) :
    ∃ w, (k, w) ∈ insertNew k v l := by
  induction l with
  | nil => exact ⟨v, List.mem_singleton_self _⟩
  | cons e l ih =>
    rw [insertNew]
    split
    · exact ⟨v, List.mem_cons_self⟩
    · split
      · obtain ⟨w, hw⟩ := ih
        exact ⟨w, List.mem_cons_of_mem _ hw⟩
      · rename_i hlt hgt
        obtain rfl : k = e.1 := le_antisymm (not_lt.mp hgt) (not_lt.mp hlt)
        exact ⟨e.2, List.mem_cons_self⟩

theorem length_le_insertNew (k : κ) (v : β) (l : List (κ × β)) :
    max 1 l.length ≤ (insertNew k v l).length := by
  induction l with
  | nil => exact le_refl _
  | cons e l ih =>
    rw [insertNew]
    split
    · simp only [List.length_cons]
      omega
    · split
      · simp only [List.length_cons]
        omega
      · simp only [List.length_cons]
        omega

/-- A key that is not bound gets one more entry. -/
theorem insertNew_perm {k : κ} {l : List (κ × β)} (v : β) (h : ∀ a ∈ l, a.1 ≠ k) :
    (insertNew k v l).Perm ((k, v) :: l) := by
  induction l with
  | nil => exact List.Perm.refl _
  | cons e l ih =>
    rw [insertNew]
    split
    · exact List.Perm.refl _
    · rename_i hle
      have hlt : e.1 < k := lt_of_le_of_ne (not_lt.mp hle) (h e List.mem_cons_self)
      rw [if_pos hlt]
      exact ((ih fun a ha => h a (List.mem_cons_of_mem e ha)).cons e).trans (List.Perm.swap ..)

/-! ### Removal -/

theorem Sorted.eraseKey {l : List (κ × β)} (h : Sorted l) (k : κ) : Sorted (eraseKey k l) :=
  List.Pairwise.filter _ h

theorem eraseKey_of_ne {k : κ} {l : List (κ × β)} (h : ∀ a ∈ l, a.1 ≠ k) : eraseKey k l = l :=
  List.filter_eq_self.mpr fun a ha => decide_eq_true (h a ha)

theorem eraseKey_append_lt {k : κ} {l r : List (κ × β)} {e : κ × β}
    (hr : ∀ b ∈ r, e.1 < b.1) (hk : k < e.1) :
    eraseKey k (l ++ e :: r) = eraseKey k l ++ e :: r := by
  have hrest : eraseKey k (e :: r) = e :: r := eraseKey_of_ne fun b hb => by
    rcases List.mem_cons.mp hb with rfl | hb
    · exact ne_of_gt hk
    · exact ne_of_gt (hk.trans (hr b hb))
  rw [eraseKey, List.filter_append]
  exact congrArg _ hrest

theorem eraseKey_append_gt {k : κ} {l r : List (κ × β)} {e : κ × β}
    (hl : ∀ a ∈ l, a.1 < e.1) (hk : e.1 < k) :
    eraseKey k (l ++ e :: r) = l ++ e :: eraseKey k r := by
  have hleft : eraseKey k l = l := eraseKey_of_ne fun a ha => ne_of_lt ((hl a ha).trans hk)
  have hfront : ∀ s : List (κ × β), eraseKey k (e :: s) = e :: eraseKey k s := fun s =>
    List.filter_cons_of_pos (by simpa using ne_of_lt hk)
  calc eraseKey k (l ++ e :: r) = eraseKey k l ++ eraseKey k (e :: r) := List.filter_append ..
    _ = l ++ e :: eraseKey k r := by rw [hleft, hfront]

theorem eraseKey_append_self {k : κ} {v : β} {l r : List (κ × β)}
    (hl : ∀ a ∈ l, a.1 < k) (hr : ∀ b ∈ r, k < b.1) :
    eraseKey k (l ++ (k, v) :: r) = l ++ r := by
  have hleft : eraseKey k l = l := eraseKey_of_ne fun a ha => ne_of_lt (hl a ha)
  have hright : eraseKey k ((k, v) :: r) = r := by
    rw [eraseKey, List.filter_cons_of_neg (by simp)]
    exact eraseKey_of_ne fun b hb => ne_of_gt (hr b hb)
  calc eraseKey k (l ++ (k, v) :: r) = eraseKey k l ++ eraseKey k ((k, v) :: r) :=
        List.filter_append ..
    _ = l ++ r := by rw [hleft, hright]

/-- A key that is bound loses its entry. -/
theorem eraseKey_perm {l : List (κ × β)} (h : Sorted l) {e : κ × β} (he : e ∈ l) :
    l.Perm (e :: eraseKey e.1 l) := by
  obtain ⟨l1, l2, rfl⟩ := List.append_of_mem he
  obtain ⟨-, -, hl, hr⟩ := sorted_append_cons.mp h
  rw [eraseKey_append_self hl hr]
  exact List.perm_middle

/-! ### Lookups -/

theorem lookup_of_forall_ne {k : κ} {l : List (κ × β)} (h : ∀ a ∈ l, a.1 ≠ k) :
    l.lookup k = none :=
  List.lookup_eq_none_iff.mpr fun a ha => by simpa using (h a ha).symm

theorem lookup_cons_of_ne {k : κ} {e : κ × β} {l : List (κ × β)} (h : k ≠ e.1) :
    (e :: l).lookup k = l.lookup k := by
  rw [List.lookup_cons, beq_false_of_ne h]

theorem lookup_append_lt {k : κ} {l r : List (κ × β)} {e : κ × β}
    (hr : ∀ b ∈ r, e.1 < b.1) (hk : k < e.1) : (l ++ e :: r).lookup k = l.lookup k := by
  have hrest : (e :: r).lookup k = none := lookup_of_forall_ne fun b hb => by
    rcases List.mem_cons.mp hb with rfl | hb
    · exact ne_of_gt hk
    · exact ne_of_gt (hk.trans (hr b hb))
  rw [List.lookup_append, hrest, Option.or_none]

theorem lookup_append_gt {k : κ} {l r : List (κ × β)} {e : κ × β}
    (hl : ∀ a ∈ l, a.1 < e.1) (hk : e.1 < k) : (l ++ e :: r).lookup k = r.lookup k := by
  have hleft : l.lookup k = none := lookup_of_forall_ne fun a ha => ne_of_lt ((hl a ha).trans hk)
  rw [List.lookup_append, hleft, Option.none_or, lookup_cons_of_ne (ne_of_gt hk)]

theorem lookup_append_self {k : κ} {v : β} {l r : List (κ × β)} (hl : ∀ a ∈ l, a.1 < k) :
    (l ++ (k, v) :: r).lookup k = some v := by
  have hleft : l.lookup k = none := lookup_of_forall_ne fun a ha => ne_of_lt (hl a ha)
  rw [List.lookup_append, hleft, Option.none_or, List.lookup_cons_self]

theorem lookup_insertNew_self {l : List (κ × β)} (h : Sorted l) (k : κ) (v : β) :
    (insertNew k v l).lookup k = some ((l.lookup k).getD v) := by
  induction l with
  | nil => simp [insertNew]
  | cons e l ih =>
    obtain ⟨hel, hl⟩ := List.pairwise_cons.mp h
    rw [insertNew]
    split
    · rename_i hk
      have hnone : (e :: l).lookup k = none := lookup_of_forall_ne fun b hb => by
        rcases List.mem_cons.mp hb with rfl | hb
        · exact ne_of_gt hk
        · exact ne_of_gt (hk.trans (hel b hb))
      rw [hnone, List.lookup_cons_self, Option.getD_none]
    · split
      · rename_i hk
        rw [lookup_cons_of_ne (ne_of_gt hk), lookup_cons_of_ne (ne_of_gt hk), ih hl]
      · rename_i h1 h2
        obtain rfl : k = e.1 := le_antisymm (not_lt.mp h2) (not_lt.mp h1)
        rw [List.lookup_cons_self, Option.getD_some]

theorem lookup_insertNew_ne (l : List (κ × β)) {k k' : κ} (v : β) (hne : k' ≠ k) :
    (insertNew k v l).lookup k' = l.lookup k' := by
  induction l with
  | nil => exact lookup_cons_of_ne hne
  | cons e l ih =>
    rw [insertNew]
    split
    · exact lookup_cons_of_ne hne
    · split
      · rw [List.lookup_cons, List.lookup_cons, ih]
      · rfl

theorem lookup_eraseKey_self (l : List (κ × β)) (k : κ) : (eraseKey k l).lookup k = none :=
  lookup_of_forall_ne fun _ ha => of_decide_eq_true (List.mem_filter.mp ha).2

theorem lookup_eraseKey_ne (l : List (κ × β)) {k k' : κ} (hne : k' ≠ k) :
    (eraseKey k l).lookup k' = l.lookup k' := by
  induction l with
  | nil => rfl
  | cons e l ih =>
    by_cases he : e.1 = k
    · rw [eraseKey, List.filter_cons_of_neg (by simpa using he),
        lookup_cons_of_ne (by rwa [he])]
      exact ih
    · have hcons : eraseKey k (e :: l) = e :: eraseKey k l :=
        List.filter_cons_of_pos (by simpa using he)
      rw [hcons, List.lookup_cons, List.lookup_cons, ih]

end SortedAssoc
