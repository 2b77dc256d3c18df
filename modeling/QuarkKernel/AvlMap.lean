import QuarkKernel.AvlTree

/-! # The AVL tree as a finite map

Rotations keep the in-order list of a tree, whatever heights its nodes store, so
`avl_insert` and `avl_remove` act on that list as `SortedAssoc.insertNew` and
`SortedAssoc.eraseKey` do, and `avl_get` reads it. -/
namespace QuarkKernel
namespace AvlTree
variable {α : Type}

/-! ### Rotations keep the in-order list -/

@[simp] theorem toList_avlUpdateHeight (t : AvlTree α) : (avlUpdateHeight t).toList = t.toList := by
  cases t <;> rfl

theorem toList_avlRightRotate {t t' : AvlTree α} (h : avlRightRotate t = some t') :
    t'.toList = t.toList := by
  cases t with
  | nil => cases h
  | node hy ky vy left ry =>
    cases left with
    | nil => cases h
    | node hx kx vx lx z =>
      obtain rfl := Option.some.inj h
      simp

theorem toList_avlLeftRotate {t t' : AvlTree α} (h : avlLeftRotate t = some t') :
    t'.toList = t.toList := by
  cases t with
  | nil => cases h
  | node hx kx vx lx right =>
    cases right with
    | nil => cases h
    | node hy ky vy z ry =>
      obtain rfl := Option.some.inj h
      simp

/-- A double rotation starting in the left subtree. -/
theorem toList_leftRight {h k : Int} {v : Option α} {l r t' : AvlTree α}
    (ht : (do avlRightRotate (node h k v (← avlLeftRotate l) r)) = some t') :
    t'.toList = l.toList ++ (k, v) :: r.toList := by
  obtain ⟨l', hl, ht⟩ := Option.bind_eq_some_iff.mp ht
  rw [toList_avlRightRotate ht, toList_node, toList_avlLeftRotate hl]

/-- A double rotation starting in the right subtree. -/
theorem toList_rightLeft {h k : Int} {v : Option α} {l r t' : AvlTree α}
    (ht : (do avlLeftRotate (node h k v l (← avlRightRotate r))) = some t') :
    t'.toList = l.toList ++ (k, v) :: r.toList := by
  obtain ⟨r', hr, ht⟩ := Option.bind_eq_some_iff.mp ht
  rw [toList_avlLeftRotate ht, toList_node, toList_avlRightRotate hr]

theorem toList_insertRebalance {key : Int} {t t' : AvlTree α}
    (h : insertRebalance key t = some t') : t'.toList = t.toList := by
  cases t with
  | nil => cases h
  | node height k v l r =>
    simp only [insertRebalance] at h
    split at h
    · -- the left side is too high
      split at h
      · cases h
      · split at h
        · rw [toList_avlRightRotate h, toList_avlUpdateHeight]
        · split at h
          · exact toList_leftRight h
          · obtain rfl := Option.some.inj h
            rw [toList_avlUpdateHeight]
    · split at h
      · -- the right side is too high
        split at h
        · cases h
        · split at h
          · rw [toList_avlLeftRotate h, toList_avlUpdateHeight]
          · split at h
            · exact toList_rightLeft h
            · obtain rfl := Option.some.inj h
              rw [toList_avlUpdateHeight]
      · obtain rfl := Option.some.inj h
        rw [toList_avlUpdateHeight]

theorem toList_removeRebalance {t t' : AvlTree α} (h : removeRebalance t = some t') :
    t'.toList = t.toList := by
  cases t with
  | nil => obtain rfl := Option.some.inj h; rfl
  | node height k v l r =>
    simp only [removeRebalance] at h
    split at h
    · rw [toList_avlRightRotate h, toList_avlUpdateHeight]
    · split at h
      · exact toList_leftRight h
      · split at h
        · rw [toList_avlLeftRotate h, toList_avlUpdateHeight]
        · split at h
          · exact toList_rightLeft h
          · obtain rfl := Option.some.inj h
            rw [toList_avlUpdateHeight]

/-! ### The operations on the in-order list -/

theorem toList_avlInsert {t t' : AvlTree α} (hs : t.SearchTree) {kmalloc : Bool} {key : Int}
    {value : Option α} (h : avlInsert kmalloc t key value = some t') :
    t'.toList = SortedAssoc.insertNew key value t.toList := by
  induction t generalizing t' with
  | nil =>
    rw [avlInsert, avlNew] at h
    split at h
    · obtain rfl := Option.some.inj h; rfl
    · cases h
  | node height k v l r ihl ihr =>
    obtain ⟨hsl, hsr, hlk, hkr⟩ := hs
    rw [avlInsert] at h
    split at h
    · rename_i hk
      obtain ⟨l', hl', h⟩ := Option.bind_eq_some_iff.mp h
      rw [toList_insertRebalance h, toList_node, toList_node, ihl hsl hl',
        SortedAssoc.insertNew_append_lt hk]
    · split at h
      · rename_i hk
        obtain ⟨r', hr', h⟩ := Option.bind_eq_some_iff.mp h
        rw [toList_insertRebalance h, toList_node, toList_node, ihr hsr hr',
          SortedAssoc.insertNew_append_gt hlk hk]
      · obtain rfl : key = k := by omega
        obtain rfl := Option.some.inj h
        rw [toList_node, SortedAssoc.insertNew_append_self hlk]

theorem minNode_eq_head? (t : AvlTree α) : minNode t = t.toList.head? := by
  induction t with
  | nil => rfl
  | node h k v l r ihl _ =>
    cases l with
    | nil => rfl
    | node lh lk lv ll lr =>
      have hne : (node lh lk lv ll lr).toList ≠ [] := by simp
      rw [toList_node h, List.head?_append_of_ne_nil _ hne, ← ihl]
      rfl

theorem toList_avlRemove {t t' : AvlTree α} (hs : t.SearchTree) {key : Int}
    (h : avlRemove t key = some t') : t'.toList = SortedAssoc.eraseKey key t.toList := by
  induction t generalizing t' key with
  | nil => obtain rfl := Option.some.inj h; rfl
  | node height k v l r ihl ihr =>
    obtain ⟨hsl, hsr, hlk, hkr⟩ := hs
    rw [avlRemove] at h
    split at h
    · rename_i hk
      obtain ⟨l', hl', h⟩ := Option.bind_eq_some_iff.mp h
      rw [toList_removeRebalance h, toList_node, toList_node, ihl hsl hl',
        SortedAssoc.eraseKey_append_lt hkr hk]
    · split at h
      · rename_i hk
        obtain ⟨r', hr', h⟩ := Option.bind_eq_some_iff.mp h
        rw [toList_removeRebalance h, toList_node, toList_node, ihr hsr hr',
          SortedAssoc.eraseKey_append_gt hlk hk]
      · -- the key itself: its entry is between those of the subtrees
        obtain rfl : key = k := by omega
        rw [toList_node, SortedAssoc.eraseKey_append_self hlk hkr]
        split at h
        · rename_i hnull
          rw [toList_removeRebalance h]
          split
          · rename_i hl
            rw [(isNull_iff l).mp hl, toList_nil, List.nil_append]
          · rename_i hl
            obtain rfl : r = nil := (isNull_iff r).mp (by simpa [hl] using hnull)
            rw [toList_nil, List.append_nil]
        · -- the successor's entry moves up, and leaves the right subtree
          obtain ⟨⟨mk, mv⟩, hmin, h⟩ := Option.bind_eq_some_iff.mp h
          obtain ⟨r', hr', h⟩ := Option.bind_eq_some_iff.mp h
          rw [minNode_eq_head?] at hmin
          obtain ⟨rest, hrest⟩ := List.head?_eq_some_iff.mp hmin
          have hsorted : SortedAssoc.Sorted ([] ++ (mk, mv) :: rest) := by
            rw [List.nil_append, ← hrest]
            exact (searchTree_iff_sorted r).mp hsr
          have herase : SortedAssoc.eraseKey mk r.toList = rest := by
            rw [hrest]
            exact SortedAssoc.eraseKey_append_self (l := []) (by simp)
              (SortedAssoc.sorted_append_cons.mp hsorted).2.2.2
          rw [toList_removeRebalance h, toList_node, ihr hsr hr', herase, hrest]

theorem avlGet_eq {t : AvlTree α} (hs : t.SearchTree) (key : Int) :
    avlGet t key = (t.contents key).join := by
  induction t with
  | nil => rfl
  | node h k v l r ihl ihr =>
    obtain ⟨hsl, hsr, hlk, hkr⟩ := hs
    rw [avlGet, contents, toList_node]
    split
    · rename_i hk
      rw [SortedAssoc.lookup_append_lt hkr hk]
      exact ihl hsl
    · split
      · rename_i hk
        rw [SortedAssoc.lookup_append_gt hlk hk]
        exact ihr hsr
      · obtain rfl : key = k := by omega
        rw [SortedAssoc.lookup_append_self hlk]
        rfl

/-! ### The operations on the finite map -/

theorem SearchTree.avlInsert {t t' : AvlTree α} (hs : t.SearchTree) {kmalloc : Bool} {key : Int}
    {value : Option α} (h : avlInsert kmalloc t key value = some t') : t'.SearchTree := by
  rw [searchTree_iff_sorted] at hs ⊢
  rw [toList_avlInsert ((searchTree_iff_sorted t).mpr hs) h]
  exact hs.insertNew key value

theorem SearchTree.avlRemove {t t' : AvlTree α} (hs : t.SearchTree) {key : Int}
    (h : avlRemove t key = some t') : t'.SearchTree := by
  rw [searchTree_iff_sorted] at hs ⊢
  rw [toList_avlRemove ((searchTree_iff_sorted t).mpr hs) h]
  exact hs.eraseKey key

theorem SearchTree.nodup_keys {t : AvlTree α} (hs : t.SearchTree) : t.keys.Nodup :=
  ((searchTree_iff_sorted t).mp hs).nodup_keys

/-- Insertion binds `key` to `value` unless it is bound already. -/
theorem contents_avlInsert {t t' : AvlTree α} (hs : t.SearchTree) {kmalloc : Bool} {key : Int}
    {value : Option α} (h : avlInsert kmalloc t key value = some t') :
    t'.contents = Function.update t.contents key (some ((t.contents key).getD value)) := by
  funext key'
  rw [contents, toList_avlInsert hs h]
  by_cases hk : key' = key
  · subst hk
    rw [Function.update_self, SortedAssoc.lookup_insertNew_self ((searchTree_iff_sorted t).mp hs)]
    rfl
  · rw [Function.update_of_ne hk, SortedAssoc.lookup_insertNew_ne _ _ hk]
    rfl

/-- Removal unbinds `key`. -/
theorem contents_avlRemove {t t' : AvlTree α} (hs : t.SearchTree) {key : Int}
    (h : avlRemove t key = some t') : t'.contents = Function.update t.contents key none := by
  funext key'
  rw [contents, toList_avlRemove hs h]
  by_cases hk : key' = key
  · subst hk
    rw [Function.update_self, SortedAssoc.lookup_eraseKey_self]
  · rw [Function.update_of_ne hk, SortedAssoc.lookup_eraseKey_ne _ hk]
    rfl

theorem avlGet_avlInsert {t t' : AvlTree α} (hs : t.SearchTree) {kmalloc : Bool} {key : Int}
    {value : Option α} (h : avlInsert kmalloc t key value = some t') (key' : Int) :
    avlGet t' key' = if key' = key then (t.contents key).getD value else avlGet t key' := by
  rw [avlGet_eq (hs.avlInsert h), contents_avlInsert hs h, avlGet_eq hs]
  split
  · rename_i hk
    rw [hk, Function.update_self]
    rfl
  · rename_i hk
    rw [Function.update_of_ne hk]

theorem avlGet_avlRemove {t t' : AvlTree α} (hs : t.SearchTree) {key : Int}
    (h : avlRemove t key = some t') (key' : Int) :
    avlGet t' key' = if key' = key then none else avlGet t key' := by
  rw [avlGet_eq (hs.avlRemove h), contents_avlRemove hs h, avlGet_eq hs]
  split
  · rename_i hk
    rw [hk, Function.update_self]
    rfl
  · rename_i hk
    rw [Function.update_of_ne hk]

/-- A search tree none of whose nodes holds NULL: a partial map that `avl_get`
reads. -/
structure Table (t : AvlTree α) : Prop where
  search : t.SearchTree
  noNull : ∀ key, t.contents key ≠ some none

theorem Table.nil : (nil : AvlTree α).Table := by
  constructor
  · trivial
  · intro key h
    cases h

theorem Table.contents_eq {t : AvlTree α} (ht : t.Table) (key : Int) :
    t.contents key = (avlGet t key).map some := by
  rw [avlGet_eq ht.search]
  rcases hc : t.contents key with _ | _ | a
  · rfl
  · exact absurd hc (ht.noNull key)
  · rfl

theorem Table.avlInsert {t t' : AvlTree α} (ht : t.Table) {kmalloc : Bool} {key : Int} {a : α}
    (h : AvlTree.avlInsert kmalloc t key (some a) = some t') : t'.Table := by
  refine ⟨ht.search.avlInsert h, ?_⟩
  intro key'
  rw [contents_avlInsert ht.search h]
  by_cases hk : key' = key
  · subst hk
    rw [Function.update_self, ht.contents_eq]
    cases avlGet t key' <;> simp
  · rw [Function.update_of_ne hk]
    exact ht.noNull key'

theorem Table.avlRemove {t t' : AvlTree α} (ht : t.Table) {key : Int}
    (h : AvlTree.avlRemove t key = some t') : t'.Table := by
  refine ⟨ht.search.avlRemove h, ?_⟩
  intro key'
  rw [contents_avlRemove ht.search h]
  by_cases hk : key' = key
  · subst hk
    rw [Function.update_self]
    exact fun h => nomatch h
  · rw [Function.update_of_ne hk]
    exact ht.noNull key'

/-- Insertion under a key that is free. -/
theorem Table.avlGet_avlInsert {t t' : AvlTree α} (ht : t.Table) {kmalloc : Bool} {key : Int}
    {a : α} (h : AvlTree.avlInsert kmalloc t key (some a) = some t') (hfree : avlGet t key = none)
    (key' : Int) : avlGet t' key' = if key' = key then some a else avlGet t key' := by
  rw [AvlTree.avlGet_avlInsert ht.search h, ht.contents_eq, hfree]
  rfl

/-- **The tree refines a finite map.**  From any search tree, whatever heights it
stores: when `avl_insert` returns, the result is a search tree with one node a
key whose lookups are those of the map with `key` bound to its old value, or to
`value` if it had none; when `avl_remove` returns, `key` is unbound and every
other lookup is as before. -/
theorem avl_refines_map {t : AvlTree α} (hs : t.SearchTree) (key : Int) (value : Option α) :
    (∀ t', avlInsert true t key value = some t' →
      t'.SearchTree ∧ t'.keys.Nodup ∧
      t'.contents = Function.update t.contents key (some ((t.contents key).getD value)) ∧
      ∀ key', avlGet t' key' = (t'.contents key').join) ∧
    (∀ t', avlRemove t key = some t' →
      t'.SearchTree ∧ t'.keys.Nodup ∧
      t'.contents = Function.update t.contents key none ∧
      ∀ key', avlGet t' key' = (t'.contents key').join) := by
  constructor
  · intro t' h
    have hs' := hs.avlInsert h
    exact ⟨hs', hs'.nodup_keys, contents_avlInsert hs h, avlGet_eq hs'⟩
  · intro t' h
    have hs' := hs.avlRemove h
    exact ⟨hs', hs'.nodup_keys, contents_avlRemove hs h, avlGet_eq hs'⟩

/-- The tree below stores a height of 9 over two levels. -/
theorem avl_refines_map_stale_height :
    let t : AvlTree Nat := node 9 2 (some 20) (node 1 1 (some 10) nil nil) nil
    (∀ t', avlInsert true t 3 (some 30) = some t' →
      t'.SearchTree ∧ t'.keys.Nodup ∧
      t'.contents = Function.update t.contents 3 (some ((t.contents 3).getD (some 30))) ∧
      ∀ key', avlGet t' key' = (t'.contents key').join) ∧
    (∀ t', avlRemove t 3 = some t' →
      t'.SearchTree ∧ t'.keys.Nodup ∧
      t'.contents = Function.update t.contents 3 none ∧
      ∀ key', avlGet t' key' = (t'.contents key').join) :=
  avl_refines_map (t := node 9 2 (some 20) (node 1 1 (some 10) nil nil) nil)
    ((searchTree_iff_sorted _).mpr (by simp [SortedAssoc.Sorted])) 3 (some 30)

end AvlTree
end QuarkKernel
