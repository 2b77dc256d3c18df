import Mathlib.Algebra.Group.Nat.Defs
import QuarkKernel.AvlBalance

/-! # Which rotations find their pivot

The functions of `avltree.c` decide from the stored heights which child to rotate
around, and never look whether it is there.  A stored height may be too large, but
never too small (`Covered`), so that a subtree that seems two levels higher than its
sibling is there to be rotated.  The inner rotation of a double rotation needs one
child more.  In `avl_remove` the heights of the two grandchildren speak for it.  In
`avl_insert` it is the key: it has just been put into that grandchild, unless it went
to the other side and the imbalance comes from a stale height.  `keepsPivots` tells
the insertions that meet such a height where the inner grandchild is missing. -/
namespace QuarkKernel
namespace AvlTree
variable {α : Type}

/-- Every node stores at least its true height. -/
def Covered : AvlTree α → Prop
  | nil => True
  | node h _ _ left right =>
      (1 + max left.trueHeight right.trueHeight : Nat) ≤ h ∧ Covered left ∧ Covered right

/-- The subtree has no right child, and claims two levels more than its sibling's
nodes are known to take. -/
def missesRight (sub sibling : AvlTree α) : Bool :=
  match sub with
  | nil => false
  | node h _ _ _ right => right.isNull && max 1 sibling.toList.length < 2 ^ (h - 2).toNat

/-- The subtree has no left child, and claims two levels more than its sibling's nodes
are known to take. -/
def missesLeft (sub sibling : AvlTree α) : Bool :=
  match sub with
  | nil => false
  | node h _ _ left _ => left.isNull && max 1 sibling.toList.length < 2 ^ (h - 2).toNat

/-- Nowhere on the way to `key` does the other side's child lack the child that an
inner rotation would turn around. -/
def keepsPivots : AvlTree α → Int → Bool
  | nil, _ => true
  | node _ k _ left right, key =>
      if key < k then !missesLeft right left && keepsPivots left key
      else if key > k then !missesRight left right && keepsPivots right key
      else true

/-! ### Stored heights -/

theorem trueHeight_le_avlHeight {t : AvlTree α} (h : t.Covered) :
    (t.trueHeight : Int) ≤ avlHeight t := by
  cases t with
  | nil => exact le_refl _
  | node _ k v l r => exact h.1

theorem heightOver_ge {l r : AvlTree α} (hl : l.Covered) (hr : r.Covered) :
    (1 + max l.trueHeight r.trueHeight : Nat) ≤ heightOver l r := by
  have hl' := trueHeight_le_avlHeight hl
  have hr' := trueHeight_le_avlHeight hr
  rw [heightOver]
  split <;> omega

theorem covered_avlUpdateHeight {h k : Int} {v : Option α} {l r : AvlTree α} (hl : l.Covered)
    (hr : r.Covered) : (avlUpdateHeight (node h k v l r)).Covered := ⟨heightOver_ge hl hr, hl, hr⟩

/-- A tree whose stored height is positive has a root. -/
theorem exists_node {t : AvlTree α} (h : 0 < avlHeight t) :
    ∃ a k v l r, t = node a k v l r := by
  cases t with
  | nil => exact absurd h (lt_irrefl _)
  | node a k v l r => exact ⟨a, k, v, l, r, rfl⟩

theorem avlHeight_nonneg {t : AvlTree α} (h : t.Covered) : 0 ≤ avlHeight t :=
  le_trans (Int.natCast_nonneg _) (trueHeight_le_avlHeight h)

theorem length_toList_lt (t : AvlTree α) : t.toList.length < 2 ^ t.trueHeight := by
  induction t with
  | nil => exact Nat.one_pos
  | node h k v l r ihl ihr =>
    have hl : 2 ^ l.trueHeight ≤ 2 ^ max l.trueHeight r.trueHeight :=
      Nat.pow_le_pow_right (by decide) (Nat.le_max_left _ _)
    have hr : 2 ^ r.trueHeight ≤ 2 ^ max l.trueHeight r.trueHeight :=
      Nat.pow_le_pow_right (by decide) (Nat.le_max_right _ _)
    rw [toList_node, trueHeight_node, Nat.pow_add, List.length_append, List.length_cons]
    omega

/-! ### Single rotations -/

/-- A right rotation needs the left child; the stale height of the new root covers it,
if the old root's covers what is left of it. -/
theorem covered_avlRightRotate (hy ky hx kx : Int) (vy vx : Option α) {lx z ry : AvlTree α}
    (hlx : lx.Covered) (hz : z.Covered) (hry : ry.Covered)
    (hstale : (1 + max z.trueHeight ry.trueHeight : Nat) ≤ hy) :
    ∃ t', avlRightRotate (node hy ky vy (node hx kx vx lx z) ry) = some t' ∧ t'.Covered := by
  have hy' : (node hy ky vy z ry).Covered := ⟨hstale, hz, hry⟩
  refine ⟨_, rfl, ?_, hlx, covered_avlUpdateHeight hz hry⟩
  exact heightOver_ge hlx hy'

/-- A left rotation needs the right child. -/
theorem covered_avlLeftRotate (hx kx hy ky : Int) (vx vy : Option α) {lx z ry : AvlTree α}
    (hlx : lx.Covered) (hz : z.Covered) (hry : ry.Covered) :
    ∃ t', avlLeftRotate (node hx kx vx lx (node hy ky vy z ry)) = some t' ∧ t'.Covered := by
  have hx' : (avlUpdateHeight (node hx kx vx lx z)).Covered := covered_avlUpdateHeight hlx hz
  exact ⟨_, rfl, heightOver_ge hx' hry, hx', hry⟩

/-! ### Double rotations -/

/-- The left child and its right child are there. -/
theorem covered_leftRight (h k lh lk zh zk : Int) (v lv zv : Option α) {a b c r : AvlTree α}
    (ha : a.Covered) (hb : b.Covered) (hc : c.Covered) (hr : r.Covered)
    (hstale : (1 + max c.trueHeight r.trueHeight : Nat) ≤ h) :
    ∃ t', (do avlRightRotate (node h k v
        (← avlLeftRotate (node lh lk lv a (node zh zk zv b c))) r)) = some t' ∧ t'.Covered := by
  have hx : (avlUpdateHeight (node lh lk lv a b)).Covered := covered_avlUpdateHeight ha hb
  exact covered_avlRightRotate h k (heightOver (avlUpdateHeight (node lh lk lv a b)) c) zk v zv hx hc
    hr hstale

/-- The right child and its left child are there. -/
theorem covered_rightLeft (h k rh rk zh zk : Int) (v rv zv : Option α) {l a b c : AvlTree α}
    (hl : l.Covered) (ha : a.Covered) (hb : b.Covered) (hc : c.Covered) :
    ∃ t', (do avlLeftRotate (node h k v l
        (← avlRightRotate (node rh rk rv (node zh zk zv a b) c)))) = some t' ∧ t'.Covered :=
  covered_avlLeftRotate h k (heightOver a (node zh zk zv b c)) zk v zv hl ha
    (covered_avlUpdateHeight hb hc)

/-! ### Removal -/

theorem removeRebalance_covered {h k : Int} {v : Option α} {l r : AvlTree α} (hl : l.Covered)
    (hr : r.Covered) : ∃ t', removeRebalance (node h k v l r) = some t' ∧ t'.Covered := by
  have hover := heightOver_ge hl hr
  have hl0 := avlHeight_nonneg hl
  have hr0 := avlHeight_nonneg hr
  simp only [removeRebalance]
  split
  · -- the left side is too high
    rename_i hbal
    obtain ⟨hbal, -⟩ := hbal
    replace hbal : avlHeight l - avlHeight r > 1 := hbal
    obtain ⟨lh, lk, lv, ll, lr, rfl⟩ := exists_node (t := l) (by omega)
    obtain ⟨-, hll, hlr⟩ := hl
    rw [trueHeight_node] at hover
    exact covered_avlRightRotate _ _ _ _ _ _ hll hlr hr (by omega)
  · split
    · -- too high on the left, by the inner grandchild
      rename_i hbal
      obtain ⟨hbal, hinner⟩ := hbal
      replace hbal : avlHeight l - avlHeight r > 1 := hbal
      obtain ⟨lh, lk, lv, ll, lr, rfl⟩ := exists_node (t := l) (by omega)
      obtain ⟨-, hll, hlr⟩ := hl
      replace hinner : avlHeight ll - avlHeight lr < 0 := hinner
      have hll0 := avlHeight_nonneg hll
      obtain ⟨zh, zk, zv, za, zb, rfl⟩ := exists_node (t := lr) (by omega)
      obtain ⟨-, hza, hzb⟩ := hlr
      rw [trueHeight_node, trueHeight_node] at hover
      refine covered_leftRight _ _ _ _ _ _ _ _ _ hll hza hzb hr ?_
      show _ ≤ heightOver _ _
      omega
    · split
      · -- the right side is too high
        rename_i hbal
        obtain ⟨hbal, -⟩ := hbal
        replace hbal : avlHeight l - avlHeight r < -1 := hbal
        obtain ⟨rh, rk, rv, rl, rr, rfl⟩ := exists_node (t := r) (by omega)
        obtain ⟨-, hrl, hrr⟩ := hr
        exact covered_avlLeftRotate _ _ _ _ _ _ hl hrl hrr
      · split
        · -- too high on the right, by the inner grandchild
          rename_i hbal
          obtain ⟨hbal, hinner⟩ := hbal
          replace hbal : avlHeight l - avlHeight r < -1 := hbal
          obtain ⟨rh, rk, rv, rl, rr, rfl⟩ := exists_node (t := r) (by omega)
          obtain ⟨-, hrl, hrr⟩ := hr
          replace hinner : avlHeight rl - avlHeight rr > 0 := hinner
          have hrr0 := avlHeight_nonneg hrr
          obtain ⟨zh, zk, zv, za, zb, rfl⟩ := exists_node (t := rl) (by omega)
          obtain ⟨-, hza, hzb⟩ := hrl
          exact covered_rightLeft _ _ _ _ _ _ _ _ _ hl hza hzb hrr
        · exact ⟨_, rfl, covered_avlUpdateHeight hl hr⟩

/-- Removal always finds its pivots. -/
theorem avlRemove_covered {t : AvlTree α} (ht : t.Covered) (key : Int) :
    ∃ t', avlRemove t key = some t' ∧ t'.Covered := by
  induction t generalizing key with
  | nil => exact ⟨nil, rfl, trivial⟩
  | node h k v l r ihl ihr =>
    obtain ⟨-, hl, hr⟩ := ht
    rw [avlRemove]
    split
    · obtain ⟨l', hl', hcl⟩ := ihl hl key
      rw [hl']
      exact removeRebalance_covered hcl hr
    · split
      · obtain ⟨r', hr', hcr⟩ := ihr hr key
        rw [hr']
        exact removeRebalance_covered hl hcr
      · split
        · -- one child at most: it takes the node's place
          have hchild : ∀ u : AvlTree α, u.Covered →
              ∃ t', removeRebalance u = some t' ∧ t'.Covered := by
            intro u hu
            cases u with
            | nil => exact ⟨nil, rfl, trivial⟩
            | node uh uk uv ul ur => exact removeRebalance_covered hu.2.1 hu.2.2
          split
          · exact hchild r hr
          · exact hchild l hl
        · rename_i hnull
          have hne : r ≠ nil := by
            rintro rfl
            simp [isNull] at hnull
          obtain ⟨min, hmin⟩ := minNode_of_ne_nil hne
          obtain ⟨r', hr', hcr⟩ := ihr hr min.1
          simp only [hmin, Option.bind_eq_bind, Option.bind_some, hr']
          exact removeRebalance_covered hl hcr

/-! ### Insertion -/

/-- Two levels above its sibling, a subtree claims more than the sibling's nodes. -/
theorem lt_two_pow_of_height {sibling grown : AvlTree α} (hgrown : grown.Covered)
    (hlen : max 1 sibling.toList.length ≤ grown.toList.length) {h : Int}
    (hh : avlHeight grown + 1 < h) : max 1 sibling.toList.length < 2 ^ (h - 2).toNat := by
  have htrue := trueHeight_le_avlHeight hgrown
  have hpow : 2 ^ grown.trueHeight ≤ 2 ^ (h - 2).toNat :=
    Nat.pow_le_pow_right (by decide) (by omega)
  have hlt := length_toList_lt grown
  omega

/-- The key has been inserted to the left. -/
theorem insertRebalance_grownLeft {key h k : Int} {v : Option α} {sibling l r : AvlTree α}
    (hs : l.SearchTree) (hl : l.Covered) (hr : r.Covered) (hkey : ∃ w, (key, w) ∈ l.toList)
    (hbound : ∀ e, e ∈ r.toList → key < e.1)
    (hlen : max 1 sibling.toList.length ≤ l.toList.length)
    (hpivot : missesLeft r sibling = false) :
    ∃ t', insertRebalance key (node h k v l r) = some t' ∧ t'.Covered := by
  have hover := heightOver_ge hl hr
  have hl0 := avlHeight_nonneg hl
  have hr0 := avlHeight_nonneg hr
  simp only [insertRebalance]
  split
  · rename_i hbal
    replace hbal : avlHeight l - avlHeight r > 1 := hbal
    obtain ⟨lh, lk, lv, ll, lr, rfl⟩ := exists_node (t := l) (by omega)
    obtain ⟨hlh, hll, hlr⟩ := hl
    obtain ⟨-, -, hlt, -⟩ := hs
    simp only [trueHeight_node] at hover
    dsimp only
    split
    · refine covered_avlRightRotate _ _ _ _ _ _ hll hlr hr ?_
      show _ ≤ heightOver _ _
      omega
    · split
      · -- the key is in the right grandchild, so that one is there
        rename_i hgt
        cases lr with
        | nil =>
          exfalso
          obtain ⟨w, hw⟩ := hkey
          rcases List.mem_append.mp hw with hw | hw
          · have := hlt _ hw
            omega
          · simp only [toList_nil, List.mem_singleton, Prod.mk.injEq] at hw
            omega
        | node zh zk zv za zb =>
          obtain ⟨-, hza, hzb⟩ := hlr
          rw [trueHeight_node] at hover
          refine covered_leftRight _ _ _ _ _ _ _ _ _ hll hza hzb hr ?_
          show _ ≤ heightOver _ _
          omega
      · exact ⟨_, rfl, covered_avlUpdateHeight ⟨hlh, hll, hlr⟩ hr⟩
  · split
    · -- the key is below every key on the right: the inner pivot is the left grandchild
      rename_i hbal
      replace hbal : avlHeight l - avlHeight r < -1 := hbal
      obtain ⟨rh, rk, rv, rl, rr, rfl⟩ := exists_node (t := r) (by omega)
      obtain ⟨hrh, hrl, hrr⟩ := hr
      have hlt : key < rk := hbound (rk, rv) (by simp)
      dsimp only
      rw [if_neg (by omega), if_pos hlt]
      cases rl with
      | nil =>
        -- a right side of this height without it is what `missesLeft` looks for
        exfalso
        have hmiss : missesLeft (node rh rk rv nil rr) sibling = true := by
          replace hbal : avlHeight l - rh < -1 := hbal
          simp only [missesLeft, isNull, Bool.true_and, decide_eq_true_eq]
          exact lt_two_pow_of_height hl hlen (by omega)
        rw [hmiss] at hpivot
        cases hpivot
      | node zh zk zv za zb =>
        obtain ⟨-, hza, hzb⟩ := hrl
        exact covered_rightLeft _ _ _ _ _ _ _ _ _ hl hza hzb hrr
    · exact ⟨_, rfl, covered_avlUpdateHeight hl hr⟩

/-- The key has been inserted to the right. -/
theorem insertRebalance_grownRight {key h k : Int} {v : Option α} {sibling l r : AvlTree α}
    (hs : r.SearchTree) (hl : l.Covered) (hr : r.Covered) (hkey : ∃ w, (key, w) ∈ r.toList)
    (hbound : ∀ e, e ∈ l.toList → e.1 < key)
    (hlen : max 1 sibling.toList.length ≤ r.toList.length)
    (hpivot : missesRight l sibling = false) :
    ∃ t', insertRebalance key (node h k v l r) = some t' ∧ t'.Covered := by
  have hover := heightOver_ge hl hr
  have hl0 := avlHeight_nonneg hl
  have hr0 := avlHeight_nonneg hr
  simp only [insertRebalance]
  split
  · -- the key is above every key on the left: the inner pivot is the right grandchild
    rename_i hbal
    replace hbal : avlHeight l - avlHeight r > 1 := hbal
    obtain ⟨lh, lk, lv, ll, lr, rfl⟩ := exists_node (t := l) (by omega)
    obtain ⟨-, hll, hlr⟩ := hl
    have hlt : lk < key := hbound (lk, lv) (by simp)
    dsimp only
    rw [if_neg (by omega), if_pos hlt]
    cases lr with
    | nil =>
      exfalso
      have hmiss : missesRight (node lh lk lv ll nil) sibling = true := by
        replace hbal : lh - avlHeight r > 1 := hbal
        simp only [missesRight, isNull, Bool.true_and, decide_eq_true_eq]
        exact lt_two_pow_of_height hr hlen (by omega)
      rw [hmiss] at hpivot
      cases hpivot
    | node zh zk zv za zb =>
      obtain ⟨-, hza, hzb⟩ := hlr
      rw [trueHeight_node, trueHeight_node] at hover
      refine covered_leftRight _ _ _ _ _ _ _ _ _ hll hza hzb hr ?_
      show _ ≤ heightOver _ _
      omega
  · split
    · rename_i hbal
      replace hbal : avlHeight l - avlHeight r < -1 := hbal
      obtain ⟨rh, rk, rv, rl, rr, rfl⟩ := exists_node (t := r) (by omega)
      obtain ⟨hrh, hrl, hrr⟩ := hr
      obtain ⟨-, -, -, hgt⟩ := hs
      dsimp only
      split
      · exact covered_avlLeftRotate _ _ _ _ _ _ hl hrl hrr
      · split
        · -- the key is in the left grandchild
          rename_i hlt
          cases rl with
          | nil =>
            exfalso
            obtain ⟨w, hw⟩ := hkey
            rcases List.mem_cons.mp hw with hw | hw
            · simp only [Prod.mk.injEq] at hw
              omega
            · have := hgt _ hw
              omega
          | node zh zk zv za zb =>
            obtain ⟨-, hza, hzb⟩ := hrl
            exact covered_rightLeft _ _ _ _ _ _ _ _ _ hl hza hzb hrr
        · exact ⟨_, rfl, covered_avlUpdateHeight hl ⟨hrh, hrl, hrr⟩⟩
    · exact ⟨_, rfl, covered_avlUpdateHeight hl hr⟩

theorem avlInsert_covered {t : AvlTree α} (hs : t.SearchTree) (ht : t.Covered) {key : Int}
    (value : Option α) (hok : keepsPivots t key = true) :
    ∃ t', avlInsert true t key value = some t' ∧ t'.Covered := by
  induction t with
  | nil => exact ⟨node 1 key value nil nil, rfl, by simp, trivial, trivial⟩
  | node h k v l r ihl ihr =>
    obtain ⟨hsl, hsr, hlk, hkr⟩ := hs
    obtain ⟨hh, hl, hr⟩ := ht
    rw [keepsPivots] at hok
    rw [avlInsert]
    split
    · rename_i hk
      rw [if_pos hk, Bool.and_eq_true, Bool.not_eq_true'] at hok
      obtain ⟨l', hl', hcl⟩ := ihl hsl hl hok.2
      have hlist := toList_avlInsert hsl hl'
      rw [hl']
      refine insertRebalance_grownLeft (hsl.avlInsert hl') hcl hr ?_ ?_ ?_ hok.1
      · rw [hlist]
        exact SortedAssoc.exists_mem_insertNew ..
      · intro e he
        have := hkr e he
        omega
      · rw [hlist]
        exact SortedAssoc.length_le_insertNew ..
    · rename_i hk'
      rw [if_neg hk'] at hok
      split
      · rename_i hk
        rw [if_pos hk, Bool.and_eq_true, Bool.not_eq_true'] at hok
        obtain ⟨r', hr', hcr⟩ := ihr hsr hr hok.2
        have hlist := toList_avlInsert hsr hr'
        rw [hr']
        refine insertRebalance_grownRight (hsr.avlInsert hr') hl hcr ?_ ?_ ?_ hok.1
        · rw [hlist]
          exact SortedAssoc.exists_mem_insertNew ..
        · intro e he
          have := hlk e he
          omega
        · rw [hlist]
          exact SortedAssoc.length_le_insertNew ..
      · exact ⟨_, rfl, hh, hl, hr⟩

/-! ### Runs from the empty tree -/

/-- The call meets no stale height where an inner pivot is missing. -/
def findsPivots (t : AvlTree α) : AvlOp α → Bool
  | .insert key _ => keepsPivots t key
  | .remove _ => true

theorem applyOp_search {t t' : AvlTree α} (hs : t.SearchTree) {op : AvlOp α}
    (hst : applyOp t op = some t') : t'.SearchTree := by
  cases op with
  | insert key value => exact hs.avlInsert hst
  | remove key => exact hs.avlRemove hst

theorem applyOp_covered {t : AvlTree α} (hs : t.SearchTree) (ht : t.Covered) {op : AvlOp α}
    (hok : findsPivots t op = true) : ∃ t', applyOp t op = some t' ∧ t'.Covered := by
  cases op with
  | insert key value => exact avlInsert_covered hs ht value hok
  | remove key => exact avlRemove_covered ht key

/-- **Rotations find their pivots.**  In every run from the empty tree in which no
insertion passes a child that lacks the inner grandchild and claims two levels more
than its sibling's nodes are known to take, no call reads through a NULL child. -/
theorem applyOp_isSome_of_reachable {t : AvlTree α}
    (h : (avlSystem α).Reachable (fun t op => findsPivots t op = true) t) {op : AvlOp α}
    (hok : findsPivots t op = true) : (applyOp t op).isSome = true := by
  have hinv : t.SearchTree ∧ t.Covered := by
    refine h.invariant (fun t => t.SearchTree ∧ t.Covered) ?_ ?_
    · rintro t rfl
      exact ⟨trivial, trivial⟩
    · rintro t op t' ⟨hs, ht⟩ hok hst
      obtain ⟨u, hu, hcu⟩ := applyOp_covered hs ht hok
      obtain rfl := Option.some.inj (hst.symm.trans hu)
      exact ⟨applyOp_search hs hst, hcu⟩
  obtain ⟨t', ht', -⟩ := applyOp_covered hinv.1 hinv.2 hok
  rw [ht']
  rfl

/-- Right and double rotations, and a removal. -/
theorem applyOp_isSome_mixedRun :
    ∃ t, Transition.System.runFrom (fun t op => findsPivots t op = true) applyOp nil
        [.insert 6 (some 0), .insert 2 (some 0), .insert 4 (some 0), .insert 1 (some 0),
          .insert 3 (some 0), .remove 6] = some t ∧
      findsPivots t (.insert 5 (some 0)) = true ∧
      (applyOp t (.insert 5 (some 0))).isSome = true := by
  have hrun : (Transition.System.runFrom (fun t op => findsPivots t op = true) applyOp nil
      [.insert 6 (some 0), .insert 2 (some 0), .insert 4 (some 0), .insert 1 (some 0),
        .insert 3 (some 0), .remove 6]).any
        (fun t => findsPivots t (.insert 5 (some 0))) = true := by decide +kernel
  obtain ⟨t, ht, hok⟩ := (Option.any_eq_true _ _).mp hrun
  exact ⟨t, ht, hok, applyOp_isSome_of_reachable (.runFrom _ _ (.init rfl) ht) hok⟩

/-- After these eight keys the ninth makes a node seem to lean to the side the key did
not go to, around a grandchild that is not there. -/
theorem not_applyOp_isSome :
    ¬ ∀ (t : AvlTree Nat) (op : AvlOp Nat), (avlSystem Nat).Reachable Transition.anyStep t →
      (applyOp t op).isSome = true := by
  intro hall
  have hrun : (Transition.System.runFrom Transition.anyStep applyOp nil
      [.insert 6 (some 0), .insert 8 (some 0), .insert 12 (some 0), .insert 1 (some 0),
        .insert 3 (some 0), .insert 10 (some 0), .insert 11 (some 0), .insert 2 (some 0)]).any
        (fun t => applyOp t (.insert 9 (some 0)) = none) = true := by decide +kernel
  obtain ⟨t, ht, hnone⟩ := (Option.any_eq_true _ _).mp hrun
  have hsome := hall t (.insert 9 (some 0)) (.runFrom _ _ (.init rfl) ht)
  rw [of_decide_eq_true hnone] at hsome
  cases hsome

end AvlTree
end QuarkKernel
