import QuarkKernel.AvlMap
import QuarkKernel.Transition

/-! # The AVL balance invariant

`avl_right_rotate` refreshes the height of the new root before that of the node
it has just put below it, so the root of a right rotation keeps a stale height.
A left rotation refreshes them in the right order, also the stale height its
inner right rotation leaves.  So the balance invariant survives an operation that
leaves no node two levels higher on the left: such a node is what the operations
rotate right.  `insertTipsLeft` and `removeTipsLeft` say on the tree before the
operation, from the true heights, whether there will be one. -/
namespace QuarkKernel
namespace AvlTree
variable {α : Type}

/-- The number of levels. -/
def trueHeight : AvlTree α → Nat
  | nil => 0
  | node _ _ _ left right => 1 + max (trueHeight left) (trueHeight right)

/-- Every node stores its true height, and its two subtrees differ in height by
at most one. -/
def Balanced : AvlTree α → Prop
  | nil => True
  | node h _ _ left right =>
      h = (1 + max (trueHeight left) (trueHeight right) : Nat) ∧
        trueHeight left ≤ trueHeight right + 1 ∧ trueHeight right ≤ trueHeight left + 1 ∧
        Balanced left ∧ Balanced right

/-- `avl_insert` adds a level: `key` is new, and every node on its search path
has two subtrees of the same height. -/
def insertGrows : AvlTree α → Int → Bool
  | nil, _ => true
  | node _ k _ left right, key =>
      trueHeight left == trueHeight right &&
        (if key < k then insertGrows left key
          else if key > k then insertGrows right key
          else false)

/-- `avl_insert` adds a level to the left subtree of a node whose left subtree is
the higher one. -/
def insertTipsLeft : AvlTree α → Int → Bool
  | nil, _ => false
  | node _ k _ left right, key =>
      if key < k then
        insertTipsLeft left key || (insertGrows left key && trueHeight right < trueHeight left)
      else if key > k then insertTipsLeft right key
      else false

/-- The two subtrees differ in height. -/
def lopsided : AvlTree α → Bool
  | nil => false
  | node _ _ _ left right => trueHeight left != trueHeight right

/-- A subtree that loses a level takes one from its parent: it was the higher of
the two, or its sibling, now two levels higher, is lopsided and gives the level
back when it is rotated up. -/
def lowersParent (sub sibling : AvlTree α) : Bool :=
  trueHeight sibling < trueHeight sub || (trueHeight sub < trueHeight sibling && lopsided sibling)

/-- `avl_remove` takes a level away. -/
def removeShrinks : AvlTree α → Int → Bool
  | nil, _ => false
  | node _ k _ left right, key =>
      if key < k then removeShrinks left key && lowersParent left right
      else if key > k then removeShrinks right key && lowersParent right left
      else if left.isNull || right.isNull then true
      else
        match minNode right with
        | none => false
        | some min => removeShrinks right min.1 && lowersParent right left

/-- `avl_remove` takes a level from the right subtree of a node whose left
subtree is the higher one. -/
def removeTipsLeft : AvlTree α → Int → Bool
  | nil, _ => false
  | node _ k _ left right, key =>
      if key < k then removeTipsLeft left key
      else if key > k then
        removeTipsLeft right key || (removeShrinks right key && trueHeight right < trueHeight left)
      else if left.isNull || right.isNull then false
      else
        match minNode right with
        | none => false
        | some min =>
            removeTipsLeft right min.1 ||
              (removeShrinks right min.1 && trueHeight right < trueHeight left)

/-! ### Heights -/

@[simp] theorem trueHeight_nil : (nil : AvlTree α).trueHeight = 0 := rfl

@[simp] theorem trueHeight_node (h k : Int) (v : Option α) (l r : AvlTree α) :
    (node h k v l r).trueHeight = 1 + max l.trueHeight r.trueHeight := rfl

theorem Balanced.avlHeight {t : AvlTree α} (h : t.Balanced) : avlHeight t = t.trueHeight := by
  cases t with
  | nil => rfl
  | node _ k v l r => exact h.1

theorem heightOver_eq {l r : AvlTree α} (hl : l.Balanced) (hr : r.Balanced) :
    heightOver l r = (1 + max l.trueHeight r.trueHeight : Nat) := by
  rw [heightOver, hl.avlHeight, hr.avlHeight]
  split <;> omega

theorem Balanced.avlUpdateHeight {h k : Int} {v : Option α} {l r : AvlTree α} (hl : l.Balanced)
    (hr : r.Balanced) (hlr : l.trueHeight ≤ r.trueHeight + 1)
    (hrl : r.trueHeight ≤ l.trueHeight + 1) : (avlUpdateHeight (node h k v l r)).Balanced :=
  ⟨heightOver_eq hl hr, hlr, hrl, hl, hr⟩

theorem avlBalance_avlUpdateHeight {h k : Int} {v : Option α} {l r : AvlTree α}
    (hl : l.Balanced) (hr : r.Balanced) :
    avlBalance (avlUpdateHeight (node h k v l r)) = (l.trueHeight : Int) - r.trueHeight := by
  show avlHeight l - avlHeight r = _
  rw [hl.avlHeight, hr.avlHeight]

/-! ### Rotations to the left -/

/-- A left rotation of a node over balanced parts, whatever heights the two
rotated nodes store. -/
theorem avlLeftRotate_balanced (h k hr rk : Int) (v rv : Option α) {l rl rr : AvlTree α}
    (bl : l.Balanced) (brl : rl.Balanced) (brr : rr.Balanced)
    (h1 : l.trueHeight ≤ rl.trueHeight + 1) (h2 : rl.trueHeight ≤ l.trueHeight + 1)
    (h3 : 1 + max l.trueHeight rl.trueHeight ≤ rr.trueHeight + 1)
    (h4 : rr.trueHeight ≤ 1 + max l.trueHeight rl.trueHeight + 1) :
    ∃ t', avlLeftRotate (node h k v l (node hr rk rv rl rr)) = some t' ∧ t'.Balanced ∧
      t'.trueHeight = 1 + max (1 + max l.trueHeight rl.trueHeight) rr.trueHeight := by
  have bx : (avlUpdateHeight (node h k v l rl)).Balanced := bl.avlUpdateHeight brl h1 h2
  exact ⟨_, rfl, ⟨heightOver_eq bx brr, h3, h4, bx, brr⟩, rfl⟩

/-- A right rotation of the right child followed by a left rotation: the outer
rotation replaces the stale height the inner one leaves. -/
theorem avlRightLeftRotate_balanced (h k hr rk hz zk : Int) (v rv zv : Option α)
    {l a b rr : AvlTree α} (bl : l.Balanced) (ba : a.Balanced) (bb : b.Balanced)
    (brr : rr.Balanced) (h1 : l.trueHeight ≤ a.trueHeight + 1) (h2 : a.trueHeight ≤ l.trueHeight + 1)
    (h3 : b.trueHeight ≤ rr.trueHeight + 1) (h4 : rr.trueHeight ≤ b.trueHeight + 1)
    (h5 : max l.trueHeight a.trueHeight ≤ max b.trueHeight rr.trueHeight + 1)
    (h6 : max b.trueHeight rr.trueHeight ≤ max l.trueHeight a.trueHeight + 1) :
    ∃ t', (do avlLeftRotate (node h k v l
        (← avlRightRotate (node hr rk rv (node hz zk zv a b) rr)))) = some t' ∧ t'.Balanced ∧
      t'.trueHeight =
        1 + max (1 + max l.trueHeight a.trueHeight) (1 + max b.trueHeight rr.trueHeight) := by
  have bz : (avlUpdateHeight (node hr rk rv b rr)).Balanced := bb.avlUpdateHeight brr h3 h4
  have hz : (avlUpdateHeight (node hr rk rv b rr)).trueHeight =
      1 + max b.trueHeight rr.trueHeight := rfl
  obtain ⟨t', ht', hb, hh⟩ := avlLeftRotate_balanced h k
    (heightOver a (node hr rk rv b rr)) zk v zv bl ba bz h1 h2 (by omega) (by omega)
  exact ⟨t', ht', hb, by rw [hh, hz]⟩

/-! ### Insertion -/

/-- The height over a subtree that may have grown, and not past its sibling by
more than a level. -/
theorem max_add_toNat {a b : Nat} {g : Bool} (h : a + g.toNat ≤ b + 1) :
    max (a + g.toNat) b = max a b + (a == b && g).toNat := by
  cases g with
  | false => simp
  | true =>
    simp only [Bool.toNat_true] at h
    by_cases hab : a = b
    · simp [hab]
    · rw [beq_false_of_ne hab, Bool.false_and, Bool.toNat_true, Bool.toNat_false]
      omega

/-- Without a difference of two there is nothing to rotate. -/
theorem insertRebalance_of_le {key h k : Int} {v : Option α} {l r : AvlTree α}
    (bl : l.Balanced) (br : r.Balanced) (hlr : l.trueHeight ≤ r.trueHeight + 1)
    (hrl : r.trueHeight ≤ l.trueHeight + 1) :
    insertRebalance key (node h k v l r) = some (avlUpdateHeight (node h k v l r)) := by
  have hbal := avlBalance_avlUpdateHeight (h := h) (k := k) (v := v) bl br
  simp only [insertRebalance]
  rw [if_neg (by omega), if_neg (by omega)]

/-- Where the right side has become two levels higher, its root is the one it was
before, with `key` gone into its higher subtree: one rotation, or two, restore
the balance at the height the tree had before. -/
theorem insertRebalance_right {key h k hr rk : Int} {v rv : Option α} {l rl rr : AvlTree α}
    (bl : l.Balanced) (br : (node hr rk rv rl rr).Balanced)
    (hh : (node hr rk rv rl rr).trueHeight = l.trueHeight + 2)
    (hlt : key < rk → rl.trueHeight = rr.trueHeight + 1)
    (hgt : rk < key → rr.trueHeight = rl.trueHeight + 1) (hne : key ≠ rk) :
    ∃ t', insertRebalance key (node h k v l (node hr rk rv rl rr)) = some t' ∧ t'.Balanced ∧
      t'.trueHeight = l.trueHeight + 2 := by
  have hbal := avlBalance_avlUpdateHeight (h := h) (k := k) (v := v) bl br
  obtain ⟨-, -, -, brl, brr⟩ := br
  simp only [trueHeight_node] at hh
  simp only [insertRebalance]
  rw [if_neg (by simp only [trueHeight_node] at hbal; omega),
    if_pos (by simp only [trueHeight_node] at hbal; omega)]
  rcases lt_or_gt_of_ne hne with hk | hk
  · have hrl := hlt hk
    rw [if_neg (by omega), if_pos hk]
    cases rl with
    | nil => simp at hrl
    | node hz zk zv a b =>
      obtain ⟨-, hab, hba, ba, bb⟩ := brl
      simp only [trueHeight_node] at hh hrl
      obtain ⟨t', ht', hb, hth⟩ := avlRightLeftRotate_balanced
        (avlHeight (avlUpdateHeight (node h k v l (node hr rk rv (node hz zk zv a b) rr))))
        k hr rk hz zk v rv zv bl ba bb brr (by omega) (by omega) (by omega) (by omega) (by omega) (by omega)
      exact ⟨t', ht', hb, by omega⟩
  · have hrr := hgt hk
    rw [if_pos hk]
    obtain ⟨t', ht', hb, hth⟩ := avlLeftRotate_balanced
      (heightOver l (node hr rk rv rl rr)) k hr rk v rv bl brl brr (by omega) (by omega) (by omega) (by omega)
    exact ⟨t', ht', hb, by omega⟩

/-- The root of a tree an insertion makes higher is unchanged, and the subtree
`key` went into is the higher one. -/
def GrownFrom (key : Int) (t t' : AvlTree α) : Prop :=
  ∀ h k v l r, t = node h k v l r → ∃ h' l' r', t' = node h' k v l' r' ∧
    (key < k → l'.trueHeight = r'.trueHeight + 1) ∧
    (k < key → r'.trueHeight = l'.trueHeight + 1) ∧ key ≠ k

theorem avlInsert_balanced {t : AvlTree α} (hb : t.Balanced) {key : Int} (value : Option α)
    (htip : insertTipsLeft t key = false) :
    ∃ t', avlInsert true t key value = some t' ∧ t'.Balanced ∧
      t'.trueHeight = t.trueHeight + (insertGrows t key).toNat ∧
      (insertGrows t key = true → GrownFrom key t t') := by
  induction t with
  | nil =>
    refine ⟨node 1 key value nil nil, rfl, ⟨rfl, ?_, ?_, trivial, trivial⟩, rfl, ?_⟩
    · simp
    · simp
    · intro _ _ _ _ _ _ h
      cases h
  | node h k v l r ihl ihr =>
    obtain ⟨hh, hlr, hrl, bl, br⟩ := hb
    rw [insertTipsLeft] at htip
    rw [avlInsert, insertGrows]
    split
    · -- into the left subtree, which does not become two levels higher
      rename_i hk
      rw [if_pos hk, Bool.or_eq_false_iff] at htip
      obtain ⟨l', hl', bl', hhl', -⟩ := ihl bl htip.1
      have hle : (insertGrows l key).toNat + l.trueHeight ≤ r.trueHeight + 1 := by
        cases hg : insertGrows l key with
        | false => simpa using hlr
        | true =>
          have := htip.2
          simp only [hg, Bool.true_and, decide_eq_false_iff_not] at this
          simp only [Bool.toNat_true]
          omega
      refine ⟨_, (by rw [hl']; exact insertRebalance_of_le bl' br (by omega) (by omega)),
        bl'.avlUpdateHeight br (by omega) (by omega), ?_, ?_⟩
      · simp only [avlUpdateHeight, trueHeight_node, hhl']
        rw [max_add_toNat (by omega)]
        omega
      · intro hg
        simp only [Bool.and_eq_true, beq_iff_eq] at hg
        rintro _ _ _ _ _ ⟨⟩
        refine ⟨_, l', r, rfl, fun _ => ?_, fun hk' => absurd hk (by omega), by omega⟩
        rw [hhl', hg.1, hg.2, Bool.toNat_true]
    · split
      · rename_i hk' hk
        rw [if_neg hk', if_pos hk] at htip
        obtain ⟨r', hr', br', hhr', hshape⟩ := ihr br htip
        rw [hr']
        by_cases htwo : r'.trueHeight = l.trueHeight + 2
        · -- the right subtree was the higher one, and has grown
          have hg : insertGrows r key = true := by
            cases hg : insertGrows r key with
            | true => rfl
            | false => simp only [hg, Bool.toNat_false] at hhr'; omega
          rw [hg, Bool.toNat_true] at hhr'
          cases r with
          | nil => simp at hhr'; omega
          | node hr rk rv rl rr =>
            obtain ⟨hr', rl', rr', rfl, hlt, hgt, hne⟩ := hshape hg _ _ _ _ _ rfl
            obtain ⟨t', ht', bt', hht'⟩ :=
              insertRebalance_right (h := h) (k := k) (v := v) bl br' htwo hlt hgt hne
            have hneq : l.trueHeight ≠ (node hr rk rv rl rr).trueHeight := by omega
            refine ⟨t', ht', bt', ?_, ?_⟩
            · rw [trueHeight_node h, beq_false_of_ne hneq, Bool.false_and, Bool.toNat_false]
              omega
            · intro hg'
              rw [beq_false_of_ne hneq] at hg'
              cases hg'
        · -- not two levels higher: no rotation, only the height
          have hle : r'.trueHeight ≤ l.trueHeight + 1 := by
            cases hg : insertGrows r key <;> simp [hg] at hhr' <;> omega
          refine ⟨_, insertRebalance_of_le bl br' (by omega) hle,
            bl.avlUpdateHeight br' (by omega) hle, ?_, ?_⟩
          · simp only [avlUpdateHeight, trueHeight_node, hhr']
            rw [Nat.max_comm, max_add_toNat (by omega), Nat.max_comm, Bool.beq_comm]
            omega
          · intro hg
            simp only [Bool.and_eq_true, beq_iff_eq] at hg
            rintro _ _ _ _ _ ⟨⟩
            refine ⟨_, l, r', rfl, fun hk'' => absurd hk (by omega), fun _ => ?_, by omega⟩
            rw [hhr', ← hg.1, hg.2, Bool.toNat_true]
      · exact ⟨_, rfl, ⟨hh, hlr, hrl, bl, br⟩, by simp, by simp⟩

/-! ### Removal -/

theorem minNode_of_ne_nil {t : AvlTree α} (h : t ≠ nil) : ∃ min, minNode t = some min := by
  cases t with
  | nil => exact absurd rfl h
  | node _ k v l r =>
    have hne : l.toList ++ (k, v) :: r.toList ≠ [] := by simp
    exact ⟨_, by rw [minNode_eq_head?, toList_node, List.head?_eq_some_head hne]⟩

theorem removeRebalance_of_le {h k : Int} {v : Option α} {l r : AvlTree α}
    (bl : l.Balanced) (br : r.Balanced) (hlr : l.trueHeight ≤ r.trueHeight + 1)
    (hrl : r.trueHeight ≤ l.trueHeight + 1) :
    removeRebalance (node h k v l r) = some (avlUpdateHeight (node h k v l r)) := by
  have hbal := avlBalance_avlUpdateHeight (h := h) (k := k) (v := v) bl br
  simp only [removeRebalance]
  rw [if_neg (by omega), if_neg (by omega), if_neg (by omega), if_neg (by omega)]

/-- A right side two levels higher is rotated up; the tree keeps the level it
gained exactly when the right child's subtrees have the same height. -/
theorem removeRebalance_right {h k : Int} {v : Option α} {l r : AvlTree α}
    (bl : l.Balanced) (br : r.Balanced) (hh : r.trueHeight = l.trueHeight + 2) :
    ∃ t', removeRebalance (node h k v l r) = some t' ∧ t'.Balanced ∧
      t'.trueHeight + r.lopsided.toNat = l.trueHeight + 3 := by
  have hbal := avlBalance_avlUpdateHeight (h := h) (k := k) (v := v) bl br
  cases r with
  | nil => simp at hh
  | node hr rk rv rl rr =>
    obtain ⟨hhr, hlr, hrl, brl, brr⟩ := br
    have hside : avlBalance (node hr rk rv rl rr) = (rl.trueHeight : Int) - rr.trueHeight := by
      rw [avlBalance, brl.avlHeight, brr.avlHeight]
    simp only [trueHeight_node] at hh hbal
    simp only [removeRebalance]
    rw [if_neg (by omega), if_neg (by omega)]
    by_cases hle : rl.trueHeight ≤ rr.trueHeight
    · rw [if_pos (by omega)]
      obtain ⟨t', ht', hb, hth⟩ := avlLeftRotate_balanced
        (heightOver l (node hr rk rv rl rr)) k hr rk v rv bl brl brr (by omega) (by omega) (by omega) (by omega)
      refine ⟨t', ht', hb, ?_⟩
      by_cases heq : rl.trueHeight = rr.trueHeight
      · simp only [lopsided, heq, bne_self_eq_false, Bool.toNat_false]
        omega
      · simp only [lopsided, bne_iff_ne.mpr heq, Bool.toNat_true]
        omega
    · -- the inner grandchild is the higher one: a double rotation
      rw [if_neg (by omega), if_pos (by omega)]
      cases rl with
      | nil => simp at hle
      | node hz zk zv a b =>
        obtain ⟨-, hab, hba, ba, bb⟩ := brl
        simp only [trueHeight_node] at hh hle hlr
        obtain ⟨t', ht', hb, hth⟩ := avlRightLeftRotate_balanced
          (avlHeight (avlUpdateHeight (node h k v l (node hr rk rv (node hz zk zv a b) rr))))
          k hr rk hz zk v rv zv bl ba bb brr (by omega) (by omega) (by omega) (by omega) (by omega) (by omega)
        have hlop : lopsided (node hr rk rv (node hz zk zv a b) rr) = true :=
          bne_iff_ne.mpr (by simp only [trueHeight_node]; omega)
        refine ⟨t', ht', hb, ?_⟩
        rw [hlop, Bool.toNat_true]
        omega

/-- The left subtree may have lost a level. -/
theorem removeRebalance_shrunk_left {h k : Int} {v : Option α} {l l' r : AvlTree α} {s : Bool}
    (bl' : l'.Balanced) (br : r.Balanced) (hlr : l.trueHeight ≤ r.trueHeight + 1)
    (hrl : r.trueHeight ≤ l.trueHeight + 1) (hs : l'.trueHeight + s.toNat = l.trueHeight) :
    ∃ t', removeRebalance (node h k v l' r) = some t' ∧ t'.Balanced ∧
      t'.trueHeight + (s && lowersParent l r).toNat = 1 + max l.trueHeight r.trueHeight := by
  by_cases htwo : r.trueHeight = l'.trueHeight + 2
  · obtain ⟨t', ht', bt', hht'⟩ := removeRebalance_right (h := h) (k := k) (v := v) bl' br htwo
    have hs1 : s = true := by cases s with
      | true => rfl
      | false => simp only [Bool.toNat_false] at hs; omega
    subst hs1
    simp only [Bool.toNat_true] at hs
    refine ⟨t', ht', bt', ?_⟩
    have hnot : ¬ r.trueHeight < l.trueHeight := by omega
    have hlt : l.trueHeight < r.trueHeight := by omega
    simp only [lowersParent, hnot, hlt, decide_true, decide_false, Bool.true_and, Bool.false_or]
    omega
  · have hs1 : s.toNat ≤ 1 := Bool.toNat_le s
    refine ⟨_, removeRebalance_of_le bl' br (by omega) (by omega),
      bl'.avlUpdateHeight br (by omega) (by omega), ?_⟩
    simp only [avlUpdateHeight, trueHeight_node]
    cases s with
    | false => simp only [Bool.false_and, Bool.toNat_false] at hs ⊢; omega
    | true =>
      simp only [Bool.toNat_true] at hs
      have hnot : ¬ l.trueHeight < r.trueHeight := by omega
      by_cases hgt : r.trueHeight < l.trueHeight
      · simp only [lowersParent, hgt, decide_true, Bool.true_or, Bool.and_self, Bool.toNat_true]
        omega
      · simp only [lowersParent, hgt, hnot, decide_false, Bool.false_and, Bool.or_self,
          Bool.and_false, Bool.toNat_false]
        omega

/-- The right subtree may have lost a level, and was not the lower one. -/
theorem removeRebalance_shrunk_right {h k : Int} {v : Option α} {l r r' : AvlTree α} {s : Bool}
    (bl : l.Balanced) (br' : r'.Balanced) (hlr : l.trueHeight ≤ r.trueHeight + 1)
    (hrl : r.trueHeight ≤ l.trueHeight + 1) (hs : r'.trueHeight + s.toNat = r.trueHeight)
    (htip : (s && decide (r.trueHeight < l.trueHeight)) = false) :
    ∃ t', removeRebalance (node h k v l r') = some t' ∧ t'.Balanced ∧
      t'.trueHeight + (s && lowersParent r l).toNat = 1 + max l.trueHeight r.trueHeight := by
  have hle : l.trueHeight ≤ r'.trueHeight + 1 := by
    cases s with
    | false => simp only [Bool.toNat_false] at hs; omega
    | true =>
      simp only [Bool.true_and, decide_eq_false_iff_not] at htip
      simp only [Bool.toNat_true] at hs
      omega
  refine ⟨_, removeRebalance_of_le bl br' hle (by omega),
    bl.avlUpdateHeight br' hle (by omega), ?_⟩
  simp only [avlUpdateHeight, trueHeight_node]
  cases s with
  | false => simp only [Bool.false_and, Bool.toNat_false] at hs ⊢; omega
  | true =>
    simp only [Bool.true_and, decide_eq_false_iff_not] at htip
    simp only [Bool.toNat_true] at hs
    by_cases hlt : l.trueHeight < r.trueHeight
    · simp only [lowersParent, hlt, decide_true, Bool.true_or, Bool.and_self, Bool.toNat_true]
      omega
    · simp only [lowersParent, hlt, htip, decide_false, Bool.false_and, Bool.or_self,
        Bool.and_false, Bool.toNat_false]
      omega

theorem removeRebalance_balanced {t : AvlTree α} (hb : t.Balanced) :
    ∃ t', removeRebalance t = some t' ∧ t'.Balanced ∧ t'.trueHeight = t.trueHeight := by
  cases t with
  | nil => exact ⟨nil, rfl, trivial, rfl⟩
  | node h k v l r =>
    obtain ⟨-, hlr, hrl, bl, br⟩ := hb
    exact ⟨_, removeRebalance_of_le bl br hlr hrl, bl.avlUpdateHeight br hlr hrl, rfl⟩

theorem avlRemove_balanced {t : AvlTree α} (hb : t.Balanced) {key : Int}
    (htip : removeTipsLeft t key = false) :
    ∃ t', avlRemove t key = some t' ∧ t'.Balanced ∧
      t'.trueHeight + (removeShrinks t key).toNat = t.trueHeight := by
  induction t generalizing key with
  | nil => exact ⟨nil, rfl, trivial, rfl⟩
  | node h k v l r ihl ihr =>
    obtain ⟨hh, hlr, hrl, bl, br⟩ := hb
    rw [removeTipsLeft] at htip
    rw [avlRemove, removeShrinks, trueHeight_node]
    split
    · rename_i hk
      rw [if_pos hk] at htip
      obtain ⟨l', hl', bl', hhl'⟩ := ihl bl htip
      rw [hl']
      exact removeRebalance_shrunk_left bl' br hlr hrl hhl'
    · rename_i hk
      rw [if_neg hk] at htip
      split
      · rename_i hk'
        rw [if_pos hk', Bool.or_eq_false_iff] at htip
        obtain ⟨r', hr', br', hhr'⟩ := ihr br htip.1
        rw [hr']
        exact removeRebalance_shrunk_right bl br' hlr hrl hhr' htip.2
      · rename_i hk'
        rw [if_neg hk'] at htip
        split
        · -- one child at most: it takes the node's place
          rename_i hnull
          split
          · rename_i hl
            obtain rfl := (isNull_iff l).mp hl
            obtain ⟨t', ht', bt', hht'⟩ := removeRebalance_balanced br
            exact ⟨t', ht', bt', by simp [hht', Nat.add_comm]⟩
          · rename_i hl
            obtain rfl : r = nil := (isNull_iff r).mp (by simpa [hl] using hnull)
            obtain ⟨t', ht', bt', hht'⟩ := removeRebalance_balanced bl
            exact ⟨t', ht', bt', by simp [hht', Nat.add_comm]⟩
        · -- two children: the least entry on the right takes the node's place
          rename_i hnull
          have hne : r ≠ nil := by
            rintro rfl
            simp [isNull] at hnull
          obtain ⟨min, hmin⟩ := minNode_of_ne_nil hne
          rw [if_neg hnull, hmin] at htip
          simp only [Bool.or_eq_false_iff] at htip
          obtain ⟨r', hr', br', hhr'⟩ := ihr br htip.1
          rw [hmin]
          simp only [Option.bind_eq_bind, Option.bind_some, hr']
          exact removeRebalance_shrunk_right bl br' hlr hrl hhr' htip.2

/-! ### Runs from the empty tree -/

/-- A call of `avl_insert` or `avl_remove`. -/
inductive AvlOp (α : Type) where
  | insert (key : Int) (value : Option α)
  | remove (key : Int)

/-- The tree a call leaves. -/
def applyOp (t : AvlTree α) : AvlOp α → Option (AvlTree α)
  | .insert key value => avlInsert true t key value
  | .remove key => avlRemove t key

/-- The call leaves some node two levels higher on the left. -/
def tipsLeft (t : AvlTree α) : AvlOp α → Bool
  | .insert key _ => insertTipsLeft t key
  | .remove key => removeTipsLeft t key

/-- Sequences of calls that start from NULL. -/
def avlSystem (α : Type) : Transition.System (AvlTree α) (AvlOp α) :=
  .ofStep (fun t => t = nil) applyOp

theorem applyOp_balanced {t : AvlTree α} (hb : t.Balanced) {op : AvlOp α}
    (htip : tipsLeft t op = false) : ∃ t', applyOp t op = some t' ∧ t'.Balanced := by
  cases op with
  | insert key value =>
    obtain ⟨t', ht', hb', -⟩ := avlInsert_balanced hb value htip
    exact ⟨t', ht', hb'⟩
  | remove key =>
    obtain ⟨t', ht', hb', -⟩ := avlRemove_balanced hb htip
    exact ⟨t', ht', hb'⟩

/-- **The balance invariant, without right rotations.**  Along every run from the
empty tree that never makes a node two levels higher on the left, every node
stores its true height and its subtrees differ by at most one level. -/
theorem balanced_of_reachable {t : AvlTree α}
    (h : (avlSystem α).Reachable (fun t op => tipsLeft t op = false) t) : t.Balanced := by
  refine h.invariant Balanced (fun t ht => ?_) (fun t op t' hb htip hst => ?_)
  · rw [show t = nil from ht]
    trivial
  · obtain ⟨u, hu, hbu⟩ := applyOp_balanced hb htip
    rwa [Option.some.inj (hst.symm.trans hu)]

/-- Ascending keys rotate left; the removal of the root then moves its successor
up. -/
theorem balanced_of_reachable_ascending :
    (node 2 3 (some 30) (node 1 1 (some 10) nil nil) nil).Balanced :=
  balanced_of_reachable (Transition.System.Reachable.runFrom _
    [.insert 1 (some 10), .insert 2 (some 20), .insert 3 (some 30), .remove 2]
    (.init rfl) (by decide))

/-- Descending keys rotate right: the root of three nodes stores the height 4. -/
theorem not_balanced_descending :
    ¬ ∀ t : AvlTree Nat, (avlSystem Nat).Reachable Transition.anyStep t → t.Balanced := by
  intro h
  have hreach : (avlSystem Nat).Reachable Transition.anyStep
      (node 4 2 (some 20) (node 1 1 (some 10) nil nil) (node 1 3 (some 30) nil nil)) :=
    Transition.System.Reachable.runFrom _
      [.insert 3 (some 30), .insert 2 (some 20), .insert 1 (some 10)]
      (.init rfl) (by decide)
  have hroot := (h _ hreach).1
  simp at hroot

end AvlTree
end QuarkKernel
