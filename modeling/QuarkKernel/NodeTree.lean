import QuarkKernel.AvlMap
import QuarkKernel.BlockHeap
import Mathlib.Algebra.Order.Group.Multiset

/-! # The nodes of an AVL tree

`avltree.c` again, with the block each node is in.  A rotation relinks the nodes, but
`avl_remove` does not always free the node whose key it removes: a node with one child
takes over the child's contents, and a node with two those of its successor, so it is
the child's node, or the successor's, that goes.

`erase` forgets the blocks, and every function is then the one on `AvlTree`.  What the
functions do to the blocks is in `nodes_avlInsert` and `nodes_avlRemove`: one node
comes in, or one goes.

`avl_remove` calls `kfree` inside of its recursion.  A node whose contents another one has
taken over is not linked to any more by then.  One without children is: the link to it,
from its parent or from the root, is overwritten when the call below has returned
(`avlRemoveFreeing_eq`, `leafFreed`). -/
namespace QuarkKernel

/-- `struct avltree_t`, with the block it is in. -/
inductive NodeTree (Block α : Type) where
  | nil
  | node (block : Block) (height key : Int) (value : Option α) (left right : NodeTree Block α)
deriving DecidableEq, Repr

namespace NodeTree
variable {Block α β : Type}

/-- The test `tree == NULL`. -/
def isNull : NodeTree Block α → Bool
  | nil => true
  | node _ _ _ _ _ _ => false

/-- `avl_height` -/
def avlHeight : NodeTree Block α → Int
  | nil => 0
  | node _ height _ _ _ _ => height

/-- `avl_balance` -/
def avlBalance : NodeTree Block α → Int
  | nil => 0
  | node _ _ _ _ left right => avlHeight left - avlHeight right

/-- The height `avl_update_height` stores over two children. -/
def heightOver (left right : NodeTree Block α) : Int :=
  1 + if avlHeight left > avlHeight right then avlHeight left else avlHeight right

/-- `avl_update_height` -/
def avlUpdateHeight : NodeTree Block α → NodeTree Block α
  | nil => nil
  | node b _ key value left right => node b (heightOver left right) key value left right

/-- `avl_right_rotate` -/
def avlRightRotate : NodeTree Block α → Option (NodeTree Block α)
  | node b hy ky vy (node c _ kx vx lx z) ry =>
      let y := node b hy ky vy z ry
      some (node c (heightOver lx y) kx vx lx (avlUpdateHeight y))
  | _ => none

/-- `avl_left_rotate` -/
def avlLeftRotate : NodeTree Block α → Option (NodeTree Block α)
  | node b hx kx vx lx (node c _ ky vy z ry) =>
      let x := avlUpdateHeight (node b hx kx vx lx z)
      some (node c (heightOver x ry) ky vy x ry)
  | _ => none

/-- The end of `avl_insert`. -/
def insertRebalance (key : Int) : NodeTree Block α → Option (NodeTree Block α)
  | nil => none
  | node b height k value left right =>
      let tree := avlUpdateHeight (node b height k value left right)
      let balance := avlBalance tree
      if balance > 1 then
        match left with
        | nil => none
        | node _ _ lk _ _ _ =>
            if key < lk then avlRightRotate tree
            else if key > lk then do
              let left' ← avlLeftRotate left
              avlRightRotate (node b (avlHeight tree) k value left' right)
            else some tree
      else if balance < -1 then
        match right with
        | nil => none
        | node _ _ rk _ _ _ =>
            if key > rk then avlLeftRotate tree
            else if key < rk then do
              let right' ← avlRightRotate right
              avlLeftRotate (node b (avlHeight tree) k value left right')
            else some tree
      else some tree

/-- `avl_insert`, and the block `kmalloc` provided if it called `avl_new`. -/
def avlInsert (kmalloc : Option Block) : NodeTree Block α → Int → Option α →
    Option (NodeTree Block α × Option Block)
  | nil, key, value => kmalloc.map fun block => (node block 1 key value nil nil, some block)
  | node b h k v left right, key, value =>
      if key < k then do
        let (left, new) ← avlInsert kmalloc left key value
        (insertRebalance key (node b h k v left right)).map (·, new)
      else if key > k then do
        let (right, new) ← avlInsert kmalloc right key value
        (insertRebalance key (node b h k v left right)).map (·, new)
      else some (node b h k v left right, none)

/-- The leftmost node's key and value. -/
def minNode : NodeTree Block α → Option (Int × Option α)
  | nil => none
  | node _ _ k v left _ => if left.isNull then some (k, v) else minNode left

/-- The end of `avl_remove`. -/
def removeRebalance : NodeTree Block α → Option (NodeTree Block α)
  | nil => some nil
  | node b height k value left right =>
      let tree := avlUpdateHeight (node b height k value left right)
      let balance := avlBalance tree
      if balance > 1 ∧ avlBalance left ≥ 0 then avlRightRotate tree
      else if balance > 1 ∧ avlBalance left < 0 then do
        let left' ← avlLeftRotate left
        avlRightRotate (node b (avlHeight tree) k value left' right)
      else if balance < -1 ∧ avlBalance right ≤ 0 then avlLeftRotate tree
      else if balance < -1 ∧ avlBalance right > 0 then do
        let right' ← avlRightRotate right
        avlLeftRotate (node b (avlHeight tree) k value left right')
      else some tree

/-- A node with at most one child, once the key is found: the block `kfree` gets, and
what takes the node's place. -/
def dropNode (b : Block) (left right : NodeTree Block α) : Block × NodeTree Block α :=
  match if left.isNull then right else left with
  | nil => (b, nil)
  -- the contents of the child, in the block of the node
  | node c h k v l r => (c, node b h k v l r)

/-- `avl_remove`, and the block it passes to `kfree`. -/
def avlRemove : NodeTree Block α → Int → Option (NodeTree Block α × Option Block)
  | nil, _ => some (nil, none)
  | node b h k v left right, key =>
      if key < k then do
        let (left, freed) ← avlRemove left key
        (removeRebalance (node b h k v left right)).map (·, freed)
      else if key > k then do
        let (right, freed) ← avlRemove right key
        (removeRebalance (node b h k v left right)).map (·, freed)
      else if left.isNull || right.isNull then
        let (freed, tree) := dropNode b left right
        (removeRebalance tree).map (·, some freed)
      else do
        let min ← minNode right
        let (right, freed) ← avlRemove right min.1
        (removeRebalance (node b h min.1 min.2 left right)).map (·, freed)

/-- The blocks of the nodes. -/
def nodes : NodeTree Block α → Multiset Block
  | nil => 0
  | node b _ _ _ l r => b ::ₘ (nodes l + nodes r)

/-- `avl_remove` with its `kfree`; `linked` are the blocks that are led to besides those of
the tree.  The links to the tree itself are overwritten by the caller. -/
def avlRemoveFreeing [DecidableEq Block] (linked : Multiset Block) (heap : BlockHeap Block) :
    NodeTree Block α → Int → Option (NodeTree Block α × BlockHeap Block)
  | nil, _ => some (nil, heap)
  | node b h k v left right, key =>
      if key < k then do
        let (left, heap) ← avlRemoveFreeing (b ::ₘ (right.nodes + linked)) heap left key
        (removeRebalance (node b h k v left right)).map (·, heap)
      else if key > k then do
        let (right, heap) ← avlRemoveFreeing (b ::ₘ (left.nodes + linked)) heap right key
        (removeRebalance (node b h k v left right)).map (·, heap)
      else if left.isNull || right.isNull then
        let (child, tree) := dropNode b left right
        -- without a child, `tree` is NULL in here, and the node is still in its place outside
        let linked := (if tree.isNull then {child} else tree.nodes) + linked
        let heap := heap.free linked child
        (removeRebalance tree).map (·, heap)
      else do
        let min ← minNode right
        let (right, heap) ← avlRemoveFreeing (b ::ₘ (left.nodes + linked)) heap right min.1
        (removeRebalance (node b h min.1 min.2 left right)).map (·, heap)

/-- The node that goes, if it has no children. -/
def leafFreed : NodeTree Block α → Int → Option Block
  | nil, _ => none
  | node b _ k _ left right, key =>
      if key < k then leafFreed left key
      else if key > k then leafFreed right key
      else if left.isNull && right.isNull then some b
      else if left.isNull || right.isNull then none
      else (minNode right).bind fun min => leafFreed right min.1

/-! ### The tree without its blocks -/

/-- The tree, with `f` applied to the values. -/
def erase (f : α → β) : NodeTree Block α → AvlTree β
  | nil => .nil
  | node _ h k v left right => .node h k (v.map f) (erase f left) (erase f right)

variable (f : α → β)

@[simp] theorem erase_nil : (nil : NodeTree Block α).erase f = .nil := rfl

@[simp] theorem erase_node (b : Block) (h k : Int) (v : Option α) (l r : NodeTree Block α) :
    (node b h k v l r).erase f = .node h k (v.map f) (l.erase f) (r.erase f) := rfl

@[simp] theorem isNull_erase (t : NodeTree Block α) : (t.erase f).isNull = t.isNull := by
  cases t <;> rfl

@[simp] theorem avlHeight_erase (t : NodeTree Block α) : (t.erase f).avlHeight = t.avlHeight := by
  cases t <;> rfl

@[simp] theorem avlBalance_erase (t : NodeTree Block α) :
    (t.erase f).avlBalance = t.avlBalance := by
  cases t with
  | nil => rfl
  | node b h k v l r => simp [AvlTree.avlBalance, avlBalance]

@[simp] theorem heightOver_erase (l r : NodeTree Block α) :
    AvlTree.heightOver (l.erase f) (r.erase f) = heightOver l r := by
  simp [AvlTree.heightOver, heightOver]

@[simp] theorem avlUpdateHeight_erase (t : NodeTree Block α) :
    (t.erase f).avlUpdateHeight = t.avlUpdateHeight.erase f := by
  cases t with
  | nil => rfl
  | node b h k v l r => simp [AvlTree.avlUpdateHeight, avlUpdateHeight]

theorem avlRightRotate_erase (t : NodeTree Block α) :
    (t.erase f).avlRightRotate = t.avlRightRotate.map (erase f) := by
  cases t with
  | nil => rfl
  | node b h k v l r =>
    cases l with
    | nil => rfl
    | node c hl kl vl ll lr =>
      simp only [erase_node, AvlTree.avlRightRotate, avlRightRotate, Option.map_some]
      rw [← erase_node f b, heightOver_erase, avlUpdateHeight_erase]

theorem avlLeftRotate_erase (t : NodeTree Block α) :
    (t.erase f).avlLeftRotate = t.avlLeftRotate.map (erase f) := by
  cases t with
  | nil => rfl
  | node b h k v l r =>
    cases r with
    | nil => rfl
    | node c hr kr vr rl rr =>
      simp only [erase_node, AvlTree.avlLeftRotate, avlLeftRotate, Option.map_some]
      rw [← erase_node f b, avlUpdateHeight_erase, heightOver_erase]

/-- A double rotation starting in the left subtree. -/
theorem leftRight_erase (b : Block) (h k : Int) (v : Option α) (l r : NodeTree Block α) :
    (do AvlTree.avlRightRotate (.node h k (v.map f) (← (l.erase f).avlLeftRotate) (r.erase f))) =
      (do avlRightRotate (node b h k v (← avlLeftRotate l) r)).map (erase f) := by
  rw [avlLeftRotate_erase]
  cases avlLeftRotate l with
  | none => rfl
  | some l' => exact avlRightRotate_erase f (node b h k v l' r)

/-- A double rotation starting in the right subtree. -/
theorem rightLeft_erase (b : Block) (h k : Int) (v : Option α) (l r : NodeTree Block α) :
    (do AvlTree.avlLeftRotate (.node h k (v.map f) (l.erase f) (← (r.erase f).avlRightRotate))) =
      (do avlLeftRotate (node b h k v l (← avlRightRotate r))).map (erase f) := by
  rw [avlRightRotate_erase]
  cases avlRightRotate r with
  | none => rfl
  | some r' => exact avlLeftRotate_erase f (node b h k v l r')

theorem insertRebalance_erase (key : Int) (t : NodeTree Block α) :
    (t.erase f).insertRebalance key = (t.insertRebalance key).map (erase f) := by
  cases t with
  | nil => rfl
  | node b height k v l r =>
    simp only [erase_node, AvlTree.insertRebalance, insertRebalance]
    simp only [← erase_node f b, avlUpdateHeight_erase, avlBalance_erase, avlHeight_erase]
    split
    · -- the left side is too high
      cases l with
      | nil => rfl
      | node c hl lk vl ll lr =>
        simp only [erase_node f c]
        split
        · exact avlRightRotate_erase f _
        · split
          · exact leftRight_erase f b _ k v (node c hl lk vl ll lr) r
          · rfl
    · split
      · -- the right side is too high
        cases r with
        | nil => rfl
        | node c hr rk vr rl rr =>
          simp only [erase_node f c]
          split
          · exact avlLeftRotate_erase f _
          · split
            · exact rightLeft_erase f b _ k v l (node c hr rk vr rl rr)
            · rfl
      · rfl

theorem removeRebalance_erase (t : NodeTree Block α) :
    (t.erase f).removeRebalance = t.removeRebalance.map (erase f) := by
  cases t with
  | nil => rfl
  | node b height k v l r =>
    simp only [erase_node, AvlTree.removeRebalance, removeRebalance]
    simp only [← erase_node f b, avlUpdateHeight_erase, avlBalance_erase, avlHeight_erase]
    split
    · exact avlRightRotate_erase f _
    · split
      · exact leftRight_erase f b _ k v l r
      · split
        · exact avlLeftRotate_erase f _
        · split
          · exact rightLeft_erase f b _ k v l r
          · rfl

/-- **Insertion.** -/
theorem avlInsert_erase (kmalloc : Option Block) (t : NodeTree Block α) (key : Int)
    (value : Option α) :
    (t.erase f).avlInsert kmalloc.isSome key (value.map f) =
      (t.avlInsert kmalloc key value).map fun r => r.1.erase f := by
  induction t with
  | nil =>
    cases kmalloc with
    | none => rfl
    | some block => rfl
  | node b h k v l r ihl ihr =>
    rw [erase_node, AvlTree.avlInsert, avlInsert]
    split
    · rw [ihl]
      cases avlInsert kmalloc l key value with
      | none => rfl
      | some res =>
        simp only [Option.map_some, Option.bind_eq_bind, Option.bind_some, Option.map_map]
        exact insertRebalance_erase f key (node b h k v res.1 r)
    · split
      · rw [ihr]
        cases avlInsert kmalloc r key value with
        | none => rfl
        | some res =>
          simp only [Option.map_some, Option.bind_eq_bind, Option.bind_some, Option.map_map]
          exact insertRebalance_erase f key (node b h k v l res.1)
      · rfl

theorem minNode_erase (t : NodeTree Block α) :
    (t.erase f).minNode = t.minNode.map fun min => (min.1, min.2.map f) := by
  induction t with
  | nil => rfl
  | node b h k v l r ihl _ =>
    rw [erase_node, AvlTree.minNode, minNode, isNull_erase]
    split
    · rfl
    · exact ihl

theorem dropNode_erase (b : Block) (l r : NodeTree Block α) :
    (dropNode b l r).2.erase f = if (l.erase f).isNull then r.erase f else l.erase f := by
  cases l with
  | nil => cases r <;> rfl
  | node c h k v ll lr => rfl

/-- **Removal.** -/
theorem avlRemove_erase (t : NodeTree Block α) (key : Int) :
    (t.erase f).avlRemove key = (t.avlRemove key).map fun r => r.1.erase f := by
  induction t generalizing key with
  | nil => rfl
  | node b h k v l r ihl ihr =>
    rw [erase_node, AvlTree.avlRemove, avlRemove]
    split
    · rw [ihl]
      cases avlRemove l key with
      | none => rfl
      | some res =>
        simp only [Option.map_some, Option.bind_eq_bind, Option.bind_some, Option.map_map]
        exact removeRebalance_erase f (node b h k v res.1 r)
    · split
      · rw [ihr]
        cases avlRemove r key with
        | none => rfl
        | some res =>
          simp only [Option.map_some, Option.bind_eq_bind, Option.bind_some, Option.map_map]
          exact removeRebalance_erase f (node b h k v l res.1)
      · simp only [isNull_erase f l, isNull_erase f r]
        split
        · -- one child at most: it takes the node's place
          rw [← isNull_erase f l, ← dropNode_erase f b, removeRebalance_erase, Option.map_map]
          rfl
        · -- the successor's entry moves up, and leaves the right subtree
          rw [minNode_erase]
          cases minNode r with
          | none => rfl
          | some min =>
            simp only [Option.map_some, Option.bind_eq_bind, Option.bind_some]
            rw [ihr]
            cases avlRemove r min.1 with
            | none => rfl
            | some res =>
              simp only [Option.map_some, Option.bind_some, Option.map_map]
              exact removeRebalance_erase f (node b h min.1 min.2 l res.1)

/-! ### The blocks -/

@[simp] theorem nodes_nil : (nil : NodeTree Block α).nodes = 0 := rfl

@[simp] theorem nodes_node (b : Block) (h k : Int) (v : Option α) (l r : NodeTree Block α) :
    (node b h k v l r).nodes = b ::ₘ (l.nodes + r.nodes) := rfl

@[simp] theorem nodes_avlUpdateHeight (t : NodeTree Block α) :
    t.avlUpdateHeight.nodes = t.nodes := by
  cases t <;> rfl

theorem nodes_avlRightRotate {t t' : NodeTree Block α} (h : avlRightRotate t = some t') :
    t'.nodes = t.nodes := by
  cases t with
  | nil => cases h
  | node b hy ky vy left ry =>
    cases left with
    | nil => cases h
    | node c hx kx vx lx z =>
      obtain rfl := Option.some.inj h
      simp only [nodes_node, nodes_avlUpdateHeight, Multiset.cons_add, Multiset.add_cons, add_assoc]
      rw [Multiset.cons_swap]

theorem nodes_avlLeftRotate {t t' : NodeTree Block α} (h : avlLeftRotate t = some t') :
    t'.nodes = t.nodes := by
  cases t with
  | nil => cases h
  | node b hx kx vx lx right =>
    cases right with
    | nil => cases h
    | node c hy ky vy z ry =>
      obtain rfl := Option.some.inj h
      simp only [nodes_node, nodes_avlUpdateHeight, Multiset.cons_add, Multiset.add_cons, add_assoc]
      rw [Multiset.cons_swap]

theorem nodes_leftRight {b : Block} {h k : Int} {v : Option α} {l r t' : NodeTree Block α}
    (ht : (do avlRightRotate (node b h k v (← avlLeftRotate l) r)) = some t') :
    t'.nodes = b ::ₘ (l.nodes + r.nodes) := by
  obtain ⟨l', hl, ht⟩ := Option.bind_eq_some_iff.mp ht
  rw [nodes_avlRightRotate ht, nodes_node, nodes_avlLeftRotate hl]

theorem nodes_rightLeft {b : Block} {h k : Int} {v : Option α} {l r t' : NodeTree Block α}
    (ht : (do avlLeftRotate (node b h k v l (← avlRightRotate r))) = some t') :
    t'.nodes = b ::ₘ (l.nodes + r.nodes) := by
  obtain ⟨r', hr, ht⟩ := Option.bind_eq_some_iff.mp ht
  rw [nodes_avlLeftRotate ht, nodes_node, nodes_avlRightRotate hr]

theorem nodes_insertRebalance {key : Int} {t t' : NodeTree Block α}
    (h : insertRebalance key t = some t') : t'.nodes = t.nodes := by
  cases t with
  | nil => cases h
  | node b height k v l r =>
    simp only [insertRebalance] at h
    split at h
    · -- the left side is too high
      split at h
      · cases h
      · split at h
        · rw [nodes_avlRightRotate h, nodes_avlUpdateHeight]
        · split at h
          · exact nodes_leftRight h
          · obtain rfl := Option.some.inj h
            rw [nodes_avlUpdateHeight]
    · split at h
      · -- the right side is too high
        split at h
        · cases h
        · split at h
          · rw [nodes_avlLeftRotate h, nodes_avlUpdateHeight]
          · split at h
            · exact nodes_rightLeft h
            · obtain rfl := Option.some.inj h
              rw [nodes_avlUpdateHeight]
      · obtain rfl := Option.some.inj h
        rw [nodes_avlUpdateHeight]

theorem nodes_removeRebalance {t t' : NodeTree Block α} (h : removeRebalance t = some t') :
    t'.nodes = t.nodes := by
  cases t with
  | nil => obtain rfl := Option.some.inj h; rfl
  | node b height k v l r =>
    simp only [removeRebalance] at h
    split at h
    · rw [nodes_avlRightRotate h, nodes_avlUpdateHeight]
    · split at h
      · exact nodes_leftRight h
      · split at h
        · rw [nodes_avlLeftRotate h, nodes_avlUpdateHeight]
        · split at h
          · exact nodes_rightLeft h
          · obtain rfl := Option.some.inj h
            rw [nodes_avlUpdateHeight]

/-- The nodes are those from before and the new one, if there is one. -/
theorem nodes_avlInsert {kmalloc : Option Block} {t t' : NodeTree Block α} {key : Int}
    {value : Option α} {new : Option Block} (h : t.avlInsert kmalloc key value = some (t', new)) :
    t'.nodes = (new.toList : Multiset Block) + t.nodes := by
  induction t generalizing t' new with
  | nil =>
    obtain ⟨block, -, hb⟩ := Option.map_eq_some_iff.mp h
    cases hb
    rfl
  | node b height k v l r ihl ihr =>
    rw [avlInsert] at h
    split at h
    · obtain ⟨⟨l', new'⟩, hl, h⟩ := Option.bind_eq_some_iff.mp h
      obtain ⟨t1, ht, heq⟩ := Option.map_eq_some_iff.mp h
      cases heq
      rw [nodes_insertRebalance ht, nodes_node, nodes_node, ihl hl, Multiset.add_cons, add_assoc]
    · split at h
      · obtain ⟨⟨r', new'⟩, hr, h⟩ := Option.bind_eq_some_iff.mp h
        obtain ⟨t1, ht, heq⟩ := Option.map_eq_some_iff.mp h
        cases heq
        rw [nodes_insertRebalance ht, nodes_node, nodes_node, ihr hr, Multiset.add_cons,
          add_left_comm]
      · cases h
        exact (Multiset.zero_add _).symm

/-- The new node is the one `kmalloc` provides. -/
theorem new_avlInsert {kmalloc : Option Block} {t t' : NodeTree Block α} {key : Int}
    {value : Option α} {new : Option Block} (h : t.avlInsert kmalloc key value = some (t', new)) :
    new = none ∨ new = kmalloc := by
  induction t generalizing t' new with
  | nil =>
    obtain ⟨block, hblock, hb⟩ := Option.map_eq_some_iff.mp h
    cases hb
    exact .inr hblock.symm
  | node b height k v l r ihl ihr =>
    rw [avlInsert] at h
    split at h
    · obtain ⟨⟨l', new'⟩, hl, h⟩ := Option.bind_eq_some_iff.mp h
      obtain ⟨t1, -, heq⟩ := Option.map_eq_some_iff.mp h
      cases heq
      exact ihl hl
    · split at h
      · obtain ⟨⟨r', new'⟩, hr, h⟩ := Option.bind_eq_some_iff.mp h
        obtain ⟨t1, -, heq⟩ := Option.map_eq_some_iff.mp h
        cases heq
        exact ihr hr
      · cases h
        exact .inl rfl

theorem nodes_dropNode (b : Block) (l r : NodeTree Block α) (hnull : l.isNull || r.isNull) :
    b ::ₘ (l.nodes + r.nodes) = (dropNode b l r).1 ::ₘ (dropNode b l r).2.nodes := by
  cases l with
  | nil =>
    cases r with
    | nil => rfl
    | node c h k v rl rr =>
      rw [nodes_nil, Multiset.zero_add]
      exact Multiset.cons_swap b c _
  | node c h k v ll lr =>
    cases r with
    | nil =>
      rw [nodes_nil, Multiset.add_zero]
      exact Multiset.cons_swap b c _
    | node => cases hnull

/-- The nodes are those that stay and the one that is freed, if there is one. -/
theorem nodes_avlRemove {t t' : NodeTree Block α} {key : Int} {freed : Option Block}
    (h : t.avlRemove key = some (t', freed)) :
    t.nodes = (freed.toList : Multiset Block) + t'.nodes := by
  induction t generalizing t' key freed with
  | nil =>
    cases h
    rfl
  | node b height k v l r ihl ihr =>
    rw [avlRemove] at h
    split at h
    · obtain ⟨⟨l', freed'⟩, hl, h⟩ := Option.bind_eq_some_iff.mp h
      obtain ⟨t1, ht, heq⟩ := Option.map_eq_some_iff.mp h
      cases heq
      rw [nodes_removeRebalance ht, nodes_node, nodes_node, ihl hl, Multiset.add_cons, add_assoc]
    · split at h
      · obtain ⟨⟨r', freed'⟩, hr, h⟩ := Option.bind_eq_some_iff.mp h
        obtain ⟨t1, ht, heq⟩ := Option.map_eq_some_iff.mp h
        cases heq
        rw [nodes_removeRebalance ht, nodes_node, nodes_node, ihr hr, Multiset.add_cons,
          add_left_comm]
      · split at h
        · rename_i hnull
          obtain ⟨t1, ht, heq⟩ := Option.map_eq_some_iff.mp h
          cases heq
          rw [nodes_removeRebalance ht, nodes_node, nodes_dropNode b l r hnull]
          rfl
        · obtain ⟨min, -, h⟩ := Option.bind_eq_some_iff.mp h
          obtain ⟨⟨r', freed'⟩, hr, h⟩ := Option.bind_eq_some_iff.mp h
          obtain ⟨t1, ht, heq⟩ := Option.map_eq_some_iff.mp h
          cases heq
          rw [nodes_removeRebalance ht, nodes_node, nodes_node, ihr hr, Multiset.add_cons,
            add_left_comm]

-- the root stays, with the entry of its successor
example : (node 10 2 2 (some 0) (node 11 1 1 (some 0) nil nil) (node 12 1 3 (some 0) nil nil)).avlRemove 2 =
    some (node 10 2 3 (some 0) (node 11 1 1 (some 0) nil nil) nil, some 12) := by decide

theorem leafFreed_eq {t t' : NodeTree Block α} {key : Int} {freed : Option Block}
    (h : t.avlRemove key = some (t', freed)) :
    t.leafFreed key = none ∨ t.leafFreed key = freed := by
  induction t generalizing t' key freed with
  | nil => exact .inl rfl
  | node b height k v l r ihl ihr =>
    rw [avlRemove] at h
    rw [leafFreed]
    split at h
    · rw [if_pos ‹_›]
      obtain ⟨⟨l', freed'⟩, hl, h⟩ := Option.bind_eq_some_iff.mp h
      obtain ⟨t1, -, heq⟩ := Option.map_eq_some_iff.mp h
      cases heq
      exact ihl hl
    · rw [if_neg ‹_›]
      split at h
      · rw [if_pos ‹_›]
        obtain ⟨⟨r', freed'⟩, hr, h⟩ := Option.bind_eq_some_iff.mp h
        obtain ⟨t1, -, heq⟩ := Option.map_eq_some_iff.mp h
        cases heq
        exact ihr hr
      · rw [if_neg ‹_›]
        split at h
        · obtain ⟨t1, -, heq⟩ := Option.map_eq_some_iff.mp h
          cases heq
          split
          · rename_i hleaf
            -- without children it is the node itself
            cases l with
            | nil =>
              cases r with
              | nil => exact .inr rfl
              | node => cases hleaf
            | node => cases hleaf
          · exact .inl rfl
        · rename_i hnull
          obtain ⟨min, hmin, h⟩ := Option.bind_eq_some_iff.mp h
          obtain ⟨⟨r', freed'⟩, hr, h⟩ := Option.bind_eq_some_iff.mp h
          obtain ⟨t1, -, heq⟩ := Option.map_eq_some_iff.mp h
          cases heq
          rw [if_neg fun hleaf => hnull (by rw [(Bool.and_eq_true_iff.mp hleaf).1, Bool.true_or]),
            if_neg hnull, hmin, Option.bind_some]
          exact ihr hr

section Freeing
variable [DecidableEq Block] {linked : Multiset Block} {heap : BlockHeap Block}

/-- A node with one child at most: what is linked to when its block, or that of the child, is
freed. -/
theorem free_dropNode {b : Block} {height k : Int} {v : Option α} {l r : NodeTree Block α}
    (hnull : (l.isNull || r.isNull) = true)
    (hnodup : ((node b height k v l r).nodes + linked).Nodup) :
    heap.free ((if (dropNode b l r).2.isNull then {(dropNode b l r).1}
        else (dropNode b l r).2.nodes) + linked) (dropNode b l r).1 =
      heap.free (if (l.isNull && r.isNull) = true then some b else none).toList
        (dropNode b l r).1 := by
  have hother : ∀ (c : Block) (ch ck : Int) (cv : Option α) (cl cr : NodeTree Block α),
      (b ::ₘ c ::ₘ (cl.nodes + cr.nodes + linked)).Nodup →
      heap.free ((node b ch ck cv cl cr).nodes + linked) c = heap.free 0 c := by
    intro c ch ck cv cl cr hnodup
    refine BlockHeap.free_congr (iff_of_false ?_ (Multiset.notMem_zero c))
    rw [nodes_node, Multiset.cons_add]
    rw [Multiset.cons_swap] at hnodup
    exact (Multiset.nodup_cons.mp hnodup).1
  cases l with
  | nil =>
    cases r with
    | nil =>
      refine BlockHeap.free_congr (iff_of_true ?_ (List.mem_singleton_self b))
      exact Multiset.mem_add.mpr (.inl (Multiset.mem_singleton_self b))
    | node c ch ck cv cl cr =>
      refine hother c ch ck cv cl cr ?_
      simpa only [nodes_node, nodes_nil, zero_add, Multiset.cons_add] using hnodup
  | node c ch ck cv cl cr =>
    cases r with
    | nil =>
      refine hother c ch ck cv cl cr ?_
      simpa only [nodes_node, nodes_nil, add_zero, Multiset.cons_add] using hnodup
    | node => cases hnull

/-- **When a node is freed**, it is linked to if it has no children. -/
theorem avlRemoveFreeing_eq {t : NodeTree Block α} {key : Int} (hnodup : (t.nodes + linked).Nodup) :
    t.avlRemoveFreeing linked heap key = (t.avlRemove key).map fun r =>
      (r.1, r.2.elim heap (heap.free (t.leafFreed key).toList)) := by
  induction t generalizing linked key with
  | nil => rfl
  | node b height k v l r ihl ihr =>
    have hleft : (l.nodes + (b ::ₘ (r.nodes + linked))).Nodup := by
      rwa [Multiset.add_cons, ← add_assoc, ← Multiset.cons_add]
    have hright : (r.nodes + (b ::ₘ (l.nodes + linked))).Nodup := by
      rwa [Multiset.add_cons, ← add_assoc, add_comm r.nodes, ← Multiset.cons_add]
    rw [avlRemoveFreeing, avlRemove, leafFreed]
    split
    · rw [ihl hleft]
      cases l.avlRemove key with
      | none => rfl
      | some res =>
        simp only [Option.map_some, Option.bind_eq_bind, Option.bind_some, Option.map_map]
        rfl
    · split
      · rw [ihr hright]
        cases r.avlRemove key with
        | none => rfl
        | some res =>
          simp only [Option.map_some, Option.bind_eq_bind, Option.bind_some, Option.map_map]
          rfl
      · by_cases hnull : (l.isNull || r.isNull) = true
        · rw [if_pos hnull, if_pos hnull, if_pos hnull, Option.map_map]
          dsimp only
          rw [free_dropNode hnull hnodup]
          rfl
        · rw [if_neg hnull, if_neg hnull,
            if_neg fun hleaf => hnull (by rw [(Bool.and_eq_true_iff.mp hleaf).1, Bool.true_or]),
            if_neg hnull]
          cases r.minNode with
          | none => rfl
          | some min =>
            simp only [Option.bind_eq_bind, Option.bind_some]
            rw [ihr hright]
            cases r.avlRemove min.1 with
            | none => rfl
            | some res =>
              simp only [Option.map_some, Option.bind_some, Option.map_map]
              rfl

end Freeing

/-- One node an entry. -/
theorem card_nodes (t : NodeTree Block α) : t.nodes.card = (t.erase f).toList.length := by
  induction t with
  | nil => rfl
  | node b h k v l r ihl ihr =>
    rw [nodes_node, Multiset.card_cons, Multiset.card_add, ihl, ihr, erase_node,
      AvlTree.toList_node, List.length_append, List.length_cons]
    omega

/-! ### Tables -/

/-- `avl_get`; `none` is NULL. -/
def avlGet : NodeTree Block α → Int → Option α
  | nil, _ => none
  | node _ _ k v left right, key =>
      if key < k then avlGet left key
      else if key > k then avlGet right key
      else v

theorem avlGet_erase (t : NodeTree Block α) (key : Int) :
    (t.erase f).avlGet key = (t.avlGet key).map f := by
  induction t with
  | nil => rfl
  | node b h k v l r ihl ihr =>
    rw [erase_node, AvlTree.avlGet, avlGet, ihl, ihr]
    split
    · rfl
    · split <;> rfl

/-- The values, one an entry. -/
def values (t : NodeTree Block α) : Multiset α := (t.erase id).toList.filterMap Prod.snd

/-- A search tree none of whose nodes holds NULL. -/
def Table (t : NodeTree Block α) : Prop := (t.erase id).Table

variable {t t' : NodeTree Block α} {kmalloc new freed : Option Block} {key : Int} {v : α}

theorem Table.nil : (nil : NodeTree Block α).Table := AvlTree.Table.nil

theorem Table.ne_key (ht : t.Table) (hfree : t.avlGet key = none) :
    ∀ e ∈ (t.erase id).toList, e.1 ≠ key := by
  have hnone : (t.erase id).contents key = none := by
    rw [AvlTree.Table.contents_eq ht, avlGet_erase, hfree]
    rfl
  intro e he hkey
  have := List.lookup_eq_none_iff.mp hnone e he
  exact absurd hkey.symm (by simpa using this)

theorem Table.mem_toList (ht : t.Table) (hget : t.avlGet key = some v) :
    (key, some v) ∈ (t.erase id).toList := by
  have hsome : (t.erase id).contents key = some (some v) := by
    rw [AvlTree.Table.contents_eq ht, avlGet_erase, hget]
    rfl
  obtain ⟨l1, l2, heq, -⟩ := List.lookup_eq_some_iff.mp hsome
  rw [heq]
  exact List.mem_append_right _ (List.mem_cons_self ..)

/-- The tree an insertion leaves, without its blocks. -/
theorem erase_avlInsert (h : t.avlInsert kmalloc key (some v) = some (t', new)) :
    (t.erase f).avlInsert kmalloc.isSome key (some (f v)) = some (t'.erase f) := by
  have herase := avlInsert_erase f kmalloc t key (some v)
  rw [h] at herase
  exact herase

/-- The tree a removal leaves, without its blocks. -/
theorem erase_avlRemove (h : t.avlRemove key = some (t', freed)) :
    (t.erase f).avlRemove key = some (t'.erase f) := by
  rw [avlRemove_erase, h]
  rfl

theorem toList_avlInsert (ht : t.Table) (h : t.avlInsert kmalloc key (some v) = some (t', new)) :
    (t'.erase id).toList = SortedAssoc.insertNew key (some v) (t.erase id).toList :=
  AvlTree.toList_avlInsert ht.search (erase_avlInsert id h)

theorem toList_avlRemove (ht : t.Table) (h : t.avlRemove key = some (t', freed)) :
    (t'.erase id).toList = SortedAssoc.eraseKey key (t.erase id).toList :=
  AvlTree.toList_avlRemove ht.search (erase_avlRemove id h)

theorem Table.avlInsert (ht : t.Table) (h : t.avlInsert kmalloc key (some v) = some (t', new)) :
    t'.Table :=
  AvlTree.Table.avlInsert ht (erase_avlInsert id h)

theorem Table.avlRemove (ht : t.Table) (h : t.avlRemove key = some (t', freed)) : t'.Table :=
  AvlTree.Table.avlRemove ht (erase_avlRemove id h)

/-- **A new entry** under a key that is free takes one node. -/
theorem Table.insert_entry (ht : t.Table) (hfree : t.avlGet key = none)
    (h : t.avlInsert kmalloc key (some v) = some (t', new)) :
    ∃ b, kmalloc = some b ∧ new = some b ∧ t'.nodes = b ::ₘ t.nodes ∧
      t'.values = v ::ₘ t.values := by
  have hnodes := nodes_avlInsert h
  have hperm : (t'.erase id).toList.Perm ((key, some v) :: (t.erase id).toList) := by
    rw [toList_avlInsert ht h]
    exact SortedAssoc.insertNew_perm _ (ht.ne_key hfree)
  -- there is one entry more, so there is a new node
  have hcard : new.toList.length = 1 := by
    have hlen := hperm.length_eq
    rw [← card_nodes, List.length_cons, ← card_nodes, hnodes, Multiset.card_add,
      Multiset.coe_card] at hlen
    omega
  cases new with
  | none => cases hcard
  | some b =>
    rcases new_avlInsert h with hnone | hnew
    · cases hnone
    · refine ⟨b, hnew.symm, rfl, hnodes, ?_⟩
      exact Multiset.coe_eq_coe.mpr (hperm.filterMap Prod.snd)

/-- **An entry that goes** frees one node. -/
theorem Table.remove_entry (ht : t.Table) (hget : t.avlGet key = some v)
    (h : t.avlRemove key = some (t', freed)) :
    ∃ b, freed = some b ∧ t.nodes = b ::ₘ t'.nodes ∧ t.values = v ::ₘ t'.values := by
  have hnodes := nodes_avlRemove h
  have hperm : (t.erase id).toList.Perm ((key, some v) :: (t'.erase id).toList) := by
    rw [toList_avlRemove ht h]
    exact SortedAssoc.eraseKey_perm ((AvlTree.searchTree_iff_sorted _).mp ht.search)
      (ht.mem_toList hget)
  -- there is one entry less, so a node has been freed
  have hcard : freed.toList.length = 1 := by
    have hlen := hperm.length_eq
    rw [← card_nodes, List.length_cons, ← card_nodes, hnodes, Multiset.card_add,
      Multiset.coe_card] at hlen
    omega
  cases freed with
  | none => cases hcard
  | some b => exact ⟨b, rfl, hnodes, Multiset.coe_eq_coe.mpr (hperm.filterMap Prod.snd)⟩

/-- Without an entry no node goes. -/
theorem Table.leafFreed_of_none (ht : t.Table) (hfree : t.avlGet key = none) :
    t.leafFreed key = none := by
  have hne := ht.ne_key hfree
  clear ht hfree
  induction t with
  | nil => rfl
  | node b height k v l r ihl ihr =>
    rw [erase_node, AvlTree.toList_node] at hne
    rw [leafFreed]
    split
    · exact ihl fun e he => hne e (List.mem_append_left _ he)
    · split
      · exact ihr fun e he => hne e (List.mem_append_right _ (List.mem_cons_of_mem _ he))
      · exact absurd (by omega) (hne _ (List.mem_append_right _ (List.mem_cons_self ..)))

/-- **The node is freed**, once, and early if it has no children. -/
theorem Table.accounted_remove [DecidableEq Block] {linked owned early : Multiset Block}
    {heap heap' : BlockHeap Block} (ht : t.Table) (hget : t.avlGet key = some v)
    (hlinked : linked ≤ owned) (h : heap.Accounted (t.nodes + owned) early)
    (hrem : t.avlRemoveFreeing linked heap key = some (t', heap')) :
    heap'.Accounted (t'.nodes + owned) ((t.leafFreed key).toList + early) ∧
      t.values = v ::ₘ t'.values ∧ ∃ freed, t.avlRemove key = some (t', freed) := by
  have hnodup : (t.nodes + linked).Nodup :=
    Multiset.nodup_of_le (add_le_add_right hlinked t.nodes) h.nodup
  rw [avlRemoveFreeing_eq hnodup] at hrem
  obtain ⟨⟨t1, freed⟩, hremoved, heq⟩ := Option.map_eq_some_iff.mp hrem
  obtain ⟨rfl, rfl⟩ := Prod.mk.inj heq
  obtain ⟨b, rfl, hnodes, hvalues⟩ := ht.remove_entry hget hremoved
  refine ⟨?_, hvalues, _, hremoved⟩
  rw [hnodes, Multiset.cons_add] at h
  refine h.free_of_iff (leafFreed_eq hremoved) ?_
  rw [Multiset.mem_coe, Option.mem_toList]

/-- The values are what can be looked up. -/
theorem Table.mem_values (ht : t.Table) : v ∈ t.values ↔ ∃ key, t.avlGet key = some v := by
  constructor
  · intro hv
    obtain ⟨⟨key, value⟩, he, rfl⟩ := List.mem_filterMap.mp hv
    obtain ⟨l1, l2, heq⟩ := List.append_of_mem he
    have hsorted := (AvlTree.searchTree_iff_sorted _).mp ht.search
    rw [heq] at hsorted
    have hlookup : (t.erase id).contents key = some (some v) := by
      rw [AvlTree.contents, heq]
      exact SortedAssoc.lookup_append_self (SortedAssoc.sorted_append_cons.mp hsorted).2.2.1
    have hget := avlGet_erase id t key
    rw [AvlTree.avlGet_eq ht.search, hlookup, Option.map_id] at hget
    exact ⟨key, hget.symm⟩
  · rintro ⟨key, hget⟩
    exact List.mem_filterMap.mpr ⟨(key, some v), ht.mem_toList hget, rfl⟩

end NodeTree
end QuarkKernel
