import Mathlib.Data.Int.Order.Basic
import QuarkKernel.SortedAssoc

/-! # `avltree.c`

The tree the process, port and interrupt tables are kept in.  The functions work
on nodes in place; each is given here as a function from the tree to the tree it
leaves.  A `none` result is a read or write through a NULL pointer: a rotation
around a missing child, a comparison with the key of a missing child, or the
initialization of a node `kmalloc` did not provide.

An `int` is an `Int`.  Keys are only compared, and a height counts the levels of
a tree, so neither overflows. -/
namespace QuarkKernel

/-- `struct avltree_t`, with `nil` for the NULL pointer.  A stored `void *` is an
`Option α`, `none` being NULL. -/
inductive AvlTree (α : Type) where
  | nil
  | node (height key : Int) (value : Option α) (left right : AvlTree α)
deriving DecidableEq, Repr

namespace AvlTree
variable {α : Type}

/-- The test `tree == NULL`. -/
def isNull : AvlTree α → Bool
  | nil => true
  | node _ _ _ _ _ => false

/-- `avl_new`; `kmalloc` tells whether the allocation succeeds. -/
def avlNew (kmalloc : Bool) (key : Int) (value : Option α) : Option (AvlTree α) :=
  if kmalloc then some (node 1 key value nil nil) else none

/-- `avl_height` -/
def avlHeight : AvlTree α → Int
  | nil => 0
  | node height _ _ _ _ => height

/-- `avl_balance` -/
def avlBalance : AvlTree α → Int
  | nil => 0
  | node _ _ _ left right => avlHeight left - avlHeight right

/-- The height `avl_update_height` stores over two children. -/
def heightOver (left right : AvlTree α) : Int :=
  1 + if avlHeight left > avlHeight right then avlHeight left else avlHeight right

/-- `avl_update_height` -/
def avlUpdateHeight : AvlTree α → AvlTree α
  | nil => nil
  | node _ key value left right => node (heightOver left right) key value left right

/-- `avl_right_rotate`.  The new root `x` gets its height first, while `y` still
has the one it had as root. -/
def avlRightRotate : AvlTree α → Option (AvlTree α)
  | node hy ky vy (node _ kx vx lx z) ry =>
      let y := node hy ky vy z ry
      some (node (heightOver lx y) kx vx lx (avlUpdateHeight y))
  | _ => none

/-- `avl_left_rotate`.  The old root `x` gets its height first. -/
def avlLeftRotate : AvlTree α → Option (AvlTree α)
  | node hx kx vx lx (node _ ky vy z ry) =>
      let x := avlUpdateHeight (node hx kx vx lx z)
      some (node (heightOver x ry) ky vy x ry)
  | _ => none

/-- The end of `avl_insert`, once the subtree on the side of `key` is back in
place: refresh the height and rotate as the heights and `key` demand. -/
def insertRebalance (key : Int) : AvlTree α → Option (AvlTree α)
  | nil => none
  | node height k value left right =>
      let tree := avlUpdateHeight (node height k value left right)
      let balance := avlBalance tree
      if balance > 1 then
        match left with
        | nil => none
        | node _ lk _ _ _ =>
            if key < lk then avlRightRotate tree
            else if key > lk then do
              let left' ← avlLeftRotate left
              avlRightRotate (node (avlHeight tree) k value left' right)
            else some tree
      else if balance < -1 then
        match right with
        | nil => none
        | node _ rk _ _ _ =>
            if key > rk then avlLeftRotate tree
            else if key < rk then do
              let right' ← avlRightRotate right
              avlLeftRotate (node (avlHeight tree) k value left right')
            else some tree
      else some tree

/-- `avl_insert` -/
def avlInsert (kmalloc : Bool) : AvlTree α → Int → Option α → Option (AvlTree α)
  | nil, key, value => avlNew kmalloc key value
  | node h k v left right, key, value =>
      if key < k then do
        insertRebalance key (node h k v (← avlInsert kmalloc left key value) right)
      else if key > k then do
        insertRebalance key (node h k v left (← avlInsert kmalloc right key value))
      else some (node h k v left right)

/-- The leftmost node's key and value: the loop that looks for the successor in
`avl_remove`. -/
def minNode : AvlTree α → Option (Int × Option α)
  | nil => none
  | node _ k v left _ => if left.isNull then some (k, v) else minNode left

/-- The end of `avl_remove`, once the node is gone from below. -/
def removeRebalance : AvlTree α → Option (AvlTree α)
  | nil => some nil
  | node height k value left right =>
      let tree := avlUpdateHeight (node height k value left right)
      let balance := avlBalance tree
      if balance > 1 ∧ avlBalance left ≥ 0 then avlRightRotate tree
      else if balance > 1 ∧ avlBalance left < 0 then do
        let left' ← avlLeftRotate left
        avlRightRotate (node (avlHeight tree) k value left' right)
      else if balance < -1 ∧ avlBalance right ≤ 0 then avlLeftRotate tree
      else if balance < -1 ∧ avlBalance right > 0 then do
        let right' ← avlRightRotate right
        avlLeftRotate (node (avlHeight tree) k value left right')
      else some tree

/-- `avl_remove`.  A node with at most one child takes over that child's contents
and the child is freed; a node with two takes over its successor's key and value,
and the successor is removed from the right subtree. -/
def avlRemove : AvlTree α → Int → Option (AvlTree α)
  | nil, _ => some nil
  | node h k v left right, key =>
      if key < k then do
        removeRebalance (node h k v (← avlRemove left key) right)
      else if key > k then do
        removeRebalance (node h k v left (← avlRemove right key))
      else if left.isNull || right.isNull then
        removeRebalance (if left.isNull then right else left)
      else do
        let min ← minNode right
        removeRebalance (node h min.1 min.2 left (← avlRemove right min.1))

/-- `avl_get`; `none` is NULL. -/
def avlGet : AvlTree α → Int → Option α
  | nil, _ => none
  | node _ k v left right, key =>
      if key < k then avlGet left key
      else if key > k then avlGet right key
      else v

/-! ### Contents -/

/-- The nodes' keys and values in order, one entry a node. -/
def toList : AvlTree α → List (Int × Option α)
  | nil => []
  | node _ k v left right => toList left ++ (k, v) :: toList right

/-- The keys in order, one a node. -/
def keys (t : AvlTree α) : List Int := t.toList.map Prod.fst

/-- A binary search tree: smaller keys to the left of a node, larger ones to its
right.  Nothing is said about the stored heights. -/
def SearchTree : AvlTree α → Prop
  | nil => True
  | node _ k _ left right =>
      SearchTree left ∧ SearchTree right ∧ (∀ a ∈ left.toList, a.1 < k) ∧
        (∀ b ∈ right.toList, k < b.1)

/-- The finite map a search tree stands for. -/
def contents (t : AvlTree α) (key : Int) : Option (Option α) := t.toList.lookup key

theorem isNull_iff (t : AvlTree α) : t.isNull = true ↔ t = nil := by
  cases t <;> simp [isNull]

@[simp] theorem toList_nil : (nil : AvlTree α).toList = [] := rfl

@[simp] theorem toList_node (h k : Int) (v : Option α) (l r : AvlTree α) :
    (node h k v l r).toList = l.toList ++ (k, v) :: r.toList := rfl

theorem searchTree_iff_sorted (t : AvlTree α) :
    t.SearchTree ↔ SortedAssoc.Sorted t.toList := by
  induction t with
  | nil => exact ⟨fun _ => List.Pairwise.nil, fun _ => trivial⟩
  | node h k v l r ihl ihr =>
    rw [toList_node, SortedAssoc.sorted_append_cons, SearchTree, ihl, ihr]

end AvlTree
end QuarkKernel
