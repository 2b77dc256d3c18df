import QuarkKernel.PrefixBag
import QuarkKernel.Status

/-! # `priorityqueue.c`

The ready queue: a binary heap in an array, of which the first `size` slots are
in use.  `heapify` compares a node with the slot `heap[i * 2 + 2]` without asking
whether that slot is in use; its callers leave a copy of the sifted node in slot
`size`, which is the only unused slot it can reach.  From this the operations
keep the multiset of stored nodes, whatever order the heap is in. -/
namespace QuarkKernel

/-- `struct priority_queue_node_t` -/
structure PriorityQueueNode (α : Type) where
  value : α
  priority : Int
deriving DecidableEq, Repr

/-- `struct priority_queue_t`.  `heap` is the block of `capacity` nodes; the slots
from `size` on hold whatever was left there. -/
structure PriorityQueue (α : Type) where
  heap : Nat → PriorityQueueNode α
  size : Nat
  capacity : Nat
  size_le : size ≤ capacity

namespace PriorityQueue
variable {α : Type}

/-- Exchange two slots. -/
def swap (queue : PriorityQueue α) (i j : Nat) : PriorityQueue α :=
  { queue with heap := PrefixBag.swap queue.heap i j }

/-- `heapify`; `none` when `heap[i * 2 + 2]` lies outside the block. -/
def heapify (queue : PriorityQueue α) (i : Nat) : Option (PriorityQueue α) :=
  if queue.size ≤ i * 2 + 1 then some queue
  else if queue.capacity ≤ i * 2 + 2 then none
  else if (queue.heap (i * 2 + 1)).priority ≤ (queue.heap i).priority ∧
      (queue.heap (i * 2 + 1)).priority ≤ (queue.heap (i * 2 + 2)).priority then
    heapify (queue.swap i (i * 2 + 1)) (i * 2 + 1)
  else if (queue.heap (i * 2 + 2)).priority ≤ (queue.heap i).priority ∧
      (queue.heap (i * 2 + 2)).priority ≤ (queue.heap (i * 2 + 1)).priority then
    heapify (queue.swap i (i * 2 + 2)) (i * 2 + 2)
  else some queue
termination_by queue.size - i
decreasing_by all_goals simp only [swap]; omega

/-- `construct_priority_queue` on a block `heap` from `kmalloc`. -/
def constructPriorityQueue (heap : Nat → PriorityQueueNode α) (capacity : Nat) :
    PriorityQueue α :=
  { heap, size := 0, capacity, size_le := Nat.zero_le capacity }

/-- Drop the last node and put it into slot `i`. -/
def moveLast (queue : PriorityQueue α) (i : Nat) : PriorityQueue α :=
  { queue with
    heap := Function.update queue.heap i (queue.heap (queue.size - 1))
    size := queue.size - 1
    size_le := by have := queue.size_le; omega }

/-- `priorityqueue_extract_min`: the value, or `none` for NULL, and the queue. -/
def priorityqueueExtractMin (queue : PriorityQueue α) : Option (Option α × PriorityQueue α) :=
  if queue.size = 0 then some (none, queue)
  else do
    let queue' ← heapify (queue.moveLast 0) 0
    some (some (queue.heap 0).value, queue')

/-- The loop of `priorityqueue_insert`: move parents of larger priority down, and
return the slot that is free then. -/
def siftUp (heap : Nat → PriorityQueueNode α) (i : Nat) (priority : Int) :
    (Nat → PriorityQueueNode α) × Nat :=
  if 0 < i ∧ (heap ((i - 1) / 2)).priority > priority then
    siftUp (Function.update heap i (heap ((i - 1) / 2))) ((i - 1) / 2) priority
  else (heap, i)
termination_by i
decreasing_by omega

/-- `priorityqueue_insert` -/
def priorityqueueInsert (queue : PriorityQueue α) (value : α) (priority : Int) :
    Status × PriorityQueue α :=
  if h : queue.size = queue.capacity then (.enomem, queue)
  else
    let (heap, i) := siftUp queue.heap queue.size priority
    (.enone, { queue with
      heap := Function.update heap i ⟨value, priority⟩
      size := queue.size + 1
      size_le := by have := queue.size_le; omega })

/-- `priorityqueue_remove`: the first slot that holds `value` takes the last
node. -/
def priorityqueueRemove [DecidableEq α] (queue : PriorityQueue α) (value : α) :
    Option (Status × PriorityQueue α) :=
  match (List.range queue.size).find? (fun i => (queue.heap i).value = value) with
  | some i => do
      let queue' ← heapify (queue.moveLast i) i
      some (.enone, queue')
  | none => some (.eoutofbounds, queue)

/-! ### The stored nodes -/

/-- The nodes in the first `size` slots. -/
def entries (queue : PriorityQueue α) : Multiset (PriorityQueueNode α) :=
  PrefixBag.bag queue.heap queue.size

/-- The values in the first `size` slots. -/
def values (queue : PriorityQueue α) : Multiset α := queue.entries.map (·.value)

@[simp] theorem swap_size (queue : PriorityQueue α) (i j : Nat) :
    (queue.swap i j).size = queue.size := rfl

@[simp] theorem swap_capacity (queue : PriorityQueue α) (i j : Nat) :
    (queue.swap i j).capacity = queue.capacity := rfl

theorem entries_swap {queue : PriorityQueue α} {i j : Nat} (hi : i < queue.size)
    (hj : j < queue.size) : (queue.swap i j).entries = queue.entries :=
  PrefixBag.bag_swap _ hi hj

@[simp] theorem card_entries (queue : PriorityQueue α) : queue.entries.card = queue.size :=
  PrefixBag.card_bag ..

@[simp] theorem entries_constructPriorityQueue (heap : Nat → PriorityQueueNode α) (capacity : Nat) :
    (constructPriorityQueue heap capacity).entries = 0 := rfl

/-- From a node whose copy is in slot `size`, `heapify` keeps the stored nodes. -/
theorem heapify_entries {queue : PriorityQueue α} {i : Nat} (hcap : queue.size < queue.capacity)
    (hcopy : queue.heap queue.size = queue.heap i) :
    ∃ queue', heapify queue i = some queue' ∧ queue'.entries = queue.entries ∧
      queue'.size = queue.size ∧ queue'.capacity = queue.capacity := by
  induction queue, i using heapify.induct with
  | case1 queue i hsize =>
    rw [heapify, if_pos hsize]
    exact ⟨queue, rfl, rfl, rfl, rfl⟩
  | case2 queue i hsize hout => omega
  | case3 queue i hsize hout hleft ih =>
    obtain ⟨q, hq, he, hs, hc⟩ := ih hcap (by
      show PrefixBag.swap _ _ _ queue.size = PrefixBag.swap _ _ _ _
      rw [PrefixBag.swap_right, PrefixBag.swap_of_ne _ (by omega) (by omega), hcopy])
    rw [heapify, if_neg hsize, if_neg hout, if_pos hleft]
    exact ⟨q, hq, he.trans (entries_swap (by omega) (by omega)), hs, hc⟩
  | case4 queue i hsize hout hleft hright ih =>
    rw [heapify, if_neg hsize, if_neg hout, if_neg hleft, if_pos hright]
    by_cases hlast : i * 2 + 2 = queue.size
    · -- slot `size` holds the copy, so the exchange does nothing
      have hsame : queue.swap i (i * 2 + 2) = queue := by
        rw [swap, PrefixBag.swap_of_eq (by rw [hlast, hcopy])]
      have hstop : queue.size ≤ (i * 2 + 2) * 2 + 1 := by omega
      rw [hsame, heapify, if_pos hstop]
      exact ⟨queue, rfl, rfl, rfl, rfl⟩
    · obtain ⟨q, hq, he, hs, hc⟩ := ih hcap (by
        show PrefixBag.swap _ _ _ queue.size = PrefixBag.swap _ _ _ _
        rw [PrefixBag.swap_right, PrefixBag.swap_of_ne _ (by omega) (by omega), hcopy])
      exact ⟨q, hq, he.trans (entries_swap (by omega) (by omega)), hs, hc⟩
  | case5 queue i hsize hout hleft hright =>
    rw [heapify, if_neg hsize, if_neg hout, if_neg hleft, if_neg hright]
    exact ⟨queue, rfl, rfl, rfl, rfl⟩

/-- Moving the last node into slot `i` drops the node that was there. -/
theorem moveLast_entries {queue : PriorityQueue α} {i : Nat} (hi : i < queue.size) :
    queue.entries = queue.heap i ::ₘ (queue.moveLast i).entries := by
  obtain ⟨n, hn⟩ : ∃ n, queue.size = n + 1 := ⟨queue.size - 1, by omega⟩
  have hupd := PrefixBag.bag_update (f := queue.heap) (queue.heap n) (show i < n + 1 by omega)
  rw [PrefixBag.bag_succ] at hupd
  have hmove : (queue.moveLast i).entries =
      PrefixBag.bag (Function.update queue.heap i (queue.heap n)) n := by
    simp only [entries, moveLast, hn, Nat.add_sub_cancel]
  rw [hmove, entries, hn]
  by_cases hin : i = n
  · subst hin
    rw [PrefixBag.bag_succ, PrefixBag.bag_update_of_le _ _ (Nat.le_refl i)]
  · rw [Function.update_of_ne (Ne.symm hin), Multiset.cons_swap] at hupd
    exact ((Multiset.cons_inj_right _).mp hupd).symm

/-- After the move, slot `size` still holds the node that was moved. -/
theorem copy_moveLast (queue : PriorityQueue α) (i : Nat) :
    (queue.moveLast i).heap (queue.moveLast i).size = (queue.moveLast i).heap i := by
  simp only [moveLast, Function.update_self]
  by_cases hlast : queue.size - 1 = i
  · rw [hlast, Function.update_self]
  · rw [Function.update_of_ne hlast]

/-- `heapify` after the move takes the node in slot `i` away. -/
theorem heapify_moveLast {queue : PriorityQueue α} {i : Nat} (hi : i < queue.size) :
    ∃ queue', heapify (queue.moveLast i) i = some queue' ∧
      queue.entries = queue.heap i ::ₘ queue'.entries ∧
      queue'.size = queue.size - 1 ∧ queue'.capacity = queue.capacity := by
  have hcap : (queue.moveLast i).size < (queue.moveLast i).capacity := by
    have := queue.size_le
    show queue.size - 1 < queue.capacity
    omega
  obtain ⟨q, hq, he, hs, hc⟩ := heapify_entries hcap (copy_moveLast queue i)
  exact ⟨q, hq, by rw [he, moveLast_entries hi], hs, hc⟩

theorem extractMin_of_empty {queue : PriorityQueue α} (h : queue.size = 0) :
    priorityqueueExtractMin queue = some (none, queue) := if_pos h

/-- Extraction from a non-empty queue takes exactly the node in slot 0. -/
theorem extractMin_of_pos {queue : PriorityQueue α} (h : 0 < queue.size) :
    ∃ queue', priorityqueueExtractMin queue = some (some (queue.heap 0).value, queue') ∧
      queue.entries = queue.heap 0 ::ₘ queue'.entries ∧
      queue'.size = queue.size - 1 ∧ queue'.capacity = queue.capacity := by
  obtain ⟨q, hq, he, hs, hc⟩ := heapify_moveLast h
  refine ⟨q, ?_, he, hs, hc⟩
  rw [priorityqueueExtractMin, if_neg (by omega), hq]
  rfl

theorem insert_of_full {queue : PriorityQueue α} (h : queue.size = queue.capacity) (value : α)
    (priority : Int) : priorityqueueInsert queue value priority = (.enomem, queue) := dif_pos h

/-- Whatever is put into the slot `siftUp` frees, the slots hold it and what they
held before. -/
theorem siftUp_bag (heap : Nat → PriorityQueueNode α) (i : Nat) (priority : Int)
    (node : PriorityQueueNode α) {n : Nat} (hi : i < n) :
    PrefixBag.bag (Function.update (siftUp heap i priority).1 (siftUp heap i priority).2 node) n =
      PrefixBag.bag (Function.update heap i node) n := by
  induction heap, i using siftUp.induct priority with
  | case1 heap i hpar ih =>
    rw [siftUp, if_pos hpar, ih (by omega)]
    -- moving the parent down exchanges it with the node to come
    have hswap : Function.update (Function.update heap i (heap ((i - 1) / 2))) ((i - 1) / 2) node =
        PrefixBag.swap (Function.update heap i node) i ((i - 1) / 2) := by
      have hne : (i - 1) / 2 ≠ i := by omega
      rw [PrefixBag.swap, Function.update_self, Function.update_of_ne hne, Function.update_idem]
    rw [hswap, PrefixBag.bag_swap _ hi (by omega)]
  | case2 heap i hstop => rw [siftUp, if_neg hstop]

/-- Insertion into a queue that is not full adds exactly the given node. -/
theorem insert_of_lt {queue : PriorityQueue α} (h : queue.size < queue.capacity) (value : α)
    (priority : Int) :
    ∃ queue', priorityqueueInsert queue value priority = (.enone, queue') ∧
      queue'.entries = ⟨value, priority⟩ ::ₘ queue.entries ∧
      queue'.size = queue.size + 1 ∧ queue'.capacity = queue.capacity := by
  rw [priorityqueueInsert, dif_neg (by omega)]
  refine ⟨_, rfl, ?_, rfl, rfl⟩
  show PrefixBag.bag _ (queue.size + 1) = _
  rw [siftUp_bag _ _ _ _ (Nat.lt_succ_self queue.size), PrefixBag.bag_succ, Function.update_self,
    PrefixBag.bag_update_of_le _ _ (Nat.le_refl _)]
  rfl

section Remove
variable [DecidableEq α]

/-- Removal of a stored value takes exactly one node that holds it. -/
theorem remove_of_mem {queue : PriorityQueue α} {value : α} (h : value ∈ queue.values) :
    ∃ node queue', priorityqueueRemove queue value = some (.enone, queue') ∧
      node.value = value ∧ queue.entries = node ::ₘ queue'.entries ∧
      queue'.size = queue.size - 1 ∧ queue'.capacity = queue.capacity := by
  obtain ⟨node, hnode, rfl⟩ := Multiset.mem_map.mp h
  obtain ⟨j, hj, rfl⟩ := PrefixBag.mem_bag.mp hnode
  rw [priorityqueueRemove]
  cases hfind : (List.range queue.size).find?
      (fun i => (queue.heap i).value = (queue.heap j).value) with
  | none =>
    have := List.find?_eq_none.mp hfind j (List.mem_range.mpr hj)
    simp at this
  | some i =>
    have hi : i < queue.size := List.mem_range.mp (List.mem_of_find?_eq_some hfind)
    obtain ⟨q, hq, he, hs, hc⟩ := heapify_moveLast hi
    refine ⟨queue.heap i, q, ?_, by simpa using List.find?_some hfind, he, hs, hc⟩
    simp only [hq]
    rfl

/-- Removal of a value that is not stored changes nothing. -/
theorem remove_of_not_mem {queue : PriorityQueue α} {value : α} (h : value ∉ queue.values) :
    priorityqueueRemove queue value = some (.eoutofbounds, queue) := by
  have hfind : (List.range queue.size).find? (fun i => (queue.heap i).value = value) = none := by
    refine List.find?_eq_none.mpr fun i hi heq => h (Multiset.mem_map.mpr ⟨queue.heap i, ?_, ?_⟩)
    · exact PrefixBag.mem_bag.mpr ⟨i, List.mem_range.mp hi, rfl⟩
    · exact of_decide_eq_true heq
  rw [priorityqueueRemove, hfind]

/-- Removal takes one occurrence of the value, if there is one. -/
theorem remove_values (queue : PriorityQueue α) (value : α) :
    ∃ status queue', priorityqueueRemove queue value = some (status, queue') ∧
      queue'.values = queue.values.erase value ∧ queue'.entries ≤ queue.entries ∧
      queue'.capacity = queue.capacity := by
  by_cases h : value ∈ queue.values
  · obtain ⟨node, queue', hq, rfl, he, -, hc⟩ := remove_of_mem h
    refine ⟨_, queue', hq, ?_, ?_, hc⟩
    · rw [values, values, he, Multiset.map_cons, Multiset.erase_cons_head]
    · rw [he]
      exact Multiset.le_cons_self _ _
  · exact ⟨_, queue, remove_of_not_mem h, (Multiset.erase_of_notMem h).symm, le_refl _, rfl⟩

end Remove

end PriorityQueue
end QuarkKernel
