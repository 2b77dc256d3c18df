import Mathlib.Data.Prod.Lex
import QuarkKernel.QueueOrder

/-! # Turns among nodes of one priority

The header promises that among nodes of the least priority the one inserted first is
extracted.  The nodes carry no record of that, so they are given a stamp here that
the code never looks at (`unstamped_applyStamped`): the number of insertions before
theirs.  The promise holds as long as the queue is heap-ordered by priority and stamp.
Insertion keeps that order, since it leaves a parent of the same priority where it
is.  `heapify` decides a tie for the left child and against the node that is sifted,
whichever was inserted first; and a node moved by a removal may have to move up. -/
namespace QuarkKernel

/-- A value, and the number of insertions before its own. -/
structure Stamped (α : Type) where
  value : α
  stamp : Nat
deriving DecidableEq, Repr

namespace PriorityQueue
variable {α β : Type}

/-! ### The values make no difference -/

/-- Other values in the same nodes. -/
def mapValues (f : α → β) (queue : PriorityQueue α) : PriorityQueue β where
  heap i := ⟨f (queue.heap i).value, (queue.heap i).priority⟩
  size := queue.size
  capacity := queue.capacity
  size_le := queue.size_le

section MapValues
variable (f : α → β)

theorem mapValues_update (heap : Nat → PriorityQueueNode α) (i : Nat)
    (node : PriorityQueueNode α) :
    (fun j => (⟨f (Function.update heap i node j).value,
      (Function.update heap i node j).priority⟩ : PriorityQueueNode β)) =
      Function.update (fun j => ⟨f (heap j).value, (heap j).priority⟩) i
        ⟨f node.value, node.priority⟩ := by
  funext j
  by_cases hj : j = i
  · subst hj
    rw [Function.update_self, Function.update_self]
  · rw [Function.update_of_ne hj, Function.update_of_ne hj]

theorem mapValues_swap (queue : PriorityQueue α) (i j : Nat) :
    (queue.swap i j).mapValues f = (queue.mapValues f).swap i j := by
  simp only [mapValues, swap, PrefixBag.swap, mapValues_update]

theorem mapValues_moveLast (queue : PriorityQueue α) (i : Nat) :
    (queue.moveLast i).mapValues f = (queue.mapValues f).moveLast i := by
  simp only [mapValues, moveLast, mapValues_update]

theorem heapify_mapValues (queue : PriorityQueue α) (i : Nat) :
    heapify (queue.mapValues f) i = (heapify queue i).map (mapValues f) := by
  induction queue, i using heapify.induct with
  | case1 queue i hsize =>
    rw [heapify.eq_def queue, heapify.eq_def (queue.mapValues f),
      if_pos hsize, if_pos (by exact hsize)]
    rfl
  | case2 queue i hsize hout =>
    rw [heapify.eq_def queue, heapify.eq_def (queue.mapValues f),
      if_neg hsize, if_pos hout, if_neg (by exact hsize),
      if_pos (by exact hout)]
    rfl
  | case3 queue i hsize hout hleft ih =>
    rw [heapify.eq_def queue, heapify.eq_def (queue.mapValues f),
      if_neg hsize, if_neg hout, if_pos hleft, if_neg (by exact hsize),
      if_neg (by exact hout), if_pos (by exact hleft), ← mapValues_swap, ih]
  | case4 queue i hsize hout hleft hright ih =>
    rw [heapify.eq_def queue, heapify.eq_def (queue.mapValues f),
      if_neg hsize, if_neg hout, if_neg hleft, if_pos hright,
      if_neg (by exact hsize), if_neg (by exact hout), if_neg (by exact hleft),
      if_pos (by exact hright), ← mapValues_swap, ih]
  | case5 queue i hsize hout hleft hright =>
    rw [heapify.eq_def queue, heapify.eq_def (queue.mapValues f),
      if_neg hsize, if_neg hout, if_neg hleft, if_neg hright,
      if_neg (by exact hsize), if_neg (by exact hout), if_neg (by exact hleft),
      if_neg (by exact hright)]
    rfl

theorem extractMin_mapValues (queue : PriorityQueue α) :
    priorityqueueExtractMin (queue.mapValues f) =
      (priorityqueueExtractMin queue).map fun r => (r.1.map f, r.2.mapValues f) := by
  rcases Nat.eq_zero_or_pos queue.size with hsize | hpos
  · rw [extractMin_of_empty hsize, extractMin_of_empty (by exact hsize)]
    rfl
  · have hne : ¬ queue.size = 0 := by omega
    obtain ⟨queue', hq, -, -, -⟩ := heapify_moveLast hpos
    rw [priorityqueueExtractMin, priorityqueueExtractMin, if_neg hne, if_neg (by exact hne),
      ← mapValues_moveLast, heapify_mapValues, hq]
    rfl

theorem siftUp_mapValues (heap : Nat → PriorityQueueNode α) (i : Nat) (priority : Int) :
    siftUp (fun j => (⟨f (heap j).value, (heap j).priority⟩ : PriorityQueueNode β)) i priority =
      (fun j => ⟨f ((siftUp heap i priority).1 j).value, ((siftUp heap i priority).1 j).priority⟩,
        (siftUp heap i priority).2) := by
  induction heap, i using siftUp.induct priority with
  | case1 heap i hpar ih =>
    rw [siftUp, siftUp.eq_def heap, if_pos hpar, if_pos (by exact hpar), ← ih, mapValues_update]
  | case2 heap i hstop =>
    rw [siftUp, siftUp.eq_def heap, if_neg hstop, if_neg (by exact hstop)]

theorem insert_mapValues (queue : PriorityQueue α) (value : α) (priority : Int) :
    priorityqueueInsert (queue.mapValues f) (f value) priority =
      ((priorityqueueInsert queue value priority).1,
        (priorityqueueInsert queue value priority).2.mapValues f) := by
  by_cases hfull : queue.size = queue.capacity
  · rw [insert_of_full hfull, insert_of_full (by exact hfull)]
  · rw [priorityqueueInsert, priorityqueueInsert, dif_neg hfull, dif_neg (by exact hfull)]
    simp only [mapValues, siftUp_mapValues, mapValues_update]

end MapValues

/-! ### Stamps -/

/-- The queue of the code: the stamps are gone. -/
abbrev unstamped (queue : PriorityQueue (Stamped α)) : PriorityQueue α :=
  queue.mapValues Stamped.value

/-- The order the header promises: by priority, and then by insertion. -/
def turn (node : PriorityQueueNode (Stamped α)) : Int ×ₗ Nat :=
  toLex (node.priority, node.value.stamp)

theorem turn_le_iff {node other : PriorityQueueNode (Stamped α)} :
    turn node ≤ turn other ↔ node.priority ≤ other.priority ∧
      (node.priority = other.priority → node.value.stamp ≤ other.value.stamp) := by
  rw [turn, turn, Prod.Lex.toLex_le_toLex]
  constructor
  · rintro (hlt | ⟨heq, hle⟩)
    · exact ⟨le_of_lt hlt, fun heq => absurd heq (ne_of_lt hlt)⟩
    · exact ⟨le_of_eq heq, fun _ => hle⟩
  · rintro ⟨hle, hstamp⟩
    rcases lt_or_eq_of_le hle with hlt | heq
    · exact .inl hlt
    · exact .inr ⟨heq, hstamp heq⟩

/-- A queue whose nodes are stamped, and the number of insertions so far. -/
structure History (α : Type) where
  queue : PriorityQueue (Stamped α)
  clock : Nat

section Stamps
variable [DecidableEq α]

/-- The first slot in use that holds a value. -/
def firstSlot (queue : PriorityQueue (Stamped α)) (value : α) : Option Nat :=
  (List.range queue.size).find? fun i => (queue.heap i).value.value = value

/-- A call, with the stamp of the node it inserts. -/
def applyStamped (h : History α) : QueueOp α → Option (History α)
  | .insert value priority =>
      some ⟨(priorityqueueInsert h.queue ⟨value, h.clock⟩ priority).2, h.clock + 1⟩
  | .extractMin => (priorityqueueExtractMin h.queue).map fun r => ⟨r.2, h.clock⟩
  | .remove value =>
      match firstSlot h.queue value with
      | none => some h
      | some i =>
          (priorityqueueRemove h.queue (h.queue.heap i).value).map fun r => ⟨r.2, h.clock⟩

/-- Calls about a queue that has just been constructed. -/
def historySystem (α : Type) [DecidableEq α] : Transition.System (History α) (QueueOp α) :=
  .ofStep (fun h => ∃ heap capacity, h = ⟨constructPriorityQueue heap capacity, 0⟩) applyStamped

theorem firstSlot_spec {queue : PriorityQueue (Stamped α)} {value : α} {i : Nat}
    (h : firstSlot queue value = some i) :
    i < queue.size ∧ (queue.heap i).value.value = value ∧
      ∀ j, j < i → (queue.heap j).value.value ≠ value := by
  obtain ⟨hvalue, hmem, hfirst⟩ := List.find?_range_eq_some.mp h
  exact ⟨List.mem_range.mp hmem, of_decide_eq_true hvalue, fun j hj => by simpa using hfirst j hj⟩

/-- The value of the first slot that holds one is found in that slot. -/
theorem remove_of_firstSlot {queue : PriorityQueue (Stamped α)} {value : α} {i : Nat}
    (h : firstSlot queue value = some i) :
    ∃ queue', heapify (queue.moveLast i) i = some queue' ∧
      priorityqueueRemove queue (queue.heap i).value = some (.enone, queue') := by
  obtain ⟨hi, hvalue, hfirst⟩ := firstSlot_spec h
  refine remove_of_first hi fun j hj heq => hfirst j hj ?_
  rw [heq, hvalue]

/-- **The stamps are not looked at.**  Without them, a stamped call is the call of the
code. -/
theorem unstamped_applyStamped (h : History α) (op : QueueOp α) :
    (applyStamped h op).map (fun h => h.queue.unstamped) = applyOp h.queue.unstamped op := by
  cases op with
  | insert value priority =>
    have hmap := insert_mapValues Stamped.value h.queue ⟨value, h.clock⟩ priority
    rw [applyStamped, applyOp, Option.map_some, hmap]
  | extractMin =>
    rw [applyStamped, applyOp, extractMin_mapValues, Option.map_map, Option.map_map]
    rfl
  | remove value =>
    cases hslot : firstSlot h.queue value with
    | none =>
      have hnone : (List.range h.queue.unstamped.size).find?
          (fun i => (h.queue.unstamped.heap i).value = value) = none := hslot
      rw [applyStamped, applyOp, hslot, priorityqueueRemove, hnone]
      rfl
    | some i =>
      have hsome : (List.range h.queue.unstamped.size).find?
          (fun i => (h.queue.unstamped.heap i).value = value) = some i := hslot
      obtain ⟨queue', hq, hremove⟩ := remove_of_firstSlot hslot
      rw [applyStamped, applyOp, hslot, priorityqueueRemove, hsome]
      simp only [hremove, ← mapValues_moveLast, heapify_mapValues, hq]
      rfl

/-- On its way down, the call decides every tie for the node inserted first, and a
removal finds no node above that should be below the last one. -/
def keepsTurns (h : History α) : QueueOp α → Bool
  | .insert _ _ => true
  | .extractMin => decides turn (h.queue.moveLast 0) 0
  | .remove value =>
      match firstSlot h.queue value with
      | none => true
      | some i =>
          (i = 0 || turn (h.queue.heap (BinaryHeap.parent i)) ≤
            turn (h.queue.heap (h.queue.size - 1))) && decides turn (h.queue.moveLast i) i

/-- Ordered by priority and stamp, the clock being ahead of every stamp. -/
structure InTurn (h : History α) : Prop where
  ordered : BinaryHeap.Ordered (h.queue.keys turn) h.queue.size
  stamped : ∀ node, node ∈ h.queue.entries → node.value.stamp < h.clock

omit [DecidableEq α] in
theorem InTurn.moveLast {h : History α} (hin : InTurn h) {i : Nat} (hi : i < h.queue.size)
    {queue' : PriorityQueue (Stamped α)}
    (habove : 0 < i → turn (h.queue.heap (BinaryHeap.parent i)) ≤
      turn (h.queue.heap (h.queue.size - 1)))
    (hdecides : decides turn (h.queue.moveLast i) i = true)
    (hq : heapify (h.queue.moveLast i) i = some queue') : InTurn ⟨queue', h.clock⟩ := by
  refine ⟨heapify_moveLast_ordered turn hi hin.ordered habove hdecides hq, ?_⟩
  intro node hnode
  obtain ⟨q, hq', hentries, -, -⟩ := heapify_moveLast hi
  rw [hq] at hq'
  cases hq'
  exact hin.stamped node (hentries ▸ Multiset.mem_cons_of_mem hnode)

omit [DecidableEq α] in
/-- A new node takes its turn after all that are stored. -/
theorem InTurn.insert {h : History α} (hin : InTurn h) (value : α) (priority : Int) :
    InTurn ⟨(priorityqueueInsert h.queue ⟨value, h.clock⟩ priority).2, h.clock + 1⟩ := by
  by_cases hfull : h.queue.size = h.queue.capacity
  · rw [insert_of_full hfull]
    exact ⟨hin.ordered, fun node hnode => Nat.lt_succ_of_lt (hin.stamped node hnode)⟩
  · have hroom : h.queue.size < h.queue.capacity := by
      have := h.queue.size_le
      omega
    obtain ⟨queue', hq, hentries, -, -⟩ := insert_of_lt hroom ⟨value, h.clock⟩ priority
    rw [hq]
    refine ⟨insert_ordered turn hroom hin.ordered ?_ hq, ?_⟩
    · intro j hj
      have hstamp := hin.stamped _ (PrefixBag.mem_bag.mpr ⟨j, hj, rfl⟩)
      rw [turn, turn, Prod.Lex.toLex_lt_toLex]
      constructor
      · exact fun hlt => .inl hlt
      · rintro (hlt | ⟨-, hlt⟩)
        · exact hlt
        · exact absurd hlt (Nat.not_lt_of_lt hstamp)
    · intro node hnode
      rw [hentries] at hnode
      rcases Multiset.mem_cons.mp hnode with rfl | hnode
      · exact Nat.lt_succ_self _
      · exact Nat.lt_succ_of_lt (hin.stamped node hnode)

theorem InTurn.applyStamped {h h' : History α} (hin : InTurn h) {op : QueueOp α}
    (hok : keepsTurns h op = true) (hst : applyStamped h op = some h') : InTurn h' := by
  cases op with
  | insert value priority =>
    obtain rfl := Option.some.inj hst
    exact hin.insert value priority
  | extractMin =>
    obtain ⟨⟨value, rest⟩, hex, rfl⟩ := Option.map_eq_some_iff.mp hst
    rcases Nat.eq_zero_or_pos h.queue.size with hsize | hpos
    · rw [extractMin_of_empty hsize] at hex
      cases hex
      exact hin
    · obtain ⟨queue', hq, -, -, -⟩ := heapify_moveLast hpos
      rw [priorityqueueExtractMin, if_neg (by omega), hq] at hex
      cases hex
      exact hin.moveLast hpos (fun hlt => absurd hlt (Nat.lt_irrefl 0)) hok hq
  | remove value =>
    cases hslot : firstSlot h.queue value with
    | none =>
      rw [PriorityQueue.applyStamped, hslot] at hst
      cases hst
      exact hin
    | some i =>
      obtain ⟨queue', hq, hremove⟩ := remove_of_firstSlot hslot
      rw [PriorityQueue.applyStamped, hslot] at hst
      simp only [hremove, Option.map_some] at hst
      cases hst
      simp only [keepsTurns, hslot, Bool.and_eq_true, Bool.or_eq_true, decide_eq_true_eq] at hok
      refine hin.moveLast (firstSlot_spec hslot).1 (fun hpos => ?_) hok.2 hq
      rcases hok.1 with rfl | hle
      · exact absurd hpos (Nat.lt_irrefl 0)
      · exact hle

/-- **The oldest node goes first, as long as ties are decided for it.**  In every run
in which each extraction and each removal decides the ties on its way for the node
inserted first, and no removal would have to move a node up, `extract_min` takes a
node of the least priority, and of those the one inserted first. -/
theorem extractMin_oldest_of_reachable {h : History α}
    (hr : (historySystem α).Reachable (fun h op => keepsTurns h op = true) h)
    (hpos : 0 < h.queue.size) :
    ∃ node rest, applyStamped h .extractMin = some rest ∧
      h.queue.entries = node ::ₘ rest.queue.entries ∧
      priorityqueueExtractMin h.queue.unstamped =
        some (some node.value.value, rest.queue.unstamped) ∧
      ∀ other, other ∈ h.queue.entries → node.priority ≤ other.priority ∧
        (node.priority = other.priority → node.value.stamp ≤ other.value.stamp) := by
  have hin : InTurn h := by
    refine hr.invariant InTurn ?_ (fun _ _ _ hin hok hst => hin.applyStamped hok hst)
    rintro h ⟨heap, capacity, rfl⟩
    exact ⟨BinaryHeap.ordered_zero _, fun node hnode => absurd hnode (Multiset.notMem_zero node)⟩
  obtain ⟨queue', hex, hentries, -, -⟩ := extractMin_of_pos hpos
  refine ⟨h.queue.heap 0, ⟨queue', h.clock⟩, ?_, hentries, ?_, ?_⟩
  · rw [applyStamped, hex]
    rfl
  · rw [extractMin_mapValues, hex]
    rfl
  · intro other hother
    obtain ⟨i, hi, rfl⟩ := PrefixBag.mem_bag.mp hother
    exact turn_le_iff.mp (hin.ordered.root_le hi)

/-- Two nodes of priority 2 around one of priority 1: the ties come out in order. -/
theorem extractMin_oldest_threeRun :
    ∃ h, Transition.System.runFrom (fun h op => keepsTurns h op = true) applyStamped
        ⟨constructPriorityQueue (fun _ => ⟨⟨0, 0⟩, 0⟩) 4, 0⟩
        [.insert 10 2, .insert 20 1, .insert 30 2, .extractMin] = some h ∧
      0 < h.queue.size ∧
      ∃ node rest, applyStamped h .extractMin = some rest ∧
        h.queue.entries = node ::ₘ rest.queue.entries ∧
        priorityqueueExtractMin h.queue.unstamped =
          some (some node.value.value, rest.queue.unstamped) ∧
        ∀ other, other ∈ h.queue.entries → node.priority ≤ other.priority ∧
          (node.priority = other.priority → node.value.stamp ≤ other.value.stamp) := by
  have hrun : (Transition.System.runFrom (fun h op => keepsTurns h op = true) applyStamped
      ⟨constructPriorityQueue (fun _ => ⟨⟨0, 0⟩, 0⟩) 4, 0⟩
      [.insert 10 2, .insert 20 1, .insert 30 2, .extractMin]).any
        (fun h => 0 < h.queue.size) = true := by decide +kernel
  obtain ⟨h, hh, hpos⟩ := (Option.any_eq_true _ _).mp hrun
  have hpos := of_decide_eq_true hpos
  exact ⟨h, hh, hpos, extractMin_oldest_of_reachable (.runFrom _ _ (.init ⟨_, _, rfl⟩) hh) hpos⟩

/-- The node of priority 1 comes last and is extracted; of the two others the later
one is next. -/
theorem not_extractMin_oldest :
    ¬ ∀ h : History Nat, (historySystem Nat).Reachable Transition.anyStep h → 0 < h.queue.size →
      ∃ node rest, applyStamped h .extractMin = some rest ∧
        h.queue.entries = node ::ₘ rest.queue.entries ∧
        priorityqueueExtractMin h.queue.unstamped =
          some (some node.value.value, rest.queue.unstamped) ∧
        ∀ other, other ∈ h.queue.entries → node.priority ≤ other.priority ∧
          (node.priority = other.priority → node.value.stamp ≤ other.value.stamp) := by
  intro hall
  have hrun : (Transition.System.runFrom Transition.anyStep applyStamped
      ⟨constructPriorityQueue (fun _ => ⟨⟨0, 0⟩, 0⟩) 4, 0⟩
      [.insert 10 2, .insert 20 2, .insert 30 1, .extractMin]).any
        (fun h => h.queue.size = 2 ∧ h.queue.heap 0 = ⟨⟨20, 1⟩, 2⟩ ∧
          h.queue.heap 1 = ⟨⟨10, 0⟩, 2⟩) = true := by decide +kernel
  obtain ⟨h, hh, hstate⟩ := (Option.any_eq_true _ _).mp hrun
  obtain ⟨hsize, hroot, hother⟩ := of_decide_eq_true hstate
  obtain ⟨node, rest, -, hentries, hex, holdest⟩ :=
    hall h (.runFrom _ _ (.init ⟨_, _, rfl⟩) hh) (by omega)
  have hpos : 0 < h.queue.unstamped.size := show 0 < h.queue.size by omega
  obtain ⟨queue', hex', -⟩ := extractMin_of_pos hpos
  -- the value taken is 20, so it is the node in slot 0
  have hvalue : node.value.value = 20 := by
    rw [hex] at hex'
    have hroot' : (h.queue.unstamped.heap 0).value = 20 := congrArg (·.value.value) hroot
    simpa [hroot'] using congrArg (fun r => r.map Prod.fst) hex'
  obtain ⟨i, hi, hslot⟩ := PrefixBag.mem_bag.mp
    (show node ∈ h.queue.entries by rw [hentries]; exact Multiset.mem_cons_self _ _)
  have hlast := holdest (h.queue.heap 1) (PrefixBag.mem_bag.mpr ⟨1, by omega, rfl⟩)
  obtain rfl | rfl : i = 0 ∨ i = 1 := by omega
  · rw [← hslot, hroot, hother] at hlast
    exact absurd (hlast.2 rfl) (by decide)
  · rw [← hslot, hother] at hvalue
    exact absurd hvalue (by decide)

end Stamps

end PriorityQueue
end QuarkKernel
