import Mathlib.Data.List.Rotate
import QuarkKernel.ReadyOnce
import QuarkKernel.RoundRobin

/-! # Turns among equal priorities

Among nodes of one priority the queue is no queue.  `heapify` exchanges a node with
its left child whenever the three priorities are equal, so only the slots 0, 1, 3,
7, … ever move, and slot 2 keeps its node as long as there are three in the queue.
With at most three runnable processes the slots are taken in order and the
scheduler goes round; with four or more the process in slot 2 never runs again. -/
namespace QuarkKernel

namespace PriorityQueue
variable {α : Type} {queue : PriorityQueue α} {c : Int}

/-- The values in the slots in use, in order. -/
def slots (queue : PriorityQueue α) : List α :=
  (List.range queue.size).map fun i => (queue.heap i).value

/-- Every node stored has priority `c`. -/
def Level (queue : PriorityQueue α) (c : Int) : Prop :=
  ∀ i, i < queue.size → (queue.heap i).priority = c

theorem values_eq_slots (queue : PriorityQueue α) : queue.values = queue.slots := by
  rw [values, entries, PrefixBag.bag, Multiset.map_map]
  rfl

theorem level_of_entries (h : ∀ node, node ∈ queue.entries → node.priority = c) :
    queue.Level c := fun i hi => h _ (PrefixBag.mem_bag.mpr ⟨i, hi, rfl⟩)

/-- Between equal priorities `heapify` only goes to the left. -/
theorem heapify_of_level {i : Nat} (hcap : queue.size < queue.capacity)
    (hc : ∀ j, j ≤ queue.size → (queue.heap j).priority = c) :
    ∃ queue', heapify queue i = some queue' ∧ queue'.size = queue.size ∧
      ∀ j, j % 2 = 0 → j ≠ i → queue'.heap j = queue.heap j := by
  -- between equal priorities the left child is taken, so the right ones stay
  induction queue, i using heapify.induct with
  | case1 queue i hsize =>
    rw [heapify, if_pos hsize]
    exact ⟨queue, rfl, rfl, fun _ _ _ => rfl⟩
  | case2 queue i hsize hout => omega
  | case3 queue i hsize hout hleft ih =>
    have hc' : ∀ j, j ≤ (queue.swap i (i * 2 + 1)).size →
        ((queue.swap i (i * 2 + 1)).heap j).priority = c := by
      intro j hj
      show (PrefixBag.swap queue.heap i (i * 2 + 1) j).priority = c
      have hj : j ≤ queue.size := hj
      by_cases h1 : j = i * 2 + 1
      · rw [h1, PrefixBag.swap_right]
        exact hc i (by omega)
      · by_cases h2 : j = i
        · rw [h2, PrefixBag.swap_left]
          exact hc _ (by omega)
        · rw [PrefixBag.swap_of_ne _ h2 h1]
          exact hc j hj
    obtain ⟨queue', hq, hs, hkeep⟩ := ih hcap hc'
    rw [heapify, if_neg hsize, if_neg hout, if_pos hleft]
    refine ⟨queue', hq, hs, ?_⟩
    intro j heven hj
    rw [hkeep j heven (by omega)]
    exact PrefixBag.swap_of_ne _ hj (by omega)
  | case4 queue i hsize hout hleft hright ih =>
    exfalso
    apply hleft
    rw [hc i (by omega), hc (i * 2 + 1) (by omega), hc (i * 2 + 2) (by omega)]
    exact ⟨le_refl c, le_refl c⟩
  | case5 queue i hsize hout hleft hright =>
    rw [heapify, if_neg hsize, if_neg hout, if_neg hleft, if_neg hright]
    exact ⟨queue, rfl, rfl, fun _ _ _ => rfl⟩

/-- The slots that are compared once the last node has been moved to the top. -/
theorem level_moveLast {m : Nat} (hsize : queue.size = m + 1) (hc : queue.Level c) :
    ∀ j, j ≤ m → ((queue.moveLast 0).heap j).priority = c := by
  intro j hj
  show (Function.update queue.heap 0 (queue.heap (queue.size - 1)) j).priority = c
  by_cases h0 : j = 0
  · rw [h0, Function.update_self]
    exact hc _ (by omega)
  · rw [Function.update_of_ne h0]
    exact hc j (by omega)

/-- With four nodes or more, extraction leaves slot 2 alone. -/
theorem extractMin_slot_two (hsize : 4 ≤ queue.size) (hc : queue.Level c) :
    ∃ queue', priorityqueueExtractMin queue = some (some (queue.heap 0).value, queue') ∧
      queue'.size = queue.size - 1 ∧ queue'.heap 2 = queue.heap 2 := by
  have hle := queue.size_le
  have hmove := level_moveLast (m := queue.size - 1) (by omega) hc
  obtain ⟨queue', hq, hs, hkeep⟩ :=
    heapify_of_level (i := 0) (show (queue.moveLast 0).size < queue.capacity from
      show queue.size - 1 < queue.capacity by omega) hmove
  refine ⟨queue', ?_, hs, ?_⟩
  · rw [priorityqueueExtractMin, if_neg (by omega), hq]
    rfl
  · rw [hkeep 2 rfl (by decide)]
    show Function.update queue.heap 0 (queue.heap (queue.size - 1)) 2 = _
    rw [Function.update_of_ne (by decide)]

/-- What extraction leaves with at most one other node. -/
theorem extractMin_of_le_two (hpos : 0 < queue.size) (hsize : queue.size ≤ 2) :
    priorityqueueExtractMin queue = some (some (queue.heap 0).value, queue.moveLast 0) := by
  have hstop : (queue.moveLast 0).size ≤ 0 * 2 + 1 := by
    show queue.size - 1 ≤ 1
    omega
  rw [priorityqueueExtractMin, if_neg (by omega), heapify, if_pos hstop]
  rfl

/-- What it leaves with two others: the one from slot 2 goes below the one from
slot 1. -/
theorem extractMin_of_three (hsize : queue.size = 3) (hc : queue.Level c) :
    priorityqueueExtractMin queue =
      some (some (queue.heap 0).value, (queue.moveLast 0).swap 0 1) := by
  have hle := queue.size_le
  have hmove := level_moveLast hsize hc
  have hgo : ¬ (queue.moveLast 0).size ≤ 0 * 2 + 1 := by
    show ¬ queue.size - 1 ≤ 1
    omega
  have hin : ¬ (queue.moveLast 0).capacity ≤ 0 * 2 + 2 := by
    show ¬ queue.capacity ≤ 2
    omega
  have hstop : ((queue.moveLast 0).swap 0 (0 * 2 + 1)).size ≤ (0 * 2 + 1) * 2 + 1 := by
    show queue.size - 1 ≤ 3
    omega
  rw [priorityqueueExtractMin, if_neg (by omega), heapify, if_neg hgo, if_neg hin, if_pos, heapify,
    if_pos hstop]
  · rfl
  · rw [hmove 0 (by decide), hmove 1 (by decide), hmove 2 (by decide)]
    exact ⟨le_refl c, le_refl c⟩

/-- With three nodes or fewer, extraction takes the slots in order. -/
theorem extractMin_slots (hpos : 0 < queue.size) (hsize : queue.size ≤ 3) (hc : queue.Level c) :
    ∃ value queue', priorityqueueExtractMin queue = some (some value, queue') ∧
      queue.slots = value :: queue'.slots := by
  obtain h1 | h2 | h3 : queue.size = 1 ∨ queue.size = 2 ∨ queue.size = 3 := by omega
  · refine ⟨_, _, extractMin_of_le_two hpos (by omega), ?_⟩
    simp [slots, moveLast, h1, List.range_succ]
  · refine ⟨_, _, extractMin_of_le_two hpos (by omega), ?_⟩
    simp [slots, moveLast, h2, List.range_succ]
  · refine ⟨_, _, extractMin_of_three h3 hc, ?_⟩
    simp [slots, moveLast, swap, PrefixBag.swap, h3, List.range_succ]

/-- Insertion of a node of the same priority uses the next slot. -/
theorem insert_of_level (hroom : queue.size < queue.capacity) (hc : queue.Level c) (value : α) :
    (priorityqueueInsert queue value c).2.heap =
        Function.update queue.heap queue.size ⟨value, c⟩ ∧
      (priorityqueueInsert queue value c).2.size = queue.size + 1 := by
  have hstop : ¬ (0 < queue.size ∧ (queue.heap ((queue.size - 1) / 2)).priority > c) := by
    rintro ⟨hpos, hgt⟩
    rw [hc _ (by omega)] at hgt
    exact lt_irrefl c hgt
  rw [priorityqueueInsert, dif_neg (by omega), siftUp, if_neg hstop]
  exact ⟨rfl, rfl⟩

theorem insert_slots (hroom : queue.size < queue.capacity) (hc : queue.Level c) (value : α) :
    (priorityqueueInsert queue value c).2.slots = queue.slots ++ [value] := by
  obtain ⟨hheap, hsize⟩ := insert_of_level hroom hc value
  rw [slots, slots, hheap, hsize, List.range_succ, List.map_append]
  congr 1
  · apply List.map_congr_left
    intro i hi
    rw [Function.update_of_ne (Nat.ne_of_lt (List.mem_range.mp hi))]
  · simp

end PriorityQueue

namespace Kernel

/-! ### Nodes carry their process's priority -/

/-- The ready queue has 512 slots, and each node in it the priority of its
process. -/
structure Labelled (k : Kernel) : Prop where
  capacity : k.priorityQueue.capacity = 512
  priority : ∀ node, node ∈ k.priorityQueue.entries →
    ∃ P, k.processes node.value = some P ∧ P.priority = node.priority

/-- A block changes but keeps its priority. -/
theorem Labelled.edit {k k' : Kernel} (h : k.Labelled) {p : Ptr} {P P' : Process}
    (hP : k.processes p = some P) (hprio : P'.priority = P.priority)
    (hproc : k'.processes = Function.update k.processes p (some P'))
    (hqueue : k'.priorityQueue = k.priorityQueue) : k'.Labelled := by
  constructor
  · rw [hqueue]
    exact h.capacity
  · intro node hnode
    rw [hqueue] at hnode
    obtain ⟨Q, hQ, hlabel⟩ := h.priority node hnode
    by_cases hqp : node.value = p
    · rw [hqp] at hQ ⊢
      obtain rfl := Option.some.inj (hP.symm.trans hQ)
      exact ⟨P', by rw [hproc, Function.update_self], by rw [hprio, hlabel]⟩
    · exact ⟨Q, by rw [hproc, Function.update_of_ne hqp, hQ], hlabel⟩

/-- A process that is not ready yet is put into the queue. -/
theorem Labelled.enqueue {k k' : Kernel} (h : k.Labelled) {p : Ptr} {P' : Process}
    {priority : Int} (hnot : p ∉ k.ready) (hprio : P'.priority = priority)
    (hproc : k'.processes = Function.update k.processes p (some P'))
    (hqueue : k'.priorityQueue = (k.enqueue p priority).priorityQueue) : k'.Labelled := by
  constructor
  · rw [hqueue, capacity_enqueue]
    exact h.capacity
  · intro node hnode
    rw [hqueue] at hnode
    rcases Multiset.mem_cons.mp (Multiset.mem_of_le (entries_enqueue_le k p priority) hnode)
      with rfl | hold
    · exact ⟨P', by rw [hproc, Function.update_self], hprio⟩
    · have hne : node.value ≠ p := by
        rintro rfl
        exact hnot (Multiset.mem_map_of_mem _ hold)
      obtain ⟨Q, hQ, hlabel⟩ := h.priority node hold
      exact ⟨Q, by rw [hproc, Function.update_of_ne hne, hQ], hlabel⟩

theorem Labelled.advance {k k' : Kernel} (h : k.Labelled)
    (hadv : k.kernelAdvanceScheduler = some k') : k'.Labelled := by
  obtain ⟨p, P, queue, -, rfl, hcap, hnodes, -⟩ := advance_cases hadv
  refine ⟨hcap.trans h.capacity, ?_⟩
  intro node hnode
  rcases hnodes node hnode with hold | ⟨a, A, hactive, rfl⟩
  · exact h.priority node hold
  · exact ⟨A, (active_eq_some.mp hactive).2, rfl⟩

theorem Labelled.effect {k k' : Kernel} {op : Op} (h : k.Labelled) (hr : k.ReadyOnce)
    (he : Effect k op k') : k'.Labelled := by
  have hready : ∀ p, p ∈ k.ready → p ∈ k.occupied := fun p hp => mem_occupied.mpr (.inr hp)
  cases he with
  | idle hproc _ _ hqueue =>
    constructor
    · rw [hqueue]
      exact h.capacity
    · rw [hqueue, hproc]
      exact h.priority
  | edit p P P' hP hedit hproc _ _ hqueue => exact h.edit hP hedit.priority hproc hqueue
  | wake p P P' _ hP hsame hstate _ hproc _ _ hqueue =>
    refine h.enqueue ?_ hsame.priority hproc hqueue
    intro hp
    obtain ⟨Q, hQ, hact⟩ := hr.running p (hready p hp)
    obtain rfl := Option.some.inj (hP.symm.trans hQ)
    exact hstate hact
  | spawn p P node _ hfree _ _ _ _ hproc _ hqueue =>
    refine h.enqueue ?_ rfl hproc hqueue
    intro hp
    obtain ⟨Q, hQ, -⟩ := hr.running p (hready p hp)
    rw [hfree] at hQ
    cases hQ
  | terminate p P pid _ _ _ hproc hactive hqueue hentries hcap =>
    refine ⟨hcap.trans h.capacity, ?_⟩
    intro node hnode
    -- the terminated process has left the queue
    have hne : node.value ≠ p := by
      intro heq
      have hmem : node.value ∈ k'.occupied :=
        mem_occupied.mpr (.inr (Multiset.mem_map_of_mem _ hnode))
      rw [occupied_terminate hr.nodup hactive hqueue, heq] at hmem
      exact hr.nodup.notMem_erase hmem
    obtain ⟨Q, hQ, hlabel⟩ := h.priority node (Multiset.mem_of_le hentries hnode)
    exact ⟨Q, by rw [hproc, Function.update_of_ne hne, hQ], hlabel⟩
  | advance _ hadv => exact h.advance hadv
  | block a A A' k1 hactive hsame _ _ _ hproc _ _ hqueue hadv =>
    have hA := (active_eq_some.mp hactive).2
    exact (h.edit hA hsame.priority hproc hqueue).advance hadv

theorem labelled_of_reachable {k : Kernel}
    (h : system.Reachable (fun k op => k.returnsCleanly op = true) k) :
    k.ReadyOnce ∧ k.Labelled := by
  have hinv : k.WellFormed ∧ k.ReadyOnce ∧ k.Labelled := by
    refine h.invariant (fun k => k.WellFormed ∧ k.ReadyOnce ∧ k.Labelled) ?_ ?_
    · intro k hb
      refine ⟨.boot hb, .boot hb, ?_⟩
      obtain ⟨heap, cr3, memory, rfl⟩ := hb
      refine ⟨rfl, ?_⟩
      intro node hnode
      exact absurd hnode (Multiset.notMem_zero node)
    · rintro k op k' ⟨hw, hr, hl⟩ hclean hst
      refine ⟨hw.step hst, hr.step hw hclean hst, ?_⟩
      by_cases hop : op = .signalReturn
      · subst hop
        obtain ⟨⟨r, k1⟩, hk, rfl⟩ := Option.map_eq_some_iff.mp hst
        exact hl.effect hr (effect_signalReturn (fun _ _ => hr.active) hclean hk)
      · exact hl.effect hr (step_effect hw.sending hop hst)
  exact hinv.2

/-! ### Consecutive calls of the scheduler -/

/-- The kernel after `t` calls of `kernel_advance_scheduler`. -/
def advances (k : Kernel) : Nat → Option Kernel
  | 0 => some k
  | t + 1 => (k.advances t).bind kernelAdvanceScheduler

/-- The process that is active after `t` calls. -/
def activation (k : Kernel) (t : Nat) : Option Ptr := (k.advances t).bind activeProcess

/-- Whoever runs or is ready is live and has priority `c`. -/
structure Uniform (c : Int) (k : Kernel) : Prop where
  capacity : k.priorityQueue.capacity = 512
  level : k.priorityQueue.Level c
  running : ∀ p, p ∈ k.occupied → ∃ P, k.processes p = some P ∧ P.priority = c

/-- The active process, if there is one, and then the slots of the queue. -/
def line (k : Kernel) : List Ptr := k.activeProcess.toList ++ k.priorityQueue.slots

theorem coe_line (k : Kernel) : (k.line : Multiset Ptr) = k.occupied := by
  rw [line, ← Multiset.coe_add, occupied, ready, PriorityQueue.values_eq_slots]

/-- The ready queue with the active process back in it. -/
def requeued (c : Int) (k : Kernel) : PriorityQueue Ptr :=
  match k.activeProcess with
  | none => k.priorityQueue
  | some p => (k.priorityQueue.priorityqueueInsert p c).2

theorem requeued_of_none {k : Kernel} (ha : k.activeProcess = none) (c : Int) :
    k.requeued c = k.priorityQueue := by
  rw [requeued, ha]

theorem requeued_of_some {k : Kernel} {a : Ptr} (ha : k.activeProcess = some a) (c : Int) :
    k.requeued c = (k.enqueue a c).priorityQueue := by
  rw [requeued, ha]
  rfl

theorem room_of_capacity {c : Int} {k : Kernel} (h : Uniform c k)
    (hsize : k.priorityQueue.size < 512) : k.HasRoom := by
  unfold HasRoom
  rw [h.capacity]
  exact hsize

theorem Uniform.level_requeued {c : Int} {k : Kernel} (h : Uniform c k) :
    (k.requeued c).Level c := by
  rw [requeued]
  split
  · exact h.level
  · rename_i a ha
    by_cases hroom : k.HasRoom
    · obtain ⟨hheap, hsize⟩ := PriorityQueue.insert_of_level hroom h.level a
      intro i hi
      rw [hsize] at hi
      rw [hheap]
      by_cases hlast : i = k.priorityQueue.size
      · rw [hlast, Function.update_self]
      · rw [Function.update_of_ne hlast]
        exact h.level i (by omega)
    · show (k.enqueue a c).priorityQueue.Level c
      rw [enqueue_of_full hroom]
      exact h.level

theorem requeueActive_eq {c : Int} {k : Kernel} (h : Uniform c k) :
    k.requeueActive = some { k with priorityQueue := k.requeued c } := by
  rcases Option.eq_none_or_eq_some k.activeProcess with ha | ⟨a, ha⟩
  · have hidle : k.requeueActive = some k := by rw [requeueActive, ha]
    rw [requeued_of_none ha, hidle]
  · obtain ⟨A, hA, hprio⟩ := h.running a (mem_occupied.mpr (.inl ha))
    have hback : k.requeueActive = some (k.enqueue a c) := by
      rw [requeueActive, ha, ← hprio]
      show (k.processes a).bind _ = _
      rw [hA]
      rfl
    rw [hback, requeued_of_some ha]
    rfl

theorem values_requeued_le (c : Int) (k : Kernel) : (k.requeued c).values ≤ k.occupied := by
  rw [requeued]
  split
  · rename_i hnone
    exact le_of_eq (occupied_of_none hnone).symm
  · rename_i a ha
    rw [occupied_of_some ha]
    by_cases hroom : k.HasRoom
    · exact le_of_eq (ready_enqueue hroom a c)
    · show (k.enqueue a c).ready ≤ _
      rw [enqueue_of_full hroom]
      exact Multiset.le_cons_self _ _

/-- A call of the scheduler, with a process to enter, takes what `extract_min`
gives it. -/
theorem Uniform.advance {c : Int} {k : Kernel} (h : Uniform c k) {value : Ptr}
    {queue' : PriorityQueue Ptr}
    (hext : (k.requeued c).priorityqueueExtractMin = some (some value, queue')) :
    ∃ k', k.kernelAdvanceScheduler = some k' ∧ k'.activeProcess = some value ∧
      k'.priorityQueue = queue' ∧ Uniform c k' ∧ k'.occupied ≤ k.occupied := by
  have hpos : 0 < (k.requeued c).size := by
    apply Nat.pos_of_ne_zero
    intro hzero
    rw [PriorityQueue.extractMin_of_empty hzero] at hext
    cases hext
  obtain ⟨queue, hq, hentries, -, hcap⟩ := PriorityQueue.extractMin_of_pos hpos
  obtain ⟨rfl, rfl⟩ : value = ((k.requeued c).heap 0).value ∧ queue' = queue := by
    rw [hext] at hq
    cases hq
    exact ⟨rfl, rfl⟩
  have hmem : ((k.requeued c).heap 0).value ∈ k.occupied := by
    refine Multiset.mem_of_le (values_requeued_le c k) (Multiset.mem_map_of_mem _ ?_)
    exact PrefixBag.mem_bag.mpr ⟨0, hpos, rfl⟩
  obtain ⟨P, hP, -⟩ := h.running _ hmem
  have hadv : k.kernelAdvanceScheduler = some { k with
      priorityQueue := queue', activeProcess := some ((k.requeued c).heap 0).value
      cr3 := P.pageTable } := by
    rw [kernelAdvanceScheduler, requeueActive_eq h]
    simp only [Option.bind_eq_bind, Option.bind_some, hext, hP]
    rfl
  obtain ⟨hproc, -, hcapacity, hle, -⟩ := advance_occupied hadv
  refine ⟨_, hadv, rfl, rfl, ⟨hcapacity.trans h.capacity, ?_, ?_⟩, hle⟩
  · apply PriorityQueue.level_of_entries
    intro node hnode
    have hnode : node ∈ (k.requeued c).entries := hentries ▸ Multiset.mem_cons_of_mem hnode
    obtain ⟨i, hi, rfl⟩ := PrefixBag.mem_bag.mp hnode
    exact h.level_requeued i hi
  · intro p hp
    exact h.running p (Multiset.mem_of_le hle hp)

/-! ### Up to three processes -/

theorem length_line (k : Kernel) : k.line.length = k.occupied.card := by
  rw [← coe_line, Multiset.coe_card]

theorem length_slots (queue : PriorityQueue Ptr) : queue.slots.length = queue.size := by
  simp [PriorityQueue.slots]

/-- The line moves up by one when the active process goes to its end. -/
theorem Uniform.advance_line {c : Int} {k : Kernel} (h : Uniform c k) (hpos : 0 < k.occupied.card)
    (hthree : k.occupied.card ≤ 3) :
    ∃ k', k.kernelAdvanceScheduler = some k' ∧ Uniform c k' ∧ k'.activeProcess.isSome ∧
      k'.line = if k.activeProcess.isSome then k.line.rotate 1 else k.line := by
  have hlen := length_line k
  rw [line, List.length_append, length_slots] at hlen
  have hslots : (k.requeued c).slots =
      if k.activeProcess.isSome then k.line.rotate 1 else k.line := by
    rw [requeued, line]
    cases ha : k.activeProcess with
    | none => rfl
    | some a =>
      rw [ha] at hlen
      have hroom := room_of_capacity h (by omega)
      show (k.priorityQueue.priorityqueueInsert a c).2.slots = _
      rw [PriorityQueue.insert_slots hroom h.level]
      simp
  have hsize : (k.requeued c).size = k.occupied.card := by
    rw [← length_slots, hslots, ← length_line]
    split <;> simp
  obtain ⟨value, queue', hext, hcons⟩ :=
    PriorityQueue.extractMin_slots (by omega) (by omega) h.level_requeued
  obtain ⟨k', hadv, hactive, hqueue, huniform, -⟩ := h.advance hext
  refine ⟨k', hadv, huniform, by rw [hactive]; rfl, ?_⟩
  rw [← hslots, hcons, line, hactive, hqueue]
  rfl

theorem Uniform.advances_line {c : Int} {k : Kernel} (h : Uniform c k)
    (hactive : k.activeProcess.isSome) (hthree : k.occupied.card ≤ 3) (t : Nat) :
    ∃ k', k.advances t = some k' ∧ Uniform c k' ∧ k'.activeProcess.isSome ∧
      k'.line = k.line.rotate t := by
  have hpos : 0 < k.occupied.card := by
    obtain ⟨a, ha⟩ := Option.isSome_iff_exists.mp hactive
    exact Multiset.card_pos_iff_exists_mem.mpr ⟨a, mem_occupied.mpr (.inl ha)⟩
  induction t with
  | zero => exact ⟨k, rfl, h, hactive, (List.rotate_zero _).symm⟩
  | succ t ih =>
    obtain ⟨k', hk', huniform, hsome, hline⟩ := ih
    have hcard : k'.occupied.card = k.occupied.card := by
      rw [← length_line, hline, List.length_rotate, length_line]
    obtain ⟨k'', hadv, huniform', hsome', hline'⟩ := huniform.advance_line (by omega) (by omega)
    refine ⟨k'', by rw [advances, hk']; exact hadv, huniform', hsome', ?_⟩
    rw [hline', if_pos hsome, hline, List.rotate_rotate]

theorem advances_succ {k k' : Kernel} (hadv : k.kernelAdvanceScheduler = some k') (t : Nat) :
    k.advances (t + 1) = k'.advances t := by
  induction t with
  | zero => exact hadv
  | succ t ih => rw [advances, ih, advances]

/-- The scheduler goes round the line. -/
theorem Uniform.activation_eq {c : Int} {k : Kernel} (h : Uniform c k)
    (hactive : k.activeProcess.isSome) (hthree : k.occupied.card ≤ 3) (t : Nat) :
    k.activation t = k.line[t % k.line.length]? := by
  obtain ⟨k', hk', -, hsome, hline⟩ := h.advances_line hactive hthree t
  obtain ⟨a, ha⟩ := Option.isSome_iff_exists.mp hsome
  have hhead : k'.line[0]? = some a := by
    rw [line, ha]
    rfl
  have hpos : 0 < k.line.length := by
    rw [← List.length_rotate k.line t, ← hline, line, ha]
    simp
  rw [activation, hk', Option.bind_some, ha, ← hhead, hline, List.getElem?_rotate hpos,
    Nat.zero_add]

/-- So the turns are a rotation, perhaps after one call that enters the first. -/
theorem Uniform.rotation {c : Int} {k : Kernel} (h : Uniform c k) (hpos : 0 < k.occupied.card)
    (hthree : k.occupied.card ≤ 3) :
    ∃ d, (∀ t, t < d → k.activation t = none) ∧
      ∀ t, k.activation (t + d) = k.line[t % k.line.length]? := by
  rcases Option.eq_none_or_eq_some k.activeProcess with ha | ⟨a, ha⟩
  · obtain ⟨k', hadv, huniform, hsome, hline'⟩ := h.advance_line hpos hthree
    rw [ha, Option.isSome_none, if_neg (by decide)] at hline'
    have hthree' : k'.occupied.card ≤ 3 := by
      rw [← length_line, hline', length_line]
      exact hthree
    refine ⟨1, ?_, ?_⟩
    · intro t ht
      obtain rfl : t = 0 := by omega
      exact ha
    · intro t
      rw [← hline', ← huniform.activation_eq hsome hthree' t, activation, advances_succ hadv]
      rfl
  · have hsome : k.activeProcess.isSome := by
      rw [ha]
      rfl
    exact ⟨0, fun t ht => absurd ht (Nat.not_lt_zero t), h.activation_eq hsome hthree⟩

theorem Uniform.fair {c : Int} {k : Kernel} (h : Uniform c k) (hnodup : k.occupied.Nodup)
    (hthree : k.occupied.card ≤ 3) :
    RoundRobin.Fair k.activation (· ∈ k.occupied) ∧
      RoundRobin.Served k.activation (· ∈ k.occupied) := by
  have hline : k.line.Nodup := by
    rw [← Multiset.coe_nodup, coe_line]
    exact hnodup
  have hgroup : ∀ q, q ∈ k.occupied → q ∈ k.line := by
    intro q hq
    rwa [← coe_line] at hq
  rcases Nat.eq_zero_or_pos k.occupied.card with hzero | hpos
  · -- nobody to run
    have hnobody : ∀ q, q ∉ k.occupied := by
      rw [Multiset.card_eq_zero.mp hzero]
      exact Multiset.notMem_zero
    exact ⟨fun _ _ _ q _ _ _ hq => absurd hq (hnobody q), fun q _ hq => absurd hq (hnobody q)⟩
  · obtain ⟨d, hbefore, hturn⟩ := h.rotation hpos hthree
    exact ⟨RoundRobin.fair_of_rotation hline hgroup hbefore hturn,
      RoundRobin.served_of_rotation hgroup hturn⟩

/-! ### Four processes and more -/

/-- All of them, or as many as fit, are in the queue when the scheduler takes one. -/
theorem Uniform.size_requeued {c : Int} {k : Kernel} (h : Uniform c k) :
    (k.requeued c).size = min k.occupied.card 512 := by
  have hsize := k.priorityQueue.size_le
  rw [h.capacity] at hsize
  have hready : k.ready.card = k.priorityQueue.size := by
    rw [ready, PriorityQueue.values, Multiset.card_map, PriorityQueue.card_entries]
  rcases Option.eq_none_or_eq_some k.activeProcess with ha | ⟨a, ha⟩
  · rw [requeued_of_none ha, occupied_of_none ha, hready]
    omega
  · rw [requeued_of_some ha, occupied_of_some ha, Multiset.card_cons, hready]
    by_cases hroom : k.HasRoom
    · rw [size_enqueue hroom]
      unfold HasRoom at hroom
      rw [h.capacity] at hroom
      omega
    · rw [enqueue_of_full hroom]
      unfold HasRoom at hroom
      rw [h.capacity] at hroom
      omega

/-- The active process does not go into slot 2. -/
theorem Uniform.slot_two_requeued {c : Int} {k : Kernel} (h : Uniform c k)
    (hthree : 2 < k.priorityQueue.size) : (k.requeued c).heap 2 = k.priorityQueue.heap 2 := by
  rcases Option.eq_none_or_eq_some k.activeProcess with ha | ⟨a, ha⟩
  · rw [requeued_of_none ha]
  · rw [requeued_of_some ha]
    by_cases hroom : k.HasRoom
    · have hheap := (PriorityQueue.insert_of_level hroom h.level a).1
      show (k.priorityQueue.priorityqueueInsert a c).2.heap 2 = _
      rw [hheap, Function.update_of_ne (Nat.ne_of_lt hthree)]
    · rw [enqueue_of_full hroom]

/-- Four nodes or more once the active process is back in the queue, and `q` in
slot 2. -/
structure LeftOut (c : Int) (q : Ptr) (k : Kernel) : Prop where
  uniform : Uniform c k
  four : 4 ≤ (k.requeued c).size
  slot : ((k.requeued c).heap 2).value = q

/-- The scheduler enters somebody else, and `q` stays in slot 2. -/
theorem LeftOut.advance {c : Int} {q : Ptr} {k : Kernel} (h : LeftOut c q k)
    (hnodup : k.occupied.Nodup) :
    ∃ k' p, k.kernelAdvanceScheduler = some k' ∧ k'.activeProcess = some p ∧ p ≠ q ∧
      LeftOut c q k' ∧ k'.occupied ≤ k.occupied := by
  obtain ⟨queue', hext, hsize, hslot⟩ :=
    PriorityQueue.extractMin_slot_two h.four h.uniform.level_requeued
  obtain ⟨k', hadv, hactive, rfl, huniform, hle⟩ := h.uniform.advance hext
  have hfour := h.four
  have hq : (k'.priorityQueue.heap 2).value = q := by
    rw [hslot]
    exact h.slot
  refine ⟨k', _, hadv, hactive, ?_, ⟨huniform, ?_, ?_⟩, hle⟩
  · -- `q` is in the queue, so it cannot be active
    have hready : q ∈ k'.ready := by
      rw [← hq]
      exact Multiset.mem_map_of_mem _ (PrefixBag.mem_bag.mpr ⟨2, by omega, rfl⟩)
    have hdistinct := Multiset.nodup_of_le hle hnodup
    rw [occupied_of_some hactive] at hdistinct
    rintro hp
    rw [hp] at hdistinct
    exact (Multiset.nodup_cons.mp hdistinct).1 hready
  · rw [huniform.size_requeued, occupied_of_some hactive, Multiset.card_cons, ready,
      PriorityQueue.values, Multiset.card_map, PriorityQueue.card_entries]
    omega
  · rw [huniform.slot_two_requeued (by omega)]
    exact hq

/-- In every later turn somebody other than `q` is entered. -/
theorem LeftOut.advances {c : Int} {q : Ptr} {k : Kernel} (h : LeftOut c q k)
    (hnodup : k.occupied.Nodup) (t : Nat) :
    ∃ k', k.advances t = some k' ∧ LeftOut c q k' ∧ k'.occupied ≤ k.occupied := by
  induction t with
  | zero => exact ⟨k, rfl, h, le_refl _⟩
  | succ t ih =>
    obtain ⟨k', hk', hleft, hle⟩ := ih
    obtain ⟨k'', p, hadv, -, -, hleft', hle'⟩ := hleft.advance (Multiset.nodup_of_le hle hnodup)
    exact ⟨k'', by rw [Kernel.advances, hk']; exact hadv, hleft', le_trans hle' hle⟩

theorem LeftOut.activation {c : Int} {q : Ptr} {k : Kernel} (h : LeftOut c q k)
    (hnodup : k.occupied.Nodup) (t : Nat) :
    ∃ p, k.activation (t + 1) = some p ∧ p ≠ q ∧ p ∈ k.occupied := by
  obtain ⟨k', hk', hleft, hle⟩ := h.advances hnodup t
  obtain ⟨k'', p, hadv, hactive, hne, -, hle'⟩ :=
    hleft.advance (Multiset.nodup_of_le hle hnodup)
  refine ⟨p, ?_, hne, ?_⟩
  · rw [Kernel.activation, Kernel.advances, hk', Option.bind_some, hadv]
    exact hactive
  · have hp : p ∈ k''.occupied := mem_occupied.mpr (.inl hactive)
    exact Multiset.mem_of_le hle (Multiset.mem_of_le hle' hp)

theorem Uniform.leftOut {c : Int} {k : Kernel} (h : Uniform c k) (hfour : 4 ≤ k.occupied.card) :
    ∃ q, q ∈ k.occupied ∧ LeftOut c q k := by
  have hsize : 4 ≤ (k.requeued c).size := by
    rw [h.size_requeued]
    omega
  refine ⟨((k.requeued c).heap 2).value, ?_, ⟨h, hsize, rfl⟩⟩
  refine Multiset.mem_of_le (values_requeued_le c k) (Multiset.mem_map_of_mem _ ?_)
  exact PrefixBag.mem_bag.mpr ⟨2, by omega, rfl⟩

/-- With four or more there is one that never has a turn again. -/
theorem Uniform.not_fair {c : Int} {k : Kernel} (h : Uniform c k) (hnodup : k.occupied.Nodup)
    (hfour : 4 ≤ k.occupied.card) :
    ¬ RoundRobin.Fair k.activation (· ∈ k.occupied) ∧
      ¬ RoundRobin.Served k.activation (· ∈ k.occupied) := by
  obtain ⟨q, hq, hleft⟩ := h.leftOut hfour
  have hturn := hleft.activation hnodup
  constructor
  · refine RoundRobin.not_fair_of_left_out (d := 1) hq k.occupied.toFinset ?_
    intro t
    obtain ⟨p, hp, hne, hmem⟩ := hturn t
    exact ⟨p, hp, hne, Multiset.mem_toFinset.mpr hmem⟩
  · refine RoundRobin.not_served_of_left_out (d := 1) hq ?_
    intro t hqt
    obtain ⟨p, hp, hne, -⟩ := hturn t
    exact hne (Option.some.inj (hp.symm.trans hqt))

/-! ### In every reachable state -/

theorem uniform_of_reachable {k : Kernel} {c : Int}
    (h : system.Reachable (fun k op => k.returnsCleanly op = true) k)
    (hprio : ∀ p P, p ∈ k.occupied → k.processes p = some P → P.priority = c) : Uniform c k := by
  obtain ⟨hr, hl⟩ := labelled_of_reachable h
  refine ⟨hl.capacity, ?_, ?_⟩
  · apply PriorityQueue.level_of_entries
    intro node hnode
    obtain ⟨P, hP, hlabel⟩ := hl.priority node hnode
    have hmem : node.value ∈ k.occupied :=
      mem_occupied.mpr (.inr (Multiset.mem_map_of_mem _ hnode))
    rw [← hlabel]
    exact hprio _ P hmem hP
  · intro p hp
    obtain ⟨P, hP, -⟩ := hr.running p hp
    exact ⟨P, hP, hprio p P hp hP⟩

/-- **Turns among equals.**  In a state in which all that run or are ready have one
priority, the scheduler shares the turns fairly, and everybody is entered again
and again, exactly when there are at most three of them. -/
theorem fair_iff_of_reachable {k : Kernel} {c : Int}
    (h : system.Reachable (fun k op => k.returnsCleanly op = true) k)
    (hprio : ∀ p P, p ∈ k.occupied → k.processes p = some P → P.priority = c) :
    (RoundRobin.Fair k.activation (· ∈ k.occupied) ↔ k.occupied.card ≤ 3) ∧
      (RoundRobin.Served k.activation (· ∈ k.occupied) ↔ k.occupied.card ≤ 3) := by
  have hnodup : k.occupied.Nodup := (labelled_of_reachable h).1.nodup
  have huniform := uniform_of_reachable h hprio
  rcases Nat.lt_or_ge 3 k.occupied.card with hfour | hthree
  · obtain ⟨hfair, hserved⟩ := huniform.not_fair hnodup hfour
    exact ⟨iff_of_false hfair (by omega), iff_of_false hserved (by omega)⟩
  · obtain ⟨hfair, hserved⟩ := huniform.fair hnodup hthree
    exact ⟨iff_of_true hfair hthree, iff_of_true hserved hthree⟩

/-- The same hypothesis, checked along the line. -/
def Even (c : Int) (k : Kernel) : Bool :=
  k.line.all fun p => (k.processes p).map Process.priority = some c

theorem Even.priority {c : Int} {k : Kernel} (h : k.Even c = true) (p : Ptr) (P : Process)
    (hp : p ∈ k.occupied) (hP : k.processes p = some P) : P.priority = c := by
  rw [← coe_line] at hp
  have hc := of_decide_eq_true (List.all_eq_true.mp h p hp)
  rw [hP] at hc
  exact Option.some.inj hc

/-- Three processes of priority 1, the first of them entered. -/
def threeRun : List Op :=
  [.spawn 0x8000 1 0x1000 (.succeeds 1 fun _ => 0), .spawn 0x9000 1 0x1000 (.succeeds 2 fun _ => 0),
    .spawn 0xA000 1 0x1000 (.succeeds 3 fun _ => 0), .advance]

theorem fair_iff_threeRun :
    ∃ k, Transition.System.runFrom (fun k op => returnsCleanly k op = true) step bare
      threeRun = some k ∧
      (RoundRobin.Fair k.activation (· ∈ k.occupied) ↔ k.occupied.card ≤ 3) ∧
      (RoundRobin.Served k.activation (· ∈ k.occupied) ↔ k.occupied.card ≤ 3) := by
  have hrun : (Transition.System.runFrom (fun k op => returnsCleanly k op = true) step bare
      threeRun).any (fun k => k.Even 1) = true := by decide +kernel
  obtain ⟨k, hk, heven⟩ := (Option.any_eq_true _ _).mp hrun
  exact ⟨k, hk, fair_iff_of_reachable (.runFrom _ _ (.init boot_bare) hk) (Even.priority heven)⟩

/-- And with a fourth, which is never entered. -/
def fourRun : List Op :=
  [.spawn 0x8000 1 0x1000 (.succeeds 1 fun _ => 0), .spawn 0x9000 1 0x1000 (.succeeds 2 fun _ => 0),
    .spawn 0xA000 1 0x1000 (.succeeds 3 fun _ => 0),
    .spawn 0xB000 1 0x1000 (.succeeds 4 fun _ => 0), .advance]

theorem not_fair_fourRun :
    ¬ ∀ k c, system.Reachable (fun _ op => op.isProcessCall = true) k →
      (∀ p P, p ∈ k.occupied → k.processes p = some P → P.priority = c) →
      RoundRobin.Fair k.activation (· ∈ k.occupied) := by
  intro h
  have hrun : (Transition.System.runFrom (fun _ op => op.isProcessCall = true) step bare
      fourRun).any (fun k => k.Even 1 ∧ 4 ≤ k.line.length) = true := by decide +kernel
  obtain ⟨k, hk, heven⟩ := (Option.any_eq_true _ _).mp hrun
  obtain ⟨heven, hfour⟩ := of_decide_eq_true heven
  have hreach : system.Reachable _ k := .runFrom _ _ (.init boot_bare) hk
  have hclean : system.Reachable (fun k op => k.returnsCleanly op = true) k := by
    refine hreach.mono ?_
    intro k op hop
    cases op <;> first | rfl | cases hop
  rw [length_line] at hfour
  have hnot := (uniform_of_reachable hclean (Even.priority heven)).not_fair
    (labelled_of_reachable hclean).1.nodup hfour
  exact hnot.1 (h k 1 hreach (Even.priority heven))

end Kernel
end QuarkKernel
