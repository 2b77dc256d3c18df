import Mathlib.Order.Basic
import QuarkKernel.HeapOrder
import QuarkKernel.PriorityQueue
import QuarkKernel.Transition

/-! # The order of the priority queue

`heapify` compares priorities only, and only on its way down from one slot.  What it
does for the order of any keys the nodes have is therefore a question about the
exchanges on that way: `decides` asks whether the keys would have made the same
ones.  They do when the keys are the priorities themselves, so that insertion and
extraction keep the queue heap-ordered.  Removal does not: the last node may have
to move up from the slot it is put into, and `heapify` only moves it down. -/
namespace QuarkKernel
namespace PriorityQueue
variable {α κ : Type}

/-- What the nodes in the slots are ordered by. -/
def keys (key : PriorityQueueNode α → κ) (queue : PriorityQueue α) : Nat → κ := key ∘ queue.heap

/-- No node stored has a smaller priority than its parent. -/
def HeapOrdered (queue : PriorityQueue α) : Prop :=
  BinaryHeap.Ordered (queue.keys PriorityQueueNode.priority) queue.size

instance (queue : PriorityQueue α) : Decidable queue.HeapOrdered :=
  inferInstanceAs (Decidable (BinaryHeap.Ordered _ _))

section Keys
variable [LinearOrder κ] (key : PriorityQueueNode α → κ)

/-- On its way down from slot `i`, `heapify` exchanges and stops as `key` asks. -/
def decides (queue : PriorityQueue α) (i : Nat) : Bool :=
  if queue.size ≤ i * 2 + 1 then true
  else if (queue.heap (i * 2 + 1)).priority ≤ (queue.heap i).priority ∧
      (queue.heap (i * 2 + 1)).priority ≤ (queue.heap (i * 2 + 2)).priority then
    key (queue.heap (i * 2 + 1)) ≤ key (queue.heap i) &&
      key (queue.heap (i * 2 + 1)) ≤ key (queue.heap (i * 2 + 2)) &&
      decides (queue.swap i (i * 2 + 1)) (i * 2 + 1)
  else if (queue.heap (i * 2 + 2)).priority ≤ (queue.heap i).priority ∧
      (queue.heap (i * 2 + 2)).priority ≤ (queue.heap (i * 2 + 1)).priority then
    key (queue.heap (i * 2 + 2)) ≤ key (queue.heap i) &&
      key (queue.heap (i * 2 + 2)) ≤ key (queue.heap (i * 2 + 1)) &&
      decides (queue.swap i (i * 2 + 2)) (i * 2 + 2)
  else key (queue.heap i) ≤ key (queue.heap (i * 2 + 1)) &&
    key (queue.heap i) ≤ key (queue.heap (i * 2 + 2))
termination_by queue.size - i
decreasing_by all_goals simp only [swap]; omega

omit [LinearOrder κ] in
theorem keys_swap (queue : PriorityQueue α) (i j : Nat) :
    (queue.swap i j).keys key = PrefixBag.swap (queue.keys key) i j := by
  show key ∘ PrefixBag.swap queue.heap i j = _
  rw [PrefixBag.swap, Function.comp_update, Function.comp_update]
  rfl

omit [LinearOrder κ] in
theorem keys_moveLast (queue : PriorityQueue α) (i : Nat) :
    (queue.moveLast i).keys key =
      Function.update (queue.keys key) i (queue.keys key (queue.size - 1)) := by
  show key ∘ Function.update queue.heap i _ = _
  rw [Function.comp_update]
  rfl

/-- The copy of the sifted node stays in slot `size`. -/
theorem copy_swap {queue : PriorityQueue α} {i j : Nat} (hi : i < queue.size) (hj : j < queue.size)
    (hcopy : queue.heap queue.size = queue.heap i) :
    (queue.swap i j).heap (queue.swap i j).size = (queue.swap i j).heap j := by
  show PrefixBag.swap _ _ _ queue.size = PrefixBag.swap _ _ _ _
  rw [PrefixBag.swap_right, PrefixBag.swap_of_ne _ (by omega) (by omega), hcopy]

/-- From a hole whose copy is in slot `size`, `heapify` orders the queue by any key
that agrees with its decisions. -/
theorem heapify_ordered {queue queue' : PriorityQueue α} {i : Nat} (hi : i < queue.size)
    (hcopy : queue.heap queue.size = queue.heap i) (hdecides : decides key queue i = true)
    (hsinks : BinaryHeap.SinksAt (queue.keys key) queue.size i)
    (h : heapify queue i = some queue') : BinaryHeap.Ordered (queue'.keys key) queue'.size := by
  -- the hole sinks to the smaller child until both are larger
  induction queue, i using heapify.induct with
  | case1 queue i hsize =>
    rw [heapify, if_pos hsize] at h
    obtain rfl := Option.some.inj h
    refine hsinks.stop fun c hc hcn => ?_
    have := BinaryHeap.isChild_iff.mp hc
    omega
  | case2 queue i hsize hout =>
    rw [heapify, if_neg hsize, if_pos hout] at h
    cases h
  | case3 queue i hsize hout hleft ih =>
    rw [heapify, if_neg hsize, if_neg hout, if_pos hleft] at h
    rw [decides, if_neg hsize, if_pos hleft] at hdecides
    simp only [Bool.and_eq_true, decide_eq_true_eq] at hdecides
    obtain ⟨⟨hle, hright⟩, hrest⟩ := hdecides
    refine ih (by rw [swap_size]; omega) (copy_swap hi (by omega) hcopy) hrest ?_ h
    rw [keys_swap]
    refine hsinks.sink (BinaryHeap.isChild_iff.mpr (.inl rfl)) (by omega) hle ?_
    intro c hc _
    rcases BinaryHeap.isChild_iff.mp hc with rfl | rfl
    · exact le_refl _
    · exact hright
  | case4 queue i hsize hout hleft hright ih =>
    rw [heapify, if_neg hsize, if_neg hout, if_neg hleft, if_pos hright] at h
    rw [decides, if_neg hsize, if_neg hleft, if_pos hright] at hdecides
    simp only [Bool.and_eq_true, decide_eq_true_eq] at hdecides
    obtain ⟨⟨hle, hother⟩, hrest⟩ := hdecides
    by_cases hlast : i * 2 + 2 = queue.size
    · -- the right child is the copy: nothing is exchanged, and the left child is larger
      have hsame : queue.swap i (i * 2 + 2) = queue := by
        rw [swap, PrefixBag.swap_of_eq (by rw [hlast, hcopy])]
      have hstop : queue.size ≤ (i * 2 + 2) * 2 + 1 := by omega
      rw [hsame, heapify, if_pos hstop] at h
      obtain rfl := Option.some.inj h
      refine hsinks.stop fun c hc hcn => ?_
      rcases BinaryHeap.isChild_iff.mp hc with rfl | rfl
      · rw [hlast, hcopy] at hother
        exact hother
      · omega
    · refine ih (by rw [swap_size]; omega) (copy_swap hi (by omega) hcopy) hrest ?_ h
      rw [keys_swap]
      refine hsinks.sink (BinaryHeap.isChild_iff.mpr (.inr rfl)) (by omega) hle ?_
      intro c hc _
      rcases BinaryHeap.isChild_iff.mp hc with rfl | rfl
      · exact hother
      · exact le_refl _
  | case5 queue i hsize hout hleft hright =>
    rw [heapify, if_neg hsize, if_neg hout, if_neg hleft, if_neg hright] at h
    rw [decides, if_neg hsize, if_neg hleft, if_neg hright] at hdecides
    simp only [Bool.and_eq_true, decide_eq_true_eq] at hdecides
    obtain rfl := Option.some.inj h
    refine hsinks.stop fun c hc hcn => ?_
    rcases BinaryHeap.isChild_iff.mp hc with rfl | rfl
    · exact hdecides.1
    · exact hdecides.2

/-- The last node may go into slot `i` when the node above is not larger. -/
theorem heapify_moveLast_ordered {queue queue' : PriorityQueue α} {i : Nat} (hi : i < queue.size)
    (hordered : BinaryHeap.Ordered (queue.keys key) queue.size)
    (habove : 0 < i →
      key (queue.heap (BinaryHeap.parent i)) ≤ key (queue.heap (queue.size - 1)))
    (hdecides : decides key (queue.moveLast i) i = true)
    (h : heapify (queue.moveLast i) i = some queue') :
    BinaryHeap.Ordered (queue'.keys key) queue'.size := by
  have hsize : (queue.moveLast i).size = queue.size - 1 := rfl
  have hsinks : BinaryHeap.SinksAt ((queue.moveLast i).keys key) (queue.moveLast i).size i := by
    rw [keys_moveLast, hsize]
    exact hordered.sinksAt (by omega) fun hpos _ => habove hpos
  by_cases hlast : i = queue.size - 1
  · -- the last node itself goes: no slot in use is touched
    have hstop : (queue.moveLast i).size ≤ i * 2 + 1 := by rw [hsize]; omega
    rw [heapify, if_pos hstop] at h
    obtain rfl := Option.some.inj h
    refine hsinks.stop fun c hc hcn => ?_
    have := BinaryHeap.isChild_iff.mp hc
    omega
  · exact heapify_ordered key (by omega) (copy_moveLast queue i) hdecides hsinks h

/-- The slot that `siftUp` frees can take the new node, if its comparisons are those
of the keys. -/
theorem siftUp_ordered (heap : Nat → PriorityQueueNode α) (i : Nat) (node : PriorityQueueNode α)
    {n : Nat} (hi : i < n)
    (hcompare : ∀ j, j < i → ((heap j).priority > node.priority ↔ key node < key (heap j)))
    (hrises : BinaryHeap.RisesAt (key ∘ heap) n i (key node)) :
    BinaryHeap.Ordered (key ∘ Function.update (siftUp heap i node.priority).1
      (siftUp heap i node.priority).2 node) n := by
  induction heap, i using siftUp.induct node.priority with
  | case1 heap i hpar ih =>
    have hup : BinaryHeap.parent i < i := BinaryHeap.parent_lt hpar.1
    rw [siftUp, if_pos hpar]
    refine ih (Nat.lt_trans hup hi) ?_ ?_
    · intro j hj
      rw [Function.update_of_ne (Nat.ne_of_lt (Nat.lt_trans hj hup))]
      exact hcompare j (Nat.lt_trans hj hup)
    · rw [Function.comp_update]
      exact hrises.rise hpar.1 hi (le_of_lt ((hcompare _ hup).mp hpar.2))
  | case2 heap i hstop =>
    rw [siftUp, if_neg hstop, Function.comp_update]
    refine hrises.stop fun hpos => le_of_not_gt fun hlt => hstop ⟨hpos, ?_⟩
    exact (hcompare _ (BinaryHeap.parent_lt hpos)).mpr hlt

/-- Insertion orders the queue by any key that agrees with its comparisons. -/
theorem insert_ordered {queue queue' : PriorityQueue α} {value : α} {priority : Int}
    (hroom : queue.size < queue.capacity)
    (hordered : BinaryHeap.Ordered (queue.keys key) queue.size)
    (hcompare : ∀ j, j < queue.size →
      ((queue.heap j).priority > priority ↔ key ⟨value, priority⟩ < key (queue.heap j)))
    (h : priorityqueueInsert queue value priority = (.enone, queue')) :
    BinaryHeap.Ordered (queue'.keys key) queue'.size := by
  rw [priorityqueueInsert, dif_neg (by omega)] at h
  cases h
  exact siftUp_ordered key queue.heap queue.size ⟨value, priority⟩ (Nat.lt_succ_self _) hcompare
    (hordered.risesAt _)

end Keys

/-! ### Ordered by priority -/

/-- `heapify` does what the priorities ask for. -/
theorem decides_priority (queue : PriorityQueue α) (i : Nat) :
    decides PriorityQueueNode.priority queue i = true := by
  induction queue, i using decides.induct with
  | case1 queue i hsize => rw [decides, if_pos hsize]
  | case2 queue i hsize hleft ih =>
    rw [decides, if_neg hsize, if_pos hleft, ih]
    simp [hleft]
  | case3 queue i hsize hleft hright ih =>
    rw [decides, if_neg hsize, if_neg hleft, if_pos hright, ih]
    simp [hright]
  | case4 queue i hsize hleft hright =>
    rw [decides, if_neg hsize, if_neg hleft, if_neg hright]
    simp only [Bool.and_eq_true, decide_eq_true_eq]
    omega

theorem HeapOrdered.least {queue : PriorityQueue α} (h : queue.HeapOrdered)
    {node : PriorityQueueNode α} (hnode : node ∈ queue.entries) :
    (queue.heap 0).priority ≤ node.priority := by
  obtain ⟨i, hi, rfl⟩ := PrefixBag.mem_bag.mp hnode
  exact h.root_le hi

theorem mem_entries_root {queue : PriorityQueue α} (h : 0 < queue.size) :
    queue.heap 0 ∈ queue.entries := PrefixBag.mem_bag.mpr ⟨0, h, rfl⟩

theorem heapOrdered_construct (heap : Nat → PriorityQueueNode α) (capacity : Nat) :
    (constructPriorityQueue heap capacity).HeapOrdered := BinaryHeap.ordered_zero _

/-- Extraction takes the root, and leaves a heap. -/
theorem HeapOrdered.extractMin {queue : PriorityQueue α} (h : queue.HeapOrdered)
    (hpos : 0 < queue.size) :
    ∃ queue', priorityqueueExtractMin queue = some (some (queue.heap 0).value, queue') ∧
      queue.entries = queue.heap 0 ::ₘ queue'.entries ∧ queue'.HeapOrdered := by
  obtain ⟨queue', hq, hentries, -, -⟩ := heapify_moveLast hpos
  refine ⟨queue', ?_, hentries, ?_⟩
  · rw [priorityqueueExtractMin, if_neg (by omega), hq]
    rfl
  · exact heapify_moveLast_ordered _ hpos h (fun hlt => absurd hlt (Nat.lt_irrefl 0))
      (decides_priority _ _) hq

/-- Insertion leaves a heap, whether there is room or not. -/
theorem HeapOrdered.insert {queue : PriorityQueue α} (h : queue.HeapOrdered) (value : α)
    (priority : Int) : (priorityqueueInsert queue value priority).2.HeapOrdered := by
  by_cases hfull : queue.size = queue.capacity
  · rw [insert_of_full hfull]
    exact h
  · have hroom : queue.size < queue.capacity := by
      have := queue.size_le
      omega
    obtain ⟨queue', hq, -, -, -⟩ := insert_of_lt hroom value priority
    rw [hq]
    exact insert_ordered _ hroom h (fun _ _ => Iff.rfl) hq

/-! ### Runs of insertions and extractions -/

/-- A call about one queue. -/
inductive QueueOp (α : Type) where
  | insert (value : α) (priority : Int)
  | extractMin
  | remove (value : α)

/-- Values are put in and taken out at the root only. -/
def QueueOp.isRemove : QueueOp α → Bool
  | .remove _ => true
  | _ => false

section Runs
variable [DecidableEq α]

/-- The queue a call leaves. -/
def applyOp (queue : PriorityQueue α) : QueueOp α → Option (PriorityQueue α)
  | .insert value priority => some (priorityqueueInsert queue value priority).2
  | .extractMin => (priorityqueueExtractMin queue).map Prod.snd
  | .remove value => (priorityqueueRemove queue value).map Prod.snd

/-- Calls about a queue that has just been constructed. -/
def queueSystem (α : Type) [DecidableEq α] : Transition.System (PriorityQueue α) (QueueOp α) :=
  .ofStep (fun queue => ∃ heap capacity, queue = constructPriorityQueue heap capacity) applyOp

theorem HeapOrdered.applyOp {queue queue' : PriorityQueue α} (h : queue.HeapOrdered)
    {op : QueueOp α} (hop : op.isRemove = false) (hst : applyOp queue op = some queue') :
    queue'.HeapOrdered := by
  cases op with
  | insert value priority =>
    obtain rfl := Option.some.inj hst
    exact h.insert value priority
  | extractMin =>
    obtain ⟨⟨value, rest⟩, hex, rfl⟩ := Option.map_eq_some_iff.mp hst
    rcases Nat.eq_zero_or_pos queue.size with hsize | hpos
    · rw [extractMin_of_empty hsize] at hex
      cases hex
      exact h
    · obtain ⟨rest', hrest, -, hordered⟩ := h.extractMin hpos
      rw [hrest] at hex
      cases hex
      exact hordered
  | remove value => cases hop

/-- **Extraction takes a least priority.**  Whatever has been inserted and extracted
since the queue was constructed, the queue is heap-ordered, and `extract_min` takes
a node no stored node has a smaller priority than, and leaves a heap. -/
theorem extractMin_least_of_reachable {queue : PriorityQueue α}
    (h : (queueSystem α).Reachable (fun _ op => op.isRemove = false) queue) :
    queue.HeapOrdered ∧
      (0 < queue.size → ∃ node queue',
        priorityqueueExtractMin queue = some (some node.value, queue') ∧
        queue.entries = node ::ₘ queue'.entries ∧
        (∀ other, other ∈ queue.entries → node.priority ≤ other.priority) ∧
        queue'.HeapOrdered) := by
  have hordered : queue.HeapOrdered := by
    refine h.invariant HeapOrdered ?_ (fun _ _ _ h hop hst => h.applyOp hop hst)
    rintro queue ⟨heap, capacity, rfl⟩
    exact heapOrdered_construct heap capacity
  refine ⟨hordered, ?_⟩
  intro hpos
  obtain ⟨queue', hex, hentries, hordered'⟩ := hordered.extractMin hpos
  exact ⟨queue.heap 0, queue', hex, hentries, fun _ => hordered.least, hordered'⟩

/-- Four insertions and one extraction leave the later node of priority 3 at the
root. -/
theorem extractMin_least_fourRun :
    ∃ queue, Transition.System.runFrom (fun _ op => op.isRemove = false) applyOp
        (constructPriorityQueue (fun _ => ⟨0, 0⟩) 4)
        [.insert 10 7, .insert 20 3, .insert 30 5, .insert 40 3, .extractMin] = some queue ∧
      queue.HeapOrdered ∧
      ∃ node queue', priorityqueueExtractMin queue = some (some node.value, queue') ∧
        queue.entries = node ::ₘ queue'.entries ∧
        (∀ other, other ∈ queue.entries → node.priority ≤ other.priority) ∧
        queue'.HeapOrdered := by
  obtain ⟨queue, hq, hsize⟩ := (Option.any_eq_true _ _).mp (show (Transition.System.runFrom
    (fun _ op => op.isRemove = false) applyOp (constructPriorityQueue (fun _ => ⟨0, 0⟩) 4)
      [.insert 10 7, .insert 20 3, .insert 30 5, .insert 40 3, .extractMin]).any
        (fun queue => 0 < queue.size) = true by
    decide +kernel)
  obtain ⟨hordered, hleast⟩ :=
    extractMin_least_of_reachable (.runFrom _ _ (.init ⟨_, _, rfl⟩) hq)
  exact ⟨queue, hq, hordered, hleast (of_decide_eq_true hsize)⟩

end Runs

/-! ### Draining -/

/-- The priorities of the nodes that `n` calls of `extract_min` take. -/
def draws : Nat → PriorityQueue α → Option (List Int)
  | 0, _ => some []
  | n + 1, queue => do
      let (value, queue') ← priorityqueueExtractMin queue
      match value with
      | none => some []
      | some _ => (draws n queue').map ((queue.heap 0).priority :: ·)

/-- A heap gives its nodes away in order of priority. -/
theorem HeapOrdered.draws {queue : PriorityQueue α} (h : queue.HeapOrdered) (n : Nat) :
    ∃ taken, draws n queue = some taken ∧ taken.Pairwise (· ≤ ·) ∧
      ∀ priority, priority ∈ taken → ∃ node, node ∈ queue.entries ∧ node.priority = priority := by
  induction n generalizing queue with
  | zero => exact ⟨[], rfl, .nil, fun _ hp => absurd hp List.not_mem_nil⟩
  | succ n ih =>
    rcases Nat.eq_zero_or_pos queue.size with hsize | hpos
    · refine ⟨[], ?_, .nil, fun _ hp => absurd hp List.not_mem_nil⟩
      rw [PriorityQueue.draws, extractMin_of_empty hsize]
      rfl
    · obtain ⟨queue', hex, hentries, hordered⟩ := h.extractMin hpos
      obtain ⟨taken, htaken, hsorted, hfrom⟩ := ih hordered
      have hrest : ∀ priority, priority ∈ taken →
          ∃ node, node ∈ queue.entries ∧ node.priority = priority := by
        intro priority hp
        obtain ⟨node, hnode, rfl⟩ := hfrom priority hp
        exact ⟨node, hentries ▸ Multiset.mem_cons_of_mem hnode, rfl⟩
      refine ⟨(queue.heap 0).priority :: taken, ?_, ?_, ?_⟩
      · rw [PriorityQueue.draws, hex]
        show (PriorityQueue.draws n queue').map _ = _
        rw [htaken]
        rfl
      · refine List.pairwise_cons.mpr ⟨?_, hsorted⟩
        intro priority hp
        obtain ⟨node, hnode, rfl⟩ := hrest priority hp
        exact h.least hnode
      · intro priority hp
        rcases List.mem_cons.mp hp with rfl | hp
        · exact ⟨_, mem_entries_root hpos, rfl⟩
        · exact hrest priority hp

/-! ### Removal -/

/-- `heapify` changes no slot above the one it starts from. -/
theorem heapify_above {queue queue' : PriorityQueue α} {i : Nat} (h : heapify queue i = some queue')
    {j : Nat} (hj : j < i) : queue'.heap j = queue.heap j := by
  induction queue, i using heapify.induct with
  | case1 queue i hsize =>
    rw [heapify, if_pos hsize] at h
    cases h
    rfl
  | case2 queue i hsize hout =>
    rw [heapify, if_neg hsize, if_pos hout] at h
    cases h
  | case3 queue i hsize hout hleft ih =>
    rw [heapify, if_neg hsize, if_neg hout, if_pos hleft] at h
    rw [ih h (by omega)]
    exact PrefixBag.swap_of_ne _ (by omega) (by omega)
  | case4 queue i hsize hout hleft hright ih =>
    rw [heapify, if_neg hsize, if_neg hout, if_neg hleft, if_pos hright] at h
    rw [ih h (by omega)]
    exact PrefixBag.swap_of_ne _ (by omega) (by omega)
  | case5 queue i hsize hout hleft hright =>
    rw [heapify, if_neg hsize, if_neg hout, if_neg hleft, if_neg hright] at h
    cases h
    rfl

/-- The slot `heapify` starts from gets no larger a priority. -/
theorem heapify_start {queue queue' : PriorityQueue α} {i : Nat}
    (h : heapify queue i = some queue') :
    (queue'.heap i).priority ≤ (queue.heap i).priority := by
  rw [heapify] at h
  split at h
  · cases h
    exact le_refl _
  · split at h
    · cases h
    · split at h
      · rename_i hleft
        rw [heapify_above h (by omega)]
        show (PrefixBag.swap queue.heap _ _ i).priority ≤ _
        rw [PrefixBag.swap_left]
        exact hleft.1
      · split at h
        · rename_i hright
          rw [heapify_above h (by omega)]
          show (PrefixBag.swap queue.heap _ _ i).priority ≤ _
          rw [PrefixBag.swap_left]
          exact hright.1
        · cases h
          exact le_refl _

section Remove
variable [DecidableEq α]

/-- The slot `priorityqueue_remove` finds. -/
theorem remove_of_first {queue : PriorityQueue α} {i : Nat} (hi : i < queue.size)
    (hfirst : ∀ j, j < i → (queue.heap j).value ≠ (queue.heap i).value) :
    ∃ queue', heapify (queue.moveLast i) i = some queue' ∧
      priorityqueueRemove queue (queue.heap i).value = some (.enone, queue') := by
  have hfind : (List.range queue.size).find?
      (fun j => (queue.heap j).value = (queue.heap i).value) = some i := by
    rw [List.find?_range_eq_some]
    refine ⟨by simp, List.mem_range.mpr hi, ?_⟩
    intro j hj
    simpa using hfirst j hj
  obtain ⟨queue', hq, -, -, -⟩ := heapify_moveLast hi
  refine ⟨queue', hq, ?_⟩
  rw [priorityqueueRemove, hfind]
  simp only [hq]
  rfl

/-- **Removal keeps the heap order unless the last node has to move up.**  Removing
the value in slot `i` of a heap leaves a heap, from which the nodes are extracted
in order of priority, exactly when slot `i` is the root or the node above it is not
larger than the last one. -/
theorem remove_heapOrdered_iff {queue : PriorityQueue α} (hordered : queue.HeapOrdered) {i : Nat}
    (hi : i < queue.size) (hfirst : ∀ j, j < i → (queue.heap j).value ≠ (queue.heap i).value) :
    (∃ queue', priorityqueueRemove queue (queue.heap i).value = some (.enone, queue') ∧
        queue'.HeapOrdered ∧
        ∀ n, ∃ taken, draws n queue' = some taken ∧ taken.Pairwise (· ≤ ·)) ↔
      (0 < i → (queue.heap (BinaryHeap.parent i)).priority ≤
        (queue.heap (queue.size - 1)).priority) := by
  obtain ⟨queue', hq, hremove⟩ := remove_of_first hi hfirst
  have hsize : queue'.size = queue.size - 1 := by
    obtain ⟨q, hq', -, hs, -⟩ := heapify_moveLast hi
    rw [hq] at hq'
    cases hq'
    exact hs
  constructor
  · rintro ⟨q, hremove', hordered', -⟩ hpos
    rw [hremove] at hremove'
    cases hremove'
    by_cases hlast : i = queue.size - 1
    · rw [← hlast]
      exact hordered i _ (BinaryHeap.isChild_parent hpos) hi
    · -- slot `i` holds at most the last node's priority, the slot above what it held
      have hup := BinaryHeap.parent_lt hpos
      have habove : (queue'.heap (BinaryHeap.parent i)).priority ≤ (queue'.heap i).priority :=
        hordered' i _ (BinaryHeap.isChild_parent hpos) (by omega)
      have hmoved := heapify_start hq
      rw [heapify_above hq hup] at habove
      have hkept : (queue.moveLast i).heap (BinaryHeap.parent i) =
          queue.heap (BinaryHeap.parent i) := Function.update_of_ne (Nat.ne_of_lt hup) _ _
      have hplaced : (queue.moveLast i).heap i = queue.heap (queue.size - 1) :=
        Function.update_self ..
      rw [hkept] at habove
      rw [hplaced] at hmoved
      exact le_trans habove hmoved
  · -- the last node may stand in the slot, and `heapify` mends what is below
    intro habove
    have hordered' : queue'.HeapOrdered :=
      heapify_moveLast_ordered _ hi hordered habove (decides_priority _ _) hq
    refine ⟨queue', hremove, hordered', fun n => ?_⟩
    obtain ⟨taken, htaken, hsorted, -⟩ := hordered'.draws n
    exact ⟨taken, htaken, hsorted⟩

/-- Seven insertions make the heap 1; 4, 2; 6, 7, 5, 3. -/
def sevenNodes : PriorityQueue Nat where
  heap i := ⟨i, [1, 4, 2, 6, 7, 5, 3].getD i 0⟩
  size := 7
  capacity := 8
  size_le := by decide

theorem heapOrdered_sevenNodes : sevenNodes.HeapOrdered := by decide +kernel

/-- Removing the node in slot 2 moves 3 to the place of 2, which is below 1; removing the one
in slot 3 moves it below 4. -/
theorem remove_heapOrdered_iff_sevenNodes :
    (∃ queue', priorityqueueRemove sevenNodes 2 = some (.enone, queue') ∧ queue'.HeapOrdered ∧
        ∀ n, ∃ taken, draws n queue' = some taken ∧ taken.Pairwise (· ≤ ·)) ∧
      ¬ ∃ queue', priorityqueueRemove sevenNodes 3 = some (.enone, queue') ∧
        queue'.HeapOrdered ∧ ∀ n, ∃ taken, draws n queue' = some taken ∧ taken.Pairwise (· ≤ ·) :=
  ⟨(remove_heapOrdered_iff heapOrdered_sevenNodes (i := 2) (by decide) (by decide)).mpr
    (by decide), fun h => absurd ((remove_heapOrdered_iff heapOrdered_sevenNodes (i := 3)
      (by decide) (by decide)).mp h) (by decide)⟩

/-- Removing the node in slot 3 moves 3 to the place of 6, which is below 4: 4 is
extracted before it. -/
theorem not_remove_heapOrdered_sevenNodes :
    ¬ ∀ (queue : PriorityQueue Nat) (value : Nat), queue.HeapOrdered → value ∈ queue.values →
      ∃ queue', priorityqueueRemove queue value = some (.enone, queue') ∧ queue'.HeapOrdered ∧
        ∀ n, ∃ taken, draws n queue' = some taken ∧ taken.Pairwise (· ≤ ·) := by
  intro hall
  have hdraws : ((priorityqueueRemove sevenNodes 3).bind fun r => draws 6 r.2) =
      some [1, 2, 4, 3, 5, 7] := by decide +kernel
  obtain ⟨queue', hremove, -, hsorted⟩ := hall sevenNodes 3 heapOrdered_sevenNodes (by decide)
  obtain ⟨taken, htaken, hpairs⟩ := hsorted 6
  rw [hremove, Option.bind_some, htaken] at hdraws
  cases hdraws
  revert hpairs
  decide

end Remove

end PriorityQueue
end QuarkKernel
