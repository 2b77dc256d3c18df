import QuarkKernel.PriorityQueue
import Mathlib.Data.Finset.Piecewise

/-! # The slots the priority queue touches

The indices each function of `priorityqueue.c` reads or writes, in the order it
does.  `heapify` looks at `heap[i * 2 + 2]` even when that is slot `size`; its
callers have just taken a node away, so slot `size` is within the block.

A function uses no other slots: whatever else is put into those (`overlay`), it
does the same to the ones in its list, and leaves the others as they are
(`heapify_overlay`, `insert_overlay`, `extractMin_overlay`, `remove_overlay`). -/
namespace QuarkKernel
namespace PriorityQueue
variable {α : Type}

/-- The indices `heapify` uses.  Whichever comparison fails first, it reads all three
nodes. -/
def heapifyIndices (queue : PriorityQueue α) (i : Nat) : List Nat :=
  if queue.size ≤ i * 2 + 1 then []
  else if (queue.heap (i * 2 + 1)).priority ≤ (queue.heap i).priority ∧
      (queue.heap (i * 2 + 1)).priority ≤ (queue.heap (i * 2 + 2)).priority then
    [i * 2 + 1, i, i * 2 + 2] ++ heapifyIndices (queue.swap i (i * 2 + 1)) (i * 2 + 1)
  else if (queue.heap (i * 2 + 2)).priority ≤ (queue.heap i).priority ∧
      (queue.heap (i * 2 + 2)).priority ≤ (queue.heap (i * 2 + 1)).priority then
    [i * 2 + 1, i, i * 2 + 2] ++ heapifyIndices (queue.swap i (i * 2 + 2)) (i * 2 + 2)
  else [i * 2 + 1, i, i * 2 + 2]
termination_by queue.size - i
decreasing_by all_goals simp only [swap]; omega

/-- The indices `priorityqueue_extract_min` uses. -/
def extractMinIndices (queue : PriorityQueue α) : List Nat :=
  if queue.size = 0 then []
  else 0 :: (queue.size - 1) :: heapifyIndices (queue.moveLast 0) 0

/-- The indices the loop of `priorityqueue_insert` uses. -/
def siftUpIndices (heap : Nat → PriorityQueueNode α) (i : Nat) (priority : Int) : List Nat :=
  if i = 0 then []
  else if (heap ((i - 1) / 2)).priority > priority then
    [(i - 1) / 2, i] ++
      siftUpIndices (Function.update heap i (heap ((i - 1) / 2))) ((i - 1) / 2) priority
  else [(i - 1) / 2]
termination_by i
decreasing_by omega

/-- The indices `priorityqueue_insert` uses. -/
def insertIndices (queue : PriorityQueue α) (priority : Int) : List Nat :=
  if queue.size = queue.capacity then []
  else siftUpIndices queue.heap queue.size priority ++ [(siftUp queue.heap queue.size priority).2]

/-- The indices `priorityqueue_remove` uses: the slots it searches, and then those of
the removal. -/
def removeIndices [DecidableEq α] (queue : PriorityQueue α) (value : α) : List Nat :=
  match (List.range queue.size).find? (fun i => (queue.heap i).value = value) with
  | some i => List.range (i + 1) ++ [queue.size - 1, i] ++ heapifyIndices (queue.moveLast i) i
  | none => List.range queue.size

/-- `heapify` stays within the slots in use and the one after them. -/
theorem heapifyIndices_le {queue : PriorityQueue α} {i j : Nat}
    (h : j ∈ heapifyIndices queue i) : j ≤ queue.size := by
  induction queue, i using heapifyIndices.induct with
  | case1 queue i hsize =>
    rw [heapifyIndices, if_pos hsize] at h
    cases h
  | case2 queue i hsize hleft ih =>
    rw [heapifyIndices, if_neg hsize, if_pos hleft] at h
    rcases List.mem_append.mp h with h | h
    · simp only [List.mem_cons, List.not_mem_nil, or_false] at h
      omega
    · exact ih h
  | case3 queue i hsize hleft hright ih =>
    rw [heapifyIndices, if_neg hsize, if_neg hleft, if_pos hright] at h
    rcases List.mem_append.mp h with h | h
    · simp only [List.mem_cons, List.not_mem_nil, or_false] at h
      omega
    · exact ih h
  | case4 queue i hsize hleft hright =>
    rw [heapifyIndices, if_neg hsize, if_neg hleft, if_neg hright] at h
    simp only [List.mem_cons, List.not_mem_nil, or_false] at h
    omega

/-- So does `heapify` once a node has been taken from the queue. -/
theorem heapifyIndices_moveLast {queue : PriorityQueue α} (hpos : 0 < queue.size) {i j : Nat}
    (h : j ∈ heapifyIndices (queue.moveLast i) i) : j < queue.size := by
  have hle : j ≤ queue.size - 1 := heapifyIndices_le h
  omega

theorem siftUpIndices_le {heap : Nat → PriorityQueueNode α} {i j : Nat} {priority : Int}
    (h : j ∈ siftUpIndices heap i priority) : j ≤ i := by
  induction heap, i using siftUpIndices.induct priority with
  | case1 heap =>
    rw [siftUpIndices, if_pos rfl] at h
    cases h
  | case2 heap i hpos hpar ih =>
    rw [siftUpIndices, if_neg hpos, if_pos hpar] at h
    rcases List.mem_append.mp h with h | h
    · simp only [List.mem_cons, List.not_mem_nil, or_false] at h
      omega
    · have := ih h
      omega
  | case3 heap i hpos hpar =>
    rw [siftUpIndices, if_neg hpos, if_neg hpar] at h
    have := List.mem_singleton.mp h
    omega

theorem siftUp_le (heap : Nat → PriorityQueueNode α) (i : Nat) (priority : Int) :
    (siftUp heap i priority).2 ≤ i := by
  induction heap, i using siftUp.induct priority with
  | case1 heap i hpar ih =>
    rw [siftUp, if_pos hpar]
    omega
  | case2 heap i hstop => rw [siftUp, if_neg hstop]

theorem insertIndices_lt {queue : PriorityQueue α} {priority : Int} {j : Nat}
    (h : j ∈ insertIndices queue priority) : j < queue.capacity := by
  have hle := queue.size_le
  rw [insertIndices] at h
  split at h
  · cases h
  · rcases List.mem_append.mp h with h | h
    · have := siftUpIndices_le h
      omega
    · have := siftUp_le queue.heap queue.size priority
      have := List.mem_singleton.mp h
      omega

theorem extractMinIndices_lt {queue : PriorityQueue α} {j : Nat}
    (h : j ∈ extractMinIndices queue) : j < queue.capacity := by
  have hle := queue.size_le
  rw [extractMinIndices] at h
  split at h
  · cases h
  · rcases List.mem_cons.mp h with rfl | h
    · omega
    · rcases List.mem_cons.mp h with rfl | h
      · omega
      · have := heapifyIndices_moveLast (by omega) h
        omega

theorem removeIndices_lt [DecidableEq α] {queue : PriorityQueue α} {value : α} {j : Nat}
    (h : j ∈ removeIndices queue value) : j < queue.capacity := by
  have hle := queue.size_le
  rw [removeIndices] at h
  cases hfind : (List.range queue.size).find? (fun i => (queue.heap i).value = value) with
  | none =>
    simp only [hfind] at h
    have := List.mem_range.mp h
    omega
  | some i =>
    have hi : i < queue.size := List.mem_range.mp (List.mem_of_find?_eq_some hfind)
    simp only [hfind] at h
    rcases List.mem_append.mp h with h | h
    · rcases List.mem_append.mp h with h | h
      · have := List.mem_range.mp h
        omega
      · simp only [List.mem_cons, List.not_mem_nil, or_false] at h
        omega
    · have := heapifyIndices_moveLast (by omega) h
      omega

/-! ### Slots that are not in the lists -/

/-- The queue with other nodes outside of some slots. -/
def overlay (queue : PriorityQueue α) (slots : Finset Nat)
    (other : Nat → PriorityQueueNode α) : PriorityQueue α :=
  { queue with heap := slots.piecewise queue.heap other }

section Overlay
variable {queue queue' : PriorityQueue α} {slots : Finset Nat}
  {other : Nat → PriorityQueueNode α} {i j : Nat} {priority : Int}

theorem overlay_heap (hj : j ∈ slots) : (queue.overlay slots other).heap j = queue.heap j :=
  Finset.piecewise_eq_of_mem _ _ _ hj

theorem overlay_size : (queue.overlay slots other).size = queue.size := rfl

theorem overlay_capacity : (queue.overlay slots other).capacity = queue.capacity := rfl

/-- With its own nodes outside it is the same queue. -/
theorem overlay_self : queue.overlay slots queue.heap = queue := by
  rw [overlay, Finset.piecewise_same]

/-- What commutes with `overlay` leaves the other slots alone. -/
theorem heap_eq_of_overlay (h : queue' = queue'.overlay slots queue.heap) (hj : j ∉ slots) :
    queue'.heap j = queue.heap j := by
  rw [h]
  exact Finset.piecewise_eq_of_notMem _ _ _ hj

theorem swap_overlay (hi : i ∈ slots) (hj : j ∈ slots) :
    (queue.overlay slots other).swap i j = (queue.swap i j).overlay slots other := by
  rw [swap, swap, overlay, overlay]
  dsimp only
  rw [PrefixBag.swap, PrefixBag.swap, Finset.piecewise_eq_of_mem _ _ _ hi,
    Finset.piecewise_eq_of_mem _ _ _ hj, Finset.update_piecewise_of_mem _ _ _ hi,
    Finset.update_piecewise_of_mem _ _ _ hj]

theorem moveLast_overlay (hi : i ∈ slots) (hlast : queue.size - 1 ∈ slots) :
    (queue.overlay slots other).moveLast i = (queue.moveLast i).overlay slots other := by
  rw [moveLast, moveLast, overlay, overlay]
  dsimp only
  rw [Finset.piecewise_eq_of_mem _ _ _ hlast, Finset.update_piecewise_of_mem _ _ _ hi]

/-- **`heapify`** depends on the slots in its list, and changes no others. -/
theorem heapify_overlay (hslots : ∀ j, j ∈ heapifyIndices queue i → j ∈ slots) :
    heapify (queue.overlay slots other) i =
      (heapify queue i).map fun queue' => queue'.overlay slots other := by
  induction queue, i using heapify.induct with
  | case1 queue i hsize =>
    rw [heapify.eq_def queue, heapify.eq_def (queue.overlay slots other), overlay_size,
      if_pos hsize, if_pos hsize]
    rfl
  | case2 queue i hsize hout =>
    rw [heapify.eq_def queue, heapify.eq_def (queue.overlay slots other), overlay_size,
      overlay_capacity, if_neg hsize, if_neg hsize, if_pos hout, if_pos hout]
    rfl
  | case3 queue i hsize hout hleft ih =>
    rw [heapifyIndices, if_neg hsize, if_pos hleft] at hslots
    have hi : i ∈ slots := hslots _ (by simp)
    have hl : i * 2 + 1 ∈ slots := hslots _ (by simp)
    have hr : i * 2 + 2 ∈ slots := hslots _ (by simp)
    rw [heapify.eq_def queue, heapify.eq_def (queue.overlay slots other), overlay_size,
      overlay_capacity, overlay_heap hi, overlay_heap hl, overlay_heap hr, if_neg hsize,
      if_neg hsize, if_neg hout, if_neg hout, if_pos hleft, if_pos hleft, swap_overlay hi hl]
    exact ih fun j hj => hslots j (List.mem_append_right _ hj)
  | case4 queue i hsize hout hleft hright ih =>
    rw [heapifyIndices, if_neg hsize, if_neg hleft, if_pos hright] at hslots
    have hi : i ∈ slots := hslots _ (by simp)
    have hl : i * 2 + 1 ∈ slots := hslots _ (by simp)
    have hr : i * 2 + 2 ∈ slots := hslots _ (by simp)
    rw [heapify.eq_def queue, heapify.eq_def (queue.overlay slots other), overlay_size,
      overlay_capacity, overlay_heap hi, overlay_heap hl, overlay_heap hr, if_neg hsize,
      if_neg hsize, if_neg hout, if_neg hout, if_neg hleft, if_neg hleft, if_pos hright,
      if_pos hright, swap_overlay hi hr]
    exact ih fun j hj => hslots j (List.mem_append_right _ hj)
  | case5 queue i hsize hout hleft hright =>
    rw [heapifyIndices, if_neg hsize, if_neg hleft, if_neg hright] at hslots
    have hi : i ∈ slots := hslots _ (by simp)
    have hl : i * 2 + 1 ∈ slots := hslots _ (by simp)
    have hr : i * 2 + 2 ∈ slots := hslots _ (by simp)
    rw [heapify.eq_def queue, heapify.eq_def (queue.overlay slots other), overlay_size,
      overlay_capacity, overlay_heap hi, overlay_heap hl, overlay_heap hr, if_neg hsize,
      if_neg hsize, if_neg hout, if_neg hout, if_neg hleft, if_neg hleft, if_neg hright,
      if_neg hright]
    rfl

theorem siftUp_overlay {heap : Nat → PriorityQueueNode α}
    (hslots : ∀ j, j ∈ siftUpIndices heap i priority → j ∈ slots) :
    siftUp (slots.piecewise heap other) i priority =
      (slots.piecewise (siftUp heap i priority).1 other, (siftUp heap i priority).2) := by
  induction heap, i using siftUpIndices.induct priority with
  | case1 heap =>
    rw [siftUp.eq_def heap, siftUp, if_neg fun h => absurd h.1 (lt_irrefl 0),
      if_neg fun h => absurd h.1 (lt_irrefl 0)]
  | case2 heap i hpos hpar ih =>
    rw [siftUpIndices, if_neg hpos, if_pos hpar] at hslots
    have hparent : (i - 1) / 2 ∈ slots := hslots _ (by simp)
    have hi : i ∈ slots := hslots _ (by simp)
    rw [siftUp.eq_def heap, siftUp, Finset.piecewise_eq_of_mem _ _ _ hparent,
      if_pos ⟨Nat.pos_of_ne_zero hpos, hpar⟩, if_pos ⟨Nat.pos_of_ne_zero hpos, hpar⟩,
      Finset.update_piecewise_of_mem _ _ _ hi]
    exact ih fun j hj => hslots j (List.mem_append_right _ hj)
  | case3 heap i hpos hpar =>
    rw [siftUpIndices, if_neg hpos, if_neg hpar] at hslots
    have hparent : (i - 1) / 2 ∈ slots := hslots _ (by simp)
    rw [siftUp.eq_def heap, siftUp, Finset.piecewise_eq_of_mem _ _ _ hparent,
      if_neg fun h => hpar h.2, if_neg fun h => hpar h.2]

/-- An insertion into a queue with room, written out. -/
theorem insert_of_ne (h : queue.size ≠ queue.capacity) (value : α) (priority : Int) :
    priorityqueueInsert queue value priority =
      (.enone, { queue with
        heap := Function.update (siftUp queue.heap queue.size priority).1
          (siftUp queue.heap queue.size priority).2 ⟨value, priority⟩
        size := queue.size + 1
        size_le := by have := queue.size_le; omega }) := dif_neg h

/-- **`priorityqueue_insert`.** -/
theorem insert_overlay (value : α) (hslots : ∀ j, j ∈ insertIndices queue priority → j ∈ slots) :
    priorityqueueInsert (queue.overlay slots other) value priority =
      ((priorityqueueInsert queue value priority).1,
        (priorityqueueInsert queue value priority).2.overlay slots other) := by
  by_cases hfull : queue.size = queue.capacity
  · rw [insert_of_full hfull, insert_of_full (show (queue.overlay slots other).size = _ from hfull)]
  · rw [insertIndices, if_neg hfull] at hslots
    have hsift : siftUp (queue.overlay slots other).heap queue.size priority =
        (slots.piecewise (siftUp queue.heap queue.size priority).1 other,
          (siftUp queue.heap queue.size priority).2) :=
      siftUp_overlay fun j hj => hslots j (List.mem_append_left _ hj)
    have hfree : (siftUp queue.heap queue.size priority).2 ∈ slots := hslots _ (by simp)
    rw [insert_of_ne hfull, insert_of_ne (show (queue.overlay slots other).size ≠ _ from hfull)]
    simp only [overlay_size, hsift, Finset.update_piecewise_of_mem _ _ _ hfree]
    rfl

/-- **`priorityqueue_extract_min`.** -/
theorem extractMin_overlay (hslots : ∀ j, j ∈ extractMinIndices queue → j ∈ slots) :
    priorityqueueExtractMin (queue.overlay slots other) =
      (priorityqueueExtractMin queue).map fun r => (r.1, r.2.overlay slots other) := by
  rw [priorityqueueExtractMin, priorityqueueExtractMin, overlay_size]
  by_cases hempty : queue.size = 0
  · rw [if_pos hempty, if_pos hempty]
    rfl
  · rw [extractMinIndices, if_neg hempty] at hslots
    rw [if_neg hempty, if_neg hempty, overlay_heap (hslots 0 (by simp)),
      moveLast_overlay (hslots 0 (by simp)) (hslots _ (by simp)),
      heapify_overlay fun j hj => hslots j (by simp [hj])]
    cases heapify (queue.moveLast 0) 0 <;> rfl

/-- **`priorityqueue_remove`.** -/
theorem remove_overlay [DecidableEq α] (value : α)
    (hslots : ∀ j, j ∈ removeIndices queue value → j ∈ slots) :
    priorityqueueRemove (queue.overlay slots other) value =
      (priorityqueueRemove queue value).map fun r => (r.1, r.2.overlay slots other) := by
  rw [priorityqueueRemove, priorityqueueRemove, overlay_size]
  rw [removeIndices] at hslots
  cases hfind : (List.range queue.size).find? (fun i => (queue.heap i).value = value) with
  | none =>
    simp only [hfind, List.mem_range] at hslots
    have hother : (List.range queue.size).find?
        (fun i => ((queue.overlay slots other).heap i).value = value) = none := by
      rw [List.find?_range_eq_none] at hfind ⊢
      intro j hj
      rw [overlay_heap (hslots j hj)]
      exact hfind j hj
    simp only [hother]
    rfl
  | some i =>
    simp only [hfind] at hslots
    have hupto : ∀ j, j ≤ i → j ∈ slots := fun j hj =>
      hslots j (by simp [Nat.lt_succ_of_le hj])
    have hother : (List.range queue.size).find?
        (fun i => ((queue.overlay slots other).heap i).value = value) = some i := by
      rw [List.find?_range_eq_some] at hfind ⊢
      obtain ⟨hvalue, hlt, hbefore⟩ := hfind
      refine ⟨?_, hlt, fun j hj => ?_⟩
      · rw [overlay_heap (hupto i le_rfl)]
        exact hvalue
      · rw [overlay_heap (hupto j hj.le)]
        exact hbefore j hj
    simp only [hother]
    rw [moveLast_overlay (hupto i le_rfl) (hslots _ (by simp)),
      heapify_overlay fun j hj => hslots j (by simp [hj])]
    cases heapify (queue.moveLast i) i <;> rfl

/-- An insertion leaves the slots that are not in its list as they are. -/
theorem insert_heap_of_notMem (value : α) (hj : j ∉ insertIndices queue priority) :
    (priorityqueueInsert queue value priority).2.heap j = queue.heap j := by
  have hmem : ∀ i, i ∈ insertIndices queue priority →
      i ∈ (insertIndices queue priority).toFinset := fun _ => List.mem_toFinset.mpr
  have h : priorityqueueInsert (queue.overlay _ queue.heap) value priority = _ :=
    insert_overlay value hmem
  rw [overlay_self] at h
  exact heap_eq_of_overlay (congrArg Prod.snd h) (by rwa [List.mem_toFinset])

/-- So does an extraction. -/
theorem extractMin_heap_of_notMem {value : Option α}
    (hq : priorityqueueExtractMin queue = some (value, queue'))
    (hj : j ∉ extractMinIndices queue) : queue'.heap j = queue.heap j := by
  have hmem : ∀ i, i ∈ extractMinIndices queue → i ∈ (extractMinIndices queue).toFinset :=
    fun _ => List.mem_toFinset.mpr
  have h : priorityqueueExtractMin (queue.overlay _ queue.heap) = _ := extractMin_overlay hmem
  rw [overlay_self, hq] at h
  exact heap_eq_of_overlay (congrArg Prod.snd (Option.some.inj h)) (by rwa [List.mem_toFinset])

/-- And a removal. -/
theorem remove_heap_of_notMem [DecidableEq α] {value : α} {status : Status}
    (hq : priorityqueueRemove queue value = some (status, queue'))
    (hj : j ∉ removeIndices queue value) : queue'.heap j = queue.heap j := by
  have hmem : ∀ i, i ∈ removeIndices queue value → i ∈ (removeIndices queue value).toFinset :=
    fun _ => List.mem_toFinset.mpr
  have h : priorityqueueRemove (queue.overlay _ queue.heap) value = _ :=
    remove_overlay value hmem
  rw [overlay_self, hq] at h
  exact heap_eq_of_overlay (congrArg Prod.snd (Option.some.inj h)) (by rwa [List.mem_toFinset])

end Overlay

variable [DecidableEq α]

/-- **No node is lost or duplicated.**  In whatever order the slots are: insertion
adds the node it is given, or reports a full queue and changes nothing; extraction
takes the node in slot 0; removal takes one node with the value, or reports that
there is none and changes nothing.  No index any of them uses lies outside the
block. -/
theorem nodes_conserved (queue : PriorityQueue α) (value : α) (priority : Int) :
    (queue.size < queue.capacity →
      ∃ queue', priorityqueueInsert queue value priority = (.enone, queue') ∧
        queue'.entries = ⟨value, priority⟩ ::ₘ queue.entries) ∧
    (queue.size = queue.capacity →
      priorityqueueInsert queue value priority = (.enomem, queue)) ∧
    (0 < queue.size →
      ∃ queue', priorityqueueExtractMin queue = some (some (queue.heap 0).value, queue') ∧
        queue.entries = queue.heap 0 ::ₘ queue'.entries) ∧
    (value ∈ queue.values →
      ∃ node queue', priorityqueueRemove queue value = some (.enone, queue') ∧
        node.value = value ∧ queue.entries = node ::ₘ queue'.entries) ∧
    (value ∉ queue.values → priorityqueueRemove queue value = some (.eoutofbounds, queue)) ∧
    (∀ j, j ∈ insertIndices queue priority ∨ j ∈ extractMinIndices queue ∨
      j ∈ removeIndices queue value → j < queue.capacity) := by
  refine ⟨?_, fun h => insert_of_full h value priority, ?_, ?_, remove_of_not_mem, ?_⟩
  · intro hroom
    obtain ⟨queue', hq, hentries, -, -⟩ := insert_of_lt hroom value priority
    exact ⟨queue', hq, hentries⟩
  · intro hpos
    obtain ⟨queue', hq, hentries, -, -⟩ := extractMin_of_pos hpos
    exact ⟨queue', hq, hentries⟩
  · intro hmem
    obtain ⟨node, queue', hq, hvalue, hentries, -, -⟩ := remove_of_mem hmem
    exact ⟨node, queue', hq, hvalue, hentries⟩
  · rintro j (h | h | h)
    · exact insertIndices_lt h
    · exact extractMinIndices_lt h
    · exact removeIndices_lt h

end PriorityQueue
end QuarkKernel
