import Mathlib.Data.Nat.Size
import QuarkKernel.Fairness

/-! # Who has turns among many equals

With four or more processes of one priority some of them never run
(`Uniform.not_fair`).  Here it is said which.  Among equal priorities `heapify` moves
up the nodes on the way that goes from the top to the left all the time, and puts
the node it starts from at the lower end.  So the active process and those on this
path have their turns one after the other, and nobody else has any.  With `m`
processes in the queue the path is as long as `m` has binary digits. -/
namespace QuarkKernel

namespace PriorityQueue
variable {α : Type} {queue queue' : PriorityQueue α} {c : Int}

/-- The values in slot `i` and on the way down from it that only goes to the left. -/
def leftPath (queue : PriorityQueue α) (i : Nat) : List α :=
  if i < queue.size then (queue.heap i).value :: leftPath queue (i * 2 + 1) else []
termination_by queue.size - i

theorem leftPath_of_lt {i : Nat} (h : i < queue.size) :
    queue.leftPath i = (queue.heap i).value :: queue.leftPath (i * 2 + 1) := by
  rw [leftPath, if_pos h]

theorem leftPath_of_le {i : Nat} (h : queue.size ≤ i) : queue.leftPath i = [] := by
  rw [leftPath, if_neg (Nat.not_lt_of_le h)]

/-- The path depends on the slots from its upper end on. -/
theorem leftPath_congr {i : Nat} (hsize : queue'.size = queue.size)
    (hheap : ∀ j, i ≤ j → j < queue.size → queue'.heap j = queue.heap j) :
    queue'.leftPath i = queue.leftPath i := by
  induction i using leftPath.induct queue with
  | case1 i hi ih =>
    rw [leftPath_of_lt hi, leftPath_of_lt (hsize ▸ hi), hheap i (Nat.le_refl i) hi,
      ih fun j hj => hheap j (by omega)]
  | case2 i hi =>
    have hle := Nat.le_of_not_lt hi
    rw [leftPath_of_le hle, leftPath_of_le (hsize ▸ hle)]

theorem slots_drop {i : Nat} (h : i < queue.size) :
    queue.slots.drop i = (queue.heap i).value :: queue.slots.drop (i + 1) := by
  rw [List.drop_eq_getElem_cons (by simpa [slots] using h)]
  simp [slots]

/-- No slot is on the path twice. -/
theorem leftPath_sublist (queue : PriorityQueue α) (i : Nat) :
    (queue.leftPath i).Sublist (queue.slots.drop i) := by
  induction i using leftPath.induct queue with
  | case1 i hi ih =>
    rw [leftPath_of_lt hi, slots_drop hi]
    exact (ih.trans (List.drop_sublist_drop_left _ (by omega))).cons_cons _
  | case2 i hi =>
    rw [leftPath_of_le (Nat.le_of_not_lt hi)]
    exact List.nil_sublist _

theorem size_half {n : Nat} (h : 0 < n) : Nat.size n = Nat.size (n / 2) + 1 := by
  apply Nat.le_antisymm
  · rw [Nat.size_le, Nat.pow_succ]
    have := Nat.lt_size_self (n / 2)
    omega
  · apply Nat.lt_size.mpr
    rcases Nat.eq_zero_or_pos (n / 2) with hzero | hpos
    · rw [hzero, Nat.size_zero]
      exact h
    · obtain ⟨s, hs⟩ := Nat.exists_eq_add_of_lt (Nat.size_pos.mpr hpos)
      have hle : 2 ^ s ≤ n / 2 := Nat.lt_size.mp (by omega)
      rw [hs, Nat.zero_add, Nat.pow_succ]
      omega

/-- Each step to the left leaves half of the slots. -/
theorem length_leftPath (queue : PriorityQueue α) (i : Nat) :
    (queue.leftPath i).length = Nat.size (queue.size / (i + 1)) := by
  induction i using leftPath.induct queue with
  | case1 i hi ih =>
    have hpos : 0 < queue.size / (i + 1) := Nat.div_pos hi (Nat.succ_pos i)
    rw [leftPath_of_lt hi, List.length_cons, ih, size_half hpos, Nat.div_div_eq_div_mul,
      show (i + 1) * 2 = i * 2 + 1 + 1 by omega]
  | case2 i hi =>
    rw [leftPath_of_le (Nat.le_of_not_lt hi), Nat.div_eq_of_lt (by omega)]
    rfl

/-- Between equal priorities `heapify` moves the path up by one slot, and the node it
starts from to the lower end. -/
theorem heapify_leftPath {i : Nat} (hi : i < queue.size) (hcap : queue.size < queue.capacity)
    (hc : ∀ j, j ≤ queue.size → (queue.heap j).priority = c) :
    ∃ queue', heapify queue i = some queue' ∧ queue'.size = queue.size ∧
      (∀ j, j < i → queue'.heap j = queue.heap j) ∧
      queue'.leftPath i = (queue.leftPath i).rotate 1 := by
  induction queue, i using heapify.induct with
  | case1 queue i hsize =>
    rw [heapify, if_pos hsize]
    refine ⟨queue, rfl, rfl, fun _ _ => rfl, ?_⟩
    simp [leftPath_of_lt hi, leftPath_of_le hsize]
  | case2 queue i hsize hout => omega
  | case3 queue i hsize hout hleft ih =>
    have hc' : ∀ j, j ≤ (queue.swap i (i * 2 + 1)).size →
        ((queue.swap i (i * 2 + 1)).heap j).priority = c := by
      intro j hj
      show (PrefixBag.swap queue.heap i (i * 2 + 1) j).priority = c
      by_cases h1 : j = i * 2 + 1
      · rw [h1, PrefixBag.swap_right]
        exact hc i (by omega)
      · by_cases h2 : j = i
        · rw [h2, PrefixBag.swap_left]
          exact hc _ (by omega)
        · rw [PrefixBag.swap_of_ne _ h2 h1]
          exact hc j hj
    have hchild : i * 2 + 1 < queue.size := by omega
    obtain ⟨queue', hq, hs, habove, hpath⟩ := ih hchild hcap hc'
    rw [heapify, if_neg hsize, if_neg hout, if_pos hleft]
    refine ⟨queue', hq, hs, ?_, ?_⟩
    · intro j hj
      rw [habove j (by omega)]
      exact PrefixBag.swap_of_ne _ (by omega) (by omega)
    · -- what the child held comes up, and the rest follows by the induction hypothesis
      have hnode : queue'.heap i = queue.heap (i * 2 + 1) := by
        rw [habove i (by omega)]
        exact PrefixBag.swap_left ..
      have hbelow : (queue.swap i (i * 2 + 1)).leftPath ((i * 2 + 1) * 2 + 1) =
          queue.leftPath ((i * 2 + 1) * 2 + 1) :=
        leftPath_congr rfl fun j hj _ => PrefixBag.swap_of_ne _ (by omega) (by omega)
      have htop : ((queue.swap i (i * 2 + 1)).heap (i * 2 + 1)).value = (queue.heap i).value :=
        congrArg PriorityQueueNode.value (PrefixBag.swap_right ..)
      have hlower : (queue.swap i (i * 2 + 1)).leftPath (i * 2 + 1) =
          ((queue.swap i (i * 2 + 1)).heap (i * 2 + 1)).value ::
            (queue.swap i (i * 2 + 1)).leftPath ((i * 2 + 1) * 2 + 1) := leftPath_of_lt hchild
      rw [leftPath_of_lt (hs ▸ hi), hpath, hnode, hlower, htop, hbelow, leftPath_of_lt hi,
        leftPath_of_lt hchild]
      simp
  | case4 queue i hsize hout hleft hright ih =>
    exfalso
    apply hleft
    rw [hc i (by omega), hc (i * 2 + 1) (by omega), hc (i * 2 + 2) (by omega)]
    exact ⟨le_refl c, le_refl c⟩
  | case5 queue i hsize hout hleft hright =>
    exfalso
    apply hleft
    rw [hc i (by omega), hc (i * 2 + 1) (by omega), hc (i * 2 + 2) (by omega)]
    exact ⟨le_refl c, le_refl c⟩

/-- A node of the same priority is put into the next slot and the top one taken: the
path moves up, and the new node is at its lower end. -/
theorem insert_extractMin_leftPath (hroom : queue.size < queue.capacity) (hc : queue.Level c)
    (hpos : 0 < queue.size) (value : α) :
    ∃ queue', (priorityqueueInsert queue value c).2.priorityqueueExtractMin =
        some (some (queue.heap 0).value, queue') ∧ queue'.size = queue.size ∧
      queue'.leftPath 0 = (queue.leftPath 0).tail ++ [value] := by
  obtain ⟨hheap, hsize⟩ := insert_of_level hroom hc value
  have hlevel : (priorityqueueInsert queue value c).2.Level c := by
    intro i hi
    rw [hsize] at hi
    rw [hheap]
    by_cases hlast : i = queue.size
    · rw [hlast, Function.update_self]
    · rw [Function.update_of_ne hlast]
      exact hc i (by omega)
  have hcap : (priorityqueueInsert queue value c).2.capacity = queue.capacity := by
    obtain ⟨_, hq, -, -, hcap⟩ := insert_of_lt hroom value c
    rw [hq]
    exact hcap
  have hfirst : (priorityqueueInsert queue value c).2.heap 0 = queue.heap 0 := by
    rw [hheap, Function.update_of_ne (Nat.ne_of_lt hpos)]
  generalize (priorityqueueInsert queue value c).2 = full at hheap hsize hlevel hcap hfirst
  have hmove := level_moveLast hsize hlevel
  have hshrunk : (full.moveLast 0).size = queue.size := by
    show full.size - 1 = queue.size
    omega
  have hpos' : 0 < (full.moveLast 0).size := hshrunk ▸ hpos
  obtain ⟨queue', hq, hs, -, hpath⟩ := heapify_leftPath hpos'
    (by rw [hshrunk]; exact hcap ▸ hroom) (fun j hj => hmove j (hshrunk ▸ hj))
  refine ⟨queue', ?_, hs.trans hshrunk, ?_⟩
  · rw [priorityqueueExtractMin, if_neg (by omega), hq, ← hfirst]
    rfl
  · -- the new node stands at the top now, over the path that was there
    have hbelow : (full.moveLast 0).leftPath 1 = queue.leftPath 1 := by
      refine leftPath_congr hshrunk ?_
      intro j hj hlt
      show Function.update full.heap 0 (full.heap (full.size - 1)) j = _
      rw [Function.update_of_ne (by omega), hheap, Function.update_of_ne (Nat.ne_of_lt hlt)]
    have htop : ((full.moveLast 0).heap 0).value = value := by
      show (Function.update full.heap 0 (full.heap (full.size - 1)) 0).value = _
      rw [Function.update_self, hheap, hsize, Nat.add_sub_cancel, Function.update_self]
    rw [hpath, leftPath_of_lt (hshrunk ▸ hpos), htop, leftPath_of_lt hpos]
    simp [hbelow]

end PriorityQueue

namespace Kernel

/-- The active process, if there is one, and the values on the left path of the ready
queue. -/
def turns (k : Kernel) : List Ptr := k.activeProcess.toList ++ k.priorityQueue.leftPath 0

theorem turns_sublist (k : Kernel) : k.turns.Sublist k.line :=
  (List.Sublist.refl _).append (k.priorityQueue.leftPath_sublist 0)

theorem length_turns {k : Kernel} (hactive : k.activeProcess.isSome) :
    k.turns.length = Nat.size (k.occupied.card - 1) + 1 := by
  obtain ⟨a, ha⟩ := Option.isSome_iff_exists.mp hactive
  have hready : k.ready.card = k.priorityQueue.size := by
    rw [ready, PriorityQueue.values, Multiset.card_map, PriorityQueue.card_entries]
  rw [turns, List.length_append, PriorityQueue.length_leftPath, occupied_of_some ha,
    Multiset.card_cons, hready, ha]
  simp [Nat.add_comm]

/-- The scheduler enters the next on the list, and puts the active process at the end. -/
theorem Uniform.advance_turns {c : Int} {k : Kernel} (h : Uniform c k)
    (hactive : k.activeProcess.isSome) (hroom : k.HasRoom) :
    ∃ k', k.kernelAdvanceScheduler = some k' ∧ Uniform c k' ∧ k'.activeProcess.isSome ∧
      k'.HasRoom ∧ k'.turns = k.turns.rotate 1 := by
  obtain ⟨a, ha⟩ := Option.isSome_iff_exists.mp hactive
  have hrequeued : k.requeued c = (k.priorityQueue.priorityqueueInsert a c).2 := by
    rw [requeued, ha]
  have hcap : ∀ {k'}, Uniform c k' → k'.priorityQueue.size = k.priorityQueue.size →
      k'.HasRoom := by
    intro k' h' hsize
    rw [HasRoom, h'.capacity, hsize, ← h.capacity]
    exact hroom
  rcases Nat.eq_zero_or_pos k.priorityQueue.size with hzero | hpos
  · -- nobody else is ready
    have hcard : k.occupied.card = 1 := by
      rw [← length_line, line, List.length_append, length_slots, hzero, ha]
      rfl
    obtain ⟨k', hadv, huniform, hsome, hline⟩ := h.advance_line (by omega) (by omega)
    have hone : k.line = [a] := by
      simp [line, ha, PriorityQueue.slots, hzero]
    rw [if_pos hactive, hone, List.rotate_singleton] at hline
    obtain ⟨b, hb⟩ := Option.isSome_iff_exists.mp hsome
    have hsize : k'.priorityQueue.size = 0 := by
      have hlen := congrArg List.length hline
      rw [line, hb, List.length_append, length_slots] at hlen
      simpa using hlen
    obtain rfl : b = a := by
      simpa [line, hb, PriorityQueue.slots, hsize] using hline
    refine ⟨k', hadv, huniform, hsome, hcap huniform (hsize.trans hzero.symm), ?_⟩
    simp [turns, ha, hb, PriorityQueue.leftPath_of_le, hsize, hzero]
  · obtain ⟨queue', hext, hsize, hpath⟩ :=
      PriorityQueue.insert_extractMin_leftPath hroom h.level hpos a
    rw [← hrequeued] at hext
    obtain ⟨k', hadv, hactive', rfl, huniform, -⟩ := h.advance hext
    refine ⟨k', hadv, huniform, by rw [hactive']; rfl, hcap huniform hsize, ?_⟩
    rw [turns, turns, hactive', ha, hpath, PriorityQueue.leftPath_of_lt hpos]
    simp

theorem Uniform.advances_turns {c : Int} {k : Kernel} (h : Uniform c k)
    (hactive : k.activeProcess.isSome) (hroom : k.HasRoom) (t : Nat) :
    ∃ k', k.advances t = some k' ∧ Uniform c k' ∧ k'.activeProcess.isSome ∧ k'.HasRoom ∧
      k'.turns = k.turns.rotate t := by
  induction t with
  | zero => exact ⟨k, rfl, h, hactive, hroom, (List.rotate_zero _).symm⟩
  | succ t ih =>
    obtain ⟨k', hk', huniform, hsome, hroom', hturns⟩ := ih
    obtain ⟨k'', hadv, huniform', hsome', hroom'', hturns'⟩ := huniform.advance_turns hsome hroom'
    refine ⟨k'', by rw [advances, hk']; exact hadv, huniform', hsome', hroom'', ?_⟩
    rw [hturns', hturns, List.rotate_rotate]

/-- The scheduler goes round the list. -/
theorem Uniform.activation_turns {c : Int} {k : Kernel} (h : Uniform c k)
    (hactive : k.activeProcess.isSome) (hroom : k.HasRoom) (t : Nat) :
    k.activation t = k.turns[t % k.turns.length]? := by
  obtain ⟨k', hk', -, hsome, -, hturns⟩ := h.advances_turns hactive hroom t
  obtain ⟨a, ha⟩ := Option.isSome_iff_exists.mp hsome
  have hhead : k'.turns[0]? = some a := by
    rw [turns, ha]
    rfl
  have hpos : 0 < k.turns.length := by
    rw [← List.length_rotate k.turns t, ← hturns, turns, ha]
    simp
  rw [activation, hk', Option.bind_some, ha, ← hhead, hturns, List.getElem?_rotate hpos,
    Nat.zero_add]

/-- **Who has turns.**  In a state in which a process runs and all that run or are
ready have one priority, there is a list of as many of them as the number of ready
processes has binary digits, and one more, that the scheduler goes round for ever.
Those on it share the turns fairly, and nobody else is entered. -/
theorem activation_of_reachable {k : Kernel} {c : Int}
    (h : system.Reachable (fun k op => k.returnsCleanly op = true) k)
    (hprio : ∀ p P, p ∈ k.occupied → k.processes p = some P → P.priority = c)
    (hactive : k.activeProcess.isSome) (hroom : k.HasRoom) :
    ∃ l : List Ptr, l.Nodup ∧ (∀ q, q ∈ l → q ∈ k.occupied) ∧
      l.length = Nat.size (k.occupied.card - 1) + 1 ∧
      (∀ t, k.activation t = l[t % l.length]?) ∧
      RoundRobin.Fair k.activation (· ∈ l) ∧ RoundRobin.Served k.activation (· ∈ l) ∧
      ∀ q, q ∉ l → ∀ t, k.activation t ≠ some q := by
  have huniform := uniform_of_reachable h hprio
  have hline : k.line.Nodup := by
    rw [← Multiset.coe_nodup, coe_line]
    exact (labelled_of_reachable h).1.nodup
  have hturn := huniform.activation_turns hactive hroom
  refine ⟨k.turns, hline.sublist k.turns_sublist, ?_, length_turns hactive, hturn,
    RoundRobin.fair_of_rotation (d := 0) (hline.sublist k.turns_sublist) (fun _ => id)
      (fun t ht => absurd ht (Nat.not_lt_zero t)) hturn,
    RoundRobin.served_of_rotation (d := 0) (fun _ => id) hturn, ?_⟩
  · intro q hq
    have hmem := k.turns_sublist.subset hq
    rwa [← Multiset.mem_coe, coe_line] at hmem
  · intro q hq t heq
    rw [hturn] at heq
    exact hq (List.mem_of_getElem? heq)

theorem activation_fourRun :
    ∃ k, Transition.System.runFrom (fun k op => returnsCleanly k op = true) step bare
      fourRun = some k ∧
      ∃ l : List Ptr, l.Nodup ∧ (∀ q, q ∈ l → q ∈ k.occupied) ∧
        l.length = Nat.size (k.occupied.card - 1) + 1 ∧
        (∀ t, k.activation t = l[t % l.length]?) ∧
        RoundRobin.Fair k.activation (· ∈ l) ∧ RoundRobin.Served k.activation (· ∈ l) ∧
        ∀ q, q ∉ l → ∀ t, k.activation t ≠ some q := by
  have hrun : (Transition.System.runFrom (fun k op => returnsCleanly k op = true) step bare
      fourRun).any (fun k => k.Even 1 ∧ k.activeProcess.isSome ∧ k.HasRoom) = true := by
    decide +kernel
  obtain ⟨k, hk, hstate⟩ := (Option.any_eq_true _ _).mp hrun
  obtain ⟨heven, hactive, hroom⟩ := of_decide_eq_true hstate
  exact ⟨k, hk, activation_of_reachable (.runFrom _ _ (.init boot_bare) hk) (Even.priority heven)
    hactive hroom⟩

end Kernel
end QuarkKernel
