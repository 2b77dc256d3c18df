import QuarkKernel.Fairness
import QuarkKernel.QueueOrder

/-! # The scheduler goes by priority

Insertions and extractions keep the ready queue a heap, so the scheduler enters a
process of the least priority there is.  A process is then never entered as long as
one of a smaller priority is runnable.  Only `kernel_terminate_process` can disturb
the order, when it takes a process out of the middle of the queue
(`remove_heapOrdered_iff`). -/
namespace QuarkKernel

namespace PriorityQueue
variable {α : Type} [DecidableEq α]

/-- The queue stays a heap without the value: it is not stored, or it is in the top
slot, or the last node may stand below the one above its slot. -/
def heapWithout (queue : PriorityQueue α) (value : α) : Bool :=
  match (List.range queue.size).find? (fun i => (queue.heap i).value = value) with
  | none => true
  | some i =>
      i = 0 || (queue.heap (BinaryHeap.parent i)).priority ≤ (queue.heap (queue.size - 1)).priority

theorem HeapOrdered.remove {queue queue' : PriorityQueue α} {value : α} {status : Status}
    (h : queue.HeapOrdered) (hwithout : queue.heapWithout value = true)
    (hremove : queue.priorityqueueRemove value = some (status, queue')) : queue'.HeapOrdered := by
  rw [heapWithout] at hwithout
  cases hfind : (List.range queue.size).find? (fun i => (queue.heap i).value = value) with
  | none =>
    rw [priorityqueueRemove, hfind] at hremove
    cases hremove
    exact h
  | some i =>
    rw [hfind] at hwithout
    obtain ⟨hvalue, hi, hbefore⟩ := List.find?_range_eq_some.mp hfind
    have hi : i < queue.size := List.mem_range.mp hi
    have hvalue : (queue.heap i).value = value := of_decide_eq_true hvalue
    have hfirst : ∀ j, j < i → (queue.heap j).value ≠ (queue.heap i).value := by
      intro j hj
      rw [hvalue]
      simpa using hbefore j hj
    have habove : 0 < i → (queue.heap (BinaryHeap.parent i)).priority ≤
        (queue.heap (queue.size - 1)).priority := by
      intro hpos
      simpa [Nat.ne_of_gt hpos] using hwithout
    obtain ⟨queue'', hremove', hordered, -⟩ := (remove_heapOrdered_iff h hi hfirst).mpr habove
    rw [hvalue, hremove] at hremove'
    cases hremove'
    exact hordered

end PriorityQueue

namespace Kernel

/-- If the step terminates a process, the ready queue stays a heap without it. -/
def removesInOrder (k : Kernel) : Op → Bool
  | .terminate processId =>
      match k.lookup processId with
      | none => true
      | some p => k.priorityQueue.heapWithout p
  | _ => true

theorem queue_terminate {k k' : Kernel} {processId : Word} {r : Status}
    (hsend : ∀ p P, k.processes p = some P → P.sendingQueue = [])
    (h : k.kernelTerminateProcess processId = some (r, k')) :
    k'.priorityQueue = k.priorityQueue ∨ ∃ p status, k.lookup processId = some p ∧
      k.priorityQueue.priorityqueueRemove p = some (status, k'.priorityQueue) := by
  rw [kernelTerminateProcess] at h
  split at h
  · cases h
    exact .inl rfl
  · rename_i p hp
    obtain ⟨P, hP, h⟩ := Option.bind_eq_some_iff.mp h
    obtain ⟨table, -, h⟩ := Option.bind_eq_some_iff.mp h
    obtain ⟨⟨status, queue⟩, hq, h⟩ := Option.bind_eq_some_iff.mp h
    rw [hsend p P hP] at h
    cases h
    exact .inr ⟨p, status, hp, hq⟩

/-- What is in the queue when the scheduler takes a process out of it. -/
theorem requeueActive_cases {k k1 : Kernel} (h : k.requeueActive = some k1) :
    (k.activeProcess = none ∧ k1 = k) ∨
    ∃ a A, k.active = some (a, A) ∧ k1 = k.enqueue a A.priority := by
  rw [requeueActive] at h
  split at h
  · rename_i ha
    cases h
    exact .inl ⟨ha, rfl⟩
  · rename_i a ha
    obtain ⟨A, hA, h⟩ := Option.bind_eq_some_iff.mp h
    cases h
    exact .inr ⟨a, A, active_eq_some.mpr ⟨ha, hA⟩, rfl⟩

/-- From a heap the scheduler takes a node of the least priority, and leaves a heap. -/
theorem heapOrdered_advance {k k' : Kernel} (h : k.priorityQueue.HeapOrdered)
    (hadv : k.kernelAdvanceScheduler = some k') :
    k'.priorityQueue.HeapOrdered ∧ ∃ k1 node, k.requeueActive = some k1 ∧
      k'.activeProcess = some node.value ∧
      k1.priorityQueue.entries = node ::ₘ k'.priorityQueue.entries ∧
      ∀ other, other ∈ k'.priorityQueue.entries → node.priority ≤ other.priority := by
  rw [kernelAdvanceScheduler] at hadv
  obtain ⟨k1, hk1, hadv⟩ := Option.bind_eq_some_iff.mp hadv
  have h1 : k1.priorityQueue.HeapOrdered := by
    obtain ⟨-, rfl⟩ | ⟨a, A, -, rfl⟩ := requeueActive_cases hk1
    · exact h
    · exact h.insert a A.priority
  obtain ⟨⟨next, queue⟩, hext, hadv⟩ := Option.bind_eq_some_iff.mp hadv
  obtain ⟨p, hp, hadv⟩ := Option.bind_eq_some_iff.mp hadv
  obtain ⟨P, -, hadv⟩ := Option.bind_eq_some_iff.mp hadv
  rcases Nat.eq_zero_or_pos k1.priorityQueue.size with hzero | hpos
  · rw [PriorityQueue.extractMin_of_empty hzero] at hext
    cases hext
    cases hp
  · obtain ⟨queue', hq, hentries, hordered⟩ := h1.extractMin hpos
    rw [hq] at hext
    cases hext
    cases hp
    cases hadv
    refine ⟨hordered, k1, k1.priorityQueue.heap 0, hk1, rfl, hentries, ?_⟩
    intro other hother
    exact h1.least (hentries ▸ Multiset.mem_cons_of_mem hother)

theorem heapOrdered_effect {k k' : Kernel} {op : Op} (h : k.priorityQueue.HeapOrdered)
    (hterm : ∀ pid, op ≠ .terminate pid) (he : Effect k op k') : k'.priorityQueue.HeapOrdered := by
  cases he with
  | idle _ _ _ hqueue | edit _ _ _ _ _ _ _ _ hqueue => exact hqueue ▸ h
  | wake p P P' _ _ _ _ _ _ _ _ hqueue => exact hqueue ▸ h.insert p P.priority
  | spawn p P _ _ _ _ _ _ _ _ _ hqueue => exact hqueue ▸ h.insert p P.priority
  | terminate p P pid _ _ _ _ _ _ _ _ hop => exact absurd hop (hterm pid)
  | advance _ hadv => exact (heapOrdered_advance h hadv).1
  | block a A A' k1 _ _ _ _ _ _ _ _ hqueue hadv => exact (heapOrdered_advance (hqueue ▸ h) hadv).1

theorem heapOrdered_step {k k' : Kernel} {op : Op} (hw : k.WellFormed) (hr : k.ReadyOnce)
    (h : k.priorityQueue.HeapOrdered) (hclean : k.returnsCleanly op = true)
    (horder : k.removesInOrder op = true) (hst : k.step op = some k') :
    k'.priorityQueue.HeapOrdered := by
  cases op with
  | terminate processId =>
    obtain ⟨⟨r, k1⟩, hk, rfl⟩ := Option.map_eq_some_iff.mp hst
    obtain hqueue | ⟨p, status, hp, hremove⟩ := queue_terminate hw.sending hk
    · exact hqueue ▸ h
    · rw [removesInOrder, hp] at horder
      exact h.remove horder hremove
  | signalReturn =>
    obtain ⟨⟨r, k1⟩, hk, rfl⟩ := Option.map_eq_some_iff.mp hst
    exact heapOrdered_effect h (fun _ hop => by cases hop)
      (effect_signalReturn (fun _ _ => hr.active) hclean hk)
  | _ =>
    exact heapOrdered_effect h (fun _ hop => by cases hop)
      (step_effect hw.sending (fun hop => by cases hop) hst)

/-- The ready queue is a heap, and each node carries its process's priority. -/
structure Prioritized (k : Kernel) : Prop where
  wellFormed : k.WellFormed
  readyOnce : k.ReadyOnce
  labelled : k.Labelled
  ordered : k.priorityQueue.HeapOrdered

/-- The runs in which the ready queue stays a heap. -/
def keepsOrder (k : Kernel) (op : Op) : Bool := k.returnsCleanly op && k.removesInOrder op

theorem prioritized_of_reachable {k : Kernel}
    (h : system.Reachable (fun k op => k.keepsOrder op = true) k) : k.Prioritized := by
  have hclean : ∀ (k : Kernel) (op : Op), k.keepsOrder op = true → k.returnsCleanly op = true :=
    fun _ _ hok => (Bool.and_eq_true_iff.mp hok).1
  have hlabelled : ∀ {k : Kernel}, system.Reachable (fun k op => k.keepsOrder op = true) k →
      k.WellFormed ∧ k.ReadyOnce ∧ k.Labelled := fun h =>
    ⟨wellFormed_of_reachable h, labelled_of_reachable (h.mono hclean)⟩
  have hordered : k.priorityQueue.HeapOrdered := by
    induction h with
    | init hb =>
      obtain ⟨heap, cr3, memory, rfl⟩ := hb
      exact PriorityQueue.heapOrdered_construct heap 512
    | step hreach hok hst ih =>
      obtain ⟨hw, hr, -⟩ := hlabelled hreach
      obtain ⟨hok1, hok2⟩ := Bool.and_eq_true_iff.mp hok
      exact heapOrdered_step hw hr ih hok1 hok2 hst
  obtain ⟨hw, hr, hl⟩ := hlabelled h
  exact ⟨hw, hr, hl, hordered⟩

theorem Prioritized.advance {k k' : Kernel} (h : k.Prioritized)
    (hadv : k.kernelAdvanceScheduler = some k') : k'.Prioritized :=
  ⟨h.wellFormed.advance hadv, h.readyOnce.advance hadv, h.labelled.advance hadv,
    (heapOrdered_advance h.ordered hadv).1⟩

/-- The process that is entered has no larger priority than one that stays ready. -/
theorem Prioritized.entered_le {k k' : Kernel} (h : k.Prioritized)
    (hadv : k.kernelAdvanceScheduler = some k') :
    ∃ a A, k'.active = some (a, A) ∧
      ∀ q Q, q ∈ k'.ready → k'.processes q = some Q → A.priority ≤ Q.priority := by
  have h' := h.advance hadv
  obtain ⟨-, k1, node, hk1, hactive, hentries, hleast⟩ := heapOrdered_advance h.ordered hadv
  obtain ⟨hproc, -⟩ := advance_occupied hadv
  -- the node the scheduler took is the active process's own, or was in the queue before
  have hlabel : ∃ P, k.processes node.value = some P ∧ P.priority = node.priority := by
    have hnode : node ∈ k1.priorityQueue.entries := hentries ▸ Multiset.mem_cons_self node _
    obtain ⟨-, rfl⟩ | ⟨a, A, ha, rfl⟩ := requeueActive_cases hk1
    · exact h.labelled.priority node hnode
    · rcases Multiset.mem_cons.mp (Multiset.mem_of_le (entries_enqueue_le k a _) hnode) with
        rfl | hold
      · exact ⟨A, (active_eq_some.mp ha).2, rfl⟩
      · exact h.labelled.priority node hold
  obtain ⟨A, hA, hprio⟩ := hlabel
  refine ⟨node.value, A, active_eq_some.mpr ⟨hactive, by rw [hproc]; exact hA⟩, ?_⟩
  intro q Q hq hQ
  rw [ready, PriorityQueue.values] at hq
  obtain ⟨other, hother, rfl⟩ := Multiset.mem_map.mp hq
  obtain ⟨Q', hQ', hprio'⟩ := h'.labelled.priority other hother
  obtain rfl := Option.some.inj (hQ.symm.trans hQ')
  rw [hprio, hprio']
  exact hleast other hother

/-- Some runnable process has a smaller priority than `q`. -/
def Outranked (k : Kernel) (q : Ptr) : Prop :=
  ∃ p P Q, p ∈ k.occupied ∧ k.processes p = some P ∧ k.processes q = some Q ∧
    P.priority < Q.priority

theorem Prioritized.not_entered {k k' : Kernel} {q : Ptr} (h : k.Prioritized) (hroom : k.HasRoom)
    (hq : k.Outranked q) (hadv : k.kernelAdvanceScheduler = some k') :
    k'.activeProcess ≠ some q ∧ k'.HasRoom ∧ k'.Outranked q := by
  obtain ⟨p, P, Q, hp, hP, hQ, hlt⟩ := hq
  obtain ⟨a, A, ha, hle⟩ := h.entered_le hadv
  obtain ⟨hproc, -, hcap, -, hocc⟩ := advance_occupied hadv
  have hocc := hocc (.inr hroom)
  obtain ⟨hactive, hA⟩ := active_eq_some.mp ha
  rw [hproc] at hA
  have hp' : p ∈ k'.occupied := hocc ▸ hp
  refine ⟨?_, ?_, p, P, Q, hp', by rw [hproc]; exact hP, by rw [hproc]; exact hQ, hlt⟩
  · rw [hactive]
    rintro ⟨rfl⟩
    obtain rfl := Option.some.inj (hA.symm.trans hQ)
    rcases mem_occupied.mp hp' with hrun | hready
    · obtain rfl := Option.some.inj (hactive.symm.trans hrun)
      obtain rfl := Option.some.inj (hA.symm.trans hP)
      exact lt_irrefl _ hlt
    · exact absurd (hle p P hready (by rw [hproc]; exact hP)) (not_le_of_gt hlt)
  · -- the scheduler puts one process in and takes one out
    have hcard : k'.priorityQueue.size ≤ k.priorityQueue.size := by
      have hcards := congrArg Multiset.card hocc
      rw [occupied_of_some hactive, Multiset.card_cons, ready, PriorityQueue.values,
        Multiset.card_map, PriorityQueue.card_entries, occupied, Multiset.card_add, ready,
        PriorityQueue.values, Multiset.card_map, PriorityQueue.card_entries,
        Multiset.coe_card] at hcards
      have : k.activeProcess.toList.length ≤ 1 := by
        cases k.activeProcess <;> simp
      omega
    unfold HasRoom at hroom ⊢
    omega

theorem Prioritized.never_entered {k : Kernel} {q : Ptr} (h : k.Prioritized) (hroom : k.HasRoom)
    (hq : k.Outranked q) (t : Nat) : k.activation (t + 1) ≠ some q := by
  have hrun : ∀ t k', k.advances t = some k' → k'.Prioritized ∧ k'.HasRoom ∧ k'.Outranked q := by
    intro t
    induction t with
    | zero =>
      rintro k' ⟨⟩
      exact ⟨h, hroom, hq⟩
    | succ t ih =>
      intro k'' hk''
      obtain ⟨k', hk', hadv⟩ := Option.bind_eq_some_iff.mp hk''
      obtain ⟨h', hroom', hq'⟩ := ih k' hk'
      exact ⟨h'.advance hadv, (h'.not_entered hroom' hq' hadv).2⟩
  intro hact
  obtain ⟨k'', hk'', hact⟩ := Option.bind_eq_some_iff.mp hact
  obtain ⟨k', hk', hadv⟩ := Option.bind_eq_some_iff.mp hk''
  obtain ⟨h', hroom', hq'⟩ := hrun t k' hk'
  exact (h'.not_entered hroom' hq' hadv).1 hact

/-- **Scheduling by priority.**  In every run whose terminations leave the ready queue
a heap (and whose returns from signals find a state that fits), the process that the
scheduler enters has the least priority of all that are runnable; and as long as the
scheduler is called and nothing else happens, a process that has a larger priority
than some runnable one is never entered. -/
theorem entered_least_of_reachable {k : Kernel}
    (h : system.Reachable (fun k op => k.keepsOrder op = true) k) :
    (∀ k', k.kernelAdvanceScheduler = some k' → ∃ a A, k'.active = some (a, A) ∧
      ∀ q Q, q ∈ k'.ready → k'.processes q = some Q → A.priority ≤ Q.priority) ∧
    (k.HasRoom → ∀ q, k.Outranked q → ∀ t, k.activation (t + 1) ≠ some q) :=
  ⟨fun _ hadv => (prioritized_of_reachable h).entered_le hadv,
    fun hroom _ hq t => (prioritized_of_reachable h).never_entered hroom hq t⟩

/-- Two processes, the second one of the smaller priority. -/
def twoPrioritiesRun : List Op :=
  [.spawn 0x8000 2 0x1000 (.succeeds 1 fun _ => 0), .spawn 0x9000 1 0x1000 (.succeeds 2 fun _ => 0)]

theorem exists_twoPrioritiesRun :
    (Transition.System.runFrom (fun k op => k.keepsOrder op = true) step bare
      twoPrioritiesRun).any (fun k => k.HasRoom ∧ 2 ∈ k.occupied ∧
        (k.processes 1).any (fun Q => Q.priority = 2) = true ∧
        (k.processes 2).any (fun P => P.priority = 1) = true) = true := by
  decide +kernel

/-- The first one is never entered. -/
theorem entered_least_twoPrioritiesRun :
    ∃ k, Transition.System.runFrom (fun k op => k.keepsOrder op = true) step bare
        twoPrioritiesRun = some k ∧
      (∀ k', k.kernelAdvanceScheduler = some k' → ∃ a A, k'.active = some (a, A) ∧
        ∀ q Q, q ∈ k'.ready → k'.processes q = some Q → A.priority ≤ Q.priority) ∧
      k.Outranked 1 ∧ ∀ t, k.activation (t + 1) ≠ some 1 := by
  obtain ⟨k, hk, hstate⟩ := (Option.any_eq_true _ _).mp exists_twoPrioritiesRun
  obtain ⟨hroom, hp, hQ, hP⟩ := of_decide_eq_true hstate
  obtain ⟨Q, hQ, hQprio⟩ := (Option.any_eq_true _ _).mp hQ
  obtain ⟨P, hP, hPprio⟩ := (Option.any_eq_true _ _).mp hP
  have hq : k.Outranked 1 := by
    refine ⟨2, P, Q, hp, hP, hQ, ?_⟩
    rw [of_decide_eq_true hQprio, of_decide_eq_true hPprio]
    decide
  obtain ⟨hleast, hnever⟩ := entered_least_of_reachable (.runFrom _ _ (.init boot_bare) hk)
  exact ⟨k, hk, hleast, hq, hnever hroom 1 hq⟩

end Kernel
end QuarkKernel
