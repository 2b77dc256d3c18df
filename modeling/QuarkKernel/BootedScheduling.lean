import QuarkKernel.BootedProcesses
import QuarkKernel.RunQueue

/-! # Turns in a booted kernel

All processes of a booted kernel have the same priority.  An interrupt always finds a
process to enter, since the one that is interrupted can go on itself; a receive that
blocks finds none, and the kernel panics, if the caller was the only one not waiting
(`survives_of_reachable`).

With up to three modules the active process and the ready queue are a run queue, whatever
is called in between: whoever is ready runs when two more turns have ended
(`served_of_reachable`).  With four modules that is no longer so, as the third one in the
queue shows that is never entered while the others only use up their turns
(`activation_of_reachable`). -/
namespace QuarkKernel
namespace Kernel

/-- The scheduler finds a process if there is one. -/
theorem Uniform.exists_advance {c : Int} {k : Kernel} (h : Uniform c k)
    (hpos : 0 < k.occupied.card) : ∃ k', k.kernelAdvanceScheduler = some k' := by
  have hsize : 0 < (k.requeued c).size := by
    rw [h.size_requeued]
    omega
  obtain ⟨queue, hq, -⟩ := PriorityQueue.extractMin_of_pos hsize
  obtain ⟨k', hadv, -⟩ := h.advance hq
  exact ⟨k', hadv⟩

/-- The kernel with which a receive that blocks calls the scheduler. -/
def parked (k : Kernel) (a : Ptr) (A : Process) (buffer : Word) : Kernel :=
  { k.setProcess a (blocked A buffer) with activeProcess := none }

end Kernel

namespace SyscallKernel
open Kernel

variable {modules : List BootModule}

theorem Resident.priority {k : Kernel} (h : Resident modules k) {p : Ptr} {P : Process}
    (hP : k.processes p = some P) : P.priority = 1 := by
  obtain ⟨i, hi, hp⟩ := h.module p P hP
  obtain ⟨q, Q, hq, hQ, hbelongs⟩ := h.process i hi
  obtain rfl := Option.some.inj (hp.symm.trans hq)
  obtain rfl := Option.some.inj (hP.symm.trans hQ)
  exact hbelongs.priority

/-- All that run or are ready have priority 1. -/
theorem Settled.uniform {k : Kernel} (h : Settled modules k) : Uniform 1 k :=
  uniform_of_reachable (h.reachable.mono fun _ _ => returnsCleanly_of_tame) fun _ _ _ =>
    h.resident.priority

theorem Settled.uniform_parked {k : Kernel} (h : Settled modules k) {a : Ptr} {A : Process}
    (ha : k.active = some (a, A)) (buffer : Word) : Uniform 1 (parked k a A buffer) := by
  have hu := h.uniform
  have hprioA : A.priority = 1 := h.resident.priority (active_eq_some.mp ha).2
  refine ⟨hu.capacity, hu.level, ?_⟩
  intro p hp
  have hp : p ∈ k.ready := by
    rwa [occupied_of_none rfl] at hp
  obtain ⟨P, hP, hprio⟩ := hu.running p (mem_occupied.mpr (.inr hp))
  by_cases hpa : p = a
  · subst hpa
    exact ⟨blocked A buffer, Function.update_self .., hprioA⟩
  · exact ⟨P, (Function.update_of_ne hpa ..).trans hP, hprio⟩

theorem receive_of_wouldBlock {k : Kernel} {a : Ptr} {A : Process} {buffer flags : Word}
    (ha : k.active = some (a, A)) (hempty : A.messageQueue = [])
    (hsync : flags &&& ioOp ≠ ioAsync) :
    k.receive buffer flags =
      ((parked k a A buffer).kernelAdvanceScheduler).map fun k' => (none, k') := by
  rw [receive, receiveMessage, ha]
  simp only [Option.bind_eq_bind, Option.bind_some]
  split
  · rename_i hqueue
    rw [hempty] at hqueue
    cases hqueue
  · rw [if_neg hsync, Option.map_eq_bind]
    rfl

/-- It is entered if and only if somebody is ready. -/
theorem Settled.isSome_parked {k : Kernel} (h : Settled modules k) {a : Ptr} {A : Process}
    (ha : k.active = some (a, A)) (buffer : Word) :
    (parked k a A buffer).kernelAdvanceScheduler.isSome ↔ k.ready ≠ 0 := by
  have hocc : (parked k a A buffer).occupied = k.ready := occupied_of_none rfl
  constructor
  · intro hsome hzero
    obtain ⟨k', hk'⟩ := Option.isSome_iff_exists.mp hsome
    obtain ⟨p, P, queue, -, -, -, -, hle, -⟩ := advance_cases hk'
    rw [hocc, hzero] at hle
    exact absurd (Multiset.mem_of_le hle (Multiset.mem_cons_self ..)) (Multiset.notMem_zero p)
  · intro hready
    obtain ⟨k', hk'⟩ := (h.uniform_parked ha buffer).exists_advance (by
      rw [hocc]
      exact Multiset.card_pos.mpr hready)
    rw [hk']
    rfl

variable {s s' : SyscallKernel}

/-- The context that `do_syscall` sets is one that a booted kernel may have. -/
theorem Settled.call {k : Kernel} (h : Settled modules k)
    (hmodules : modules.length ≤ Multiboot.moduleLimit) {a : Ptr} {A : Process}
    (ha : k.active = some (a, A)) (call : SystemCall) :
    Settled modules (k.setProcess a (callContext A call)) :=
  h.builtin hmodules rfl rfl (step_storeContext ha (callContext A call).ctx)

/-- **When the kernel panics for want of a process.**  A kernel that has booted, and whose
programs receive and map below it only, survives every interrupt.  It survives a receive
that blocks if and only if some process is ready.  A call under an id that is not in the
table changes nothing. -/
theorem survives_of_reachable
    (h : (booted modules).Reachable (fun _ event => event.orderly = true) s) :
    (∀ context, (s.preemptWith context).isSome) ∧
    (∀ call beyond answers a A, call.id = 7 → s.kernel.active = some (a, A) →
      A.messageQueue = [] → call.arg2 &&& ioOp ≠ ioAsync →
      ((s.systemCall call beyond answers).isSome ↔ s.kernel.ready ≠ 0)) ∧
    ∀ call beyond answers, call.id.toNat ≠ maxSyscallId → builtin call.id.toNat = none →
      s.systemCall call beyond answers = some (some Status.enosyscall.code, s) := by
  obtain ⟨hmodules, hsettled, htable, hnone⟩ := settled_of_reachable h
  refine ⟨?_, ?_, fun call beyond answers hid hbuiltin =>
    systemCall_of_none htable hid hbuiltin beyond answers⟩
  · intro context
    obtain ⟨a, A, ha⟩ := hsettled.active
    have hstored := step_storeContext ha context
    have hsettled' := hsettled.builtin hmodules rfl rfl hstored
    obtain ⟨⟨r, k1⟩, hk1, heq⟩ := Option.map_eq_some_iff.mp hstored
    obtain rfl : k1 = _ := heq
    have hpos : 0 < (s.kernel.setProcess a { A with ctx := context }).occupied.card := by
      refine Multiset.card_pos_iff_exists_mem.mpr ⟨a, mem_occupied.mpr (.inl ?_)⟩
      exact (active_eq_some.mp ha).1
    obtain ⟨k2, hk2⟩ := hsettled'.uniform.exists_advance hpos
    rw [preemptWith, hk1]
    simp [hk2]
  · intro call beyond answers a A hid ha hempty hsync
    have hbuiltin : builtin call.id.toNat = some (.receive, 2) := by
      rw [hid]
      rfl
    have ha' : (s.kernel.setProcess a (callContext A call)).active =
        some (a, callContext A call) :=
      active_eq_some.mpr ⟨(active_eq_some.mp ha).1, setProcess_self ..⟩
    have hempty' : (callContext A call).messageQueue = [] := hempty
    rw [systemCall_of_some htable hnone hbuiltin ha]
    have hcall : (s.kernel.setProcess a (callContext A call)).callBuiltin answers .receive
        ([call.arg1, call.arg2, call.arg3].take 2) =
          ((parked (s.kernel.setProcess a (callContext A call)) a (callContext A call)
            call.arg1).kernelAdvanceScheduler).map fun k' => (none, k') := by
      show (receive _ call.arg1 call.arg2).bind _ = _
      rw [receive_of_wouldBlock ha' hempty' hsync]
      cases Kernel.kernelAdvanceScheduler _ <;> rfl
    rw [hcall, Option.isSome_map, Option.isSome_map]
    exact (hsettled.call hmodules ha call).isSome_parked ha' call.arg1

theorem survives_portRun :
    ∃ s, (boot twoModules).bind (fun s => Transition.System.runFrom
        (fun _ event => event.orderly = true) next s portRun) = some s ∧
      (∀ context, (s.preemptWith context).isSome) ∧
      (∀ call beyond answers a A, call.id = 7 → s.kernel.active = some (a, A) →
        A.messageQueue = [] → call.arg2 &&& ioOp ≠ ioAsync →
        ((s.systemCall call beyond answers).isSome ↔ s.kernel.ready ≠ 0)) ∧
      ∀ call beyond answers, call.id.toNat ≠ maxSyscallId → builtin call.id.toNat = none →
        s.systemCall call beyond answers = some (some Status.enosyscall.code, s) := by
  obtain ⟨s, hs⟩ := Option.isSome_iff_exists.mp (show ((boot twoModules).bind fun s =>
    Transition.System.runFrom (fun _ event => event.orderly = true) next s portRun).isSome
      by decide +kernel)
  obtain ⟨s0, hs0, hrun⟩ := Option.bind_eq_some_iff.mp hs
  have hstarts : (booted twoModules).Init s0 := ⟨by decide, _, _, _, hs0⟩
  exact ⟨s, hs, survives_of_reachable (.runFrom _ _ (.init hstarts) hrun)⟩

/-! ### Up to three modules -/

/-- The event ends the turn of the active process: it is interrupted, or its system call
does not return. -/
def endsTurn (s : SyscallKernel) : Event → Bool
  | .program _ => false
  | .preempt _ => true
  | .systemCall call beyond answers => (s.systemCall call beyond answers).any (·.1.isNone)

theorem Settled.card_le {k : Kernel} (h : Settled modules k) (hthree : modules.length ≤ 3) :
    k.occupied.card ≤ 3 :=
  (h.resident.card_occupied_le h.sound.readyOnce).trans hthree

theorem Settled.line_advance {k k' : Kernel} (h : Settled modules k) (hthree : modules.length ≤ 3)
    (hadv : k.kernelAdvanceScheduler = some k') : RunQueue.Step k.line true k'.line := by
  obtain ⟨a, A, ha⟩ := h.active
  have hactive := (active_eq_some.mp ha).1
  have hpos : 0 < k.occupied.card :=
    Multiset.card_pos_iff_exists_mem.mpr ⟨a, mem_occupied.mpr (.inl hactive)⟩
  obtain ⟨k1, hk1, -, -, hline⟩ := h.uniform.advance_line hpos (h.card_le hthree)
  obtain rfl := Option.some.inj (hadv.symm.trans hk1)
  have hrotate : (a :: k.priorityQueue.slots).rotate 1 = k.priorityQueue.slots ++ [a] := by
    rw [List.rotate_cons_succ, List.rotate_zero]
  rw [hline, hactive, line, hactive]
  show RunQueue.Step (a :: k.priorityQueue.slots) true ((a :: k.priorityQueue.slots).rotate 1)
  rw [hrotate]
  exact .yields a _

theorem Settled.line_parked {k k' : Kernel} (h : Settled modules k) (hthree : modules.length ≤ 3)
    {a : Ptr} {A : Process} (ha : k.active = some (a, A)) {buffer : Word}
    (hadv : (parked k a A buffer).kernelAdvanceScheduler = some k') :
    RunQueue.Step k.line true k'.line := by
  have hocc : (parked k a A buffer).occupied = k.ready := occupied_of_none rfl
  have hready : k.ready ≠ 0 := (h.isSome_parked ha buffer).mp (Option.isSome_of_eq_some hadv)
  have hle : k.ready.card ≤ 3 :=
    (Multiset.card_le_card (Multiset.le_add_left _ _)).trans (h.card_le hthree)
  obtain ⟨k1, hk1, -, -, hline⟩ := (h.uniform_parked ha buffer).advance_line
    (hocc ▸ Multiset.card_pos.mpr hready) (hocc ▸ hle)
  obtain rfl := Option.some.inj (hadv.symm.trans hk1)
  rw [hline, line, (active_eq_some.mp ha).1]
  exact .leaves a _

theorem Settled.line_sendMessage {k k' : Kernel} (h : Settled modules k)
    (hmodules : modules.length ≤ Multiboot.moduleLimit) {recipient message : Word} {r : Status}
    (hsend : k.kernelSendMessage recipient message = some (r, k')) :
    RunQueue.Step k.line false k'.line := by
  obtain ⟨-, -, rfl⟩ | ⟨-, -, -, -, -, -, rfl⟩ |
    ⟨d, D, a, A, m, memory, -, -, hD, -, -, -, -, rfl⟩ := sendMessage_cases hsend
  · exact .keeps _
  · exact .keeps _
  · have hsound := h.sound
    have hroom := h.resident.hasRoom hsound.readyOnce hsound.labelled hmodules
    have hslots := PriorityQueue.insert_slots hroom h.uniform.level d
    have hline : (k.enqueue d D.priority).line = k.line ++ [d] := by
      rw [h.resident.priority hD, line, line, List.append_assoc]
      exact congrArg _ hslots
    show RunQueue.Step k.line false (k.enqueue d D.priority).line
    rw [hline]
    exact .joins _ d

theorem Settled.line_callBuiltin {k k' : Kernel} (h : Settled modules k)
    (hmodules : modules.length ≤ Multiboot.moduleLimit) (hthree : modules.length ≤ 3)
    {answers : Answers} {funcPtr : SyscallFunction} {arguments : List Word}
    {result : Option Word} (hcall : k.callBuiltin answers funcPtr arguments = some (result, k')) :
    RunQueue.Step k.line result.isNone k'.line := by
  unfold callBuiltin at hcall
  split at hcall
  · split at hcall <;> cases hcall
    exact .keeps _
  · cases hcall
    exact .keeps _
  · cases hcall
    exact .keeps _
  · obtain ⟨⟨status, k1⟩, hk, hcall⟩ := Option.bind_eq_some_iff.mp hcall
    cases hcall
    obtain ⟨-, rfl⟩ | ⟨-, -, hs⟩ | ⟨-, -, hq⟩ := send_cases hk
    · exact .keeps _
    · exact h.line_sendMessage hmodules hs
    · obtain ⟨-, -, rfl⟩ | ⟨-, -, rfl⟩ | ⟨-, -, -, -, -, -, -, -, -, rfl⟩ |
        ⟨d, D, a, A, m, -, -, -, -, -, -, rfl⟩ := queueMessage_cases hq
      all_goals exact .keeps _
  · obtain ⟨⟨status, k1⟩, hk, hcall⟩ := Option.bind_eq_some_iff.mp hcall
    cases hcall
    obtain ⟨a, A, ha, ⟨m, queue, memory, -, -, rfl, rfl⟩ | ⟨-, -, rfl, rfl⟩ | ⟨-, -, rfl, hadv⟩⟩ :=
      receive_cases hk
    · exact .keeps _
    · exact .keeps _
    · exact h.line_parked hthree ha hadv
  · rename_i id
    obtain ⟨⟨status, k1⟩, hk, hcall⟩ := Option.bind_eq_some_iff.mp hcall
    cases hcall
    obtain rfl | ⟨a, A, t, -, -, -, rfl⟩ := createPort_cases hk
    all_goals exact .keeps _
  · obtain ⟨⟨status, k1⟩, hk, hcall⟩ := Option.bind_eq_some_iff.mp hcall
    cases hcall
    obtain rfl | ⟨port, a, A, t, -, -, -, -, rfl⟩ := removePort_cases hk
    all_goals exact .keeps _
  · cases hcall

/-- **The kernel with up to three modules is a run queue.** -/
theorem line_next (hmodules : modules.length ≤ Multiboot.moduleLimit)
    (hthree : modules.length ≤ 3) (hsettled : Settled modules s.kernel)
    (htable : s.syscallTable = builtinTable) (hnone : s.inProgress = none) {event : Event}
    (horderly : event.orderly = true) (hnext : s.next event = some s') :
    RunQueue.Step s.kernel.line (s.endsTurn event) s'.kernel.line := by
  obtain ⟨a, A, ha⟩ := hsettled.active
  cases event with
  | program memory =>
    cases hnext
    exact .keeps _
  | preempt context =>
    obtain ⟨⟨status, k1⟩, hk1, hnext⟩ := Option.bind_eq_some_iff.mp hnext
    obtain ⟨k2, hk2, hnext⟩ := Option.bind_eq_some_iff.mp hnext
    cases hnext
    have hstored : s.kernel.step (.storeContext context) = some k1 := by
      rw [Kernel.step, hk1]
      rfl
    have hsettled' := hsettled.builtin hmodules rfl rfl hstored
    have hline := hsettled'.line_advance hthree hk2
    obtain rfl := Option.some.inj (hstored.symm.trans (step_storeContext ha context))
    exact hline
  | systemCall call beyond answers =>
    obtain ⟨⟨result, s1⟩, hcall, rfl⟩ := Option.map_eq_some_iff.mp hnext
    have hends : s.endsTurn (.systemCall call beyond answers) = result.isNone := by
      rw [endsTurn, hcall]
      rfl
    rw [hends]
    have hid : call.id.toNat ≠ maxSyscallId :=
      of_decide_eq_true (staysInTable_of_orderly horderly)
    rcases hbuiltin : builtin call.id.toNat with _ | ⟨funcPtr, argCount⟩
    · rw [systemCall_of_none htable hid hbuiltin] at hcall
      cases hcall
      exact .keeps _
    · rw [systemCall_of_some htable hnone hbuiltin ha] at hcall
      obtain ⟨⟨result', k'⟩, hk', heq⟩ := Option.map_eq_some_iff.mp hcall
      cases heq
      exact (hsettled.call hmodules ha call).line_callBuiltin hmodules hthree hk'

/-- **Nobody waits for long.**  With up to three modules, in every run from a state that a
run from the boot reaches, programs receiving and mapping below the kernel only: when two
turns have ended, each by an interrupt or by a receive that blocks, every process that was
ready has been entered, whatever else was called in between. -/
theorem served_of_reachable (hthree : modules.length ≤ 3)
    (h : (booted modules).Reachable (fun _ event => event.orderly = true) s)
    {events : List Event} (hrun : Transition.System.runFrom
      (fun _ event => event.orderly = true) next s events = some s')
    (hturns : 2 ≤ RunQueue.turnsEnded next endsTurn s events) {q : Ptr}
    (hq : q ∈ s.kernel.ready) :
    ∃ n, n ≤ events.length ∧ ∃ u, Transition.System.runFrom
      (fun _ event => event.orderly = true) next s (events.take n) = some u ∧
        u.kernel.activeProcess = some q := by
  obtain ⟨hmodules, hinv⟩ := settled_of_reachable h
  have hsettled := hinv.1
  have hmem : q ∈ s.kernel.line := by
    rw [← Multiset.mem_coe, coe_line]
    exact mem_occupied.mpr (.inr hq)
  obtain ⟨i, hi, hget⟩ := List.mem_iff_getElem.mp hmem
  have hlength : s.kernel.line.length ≤ 3 := by
    rw [length_line]
    exact hsettled.card_le hthree
  have hq' : s.kernel.line[i]? = some q := by
    rw [List.getElem?_eq_getElem hi, hget]
  have hi' : i ≤ RunQueue.turnsEnded next endsTurn s events := by omega
  obtain ⟨n, hn, u, hu, hhead⟩ := RunQueue.served_within endsTurn (fun s => s.kernel.line)
    (fun s => Settled modules s.kernel ∧ s.syscallTable = builtinTable ∧ s.inProgress = none)
    (fun s event s' hs horderly hst =>
      ⟨next_keeps
        (fun k op k' hk hmakes hst => hk.builtin hmodules hmakes.builtin hmakes.spares hst)
        (fun k hk => hk.active) hs.2.1 hs.2.2 horderly hs.1 hst,
        line_next hmodules hthree hs.1 hs.2.1 hs.2.2 horderly hst⟩)
    events hinv hrun hq' hi'
  refine ⟨n, hn, u, hu, ?_⟩
  obtain ⟨a, A, ha⟩ := (settled_of_reachable (.runFrom _ _ h hu)).2.1.active
  rw [line, (active_eq_some.mp ha).1] at hhead
  rw [(active_eq_some.mp ha).1]
  exact hhead

/-- Three modules, in the blocks 1 to 3. -/
def threeModules : List BootModule :=
  twoModules ++ [⟨0x4000, fun _ _ => some 0, 0xA000, .succeeds 3 fun _ => 0⟩]

/-- The first process waits, the second one wakes it up and is interrupted. -/
def wakeEvents : List Event :=
  [.systemCall ⟨7, 0x6000, 0, 0, 0x8020, 0x7000, 0x3200⟩ .zero plenty,
    .systemCall ⟨6, 1, 0x5000, 0, 0x9010, 0x7000, 0x3200⟩ .zero plenty,
    .preempt (ProcessContext.zero.setContextPc 0x9014)]

theorem runs_wakeEvents :
    (boot threeModules).any (fun s => 3 ∈ s.kernel.ready ∧
      2 ≤ RunQueue.turnsEnded next endsTurn s wakeEvents ∧
      (Transition.System.runFrom (fun _ event => event.orderly = true) next s
        wakeEvents).isSome) = true := by
  decide +kernel

theorem served_wakeEvents :
    ∃ s, boot threeModules = some s ∧ 3 ∈ s.kernel.ready ∧
      ∃ n, n ≤ wakeEvents.length ∧ ∃ u, Transition.System.runFrom
        (fun _ event => event.orderly = true) next s (wakeEvents.take n) = some u ∧
          u.kernel.activeProcess = some 3 := by
  obtain ⟨s, hs, hruns⟩ := (Option.any_eq_true _ _).mp runs_wakeEvents
  obtain ⟨hready, hturns, hsome⟩ := of_decide_eq_true hruns
  obtain ⟨s', hs'⟩ := Option.isSome_iff_exists.mp hsome
  have hstarts : (booted threeModules).Init s := ⟨by decide, _, _, _, hs⟩
  exact ⟨s, hs, hready, served_of_reachable (by decide) (.init hstarts) hs' hturns hready⟩

end SyscallKernel
end QuarkKernel
