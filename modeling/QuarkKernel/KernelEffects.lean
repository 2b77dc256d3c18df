import QuarkKernel.KernelSteps

/-! # What a step does to the processes

The invariants of the scheduler look at few things: the blocks, the process
table, the active process and the ready queue.  `Effect` says what a step can do
to these, with one case for many calls: `edit` for every change to one block that
leaves alone whether it runs, `wake` for every call that makes a process ready.
`makesReady` and `wouldBlock` tell from the state before a step whether it puts a
process into the ready queue, or the active one to sleep.

`WellFormed` holds in every run, whatever programs do. -/
namespace QuarkKernel

namespace Kernel

/-- The process with a given pid waits in a receive. -/
def recipientWaits (k : Kernel) (recipient : Word) : Bool :=
  match k.lookup recipient with
  | none => false
  | some d => (k.processes d).any waiting

/-- The process an interrupt is delivered to is not active. -/
def interruptWakes (k : Kernel) (interrupt : Word) : Bool :=
  match k.interruptHandlers.avlGet interrupt.toInt with
  | none => false
  | some action =>
      match k.lookup action.pid with
      | none => false
      | some p => (k.processes p).any (·.state ≠ .active)

/-- The step puts a process into the ready queue. -/
def makesReady (k : Kernel) : Op → Bool
  | .spawn _ _ _ alloc =>
      alloc.process.isSome && alloc.context && alloc.stackPage.toNat % pageSize.toNat = 0
  | .advance => k.activeProcess.isSome
  | .sendMessage recipient _ => k.recipientWaits recipient
  | .send recipient _ flags _ =>
      (k.sendRefuses recipient flags).isNone && k.recipientWaits (k.sendRecipient recipient flags)
  | .executeHandler interrupt => k.interruptWakes interrupt
  | _ => false

/-- A receive with these flags puts the active process to sleep. -/
def wouldBlock (k : Kernel) (flags : Word) : Bool :=
  k.active.any fun active => active.2.messageQueue.isEmpty && flags &&& ioOp ≠ ioAsync

/-- The parts of a block that never change. -/
structure SameIdentity (P P' : Process) : Prop where
  pid : P'.pid = P.pid
  priority : P'.priority = P.priority
  sendingQueue : P'.sendingQueue = P.sendingQueue

/-- A change to a block after which the process runs, or waits, as before: to its
context, or to the message queue of a process that is not waiting. -/
structure Edit (P P' : Process) : Prop extends SameIdentity P P' where
  state : P'.state = P.state
  messageBuffer : P'.messageBuffer = P.messageBuffer
  messageQueue : waiting P = true → P.messageQueue = [] → P'.messageQueue = []

/-- What a step can do to the blocks, the table, the active process and the ready
queue. -/
inductive Effect (k : Kernel) (op : Op) (k' : Kernel) : Prop
  | idle (hproc : k'.processes = k.processes) (htable : k'.processTable = k.processTable)
      (hactive : k'.activeProcess = k.activeProcess)
      (hqueue : k'.priorityQueue = k.priorityQueue) (hnext : k'.nextPid = k.nextPid)
  | edit (p : Ptr) (P P' : Process) (hP : k.processes p = some P) (hedit : Edit P P')
      (hproc : k'.processes = Function.update k.processes p (some P'))
      (htable : k'.processTable = k.processTable) (hactive : k'.activeProcess = k.activeProcess)
      (hqueue : k'.priorityQueue = k.priorityQueue) (hnext : k'.nextPid = k.nextPid)
  | wake (p : Ptr) (P P' : Process) (hready : k.makesReady op = true)
      (hP : k.processes p = some P) (hsame : SameIdentity P P') (hstate : P.state ≠ .active)
      (hstate' : P'.state = .active)
      (hproc : k'.processes = Function.update k.processes p (some P'))
      (htable : k'.processTable = k.processTable) (hactive : k'.activeProcess = k.activeProcess)
      (hqueue : k'.priorityQueue = (k.enqueue p P.priority).priorityQueue)
      (hnext : k'.nextPid = k.nextPid)
  | spawn (p : Ptr) (P : Process) (node : Bool) (hready : k.makesReady op = true)
      (hfree : k.processes p = none)
      (hpid : P.pid = k.nextPid) (hstate : P.state = .active) (hsend : P.sendingQueue = [])
      (htable : k.processTable.avlInsert node k.nextPid.toInt (some p) = some k'.processTable)
      (hproc : k'.processes = Function.update k.processes p (some P))
      (hactive : k'.activeProcess = k.activeProcess)
      (hqueue : k'.priorityQueue = (k.enqueue p P.priority).priorityQueue)
      (hop : ∃ programEntry addressSpace alloc,
        op = .spawn programEntry P.priority addressSpace alloc)
      (hnext : k'.nextPid = k.nextPid + 1)
  | terminate (p : Ptr) (P : Process) (pid : Word) (hlookup : k.lookup pid = some p)
      (hP : k.processes p = some P)
      (htable : k.processTable.avlRemove pid.toInt = some k'.processTable)
      (hproc : k'.processes = Function.update k.processes p none)
      (hactive : k'.activeProcess = if k.activeProcess = some p then none else k.activeProcess)
      (hqueue : k'.ready = k.ready.erase p)
      (hentries : k'.priorityQueue.entries ≤ k.priorityQueue.entries)
      (hcap : k'.priorityQueue.capacity = k.priorityQueue.capacity) (hop : op = .terminate pid)
      (hnext : k'.nextPid = k.nextPid)
  | advance (hready : k.activeProcess.isSome → k.makesReady op = true)
      (hadv : k.kernelAdvanceScheduler = some k')
  | block (a : Ptr) (A A' : Process) (k1 : Kernel) (hactive : k.active = some (a, A))
      (hsame : SameIdentity A A') (hstate : A'.state = .requesting) (hempty : A'.messageQueue = [])
      (hop : op = .signalReturn ∨
        ∃ flags, k.wouldBlock flags = true ∧ op = .receive A'.messageBuffer flags)
      (hproc : k1.processes = Function.update k.processes a (some A'))
      (htable : k1.processTable = k.processTable) (hnone : k1.activeProcess = none)
      (hqueue : k1.priorityQueue = k.priorityQueue) (hadv : k1.kernelAdvanceScheduler = some k')
      (hnext : k1.nextPid = k.nextPid)

/-! ### Every step has one of these effects -/

theorem effect_spawn {k k' : Kernel} {programEntry addressSpace : Word} {priority : Int}
    {alloc : SpawnAlloc} (h : k.step (.spawn programEntry priority addressSpace alloc) = some k') :
    Effect k (.spawn programEntry priority addressSpace alloc) k' := by
  rw [step] at h
  split at h
  · rename_i hfresh
    obtain ⟨⟨r, k1⟩, hk, rfl⟩ := Option.map_eq_some_iff.mp h
    obtain ⟨-, rfl⟩ | ⟨p, memory, table, hp, hctx, hpage, hins, rfl⟩ := spawn_cases hk
    · exact .idle rfl rfl rfl rfl rfl
    · have hfree := processes_of_fresh hfresh hp
      have hready : k.makesReady (.spawn programEntry priority addressSpace alloc) = true := by
        simp [makesReady, hp, hctx, hpage]
      exact .spawn p _ alloc.node hready hfree rfl rfl rfl hins rfl rfl rfl ⟨_, _, _, rfl⟩ rfl
  · cases h

theorem effect_terminate {k k' : Kernel} {processId : Word} {r : Status}
    (hsend : ∀ p P, k.processes p = some P → P.sendingQueue = [])
    (h : k.kernelTerminateProcess processId = some (r, k')) :
    Effect k (.terminate processId) k' := by
  obtain ⟨-, -, rfl⟩ | ⟨p, P, table, queue, -, hlookup, hP, hrem, hv, he, hc, rfl⟩ :=
    terminate_cases hsend h
  · exact .idle rfl rfl rfl rfl rfl
  · exact .terminate p P processId hlookup hP hrem rfl rfl hv he hc rfl rfl

theorem effect_storeContext {k k' : Kernel} {context : ProcessContext} {r : Status} {op : Op}
    (h : k.kernelStoreActiveContext context = some (r, k')) : Effect k op k' := by
  obtain rfl | ⟨p, P, hactive, rfl⟩ := storeContext_cases h
  · exact .idle rfl rfl rfl rfl rfl
  · have hP := (active_eq_some.mp hactive).2
    exact .edit p P { P with ctx := context } hP ⟨⟨rfl, rfl, rfl⟩, rfl, rfl, fun _ => id⟩
      rfl rfl rfl rfl rfl

theorem waiting_iff {P : Process} :
    waiting P = true ↔ P.messageBuffer ≠ 0 ∧ P.state = .requesting := by
  simp [waiting]

theorem effect_sendMessage {k k' : Kernel} {recipient message : Word} {r : Status} {op : Op}
    (hop : k.recipientWaits recipient = true → k.makesReady op = true)
    (h : k.kernelSendMessage recipient message = some (r, k')) : Effect k op k' := by
  obtain ⟨-, -, rfl⟩ | ⟨-, -, -, -, -, -, rfl⟩ |
    ⟨d, D, a, A, m, memory, -, hlookup, hD, hwait, -, -, -, rfl⟩ := sendMessage_cases h
  · exact .idle rfl rfl rfl rfl rfl
  · exact .idle rfl rfl rfl rfl rfl
  · have hready : k.makesReady op = true := hop (by simp [recipientWaits, hlookup, hD, hwait])
    have hstate : D.state ≠ .active := by
      rw [(waiting_iff.mp hwait).2]
      decide
    exact .wake d D (delivered D) hready hD ⟨rfl, rfl, rfl⟩ hstate rfl rfl rfl rfl rfl rfl

theorem effect_send {k k' : Kernel} {recipient message flags : Word} {alloc : QueueAlloc}
    {r : Status} (h : k.send recipient message flags alloc = some (r, k')) :
    Effect k (.send recipient message flags alloc) k' := by
  obtain ⟨-, rfl⟩ | ⟨hrefuses, -, hs⟩ | ⟨-, hs, hq⟩ := send_cases h
  · exact .idle rfl rfl rfl rfl rfl
  · exact effect_sendMessage (fun hwait => by simp [makesReady, hrefuses, hwait]) hs
  · obtain ⟨-, -, rfl⟩ | ⟨-, -, rfl⟩ | ⟨-, -, -, -, -, -, -, -, -, rfl⟩ |
      ⟨d, D, a, A, m, -, -, hd, hD, -, -, rfl⟩ := queueMessage_cases hq
    · exact .idle rfl rfl rfl rfl rfl
    · exact .idle rfl rfl rfl rfl rfl
    · exact .idle rfl rfl rfl rfl rfl
    · have hbusy := not_waiting_of_ebusy hs hd hD
      refine .edit d D { D with messageQueue := D.messageQueue ++ [m] } hD
        ⟨⟨rfl, rfl, rfl⟩, rfl, rfl, fun hwait => ?_⟩ rfl rfl rfl rfl rfl
      rw [hbusy] at hwait
      cases hwait

theorem effect_receive {k k' : Kernel} {buffer flags : Word} {r : Option Status}
    (h : k.receiveMessage buffer flags = some (r, k')) : Effect k (.receive buffer flags) k' := by
  obtain ⟨a, A, hactive, hcases⟩ := receive_cases h
  have hA := (active_eq_some.mp hactive).2
  obtain ⟨m, queue, memory, hq, -, -, rfl⟩ | ⟨-, -, -, rfl⟩ | ⟨hq, hflags, -, hadv⟩ := hcases
  · refine .edit a A { A with messageQueue := queue } hA
      ⟨⟨rfl, rfl, rfl⟩, rfl, rfl, fun _ hempty => ?_⟩ rfl rfl rfl rfl rfl
    rw [hq] at hempty
    cases hempty
  · exact .idle rfl rfl rfl rfl rfl
  · have hblock : k.wouldBlock flags = true := by simp [wouldBlock, hactive, hq, hflags]
    exact .block a A (blocked A buffer)
      { k.setProcess a (blocked A buffer) with activeProcess := none } hactive ⟨rfl, rfl, rfl⟩
      rfl hq (.inr ⟨flags, hblock, rfl⟩) rfl rfl rfl rfl hadv rfl

theorem effect_executeHandler {k k' : Kernel} {interrupt : Word} {r : Status}
    (h : k.kernelExecuteInterruptHandler interrupt = some (r, k')) :
    Effect k (.executeHandler interrupt) k' := by
  obtain ⟨handlers, rfl⟩ | ⟨action, p, P, ctx, memory, cr3, ha, hp, hP, -, rfl⟩ :=
    executeHandler_cases h
  · exact .idle rfl rfl rfl rfl rfl
  · by_cases hstate : P.state = .active
    · refine .edit p P { P with ctx, state := .active } hP
        ⟨⟨rfl, rfl, rfl⟩, hstate.symm, rfl, fun _ => id⟩ rfl ?_ ?_ ?_ ?_ <;>
        simp [hstate]
    · have hready : k.makesReady (.executeHandler interrupt) = true := by
        simp [makesReady, interruptWakes, ha, hp, hP, hstate]
      refine .wake p P { P with ctx, state := .active } hready hP ⟨rfl, rfl, rfl⟩ hstate rfl rfl
        ?_ ?_ ?_ ?_ <;>
        simp [hstate, enqueue]

/-- The call finds a state on the stack that a process can go on with: it was
running, or it was waiting and there is still nothing for it. -/
def resumesCleanly (k : Kernel) : Bool :=
  k.active.all fun active =>
    (popSignalFrame active.2 (k.memory k.cr3)).all fun frame =>
      frame.2 = .active || (frame.2 = .requesting && active.2.messageQueue.isEmpty)

theorem effect_signalReturn {k k' : Kernel} {r : Option Status}
    (hactive : ∀ a A, k.active = some (a, A) → A.state = .active) (hclean : k.resumesCleanly = true)
    (h : k.kernelSignalReturn = some (r, k')) : Effect k .signalReturn k' := by
  obtain ⟨a, A, ctx, state, ha, hpop, hcases⟩ := signalReturn_cases h
  have hA := (active_eq_some.mp ha).2
  have hstate : state = .active ∨ state = .requesting ∧ A.messageQueue = [] := by
    simpa [resumesCleanly, ha, hpop] using hclean
  obtain ⟨hreq, rfl⟩ | ⟨hreq, -, r', hrec⟩ := hcases
  · obtain hact | ⟨hreq', -⟩ := hstate
    · refine .edit a A { A with ctx, state } hA ⟨⟨rfl, rfl, rfl⟩, ?_, rfl, fun _ => id⟩ rfl rfl rfl
        rfl rfl
      rw [hact, hactive a A ha]
    · exact absurd hreq' hreq
  · obtain hact | ⟨-, hempty⟩ := hstate
    · rw [hact] at hreq
      cases hreq
    · obtain ⟨a', A', ha', hcases⟩ := receive_cases hrec
      obtain ⟨hp, hblk⟩ := active_eq_some.mp ha'
      obtain rfl : a = a' := Option.some.inj ((active_eq_some.mp ha).1.symm.trans hp)
      have hself : (k.setProcess a { A with ctx, state }).processes a =
          some { A with ctx, state } := Function.update_self ..
      obtain rfl := Option.some.inj (hself.symm.trans hblk)
      obtain ⟨m, queue, memory, hq, -⟩ | ⟨-, hasync, -⟩ | ⟨hq, -, -, hadv⟩ := hcases
      · rw [show A.messageQueue = m :: queue from hq] at hempty
        cases hempty
      · exact absurd hasync (by decide)
      · refine .block a A (blocked { A with ctx, state } A.messageBuffer) _ ha ⟨rfl, rfl, rfl⟩
          rfl hq (.inl rfl) (Function.update_idem ..) ?_ ?_ ?_ hadv ?_ <;> rfl

/-- **What a step can do.**  Every step but the return from a signal has one of
the effects. -/
theorem step_effect {k k' : Kernel} {op : Op}
    (hsend : ∀ p P, k.processes p = some P → P.sendingQueue = []) (hop : op ≠ .signalReturn)
    (h : k.step op = some k') : Effect k op k' := by
  cases op with
  | programs memory =>
    cases h
    exact .idle rfl rfl rfl rfl rfl
  | spawn programEntry priority addressSpace alloc => exact effect_spawn h
  | advance => exact .advance (fun hsome => hsome) h
  | storeContext context =>
    obtain ⟨⟨r, k1⟩, hk, rfl⟩ := Option.map_eq_some_iff.mp h
    exact effect_storeContext hk
  | terminate processId =>
    obtain ⟨⟨r, k1⟩, hk, rfl⟩ := Option.map_eq_some_iff.mp h
    exact effect_terminate hsend hk
  | sendMessage recipient message =>
    obtain ⟨⟨r, k1⟩, hk, rfl⟩ := Option.map_eq_some_iff.mp h
    exact effect_sendMessage id hk
  | send recipient message flags alloc =>
    obtain ⟨⟨r, k1⟩, hk, rfl⟩ := Option.map_eq_some_iff.mp h
    exact effect_send hk
  | receive buffer flags =>
    obtain ⟨⟨r, k1⟩, hk, rfl⟩ := Option.map_eq_some_iff.mp h
    exact effect_receive hk
  | createPort id port node =>
    obtain ⟨⟨r, k1⟩, hk, rfl⟩ := Option.map_eq_some_iff.mp h
    obtain rfl | ⟨a, A, t, -, -, -, rfl⟩ := createPort_cases hk
    · exact .idle rfl rfl rfl rfl rfl
    · exact .idle rfl rfl rfl rfl rfl
  | removePort id =>
    obtain ⟨⟨r, k1⟩, hk, rfl⟩ := Option.map_eq_some_iff.mp h
    obtain rfl | ⟨port, a, A, t, -, -, -, -, rfl⟩ := removePort_cases hk
    · exact .idle rfl rfl rfl rfl rfl
    · exact .idle rfl rfl rfl rfl rfl
  | registerHandler interrupt handler userdata trampoline action node =>
    obtain ⟨⟨r, k1⟩, hk, rfl⟩ := Option.map_eq_some_iff.mp h
    obtain ⟨t, rfl⟩ := registerHandler_cases hk
    exact .idle rfl rfl rfl rfl rfl
  | removeHandler interrupt =>
    obtain ⟨⟨r, k1⟩, hk, rfl⟩ := Option.map_eq_some_iff.mp h
    obtain ⟨t, rfl⟩ := removeHandler_cases hk
    exact .idle rfl rfl rfl rfl rfl
  | executeHandler interrupt =>
    obtain ⟨⟨r, k1⟩, hk, rfl⟩ := Option.map_eq_some_iff.mp h
    exact effect_executeHandler hk
  | signalReturn => exact absurd rfl hop

end Kernel
end QuarkKernel
