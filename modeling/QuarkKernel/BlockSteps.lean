import QuarkKernel.ReadyOnce

/-! # What a step does to one block

Every call changes the blocks of few processes, and each in one of few ways.
`BlockStep` lists the ways, `step_blockStep` says that there are no others: what is said
about the life of one process, whatever the others do, is a case analysis over
these. -/
namespace QuarkKernel
namespace Kernel

/-- The parts of a block that a return from a signal leaves alone. -/
structure SamePlace (P P' : Process) : Prop extends SameIdentity P P' where
  pageTable : P'.pageTable = P.pageTable
  messageBuffer : P'.messageBuffer = P.messageBuffer

/-- How the block at `p` can change in a step. -/
inductive BlockStep (k : Kernel) (op : Op) (p : Ptr) : Option Process → Option Process → Prop
  | keeps (block : Option Process) : BlockStep k op p block block
  | spawned {programEntry addressSpace : Word} {priority : Int} {alloc : SpawnAlloc}
      (hop : op = .spawn programEntry priority addressSpace alloc)
      (halloc : alloc.process = some p) :
      BlockStep k op p none (some (newProcess k.nextPid programEntry priority addressSpace))
  | ended (P : Process) {pid : Word} (hop : op = .terminate pid)
      (hlookup : k.lookup pid = some p) : BlockStep k op p (some P) none
  | stored (P : Process) {ctx : ProcessContext} (hop : op = .storeContext ctx)
      (hactive : k.activeProcess = some p) : BlockStep k op p (some P) (some { P with ctx })
  | delivered (P : Process) (hwait : waiting P = true) :
      BlockStep k op p (some P) (some (delivered P))
  | queued (P : Process) (message : Message) :
      BlockStep k op p (some P) (some { P with messageQueue := P.messageQueue ++ [message] })
  | took (P : Process) {message : Message} {messageQueue : List Message}
      (hactive : k.activeProcess = some p) (hqueue : P.messageQueue = message :: messageQueue) :
      BlockStep k op p (some P) (some { P with messageQueue })
  | blocked (P : Process) {buffer flags : Word} (hop : op = .receive buffer flags)
      (hactive : k.activeProcess = some p) : BlockStep k op p (some P) (some (blocked P buffer))
  | interrupted (P : Process) (ctx : ProcessContext) {interrupt : Word} {action : SignalAction}
      (hop : op = .executeHandler interrupt)
      (haction : k.interruptHandlers.avlGet interrupt.toInt = some action)
      (hlookup : k.lookup action.pid = some p) :
      BlockStep k op p (some P) (some { P with ctx, state := .active })
  | returned {P P' : Process} (hop : op = .signalReturn) (hactive : k.activeProcess = some p)
      (hsame : SamePlace P P') : BlockStep k op p (some P) (some P')

variable {k k' : Kernel} {op : Op}

/-- One block changes. -/
theorem BlockStep.update {q : Ptr} {X Y : Option Process} (hq : k.processes q = X)
    (hproc : k'.processes = Function.update k.processes q Y) (h : BlockStep k op q X Y) (p : Ptr) :
    BlockStep k op p (k.processes p) (k'.processes p) := by
  rw [hproc]
  by_cases hpq : p = q
  · subst hpq
    rw [Function.update_self, hq]
    exact h
  · rw [Function.update_of_ne hpq]
    exact .keeps _

/-- No block changes. -/
theorem BlockStep.of_eq (hproc : k'.processes = k.processes) (p : Ptr) :
    BlockStep k op p (k.processes p) (k'.processes p) := by
  rw [hproc]
  exact .keeps _

theorem blockStep_sendMessage {recipient message : Word} {r : Status}
    (h : k.kernelSendMessage recipient message = some (r, k')) (p : Ptr) :
    BlockStep k op p (k.processes p) (k'.processes p) := by
  obtain ⟨-, -, rfl⟩ | ⟨-, -, -, -, -, -, rfl⟩ |
    ⟨d, D, a, A, m, memory, -, -, hD, hwait, -, -, -, rfl⟩ := sendMessage_cases h
  · exact .of_eq rfl p
  · exact .of_eq rfl p
  · exact .update hD rfl (.delivered D hwait) p

theorem blockStep_signalReturn {r : Option Status} (h : k.kernelSignalReturn = some (r, k'))
    (p : Ptr) : BlockStep k .signalReturn p (k.processes p) (k'.processes p) := by
  obtain ⟨a, A, ctx, state, ha, -, hcases⟩ := signalReturn_cases h
  obtain ⟨hactive, hA⟩ := active_eq_some.mp ha
  obtain ⟨-, rfl⟩ | ⟨-, -, r', hrec⟩ := hcases
  · have hsame : SamePlace A { A with ctx, state } := ⟨⟨rfl, rfl, rfl⟩, rfl, rfl⟩
    exact .update hA rfl (.returned rfl hactive hsame) p
  · -- it receives again: from the queue, or it blocks on the buffer it has
    obtain ⟨b, B, hb, hcases⟩ := receive_cases hrec
    obtain ⟨hactive', hB⟩ := active_eq_some.mp hb
    obtain rfl : a = b := Option.some.inj (hactive.symm.trans hactive')
    rw [setProcess_self] at hB
    obtain rfl := Option.some.inj hB
    obtain ⟨m, queue, memory, -, -, -, rfl⟩ | ⟨-, hasync, -⟩ | ⟨-, -, -, hadv⟩ := hcases
    · have hsame : SamePlace A { A with ctx, state, messageQueue := queue } :=
        ⟨⟨rfl, rfl, rfl⟩, rfl, rfl⟩
      exact .update hA (Function.update_idem ..) (.returned rfl hactive hsame) p
    · exact absurd hasync (by decide)
    · -- it blocks again, and another process is entered
      have hsame : SamePlace A (blocked { A with ctx, state } A.messageBuffer) :=
        ⟨⟨rfl, rfl, rfl⟩, rfl, rfl⟩
      exact .update hA ((advance_occupied hadv).1.trans (Function.update_idem ..))
        (.returned rfl hactive hsame) p

/-- **What a step can do to the blocks.** -/
theorem step_blockStep (hw : k.WellFormed) (h : k.step op = some k') (p : Ptr) :
    BlockStep k op p (k.processes p) (k'.processes p) := by
  cases op with
  | programs memory =>
    cases h
    exact .of_eq rfl p
  | spawn programEntry priority addressSpace alloc =>
    rw [step] at h
    split at h
    · rename_i hfresh
      obtain ⟨⟨r, k1⟩, hk, rfl⟩ := Option.map_eq_some_iff.mp h
      obtain ⟨-, rfl⟩ | ⟨q, memory, table, hq, -, -, -, rfl⟩ := spawn_cases hk
      · exact .of_eq rfl p
      · -- the block was free, so it is the new process that is there now
        exact .update (processes_of_fresh hfresh hq) rfl (.spawned rfl hq) p
    · cases h
  | advance =>
    exact .of_eq (advance_occupied h).1 p
  | storeContext context =>
    obtain ⟨⟨r, k1⟩, hk, rfl⟩ := Option.map_eq_some_iff.mp h
    obtain rfl | ⟨a, A, ha, rfl⟩ := storeContext_cases hk
    · exact .of_eq rfl p
    · obtain ⟨hactive, hA⟩ := active_eq_some.mp ha
      exact .update hA rfl (.stored A rfl hactive) p
  | terminate processId =>
    obtain ⟨⟨r, k1⟩, hk, rfl⟩ := Option.map_eq_some_iff.mp h
    obtain ⟨-, -, rfl⟩ | ⟨q, Q, table, queue, -, hlookup, hQ, -, -, -, -, rfl⟩ :=
      terminate_cases hw.sending hk
    · exact .of_eq rfl p
    · exact .update hQ rfl (.ended Q rfl hlookup) p
  | sendMessage recipient message =>
    obtain ⟨⟨r, k1⟩, hk, rfl⟩ := Option.map_eq_some_iff.mp h
    exact blockStep_sendMessage hk p
  | send recipient message flags alloc =>
    obtain ⟨⟨r, k1⟩, hk, rfl⟩ := Option.map_eq_some_iff.mp h
    obtain ⟨-, rfl⟩ | ⟨-, -, hs⟩ | ⟨-, -, hq⟩ := send_cases hk
    · exact .of_eq rfl p
    · exact blockStep_sendMessage hs p
    · obtain ⟨-, -, rfl⟩ | ⟨-, -, rfl⟩ | ⟨-, -, -, -, -, -, -, -, -, rfl⟩ |
        ⟨d, D, a, A, m, -, -, -, hD, -, -, rfl⟩ := queueMessage_cases hq
      · exact .of_eq rfl p
      · exact .of_eq rfl p
      · exact .of_eq rfl p
      · exact .update hD rfl (.queued D m) p
  | receive buffer flags =>
    obtain ⟨⟨r, k1⟩, hk, rfl⟩ := Option.map_eq_some_iff.mp h
    obtain ⟨a, A, ha, hcases⟩ := receive_cases hk
    obtain ⟨hactive, hA⟩ := active_eq_some.mp ha
    obtain ⟨m, queue, memory, hqueue, -, -, rfl⟩ | ⟨-, -, -, rfl⟩ | ⟨-, -, -, hadv⟩ := hcases
    · exact .update hA rfl (.took A hactive hqueue) p
    · exact .of_eq rfl p
    · exact .update hA (advance_occupied hadv).1 (.blocked A rfl hactive) p
  | createPort id port node =>
    obtain ⟨⟨r, k1⟩, hk, rfl⟩ := Option.map_eq_some_iff.mp h
    obtain rfl | ⟨a, A, t, -, -, -, rfl⟩ := createPort_cases hk
    · exact .of_eq rfl p
    · exact .of_eq rfl p
  | removePort id =>
    obtain ⟨⟨r, k1⟩, hk, rfl⟩ := Option.map_eq_some_iff.mp h
    obtain rfl | ⟨port, a, A, t, -, -, -, -, rfl⟩ := removePort_cases hk
    · exact .of_eq rfl p
    · exact .of_eq rfl p
  | registerHandler interrupt handler userdata trampoline action node =>
    obtain ⟨⟨r, k1⟩, hk, rfl⟩ := Option.map_eq_some_iff.mp h
    obtain ⟨t, rfl⟩ := registerHandler_cases hk
    exact .of_eq rfl p
  | removeHandler interrupt =>
    obtain ⟨⟨r, k1⟩, hk, rfl⟩ := Option.map_eq_some_iff.mp h
    obtain ⟨t, rfl⟩ := removeHandler_cases hk
    exact .of_eq rfl p
  | executeHandler interrupt =>
    obtain ⟨⟨r, k1⟩, hk, rfl⟩ := Option.map_eq_some_iff.mp h
    obtain ⟨t, rfl⟩ | ⟨action, q, Q, ctx, memory, cr3, haction, hlookup, hQ, -, rfl⟩ :=
      executeHandler_cases hk
    · exact .of_eq rfl p
    · exact .update hQ rfl (.interrupted Q ctx rfl haction hlookup) p
  | signalReturn =>
    obtain ⟨⟨r, k1⟩, hk, rfl⟩ := Option.map_eq_some_iff.mp h
    exact blockStep_signalReturn hk p

end Kernel
end QuarkKernel
