import QuarkKernel.KernelSteps

/-! # Delivering a signal and returning from it

`kernel_execute_interrupt_handler` pushes 17 words on the stack of the process:
the signal's number, its context, its state, and the call of the handler
(`pushSignalFrame_eq`).  The context is copied after the stack pointer has been
moved, so the saved stack pointer is not the one the process had.  Once the handler
has returned the stack pointer is at the two arguments; `kernel_signal_return` has
to drop them, but `context_cleanup_func` moves the stack pointer down instead of
up, and everything is taken from four words below its place.  What comes back is
the context of before only if its registers repeat with that shift (`FrameFits`). -/
namespace QuarkKernel

open ByteMemory

namespace ProcessContext

/-- The context and the memory after `words` have been stored at the new `stack`. -/
def pushed (context : ProcessContext) (memory : Memory) (stack : Word) (words : List Word) :
    Option (ProcessContext × Memory) :=
  (storeWords memory stack words).map fun memory' => (context.setStackPointer stack, memory')

theorem pushed_bind {α : Type} (context : ProcessContext) (memory : Memory) (stack : Word)
    (words : List Word) (f : ProcessContext × Memory → Option α) :
    (context.pushed memory stack words).bind f =
      (storeWords memory stack words).bind fun memory' =>
        f (context.setStackPointer stack, memory') := by
  rw [pushed, Option.bind_map]
  rfl

theorem contextStackPush_setStackPointer (context : ProcessContext) (memory : Memory)
    (stack value : Word) :
    (context.setStackPointer stack).contextStackPush memory value =
      context.pushed memory (stack - 4) [value] := by
  rw [contextStackPush]
  simp only [getContextStack_setStackPointer, setStackPointer_setStackPointer]
  rw [pushed]
  rcases storeWords memory (stack - 4) [value] with _ | memory'
  · rfl
  · rfl

theorem contextStackPushStruct_setStackPointer (context : ProcessContext) (memory : Memory)
    (stack : Word) (data : ProcessContext → List Word) (size : Nat) :
    (context.setStackPointer stack).contextStackPushStruct memory data size =
      context.pushed memory (stack - BitVec.ofNat 32 (4 * size))
        (data (context.setStackPointer (stack - BitVec.ofNat 32 (4 * size)))) := by
  rw [contextStackPushStruct]
  simp only [getContextStack_setStackPointer, setStackPointer_setStackPointer]
  rw [pushed]
  rcases storeWords memory (stack - BitVec.ofNat 32 (4 * size)) _ with _ | memory'
  · rfl
  · rfl

theorem setStackPointer_getContextStack (context : ProcessContext) :
    context.setStackPointer context.getContextStack = context := by
  obtain ⟨gpRegisters, ss, cs, eip, flags⟩ := context
  simp [setStackPointer, getContextStack]

/-- A call leaves the program counter aside while it pushes. -/
theorem contextCallFunc_setStackPointer (context : ProcessContext) (memory : Memory)
    (stack funcPtr retPtr first second : Word) :
    (context.setStackPointer stack).contextCallFunc memory funcPtr retPtr [first, second] =
      (storeWords memory (stack - 4) [first]).bind fun memory =>
        (storeWords memory (stack - 4 - 4) [second]).bind fun memory =>
          { context with eip := funcPtr }.pushed memory (stack - 4 - 4 - 4) [retPtr] := by
  have hmove : { context.setStackPointer stack with eip := funcPtr } =
      { context with eip := funcPtr }.setStackPointer stack := rfl
  rw [contextCallFunc, hmove]
  simp only [pushArguments, contextStackPush_setStackPointer, Option.bind_eq_bind, pushed_bind,
    Option.bind_assoc, Option.bind_some]

end ProcessContext

namespace ProcessState

theorem ofWord_toWord (state : ProcessState) :
    ofWord state.toWord = state := by
  cases state with
  | active => rfl
  | requesting => rfl
  | sending => rfl
  | other word large => exact dif_pos large

theorem toWord_ofWord (word : Word) : (ofWord word).toWord = word := by
  rw [ofWord]
  split
  · rfl
  · rename_i hsmall
    split
    · rename_i hzero
      exact hzero.symm
    · rename_i hzero
      split
      · rename_i hone
        exact hone.symm
      · rename_i hone
        apply BitVec.eq_of_toNat_eq
        have h0 : word.toNat ≠ 0 := fun h => hzero (BitVec.eq_of_toNat_eq h)
        have h1 : word.toNat ≠ 1 := fun h => hone (BitVec.eq_of_toNat_eq h)
        show 2 = word.toNat
        omega

end ProcessState

namespace Kernel

/-- The words on the stack when the handler starts, from the stack pointer up. -/
def signalFrame (interrupt : Word) (action : SignalAction) (process : Process) : List Word :=
  let stack := process.ctx.getContextStack
  action.trampolinePtr :: (stack - 4) :: action.userdata :: process.state.toWord ::
    ((process.ctx.setStackPointer (stack - 52)).toWords ++ [interrupt])

@[simp] theorem length_signalFrame (interrupt : Word) (action : SignalAction) (process : Process) :
    (signalFrame interrupt action process).length = 17 := by
  simp [signalFrame, ProcessContext.sizeInWords]

/-- A block whose first word goes below the others. -/
theorem storeWords_sub_four (memory : Memory) (stack word : Word) {words : List Word}
    (hlen : 4 * (words.length + 1) ≤ 2 ^ 32) :
    storeWords memory (stack - 4) (word :: words) =
      (storeWords memory stack words).bind fun m => storeWords m (stack - 4) [word] := by
  have hback : addrAt (stack - 4) (4 * [word].length) = stack := BitVec.sub_add_cancel ..
  have happend := storeWords_append memory (stack - 4) (l := [word]) (r := words)
    (by rw [List.length_singleton]; omega) (by simp)
  rw [hback] at happend
  exact happend

/-- The saved context goes below the signal's number. -/
theorem storeWords_context (memory : Memory) (stack interrupt : Word) (context : ProcessContext) :
    storeWords memory (stack - 52) (context.toWords ++ [interrupt]) =
      (storeWords memory (stack - 4) [interrupt]).bind fun m =>
        storeWords m (stack - 52) context.toWords := by
  have hback : addrAt (stack - 52) (4 * context.toWords.length) = stack - 4 := by
    rw [ProcessContext.length_toWords, ProcessContext.sizeInWords, addrAt]
    bv_omega
  have happend := storeWords_append memory (stack - 52) (l := context.toWords) (r := [interrupt])
    (by simp [ProcessContext.sizeInWords]) (by simp [ProcessContext.sizeInWords])
  rw [hback] at happend
  exact happend

/-- **The frame.** -/
theorem pushSignalFrame_eq (interrupt : Word) (action : SignalAction) (process : Process)
    (memory : Memory) :
    pushSignalFrame interrupt action process memory =
      { process.ctx with eip := action.funcPtr }.pushed memory (process.ctx.getContextStack - 68)
        (signalFrame interrupt action process) := by
  rw [pushSignalFrame]
  obtain ⟨pid, priority, pageTable, state, sendingQueue, messageQueue, messageBuffer, ctx⟩ := process
  simp only
  nth_rewrite 1 [← ctx.setStackPointer_getContextStack]
  simp only [signalFrame]
  generalize ctx.getContextStack = stack
  simp only [ProcessContext.contextStackPushStruct_setStackPointer,
    ProcessContext.contextStackPush_setStackPointer, ProcessContext.contextCallFunc_setStackPointer,
    ProcessContext.pushed_bind, Option.bind_eq_bind, ProcessContext.getContextStack_setStackPointer]
  have h52 : stack - BitVec.ofNat 32 (4 * 1) - BitVec.ofNat 32 (4 * ProcessContext.sizeInWords) =
      stack - 52 := by
    rw [ProcessContext.sizeInWords]
    bv_omega
  have h68 : stack - 68 = stack - 52 - 4 - 4 - 4 - 4 := by bv_omega
  rw [h52, h68, ProcessContext.pushed,
    storeWords_sub_four _ _ _ (by simp [ProcessContext.sizeInWords]),
    storeWords_sub_four _ _ _ (by simp [ProcessContext.sizeInWords]),
    storeWords_sub_four _ _ _ (by simp [ProcessContext.sizeInWords]),
    storeWords_sub_four _ _ _ (by simp [ProcessContext.sizeInWords]), storeWords_context]
  simp only [Option.bind_assoc, Option.map_bind, Function.comp_def]
  rfl

/-! ### What comes back -/

/-- The process holds the context and the state it had in `P` after a return from a
signal. -/
def RoundTrip (k : Kernel) (p : Ptr) (P : Process) : Prop :=
  ∃ r k' R, k.kernelSignalReturn = some (r, k') ∧ k'.processes p = some R ∧
    R.ctx = P.ctx ∧ R.state = P.state

/-- A process that receives again stays `PROCESS_REQUESTING`. -/
theorem state_receive {k k' : Kernel} {buffer flags : Word} {r : Option Status} {a : Ptr}
    {A R : Process} (hactive : k.active = some (a, A)) (hstate : A.state = .requesting)
    (h : k.receiveMessage buffer flags = some (r, k')) (hR : k'.processes a = some R) :
    R.state = .requesting := by
  obtain ⟨a', A', hactive', hcases⟩ := receive_cases h
  cases hactive.symm.trans hactive'
  obtain ⟨m, queue, memory, -, -, -, rfl⟩ | ⟨-, -, -, rfl⟩ | ⟨-, -, -, hadv⟩ := hcases
  · have hR : (k.setProcess a { A with messageQueue := queue }).processes a = some R := hR
    rw [setProcess_self] at hR
    cases hR
    exact hstate
  · cases (active_eq_some.mp hactive).2.symm.trans hR
    exact hstate
  · obtain ⟨p, P, queue, -, rfl, -⟩ := advance_cases hadv
    have hR : (k.setProcess a (blocked A buffer)).processes a = some R := hR
    rw [setProcess_self] at hR
    cases hR
    rfl

/-- All depends on what is popped. -/
theorem roundTrip_iff_pop {k : Kernel} {p : Ptr} {P Q : Process}
    (hactive : k.active = some (p, Q)) (hstate : P.state ≠ .requesting) :
    RoundTrip k p P ↔ popSignalFrame Q (k.memory k.cr3) = some (P.ctx, P.state) := by
  constructor
  · rintro ⟨r, k', R, hret, hR, hctx, hRstate⟩
    obtain ⟨a, A, ctx, state, ha, hpop, hcases⟩ := signalReturn_cases hret
    cases hactive.symm.trans ha
    obtain ⟨-, rfl⟩ | ⟨hreq, -, r', hrec⟩ := hcases
    · rw [setProcess_self] at hR
      cases hR
      rw [hpop, ← hctx, ← hRstate]
    · have hset : (k.setProcess p { Q with ctx, state }).active = some (p, { Q with ctx, state }) :=
        active_eq_some.mpr ⟨(active_eq_some.mp ha).1, setProcess_self ..⟩
      have hreq' := state_receive hset hreq hrec hR
      exact absurd (hRstate.symm.trans hreq') hstate
  · intro hpop
    refine ⟨some .enone, k.setProcess p { Q with ctx := P.ctx, state := P.state },
      { Q with ctx := P.ctx, state := P.state }, ?_, setProcess_self .., rfl, rfl⟩
    rw [kernelSignalReturn, hactive]
    simp only [Option.bind_eq_bind, Option.bind_some, hpop, if_neg hstate]

/-! ### Delivery -/

/-- Interrupt `interrupt` is delivered to process `p`, whose block was `P`. -/
structure Delivered (k : Kernel) (interrupt : Word) (p : Ptr) (P : Process) (k' : Kernel) : Prop where
  process : k.processes p = some P
  handler : ∃ action, k.interruptHandlers.avlGet interrupt.toInt = some action ∧
    k.lookup action.pid = some p
  delivery : k.kernelExecuteInterruptHandler interrupt = some (.enone, k')

/-- The process `p` is active again after its handler has run and popped its return
address.  The 56 bytes of the saved state, context and signal number are as the
delivery left them; all other memory, and the other processes, may have changed. -/
structure HandlerReturned (k : Kernel) (p : Ptr) (P : Process) (k' : Kernel) (Q : Process) :
    Prop where
  active : k'.active = some (p, Q)
  space : k'.cr3 = P.pageTable
  stack : ∃ R, k.processes p = some R ∧ Q.ctx.getContextStack = R.ctx.getContextStack + 4
  frame : ∀ i, i < 56 → k'.memory P.pageTable (addrAt (P.ctx.getContextStack - 56) i) =
    k.memory P.pageTable (addrAt (P.ctx.getContextStack - 56) i)

/-- What the delivery leaves on the stack and in the block. -/
theorem Delivered.result {k k' : Kernel} {interrupt : Word} {p : Ptr} {P : Process}
    (h : Delivered k interrupt p P k') :
    ∃ action ctx, storeWords (k.memory P.pageTable) (P.ctx.getContextStack - 68)
        (signalFrame interrupt action P) = some (k'.memory P.pageTable) ∧
      ctx.getContextStack = P.ctx.getContextStack - 68 ∧
      k'.processes p = some { P with ctx, state := .active } := by
  obtain ⟨hP, ⟨action, haction, hp⟩, hdeliver⟩ := h
  refine ⟨action, { P.ctx with eip := action.funcPtr }.setStackPointer
    (P.ctx.getContextStack - 68), ?_⟩
  rw [kernelExecuteInterruptHandler, haction] at hdeliver
  simp only [hp] at hdeliver
  obtain ⟨P', hP', hdeliver⟩ := Option.bind_eq_some_iff.mp hdeliver
  cases hP.symm.trans hP'
  obtain ⟨⟨ctx, memory⟩, hpush, hdeliver⟩ := Option.bind_eq_some_iff.mp hdeliver
  obtain ⟨⟨c, C⟩, -, hdeliver⟩ := Option.bind_eq_some_iff.mp hdeliver
  have hpush : pushSignalFrame interrupt action P (k.memory P.pageTable) = some (ctx, memory) :=
    hpush
  rw [pushSignalFrame_eq, ProcessContext.pushed, Option.map_eq_some_iff] at hpush
  obtain ⟨memory', hstore, hpair⟩ := hpush
  cases hpair
  cases hdeliver
  refine ⟨?_, ProcessContext.getContextStack_setStackPointer _ _, ?_⟩
  · have hmemory : ((k.loadAddressSpace P.pageTable).setMemory P.pageTable memory).memory
        P.pageTable = memory := Function.update_self ..
    rw [hstore]
    split
    · exact congrArg some hmemory.symm
    · exact congrArg some hmemory.symm
  · split
    · exact setProcess_self ..
    · exact setProcess_self ..

/-! ### The exact condition -/

/-- Context and state are what `kernel_signal_return` makes of the stack: the state is
the word 72 bytes below the stack pointer, the first three registers are the three
words above that, the fourth is the state again, and every later word of the
context repeats the one four places before, up to the stack pointer that was
saved. -/
def FrameFits (P : Process) (memory : Memory) : Prop :=
  loadWords memory (P.ctx.getContextStack - 72) 4 =
      some (P.state.toWord :: P.ctx.toWords.take 3) ∧
    P.ctx.toWords.drop 3 =
      P.state.toWord :: P.ctx.toWords.take 7 ++ [P.ctx.getContextStack - 52]

/-- The part of the frame that `kernel_signal_return` still reads. -/
theorem signalFrame_part (interrupt : Word) (action : SignalAction) (P : Process) :
    ((signalFrame interrupt action P).drop 3).take 9 =
      P.state.toWord :: P.ctx.toWords.take 7 ++ [P.ctx.getContextStack - 52] := by
  obtain ⟨a, b, c, d, e, f, g, h, hgp⟩ := P.ctx.exists_registers
  obtain ⟨pid, priority, pageTable, state, sendingQueue, messageQueue, messageBuffer, ctx⟩ := P
  obtain ⟨gpRegisters, ss, cs, eip, flags⟩ := ctx
  subst hgp
  rfl

/-- What is popped, word for word. -/
theorem popSignalFrame_eq {Q : Process} {stack : Word} (hstack : Q.ctx.getContextStack = stack - 64)
    (memory : Memory) :
    popSignalFrame Q memory = (loadWords memory (stack - 72) 13).map fun words =>
      (ProcessContext.ofWords (words.drop 1), ProcessState.ofWord (words.getD 0 0)) := by
  have hclean : Q.ctx.contextCleanupFunc 2 = Q.ctx.setStackPointer (stack - 72) := by
    rw [ProcessContext.contextCleanupFunc, hstack]
    congr 1
    bv_omega
  have hnext : addrAt (stack - 72) (4 * 1) = stack - 72 + 4 := rfl
  rw [popSignalFrame, hclean, loadWords_append memory (stack - 72) 1 12, hnext]
  simp only [ProcessContext.contextStackPop, ProcessContext.contextStackPopStruct,
    ProcessContext.getContextStack_setStackPointer, ProcessContext.sizeInWords]
  generalize stack - 72 + 4 = next
  rcases hword : loadWords memory (stack - 72) 1 with _ | word
  · rfl
  · rcases hwords : loadWords memory next 12 with _ | words
    · simp [hwords]
    · have hlen := length_of_loadWords hword
      obtain ⟨w, rfl⟩ := List.length_eq_one_iff.mp hlen
      simp [hwords]

/-- The registers after the return, as the words that were popped. -/
theorem popSignalFrame_iff {P Q : Process} {memory : Memory}
    (hstack : Q.ctx.getContextStack = P.ctx.getContextStack - 64)
    (hframe : loadWords memory (P.ctx.getContextStack - 56) 9 =
      some (P.state.toWord :: P.ctx.toWords.take 7 ++ [P.ctx.getContextStack - 52])) :
    popSignalFrame Q memory = some (P.ctx, P.state) ↔ FrameFits P memory := by
  have hnext : addrAt (P.ctx.getContextStack - 72) (4 * 4) = P.ctx.getContextStack - 56 := by
    rw [addrAt]
    bv_omega
  rw [popSignalFrame_eq hstack, show 13 = 4 + 9 from rfl, loadWords_append, hnext, hframe, FrameFits]
  -- what is popped begins below the frame: four words decide, the others are known
  rcases hwords : loadWords memory (P.ctx.getContextStack - 72) 4 with _ | words
  · simp
  · have hlen := length_of_loadWords hwords
    obtain ⟨w, a, b, c, rfl⟩ := List.length_eq_four.mp hlen
    have hstate : ProcessState.ofWord w = P.state ↔ w = P.state.toWord := by
      constructor
      · rintro hw
        rw [← hw, ProcessState.toWord_ofWord]
      · rintro rfl
        exact ProcessState.ofWord_toWord P.state
    have hsplit : ∀ rest : List Word, [a, b, c] ++ rest = P.ctx.toWords ↔
        [a, b, c] = P.ctx.toWords.take 3 ∧ P.ctx.toWords.drop 3 = rest := by
      intro rest
      constructor
      · intro h
        rw [← h]
        exact ⟨rfl, rfl⟩
      · rintro ⟨hl, hr⟩
        rw [hl, ← hr, List.take_append_drop]
    have hlength : ([a, b, c] ++ (P.state.toWord :: P.ctx.toWords.take 7 ++
        [P.ctx.getContextStack - 52])).length = ProcessContext.sizeInWords := by
      simp [ProcessContext.sizeInWords]
    have hctx := (ProcessContext.ofWords_eq_iff hlength P.ctx).trans (hsplit _)
    simp only [Option.bind_some, Option.map_some, Option.some.injEq, List.cons_append,
      List.nil_append, List.drop_succ_cons, List.drop_zero, List.getD_cons_zero,
      Prod.mk.injEq, List.cons.injEq] at hctx ⊢
    rw [hctx, hstate]
    tauto

/-- **Signal delivery round trip.**  However the delivery and the handler went: after
`kernel_signal_return` the process has the context and the state of before the
delivery if and only if the stack and the registers of before happen to fit. -/
theorem roundTrip_iff {k k1 k2 : Kernel} {interrupt : Word} {p : Ptr} {P Q : Process}
    (hstate : P.state ≠ .requesting) (hdeliver : Delivered k interrupt p P k1)
    (hreturn : HandlerReturned k1 p P k2 Q) :
    RoundTrip k2 p P ↔ FrameFits P (k2.memory P.pageTable) := by
  obtain ⟨action, ctx, hstore, hctx, hR⟩ := hdeliver.result
  have hstack : Q.ctx.getContextStack = P.ctx.getContextStack - 64 := by
    obtain ⟨R, hR', hQ⟩ := hreturn.stack
    cases hR.symm.trans hR'
    rw [hQ, hctx]
    bv_omega
  have hload := loadWords_storeWords (by simp) hstore
  rw [length_signalFrame] at hload
  have hnext : addrAt (P.ctx.getContextStack - 68) (4 * 3) = P.ctx.getContextStack - 56 := by
    rw [addrAt]
    bv_omega
  have hpart := loadWords_take 9 5 (loadWords_drop 3 14 hload)
  rw [hnext, signalFrame_part] at hpart
  have hframe : loadWords (k2.memory P.pageTable) (P.ctx.getContextStack - 56) 9 =
      some (P.state.toWord :: P.ctx.toWords.take 7 ++ [P.ctx.getContextStack - 52]) := by
    rw [← hpart]
    exact loadWords_congr fun i hi => hreturn.frame i (by omega)
  rw [roundTrip_iff_pop hreturn.active hstate, hreturn.space]
  exact popSignalFrame_iff hstack hframe

/-- Process 1 has a handler for interrupt 5; process 2 is active. -/
def handlerRun : List Op :=
  [.spawn 0x8000 1 0x1000 (.succeeds 1 fun _ => 0), .spawn 0x9000 1 0x1000 (.succeeds 2 fun _ => 0),
    .advance, .registerHandler 5 0xA000 0xB000 0xC000 true true, .advance]

/-- Process 1 is entered and calls the kernel when its handler has returned. -/
def handlerReturnRun : List Op :=
  [.advance, .storeContext (ProcessContext.zero.setContextStack (kernelStart - 64))]

/-- What there is to check about the run, `returned` about its last state. -/
def signalRun (returned : Kernel → Process → Bool) : Bool :=
  (Transition.System.runFrom Transition.anyStep step bare handlerRun).any fun k =>
    k.activeProcess = some 2 && (k.processes 1).any fun P =>
      P.state ≠ .requesting && (k.interruptHandlers.avlGet 5).any fun action =>
        k.lookup action.pid = some 1 && (k.kernelExecuteInterruptHandler 5).any fun result =>
          result.1 = .enone && (result.2.processes 1).any fun R =>
            (Transition.System.runFrom Transition.anyStep step result.2 handlerReturnRun).any fun k' =>
              k'.active.any fun active =>
                active.1 = 1 && k'.cr3 = P.pageTable &&
                  active.2.ctx.getContextStack = R.ctx.getContextStack + 4 &&
                  ((List.range 56).all fun i =>
                    k'.memory P.pageTable (addrAt (P.ctx.getContextStack - 56) i) =
                      result.2.memory P.pageTable (addrAt (P.ctx.getContextStack - 56) i)) &&
                  returned k' P

theorem exists_of_signalRun {returned : Kernel → Process → Bool} (h : signalRun returned = true) :
    ∃ k k1 k2 P Q, system.Reachable Transition.anyStep k ∧ k.activeProcess ≠ some 1 ∧
      P.state ≠ .requesting ∧ Delivered k 5 1 P k1 ∧ HandlerReturned k1 1 P k2 Q ∧
      returned k2 P = true := by
  obtain ⟨k, hk, h⟩ := (Option.any_eq_true _ _).mp h
  obtain ⟨hactive, h⟩ := Bool.and_eq_true_iff.mp h
  obtain ⟨P, hP, h⟩ := (Option.any_eq_true _ _).mp h
  obtain ⟨hstate, h⟩ := Bool.and_eq_true_iff.mp h
  obtain ⟨action, haction, h⟩ := (Option.any_eq_true _ _).mp h
  obtain ⟨hlookup, h⟩ := Bool.and_eq_true_iff.mp h
  obtain ⟨⟨r, k1⟩, hdeliver, h⟩ := (Option.any_eq_true _ _).mp h
  obtain ⟨hr, h⟩ := Bool.and_eq_true_iff.mp h
  obtain ⟨R, hR, h⟩ := (Option.any_eq_true _ _).mp h
  obtain ⟨k2, -, h⟩ := (Option.any_eq_true _ _).mp h
  obtain ⟨⟨a, Q⟩, ha, h⟩ := (Option.any_eq_true _ _).mp h
  simp only [Bool.and_eq_true, decide_eq_true_eq, List.all_eq_true, List.mem_range]
    at hactive hstate hlookup hr h
  obtain ⟨⟨⟨⟨rfl, hcr3⟩, hstack⟩, hframe⟩, hreturned⟩ := h
  subst hr
  refine ⟨k, k1, k2, P, Q, .runFrom _ _ (.init boot_bare) hk, ?_, hstate,
    ⟨hP, ⟨action, haction, hlookup⟩, hdeliver⟩, ⟨ha, hcr3, ⟨R, hR, hstack⟩, hframe⟩, hreturned⟩
  rw [hactive]
  decide

/-- The handler returns, and the process goes on somewhere else. -/
theorem signalRun_elsewhere : signalRun (fun k P => k.kernelSignalReturn.all fun result =>
    (result.2.processes 1).all fun R => R.ctx.eip ≠ P.ctx.eip) = true := by
  decide +kernel

theorem roundTrip_iff_signalRun :
    ∃ k k1 k2 P Q, system.Reachable Transition.anyStep k ∧ k.activeProcess ≠ some 1 ∧
      Delivered k 5 1 P k1 ∧ HandlerReturned k1 1 P k2 Q ∧
      (RoundTrip k2 1 P ↔ FrameFits P (k2.memory P.pageTable)) := by
  obtain ⟨k, k1, k2, P, Q, hreach, hne, hstate, hdeliver, hreturn, -⟩ :=
    exists_of_signalRun signalRun_elsewhere
  exact ⟨k, k1, k2, P, Q, hreach, hne, hdeliver, hreturn, roundTrip_iff hstate hdeliver hreturn⟩

/-- The process started at 0x8000 with its stack pointer at the top of its stack; it
comes back with another program counter. -/
theorem not_roundTrip_signalRun :
    ¬ ∀ k k1 k2 interrupt p P Q, system.Reachable Transition.anyStep k →
      k.activeProcess ≠ some p → P.state ≠ .requesting → Delivered k interrupt p P k1 →
      HandlerReturned k1 p P k2 Q → RoundTrip k2 p P := by
  intro hall
  obtain ⟨k, k1, k2, P, Q, hreach, hne, hstate, hdeliver, hreturn, hother⟩ :=
    exists_of_signalRun signalRun_elsewhere
  obtain ⟨r, k3, R, hret, hR, hctx, -⟩ :=
    hall k k1 k2 5 1 P Q hreach hne hstate hdeliver hreturn
  rw [hret, Option.all_some, hR, Option.all_some, decide_eq_true_eq, hctx] at hother
  exact hother rfl

end Kernel
end QuarkKernel
