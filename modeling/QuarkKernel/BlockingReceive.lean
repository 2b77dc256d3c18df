import QuarkKernel.Preemption

/-! # Receiving at once and after a wait

`isr_syscall` of `x86/preempt.S` passes registers of the process that calls to
`do_syscall` and returns through the interrupt frame.  A `receive` that finds a
message returns that way.  One that does not never returns: the process is entered
by `load_context`, with the context in its block, in which `do_syscall` has set the
program counter, the stack pointer and the flags.  `%ebx` and `%edi`, which
`isr_syscall` preserves, are what the last preemption left there, or zero
(`receive_agrees_iff`). -/
namespace QuarkKernel

open ByteMemory X86

/-! ### `isr_syscall` -/

/-- `isr_syscall` up to the call of `do_syscall`. -/
def isrSyscallEntry : List Instr :=
  [.cli,
    .mov (.reg .esp) .ebp,
    .mov (.mem 8 .ebp) .esi, .push (.reg .esi),
    .mov (.mem 12 .ebp) .esi, .push (.reg .esi),
    .mov (.mem 0 .ebp) .esi, .push (.reg .esi),
    .push (.reg .edx), .push (.reg .ecx), .push (.reg .ebx), .push (.reg .eax),
    .mov16 (.imm 0x10) .eax,
    .movSeg .eax .ds, .movSeg .eax .es, .movSeg .eax .fs, .movSeg .eax .gs]

/-- `isr_syscall` from the return of `do_syscall` up to `iret`. -/
def isrSyscallExit : List Instr :=
  [.mov (.reg .ebp) .esp,
    .mov16 (.imm 0x23) .ecx,
    .movSeg .ecx .ds, .movSeg .ecx .es, .movSeg .ecx .fs, .movSeg .ecx .gs]

/-- The processor when `isr_syscall` calls `do_syscall`. -/
def syscallState (u : UserRegisters) (seg : DataSeg → BitVec 16) (memory : Memory) (top : Word) :
    Option State := do
  let s ← interrupt u seg memory top
  s.run isrSyscallEntry

/-- `isr_syscall` after the call, with the registers it goes back to the program
with. -/
def isrReturn (s : State) : Option UserRegisters := do
  iret (← s.run isrSyscallExit)

/-- `do_syscall` has returned `result` as the calling convention has it: with the
registers that a function preserves, and without touching the interrupt frame above
its arguments. -/
structure ReturnsFrom (called returned : State) (result : Word) : Prop where
  eax : returned.gpr.eax = result
  ebx : returned.gpr.ebx = called.gpr.ebx
  esi : returned.gpr.esi = called.gpr.esi
  edi : returned.gpr.edi = called.gpr.edi
  ebp : returned.gpr.ebp = called.gpr.ebp
  esp : returned.gpr.esp = called.gpr.esp
  frame : loadWords returned.memory called.gpr.ebp 5 = loadWords called.memory called.gpr.ebp 5

/-- The registers that `isr_syscall` preserves are the same. -/
structure SamePreserved (u v : UserRegisters) : Prop where
  ebx : v.gpr.ebx = u.gpr.ebx
  edi : v.gpr.edi = u.gpr.edi
  eip : v.eip = u.eip
  esp : v.gpr.esp = u.gpr.esp
  eflags : v.eflags = u.eflags

/-- What is on the stack when `do_syscall` is called, from its first argument on. -/
def syscallWords (u : UserRegisters) : List Word :=
  [u.gpr.eax, u.gpr.ebx, u.gpr.ecx, u.gpr.edx, u.eip, u.gpr.esp, u.eflags] ++ u.frame

/-- What `isr_syscall` has done when it calls `do_syscall`. -/
structure AtCall (u : UserRegisters) (called : State) : Prop where
  arguments : loadWords called.memory called.gpr.esp 7 =
    some [u.gpr.eax, u.gpr.ebx, u.gpr.ecx, u.gpr.edx, u.eip, u.gpr.esp, u.eflags]
  frame : loadWords called.memory called.gpr.ebp 5 = some u.frame
  ebx : called.gpr.ebx = u.gpr.ebx
  edi : called.gpr.edi = u.gpr.edi

section Entering
variable {memory : Memory} {top : Word} {u : UserRegisters}

theorem wp_isrSyscallEntry (u : UserRegisters) (seg : DataSeg → BitVec 16)
    (hroom : Room memory top 12) :
    (onStack memory top ⟨u.gpr, seg, false, memory⟩ u.frame).wp isrSyscallEntry
      fun t => ∃ s, t = onStack memory top s (syscallWords u) ∧ s.gpr.ebp = below top 5 ∧
        s.gpr.ebx = u.gpr.ebx ∧ s.gpr.edi = u.gpr.edi := by
  have hlen : u.frame.length = 5 := rfl
  have hframe : ∀ i : Nat, i ≤ 5 → below top 5 + BitVec.ofNat 32 (4 * i) = below top (5 - i) := by
    intro i hi
    exact addrAt_below top hi
  refine wp_cons rfl ?_
  refine wp_mov (w := below top 5) (by decide) rfl ?_
  refine wp_mov (by decide) (operand_mem_onStack (by decide) (by simp [hlen]) 3 (by decide)
    (by simp [hlen]) (hframe 2 (by decide))) ?_
  refine wp_push (w := u.eflags) hroom (by simp [hlen]) rfl ?_
  refine wp_mov (by decide) (operand_mem_onStack (by decide) (by simp [hlen]) 2 (by decide)
    (by simp [hlen]) (hframe 3 (by decide))) ?_
  refine wp_push (w := u.gpr.esp) hroom (by simp [hlen]) rfl ?_
  refine wp_mov (by decide) (operand_mem_onStack (by decide) (by simp [hlen]) 5 (by decide)
    (by simp [hlen]) (hframe 0 (by decide))) ?_
  refine wp_push (w := u.eip) hroom (by simp [hlen]) rfl ?_
  refine wp_push (w := u.gpr.edx) hroom (by simp [hlen]) rfl ?_
  refine wp_push (w := u.gpr.ecx) hroom (by simp [hlen]) rfl ?_
  refine wp_push (w := u.gpr.ebx) hroom (by simp [hlen]) rfl ?_
  refine wp_push (w := u.gpr.eax) hroom (by simp [hlen]) rfl ?_
  refine wp_mov16 (w := 0x10) (by decide) rfl fun w => ?_
  refine wp_movSeg fun _ => wp_movSeg fun _ => wp_movSeg fun _ => wp_movSeg fun _ => ?_
  exact wp_nil ⟨_, rfl, rfl, rfl, rfl⟩

/-- **What `do_syscall` is called with.** -/
theorem syscallState_eq (u : UserRegisters) (seg : DataSeg → BitVec 16)
    (hroom : Room memory top 12) :
    ∃ called, syscallState u seg memory top = some called ∧ AtCall u called := by
  obtain ⟨t, hrun, s, rfl, hebp, hebx, hedi⟩ := wp_isrSyscallEntry u seg hroom
  have hlen : 4 * (syscallWords u).length ≤ 2 ^ 32 := by
    show 4 * 12 ≤ 2 ^ 32
    decide
  refine ⟨onStack memory top s (syscallWords u), ?_, ?_, ?_, hebx, hedi⟩
  · rw [syscallState, interrupt_eq u seg hroom (by decide), Option.bind_eq_bind, Option.bind_some,
      hrun]
  · exact loadWords_stack memory top s hlen 0 7 (by decide : 0 + 7 ≤ 12)
  · show loadWords _ s.gpr.ebp 5 = _
    rw [hebp]
    exact loadWords_stack memory top s hlen 7 5 (by decide : 7 + 5 ≤ 12)

/-- **What `isr_syscall` goes back to the program with.** -/
theorem isrReturn_eq {called returned : State} {result : Word} (hcalled : AtCall u called)
    (h : ReturnsFrom called returned result) :
    ∃ v, isrReturn returned = some v ∧ SamePreserved u v ∧ v.gpr.eax = result := by
  obtain ⟨t, hrun, hmemory, hesp, heax, hebx, hedi⟩ :
      ∃ t, returned.run isrSyscallExit = some t ∧ t.memory = returned.memory ∧
        t.gpr.esp = returned.gpr.ebp ∧ t.gpr.eax = returned.gpr.eax ∧
        t.gpr.ebx = returned.gpr.ebx ∧ t.gpr.edi = returned.gpr.edi :=
    ⟨_, rfl, rfl, rfl, rfl, rfl, rfl⟩
  have hframe : loadWords t.memory t.gpr.esp 5 = some u.frame := by
    rw [hmemory, hesp, h.ebp, h.frame, hcalled.frame]
  refine ⟨{ u with gpr := t.gpr.set u.gpr.esp .esp }, ?_, ?_, heax.trans h.eax⟩
  · rw [isrReturn, hrun, Option.bind_eq_bind, Option.bind_some, iret_of_frame hframe]
  · exact ⟨(hebx.trans h.ebx).trans hcalled.ebx, (hedi.trans h.edi).trans hcalled.edi, rfl, rfl, rfl⟩

end Entering

/-! ### The context of a process that waits -/

namespace ProcessContext

/-- What `do_syscall` makes of the context of the process that calls. -/
def atSyscall (context : ProcessContext) (pc stack flags : Word) : ProcessContext :=
  ((context.setContextPc pc).setContextStack stack).setContextFlags flags

/-- The selector that `load_context` enters user mode with. -/
theorem isUserSelector_code : IsUserSelector 0x1B := by decide

/-- The registers a process is entered with that waited for a message. -/
def resumed (context : ProcessContext) (u : UserRegisters) : UserRegisters where
  gpr :=
    { eax := Status.enone.code
      ebx := context.gpRegisters[1]
      ecx := context.gpRegisters[2]
      edx := context.gpRegisters[3]
      edi := context.gpRegisters[4]
      esi := context.gpRegisters[5]
      ebp := context.gpRegisters[6]
      esp := u.gpr.esp }
  eip := u.eip
  eflags := u.eflags
  cs := 0x1B
  ss := 0x23
  user_cs := isUserSelector_code
  protected_mode := u.protected_mode

theorem contextOf_resumed (context : ProcessContext) (u : UserRegisters) :
    contextOf (context.resumed u) =
      (context.atSyscall u.eip u.gpr.esp u.eflags).setContextReturn Status.enone.code := by
  obtain ⟨a, b, c, d, e, f, g, h, hgp⟩ := context.exists_registers
  obtain ⟨gpRegisters, ss, cs, eip, flags⟩ := context
  subst hgp
  rfl

end ProcessContext

namespace Kernel
variable {k k' : Kernel} {p : Ptr} {context : ProcessContext}

/-- As long as the process waits for a message, the context is in its block. -/
def Suspended (k : Kernel) (p : Ptr) (context : ProcessContext) : Prop :=
  ∃ P, k.processes p = some P ∧ (waiting P = true → P.ctx = context)

/-- The step delivers a message to the process, which waited for it. -/
def Delivers (k k' : Kernel) (p : Ptr) : Prop :=
  ∃ P P', k.processes p = some P ∧ waiting P = true ∧ k'.processes p = some P' ∧
    waiting P' = false

theorem waiting_delivered (P : Process) : waiting (delivered P) = false := rfl

theorem Suspended.leftAlone {P P' : Process} (hP : k.processes p = some P)
    (hP' : k'.processes p = some P') (hleft : LeftAlone P P') (h : k.Suspended p context) :
    k'.Suspended p context := by
  obtain ⟨Q, hQ, hctx⟩ := h
  obtain rfl := Option.some.inj (hP.symm.trans hQ)
  refine ⟨P', hP', ?_⟩
  cases hleft with
  | keeps messageQueue => exact hctx
  | delivered _ =>
    intro hwait
    rw [waiting_delivered] at hwait
    cases hwait

/-- A message leaves `ENONE` in the context, and nothing else. -/
theorem Suspended.delivered {P P' : Process} (hP : k.processes p = some P)
    (hP' : k'.processes p = some P') (hleft : LeftAlone P P') (hdelivers : k.Delivers k' p)
    (h : k.Suspended p context) : k'.Kept p (context.setContextReturn Status.enone.code) := by
  obtain ⟨Q, hQ, hctx⟩ := h
  obtain ⟨R, R', hR, hwait, hR', hwait'⟩ := hdelivers
  obtain rfl := Option.some.inj (hP.symm.trans hQ)
  obtain rfl := Option.some.inj (hP.symm.trans hR)
  obtain rfl := Option.some.inj (hP'.symm.trans hR')
  cases hleft with
  | keeps messageQueue =>
    rw [show waiting { P with messageQueue } = waiting P from rfl, hwait] at hwait'
    cases hwait'
  | delivered _ =>
    refine ⟨_, hP', ?_, hwait'⟩
    show P.ctx.setContextReturn _ = _
    rw [hctx hwait]

/-- A process that blocks leaves its context in its block. -/
theorem suspended_of_receive {P : Process} {buffer flags : Word} (ha : k.active = some (p, P))
    (h : k.receive buffer flags = some (none, k')) : k'.Suspended p P.ctx := by
  obtain ⟨a, A, ha', hcases⟩ := receive_cases h
  obtain ⟨rfl, rfl⟩ := Prod.mk.inj (Option.some.inj (ha.symm.trans ha'))
  obtain ⟨_, _, _, _, _, hr, _⟩ | ⟨_, _, hr, _⟩ | ⟨_, _, _, hadv⟩ := hcases
  · cases hr
  · cases hr
  · refine ⟨blocked P buffer, ?_, fun _ => rfl⟩
    rw [(advance_occupied hadv).1]
    exact Function.update_self ..

end Kernel

namespace SyscallKernel
variable {s s' : SyscallKernel} {p : Ptr} {P : Process} {context : ProcessContext}

/-- `do_syscall` with the arguments that are on the stack. -/
def callDoSyscall (s : SyscallKernel) (called : State) (beyond : SyscallEntry) :
    Option (Dispatch × SyscallKernel) := do
  match ← loadWords called.memory called.gpr.esp 7 with
  | [id, arg1, arg2, arg3, pc, stack, flags] =>
      s.doSyscall id arg1 arg2 arg3 pc stack flags beyond
  | _ => none

/-- The active process, with the registers `u`, makes a system call, and its
function is `receive`. -/
def CallsReceive (s : SyscallKernel) (u : UserRegisters) (called : State) (buffer flags : Word)
    (s' : SyscallKernel) : Prop :=
  (∃ seg memory top, Room memory top 12 ∧ syscallState u seg memory top = some called) ∧
    ∃ beyond, s.callDoSyscall called beyond = some (.calls (some .receive) [buffer, flags], s')

/-- A message is there: `receive` returns `ENONE`, `do_syscall` and `isr_syscall`
return, and the process goes on with the registers `v`. -/
def ReceivesAtOnce (s : SyscallKernel) (u v : UserRegisters) : Prop :=
  ∃ called buffer flags s1 k s2 returned, s.CallsReceive u called buffer flags s1 ∧
    s1.kernel.receive buffer flags = some (some .enone, k) ∧
    { s1 with kernel := k }.sysReturn = some s2 ∧
    ReturnsFrom called returned Status.enone.code ∧ isrReturn returned = some v

/-- No message is there: `receive` enters another process.  The others neither end
`p` nor send it a signal.  One of them sends it a message while it waits, and when
`p` is entered again, it is with the registers `w`. -/
def ReceivesLater (s : SyscallKernel) (p : Ptr) (u w : UserRegisters) : Prop :=
  ∃ called buffer flags s1 k s3 action s4 s5 P t, s.CallsReceive u called buffer flags s1 ∧
    s1.kernel.receive buffer flags = some (none, k) ∧
    (systemFrom { s1 with kernel := k, inProgress := none }).Reachable
      (fun s action => leaves p s action = true) s3 ∧
    leaves p s3 action = true ∧ s3.step action = some s4 ∧ s3.kernel.Delivers s4.kernel p ∧
    (systemFrom s4).Reachable (fun s action => leaves p s action = true) s5 ∧
    s5.kernel.active = some (p, P) ∧ CallsLoadContext t P.ctx ∧ loadContext t = some w

/-- The process finds the same registers either way, and `ENONE` in `%eax`. -/
structure Agree (v w : UserRegisters) : Prop extends SamePreserved v w where
  once : v.gpr.eax = Status.enone.code
  later : w.gpr.eax = Status.enone.code

/-- `%ebx` and `%edi` have the values that are in the context. -/
def Saved (context : ProcessContext) (u : UserRegisters) : Prop :=
  context.gpRegisters[1] = u.gpr.ebx ∧ context.gpRegisters[4] = u.gpr.edi

/-- The context of the process that calls a function. -/
theorem active_callFunction {entry : SyscallEntry} {switched : Bool} {arguments : List Word}
    {pc stack flags : Word} {d : Dispatch} (ha : s.kernel.active = some (p, P))
    (h : s.callFunction entry switched arguments pc stack flags = some (d, s')) :
    s'.kernel.active = some (p, { P with ctx := P.ctx.atSyscall pc stack flags }) := by
  obtain ⟨hp, -⟩ := Kernel.active_eq_some.mp ha
  obtain ⟨k1, hk1, h⟩ := Option.bind_eq_some_iff.mp h
  rw [Kernel.setActiveContext, ha, Option.bind_eq_bind, Option.bind_some] at hk1
  cases hk1
  have hactive : (s.kernel.setProcess p
      { P with ctx := P.ctx.atSyscall pc stack flags }).active =
        some (p, { P with ctx := P.ctx.atSyscall pc stack flags }) :=
    Kernel.active_eq_some.mpr ⟨hp, Function.update_self ..⟩
  simp only at h
  split at h
  · cases h
    exact hactive
  · cases h
    exact hactive

theorem active_doSyscall {id arg1 arg2 arg3 pc stack flags : Word} {beyond : SyscallEntry}
    {f : Option SyscallFunction} {arguments : List Word} (ha : s.kernel.active = some (p, P))
    (h : s.doSyscall id arg1 arg2 arg3 pc stack flags beyond = some (.calls f arguments, s')) :
    s'.kernel.active = some (p, { P with ctx := P.ctx.atSyscall pc stack flags }) := by
  rw [doSyscall] at h
  split at h
  · cases h
  · simp only at h
    split at h
    · cases h
    · split at h
      · split at h
        · obtain ⟨s1, -, h⟩ := Option.bind_eq_some_iff.mp h
          cases h
        · obtain ⟨callee, -, h⟩ := Option.bind_eq_some_iff.mp h
          exact active_callFunction
            (s := { s with kernel := s.kernel.loadAddressSpace callee.pageTable }) ha h
      · exact active_callFunction ha h

/-- The arguments that `isr_syscall` put on the stack are those of `do_syscall`. -/
theorem callDoSyscall_eq {u : UserRegisters} {called : State} {beyond : SyscallEntry}
    (h : AtCall u called) : s.callDoSyscall called beyond =
      s.doSyscall u.gpr.eax u.gpr.ebx u.gpr.ecx u.gpr.edx u.eip u.gpr.esp u.eflags beyond := by
  rw [callDoSyscall, h.arguments]
  rfl

/-- The context while `receive` runs, and the state it is in. -/
theorem CallsReceive.cases {u : UserRegisters} {called : State} {buffer flags : Word}
    (h : s.CallsReceive u called buffer flags s') : AtCall u called ∧
      (s.kernel.WellFormed → s'.kernel.WellFormed) ∧
      ∀ p P, s.kernel.active = some (p, P) → s'.kernel.active =
        some (p, { P with ctx := P.ctx.atSyscall u.eip u.gpr.esp u.eflags }) := by
  obtain ⟨⟨seg, memory, top, hroom, hcalled⟩, beyond, hcall⟩ := h
  obtain ⟨called', hcalled', hat⟩ := syscallState_eq u seg hroom
  obtain rfl := Option.some.inj (hcalled.symm.trans hcalled')
  rw [callDoSyscall_eq hat] at hcall
  have hstep : KernelStep s.kernel s'.kernel
      (.doSyscall u.gpr.eax u.gpr.ebx u.gpr.ecx u.gpr.edx u.eip u.gpr.esp u.eflags beyond) :=
    kernelStep_doSyscall hcall
  exact ⟨hat, fun hw => hstep.wellFormed hw, fun p P ha => active_doSyscall ha hcall⟩

/-- What a process finds that receives at once. -/
theorem ReceivesAtOnce.samePreserved {u v : UserRegisters} (h : s.ReceivesAtOnce u v) :
    SamePreserved u v ∧ v.gpr.eax = Status.enone.code := by
  obtain ⟨called, buffer, flags, s1, k, s2, returned, hcall, -, -, hreturned, hv⟩ := h
  obtain ⟨v', hv', hsame⟩ := isrReturn_eq hcall.cases.1 hreturned
  obtain rfl := Option.some.inj (hv.symm.trans hv')
  exact hsame

/-- The context is there while the process waits. -/
theorem suspended_of_reachable {s0 : SyscallKernel} (hw : s0.kernel.WellFormed)
    (h : s0.kernel.Suspended p context)
    (hreach : (systemFrom s0).Reachable (fun s action => leaves p s action = true) s) :
    s.kernel.WellFormed ∧ s.kernel.Suspended p context := by
  refine hreach.invariant (fun s => s.kernel.WellFormed ∧ s.kernel.Suspended p context) ?_ ?_
  · rintro s rfl
    exact ⟨hw, h⟩
  · intro s action s' hi hleaves hst
    obtain ⟨P, hP, hctx⟩ := hi.2
    obtain ⟨P', hP', hleft⟩ := leftAlone_step hi.1 hP hleaves hst
    exact ⟨wellFormed_step hi.1 hst, .leftAlone hP hP' hleft ⟨P, hP, hctx⟩⟩

/-- **What a process finds that has waited**: what was in its context, but for the
registers `do_syscall` stores. -/
theorem ReceivesLater.resumed {u w : UserRegisters} (hw : s.kernel.WellFormed)
    (ha : s.kernel.active = some (p, P)) (h : s.ReceivesLater p u w) : w = P.ctx.resumed u := by
  obtain ⟨called, buffer, flags, s1, k, s3, action, s4, s5, P', t, hcall, hreceive, hwaits, hleaves,
    hst, hdelivers, hruns, hentered, hcontext, hw'⟩ := h
  obtain ⟨-, hwell, hactive⟩ := hcall.cases
  have hblocked := Kernel.suspended_of_receive (hactive p P ha) hreceive
  have hstep : s1.kernel.step (.receive buffer flags) = some k :=
    congrArg (Option.map Prod.snd) hreceive
  have hwk : k.WellFormed := (hwell hw).step hstep
  obtain ⟨hw3, Q, hQ, hctx⟩ := suspended_of_reachable hwk hblocked hwaits
  obtain ⟨Q', hQ', hleft⟩ := leftAlone_step hw3 hQ hleaves hst
  have hkept := Kernel.Suspended.delivered hQ hQ' hleft hdelivers ⟨Q, hQ, hctx⟩
  obtain ⟨R, hR, hRctx, -⟩ := kept_of_reachable (wellFormed_step hw3 hst) hkept hruns
  obtain rfl := Option.some.inj ((Kernel.active_eq_some.mp hentered).2.symm.trans hR)
  rw [hRctx, ← ProcessContext.contextOf_resumed] at hcontext
  exact Option.some.inj (hw'.symm.trans (loadContext_eq hcontext))

/-- **Receiving at once and later.**  The registers that `isr_syscall` preserves have
the same values after a receive that blocked as after one that did not if, and only
if, the saved context of the process already had its `%ebx` and `%edi` when it called. -/
theorem receive_agrees_iff {u v w : UserRegisters} (hreach : system.Reachable Transition.anyStep s)
    (ha : s.kernel.active = some (p, P)) (honce : s'.ReceivesAtOnce u v)
    (hlater : s.ReceivesLater p u w) : Agree v w ↔ Saved P.ctx u := by
  obtain ⟨hsame, heax⟩ := honce.samePreserved
  obtain rfl := hlater.resumed (wellFormed_of_reachable hreach) ha
  constructor
  · intro hagree
    exact ⟨hagree.ebx.trans hsame.ebx, hagree.edi.trans hsame.edi⟩
  · rintro ⟨hebx, hedi⟩
    exact ⟨⟨hebx.trans hsame.ebx.symm, hedi.trans hsame.edi.symm, hsame.eip.symm, hsame.esp.symm,
      hsame.eflags.symm⟩, heax, rfl⟩

instance (context : ProcessContext) (u : UserRegisters) : Decidable (Saved context u) :=
  inferInstanceAs (Decidable (_ ∧ _))

/-- The registers of a process that receives into 0x8800. -/
def receiving : UserRegisters :=
  { someRegisters with gpr := { someRegisters.gpr with eax := 7, ebx := 0x8800, ecx := 0 } }

/-- The first process calls `receive` after the run; `check` is about the process and
the kernel in which `receive` is called. -/
def receivingRun (before : List Action) (check : Process → SyscallKernel → Bool) : Bool :=
  (Transition.System.runFrom Transition.anyStep step bare (builtinSyscalls ++ before)).any fun s =>
    s.kernel.active.any fun active => active.1 = 1 &&
      (s.doSyscall 7 0x8800 0 4 0x8010 0xFF3FFE00 0x3202 .zero).any fun call =>
        call.1 = .calls (some .receive) [0x8800, 0] && check active.2 call.2

/-- The receive returns at once. -/
def returnsAtOnce (s1 : SyscallKernel) : Bool :=
  (s1.kernel.receive 0x8800 0).any fun received =>
    received.1 = some .enone && { s1 with kernel := received.2 }.sysReturn.isSome

/-- The receive blocks, and the second process sends a message. -/
def returnsLater (P : Process) (s1 : SyscallKernel) : Bool :=
  (s1.kernel.receive 0x8800 0).any fun received =>
    received.1 = none &&
      let s2 : SyscallKernel := { s1 with kernel := received.2, inProgress := none }
      leaves 1 s2 (.kernel (.send 1 0x9800 0 ⟨true, true⟩)) &&
        (s2.step (.kernel (.send 1 0x9800 0 ⟨true, true⟩))).any fun s4 =>
          (s2.kernel.processes 1).any Kernel.waiting &&
            (s4.kernel.processes 1).any (fun P' => !Kernel.waiting P') &&
            (Transition.System.runFrom (fun s action => leaves 1 s action = true) step s4
              [.kernel .advance]).any fun s5 => s5.kernel.active.any fun entered =>
                entered.1 = 1 && entered.2.ctx = contextOf (P.ctx.resumed receiving)

theorem exists_of_receivingRun {before : List Action} {check : Process → SyscallKernel → Bool}
    (h : receivingRun before check = true) :
    ∃ s called s1 P, system.Reachable Transition.anyStep s ∧ s.kernel.active = some (1, P) ∧
      AtCall receiving called ∧ s.CallsReceive receiving called 0x8800 0 s1 ∧
      check P s1 = true := by
  obtain ⟨s, hs, h⟩ := (Option.any_eq_true _ _).mp h
  obtain ⟨⟨p, P⟩, hactive, h⟩ := (Option.any_eq_true _ _).mp h
  obtain ⟨hp, h⟩ := Bool.and_eq_true_iff.mp h
  obtain ⟨⟨d, s1⟩, hcall, h⟩ := (Option.any_eq_true _ _).mp h
  obtain ⟨hd, hcheck⟩ := Bool.and_eq_true_iff.mp h
  obtain rfl := of_decide_eq_true hp
  obtain rfl := of_decide_eq_true hd
  have hroom : Room (fun _ => some 0) 0x2000 12 := ⟨by decide, fun _ _ => rfl⟩
  obtain ⟨called, hcalled, hat⟩ := syscallState_eq receiving (fun _ => 0) hroom
  refine ⟨s, called, s1, P, .runFrom _ _ (.init boot_bare) hs, hactive, hat,
    ⟨⟨_, _, _, hroom, hcalled⟩, .zero, ?_⟩, hcheck⟩
  rw [callDoSyscall_eq hat]
  exact hcall

theorem exists_receivesAtOnce {before : List Action}
    (h : receivingRun before (fun _ s1 => returnsAtOnce s1) = true) :
    ∃ s v, ReceivesAtOnce s receiving v := by
  obtain ⟨s, called, s1, P, -, -, hat, hcall, h⟩ := exists_of_receivingRun h
  obtain ⟨⟨r, k⟩, hreceive, h⟩ := (Option.any_eq_true _ _).mp h
  obtain ⟨hr, h⟩ := Bool.and_eq_true_iff.mp h
  obtain rfl := of_decide_eq_true hr
  obtain ⟨s2, hs2⟩ := Option.isSome_iff_exists.mp h
  have hreturns : ReturnsFrom called { called with gpr := called.gpr.set Status.enone.code .eax }
      Status.enone.code := ⟨rfl, rfl, rfl, rfl, rfl, rfl, rfl⟩
  obtain ⟨v, hv, -⟩ := isrReturn_eq hat hreturns
  exact ⟨s, v, called, _, _, s1, k, s2, _, hcall, hreceive, hs2, hreturns, hv⟩

theorem exists_receivesLater {before : List Action} {check : Process → Bool}
    (h : receivingRun before (fun P s1 => check P && returnsLater P s1) = true) :
    ∃ s P w, system.Reachable Transition.anyStep s ∧ s.kernel.active = some (1, P) ∧
      ReceivesLater s 1 receiving w ∧ check P = true := by
  obtain ⟨s, called, s1, P, hreach, hactive, -, hcall, h⟩ := exists_of_receivingRun h
  obtain ⟨hcheck, h⟩ := Bool.and_eq_true_iff.mp h
  obtain ⟨⟨r, k⟩, hreceive, h⟩ := (Option.any_eq_true _ _).mp h
  obtain ⟨hr, h⟩ := Bool.and_eq_true_iff.mp h
  obtain ⟨hleaves, h⟩ := Bool.and_eq_true_iff.mp h
  obtain ⟨s4, hs4, h⟩ := (Option.any_eq_true _ _).mp h
  obtain ⟨hdelivers, hs5⟩ := Bool.and_eq_true_iff.mp h
  obtain ⟨hbefore, hafter⟩ := Bool.and_eq_true_iff.mp hdelivers
  obtain ⟨Q, hQ, hwait⟩ := (Option.any_eq_true _ _).mp hbefore
  obtain ⟨Q', hQ', hwait'⟩ := (Option.any_eq_true _ _).mp hafter
  obtain ⟨s5, hruns, h⟩ := (Option.any_eq_true _ _).mp hs5
  obtain ⟨⟨p, P'⟩, hentered, h⟩ := (Option.any_eq_true _ _).mp h
  obtain ⟨hp, hctx⟩ := Bool.and_eq_true_iff.mp h
  obtain rfl := of_decide_eq_true hr
  obtain rfl := of_decide_eq_true hp
  have hload := callsLoadContext_callState P'.ctx
  refine ⟨s, P, P.ctx.resumed receiving, hreach, hactive, ⟨called, _, _, s1, k, _, _, s4, s5, P', _,
    hcall, hreceive, .init rfl, hleaves, hs4,
    ⟨Q, Q', hQ, hwait, hQ', (Bool.not_eq_true' _).mp hwait'⟩, .runFrom _ _ (.init rfl) hruns,
    hentered,
    hload, ?_⟩, hcheck⟩
  rw [of_decide_eq_true hctx] at hload ⊢
  exact loadContext_eq hload

/-- The first process is preempted with the registers it then calls with. -/
def preemptedBefore : List Action :=
  twoRun ++ [.kernel (.storeContext (contextOf receiving)), .kernel .advance, .kernel .advance]

/-- A message is queued for the first process. -/
def queuedBefore : List Action :=
  twoRun ++ [.kernel .advance, .kernel (.send 1 0x9800 0 ⟨true, true⟩), .kernel .advance]

theorem receivingRun_runs : receivingRun queuedBefore (fun _ s1 => returnsAtOnce s1) = true ∧
    receivingRun preemptedBefore
      (fun P s1 => decide (Saved P.ctx receiving) && returnsLater P s1) = true ∧
    receivingRun twoRun
      (fun P s1 => decide (¬ Saved P.ctx receiving) && returnsLater P s1) = true := by
  decide +kernel

theorem receive_agrees_iff_receiving :
    ∃ s s' : SyscallKernel, ∃ P v w, system.Reachable Transition.anyStep s ∧
      s.kernel.active = some (1, P) ∧ s'.ReceivesAtOnce receiving v ∧
      s.ReceivesLater 1 receiving w ∧ Saved P.ctx receiving ∧
      (Agree v w ↔ Saved P.ctx receiving) := by
  obtain ⟨s', v, honce⟩ := exists_receivesAtOnce receivingRun_runs.1
  obtain ⟨s, P, w, hreach, ha, hlater, hsaved⟩ := exists_receivesLater receivingRun_runs.2.1
  exact ⟨s, s', P, v, w, hreach, ha, honce, hlater, of_decide_eq_true hsaved,
    receive_agrees_iff hreach ha honce hlater⟩

/-- A process that has never been preempted has zeros in its context. -/
theorem not_receive_agrees_twoRun :
    ¬ ∀ (s s' : SyscallKernel) p P u v w, system.Reachable Transition.anyStep s →
      s.kernel.active = some (p, P) → s'.ReceivesAtOnce u v → s.ReceivesLater p u w →
      Agree v w := by
  intro hall
  obtain ⟨s', v, honce⟩ := exists_receivesAtOnce receivingRun_runs.1
  obtain ⟨s, P, w, hreach, ha, hlater, hsaved⟩ := exists_receivesLater receivingRun_runs.2.2
  have hagree := hall s s' 1 P _ v w hreach ha honce hlater
  obtain ⟨hsame, -⟩ := honce.samePreserved
  obtain rfl := hlater.resumed (wellFormed_of_reachable hreach) ha
  exact of_decide_eq_true hsaved
    ⟨hagree.ebx.trans hsame.ebx, hagree.edi.trans hsame.edi⟩

end SyscallKernel
end QuarkKernel
