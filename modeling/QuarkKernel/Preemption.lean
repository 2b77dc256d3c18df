import QuarkKernel.X86
import QuarkKernel.BlockSteps
import QuarkKernel.Syscalls

/-! # Preemption

`isr_preempt` of `x86/preempt.S` saves the registers of the process that was
interrupted, `load_context` of `x86/load_context.S` enters a process.  `contextOf`
says where each register is in `struct process_context_t`; the push sequence of the
one puts it there (`savedContext_eq`) and the offsets of the other take it from
there (`loadContext_eq`), so that the layout is used in no other place.

In between the context is in the block of the process.  What other processes do
leaves it there (`kept_step`), unless the kernel has the process down as waiting
for a message.  A process can run in that state: `kernel_signal_return` restores
`PROCESS_REQUESTING`, and `receive_message` does not take it back when a message is
there.  The next message is then delivered to a process that does not expect it. -/
namespace QuarkKernel

open ByteMemory X86

/-! ### The assembly files -/

/-- `isr_preempt` up to the call of `kernel_store_active_context`. -/
def isrPreempt : List Instr :=
  [.cli,
    .push (.reg .ebp),
    .mov (.reg .esp) .ebp, .add (.imm 4) .ebp,
    .push (.reg .eax),
    .mov (.mem 8 .ebp) .eax, .push (.reg .eax),
    .mov (.mem 0 .ebp) .eax, .push (.reg .eax),
    .mov (.mem 4 .ebp) .eax, .push (.reg .eax),
    .mov (.mem 16 .ebp) .eax, .push (.reg .eax),
    .mov (.mem 12 .ebp) .eax, .push (.reg .eax),
    .mov (.mem (-4) .ebp) .eax, .push (.reg .eax),
    .push (.reg .esi), .push (.reg .edi), .push (.reg .edx), .push (.reg .ecx), .push (.reg .ebx),
    .mov (.mem (-8) .ebp) .eax, .push (.reg .eax),
    .push (.reg .esp)]

/-- `load_context` up to `iret`. -/
def loadContextCode : List Instr :=
  [.mov (.mem 4 .esp) .eax,
    .push (.mem 0x20 .eax), .push (.mem 0x1C .eax), .push (.mem 0x2C .eax),
    .push (.mem 0x24 .eax), .push (.mem 0x28 .eax), .push (.mem 0x00 .eax),
    .mov (.mem 0x04 .eax) .ebx, .mov (.mem 0x08 .eax) .ecx, .mov (.mem 0x0C .eax) .edx,
    .mov (.mem 0x10 .eax) .edi, .mov (.mem 0x14 .eax) .esi, .mov (.mem 0x18 .eax) .ebp,
    .mov16 (.mem 0x20 .eax) .eax,
    .movSeg .eax .ds, .movSeg .eax .es, .movSeg .eax .fs, .movSeg .eax .gs,
    .pop .eax]

/-- What `isr_preempt` passes to `kernel_store_active_context` when it interrupts a
program: the context its argument points to. -/
def savedContext (u : UserRegisters) (seg : DataSeg → BitVec 16) (memory : Memory) (top : Word) :
    Option ProcessContext := do
  let s ← interrupt u seg memory top
  let s ← s.run isrPreempt
  let context ← s.read s.gpr.esp
  let words ← loadWords s.memory context ProcessContext.sizeInWords
  some (ProcessContext.ofWords words)

/-- `load_context`, with the registers it enters the program with. -/
def loadContext (s : State) : Option UserRegisters := do
  iret (← s.run loadContextCode)

/-- Where each register is in a context. -/
def contextOf (u : UserRegisters) : ProcessContext where
  gpRegisters := #v[u.gpr.eax, u.gpr.ebx, u.gpr.ecx, u.gpr.edx, u.gpr.edi, u.gpr.esi, u.gpr.ebp,
    u.gpr.esp]
  ss := u.ss.setWidth 32
  cs := u.cs.setWidth 32
  eip := u.eip
  flags := u.eflags

/-- The state in which `load_context(context)` is entered, called with a pointer to
a block that holds the context.  The block is not on the part of the stack that the
function uses. -/
structure CallsLoadContext (s : State) (context : ProcessContext) : Prop where
  room : Room s.memory s.gpr.esp 6
  argument : ∃ block, s.read (s.gpr.esp + 4) = some block ∧
    loadWords s.memory block ProcessContext.sizeInWords = some context.toWords ∧
    Apart block (4 * ProcessContext.sizeInWords) s.gpr.esp 6

section Saving
variable {memory : Memory} {top : Word} {n : Nat} {s : State} {words : List Word}

/-- `%ebp` points to the interrupt frame; the registers that are still to be pushed
are those of the program. -/
structure AtFrame (u : UserRegisters) (top : Word) (s : State) : Prop where
  ebp : s.gpr.ebp = below top 5
  ebx : s.gpr.ebx = u.gpr.ebx
  ecx : s.gpr.ecx = u.gpr.ecx
  edx : s.gpr.edx = u.gpr.edx
  esi : s.gpr.esi = u.gpr.esi
  edi : s.gpr.edi = u.gpr.edi

variable {u : UserRegisters} {code : List Instr} {Q : State → Prop}

/-- `mov disp(%ebp), %eax` and `push %eax`: the word at the `i`-th place below `top`
is pushed again. -/
theorem wp_copy (hroom : Room memory top n) (hs : AtFrame u top s) {disp w : Word} (i : Nat)
    (haddr : below top 5 + disp = below top i) (hw : words.getD (words.length - i) 0 = w)
    (hi : 0 < i ∧ i ≤ words.length) (hlen : words.length < n)
    (h : ∀ s', AtFrame u top s' → (onStack memory top s' (w :: words)).wp code Q) :
    (onStack memory top s words).wp (.mov (.mem disp .ebp) .eax :: .push (.reg .eax) :: code) Q := by
  have hsmall := hroom.1
  have hword : s.gpr.get .ebp + disp = below top i := by
    rw [← haddr, ← hs.ebp]
    rfl
  have hsrc : (onStack memory top s words).operand (.mem disp .ebp) = some w := by
    rw [operand_mem_onStack (by decide) (by omega) i hi.1 hi.2 hword, hw]
  refine wp_mov (by decide) hsrc (wp_push hroom hlen (operand_onStack (by decide)) ?_)
  exact (h (s.setReg w .eax) ⟨hs.ebp, hs.ebx, hs.ecx, hs.edx, hs.esi, hs.edi⟩)

/-- `isr_preempt` until it has both `%ebp` and `%eax` on the stack. -/
theorem wp_prologue (u : UserRegisters) (seg : DataSeg → BitVec 16)
    (hroom : Room memory top n) (hn : 7 ≤ n)
    (h : ∀ s', AtFrame u top s' →
      (onStack memory top s' (u.gpr.eax :: u.gpr.ebp :: u.frame)).wp code Q) :
    (onStack memory top ⟨u.gpr, seg, false, memory⟩ u.frame).wp
      (.cli :: .push (.reg .ebp) :: .mov (.reg .esp) .ebp :: .add (.imm 4) .ebp ::
        .push (.reg .eax) :: code) Q := by
  have hframe : below top 6 + 4 = below top 5 := by
    rw [below, below]
    bv_omega
  have hlen : u.frame.length = 5 := rfl
  have hcli : (onStack memory top ⟨u.gpr, seg, false, memory⟩ u.frame).exec .cli =
      some (onStack memory top ⟨u.gpr, seg, false, memory⟩ u.frame) := rfl
  refine wp_cons hcli ?_
  refine wp_push (w := u.gpr.ebp) hroom (by omega) rfl ?_
  refine wp_mov (w := below top 6) (by decide) rfl (wp_add (by decide) ?_)
  refine wp_push (w := u.gpr.eax) hroom (by rw [List.length_cons]; omega) rfl ?_
  exact h ⟨{ u.gpr with ebp := below top 6 + 4 }, seg, false, memory⟩
    ⟨hframe, rfl, rfl, rfl, rfl, rfl⟩

/-- The words `isr_preempt` leaves on the stack: the argument of the call, the
context it points to, and what was there before. -/
def savedWords (u : UserRegisters) (top : Word) : List Word :=
  below top 19 :: (contextOf u).toWords ++ u.gpr.eax :: u.gpr.ebp :: u.frame

theorem wp_isrPreempt (u : UserRegisters) (seg : DataSeg → BitVec 16)
    (hroom : Room memory top 20) :
    (onStack memory top ⟨u.gpr, seg, false, memory⟩ u.frame).wp isrPreempt
      fun t => ∃ s, t = onStack memory top s (savedWords u top) := by
  have hlen : u.frame.length = 5 := rfl
  refine wp_prologue u seg hroom (by decide) fun s0 h0 => ?_
  refine wp_copy (w := u.eflags) hroom h0 3 (by simp only [below]; bv_omega) rfl
    (by simp [hlen]) (by simp [hlen]) fun s1 h1 => ?_
  refine wp_copy (w := u.eip) hroom h1 5 (by simp only [below]; bv_omega) rfl
    (by simp [hlen]) (by simp [hlen]) fun s2 h2 => ?_
  refine wp_copy (w := u.cs.setWidth 32) hroom h2 4 (by simp only [below]; bv_omega) rfl
    (by simp [hlen]) (by simp [hlen]) fun s3 h3 => ?_
  refine wp_copy (w := u.ss.setWidth 32) hroom h3 1 (by simp only [below]; bv_omega) rfl
    (by simp [hlen]) (by simp [hlen]) fun s4 h4 => ?_
  refine wp_copy (w := u.gpr.esp) hroom h4 2 (by simp only [below]; bv_omega) rfl
    (by simp [hlen]) (by simp [hlen]) fun s5 h5 => ?_
  refine wp_copy (w := u.gpr.ebp) hroom h5 6 (by simp only [below]; bv_omega) rfl
    (by simp [hlen]) (by simp [hlen]) fun s6 h6 => ?_
  refine wp_push (w := u.gpr.esi) hroom (by simp [hlen]) (h6.esi ▸ operand_onStack (by decide)) ?_
  refine wp_push (w := u.gpr.edi) hroom (by simp [hlen]) (h6.edi ▸ operand_onStack (by decide)) ?_
  refine wp_push (w := u.gpr.edx) hroom (by simp [hlen]) (h6.edx ▸ operand_onStack (by decide)) ?_
  refine wp_push (w := u.gpr.ecx) hroom (by simp [hlen]) (h6.ecx ▸ operand_onStack (by decide)) ?_
  refine wp_push (w := u.gpr.ebx) hroom (by simp [hlen]) (h6.ebx ▸ operand_onStack (by decide)) ?_
  refine wp_copy (w := u.gpr.eax) hroom h6 7 (by simp only [below]; bv_omega) rfl
    (by simp [hlen]) (by simp [hlen]) fun s7 h7 => ?_
  exact wp_push hroom (by simp [hlen]) rfl (wp_nil ⟨s7, rfl⟩)

/-- **What `isr_preempt` saves.** -/
theorem savedContext_eq (u : UserRegisters) (seg : DataSeg → BitVec 16)
    (hroom : Room memory top 20) :
    savedContext u seg memory top = some (contextOf u) := by
  obtain ⟨t, hrun, s, rfl⟩ := wp_isrPreempt u seg hroom
  have hlength : (savedWords u top).length = 20 := rfl
  have hlen : 4 * (savedWords u top).length ≤ 2 ^ 32 := by omega
  have hargument : (onStack memory top s (savedWords u top)).read (below top 20) =
      some (below top 19) := read_onStack hlen (by omega) (by omega)
  have hblock : loadWords (onStack memory top s (savedWords u top)).memory (below top 19) 12 =
      some (contextOf u).toWords := loadWords_stack memory top s hlen 1 12 (by omega)
  rw [savedContext, interrupt_eq u seg hroom (by decide)]
  simp only [Option.bind_eq_bind, Option.bind_some, hrun]
  rw [show (onStack memory top s (savedWords u top)).gpr.esp = below top 20 from rfl, hargument,
    Option.bind_some, ProcessContext.sizeInWords, hblock, Option.bind_some,
    ProcessContext.ofWords_toWords]

end Saving

/-- **What `load_context` enters.** -/
theorem loadContext_eq {s : State} {u : UserRegisters} (h : CallsLoadContext s (contextOf u)) :
    loadContext s = some u := by
  obtain ⟨hroom, block, hread, hblock, hapart⟩ := h
  -- the argument, then the words of the context at their offsets
  have hargument : (onStack s.memory s.gpr.esp s []).operand (.mem 4 .esp) = some block := by
    rw [onStack_nil]
    exact hread
  have hword : ∀ (t : State) (words : List Word), t.gpr.get .eax = block → words.length ≤ 6 →
      ∀ i, i < 12 → (onStack s.memory s.gpr.esp t words).operand
        (.mem (BitVec.ofNat 32 (4 * i)) .eax) = some ((contextOf u).toWords.getD i 0) :=
    fun t words heax hlen i hi => operand_block hblock hapart (by decide) heax hlen i hi
  have hwp : s.wp loadContextCode fun t => loadWords t.memory t.gpr.esp 5 = some u.frame ∧
      t.gpr.set u.gpr.esp .esp = u.gpr := by
    nth_rewrite 1 [← onStack_nil s]
    refine wp_mov (by decide) hargument ?_
    refine wp_push hroom (by simp) (hword _ _ rfl (by simp) 8 (by decide)) ?_
    refine wp_push hroom (by simp) (hword _ _ rfl (by simp) 7 (by decide)) ?_
    refine wp_push hroom (by simp) (hword _ _ rfl (by simp) 11 (by decide)) ?_
    refine wp_push hroom (by simp) (hword _ _ rfl (by simp) 9 (by decide)) ?_
    refine wp_push hroom (by simp) (hword _ _ rfl (by simp) 10 (by decide)) ?_
    refine wp_push hroom (by simp) (hword _ _ rfl (by simp) 0 (by decide)) ?_
    refine wp_mov (by decide) (hword _ _ rfl (by simp) 1 (by decide)) ?_
    refine wp_mov (by decide) (hword _ _ rfl (by simp) 2 (by decide)) ?_
    refine wp_mov (by decide) (hword _ _ rfl (by simp) 3 (by decide)) ?_
    refine wp_mov (by decide) (hword _ _ rfl (by simp) 4 (by decide)) ?_
    refine wp_mov (by decide) (hword _ _ rfl (by simp) 5 (by decide)) ?_
    refine wp_mov (by decide) (hword _ _ rfl (by simp) 6 (by decide)) ?_
    refine wp_mov16 (by decide) (hword _ _ rfl (by simp) 8 (by decide)) fun w => ?_
    refine wp_movSeg fun _ => wp_movSeg fun _ => wp_movSeg fun _ => wp_movSeg fun _ => ?_
    refine wp_pop (by decide) (by simp) (wp_nil ⟨?_, rfl⟩)
    exact loadWords_stack s.memory s.gpr.esp s (by simp) 1 5 (by simp)
  obtain ⟨t, hrun, hframe, hgpr⟩ := hwp
  rw [loadContext, hrun, Option.bind_eq_bind, Option.bind_some, iret_of_frame hframe, hgpr]

/-! ### While other processes run -/

namespace Kernel
variable {k k' : Kernel} {p : Ptr} {context : ProcessContext}

/-- The call delivers a signal to the process, or ends it. -/
def concerns (k : Kernel) (p : Ptr) : Op → Bool
  | .terminate pid => k.lookup pid = some p
  | .executeHandler interrupt =>
      (k.interruptHandlers.avlGet interrupt.toInt).any fun action => k.lookup action.pid = some p
  | _ => false

/-- The context is in the block of the process, and the process is not down as
waiting for a message. -/
def Kept (k : Kernel) (p : Ptr) (context : ProcessContext) : Prop :=
  ∃ P, k.processes p = some P ∧ P.ctx = context ∧ waiting P = false

/-- What the others can do to a block: queue a message, or deliver one. -/
inductive LeftAlone (P : Process) : Process → Prop
  | keeps (messageQueue : List Message) : LeftAlone P { P with messageQueue }
  | delivered (hwait : waiting P = true) : LeftAlone P (delivered P)

theorem leftAlone_step {op : Op} {P : Process} (hw : k.WellFormed) (hP : k.processes p = some P)
    (hactive : k.activeProcess ≠ some p) (hother : k.concerns p op = false)
    (hst : k.step op = some k') : ∃ P', k'.processes p = some P' ∧ LeftAlone P P' := by
  have hblock := step_blockStep hw hst p
  rw [hP] at hblock
  generalize hX : k'.processes p = X at hblock
  cases hblock with
  | keeps => exact ⟨P, rfl, .keeps P.messageQueue⟩
  | ended _ hop hlookup =>
    subst hop
    exact absurd hlookup (of_decide_eq_false hother)
  | stored _ _ ha => exact absurd ha hactive
  | delivered _ hwait => exact ⟨_, rfl, .delivered hwait⟩
  | queued _ message => exact ⟨_, rfl, .keeps (P.messageQueue ++ [message])⟩
  | took _ ha _ => exact absurd ha hactive
  | blocked _ _ ha => exact absurd ha hactive
  | interrupted _ ctx hop haction hlookup =>
    subst hop
    rw [concerns, haction, Option.any_some] at hother
    exact absurd hlookup (of_decide_eq_false hother)
  | returned _ ha _ => exact absurd ha hactive

/-- The process that stores its context and is put back has it in its block. -/
theorem kept_of_stored {k1 k2 : Kernel} {P : Process} (hactive : k.active = some (p, P))
    (hwait : waiting P = false) (hstore : k.step (.storeContext context) = some k1)
    (hadvance : k1.step .advance = some k2) : k2.Kept p context := by
  obtain ⟨hp, hP⟩ := active_eq_some.mp hactive
  obtain ⟨⟨r, k1'⟩, hk, rfl⟩ := Option.map_eq_some_iff.mp hstore
  rw [kernelStoreActiveContext, hp] at hk
  obtain ⟨P', hP', hk⟩ := Option.bind_eq_some_iff.mp hk
  obtain rfl := Option.some.inj (hP.symm.trans hP')
  cases hk
  refine ⟨{ P with ctx := context }, ?_, rfl, hwait⟩
  rw [(advance_occupied hadvance).1]
  exact Function.update_self ..

end Kernel

namespace SyscallKernel
variable {s s' : SyscallKernel} {p : Ptr} {context : ProcessContext}

/-- `isr_preempt`: the context it saved is stored, and another process is entered. -/
def preempt (s : SyscallKernel) (u : UserRegisters) (seg : DataSeg → BitVec 16) (memory : Memory)
    (top : Word) : Option SyscallKernel := do
  let context ← savedContext u seg memory top
  let s ← s.step (.kernel (.storeContext context))
  s.step (.kernel .advance)

/-- The step is not one of the process: another one runs, or none, and the process
is neither sent a signal nor ended. -/
def leaves (p : Ptr) (s : SyscallKernel) (action : Action) : Bool :=
  s.kernel.activeProcess ≠ some p &&
    match action with
    | .kernel op => !s.kernel.concerns p op
    | _ => true

/-- What happens from a state on. -/
def systemFrom (s : SyscallKernel) : Transition.System SyscallKernel Action :=
  .ofStep (· = s) step

theorem leftAlone_step {action : Action} {P : Process} (hw : s.kernel.WellFormed)
    (hP : s.kernel.processes p = some P) (hleaves : leaves p s action = true)
    (hst : s.step action = some s') :
    ∃ P', s'.kernel.processes p = some P' ∧ Kernel.LeftAlone P P' := by
  obtain ⟨hactive, hother⟩ := Bool.and_eq_true_iff.mp hleaves
  have hactive : s.kernel.activeProcess ≠ some p := of_decide_eq_true hactive
  cases step_kernelStep hst with
  | call hk => exact Kernel.leftAlone_step hw hP hactive ((Bool.not_eq_true' _).mp hother) hk
  | loads space hk =>
    rw [hk]
    exact ⟨P, hP, .keeps P.messageQueue⟩
  | setsContext a A space ctx ha hk =>
    obtain ⟨haA, -⟩ := Kernel.active_eq_some.mp ha
    have hne : p ≠ a := by
      rintro rfl
      exact hactive haA
    refine ⟨P, ?_, .keeps P.messageQueue⟩
    rw [hk]
    exact (Function.update_of_ne hne ..).trans hP

/-- **The context survives every step of another process.** -/
theorem kept_step {action : Action} (hw : s.kernel.WellFormed) (h : s.kernel.Kept p context)
    (hleaves : leaves p s action = true) (hst : s.step action = some s') :
    s'.kernel.Kept p context := by
  obtain ⟨P, hP, hctx, hwait⟩ := h
  obtain ⟨P', hP', hleft⟩ := leftAlone_step hw hP hleaves hst
  cases hleft with
  | keeps messageQueue => exact ⟨_, hP', hctx, hwait⟩
  | delivered hwait' =>
    rw [hwait] at hwait'
    cases hwait'

/-- Whatever other processes do, the context is still there. -/
theorem kept_of_reachable {s0 : SyscallKernel} (hw : s0.kernel.WellFormed)
    (h : s0.kernel.Kept p context)
    (hreach : (systemFrom s0).Reachable (fun s action => leaves p s action = true) s) :
    s.kernel.Kept p context := by
  have hboth : s.kernel.WellFormed ∧ s.kernel.Kept p context := by
    refine hreach.invariant (fun s => s.kernel.WellFormed ∧ s.kernel.Kept p context) ?_ ?_
    · rintro s rfl
      exact ⟨hw, h⟩
    · intro s action s' hi hleaves hst
      exact ⟨wellFormed_step hi.1 hst, kept_step hi.1 hi.2 hleaves hst⟩
  exact hboth.2

/-- **Preemption transparency.**  A process that runs, and is not down as waiting for
a message, is preempted with any registers.  Whatever other processes do, as long as
they neither end it nor send it a signal: when it is entered again it has the
registers it had. -/
theorem loadContext_of_preempted {s2 s3 : SyscallKernel} {P P' : Process} {u : UserRegisters}
    {seg : DataSeg → BitVec 16} {memory : Memory} {top : Word} {t : State}
    (hreach : system.Reachable Transition.anyStep s) (hactive : s.kernel.active = some (p, P))
    (hwait : Kernel.waiting P = false) (hroom : Room memory top 20)
    (hpreempt : s.preempt u seg memory top = some s2)
    (hlater : (systemFrom s2).Reachable (fun s action => leaves p s action = true) s3)
    (hentered : s3.kernel.active = some (p, P'))
    (hcall : CallsLoadContext t P'.ctx) : loadContext t = some u := by
  have hw := wellFormed_of_reachable hreach
  rw [preempt, savedContext_eq u seg hroom, Option.bind_eq_bind, Option.bind_some] at hpreempt
  obtain ⟨s1, hs1, hs2⟩ := Option.bind_eq_some_iff.mp hpreempt
  have hkept : s2.kernel.Kept p (contextOf u) := by
    obtain ⟨k1, hk1, h1⟩ := Option.bind_eq_some_iff.mp hs1
    obtain ⟨k2, hk2, h2⟩ := Option.bind_eq_some_iff.mp hs2
    cases h1
    cases h2
    exact Kernel.kept_of_stored hactive hwait hk1 hk2
  obtain ⟨Q, hQ, hctx, -⟩ :=
    kept_of_reachable (wellFormed_step (wellFormed_step hw hs1) hs2) hkept hlater
  obtain rfl := Option.some.inj ((Kernel.active_eq_some.mp hentered).2.symm.trans hQ)
  rw [hctx] at hcall
  exact loadContext_eq hcall

/-- A state in which `load_context(context)` is entered. -/
def callState (context : ProcessContext) : State where
  gpr := ⟨0, 0, 0, 0, 0, 0, 0, 0x2000⟩
  seg := fun _ => 0
  interruptFlag := false
  memory := writeWords (writeWords (fun _ => some 0) 0x1000 context.toWords) 0x2004 [0x1000]

theorem callsLoadContext_callState (context : ProcessContext) :
    CallsLoadContext (callState context) context := by
  refine ⟨⟨by decide, fun i hi => ?_⟩, 0x1000, ?_, ?_, ?_⟩
  · exact isSome_writeWords (isSome_writeWords rfl _ _) _ _
  · have hargument : loadWords (callState context).memory 0x2004 1 = some [0x1000] :=
      loadWords_writeWords _ 0x2004 (by decide)
    exact congrArg (Option.map _) hargument
  · have hsame : loadWords (callState context).memory 0x1000 12 =
        loadWords (writeWords (fun _ => some 0) 0x1000 context.toWords) 0x1000 12 := by
      apply loadWords_congr
      intro i hi
      apply writeWords_of_le
      rw [addrAt, List.length_singleton]
      bv_omega
    have hlen : 4 * context.toWords.length ≤ 2 ^ 32 := by
      rw [ProcessContext.length_toWords]
      decide
    have hread := loadWords_writeWords (fun _ => some 0) 0x1000 hlen
    rw [ProcessContext.length_toWords] at hread
    exact hsame.trans hread
  · intro i hi
    show 24 ≤ (addrAt 0x1000 i - below 0x2000 6).toNat
    have hlt : i < 48 := hi
    rw [addrAt, below]
    bv_omega

/-- Two processes; the first is entered. -/
def twoRun : List Action :=
  [.kernel (.spawn 0x8000 1 0x1000 (.succeeds 1 fun _ => 0)),
    .kernel (.spawn 0x9000 1 0x2000 (.succeeds 2 fun _ => 0)),
    .kernel (.programs fun _ _ => some 0), .kernel .advance]

/-- What the first process goes on with when it returns from a signal. -/
def resumedContext : ProcessContext :=
  ((ProcessContext.zero.setContextPc 0x8020).setContextStack 0xFF3FFE80).setContextFlags 0x3202

/-- The first process waits for a message, is sent a signal and, while its handler
runs, a message.  Where the state is taken from when it returns, there is 1,
`PROCESS_REQUESTING`, with a context behind it: it receives the message and goes on in
that state. -/
def resumedRun : List Action :=
  twoRun ++ [.kernel (.registerHandler 5 0xA000 0xB000 0xC000 true true),
    .kernel (.receive 0x8800 0), .kernel (.executeHandler 5),
    .kernel (.send 1 0x9800 0 ⟨true, true⟩), .kernel .advance,
    .kernel (.storeContext (ProcessContext.zero.setContextStack 0xFF3FFF00)),
    .kernel (.programs fun _ =>
      writeWords (fun _ => some 0) 0xFF3FFEF8 (1 :: resumedContext.toWords)),
    .kernel .signalReturn]

/-- The second process sends to the first. -/
def sentTo : List Action :=
  [.kernel (.send 1 0x9800 0 ⟨true, true⟩), .kernel .advance]

/-- Registers with a different value each. -/
def someRegisters : UserRegisters where
  gpr := ⟨1, 2, 3, 4, 5, 6, 7, 0xFF3FFE00⟩
  eip := 0x8010
  eflags := 0x3202
  cs := 0x1B
  ss := 0x23
  user_cs := by decide
  protected_mode := by decide

/-- The first process is preempted after the run, and entered after the message.
`check` is about the process at the first moment and its context at the second. -/
def preemptedRun (before : List Action) (check : Process → ProcessContext → Bool) : Bool :=
  (Transition.System.runFrom Transition.anyStep step bare before).any fun s =>
    s.kernel.active.any fun active =>
      active.1 = 1 && (s.preempt someRegisters (fun _ => 0) (fun _ => some 0) 0x2000).any fun s2 =>
        (Transition.System.runFrom (fun s action => leaves 1 s action = true) step s2 sentTo).any
          fun s3 => s3.kernel.active.any fun entered =>
            entered.1 = 1 && check active.2 entered.2.ctx

theorem exists_of_preemptedRun {before : List Action} {check : Process → ProcessContext → Bool}
    (h : preemptedRun before check = true) :
    ∃ s s2 s3 P P', system.Reachable Transition.anyStep s ∧ s.kernel.active = some (1, P) ∧
      s.preempt someRegisters (fun _ => 0) (fun _ => some 0) 0x2000 = some s2 ∧
      (systemFrom s2).Reachable (fun s action => leaves 1 s action = true) s3 ∧
      s3.kernel.active = some (1, P') ∧ check P P'.ctx = true := by
  obtain ⟨s, hs, h⟩ := (Option.any_eq_true _ _).mp h
  obtain ⟨⟨p, P⟩, hactive, h⟩ := (Option.any_eq_true _ _).mp h
  obtain ⟨hp, h⟩ := Bool.and_eq_true_iff.mp h
  obtain ⟨s2, hs2, h⟩ := (Option.any_eq_true _ _).mp h
  obtain ⟨s3, hs3, h⟩ := (Option.any_eq_true _ _).mp h
  obtain ⟨⟨q, P'⟩, hentered, h⟩ := (Option.any_eq_true _ _).mp h
  obtain ⟨hq, hcheck⟩ := Bool.and_eq_true_iff.mp h
  obtain rfl := of_decide_eq_true hp
  obtain rfl := of_decide_eq_true hq
  exact ⟨s, s2, s3, P, P', .runFrom _ _ (.init boot_bare) hs, hactive, hs2,
    .runFrom _ _ (.init rfl) hs3, hentered, hcheck⟩

theorem preemptedRun_runs : preemptedRun twoRun (fun P _ => !Kernel.waiting P) = true ∧
    preemptedRun resumedRun (fun _ context => context =
      contextOf { someRegisters with gpr := { someRegisters.gpr with eax := 0 } }) = true := by
  decide +kernel

theorem room_zeros : Room (fun _ => some 0) 0x2000 20 := ⟨by decide, fun _ _ => rfl⟩

theorem loadContext_of_preempted_twoRun :
    ∃ s s2 s3 : SyscallKernel, ∃ P P' : Process, system.Reachable Transition.anyStep s ∧
      s.kernel.active = some (1, P) ∧ s3.kernel.active = some (1, P') ∧
      s.preempt someRegisters (fun _ => 0) (fun _ => some 0) 0x2000 = some s2 ∧
      (systemFrom s2).Reachable (fun s action => leaves 1 s action = true) s3 ∧
      loadContext (callState P'.ctx) = some someRegisters := by
  obtain ⟨s, s2, s3, P, P', hreach, hactive, hpreempt, hlater, hentered, hwait⟩ :=
    exists_of_preemptedRun preemptedRun_runs.1
  exact ⟨s, s2, s3, P, P', hreach, hactive, hentered, hpreempt, hlater,
    loadContext_of_preempted hreach hactive ((Bool.not_eq_true' _).mp hwait) room_zeros hpreempt
      hlater hentered (callsLoadContext_callState _)⟩

/-- The message is delivered to the process as if it waited for it: `EAX`, 1 before,
is `ENONE`. -/
theorem not_loadContext_of_preempted_resumedRun :
    ¬ ∀ s s2 s3 : SyscallKernel, ∀ p P P' u seg memory top t,
      system.Reachable Transition.anyStep s → s.kernel.active = some (p, P) →
      Room memory top 20 → s.preempt u seg memory top = some s2 →
      (systemFrom s2).Reachable (fun s action => leaves p s action = true) s3 →
      s3.kernel.active = some (p, P') → CallsLoadContext t P'.ctx → loadContext t = some u := by
  intro hall
  obtain ⟨s, s2, s3, P, P', hreach, hactive, hpreempt, hlater, hentered, hctx⟩ :=
    exists_of_preemptedRun preemptedRun_runs.2
  have hcall := callsLoadContext_callState P'.ctx
  have hsame := hall s s2 s3 1 P P' _ _ _ _ _ hreach hactive room_zeros hpreempt hlater hentered hcall
  rw [of_decide_eq_true hctx] at hcall hsame
  have hother := (loadContext_eq hcall).symm.trans hsame
  exact absurd hother (by decide)

end SyscallKernel
end QuarkKernel
