import QuarkKernel.InterruptEntry
import QuarkKernel.BlockingReceive

/-! # The path of a system call

From the `int` instruction of the program through the gate of `isr_syscall` to
`do_syscall`, and from there back to the program.  `calledState` is the whole state of
the processor at the call, and `returnedRegisters` are the registers that the program
goes on with: those the calling convention of `do_syscall` preserves, but for `%esi`,
which `isr_syscall` uses for the program's `%eip`, and `%ebp`, which it leaves pointing
into the kernel's stack (`handle_syscall`). -/
namespace QuarkKernel

open ByteMemory X86
open SyscallKernel (someRegisters callDoSyscall)

/-- `mov $imm, %reg` of 16 bits keeps the upper half. -/
def lowHalf (w : Word) (half : BitVec 16) : Word := w.extractLsb' 16 16 ++ half

/-- All data segment registers get one selector. -/
theorem run_loadSelector (s : State) (w : Word) (r : Reg) :
    s.run [.mov16 (.imm w) r, .movSeg r .ds, .movSeg r .es, .movSeg r .fs, .movSeg r .gs] =
      some { s.setReg (lowHalf (s.gpr.get r) (w.setWidth 16)) r with
        seg := fun _ => w.setWidth 16 } := by
  let s' := s.setReg (lowHalf (s.gpr.get r) (w.setWidth 16)) r
  have hsegs : s'.run [.movSeg r .ds, .movSeg r .es, .movSeg r .fs, .movSeg r .gs] =
      some { s' with seg := fun _ => (s'.gpr.get r).setWidth 16 } := by
    refine congrArg some (congrArg (State.mk s'.gpr · s'.interruptFlag s'.memory) ?_)
    funext d
    cases d <;> rfl
  have hlow : (s'.gpr.get r).setWidth 16 = w.setWidth 16 := by
    rw [show s'.gpr.get r = lowHalf (s.gpr.get r) (w.setWidth 16) by cases r <;> rfl]
    exact BitVec.setWidth_append_eq_right
  exact hsegs.trans (congrArg (fun half => some { s' with seg := fun _ => half }) hlow)

/-- The processor when `isr_syscall` calls `do_syscall`, with the kernel's stack below
`top`. -/
def calledState (u : UserRegisters) (memory : Memory) (top : Word) : State :=
  onStack memory top
    { gpr := { u.gpr with eax := lowHalf u.gpr.eax 0x10, esi := u.eip, ebp := below top 5 }
      seg := fun _ => 0x10
      interruptFlag := false
      memory } (syscallWords u)

/-- The registers after a system call that left `ecx` and `edx` behind. -/
def returnedRegisters (u : UserRegisters) (top result ecx edx : Word) : UserRegisters :=
  { u with
    gpr :=
      { u.gpr with
        eax := result
        ecx := lowHalf ecx 0x23
        edx
        esi := u.eip
        ebp := below top 5 } }

section Path
variable {memory : Memory} {top : Word} {n : Nat} {s : State} {words : List Word}
  {code : List Instr} {Q : State → Prop} {u : UserRegisters}

/-- `mov disp(%ebp), %esi` and `push %esi`: the word at the `i`-th place below `top`. -/
theorem wp_pushFromFrame (hroom : Room memory top n) (hebp : s.gpr.ebp = below top 5)
    {disp w : Word} (i : Nat) (haddr : below top 5 + disp = below top i)
    (hw : words.getD (words.length - i) 0 = w) (hi : 0 < i ∧ i ≤ words.length)
    (hlen : words.length < n)
    (h : (onStack memory top (s.setReg w .esi) (w :: words)).wp code Q) :
    (onStack memory top s words).wp
      (.mov (.mem disp .ebp) .esi :: .push (.reg .esi) :: code) Q := by
  have hsmall := hroom.1
  have hplace : s.gpr.get .ebp + disp = below top i := by
    rw [← haddr, ← hebp]
    rfl
  have hsrc : (onStack memory top s words).operand (.mem disp .ebp) = some w := by
    rw [operand_mem_onStack (by decide) (by omega) i hi.1 hi.2 hplace, hw]
  exact wp_mov (by decide) hsrc (wp_push hroom hlen (operand_onStack (by decide)) h)

/-- **`isr_syscall` up to the call.** -/
theorem run_isrSyscallEntry (u : UserRegisters) (seg : DataSeg → BitVec 16)
    (hroom : Room memory top 12) :
    (entryState false u seg memory top .software).run isrSyscallEntry =
      some (calledState u memory top) := by
  have hlen : u.frame.length = 5 := rfl
  have hplace : ∀ i, i ≤ 5 → below top 5 + BitVec.ofNat 32 (4 * i) = below top (5 - i) :=
    fun i hi => addrAt_below top hi
  obtain ⟨t, hrun, ht⟩ : (onStack memory top ⟨u.gpr, seg, false, memory⟩ u.frame).wp
      isrSyscallEntry fun t => t = calledState u memory top := by
    refine wp_cons rfl (wp_mov (w := below top 5) (by decide) rfl ?_)
    refine wp_pushFromFrame (w := u.eflags) hroom rfl 3 (hplace 2 (by decide)) rfl
      (by simp [hlen]) (by simp [hlen]) ?_
    refine wp_pushFromFrame (w := u.gpr.esp) hroom rfl 2 (hplace 3 (by decide)) rfl
      (by simp [hlen]) (by simp [hlen]) ?_
    refine wp_pushFromFrame (w := u.eip) hroom rfl 5 (hplace 0 (by decide)) rfl
      (by simp [hlen]) (by simp [hlen]) ?_
    refine wp_push (w := u.gpr.edx) hroom (by simp [hlen]) rfl ?_
    refine wp_push (w := u.gpr.ecx) hroom (by simp [hlen]) rfl ?_
    refine wp_push (w := u.gpr.ebx) hroom (by simp [hlen]) rfl ?_
    refine wp_push (w := u.gpr.eax) hroom (by simp [hlen]) rfl ?_
    exact ⟨_, run_loadSelector _ 0x10 .eax, rfl⟩
  rw [← ht]
  exact hrun

theorem atCall_calledState (u : UserRegisters) (memory : Memory) (top : Word) :
    AtCall u (calledState u memory top) := by
  have hlen : 4 * (syscallWords u).length ≤ 2 ^ 32 := show 4 * 12 ≤ 2 ^ 32 by decide
  exact ⟨loadWords_stack memory top _ hlen 0 7 (by decide : 0 + 7 ≤ 12),
    loadWords_stack memory top _ hlen 7 5 (by decide : 7 + 5 ≤ 12), rfl, rfl⟩

/-- **`isr_syscall` after the call.** -/
theorem run_isrSyscallExit {returned : State} {result : Word}
    (h : ReturnsFrom (calledState u memory top) returned result) :
    ∃ t, returned.run isrSyscallExit = some t ∧ (∀ d, t.seg d = 0x23) ∧
      iret t = some (returnedRegisters u top result returned.gpr.ecx returned.gpr.edx) := by
  let s : State := { returned with
    gpr := { returned.gpr with esp := returned.gpr.ebp, ecx := lowHalf returned.gpr.ecx 0x23 } }
  have hrun : returned.run isrSyscallExit = some { s with seg := fun _ => 0x23 } :=
    run_loadSelector (returned.setReg returned.gpr.ebp .esp) 0x23 .ecx
  have hframe : loadWords returned.memory returned.gpr.ebp 5 = some u.frame := by
    rw [h.ebp, h.frame]
    exact (atCall_calledState u memory top).frame
  refine ⟨_, hrun, fun _ => rfl, ?_⟩
  have hgpr : s.gpr.set u.gpr.esp .esp =
      (returnedRegisters u top result returned.gpr.ecx returned.gpr.edx).gpr := by
    show Registers.mk returned.gpr.eax returned.gpr.ebx (lowHalf returned.gpr.ecx 0x23)
      returned.gpr.edx returned.gpr.esi returned.gpr.edi returned.gpr.ebp u.gpr.esp = _
    rw [h.eax, h.ebx, h.esi, h.edi, h.ebp]
    rfl
  rw [iret_of_frame hframe]
  exact congrArg (fun gpr => some { u with gpr }) hgpr

end Path
namespace KernelImage
variable {l : KernelImage} {r r0 : SystemRegisters} {memory memory0 memory1 : Memory}

/-- **The path of a system call.**  The `int` instruction leads to `isr_syscall`, which calls
`do_syscall` with the program's registers, on the kernel's data segments and with interrupts off;
of the memory nothing changes but the twelve words below the top of the kernel's stack.  When
`do_syscall` returns, the program goes on after the instruction, with the result in `%eax`, its
own `%ebx`, `%edi`, stack and flags, its program counter in `%esi` and an address of the kernel's
stack in `%ebp`. -/
theorem handle_syscall (hapart : l.TablesApart)
    (hinit : l.initializeTables r0 memory0 = .ok (r, memory1))
    (hkept : l.TablesKept memory1 memory) (hroom : Room memory l.stackTop 12)
    (u : UserRegisters) (seg : DataSeg → BitVec 16) :
    (∃ s, r.handle memory u seg 128 .software = .ok (.handler ⟨l.isrSyscall, 8, 0x10, s⟩) ∧
      s.run isrSyscallEntry = some (calledState u memory l.stackTop)) ∧
    (∀ (k : SyscallKernel) beyond, k.callDoSyscall (calledState u memory l.stackTop) beyond =
      k.doSyscall u.gpr.eax u.gpr.ebx u.gpr.ecx u.gpr.edx u.eip u.gpr.esp u.eflags beyond) ∧
    (∀ x, 48 ≤ (x - below l.stackTop 12).toNat →
      (calledState u memory l.stackTop).memory x = memory x) ∧
    ∀ returned result, ReturnsFrom (calledState u memory l.stackTop) returned result →
      ∃ t, returned.run isrSyscallExit = some t ∧ (∀ d, t.seg d = 0x23) ∧
        iret t = some
          (returnedRegisters u l.stackTop result returned.gpr.ecx returned.gpr.edx) := by
  obtain ⟨-, hhandle⟩ := handle_software hapart hinit hkept (hroom.mono (by decide)) u seg 128
  refine ⟨⟨_, hhandle, run_isrSyscallEntry u seg hroom⟩, ?_, ?_, ?_⟩
  · intro k beyond
    exact SyscallKernel.callDoSyscall_eq (atCall_calledState u memory l.stackTop)
  · intro x hx
    exact writeWords_of_le hx
  · intro returned result hreturns
    exact run_isrSyscallExit hreturns

/-- The first test call of a process, and how it goes on. -/
theorem handle_syscall_kernelImage : ∃ (memory : Memory) (returned t : State),
    ReturnsFrom (calledState someRegisters memory 0xFF414000) returned 0 ∧
      returned.run isrSyscallExit = some t ∧ (∀ d, t.seg d = 0x23) ∧
      iret t = some (returnedRegisters someRegisters 0xFF414000 0 someRegisters.gpr.ecx
        someRegisters.gpr.edx) := by
  obtain ⟨r, memory, hinit, hroom⟩ := exists_kernelImage
  obtain ⟨-, -, -, hreturn⟩ := handle_syscall tablesApart_kernelImage hinit .refl
    (hroom 12 (by decide)) someRegisters (fun _ => 0x23)
  let called := calledState someRegisters memory 0xFF414000
  have hreturns : ReturnsFrom called (called.setReg 0 .eax) 0 := ⟨rfl, rfl, rfl, rfl, rfl, rfl, rfl⟩
  obtain ⟨t, hrun, hsegs, hiret⟩ := hreturn _ 0 hreturns
  exact ⟨memory, _, t, hreturns, hrun, hsegs, hiret⟩

end KernelImage
end QuarkKernel
