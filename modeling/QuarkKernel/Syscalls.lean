import QuarkKernel.ReadyOnce

/-! # System calls

The table in `kernel.c` of functions that processes can call, `set_syscall` and
`do_syscall`.

A called function is kernel code that may do anything with the kernel: make any
calls in any order, register further functions, load other address spaces.  So
`do_syscall` is two steps, up to the call of the function (`doSyscall`) and from
its return on (`sysReturn`), and a run is free to do anything in between.  A
function that enters another process does not return.

The table is followed in memory by other fields of the kernel.  What these hold,
read as one more entry, is the argument `beyond`; nothing is modelled of a kernel
that has written there. -/
namespace QuarkKernel

/-- `MAX_SYSCALL_ID` -/
def maxSyscallId : Nat := 256

/-- What a function pointer can refer to: the functions of `syscalls.c`, or other
code of the kernel. -/
inductive SyscallFunction where
  | testSyscall | mmap | munmap | send | receive | openPort | closePort
  | other (code : Word)
deriving DecidableEq, Repr

/-- `struct syscall_t` -/
structure SyscallEntry where
  defined : Bool
  argCount : Int
  processId : Int
  funcPtr : Option SyscallFunction
deriving DecidableEq, Repr

/-- The entry `memset` leaves. -/
def SyscallEntry.zero : SyscallEntry := ⟨false, 0, 0, none⟩

/-- A call of a function by `do_syscall` from which it has not returned: whether
the address space was switched for it, and which one it found loaded. -/
structure SyscallInProgress where
  switchedAddressSpace : Bool
  cr3 : Word
deriving DecidableEq, Repr

/-- What `do_syscall` comes to when it leaves the lookup in the table: it returns
`ENOSYSCALL`, it calls a function, or it goes on with no case of its `switch`
taken and no result set. -/
inductive Dispatch where
  | enosyscall
  | calls (funcPtr : Option SyscallFunction) (arguments : List Word)
  | skips
deriving DecidableEq, Repr

/-- The kernel with its table of system calls. -/
structure SyscallKernel where
  kernel : Kernel
  syscallTable : Vector SyscallEntry maxSyscallId
  inProgress : Option SyscallInProgress

/-- The index into `syscall_table` that `set_syscall` and `do_syscall` use for an
id; none if they return before they use one. -/
def syscallIndex (id : Int) : Option Nat :=
  if id < 0 ∨ id > maxSyscallId then none else some id.toNat

namespace Kernel

/-- What `do_syscall` sets in the context of the active process. -/
def setActiveContext (kernel : Kernel) (pc stack flags : Word) : Option Kernel := do
  let (p, process) ← kernel.active
  let ctx := ((process.ctx.setContextPc pc).setContextStack stack).setContextFlags flags
  some (kernel.setProcess p { process with ctx })

/-- The call ends in `load_context`: it does not return but enters a process. -/
def enters (kernel : Kernel) : Op → Bool
  | .advance => true
  | .receive buffer flags => (kernel.receive buffer flags).any (·.1.isNone)
  | .signalReturn => kernel.kernelSignalReturn.any (·.1.isNone)
  | _ => false

theorem setActiveContext_cases {k k' : Kernel} {pc stack flags : Word}
    (h : k.setActiveContext pc stack flags = some k') :
    ∃ a A ctx, k.active = some (a, A) ∧ k' = k.setProcess a { A with ctx } := by
  obtain ⟨⟨a, A⟩, ha, h⟩ := Option.bind_eq_some_iff.mp h
  cases h
  exact ⟨a, A, _, ha, rfl⟩

end Kernel

namespace SyscallKernel

/-- `kernel.syscall_table[i]` -/
def entry (s : SyscallKernel) (beyond : SyscallEntry) (i : Nat) : SyscallEntry :=
  (s.syscallTable[i]?).getD beyond

/-- An assignment to `kernel.syscall_table[i]`. -/
def setEntry (s : SyscallKernel) (i : Nat) (entry : SyscallEntry) : Option SyscallKernel :=
  if h : i < maxSyscallId then some { s with syscallTable := s.syscallTable.set i entry }
  else none

/-- `set_syscall` -/
def setSyscall (s : SyscallKernel) (id argCount pid : Int) (funcPtr : Option SyscallFunction)
    (beyond : SyscallEntry) : Option (Status × SyscallKernel) :=
  match syscallIndex id with
  | none => some (.eoutofbounds, s)
  | some i =>
      if (s.entry beyond i).defined then some (.einvalidarg, s)
      else if argCount < 0 ∨ argCount > 3 then some (.einvalidarg, s)
      else if pid ≠ 0 ∧ s.kernel.processTable.avlGet pid = none then some (.edoesntexist, s)
      else if funcPtr = none then some (.enullptr, s)
      else do
        let s ← s.setEntry i ⟨true, argCount, pid, funcPtr⟩
        some (.enone, s)

/-- The part of `do_syscall` that calls the function of an entry. -/
def callFunction (s : SyscallKernel) (entry : SyscallEntry) (switchedAddressSpace : Bool)
    (arguments : List Word) (pc stack flags : Word) : Option (Dispatch × SyscallKernel) := do
  let kernel ← s.kernel.setActiveContext pc stack flags
  let s := { s with kernel, inProgress := some ⟨switchedAddressSpace, kernel.cr3⟩ }
  if 0 ≤ entry.argCount ∧ entry.argCount ≤ 3 then
    some (.calls entry.funcPtr (arguments.take entry.argCount.toNat), s)
  else some (.skips, s)

/-- `do_syscall` up to the call of the function.  `id` is unsigned. -/
def doSyscall (s : SyscallKernel) (id arg1 arg2 arg3 pc stack flags : Word)
    (beyond : SyscallEntry) : Option (Dispatch × SyscallKernel) :=
  match syscallIndex id.toNat with
  | none => some (.enosyscall, s)
  | some i =>
      let entry := s.entry beyond i
      if !entry.defined then some (.enosyscall, s)
      else if 0 < entry.processId then
        match s.kernel.processTable.avlGet entry.processId with
        | none => do
            let s ← s.setEntry i { entry with defined := false }
            some (.enosyscall, s)
        | some p => do
            let callee ← s.kernel.processes p
            { s with kernel := s.kernel.loadAddressSpace callee.pageTable }.callFunction entry true
              [arg1, arg2, arg3] pc stack flags
      else s.callFunction entry false [arg1, arg2, arg3] pc stack flags

/-- `do_syscall` from the return of the function on. -/
def sysReturn (s : SyscallKernel) : Option SyscallKernel := do
  let call ← s.inProgress
  if call.switchedAddressSpace then do
    let (_, process) ← s.kernel.active
    some { s with kernel := s.kernel.loadAddressSpace process.pageTable, inProgress := none }
  else some { s with inProgress := none }

/-! ### Runs -/

/-- What can happen next.  Address spaces are loaded on their own by a function
that a process called, and while no process runs. -/
inductive Action where
  | kernel (op : Kernel.Op)
  | loadAddressSpace (space : Word)
  | setSyscall (id argCount pid : Int) (funcPtr : Option SyscallFunction) (beyond : SyscallEntry)
  | doSyscall (id arg1 arg2 arg3 pc stack flags : Word) (beyond : SyscallEntry)
  | sysReturn

/-- The state after a step, if the kernel survives it. -/
def step (s : SyscallKernel) : Action → Option SyscallKernel
  | .kernel op => do
      let kernel ← s.kernel.step op
      some { s with kernel, inProgress := if s.kernel.enters op then none else s.inProgress }
  | .loadAddressSpace space =>
      if s.inProgress.isSome ∨ s.kernel.activeProcess = none then
        some { s with kernel := s.kernel.loadAddressSpace space }
      else none
  | .setSyscall id argCount pid funcPtr beyond =>
      (s.setSyscall id argCount pid funcPtr beyond).map (·.2)
  | .doSyscall id arg1 arg2 arg3 pc stack flags beyond =>
      if s.inProgress = none then
        (s.doSyscall id arg1 arg2 arg3 pc stack flags beyond).map (·.2)
      else none
  | .sysReturn => s.sysReturn

/-- `kernel_initialize` up to the first call of `set_syscall`. -/
def Boot (s : SyscallKernel) : Prop :=
  s.kernel.Boot ∧ s.syscallTable = .replicate maxSyscallId .zero ∧ s.inProgress = none

/-- Runs of the kernel with system calls. -/
def system : Transition.System SyscallKernel Action := .ofStep Boot step

/-- The state concrete runs start from. -/
def bare : SyscallKernel where
  kernel := .bare
  syscallTable := .replicate maxSyscallId .zero
  inProgress := none

theorem boot_bare : bare.Boot := ⟨Kernel.boot_bare, rfl, rfl⟩

/-- The calls of `set_syscall` in `kernel_initialize`. -/
def builtinSyscalls : List Action :=
  [.setSyscall 1 1 0 (some .testSyscall) .zero, .setSyscall 2 3 0 (some .mmap) .zero,
    .setSyscall 3 2 0 (some .munmap) .zero, .setSyscall 6 3 0 (some .send) .zero,
    .setSyscall 7 2 0 (some .receive) .zero, .setSyscall 8 1 0 (some .openPort) .zero,
    .setSyscall 9 1 0 (some .closePort) .zero]

/-! ### What a step does to the kernel -/

/-- What a step does to the kernel under the table: what a call of the kernel does,
or at most another loaded address space and another context of the active process. -/
inductive KernelStep (k k' : Kernel) : Action → Prop
  | call {op : Kernel.Op} (hst : k.step op = some k') : KernelStep k k' (.kernel op)
  | loads {action : Action} (space : Word) (hk : k' = k.loadAddressSpace space) :
      KernelStep k k' action
  | setsContext {action : Action} (a : Ptr) (A : Process) (space : Word) (ctx : ProcessContext)
      (hactive : k.active = some (a, A))
      (hk : k' = (k.loadAddressSpace space).setProcess a { A with ctx }) : KernelStep k k' action

variable {s s' : SyscallKernel}

theorem kernel_setEntry {i : Nat} {entry : SyscallEntry} (h : s.setEntry i entry = some s') :
    s'.kernel = s.kernel := by
  rw [setEntry] at h
  split at h
  · cases h
    rfl
  · cases h

theorem kernel_setSyscall {id argCount pid : Int} {funcPtr : Option SyscallFunction}
    {beyond : SyscallEntry} {r : Status}
    (h : s.setSyscall id argCount pid funcPtr beyond = some (r, s')) : s'.kernel = s.kernel := by
  rw [setSyscall] at h
  split at h
  · cases h
    rfl
  · repeat' split at h
    all_goals try (cases h; rfl)
    obtain ⟨s1, hs1, h⟩ := Option.bind_eq_some_iff.mp h
    cases h
    exact kernel_setEntry hs1

theorem kernelStep_callFunction {action : Action} {entry : SyscallEntry} {switched : Bool}
    {arguments : List Word} {pc stack flags : Word} {d : Dispatch} (space : Word)
    (h : { s with kernel := s.kernel.loadAddressSpace space }.callFunction entry switched arguments
      pc stack flags = some (d, s')) : KernelStep s.kernel s'.kernel action := by
  obtain ⟨k1, hk1, h⟩ := Option.bind_eq_some_iff.mp h
  obtain ⟨a, A, ctx, ha, rfl⟩ := Kernel.setActiveContext_cases hk1
  simp only at h
  split at h
  · cases h
    exact .setsContext a A space ctx ha rfl
  · cases h
    exact .setsContext a A space ctx ha rfl

theorem kernelStep_doSyscall {action : Action} {id arg1 arg2 arg3 pc stack flags : Word}
    {beyond : SyscallEntry} {d : Dispatch}
    (h : s.doSyscall id arg1 arg2 arg3 pc stack flags beyond = some (d, s')) :
    KernelStep s.kernel s'.kernel action := by
  rw [doSyscall] at h
  split at h
  · cases h
    exact .loads s.kernel.cr3 rfl
  · simp only at h
    split at h
    · cases h
      exact .loads s.kernel.cr3 rfl
    · split at h
      · split at h
        · obtain ⟨s1, hs1, h⟩ := Option.bind_eq_some_iff.mp h
          cases h
          exact .loads s.kernel.cr3 (kernel_setEntry hs1)
        · obtain ⟨callee, -, h⟩ := Option.bind_eq_some_iff.mp h
          exact kernelStep_callFunction callee.pageTable h
      · exact kernelStep_callFunction s.kernel.cr3 h

theorem step_kernelStep {action : Action} (h : s.step action = some s') :
    KernelStep s.kernel s'.kernel action := by
  cases action with
  | kernel op =>
    obtain ⟨k', hk', h⟩ := Option.bind_eq_some_iff.mp h
    cases h
    exact .call hk'
  | loadAddressSpace space =>
    rw [step] at h
    split at h
    · cases h
      exact .loads space rfl
    · cases h
  | setSyscall id argCount pid funcPtr beyond =>
    obtain ⟨⟨r, s1⟩, hs1, rfl⟩ := Option.map_eq_some_iff.mp h
    exact .loads s.kernel.cr3 (kernel_setSyscall hs1)
  | doSyscall id arg1 arg2 arg3 pc stack flags beyond =>
    rw [step] at h
    split at h
    · obtain ⟨⟨d, s1⟩, hs1, rfl⟩ := Option.map_eq_some_iff.mp h
      exact kernelStep_doSyscall hs1
    · cases h
  | sysReturn =>
    obtain ⟨call, -, h⟩ := Option.bind_eq_some_iff.mp h
    split at h
    · obtain ⟨⟨a, A⟩, -, h⟩ := Option.bind_eq_some_iff.mp h
      cases h
      exact .loads A.pageTable rfl
    · cases h
      exact .loads s.kernel.cr3 rfl

/-- The process table stays well-formed in every run. -/
theorem KernelStep.wellFormed {k k' : Kernel} {action : Action} (hw : k.WellFormed)
    (h : KernelStep k k' action) : k'.WellFormed := by
  cases h with
  | call hst => exact hw.step hst
  | loads space hk =>
    rw [hk]
    exact hw.congr rfl rfl
  | setsContext a A space ctx hactive hk =>
    have hsame : Kernel.SameIdentity A { A with ctx } := ⟨rfl, rfl, rfl⟩
    rw [hk]
    exact hw.edit (Kernel.active_eq_some.mp hactive).2 hsame rfl rfl

theorem wellFormed_step {action : Action} (hw : s.kernel.WellFormed)
    (h : s.step action = some s') : s'.kernel.WellFormed :=
  (step_kernelStep h).wellFormed hw

theorem wellFormed_of_reachable {ok : SyscallKernel → Action → Prop}
    (h : system.Reachable ok s) : s.kernel.WellFormed := by
  refine h.invariant (fun s => s.kernel.WellFormed) ?_ ?_
  · intro s hs
    exact .boot hs.1
  · intro s action s' hw _ hst
    exact wellFormed_step hw hst

end SyscallKernel
end QuarkKernel
