import QuarkKernel.Confinement
import QuarkKernel.Multiboot
import QuarkKernel.SyscallRegistry

/-! # The kernel from its boot on

What the parts come to together: `kernel_initialize` sets up the tables, registers
the seven functions of `syscalls.c`, starts one process for each module that the
bootloader brought, and enters the first.  From then on a program runs until it
makes a system call or is interrupted, and each time it is the kernel's turn that
turn is completed: interrupts stay off until a context is loaded or `iret` returns.

An event is a run of few of the kernel's calls (`next_keeps`): none of the seven
functions ends a process or deals with interrupt handlers.  How a module's program gets
into memory is not described again here, nor what `mmap` and `munmap` do to it: the
memory they leave is an argument.

The kernel's tables are values here, and not bytes of that memory.  Neither `receive`
nor `mmap` looks at the address it is given, and with one from `_kernel_start` on a
program gets at these bytes.  The runs are those in which no program passes such an
address (`Event.sparesKernel`); the segments of the modules, too, are below the kernel. -/
namespace QuarkKernel

open ByteMemory (Memory)
open Multiboot (moduleLimit)

/-- What `kernel_load_module` has at hand when it has loaded a module: the page
directory of the new address space, the memory with the program in it, the entry point,
and what the allocators answer to `kernel_spawn_process`. -/
structure BootModule where
  addressSpace : Word
  memory : Word → Memory
  entry : Word
  alloc : SpawnAlloc

/-- What the function that a process calls finds outside of the kernel's tables: what
`kmalloc` answers, the length of a string, and what `mmap` or `munmap` returns and makes
of the memory. -/
structure Answers where
  queue : QueueAlloc
  port : Bool
  node : Bool
  length : Nat
  result : Word
  memory : Word → Memory

/-- The registers `isr_syscall` hands on. -/
structure SystemCall where
  id : Word
  arg1 : Word
  arg2 : Word
  arg3 : Word
  pc : Word
  stack : Word
  flags : Word

/-- The function that `kernel_initialize` registers under an id, and the number of its
arguments. -/
def builtin : Nat → Option (SyscallFunction × Nat)
  | 1 => some (.testSyscall, 1)
  | 2 => some (.mmap, 3)
  | 3 => some (.munmap, 2)
  | 6 => some (.send, 3)
  | 7 => some (.receive, 2)
  | 8 => some (.openPort, 1)
  | 9 => some (.closePort, 1)
  | _ => none

/-- The entry of the table under an id. -/
def builtinEntry (id : Nat) : SyscallEntry :=
  match builtin id with
  | none => .zero
  | some (funcPtr, argCount) => ⟨true, argCount, 0, some funcPtr⟩

/-- The table after the calls of `set_syscall`. -/
def builtinTable : Vector SyscallEntry maxSyscallId := .ofFn fun id => builtinEntry id

namespace Kernel

/-- `kernel_load_module` once the program is in memory.  A process that cannot be
started is a panic. -/
def kernelLoadModule (kernel : Kernel) (module : BootModule) : Option Kernel :=
  let kernel := { kernel with cr3 := module.addressSpace, memory := module.memory }
  if kernel.fresh module.alloc then do
    let (pid, kernel) ← kernel.kernelSpawnProcess module.entry 1 kernel.cr3 module.alloc
    if 0 < pid.toNat then some kernel else none
  else none

/-- The loop over the modules in `kernel_initialize`. -/
def loadModules : List BootModule → Kernel → Option Kernel
  | [], kernel => some kernel
  | module :: modules, kernel => do
      let kernel ← kernel.kernelLoadModule module
      loadModules modules kernel

/-- The bytes of a string, up to the NUL behind them, are there to be read. -/
def readsString (memory : Memory) (str : Word) (length : Nat) : Bool :=
  ((List.range length).all fun i => (memory (str + BitVec.ofNat 32 i)).any (· ≠ 0)) &&
    memory (str + BitVec.ofNat 32 length) = some 0

/-- The calls of the kernel that remain once it has booted. -/
def Op.isBuiltin : Op → Bool
  | .programs _ | .advance | .storeContext _ => true
  | .send _ _ _ _ | .receive _ _ | .createPort _ _ _ | .removePort _ => true
  | _ => false

/-- A function of `syscalls.c`, called by the active process.  Without a value it does
not return. -/
def callBuiltin (kernel : Kernel) (answers : Answers) :
    SyscallFunction → List Word → Option (Option Word × Kernel)
  | .testSyscall, [str] =>
      if readsString (kernel.memory kernel.cr3) str answers.length then some (some 17, kernel)
      else none
  | .mmap, [_, _, _] | .munmap, [_, _] =>
      some (some answers.result, { kernel with memory := answers.memory })
  | .send, [recipient, message, flags] => do
      let (status, kernel) ← kernel.send recipient message flags answers.queue
      some (some status.code, kernel)
  | .receive, [buffer, flags] => do
      let (status, kernel) ← kernel.receive buffer flags
      some (status.map Status.code, kernel)
  | .openPort, [id] => do
      let (status, kernel) ← kernel.kernelCreatePort id answers.port answers.node
      some (some status.code, kernel)
  | .closePort, [id] => do
      let (status, kernel) ← kernel.kernelRemovePort id
      some (some status.code, kernel)
  | _, _ => none

end Kernel

namespace SyscallKernel

/-- `kernel_initialize`: the tables, the calls of `set_syscall`, the modules, and the
process that is entered first. -/
def kernelInitialize (heap : Nat → PriorityQueueNode Ptr) (cr3 : Word) (memory : Word → Memory)
    (modules : List BootModule) : Option SyscallKernel := do
  let s ← Transition.System.runFrom Transition.anyStep step
    { kernel := .kernelInitialize heap cr3 memory
      syscallTable := .replicate maxSyscallId .zero
      inProgress := none } builtinSyscalls
  let kernel ← s.kernel.loadModules modules
  let kernel ← kernel.kernelAdvanceScheduler
  some { s with kernel }

/-- A system call from `isr_syscall` to the value in EAX, if it returns to the process
that made it. -/
def systemCall (s : SyscallKernel) (call : SystemCall) (beyond : SyscallEntry)
    (answers : Answers) : Option (Option Word × SyscallKernel) := do
  let (dispatch, s) ←
    s.doSyscall call.id call.arg1 call.arg2 call.arg3 call.pc call.stack call.flags beyond
  match dispatch with
  | .enosyscall => some (some Status.enosyscall.code, s)
  | .calls none _ => none
  | .calls (some funcPtr) arguments => do
      let (result, kernel) ← s.kernel.callBuiltin answers funcPtr arguments
      if result.isSome then do
        let s ← { s with kernel }.sysReturn
        some (result, s)
      else some (none, { s with kernel, inProgress := none })
  | .skips => do
      -- `result` is not initialized
      let s ← s.sysReturn
      some (some answers.result, s)

/-- `isr_preempt`, with the registers it finds. -/
def preemptWith (s : SyscallKernel) (context : ProcessContext) : Option SyscallKernel := do
  let (_, kernel) ← s.kernel.kernelStoreActiveContext context
  let kernel ← kernel.kernelAdvanceScheduler
  some { s with kernel }

/-- What can happen next: the active program changes its memory, makes a system call, or
is interrupted. -/
inductive Event where
  | program (memory : Memory)
  | systemCall (call : SystemCall) (beyond : SyscallEntry) (answers : Answers)
  | preempt (context : ProcessContext)

/-- The state after an event, if the kernel survives it. -/
def next (s : SyscallKernel) : Event → Option SyscallKernel
  | .program memory => some { s with kernel := s.kernel.setMemory s.kernel.cr3 memory }
  | .systemCall call beyond answers => (s.systemCall call beyond answers).map (·.2)
  | .preempt context => s.preemptWith context

/-- The id is not the one that is checked as if the table had one more entry. -/
def Event.staysInTable : Event → Bool
  | .systemCall call _ _ => call.id.toNat ≠ maxSyscallId
  | _ => true

/-- No message is received in the kernel's part, and no page is mapped or unmapped there. -/
def Event.sparesKernel : Event → Bool
  | .systemCall call _ _ =>
      match builtin call.id.toNat with
      | some (.receive, _) => Kernel.BelowKernel call.arg1 Message.size
      | some (.mmap, _) | some (.munmap, _) => Kernel.BelowKernel call.arg1 call.arg2.toNat
      | _ => true
  | _ => true

/-- The events of the runs. -/
def Event.orderly (event : Event) : Bool := event.staysInTable && event.sparesKernel

/-- The memory after the event comes with it: the program's own stores, and `mmap` and
`munmap`. -/
def Event.bringsMemory : Event → Bool
  | .program _ => true
  | .systemCall call _ _ =>
      match builtin call.id.toNat with
      | some (.mmap, _) | some (.munmap, _) => true
      | _ => false
  | .preempt _ => false

/-- The kernel has just entered the first process. -/
def Starts (modules : List BootModule) (s : SyscallKernel) : Prop :=
  modules.length ≤ moduleLimit ∧
    ∃ heap cr3 memory, kernelInitialize heap cr3 memory modules = some s

/-- Runs of the kernel from its boot with the given modules on. -/
def booted (modules : List BootModule) : Transition.System SyscallKernel Event :=
  .ofStep (Starts modules) next

/-! ### System calls through the table -/

theorem runFrom_builtinSyscalls (kernel : Kernel) :
    Transition.System.runFrom Transition.anyStep step
      { kernel, syscallTable := .replicate maxSyscallId .zero, inProgress := none }
      builtinSyscalls = some { kernel, syscallTable := builtinTable, inProgress := none } := by
  have htable : builtinTable = ((((((((.replicate maxSyscallId .zero :
      Vector SyscallEntry maxSyscallId).set 1 (builtinEntry 1)).set 2 (builtinEntry 2)).set 3
      (builtinEntry 3)).set 6 (builtinEntry 6)).set 7 (builtinEntry 7)).set 8
      (builtinEntry 8)).set 9 (builtinEntry 9)) := by
    decide +kernel
  rw [htable]
  rfl

variable {s s' : SyscallKernel}

theorem entry_builtinTable {id : Nat} (htable : s.syscallTable = builtinTable)
    (hid : id < maxSyscallId) (beyond : SyscallEntry) : s.entry beyond id = builtinEntry id := by
  rw [entry, htable, builtinTable, Vector.getElem?_eq_getElem hid, Vector.getElem_ofFn]
  rfl

/-- The active process with the registers that `do_syscall` sets. -/
def callContext (A : Process) (call : SystemCall) : Process :=
  { A with
    ctx := ((A.ctx.setContextPc call.pc).setContextStack call.stack).setContextFlags call.flags }

/-- A call under an id that `kernel_initialize` registered nothing under is refused. -/
theorem systemCall_of_none {call : SystemCall} (htable : s.syscallTable = builtinTable)
    (hid : call.id.toNat ≠ maxSyscallId) (hnone : builtin call.id.toNat = none)
    (beyond : SyscallEntry) (answers : Answers) :
    s.systemCall call beyond answers = some (some Status.enosyscall.code, s) := by
  have hdo : s.doSyscall call.id call.arg1 call.arg2 call.arg3 call.pc call.stack call.flags
      beyond = some (.enosyscall, s) := by
    rw [doSyscall]
    split
    · rfl
    · rename_i i hi
      obtain ⟨hlt, rfl⟩ := syscallIndex_lt (by omega) hi
      simp only [Int.toNat_natCast] at hlt ⊢
      rw [entry_builtinTable htable hlt, builtinEntry, hnone]
      rfl
  rw [systemCall, hdo]
  rfl

theorem builtin_lt {id argCount : Nat} {funcPtr : SyscallFunction}
    (h : builtin id = some (funcPtr, argCount)) : id < maxSyscallId ∧ argCount ≤ 3 := by
  unfold builtin at h
  split at h <;> cases h <;> decide

/-- A call under one of the other ids goes to the function registered there. -/
theorem systemCall_of_some {call : SystemCall} {funcPtr : SyscallFunction} {argCount : Nat}
    (htable : s.syscallTable = builtinTable) (hnone : s.inProgress = none)
    (hsome : builtin call.id.toNat = some (funcPtr, argCount)) {a : Ptr} {A : Process}
    (ha : s.kernel.active = some (a, A)) (beyond : SyscallEntry) (answers : Answers) :
    s.systemCall call beyond answers =
      ((s.kernel.setProcess a (callContext A call)).callBuiltin answers funcPtr
        ([call.arg1, call.arg2, call.arg3].take argCount)).map
          fun result => (result.1, { s with kernel := result.2 }) := by
  obtain ⟨hlt, hcount⟩ := builtin_lt hsome
  have hindex : syscallIndex call.id.toNat = some call.id.toNat := by
    rw [syscallIndex, if_neg (by omega)]
    rfl
  have hdo : s.doSyscall call.id call.arg1 call.arg2 call.arg3 call.pc call.stack call.flags
      beyond = some (.calls (some funcPtr) ([call.arg1, call.arg2, call.arg3].take argCount),
        { s with
          kernel := s.kernel.setProcess a (callContext A call)
          inProgress := some ⟨false, s.kernel.cr3⟩ }) := by
    rw [doSyscall, hindex]
    simp only
    rw [entry_builtinTable htable hlt, builtinEntry, hsome]
    simp only [Bool.not_true, Bool.false_eq_true, if_false, lt_irrefl]
    rw [callFunction, Kernel.setActiveContext, ha]
    have hcount' : (0 : Int) ≤ argCount ∧ (argCount : Int) ≤ 3 := by omega
    simp [hcount', callContext, Kernel.setProcess]
  rw [systemCall, hdo]
  simp only [Option.bind_eq_bind, Option.bind_some]
  cases hcall : (s.kernel.setProcess a (callContext A call)).callBuiltin answers funcPtr
      ([call.arg1, call.arg2, call.arg3].take argCount) with
  | none => rfl
  | some result =>
    obtain ⟨value, kernel⟩ := result
    cases value with
    | none => simp [← hnone]
    | some value => simp [sysReturn, ← hnone]

/-! ### An event is a few calls of the kernel -/

/-- A call that the kernel makes in an event. -/
structure Event.Makes (event : Event) (k : Kernel) (op : Kernel.Op) : Prop where
  builtin : op.isBuiltin = true
  spares : op.sparesKernel k = true
  exchanges : event.bringsMemory = false → ∀ memory, op ≠ .programs memory

/-- A function of `syscalls.c` does nothing, or makes one call. -/
theorem callBuiltin_step {k k' : Kernel} {answers : Answers} {funcPtr : SyscallFunction}
    {arguments : List Word} {result : Option Word}
    (hspares : ∀ buffer flags, funcPtr = .receive → arguments = [buffer, flags] →
      Kernel.BelowKernel buffer Message.size)
    (h : k.callBuiltin answers funcPtr arguments = some (result, k')) :
    k' = k ∨ ∃ op, Kernel.Op.isBuiltin op = true ∧ op.sparesKernel k = true ∧
      ((∃ memory, op = .programs memory) → funcPtr = .mmap ∨ funcPtr = .munmap) ∧
      k.step op = some k' := by
  unfold Kernel.callBuiltin at h
  split at h
  · split at h <;> cases h
    exact .inl rfl
  · cases h
    exact .inr ⟨.programs answers.memory, rfl, rfl, fun _ => .inl rfl, rfl⟩
  · cases h
    exact .inr ⟨.programs answers.memory, rfl, rfl, fun _ => .inr rfl, rfl⟩
  · rename_i recipient message flags
    obtain ⟨⟨status, k1⟩, hk, h⟩ := Option.bind_eq_some_iff.mp h
    cases h
    refine .inr ⟨.send recipient message flags answers.queue, rfl, rfl, ?_, ?_⟩
    · rintro ⟨memory, hop⟩
      cases hop
    · rw [Kernel.step, hk]
      rfl
  · rename_i buffer flags
    obtain ⟨⟨status, k1⟩, hk, h⟩ := Option.bind_eq_some_iff.mp h
    cases h
    refine .inr ⟨.receive buffer flags, rfl, decide_eq_true (hspares buffer flags rfl rfl),
      ?_, ?_⟩
    · rintro ⟨memory, hop⟩
      cases hop
    · rw [Kernel.step, hk]
      rfl
  · rename_i id
    obtain ⟨⟨status, k1⟩, hk, h⟩ := Option.bind_eq_some_iff.mp h
    cases h
    refine .inr ⟨.createPort id answers.port answers.node, rfl, rfl, ?_, ?_⟩
    · rintro ⟨memory, hop⟩
      cases hop
    · rw [Kernel.step, hk]
      rfl
  · rename_i id
    obtain ⟨⟨status, k1⟩, hk, h⟩ := Option.bind_eq_some_iff.mp h
    cases h
    refine .inr ⟨.removePort id, rfl, rfl, ?_, ?_⟩
    · rintro ⟨memory, hop⟩
      cases hop
    · rw [Kernel.step, hk]
      rfl
  · cases h

/-- A change to the context of the active process is one that `isr_preempt` can make. -/
theorem step_storeContext {k : Kernel} {a : Ptr} {A : Process} (ha : k.active = some (a, A))
    (ctx : ProcessContext) :
    k.step (.storeContext ctx) = some (k.setProcess a { A with ctx }) := by
  obtain ⟨hactive, hA⟩ := Kernel.active_eq_some.mp ha
  rw [Kernel.step, Kernel.kernelStoreActiveContext, hactive]
  simp [hA]

theorem staysInTable_of_orderly {event : Event} (h : event.orderly = true) :
    event.staysInTable = true :=
  (Bool.and_eq_true_iff.mp h).1

/-- A buffer that is handed to `receive` is below the kernel. -/
theorem belowKernel_of_orderly {call : SystemCall} {beyond : SyscallEntry} {answers : Answers}
    (h : Event.orderly (.systemCall call beyond answers) = true) {argCount : Nat}
    (hbuiltin : builtin call.id.toNat = some (.receive, argCount)) :
    Kernel.BelowKernel call.arg1 Message.size := by
  have hspares := (Bool.and_eq_true_iff.mp h).2
  rw [Event.sparesKernel, hbuiltin] at hspares
  exact of_decide_eq_true hspares

theorem bringsMemory_of_builtin {call : SystemCall} {funcPtr : SyscallFunction} {argCount : Nat}
    (hbuiltin : builtin call.id.toNat = some (funcPtr, argCount))
    (h : funcPtr = .mmap ∨ funcPtr = .munmap) (beyond : SyscallEntry) (answers : Answers) :
    Event.bringsMemory (.systemCall call beyond answers) = true := by
  rw [Event.bringsMemory, hbuiltin]
  rcases h with rfl | rfl <;> rfl

/-- **The event rule.**  What every call that an event makes keeps, the event keeps, and the
table stays as it is. -/
theorem next_keeps {Inv : Kernel → Prop} {event : Event}
    (hstep : ∀ k op k', Inv k → event.Makes k op → k.step op = some k' → Inv k')
    (hlives : ∀ k, Inv k → ∃ a A, k.active = some (a, A))
    (htable : s.syscallTable = builtinTable) (hnone : s.inProgress = none)
    (horderly : event.orderly = true) (h : Inv s.kernel) (hnext : s.next event = some s') :
    Inv s'.kernel ∧ s'.syscallTable = builtinTable ∧ s'.inProgress = none := by
  obtain ⟨a, A, ha⟩ := hlives _ h
  cases event with
  | program memory =>
    cases hnext
    have hmakes : (Event.program memory).Makes s.kernel
        (.programs (Function.update s.kernel.memory s.kernel.cr3 memory)) :=
      ⟨rfl, rfl, fun hbrings => by cases hbrings⟩
    exact ⟨hstep _ _ _ h hmakes rfl, htable, hnone⟩
  | preempt context =>
    obtain ⟨⟨status, k1⟩, hk1, hnext⟩ := Option.bind_eq_some_iff.mp hnext
    obtain ⟨k2, hk2, hnext⟩ := Option.bind_eq_some_iff.mp hnext
    cases hnext
    have hstored : s.kernel.step (.storeContext context) = some k1 := by
      rw [Kernel.step, hk1]
      rfl
    have h1 := hstep _ _ _ h ⟨rfl, rfl, fun _ _ hop => by cases hop⟩ hstored
    exact ⟨hstep _ .advance _ h1 ⟨rfl, rfl, fun _ _ hop => by cases hop⟩ hk2, htable, hnone⟩
  | systemCall call beyond answers =>
    obtain ⟨⟨result, s1⟩, hcall, rfl⟩ := Option.map_eq_some_iff.mp hnext
    have hid : call.id.toNat ≠ maxSyscallId :=
      of_decide_eq_true (staysInTable_of_orderly horderly)
    rcases hbuiltin : builtin call.id.toNat with _ | ⟨funcPtr, argCount⟩
    · rw [systemCall_of_none htable hid hbuiltin] at hcall
      cases hcall
      exact ⟨h, htable, hnone⟩
    · rw [systemCall_of_some htable hnone hbuiltin ha] at hcall
      obtain ⟨⟨result', k'⟩, hk', heq⟩ := Option.map_eq_some_iff.mp hcall
      cases heq
      have h1 := hstep _ _ _ h ⟨rfl, rfl, fun _ _ hop => by cases hop⟩
        (step_storeContext ha (callContext A call).ctx)
      have hspares : ∀ buffer flags, funcPtr = .receive →
          [call.arg1, call.arg2, call.arg3].take argCount = [buffer, flags] →
          Kernel.BelowKernel buffer Message.size := by
        rintro buffer flags rfl harguments
        have hcount : argCount = 2 := by
          have hlength := congrArg List.length harguments
          simp only [List.length_take, List.length_cons, List.length_nil] at hlength
          omega
        subst hcount
        rw [← (List.cons.inj harguments).1]
        exact belowKernel_of_orderly horderly hbuiltin
      rcases callBuiltin_step hspares hk' with rfl | ⟨op, hop, hspared, hbrings, hst⟩
      · exact ⟨h1, htable, hnone⟩
      · refine ⟨hstep _ _ _ h1 ⟨hop, hspared, fun hnot memory heq => ?_⟩ hst, htable, hnone⟩
        have hbrings' := bringsMemory_of_builtin hbuiltin (hbrings ⟨memory, heq⟩) beyond answers
        rw [hnot] at hbrings'
        cases hbrings'

end SyscallKernel
end QuarkKernel
