import QuarkKernel.MessageAccesses
import QuarkKernel.Syscalls

/-! # The loaded address space

Six functions of the kernel load address spaces, and a process may run only in its
own.  `SpaceStep` says what one call can do: it leaves the loaded space and the
active process as they are, or it loads the space of the process that is active
afterwards.  A system call adds what `do_syscall` does around the function it
calls; the function is only asked to leave what it finds. -/
namespace QuarkKernel
namespace Kernel

/-- The address space of the active process is loaded. -/
def Loaded (k : Kernel) : Prop := ∀ a A, k.active = some (a, A) → k.cr3 = A.pageTable

/-- The active process has not been freed. -/
def ActiveLives (k : Kernel) : Prop := ∀ a, k.activeProcess = some a → ∃ A, k.processes a = some A

/-- Whoever is active afterwards was active before, with the same page table. -/
def Remains (k k' : Kernel) : Prop :=
  ∀ a A', k'.active = some (a, A') → ∃ A, k.active = some (a, A) ∧ A.pageTable = A'.pageTable

/-- What a step can do to the loaded address space.  A return from a signal may enter
the process that is active already. -/
inductive SpaceStep (k : Kernel) (op : Op) (k' : Kernel) : Prop
  | stays (hremains : Remains k k') (hcr3 : k'.cr3 = k.cr3)
      (henters : k.enters op = true → op = .signalReturn)
  | loads (hloaded : k'.Loaded) (hremains : k.enters op = false → Remains k k')

theorem Remains.of_eq {k k' : Kernel} (hproc : k'.processes = k.processes)
    (hactive : k'.activeProcess = k.activeProcess) : Remains k k' := by
  intro a A' ha
  obtain ⟨hp, hA⟩ := active_eq_some.mp ha
  exact ⟨A', active_eq_some.mpr ⟨hactive ▸ hp, hproc ▸ hA⟩, rfl⟩

/-- A block may change in all but its page table. -/
theorem Remains.update {k k' : Kernel} {p : Ptr} {P P' : Process} (hP : k.processes p = some P)
    (hproc : k'.processes = Function.update k.processes p (some P'))
    (htable : P'.pageTable = P.pageTable)
    (hactive : k'.activeProcess = k.activeProcess) : Remains k k' := by
  intro a A' ha
  obtain ⟨hp, hA⟩ := active_eq_some.mp ha
  rw [hactive] at hp
  rw [hproc] at hA
  by_cases hap : a = p
  · subst hap
    rw [Function.update_self] at hA
    obtain rfl := Option.some.inj hA
    exact ⟨P, active_eq_some.mpr ⟨hp, hP⟩, htable.symm⟩
  · rw [Function.update_of_ne hap] at hA
    exact ⟨A', active_eq_some.mpr ⟨hp, hA⟩, rfl⟩

theorem Loaded.remains {k k' : Kernel} (h : k.Loaded) (hremains : Remains k k')
    (hcr3 : k'.cr3 = k.cr3) : k'.Loaded := by
  intro a A' ha
  obtain ⟨A, hA, htable⟩ := hremains a A' ha
  rw [hcr3, h a A hA, htable]

theorem ActiveLives.of_eq {k k' : Kernel} (h : k.ActiveLives)
    (hproc : k'.processes = k.processes) (hactive : k'.activeProcess = k.activeProcess) :
    k'.ActiveLives := by
  intro a ha
  rw [hproc]
  exact h a (hactive ▸ ha)

theorem ActiveLives.update {k k' : Kernel} (h : k.ActiveLives) {p : Ptr} {P' : Process}
    (hproc : k'.processes = Function.update k.processes p (some P'))
    (hactive : k'.activeProcess = k.activeProcess) : k'.ActiveLives := by
  intro a ha
  rw [hproc]
  by_cases hap : a = p
  · subst hap
    exact ⟨P', Function.update_self ..⟩
  · rw [Function.update_of_ne hap]
    exact h a (hactive ▸ ha)

/-- The scheduler loads the address space of the process it activates. -/
theorem loaded_of_advance {k k' : Kernel} (h : k.kernelAdvanceScheduler = some k') :
    k'.ActiveLives ∧ k'.Loaded := by
  obtain ⟨p, P, queue, hP, rfl, -⟩ := advance_cases h
  constructor
  · intro a ha
    obtain rfl := Option.some.inj ha
    exact ⟨P, hP⟩
  · intro a A ha
    obtain ⟨hp, hA⟩ := active_eq_some.mp ha
    obtain rfl := Option.some.inj hp
    obtain rfl := Option.some.inj (hP.symm.trans hA)
    rfl

/-! ### One call -/

section
variable {k k' : Kernel} {op : Op} (hop : k.enters op = false) (hlive : k.ActiveLives)
include hop hlive

/-- A call that leaves the processes alone. -/
theorem spaceStep_of_eq (hproc : k'.processes = k.processes)
    (hactive : k'.activeProcess = k.activeProcess) (hcr3 : k'.cr3 = k.cr3) :
    k'.ActiveLives ∧ SpaceStep k op k' :=
  ⟨hlive.of_eq hproc hactive, .stays (.of_eq hproc hactive) hcr3 fun hent => by
    rw [hop] at hent
    cases hent⟩

/-- A call that changes one process, but not its page table. -/
theorem spaceStep_of_update {p : Ptr} {P P' : Process} (hP : k.processes p = some P)
    (hproc : k'.processes = Function.update k.processes p (some P'))
    (htable : P'.pageTable = P.pageTable) (hactive : k'.activeProcess = k.activeProcess)
    (hcr3 : k'.cr3 = k.cr3) : k'.ActiveLives ∧ SpaceStep k op k' :=
  ⟨hlive.update hproc hactive, .stays (.update hP hproc htable hactive) hcr3 fun hent => by
    rw [hop] at hent
    cases hent⟩

theorem spaceStep_spawn {programEntry addressSpace r : Word} {priority : Int} {alloc : SpawnAlloc}
    (hfresh : k.fresh alloc = true)
    (h : k.kernelSpawnProcess programEntry priority addressSpace alloc = some (r, k')) :
    k'.ActiveLives ∧ SpaceStep k op k' := by
  obtain ⟨-, rfl⟩ | ⟨p, memory, table, hp, -, -, -, rfl⟩ := spawn_cases h
  · exact spaceStep_of_eq hop hlive rfl rfl rfl
  · -- the new block is not that of the active process
    have hfree := processes_of_fresh hfresh hp
    refine ⟨hlive.update rfl rfl, .stays ?_ rfl fun hent => by rw [hop] at hent; cases hent⟩
    intro a A' ha
    obtain ⟨hpa, hA'⟩ := active_eq_some.mp ha
    obtain ⟨A, hA⟩ := hlive a hpa
    have hap : a ≠ p := by
      rintro rfl
      rw [hfree] at hA
      cases hA
    have hsame : k.processes a = some A' := by
      rw [← hA']
      exact (Function.update_of_ne hap ..).symm
    exact ⟨A', active_eq_some.mpr ⟨hpa, hsame⟩, rfl⟩

theorem spaceStep_terminate {processId : Word} {r : Status} (hw : k.WellFormed)
    (h : k.kernelTerminateProcess processId = some (r, k')) :
    k'.ActiveLives ∧ SpaceStep k op k' := by
  obtain ⟨-, -, rfl⟩ | ⟨p, P, table, queue, -, -, -, -, -, -, -, rfl⟩ :=
    terminate_cases hw.sending h
  · exact spaceStep_of_eq hop hlive rfl rfl rfl
  · -- the process that is active is not the one that was freed
    have hother : ∀ a, (if k.activeProcess = some p then none else k.activeProcess) = some a →
        k.activeProcess = some a ∧ a ≠ p := by
      intro a ha
      split at ha
      · cases ha
      · rename_i hne
        refine ⟨ha, ?_⟩
        rintro rfl
        exact hne ha
    constructor
    · intro a ha
      obtain ⟨hpa, hap⟩ := hother a ha
      obtain ⟨A, hA⟩ := hlive a hpa
      exact ⟨A, (Function.update_of_ne hap ..).trans hA⟩
    · refine .stays ?_ rfl fun hent => by rw [hop] at hent; cases hent
      intro a A' ha
      obtain ⟨hpa', hA'⟩ := active_eq_some.mp ha
      obtain ⟨hpa, hap⟩ := hother a hpa'
      have hA : k.processes a = some A' := (Function.update_of_ne hap ..).symm.trans hA'
      exact ⟨A', active_eq_some.mpr ⟨hpa, hA⟩, rfl⟩

theorem spaceStep_sendMessage {recipient message : Word} {r : Status}
    (h : k.kernelSendMessage recipient message = some (r, k')) :
    k'.ActiveLives ∧ SpaceStep k op k' := by
  obtain ⟨-, -, rfl⟩ | ⟨-, -, -, -, -, -, rfl⟩ |
    ⟨d, D, a, A, m, memory, -, -, hD, -, ha, -, -, rfl⟩ := sendMessage_cases h
  · exact spaceStep_of_eq hop hlive rfl rfl rfl
  · exact spaceStep_of_eq hop hlive rfl rfl rfl
  · -- the sender's space is loaded again once the message is in the recipient's
    have hremains : Remains k { k.enqueue d D.priority with
        cr3 := A.pageTable
        memory := Function.update k.memory D.pageTable memory
        processes := Function.update k.processes d (some (delivered D)) } :=
      .update hD rfl rfl rfl
    refine ⟨hlive.update rfl rfl, .loads ?_ fun _ => hremains⟩
    intro a' A' ha'
    obtain ⟨A0, hA0, htable⟩ := hremains a' A' ha'
    obtain ⟨-, rfl⟩ := Prod.mk.inj (Option.some.inj (ha.symm.trans hA0))
    exact htable

theorem spaceStep_executeHandler {interrupt : Word} {r : Status}
    (h : k.kernelExecuteInterruptHandler interrupt = some (r, k')) :
    k'.ActiveLives ∧ SpaceStep k op k' := by
  obtain ⟨t, rfl⟩ | ⟨action, p, P, ctx, memory, cr3, -, -, hP, ⟨c, C, hc, hcr3⟩, heq⟩ :=
    executeHandler_cases h
  · exact spaceStep_of_eq hop hlive rfl rfl rfl
  · have hproc : k'.processes =
        Function.update k.processes p (some { P with ctx, state := .active }) := by rw [heq]
    have hactive : k'.activeProcess = k.activeProcess := by
      rw [heq]
      split <;> rfl
    refine ⟨hlive.update hproc hactive, .loads ?_ fun _ => .update hP hproc rfl hactive⟩
    intro a A ha
    obtain ⟨-, rfl⟩ := Prod.mk.inj (Option.some.inj (hc.symm.trans ha))
    rw [← hcr3, heq]

end

theorem spaceStep_receive {k k' : Kernel} {buffer flags : Word} {r : Option Status}
    (h : k.receiveMessage buffer flags = some (r, k')) (hlive : k.ActiveLives) :
    k'.ActiveLives ∧ ((r.isSome ∧ Remains k k' ∧ k'.cr3 = k.cr3) ∨ (r = none ∧ k'.Loaded)) := by
  obtain ⟨a, A, ha, hcases⟩ := receive_cases h
  have hA := (active_eq_some.mp ha).2
  obtain ⟨m, queue, memory, -, -, rfl, rfl⟩ | ⟨-, -, rfl, rfl⟩ | ⟨-, -, rfl, hadv⟩ := hcases
  · exact ⟨hlive.update rfl rfl, .inl ⟨rfl, .update hA rfl rfl rfl, rfl⟩⟩
  · exact ⟨hlive, .inl ⟨rfl, .of_eq rfl rfl, rfl⟩⟩
  · obtain ⟨hlive', hloaded⟩ := loaded_of_advance hadv
    exact ⟨hlive', .inr ⟨rfl, hloaded⟩⟩

theorem spaceStep_signalReturn {k k' : Kernel} {r : Option Status} (hlive : k.ActiveLives)
    (h : k.kernelSignalReturn = some (r, k')) :
    k'.ActiveLives ∧ SpaceStep k .signalReturn k' := by
  obtain ⟨a, A, ctx, state, ha, -, hcases⟩ := signalReturn_cases h
  have hA := (active_eq_some.mp ha).2
  have hset : Remains k (k.setProcess a { A with ctx, state }) := .update hA rfl rfl rfl
  have hliveset : (k.setProcess a { A with ctx, state }).ActiveLives := hlive.update rfl rfl
  obtain ⟨-, rfl⟩ | ⟨-, rfl, r', hrec⟩ := hcases
  · exact ⟨hliveset, .stays hset rfl fun _ => rfl⟩
  · obtain ⟨hlive', ⟨-, hremains, hcr3⟩ | ⟨-, hloaded⟩⟩ := spaceStep_receive hrec hliveset
    · refine ⟨hlive', .stays ?_ hcr3 fun _ => rfl⟩
      intro b B hb
      obtain ⟨B1, hB1, htable1⟩ := hremains b B hb
      obtain ⟨B0, hB0, htable0⟩ := hset b B1 hB1
      exact ⟨B0, hB0, htable0.trans htable1⟩
    · refine ⟨hlive', .loads hloaded fun hent => ?_⟩
      have henters : k.enters .signalReturn = true := by
        rw [enters, h]
        rfl
      rw [henters] at hent
      cases hent

/-- **What a call can do to the loaded address space.** -/
theorem step_spaceStep {k k' : Kernel} {op : Op} (hw : k.WellFormed) (hlive : k.ActiveLives)
    (h : k.step op = some k') : k'.ActiveLives ∧ SpaceStep k op k' := by
  cases op with
  | programs memory =>
    cases h
    exact spaceStep_of_eq rfl hlive rfl rfl rfl
  | spawn programEntry priority addressSpace alloc =>
    rw [step] at h
    split at h
    · obtain ⟨⟨r, k1⟩, hk, rfl⟩ := Option.map_eq_some_iff.mp h
      exact spaceStep_spawn rfl hlive ‹_› hk
    · cases h
  | advance =>
    obtain ⟨hlive', hloaded⟩ := loaded_of_advance h
    exact ⟨hlive', .loads hloaded fun hent => by cases hent⟩
  | storeContext context =>
    obtain ⟨⟨r, k1⟩, hk, rfl⟩ := Option.map_eq_some_iff.mp h
    obtain rfl | ⟨p, P, ha, rfl⟩ := storeContext_cases hk
    · exact spaceStep_of_eq rfl hlive rfl rfl rfl
    · exact spaceStep_of_update rfl hlive (active_eq_some.mp ha).2 rfl rfl rfl rfl
  | terminate processId =>
    obtain ⟨⟨r, k1⟩, hk, rfl⟩ := Option.map_eq_some_iff.mp h
    exact spaceStep_terminate rfl hlive hw hk
  | sendMessage recipient message =>
    obtain ⟨⟨r, k1⟩, hk, rfl⟩ := Option.map_eq_some_iff.mp h
    exact spaceStep_sendMessage rfl hlive hk
  | send recipient message flags alloc =>
    obtain ⟨⟨r, k1⟩, hk, rfl⟩ := Option.map_eq_some_iff.mp h
    obtain ⟨-, rfl⟩ | ⟨-, -, hs⟩ | ⟨-, -, hq⟩ := send_cases hk
    · exact spaceStep_of_eq rfl hlive rfl rfl rfl
    · exact spaceStep_sendMessage rfl hlive hs
    · obtain ⟨-, -, rfl⟩ | ⟨-, -, rfl⟩ | ⟨-, -, -, -, -, -, -, -, -, rfl⟩ |
        ⟨d, D, a, A, m, -, -, -, hD, -, -, rfl⟩ := queueMessage_cases hq
      · exact spaceStep_of_eq rfl hlive rfl rfl rfl
      · exact spaceStep_of_eq rfl hlive rfl rfl rfl
      · exact spaceStep_of_eq rfl hlive rfl rfl rfl
      · exact spaceStep_of_update rfl hlive hD rfl rfl rfl rfl
  | receive buffer flags =>
    obtain ⟨⟨r, k1⟩, hk, rfl⟩ := Option.map_eq_some_iff.mp h
    have henters : k.enters (.receive buffer flags) = r.isNone := by
      rw [enters, hk]
      rfl
    obtain ⟨hlive', ⟨hr, hremains, hcr3⟩ | ⟨rfl, hloaded⟩⟩ := spaceStep_receive hk hlive
    · refine ⟨hlive', .stays hremains hcr3 fun hent => ?_⟩
      rw [henters, Option.isNone_eq_false_iff.mpr hr] at hent
      cases hent
    · refine ⟨hlive', .loads hloaded fun hent => ?_⟩
      rw [henters] at hent
      cases hent
  | createPort id port node =>
    obtain ⟨⟨r, k1⟩, hk, rfl⟩ := Option.map_eq_some_iff.mp h
    obtain rfl | ⟨a, A, t, -, -, -, rfl⟩ := createPort_cases hk
    all_goals exact spaceStep_of_eq rfl hlive rfl rfl rfl
  | removePort id =>
    obtain ⟨⟨r, k1⟩, hk, rfl⟩ := Option.map_eq_some_iff.mp h
    obtain rfl | ⟨port, a, A, t, -, -, -, -, rfl⟩ := removePort_cases hk
    all_goals exact spaceStep_of_eq rfl hlive rfl rfl rfl
  | registerHandler interrupt handler userdata trampoline action node =>
    obtain ⟨⟨r, k1⟩, hk, rfl⟩ := Option.map_eq_some_iff.mp h
    obtain ⟨t, rfl⟩ := registerHandler_cases hk
    exact spaceStep_of_eq rfl hlive rfl rfl rfl
  | removeHandler interrupt =>
    obtain ⟨⟨r, k1⟩, hk, rfl⟩ := Option.map_eq_some_iff.mp h
    obtain ⟨t, rfl⟩ := removeHandler_cases hk
    exact spaceStep_of_eq rfl hlive rfl rfl rfl
  | executeHandler interrupt =>
    obtain ⟨⟨r, k1⟩, hk, rfl⟩ := Option.map_eq_some_iff.mp h
    exact spaceStep_executeHandler rfl hlive hk
  | signalReturn =>
    obtain ⟨⟨r, k1⟩, hk, rfl⟩ := Option.map_eq_some_iff.mp h
    exact spaceStep_signalReturn hlive hk

/-- The bytes a direct send writes are in the address space of the process that
waits for the message, which is loaded when they are written. -/
theorem sendMessageAccesses_write {k k' : Kernel} {recipient message : Word}
    {accesses : List Access} {r : Status}
    (h : k.sendMessageAccesses recipient message = some (accesses, r, k')) :
    ∀ access ∈ accesses, access.write = true →
      k.lookup recipient = some access.process ∧
        ∃ D, k.processes access.process = some D ∧ waiting D = true ∧
          access.cr3 = D.pageTable := by
  rw [sendMessageAccesses] at h
  split at h
  · cases h
    intro access haccess
    cases haccess
  · rename_i d hd
    obtain ⟨D, hD, h⟩ := Option.bind_eq_some_iff.mp h
    split at h
    · rename_i hwait
      obtain ⟨⟨a, A⟩, -, h⟩ := Option.bind_eq_some_iff.mp h
      obtain ⟨m, -, h⟩ := Option.bind_eq_some_iff.mp h
      obtain ⟨memory, -, h⟩ := Option.bind_eq_some_iff.mp h
      cases h
      intro access haccess hwrite
      rcases List.mem_append.mp haccess with hread | hwritten
      · obtain ⟨i, -, rfl⟩ := List.mem_map.mp hread
        cases hwrite
      · obtain ⟨i, -, rfl⟩ := List.mem_map.mp hwritten
        exact ⟨hd, D, hD, hwait, rfl⟩
    · cases h
      intro access haccess
      cases haccess

end Kernel

namespace SyscallKernel
open Kernel

/-- The function that was called leaves the loaded address space as it found it, or
does not return.  It may end in the return from a signal, which loads none, only if
no address space was switched for it. -/
def leavesAsFound (s : SyscallKernel) : Action → Bool
  | .sysReturn => s.inProgress.all fun call => s.kernel.cr3 = call.cr3
  | .kernel .signalReturn =>
      s.inProgress.all fun call => !call.switchedAddressSpace && s.kernel.cr3 = call.cr3
  | _ => true

/-- Between two steps the address space of the active process is loaded, unless a
process waits for the function it called. -/
structure Disciplined (s : SyscallKernel) : Prop where
  wellFormed : s.kernel.WellFormed
  lives : s.kernel.ActiveLives
  loaded : s.inProgress = none → s.kernel.Loaded
  found : ∀ call, s.inProgress = some call → call.switchedAddressSpace = false →
    ∀ a A, s.kernel.active = some (a, A) → call.cr3 = A.pageTable

theorem Disciplined.boot {s : SyscallKernel} (h : s.Boot) : s.Disciplined := by
  obtain ⟨hboot, -, hnone⟩ := h
  have hactive : s.kernel.activeProcess = none := by
    obtain ⟨heap, cr3, memory, hk⟩ := hboot
    rw [hk]
    rfl
  refine ⟨.boot hboot, ?_, ?_, ?_⟩
  · intro a ha
    rw [hactive] at ha
    cases ha
  · intro _ a A ha
    rw [(active_eq_some.mp ha).1] at hactive
    cases hactive
  · intro call hcall
    rw [hnone] at hcall
    cases hcall

theorem Disciplined.kernel {s : SyscallKernel} {op : Op} {k' : Kernel} (h : s.Disciplined)
    (hok : s.leavesAsFound (.kernel op) = true) (hst : s.kernel.step op = some k') :
    Disciplined { s with
      kernel := k', inProgress := if s.kernel.enters op then none else s.inProgress } := by
  obtain ⟨hlive, hspace⟩ := step_spaceStep h.wellFormed h.lives hst
  refine ⟨h.wellFormed.step hst, hlive, ?_, ?_⟩
  · intro hnone
    cases hspace with
    | loads hloaded _ => exact hloaded
    | stays hremains hcr3 henters =>
      by_cases hent : s.kernel.enters op = true
      · -- a return from a signal: nothing is loaded, and nothing was
        obtain rfl := henters hent
        cases hcall : s.inProgress with
        | none => exact (h.loaded hcall).remains hremains hcr3
        | some call =>
          have hclean : call.switchedAddressSpace = false ∧ s.kernel.cr3 = call.cr3 := by
            simpa [leavesAsFound, hcall] using hok
          have hloaded : s.kernel.Loaded := by
            intro a A ha
            rw [hclean.2, h.found call hcall hclean.1 a A ha]
          exact hloaded.remains hremains hcr3
      · -- no call was in progress before
        have hcall : s.inProgress = none := by
          rw [← hnone]
          exact (if_neg hent).symm
        exact (h.loaded hcall).remains hremains hcr3
  · intro call hcall hswitched a A' ha
    have hent : ¬ s.kernel.enters op = true := by
      intro hent
      have hnone : (none : Option SyscallInProgress) = some call := by
        rw [← hcall]
        exact (if_pos hent).symm
      cases hnone
    have hcall' : s.inProgress = some call := by
      rw [← hcall]
      exact (if_neg hent).symm
    have hremains : Remains s.kernel k' := by
      cases hspace with
      | stays hremains _ _ => exact hremains
      | loads _ hremains => exact hremains (Bool.eq_false_of_not_eq_true hent)
    obtain ⟨A, hA, htable⟩ := hremains a A' ha
    rw [h.found call hcall' hswitched a A hA, htable]

theorem Disciplined.setEntry {s s' : SyscallKernel} {i : Nat} {entry : SyscallEntry}
    (h : s.Disciplined) (hset : s.setEntry i entry = some s') : s'.Disciplined := by
  rw [SyscallKernel.setEntry] at hset
  split at hset
  · cases hset
    exact ⟨h.wellFormed, h.lives, h.loaded, h.found⟩
  · cases hset

/-- The call of a function, in the space of the process or switched to another. -/
theorem Disciplined.callFunction {s s' : SyscallKernel} {entry : SyscallEntry}
    {switched : Bool} {arguments : List Word} {pc stack flags : Word} {d : Dispatch}
    (h : s.Disciplined) (space : Word) (hspace : switched = false → s.inProgress = none ∧ space = s.kernel.cr3)
    (hcall : { s with kernel := s.kernel.loadAddressSpace space }.callFunction entry switched
      arguments pc stack flags = some (d, s')) : s'.Disciplined := by
  obtain ⟨k1, hk1, hcall⟩ := Option.bind_eq_some_iff.mp hcall
  obtain ⟨a, A, ctx, ha, rfl⟩ := setActiveContext_cases hk1
  have hA : s.kernel.active = some (a, A) := ha
  have hP := (active_eq_some.mp hA).2
  have hremains : Remains s.kernel
      ((s.kernel.loadAddressSpace space).setProcess a { A with ctx }) := .update hP rfl rfl rfl
  have hnext : Disciplined { s with
      kernel := (s.kernel.loadAddressSpace space).setProcess a { A with ctx }
      inProgress := some ⟨switched, space⟩ } := by
    have hsame : SameIdentity A { A with ctx } := ⟨rfl, rfl, rfl⟩
    refine ⟨h.wellFormed.edit hP hsame rfl rfl, h.lives.update rfl rfl, ?_, ?_⟩
    · intro hnone
      cases hnone
    · intro call hcall' hswitched b B' hb
      obtain rfl := Option.some.inj hcall'
      obtain ⟨hnone, rfl⟩ := hspace hswitched
      obtain ⟨B, hB, htable⟩ := hremains b B' hb
      rw [← htable]
      exact h.loaded hnone b B hB
  simp only at hcall
  split at hcall
  · cases hcall
    exact hnext
  · cases hcall
    exact hnext

theorem Disciplined.doSyscall {s s' : SyscallKernel} {id arg1 arg2 arg3 pc stack flags : Word}
    {beyond : SyscallEntry} {d : Dispatch} (h : s.Disciplined) (hnone : s.inProgress = none)
    (hcall : s.doSyscall id arg1 arg2 arg3 pc stack flags beyond = some (d, s')) :
    s'.Disciplined := by
  rw [SyscallKernel.doSyscall] at hcall
  split at hcall
  · cases hcall
    exact h
  · simp only at hcall
    split at hcall
    · cases hcall
      exact h
    · split at hcall
      · split at hcall
        · obtain ⟨s1, hs1, hcall⟩ := Option.bind_eq_some_iff.mp hcall
          cases hcall
          exact h.setEntry hs1
        · obtain ⟨callee, -, hcall⟩ := Option.bind_eq_some_iff.mp hcall
          refine h.callFunction callee.pageTable (fun hswitched => ?_) hcall
          cases hswitched
      · exact h.callFunction s.kernel.cr3 (fun _ => ⟨hnone, rfl⟩) hcall

theorem Disciplined.sysReturn {s s' : SyscallKernel} (h : s.Disciplined)
    (hok : s.leavesAsFound .sysReturn = true) (hret : s.sysReturn = some s') :
    s'.Disciplined := by
  obtain ⟨call, hcall, hret⟩ := Option.bind_eq_some_iff.mp hret
  split at hret
  · -- the space of the active process is loaded again
    obtain ⟨⟨a, A⟩, ha, hret⟩ := Option.bind_eq_some_iff.mp hret
    cases hret
    refine ⟨h.wellFormed.congr rfl rfl, h.lives, ?_, fun call hcall => by cases hcall⟩
    intro _ b B hb
    obtain ⟨-, rfl⟩ := Prod.mk.inj (Option.some.inj (ha.symm.trans hb))
    rfl
  · rename_i hswitched
    cases hret
    have hfound : s.kernel.cr3 = call.cr3 := by simpa [leavesAsFound, hcall] using hok
    refine ⟨h.wellFormed, h.lives, ?_, fun call hcall => by cases hcall⟩
    intro _ a A ha
    show s.kernel.cr3 = _
    rw [hfound, h.found call hcall (Bool.eq_false_of_not_eq_true hswitched) a A ha]

theorem Disciplined.step {s s' : SyscallKernel} {action : Action} (h : s.Disciplined)
    (hok : s.leavesAsFound action = true) (hst : s.step action = some s') : s'.Disciplined := by
  cases action with
  | kernel op =>
    obtain ⟨k', hk', hst⟩ := Option.bind_eq_some_iff.mp hst
    cases hst
    exact h.kernel hok hk'
  | loadAddressSpace space =>
    rw [SyscallKernel.step] at hst
    split at hst
    · rename_i hcan
      cases hst
      refine ⟨h.wellFormed.congr rfl rfl, h.lives, ?_, h.found⟩
      intro hnone a A ha
      rcases hcan with hcall | hidle
      · rw [show s.inProgress = none from hnone] at hcall
        cases hcall
      · rw [show s.kernel.activeProcess = some a from (active_eq_some.mp ha).1] at hidle
        cases hidle
    · cases hst
  | setSyscall id argCount pid funcPtr beyond =>
    obtain ⟨⟨r, s1⟩, hset, rfl⟩ := Option.map_eq_some_iff.mp hst
    rw [SyscallKernel.setSyscall] at hset
    split at hset
    · cases hset
      exact h
    · split at hset
      · cases hset
        exact h
      · split at hset
        · cases hset
          exact h
        · split at hset
          · cases hset
            exact h
          · split at hset
            · cases hset
              exact h
            · obtain ⟨s2, hs2, hset⟩ := Option.bind_eq_some_iff.mp hset
              cases hset
              exact h.setEntry hs2
  | doSyscall id arg1 arg2 arg3 pc stack flags beyond =>
    rw [SyscallKernel.step] at hst
    split at hst
    · rename_i hnone
      obtain ⟨⟨d, s1⟩, hcall, rfl⟩ := Option.map_eq_some_iff.mp hst
      exact h.doSyscall hnone hcall
    · cases hst
  | sysReturn => exact h.sysReturn hok hst

theorem disciplined_of_reachable {s : SyscallKernel}
    (h : system.Reachable (fun s action => s.leavesAsFound action = true) s) : s.Disciplined :=
  h.invariant Disciplined (fun _ hb => .boot hb) fun _ _ _ hi hok hst => hi.step hok hst

/-- **Address spaces are loaded where they belong.**  In every run, whenever no
process waits for a function it called, the active process's own page table is
loaded; and a direct send writes the message while the recipient's is. -/
theorem loaded_of_reachable {s : SyscallKernel}
    (h : system.Reachable (fun s action => s.leavesAsFound action = true) s) :
    (s.inProgress = none → ∀ a A, s.kernel.active = some (a, A) →
      s.kernel.cr3 = A.pageTable) ∧
    ∀ recipient message accesses r k',
      s.kernel.sendMessageAccesses recipient message = some (accesses, r, k') →
      ∀ access ∈ accesses, access.write = true →
        s.kernel.lookup recipient = some access.process ∧
          ∃ D, s.kernel.processes access.process = some D ∧ waiting D = true ∧
            access.cr3 = D.pageTable :=
  ⟨(disciplined_of_reachable h).loaded, fun _ _ _ _ _ => sendMessageAccesses_write⟩

/-- Process 1 calls a function registered for process 2, which looks into a third
address space on the way; then it blocks in a receive, and process 2 sends to it. -/
def foreignCallRun : List Action :=
  [.kernel (.spawn 0x8000 1 0x1000 (.succeeds 1 fun _ => 0)),
    .kernel (.spawn 0x8000 1 0x2000 (.succeeds 2 fun _ => 0)),
    .kernel (.programs fun _ _ => some 0), .setSyscall 10 1 2 (some (.other 0x9000)) .zero,
    .kernel .advance, .doSyscall 10 5 0 0 0x8004 0x7000 0x3200 .zero, .loadAddressSpace 0x3000,
    .loadAddressSpace 0x2000, .sysReturn, .doSyscall 7 0x6000 0 0 0x8008 0x7000 0x3200 .zero,
    .kernel (.receive 0x6000 0), .doSyscall 6 1 0x6000 0 0x8004 0x7000 0x3200 .zero,
    .kernel (.sendMessage 1 0x6000), .sysReturn]

theorem loaded_foreignCallRun :
    ∃ s, Transition.System.runFrom (fun s action => leavesAsFound s action = true) step bare
        (builtinSyscalls ++ foreignCallRun) = some s ∧
      (s.inProgress = none → ∀ a A, s.kernel.active = some (a, A) →
        s.kernel.cr3 = A.pageTable) := by
  obtain ⟨s, hs⟩ := Option.isSome_iff_exists.mp (show (Transition.System.runFrom
    (fun s action => leavesAsFound s action = true) step bare
      (builtinSyscalls ++ foreignCallRun)).isSome by decide +kernel)
  exact ⟨s, hs, (loaded_of_reachable (.runFrom _ _ (.init boot_bare) hs)).1⟩

end SyscallKernel
end QuarkKernel
