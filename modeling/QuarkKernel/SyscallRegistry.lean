import QuarkKernel.Syscalls

/-! # Which function a system call goes to

What the table of system calls is for: `set_syscall` registers a function under an
id, the end of a process ends what is registered on its behalf, and a system call
goes to the function registered under its id.  `Registry` says just this, and a run
records it.

The kernel takes no notice of the table when a process ends; `do_syscall` finds out
later.  `registry` reads off the table and the process table what is registered,
and `registry_step` shows that every step changes it as the record says.  Two things
break this: the id 256, which is checked as if the table had one more entry, and a
pid that is given out again while the table still names its last owner. -/
namespace QuarkKernel

/-- A function registered under an id, on behalf of a process if the pid is
positive. -/
structure Registration where
  argCount : Nat
  processId : Int
  funcPtr : SyscallFunction
deriving DecidableEq, Repr

/-- What is registered under each id. -/
abbrev Registry := Nat → Option Registration

namespace Registry

def empty : Registry := fun _ => none

def register (registry : Registry) (id : Nat) (registration : Registration) : Registry :=
  Function.update registry id (some registration)

/-- A process ends, and with it what is registered on its behalf. -/
def endProcess (registry : Registry) (pid : Int) : Registry := fun id =>
  (registry id).filter fun registration =>
    ¬ (0 < registration.processId ∧ registration.processId = pid)

end Registry

namespace Kernel

/-- What an entry of the table stands for: nothing once its process has ended. -/
def registration (kernel : Kernel) (entry : SyscallEntry) : Option Registration :=
  if entry.defined = true ∧
      (0 < entry.processId → (kernel.processTable.avlGet entry.processId).isSome) then
    entry.funcPtr.map fun funcPtr => ⟨entry.argCount.toNat, entry.processId, funcPtr⟩
  else none

theorem registration_congr {k k' : Kernel} {entry : SyscallEntry}
    (h : entry.defined = true → 0 < entry.processId →
      ((k'.processTable.avlGet entry.processId).isSome ↔
        (k.processTable.avlGet entry.processId).isSome)) :
    k'.registration entry = k.registration entry := by
  have hiff : (entry.defined = true ∧
      (0 < entry.processId → (k'.processTable.avlGet entry.processId).isSome)) ↔
      (entry.defined = true ∧
        (0 < entry.processId → (k.processTable.avlGet entry.processId).isSome)) := by
    constructor
    · rintro ⟨hdef, hlive⟩
      exact ⟨hdef, fun hpos => (h hdef hpos).mp (hlive hpos)⟩
    · rintro ⟨hdef, hlive⟩
      exact ⟨hdef, fun hpos => (h hdef hpos).mpr (hlive hpos)⟩
  rw [registration, registration]
  simp only [hiff]

theorem registration_of_undefined (k : Kernel) {entry : SyscallEntry}
    (h : entry.defined = false) : k.registration entry = none := by
  rw [registration, if_neg]
  rintro ⟨hdef, -⟩
  rw [h] at hdef
  cases hdef

/-- A process leaves the process table, and with it what is registered on its
behalf. -/
theorem registration_endProcess {k k' : Kernel} {pid : Int}
    (hlive : ∀ key, k'.processTable.avlGet key =
      if key = pid then none else k.processTable.avlGet key) (entry : SyscallEntry) :
    k'.registration entry = (k.registration entry).filter fun registration =>
      ¬ (0 < registration.processId ∧ registration.processId = pid) := by
  by_cases hended : 0 < entry.processId ∧ entry.processId = pid
  · have hafter : k'.registration entry = none := by
      rw [registration, if_neg]
      rintro ⟨-, hstill⟩
      have hgone := hstill hended.1
      rw [hlive, if_pos hended.2] at hgone
      cases hgone
    rw [hafter, registration]
    split
    · cases entry.funcPtr with
      | none => rfl
      | some funcPtr =>
        symm
        rw [Option.map_some, Option.filter_eq_none_iff]
        simpa using hended
    · rfl
  · have hsame : k'.registration entry = k.registration entry := by
      apply registration_congr
      intro _ hpos
      rw [hlive, if_neg fun heq => hended ⟨hpos, heq⟩]
    rw [hsame, registration]
    split
    · cases entry.funcPtr with
      | none => rfl
      | some funcPtr =>
        symm
        rw [Option.map_some, Option.filter_eq_some_iff]
        exact ⟨rfl, decide_eq_true hended⟩
    · rfl

/-- Only spawning and terminating change the process table. -/
theorem processTable_step {k k' : Kernel} {op : Op} (hw : k.WellFormed)
    (hspawn : ∀ programEntry priority addressSpace alloc,
      op ≠ .spawn programEntry priority addressSpace alloc)
    (hterminate : ∀ pid, op ≠ .terminate pid) (h : k.step op = some k') :
    k'.processTable = k.processTable := by
  have hreceive : ∀ {k1 : Kernel} {buffer flags : Word} {r : Option Status},
      k1.receiveMessage buffer flags = some (r, k') → k'.processTable = k1.processTable := by
    intro k1 buffer flags r hrec
    obtain ⟨a, A, -, ⟨m, queue, memory, -, -, -, rfl⟩ | ⟨-, -, -, rfl⟩ | ⟨-, -, -, hadv⟩⟩ :=
      receive_cases hrec
    · rfl
    · rfl
    · exact (advance_occupied hadv).2.1
  by_cases hop : op = .signalReturn
  · subst hop
    obtain ⟨⟨r, k1⟩, hk, rfl⟩ := Option.map_eq_some_iff.mp h
    obtain ⟨a, A, ctx, state, -, -, ⟨-, rfl⟩ | ⟨-, -, r', hrec⟩⟩ := signalReturn_cases hk
    · rfl
    · have htable := hreceive hrec
      exact htable
  · cases step_effect hw.sending hop h with
    | idle _ htable _ _ => exact htable
    | edit p P P' _ _ _ htable _ _ => exact htable
    | wake p P P' _ _ _ _ _ _ htable _ _ => exact htable
    | spawn p P node _ _ _ _ _ _ _ _ _ hop' =>
      obtain ⟨programEntry, addressSpace, alloc, rfl⟩ := hop'
      exact absurd rfl (hspawn _ _ _ _)
    | terminate p P pid _ _ _ _ _ _ _ _ hop' =>
      subst hop'
      exact absurd rfl (hterminate pid)
    | advance _ hadv => exact (advance_occupied hadv).2.1
    | block a A A' k1 _ _ _ _ _ _ htable _ _ hadv => exact (advance_occupied hadv).2.1.trans htable

end Kernel

namespace SyscallKernel
open Kernel

/-- The registry after a step. -/
def registryAfter (registry : Registry) (s : SyscallKernel) (action : Action)
    (_ : SyscallKernel) : Registry :=
  match action with
  | .setSyscall id argCount pid (some funcPtr) beyond =>
      if (s.setSyscall id argCount pid (some funcPtr) beyond).any (·.1 = .enone) then
        registry.register id.toNat ⟨argCount.toNat, pid, funcPtr⟩
      else registry
  | .kernel (.terminate processId) =>
      if (s.kernel.lookup processId).isSome then registry.endProcess processId.toInt
      else registry
  | _ => registry

/-- Runs that record what is registered. -/
def recorded : Transition.System (SyscallKernel × Registry) Action :=
  system.record .empty registryAfter

/-- What the table and the process table say is registered. -/
def registry (s : SyscallKernel) : Registry := fun id =>
  (s.syscallTable[id]?).bind s.kernel.registration

/-- Every entry in use is one that `set_syscall` makes. -/
def EntriesSound (s : SyscallKernel) : Prop :=
  ∀ (i : Nat) (entry : SyscallEntry), s.syscallTable[i]? = some entry → entry.defined = true →
    (0 ≤ entry.argCount ∧ entry.argCount ≤ 3) ∧ entry.funcPtr.isSome

/-- No entry of the table names the next pid for a process that has ended. -/
def reusesNoOwner (s : SyscallKernel) : Bool :=
  s.syscallTable.toList.all fun entry =>
    !(entry.defined && entry.processId = s.kernel.nextPid.toInt &&
      (s.kernel.processTable.avlGet entry.processId).isNone)

/-- The step does not use the id 256, and gives out no pid that the table names for
a process that has ended. -/
def staysInTable (s : SyscallKernel) : Action → Bool
  | .setSyscall id _ _ _ _ => id ≠ maxSyscallId
  | .doSyscall id _ _ _ _ _ _ _ => id.toNat ≠ maxSyscallId
  | .kernel (.spawn _ _ _ _) => s.reusesNoOwner
  | _ => true

/-! ### The table -/

theorem syscallIndex_lt {id : Int} {i : Nat} (hid : id ≠ maxSyscallId)
    (h : syscallIndex id = some i) : i < maxSyscallId ∧ i = id.toNat := by
  rw [syscallIndex] at h
  split at h
  · cases h
  · cases h
    omega

theorem entry_of_lt {s : SyscallKernel} {i : Nat} (hi : i < maxSyscallId)
    (beyond : SyscallEntry) : s.syscallTable[i]? = some (s.entry beyond i) := by
  rw [entry, Vector.getElem?_eq_getElem hi]
  rfl

theorem setEntry_of_lt {s : SyscallKernel} {i : Nat} (hi : i < maxSyscallId)
    (entry : SyscallEntry) : s.setEntry i entry =
      some { s with syscallTable := s.syscallTable.set i entry } := dif_pos hi

theorem registry_setEntry {s s' : SyscallKernel} {i : Nat} {entry : SyscallEntry}
    (h : s.setEntry i entry = some s') :
    s'.registry = Function.update s.registry i (s.kernel.registration entry) ∧
      s'.kernel = s.kernel := by
  rw [setEntry] at h
  split at h
  · rename_i hi
    cases h
    refine ⟨?_, rfl⟩
    funext id
    rw [registry]
    by_cases hid : id = i
    · subst hid
      rw [Function.update_self, Vector.getElem?_set_self]
      rfl
    · rw [Function.update_of_ne hid, Vector.getElem?_set_ne hi fun h => hid h.symm]
      rfl
  · cases h

theorem EntriesSound.congr {s s' : SyscallKernel} (h : s.EntriesSound)
    (htable : s'.syscallTable = s.syscallTable) : s'.EntriesSound := by
  rw [EntriesSound, htable]
  exact h

theorem EntriesSound.setEntry {s s' : SyscallKernel} {i : Nat} {entry : SyscallEntry}
    (h : s.EntriesSound) (hentry : entry.defined = true →
      (0 ≤ entry.argCount ∧ entry.argCount ≤ 3) ∧ entry.funcPtr.isSome)
    (hset : s.setEntry i entry = some s') : s'.EntriesSound := by
  rw [SyscallKernel.setEntry] at hset
  split at hset
  · rename_i hi
    cases hset
    intro j entry' hj
    by_cases hji : j = i
    · subst hji
      rw [Vector.getElem?_set_self] at hj
      obtain rfl := Option.some.inj hj
      exact hentry
    · rw [Vector.getElem?_set_ne hi fun h => hji h.symm] at hj
      exact h j entry' hj
  · cases hset

/-- What is registered depends on the table and on which processes it names are
live. -/
theorem registry_congr {s s' : SyscallKernel} (htable : s'.syscallTable = s.syscallTable)
    (hlive : ∀ entry, entry ∈ s.syscallTable.toList → entry.defined = true →
      0 < entry.processId → ((s'.kernel.processTable.avlGet entry.processId).isSome ↔
        (s.kernel.processTable.avlGet entry.processId).isSome)) :
    s'.registry = s.registry := by
  funext id
  rw [registry, registry, htable]
  cases hentry : s.syscallTable[id]? with
  | none => rfl
  | some entry =>
    have hmem : entry ∈ s.syscallTable.toList := by
      rw [Vector.mem_toList_iff]
      exact Vector.mem_of_getElem? hentry
    exact registration_congr (hlive entry hmem)

/-! ### Steps -/

theorem registry_spawn {s : SyscallKernel} {k' : Kernel} {inProgress : Option SyscallInProgress}
    {programEntry addressSpace : Word} {priority : Int} {alloc : SpawnAlloc}
    (hw : s.kernel.WellFormed) (hok : s.reusesNoOwner = true)
    (h : s.kernel.step (.spawn programEntry priority addressSpace alloc) = some k') :
    registry { s with kernel := k', inProgress } = s.registry := by
  refine registry_congr rfl ?_
  intro entry hmem hdef _
  rw [Kernel.step] at h
  split at h
  · obtain ⟨⟨r, k1⟩, hk, rfl⟩ := Option.map_eq_some_iff.mp h
    obtain ⟨-, rfl⟩ | ⟨p, memory, table, -, -, -, hins, rfl⟩ := spawn_cases hk
    · exact Iff.rfl
    · show (table.avlGet entry.processId).isSome ↔ _
      rw [AvlTree.avlGet_avlInsert hw.search hins]
      split
      · -- the pid is in the table, so its process is live and keeps it
        rename_i hpid
        have hlive : (s.kernel.processTable.avlGet entry.processId).isSome := by
          have hentry := List.all_eq_true.mp hok entry hmem
          rw [hdef, decide_eq_true hpid] at hentry
          simpa using hentry
        have hcontents := AvlTree.avlGet_eq hw.search s.kernel.nextPid.toInt
        rw [hpid] at hlive ⊢
        rw [hcontents] at hlive ⊢
        cases hc : s.kernel.processTable.contents s.kernel.nextPid.toInt with
        | none =>
          rw [hc] at hlive
          cases hlive
        | some old =>
          rw [hc] at hlive
          simp only [Option.getD_some]
          exact iff_of_true hlive hlive
      · exact Iff.rfl
  · cases h

theorem registry_terminate {s : SyscallKernel} {k' : Kernel}
    {inProgress : Option SyscallInProgress} {processId : Word} (hw : s.kernel.WellFormed)
    (h : s.kernel.step (.terminate processId) = some k') :
    registry { s with kernel := k', inProgress } =
      if (s.kernel.lookup processId).isSome then s.registry.endProcess processId.toInt
      else s.registry := by
  obtain ⟨⟨r, k1⟩, hk, rfl⟩ := Option.map_eq_some_iff.mp h
  obtain ⟨-, hnone, rfl⟩ | ⟨p, P, table, queue, -, hp, -, hrem, -, -, -, rfl⟩ :=
    terminate_cases hw.sending hk
  · rw [hnone]
    rfl
  · rw [hp, if_pos (show (some p).isSome = true from rfl)]
    funext id
    show (s.syscallTable[id]?).bind _ = ((s.syscallTable[id]?).bind s.kernel.registration).filter _
    cases s.syscallTable[id]? with
    | none => rfl
    | some entry =>
      exact registration_endProcess (fun key => AvlTree.avlGet_avlRemove hw.search hrem key) entry

/-- What `set_syscall` does, within the table. -/
theorem setSyscall_cases {s s' : SyscallKernel} {id argCount pid : Int}
    {funcPtr : Option SyscallFunction} {beyond : SyscallEntry} {r : Status}
    (h : s.setSyscall id argCount pid funcPtr beyond = some (r, s')) :
    (r ≠ .enone ∧ s' = s) ∨
    ∃ i f, r = .enone ∧ syscallIndex id = some i ∧ funcPtr = some f ∧ 0 ≤ argCount ∧
      argCount ≤ 3 ∧ (pid ≠ 0 → (s.kernel.processTable.avlGet pid).isSome) ∧
      s.setEntry i ⟨true, argCount, pid, some f⟩ = some s' := by
  rw [setSyscall] at h
  split at h
  · cases h
    exact .inl ⟨by decide, rfl⟩
  · rename_i i hi
    split at h
    · cases h
      exact .inl ⟨by decide, rfl⟩
    · split at h
      · cases h
        exact .inl ⟨by decide, rfl⟩
      · rename_i hcount
        split at h
        · cases h
          exact .inl ⟨by decide, rfl⟩
        · rename_i howner
          split at h
          · cases h
            exact .inl ⟨by decide, rfl⟩
          · rename_i hnull
            obtain ⟨s1, hs1, h⟩ := Option.bind_eq_some_iff.mp h
            cases h
            obtain ⟨f, rfl⟩ := Option.ne_none_iff_exists'.mp hnull
            refine .inr ⟨i, f, rfl, hi, rfl, by omega, by omega, fun hpid => ?_, hs1⟩
            cases hget : s.kernel.processTable.avlGet pid with
            | none => exact absurd ⟨hpid, hget⟩ howner
            | some p => rfl

theorem registry_setSyscall {s s' : SyscallKernel} {id argCount pid : Int}
    {funcPtr : Option SyscallFunction} {beyond : SyscallEntry} {r : Status}
    (hid : id ≠ maxSyscallId) (hsound : s.EntriesSound)
    (h : s.setSyscall id argCount pid funcPtr beyond = some (r, s')) :
    s'.registry = registryAfter s.registry s (.setSyscall id argCount pid funcPtr beyond) s' ∧
      s'.EntriesSound := by
  obtain ⟨hr, rfl⟩ | ⟨i, f, rfl, hi, rfl, hle, hge, howner, hset⟩ := setSyscall_cases h
  · refine ⟨?_, hsound⟩
    cases funcPtr with
    | none => rfl
    | some funcPtr =>
      rw [registryAfter, h]
      simp [hr]
  · obtain ⟨-, hidx⟩ := syscallIndex_lt hid hi
    refine ⟨?_, hsound.setEntry (fun _ => ⟨⟨hle, hge⟩, rfl⟩) hset⟩
    rw [(registry_setEntry hset).1, registryAfter, h, registration, if_pos]
    · rw [hidx]
      rfl
    · exact ⟨rfl, fun hpos => howner (ne_of_gt hpos)⟩

/-- What is called, and with which arguments. -/
theorem callFunction_eq {s : SyscallKernel} {a : Ptr} {A : Process} {entry : SyscallEntry}
    (hactive : s.kernel.active = some (a, A)) (hcount : 0 ≤ entry.argCount ∧ entry.argCount ≤ 3)
    (switched : Bool) (arguments : List Word) (pc stack flags : Word) :
    ∃ s', s.callFunction entry switched arguments pc stack flags =
      some (.calls entry.funcPtr (arguments.take entry.argCount.toNat), s') := by
  rw [callFunction, setActiveContext, hactive]
  exact ⟨_, if_pos hcount⟩

/-- The call leaves the table and the process table alone. -/
theorem callFunction_registry {s s' : SyscallKernel} {entry : SyscallEntry} {switched : Bool}
    {arguments : List Word} {pc stack flags : Word} {d : Dispatch}
    (h : s.callFunction entry switched arguments pc stack flags = some (d, s')) :
    s'.registry = s.registry ∧ s'.syscallTable = s.syscallTable := by
  obtain ⟨k1, hk1, h⟩ := Option.bind_eq_some_iff.mp h
  obtain ⟨⟨a, A⟩, -, hk1⟩ := Option.bind_eq_some_iff.mp hk1
  cases hk1
  simp only at h
  split at h <;>
  · cases h
    exact ⟨rfl, rfl⟩

/-- Where the registry has something under an id, the table has an entry in use,
whose process is live. -/
theorem exists_of_registered {s : SyscallKernel} {id : Nat} {r : Registration}
    (h : s.registry id = some r) (beyond : SyscallEntry) :
    id < maxSyscallId ∧ (s.entry beyond id).defined = true ∧
      (0 < (s.entry beyond id).processId →
        (s.kernel.processTable.avlGet (s.entry beyond id).processId).isSome) ∧
      (s.entry beyond id).funcPtr = some r.funcPtr ∧
      (s.entry beyond id).argCount.toNat = r.argCount := by
  obtain ⟨entry, hentry, hreg⟩ := Option.bind_eq_some_iff.mp h
  have hlt : id < maxSyscallId := (Vector.getElem?_eq_some_iff.mp hentry).1
  rw [entry_of_lt hlt beyond] at hentry
  obtain rfl := Option.some.inj hentry
  rw [registration] at hreg
  split at hreg
  · rename_i hdef
    obtain ⟨f, hf, rfl⟩ := Option.map_eq_some_iff.mp hreg
    exact ⟨hlt, hdef.1, hdef.2, hf, rfl⟩
  · cases hreg

/-- Where it has nothing, the entry is not in use, or names a process that has
ended. -/
theorem unused_of_unregistered {s : SyscallKernel} (hsound : s.EntriesSound) {id : Nat}
    (hlt : id < maxSyscallId) (h : s.registry id = none) (beyond : SyscallEntry) :
    (s.entry beyond id).defined = false ∨
      0 < (s.entry beyond id).processId ∧
        s.kernel.processTable.avlGet (s.entry beyond id).processId = none := by
  have hentry := entry_of_lt hlt (s := s) beyond
  rw [registry, hentry, Option.bind_some, registration] at h
  cases hdef : (s.entry beyond id).defined with
  | false => exact .inl rfl
  | true =>
    right
    obtain ⟨-, hfunc⟩ := hsound id _ hentry hdef
    obtain ⟨f, hf⟩ := Option.isSome_iff_exists.mp hfunc
    rw [hdef, hf] at h
    by_contra hlive
    rw [if_pos] at h
    · cases h
    · exact ⟨rfl, fun hpos => Option.isSome_iff_ne_none.mpr fun hgone => hlive ⟨hpos, hgone⟩⟩

/-- A call of an id nothing is registered under is refused; an entry that names a
process that has ended is taken out of use only now. -/
theorem doSyscall_of_unregistered {s : SyscallKernel} (hsound : s.EntriesSound) {id : Word}
    (hid : id.toNat ≠ maxSyscallId) (h : s.registry id.toNat = none)
    (arg1 arg2 arg3 pc stack flags : Word) (beyond : SyscallEntry) :
    ∃ s', s.doSyscall id arg1 arg2 arg3 pc stack flags beyond = some (.enosyscall, s') ∧
      s'.kernel = s.kernel ∧ s'.registry = s.registry ∧ s'.EntriesSound := by
  rw [doSyscall]
  split
  · exact ⟨s, rfl, rfl, rfl, hsound⟩
  · rename_i i hi
    obtain ⟨hlt, rfl⟩ : i < maxSyscallId ∧ i = id.toNat := syscallIndex_lt (by omega) hi
    simp only
    rcases unused_of_unregistered hsound hlt h beyond with hundef | ⟨hpos, hgone⟩
    · rw [hundef]
      exact ⟨s, rfl, rfl, rfl, hsound⟩
    · split
      · exact ⟨s, rfl, rfl, rfl, hsound⟩
      · rw [hgone]
        have hset := setEntry_of_lt (s := s) hlt
          { s.entry beyond id.toNat with defined := false }
        obtain ⟨hregistry, hkernel⟩ := registry_setEntry hset
        refine ⟨_, by rw [hset]; rfl, hkernel, ?_, hsound.setEntry (fun h => by cases h) hset⟩
        rw [hregistry, registration_of_undefined _ rfl, ← h, Function.update_eq_self]

/-- A call of an id that something is registered under goes there, in whatever
address space. -/
theorem doSyscall_of_registered {s : SyscallKernel} (hw : s.kernel.WellFormed)
    (hsound : s.EntriesSound) {id : Word} {r : Registration}
    (h : s.registry id.toNat = some r) (arg1 arg2 arg3 pc stack flags : Word)
    (beyond : SyscallEntry) :
    ∃ space entry switched, entry.funcPtr = some r.funcPtr ∧ entry.argCount.toNat = r.argCount ∧
      (0 ≤ entry.argCount ∧ entry.argCount ≤ 3) ∧
      s.doSyscall id arg1 arg2 arg3 pc stack flags beyond =
        { s with kernel := s.kernel.loadAddressSpace space }.callFunction entry switched
          [arg1, arg2, arg3] pc stack flags := by
  obtain ⟨hlt, hdef, hlive, hfunc, hcount⟩ := exists_of_registered h beyond
  obtain ⟨hrange, -⟩ := hsound _ _ (entry_of_lt hlt beyond) hdef
  have hindex : syscallIndex id.toNat = some id.toNat := by
    rw [syscallIndex, if_neg (by omega)]
    rfl
  rw [doSyscall, hindex]
  simp only
  rw [hdef, if_neg (by decide)]
  split
  · rename_i hpos
    obtain ⟨p, hp⟩ := Option.isSome_iff_exists.mp (hlive hpos)
    obtain ⟨callee, hcallee, -⟩ := hw.table _ p hp
    refine ⟨callee.pageTable, _, true, hfunc, hcount, hrange, ?_⟩
    rw [hp]
    show (s.kernel.processes p).bind _ = _
    rw [hcallee, Option.bind_some]
  · exact ⟨s.kernel.cr3, _, false, hfunc, hcount, hrange, rfl⟩

theorem registry_doSyscall {s s' : SyscallKernel} (hw : s.kernel.WellFormed)
    (hsound : s.EntriesSound) {id arg1 arg2 arg3 pc stack flags : Word} {beyond : SyscallEntry}
    {d : Dispatch} (hid : id.toNat ≠ maxSyscallId)
    (h : s.doSyscall id arg1 arg2 arg3 pc stack flags beyond = some (d, s')) :
    s'.registry = s.registry ∧ s'.EntriesSound ∧ s'.kernel.WellFormed := by
  cases hreg : s.registry id.toNat with
  | none =>
    obtain ⟨s1, hs1, hkernel, hregistry, hsound1⟩ :=
      doSyscall_of_unregistered hsound hid hreg arg1 arg2 arg3 pc stack flags beyond
    cases hs1.symm.trans h
    exact ⟨hregistry, hsound1, hkernel ▸ hw⟩
  | some r =>
    obtain ⟨space, entry, switched, -, -, -, heq⟩ :=
      doSyscall_of_registered hw hsound hreg arg1 arg2 arg3 pc stack flags beyond
    rw [heq] at h
    obtain ⟨hregistry, htable⟩ := callFunction_registry h
    refine ⟨hregistry, hsound.congr htable, ?_⟩
    obtain ⟨k1, hk1, h⟩ := Option.bind_eq_some_iff.mp h
    obtain ⟨⟨a, A⟩, ha, hk1⟩ := Option.bind_eq_some_iff.mp hk1
    cases hk1
    have hP := (active_eq_some.mp ha).2
    let ctx := ((A.ctx.setContextPc pc).setContextStack stack).setContextFlags flags
    have hsame : SameIdentity A { A with ctx } := ⟨rfl, rfl, rfl⟩
    have hset : ((s.kernel.loadAddressSpace space).setProcess a { A with ctx }).WellFormed :=
      hw.edit hP hsame rfl rfl
    simp only at h
    split at h <;>
    · cases h
      exact hset

/-- **The table follows the registry.** -/
theorem registry_step {s s' : SyscallKernel} {action : Action} (hw : s.kernel.WellFormed)
    (hsound : s.EntriesSound) (hok : s.staysInTable action = true)
    (h : s.step action = some s') :
    s'.registry = registryAfter s.registry s action s' ∧ s'.EntriesSound ∧
      s'.kernel.WellFormed := by
  cases action with
  | kernel op =>
    obtain ⟨k', hk', h⟩ := Option.bind_eq_some_iff.mp h
    cases h
    refine ⟨?_, hsound.congr rfl, hw.step hk'⟩
    cases op with
    | spawn programEntry priority addressSpace alloc => exact registry_spawn hw hok hk'
    | terminate processId => exact registry_terminate hw hk'
    | _ =>
      refine registry_congr rfl fun entry _ _ _ => ?_
      rw [show Kernel.processTable _ = s.kernel.processTable from
        processTable_step hw (fun _ _ _ _ h => by cases h) (fun _ h => by cases h) hk']
  | loadAddressSpace space =>
    rw [step] at h
    split at h
    · cases h
      exact ⟨rfl, hsound, hw.congr rfl rfl⟩
    · cases h
  | setSyscall id argCount pid funcPtr beyond =>
    obtain ⟨⟨r, s1⟩, hset, rfl⟩ := Option.map_eq_some_iff.mp h
    have hid : id ≠ maxSyscallId := by simpa [staysInTable] using hok
    obtain ⟨hregistry, hsound1⟩ := registry_setSyscall hid hsound hset
    refine ⟨hregistry, hsound1, ?_⟩
    obtain ⟨-, rfl⟩ | ⟨i, f, -, -, -, -, -, -, hentry⟩ := setSyscall_cases hset
    · exact hw
    · exact (registry_setEntry hentry).2 ▸ hw
  | doSyscall id arg1 arg2 arg3 pc stack flags beyond =>
    rw [step] at h
    split at h
    · obtain ⟨⟨d, s1⟩, hcall, rfl⟩ := Option.map_eq_some_iff.mp h
      exact registry_doSyscall hw hsound (by simpa [staysInTable] using hok) hcall
    · cases h
  | sysReturn =>
    obtain ⟨call, -, h⟩ := Option.bind_eq_some_iff.mp h
    split at h
    · obtain ⟨⟨a, A⟩, -, h⟩ := Option.bind_eq_some_iff.mp h
      cases h
      exact ⟨rfl, hsound, hw.congr rfl rfl⟩
    · cases h
      exact ⟨rfl, hsound, hw⟩

/-- What a run records is what the tables say. -/
theorem registry_of_reachable {s : SyscallKernel × Registry}
    (h : recorded.Reachable (fun s action => s.1.staysInTable action = true) s) :
    s.1.registry = s.2 ∧ s.1.EntriesSound ∧ s.1.kernel.WellFormed := by
  refine h.invariant (fun s => s.1.registry = s.2 ∧ s.1.EntriesSound ∧ s.1.kernel.WellFormed)
    ?_ ?_
  · rintro ⟨s, registry⟩ ⟨⟨hboot, htable, -⟩, hempty⟩
    have hzero : ∀ (i : Nat) (entry : SyscallEntry), s.syscallTable[i]? = some entry →
        entry.defined = false := by
      intro i entry hentry
      have htable : s.syscallTable = .replicate maxSyscallId .zero := htable
      rw [htable, Vector.getElem?_replicate] at hentry
      split at hentry
      · cases hentry
        rfl
      · cases hentry
    refine ⟨?_, ?_, .boot hboot⟩
    · rw [show registry = Registry.empty from hempty]
      funext id
      show (s.syscallTable[id]?).bind _ = none
      cases hentry : s.syscallTable[id]? with
      | none => rfl
      | some entry => exact registration_of_undefined _ (hzero id entry hentry)
    · intro i entry hentry hdef
      rw [hzero i entry hentry] at hdef
      cases hdef
  · rintro ⟨s, registry⟩ action ⟨s', registry'⟩ ⟨hreg, hsound, hw⟩ hok ⟨hst, hupd⟩
    obtain ⟨hreg', hsound', hw'⟩ := registry_step hw hsound hok hst
    refine ⟨?_, hsound', hw'⟩
    show s'.registry = registry'
    rw [hreg', show s.registry = registry from hreg]
    exact hupd.symm

/-- A system call made in state `s` does what the registry says, and uses no entry
beyond the table. -/
def Dispatches (s : SyscallKernel) (registry : Registry)
    (id arg1 arg2 arg3 pc stack flags : Word) (beyond : SyscallEntry) : Prop :=
  (∀ i, syscallIndex id.toNat = some i → i < maxSyscallId) ∧
  ∃ d s', s.doSyscall id arg1 arg2 arg3 pc stack flags beyond = some (d, s') ∧
    (∀ r, registry id.toNat = some r →
      d = .calls (some r.funcPtr) ([arg1, arg2, arg3].take r.argCount)) ∧
    (registry id.toNat = none → d = .enosyscall ∧ s'.kernel = s.kernel)

/-- **System calls go to what is registered.**  In every run that does not use the
id 256 and gives out no pid the table names for a process that has ended:
`set_syscall` stays within the table, and every system call of a process calls the
function registered under its id, or returns `ENOSYSCALL` and changes nothing. -/
theorem dispatches_of_reachable {s : SyscallKernel × Registry}
    (h : recorded.Reachable (fun s action => s.1.staysInTable action = true) s) :
    (∀ id argCount pid funcPtr beyond,
      s.1.staysInTable (.setSyscall id argCount pid funcPtr beyond) = true →
      ∀ i, syscallIndex id = some i → i < maxSyscallId) ∧
    ∀ id arg1 arg2 arg3 pc stack flags beyond,
      s.1.staysInTable (.doSyscall id arg1 arg2 arg3 pc stack flags beyond) = true →
      s.1.kernel.active.isSome = true →
        s.1.Dispatches s.2 id arg1 arg2 arg3 pc stack flags beyond := by
  obtain ⟨hreg, hsound, hw⟩ := registry_of_reachable h
  refine ⟨?_, ?_⟩
  · intro id argCount pid funcPtr beyond hok i hi
    exact (syscallIndex_lt (by simpa [staysInTable] using hok) hi).1
  · intro id arg1 arg2 arg3 pc stack flags beyond hok hactive
    have hid : id.toNat ≠ maxSyscallId := by simpa [staysInTable] using hok
    refine ⟨fun i hi => (syscallIndex_lt (by omega) hi).1, ?_⟩
    rw [← hreg]
    cases hr : s.1.registry id.toNat with
    | none =>
      obtain ⟨s', hs', hkernel, -⟩ :=
        doSyscall_of_unregistered hsound hid hr arg1 arg2 arg3 pc stack flags beyond
      exact ⟨_, s', hs', fun r h => (by cases h), fun _ => ⟨rfl, hkernel⟩⟩
    | some r =>
      obtain ⟨⟨a, A⟩, ha⟩ := Option.isSome_iff_exists.mp hactive
      obtain ⟨space, entry, switched, hfunc, hcount, hrange, heq⟩ :=
        doSyscall_of_registered hw hsound hr arg1 arg2 arg3 pc stack flags beyond
      have ha' : (s.1.kernel.loadAddressSpace space).active = some (a, A) := ha
      obtain ⟨s', hs'⟩ := callFunction_eq
        (s := { s.1 with kernel := s.1.kernel.loadAddressSpace space }) ha' hrange switched
        [arg1, arg2, arg3] pc stack flags
      rw [hfunc, hcount] at hs'
      refine ⟨_, s', heq.trans hs', ?_, fun h => by cases h⟩
      intro r' hr'
      cases hr'
      rfl

/-- A function is registered for process 1 and called; the process ends, another one
calls it. -/
def ownerEndsRun : List Action :=
  [.kernel (.spawn 0x8000 1 0x1000 (.succeeds 1 fun _ => 0)),
    .kernel (.spawn 0x8000 1 0x2000 (.succeeds 2 fun _ => 0)),
    .setSyscall 10 2 1 (some (.other 0x9000)) .zero, .kernel .advance, .kernel .advance,
    .doSyscall 10 5 6 7 0x8004 0x7000 0x3200 .zero, .sysReturn, .kernel (.terminate 1),
    .doSyscall 10 5 6 7 0x8004 0x7000 0x3200 .zero]

/-- A process runs. -/
def oneProcessRun : List Action :=
  [.kernel (.spawn 0x8000 1 0x1000 (.succeeds 1 fun _ => 0)), .kernel .advance]

theorem runs_active :
    (Transition.System.runFrom (fun s action => staysInTable s.1 action = true)
      (Transition.System.recordStep step registryAfter) (bare, .empty)
      (builtinSyscalls ++ ownerEndsRun)).any (fun s => s.1.kernel.active.isSome) = true ∧
    (Transition.System.runFrom Transition.anyStep
      (Transition.System.recordStep step registryAfter) (bare, .empty) oneProcessRun).any
      (fun s => s.1.kernel.active.isSome) = true := by
  decide +kernel

theorem dispatches_ownerEndsRun :
    ∃ s, Transition.System.runFrom (fun s action => staysInTable s.1 action = true)
        (Transition.System.recordStep step registryAfter) (bare, .empty)
        (builtinSyscalls ++ ownerEndsRun) = some s ∧
      s.1.Dispatches s.2 10 5 6 7 0x8004 0x7000 0x3200 .zero := by
  obtain ⟨s, hs, hactive⟩ := (Option.any_eq_true _ _).mp runs_active.1
  have hinit : recorded.Init (bare, .empty) := ⟨boot_bare, rfl⟩
  have hreach : recorded.Reachable (fun s action => s.1.staysInTable action = true) s :=
    .run _ Transition.System.record_step _ (.init hinit) hs
  exact ⟨s, hs, (dispatches_of_reachable hreach).2 10 5 6 7 0x8004 0x7000 0x3200 .zero
    rfl hactive⟩

/-- The id 256 passes the check and uses an entry the table does not have. -/
theorem not_dispatches_oneProcessRun :
    ¬ ∀ s, recorded.Reachable Transition.anyStep s →
      (∀ id i, syscallIndex id = some i → i < maxSyscallId) ∧
      ∀ id arg1 arg2 arg3 pc stack flags beyond, s.1.kernel.active.isSome = true →
        s.1.Dispatches s.2 id arg1 arg2 arg3 pc stack flags beyond := by
  intro h
  obtain ⟨s, hs, hactive⟩ := (Option.any_eq_true _ _).mp runs_active.2
  have hinit : recorded.Init (bare, .empty) := ⟨boot_bare, rfl⟩
  have hreach : recorded.Reachable Transition.anyStep s :=
    .run _ Transition.System.record_step _ (.init hinit) hs
  have hcall := (h s hreach).2 256 0 0 0 0x8004 0x7000 0x3200 .zero hactive
  exact absurd (hcall.1 256 (by decide)) (by decide)

end SyscallKernel
end QuarkKernel
