import QuarkKernel.BlockSteps
import QuarkKernel.BootedKernel
import QuarkKernel.DanglingReferences
import QuarkKernel.Fairness
import QuarkKernel.LoadedSpace
import QuarkKernel.Runnable

/-! # The processes of a booted kernel

From the boot on the processes are those of the modules, numbered from 1 on and all of
priority 1, for good.  So the ready queue never runs out of slots, no pid is given out
twice, and nobody leaves a port or an interrupt handler behind: what can go wrong in
other runs of the kernel's calls does not in the runs that start with its boot
(`booted_of_reachable`). -/
namespace QuarkKernel

open Multiboot (moduleLimit)

namespace Kernel

/-- The calls of a kernel that boots or has booted: only processes of priority 1 start,
and none ends. -/
def bootsOrServes (kernel : Kernel) : Op → Bool
  | .spawn _ priority _ _ => priority = 1 && kernel.nextPid ≠ -1
  | op => op.isBuiltin

/-- A call of a kernel that boots or has booted, with room in the ready queue for the
process that it makes ready, and with its buffer below the kernel. -/
structure Tame (kernel : Kernel) (op : Op) : Prop where
  call : kernel.bootsOrServes op = true
  spares : op.sparesKernel kernel = true
  room : kernel.FindsRoom op

theorem returnsCleanly_of_tame {k : Kernel} {op : Op} (h : k.Tame op) :
    k.returnsCleanly op = true := by
  cases op <;> first | rfl | cases h.call

theorem isResourceCall_of_tame {k : Kernel} {op : Op} (h : k.Tame op) :
    op.isResourceCall = true := by
  cases op <;> first | rfl | cases h.call

/-- What holds in all runs of tame calls. -/
structure Sound (k : Kernel) : Prop where
  wellFormed : k.WellFormed
  readyOnce : k.ReadyOnce
  labelled : k.Labelled
  numbered : k.Numbered
  registered : k.Registered
  owners : k.OwnersLive
  runnable : k.Runnable
  buffers : k.WaitsBelow

theorem Sound.boot {k : Kernel} (h : k.Boot) : k.Sound := by
  refine ⟨.boot h, .boot h, (labelled_of_reachable (.init h)).2, .boot h, .boot h, .boot h, ?_,
    ?_⟩ <;>
  · obtain ⟨heap, cr3, memory, rfl⟩ := h
    intro p P hP
    cases hP

theorem Sound.step {k k' : Kernel} {op : Op} (h : k.Sound) (hok : k.Tame op)
    (hst : k.step op = some k') : k'.Sound := by
  have hcall := isResourceCall_of_tame hok
  have hclean := returnsCleanly_of_tame hok
  have heffect := step_effect h.wellFormed.sending (isResourceCall_ne_signalReturn hcall) hst
  have hcounter : k.counterBelow op = true := by
    cases op with
    | spawn => exact (Bool.and_eq_true_iff.mp hok.call).2
    | _ => rfl
  have href : k.leavesNoReference op = true := by
    cases op with
    | spawn =>
      have hfree := h.numbered.nextPidFree h.wellFormed
      simp [leavesNoReference, assignsUnusedPid, (Bool.and_eq_true_iff.mp hfree).2]
    | terminate => cases hok.call
    | _ => rfl
  obtain ⟨hreg, howners⟩ := h.owners.step h.wellFormed h.registered hcall href hst
  exact ⟨h.wellFormed.step hst, h.readyOnce.step h.wellFormed hclean hst,
    h.labelled.effect h.readyOnce heffect, h.numbered.effect hcounter heffect, hreg, howners,
    h.runnable.step h.wellFormed h.readyOnce hclean hok.room hst,
    h.buffers.step h.wellFormed hok.spares hst⟩

theorem sound_of_reachable {k : Kernel} (h : system.Reachable (fun k op => k.Tame op) k) :
    k.Sound :=
  h.invariant Sound (fun _ hb => .boot hb) fun _ _ _ hi hok hst => hi.step hok hst

/-! ### What does not depend on the address space that is loaded -/

/-- A spawn does the same in every address space, but to the memory. -/
theorem spawn_elsewhere {k k' : Kernel} {programEntry addressSpace r : Word} {priority : Int}
    {alloc : SpawnAlloc}
    (h : k.kernelSpawnProcess programEntry priority addressSpace alloc = some (r, k'))
    (cr3 : Word) (memory : Word → ByteMemory.Memory) :
    ∃ memory', { k with cr3, memory }.kernelSpawnProcess programEntry priority addressSpace alloc =
      some (r, { k' with cr3, memory := memory' }) := by
  rw [kernelSpawnProcess] at h ⊢
  cases hp : alloc.process with
  | none =>
    rw [hp] at h
    cases h
    exact ⟨memory, rfl⟩
  | some p =>
    simp only [hp] at h ⊢
    by_cases hctx : (!alloc.context) = true
    · rw [if_pos hctx] at h ⊢
      cases h
      exact ⟨memory, rfl⟩
    · rw [if_neg hctx] at h ⊢
      by_cases hpage : alloc.stackPage.toNat % pageSize.toNat ≠ 0
      · rw [if_pos hpage] at h ⊢
        cases h
        exact ⟨memory, rfl⟩
      · rw [if_neg hpage] at h ⊢
        cases hb : alloc.stackBytes with
        | none =>
          rw [hb] at h
          obtain ⟨table, ht, h⟩ := Option.bind_eq_some_iff.mp h
          cases h
          refine ⟨memory, Option.bind_eq_some_iff.mpr ⟨table, ht, rfl⟩⟩
        | some bytes =>
          rw [hb] at h
          obtain ⟨table, ht, h⟩ := Option.bind_eq_some_iff.mp h
          cases h
          exact ⟨_, Option.bind_eq_some_iff.mpr ⟨table, ht, rfl⟩⟩

/-- A module that is loaded becomes a process in a block that was free, by a spawn that
does the same in every address space. -/
theorem kernelLoadModule_cases {k k' : Kernel} {module : BootModule}
    (h : k.kernelLoadModule module = some k') :
    ∃ p, module.alloc.process = some p ∧ k.processes p = none ∧
      k'.processes = Function.update k.processes p
        (some (newProcess k.nextPid module.entry 1 module.addressSpace)) ∧
      k'.nextPid = k.nextPid + 1 ∧ k'.activeProcess = k.activeProcess ∧
      k'.interruptHandlers = k.interruptHandlers ∧
      ∀ cr3 memory, ∃ memory', step { k with cr3, memory }
        (.spawn module.entry 1 module.addressSpace module.alloc) =
          some { k' with cr3, memory := memory' } := by
  rw [kernelLoadModule] at h
  simp only at h
  split at h
  · rename_i hfresh
    obtain ⟨⟨pid, k1⟩, hspawn, h⟩ := Option.bind_eq_some_iff.mp h
    simp only at h
    split at h
    · rename_i hpid
      cases h
      have hstep : ∀ cr3 memory, ∃ memory', step { k with cr3, memory }
          (.spawn module.entry 1 module.addressSpace module.alloc) =
            some { k' with cr3, memory := memory' } := by
        intro cr3 memory
        obtain ⟨memory', hspawn'⟩ := spawn_elsewhere hspawn cr3 memory
        have hfresh' : fresh { k with cr3, memory } module.alloc = true := hfresh
        refine ⟨memory', ?_⟩
        rw [step, if_pos hfresh']
        exact Option.map_eq_some_iff.mpr ⟨_, hspawn', rfl⟩
      obtain ⟨rfl, -⟩ | ⟨p, m, table, hp, -, -, -, rfl⟩ := spawn_cases hspawn
      · exact absurd hpid (Nat.lt_irrefl 0)
      · exact ⟨p, hp, processes_of_fresh hfresh hp, rfl, rfl, rfl, rfl, hstep⟩
    · cases h
  · cases h

/-- The scheduler loads an address space in place of whichever was loaded. -/
theorem advance_elsewhere {k : Kernel} (h : k.activeProcess = none) (cr3 : Word) :
    { k with cr3 }.kernelAdvanceScheduler = k.kernelAdvanceScheduler := by
  simp [kernelAdvanceScheduler, requeueActive, h, loadAddressSpace]

theorem interruptHandlers_builtin {k k' : Kernel} {op : Op} (hop : op.isBuiltin = true)
    (hst : k.step op = some k') : k'.interruptHandlers = k.interruptHandlers := by
  have hadvance : ∀ {k k' : Kernel}, k.kernelAdvanceScheduler = some k' →
      k'.interruptHandlers = k.interruptHandlers := by
    intro k k' h
    obtain ⟨p, P, queue, -, rfl, -⟩ := advance_cases h
    rfl
  have hsend : ∀ {recipient message : Word} {r : Status},
      k.kernelSendMessage recipient message = some (r, k') →
      k'.interruptHandlers = k.interruptHandlers := by
    intro recipient message r h
    obtain ⟨-, -, rfl⟩ | ⟨-, -, -, -, -, -, rfl⟩ |
      ⟨d, D, a, A, m, memory, -, -, -, -, -, -, -, rfl⟩ := sendMessage_cases h <;> rfl
  cases op with
  | programs memory =>
    cases hst
    rfl
  | advance => exact hadvance hst
  | storeContext context =>
    obtain ⟨⟨r, k1⟩, hk, rfl⟩ := Option.map_eq_some_iff.mp hst
    obtain rfl | ⟨a, A, -, rfl⟩ := storeContext_cases hk <;> rfl
  | send recipient message flags alloc =>
    obtain ⟨⟨r, k1⟩, hk, rfl⟩ := Option.map_eq_some_iff.mp hst
    obtain ⟨-, rfl⟩ | ⟨-, -, hs⟩ | ⟨-, -, hq⟩ := send_cases hk
    · rfl
    · exact hsend hs
    · obtain ⟨-, -, rfl⟩ | ⟨-, -, rfl⟩ | ⟨-, -, -, -, -, -, -, -, -, rfl⟩ |
        ⟨d, D, a, A, m, -, -, -, -, -, -, rfl⟩ := queueMessage_cases hq <;> rfl
  | receive buffer flags =>
    obtain ⟨⟨r, k1⟩, hk, rfl⟩ := Option.map_eq_some_iff.mp hst
    obtain ⟨a, A, -, ⟨m, queue, memory, -, -, -, rfl⟩ | ⟨-, -, -, rfl⟩ | ⟨-, -, -, hadv⟩⟩ :=
      receive_cases hk
    · rfl
    · rfl
    · exact (hadvance hadv).trans rfl
  | createPort id port node =>
    obtain ⟨⟨r, k1⟩, hk, rfl⟩ := Option.map_eq_some_iff.mp hst
    obtain rfl | ⟨a, A, t, -, -, -, rfl⟩ := createPort_cases hk <;> rfl
  | removePort id =>
    obtain ⟨⟨r, k1⟩, hk, rfl⟩ := Option.map_eq_some_iff.mp hst
    obtain rfl | ⟨port, a, A, t, -, -, -, -, rfl⟩ := removePort_cases hk <;> rfl
  | _ => cases hop

end Kernel

namespace SyscallKernel

/-! ### The processes of the modules -/

/-- The process that a module became. -/
structure BelongsTo (P : Process) (module : BootModule) (pid : Nat) : Prop where
  pid : P.pid = BitVec.ofNat 32 pid
  priority : P.priority = 1
  pageTable : P.pageTable = module.addressSpace
  state : P.state = .active ∨ P.state = .requesting

/-- The processes are those of the modules, numbered from 1 on. -/
structure Resident (modules : List BootModule) (k : Kernel) : Prop where
  process : ∀ i (hi : i < modules.length), ∃ p P, modules[i].alloc.process = some p ∧
    k.processes p = some P ∧ BelongsTo P modules[i] (i + 1)
  module : ∀ p P, k.processes p = some P →
    ∃ i, ∃ hi : i < modules.length, modules[i].alloc.process = some p
  nextPid : k.nextPid = BitVec.ofNat 32 (modules.length + 1)

/-- The block of a process, after a call that does not start one. -/
theorem block_of_builtin {k : Kernel} {op : Kernel.Op} (hop : op.isBuiltin = true) {p : Ptr}
    {X Y : Option Process} (h : Kernel.BlockStep k op p X Y) :
    (X = none ∧ Y = none) ∨ ∃ P P', X = some P ∧ Y = some P' ∧
      ∀ module pid, BelongsTo P module pid → BelongsTo P' module pid := by
  cases h with
  | keeps =>
    rcases X with _ | P
    · exact .inl ⟨rfl, rfl⟩
    · exact .inr ⟨P, P, rfl, rfl, fun _ _ hP => hP⟩
  | spawned h | ended _ h | interrupted _ _ h | returned h =>
    subst h
    cases hop
  | stored P | queued P | took P =>
    exact .inr ⟨P, _, rfl, rfl, fun _ _ hP => ⟨hP.pid, hP.priority, hP.pageTable, hP.state⟩⟩
  | delivered P =>
    exact .inr ⟨P, _, rfl, rfl, fun _ _ hP => ⟨hP.pid, hP.priority, hP.pageTable, .inl rfl⟩⟩
  | blocked P =>
    exact .inr ⟨P, _, rfl, rfl, fun _ _ hP => ⟨hP.pid, hP.priority, hP.pageTable, .inr rfl⟩⟩

theorem nextPid_advance {k k' : Kernel} (h : k.kernelAdvanceScheduler = some k') :
    k'.nextPid = k.nextPid := by
  obtain ⟨p, P, queue, -, rfl, -⟩ := Kernel.advance_cases h
  rfl

theorem nextPid_builtin {k k' : Kernel} {op : Kernel.Op} (hop : op.isBuiltin = true)
    (h : Kernel.Effect k op k') : k'.nextPid = k.nextPid := by
  cases h with
  | idle _ _ _ _ hnext | edit _ _ _ _ _ _ _ _ _ hnext | wake _ _ _ _ _ _ _ _ _ _ _ _ hnext =>
    exact hnext
  | spawn _ _ _ _ _ _ _ _ _ _ _ _ h =>
    obtain ⟨_, _, _, rfl⟩ := h
    cases hop
  | terminate _ _ _ _ _ _ _ _ _ _ _ h =>
    subst h
    cases hop
  | advance _ hadv => exact nextPid_advance hadv
  | block _ _ _ _ _ _ _ _ _ _ _ _ _ hadv hnext => exact (nextPid_advance hadv).trans hnext

namespace Resident
variable {modules : List BootModule} {k k' : Kernel}

theorem congr (h : Resident modules k) (hproc : k'.processes = k.processes)
    (hnext : k'.nextPid = k.nextPid) : Resident modules k' := by
  refine ⟨?_, ?_, hnext.trans h.nextPid⟩
  · rw [hproc]
    exact h.process
  · rw [hproc]
    exact h.module

theorem builtin (h : Resident modules k) (hw : k.WellFormed) {op : Kernel.Op}
    (hop : op.isBuiltin = true) (hst : k.step op = some k') : Resident modules k' := by
  have hne : op ≠ .signalReturn := by
    rintro rfl
    cases hop
  refine ⟨?_, ?_, (nextPid_builtin hop (Kernel.step_effect hw.sending hne hst)).trans h.nextPid⟩
  · intro i hi
    obtain ⟨p, P, hp, hP, hbelongs⟩ := h.process i hi
    rcases block_of_builtin hop (Kernel.step_blockStep hw hst p) with
      ⟨hnone, -⟩ | ⟨Q, P', hQ, hP', hkeeps⟩
    · rw [hP] at hnone
      cases hnone
    · obtain rfl := Option.some.inj (hP.symm.trans hQ)
      exact ⟨p, P', hp, hP', hkeeps _ _ hbelongs⟩
  · intro p P' hP'
    rcases block_of_builtin hop (Kernel.step_blockStep hw hst p) with
      ⟨-, hnone⟩ | ⟨Q, -, hQ, -, -⟩
    · rw [hP'] at hnone
      cases hnone
    · exact h.module p Q hQ

/-- The process of one more module has started. -/
theorem spawn (h : Resident modules k) {module : BootModule} {p : Ptr}
    (hfree : k.processes p = none) (hp : module.alloc.process = some p)
    (hproc : k'.processes = Function.update k.processes p
      (some (Kernel.newProcess k.nextPid module.entry 1 module.addressSpace)))
    (hnext : k'.nextPid = k.nextPid + 1) : Resident (modules ++ [module]) k' := by
  refine ⟨?_, ?_, ?_⟩
  · intro i hi
    rw [hproc]
    rcases Nat.lt_or_ge i modules.length with hlt | hge
    · obtain ⟨q, Q, hq, hQ, hbelongs⟩ := h.process i hlt
      have hne : q ≠ p := by
        rintro rfl
        rw [hfree] at hQ
        cases hQ
      rw [List.getElem_append_left hlt]
      exact ⟨q, Q, hq, by rw [Function.update_of_ne hne, hQ], hbelongs⟩
    · obtain rfl : i = modules.length := by
        rw [List.length_append, List.length_singleton] at hi
        omega
      rw [List.getElem_concat_length rfl]
      refine ⟨p, _, hp, Function.update_self .., ⟨?_, rfl, rfl, .inl rfl⟩⟩
      exact h.nextPid
  · intro q Q hQ
    rw [hproc] at hQ
    by_cases hqp : q = p
    · subst hqp
      refine ⟨modules.length, by simp, ?_⟩
      rw [List.getElem_concat_length rfl]
      exact hp
    · rw [Function.update_of_ne hqp] at hQ
      obtain ⟨i, hi, hmodule⟩ := h.module q Q hQ
      refine ⟨i, by simp; omega, ?_⟩
      rw [List.getElem_append_left hi]
      exact hmodule
  · rw [hnext, h.nextPid, List.length_append, List.length_singleton]
    exact (BitVec.ofNat_add ..).symm

/-- There are at most as many processes to run as there are modules. -/
theorem card_occupied_le (h : Resident modules k) (hr : k.ReadyOnce) :
    k.occupied.card ≤ modules.length := by
  have hle : k.occupied ≤ (modules.filterMap fun module => module.alloc.process : List Ptr) := by
    rw [Multiset.le_iff_subset hr.nodup]
    intro p hp
    obtain ⟨P, hP, -⟩ := hr.running p hp
    obtain ⟨i, hi, hmodule⟩ := h.module p P hP
    exact List.mem_filterMap.mpr ⟨modules[i], List.getElem_mem hi, hmodule⟩
  exact (Multiset.card_le_card hle).trans (List.length_filterMap_le _ _)

theorem hasRoom (h : Resident modules k) (hr : k.ReadyOnce) (hl : k.Labelled)
    (hmodules : modules.length ≤ moduleLimit) : k.HasRoom := by
  have hcard := h.card_occupied_le hr
  have hsize : k.priorityQueue.size ≤ k.occupied.card := by
    rw [Kernel.occupied, Multiset.card_add, Kernel.ready, PriorityQueue.values,
      Multiset.card_map, PriorityQueue.card_entries]
    omega
  rw [moduleLimit] at hmodules
  rw [Kernel.HasRoom, hl.capacity]
  omega

theorem nextPid_ne (h : Resident modules k) (hlt : modules.length < moduleLimit) :
    k.nextPid ≠ -1 := by
  rw [moduleLimit] at hlt
  rw [h.nextPid]
  intro heq
  have hnat := congrArg BitVec.toNat heq
  rw [BitVec.toNat_ofNat, Nat.mod_eq_of_lt (by omega)] at hnat
  have hmax : (-1 : Word).toNat = 4294967295 := by decide
  omega

end Resident

/-! ### The boot is a run of calls -/

/-- In the loop over the modules: what has been done so far could be done by calls of the
kernel with one address space loaded all the time. -/
structure Booting (modules : List BootModule) (k : Kernel) : Prop where
  reachable : ∃ cr3 memory, Kernel.system.Reachable (fun k op => k.Tame op) { k with cr3, memory }
  resident : Resident modules k
  inactive : k.activeProcess = none

theorem Booting.load {modules : List BootModule} {module : BootModule} {k k' : Kernel}
    (h : Booting modules k) (hlt : modules.length < moduleLimit)
    (hload : k.kernelLoadModule module = some k') : Booting (modules ++ [module]) k' := by
  obtain ⟨cr3, memory, hreach⟩ := h.reachable
  obtain ⟨p, hp, hfree, hproc, hnext, hactive, -, hstep⟩ := Kernel.kernelLoadModule_cases hload
  obtain ⟨memory', hst⟩ := hstep cr3 memory
  have hsound := Kernel.sound_of_reachable hreach
  have hresident : Resident modules { k with cr3, memory } := h.resident.congr rfl rfl
  have hroom := hresident.hasRoom hsound.readyOnce hsound.labelled hlt.le
  have htame : Kernel.Tame { k with cr3, memory }
      (.spawn module.entry 1 module.addressSpace module.alloc) :=
    ⟨Bool.and_eq_true_iff.mpr ⟨rfl, decide_eq_true (h.resident.nextPid_ne hlt)⟩, rfl,
      fun _ => hroom⟩
  exact ⟨⟨cr3, memory', hreach.step htame hst⟩, h.resident.spawn hfree hp hproc hnext,
    hactive.trans h.inactive⟩

theorem Booting.loads {rest : List BootModule} :
    ∀ {modules : List BootModule} {k k' : Kernel}, Booting modules k →
      (modules ++ rest).length ≤ moduleLimit → k.loadModules rest = some k' →
      Booting (modules ++ rest) k' := by
  induction rest with
  | nil =>
    intro modules k k' h _ hload
    cases hload
    rwa [List.append_nil]
  | cons module rest ih =>
    intro modules k k' h hle hload
    obtain ⟨k1, hk1, hload⟩ := Option.bind_eq_some_iff.mp hload
    rw [List.append_cons] at hle ⊢
    refine ih (h.load ?_ hk1) hle hload
    rw [List.length_append, List.length_append, List.length_singleton] at hle
    omega

/-- What holds between two events. -/
structure Settled (modules : List BootModule) (k : Kernel) : Prop where
  reachable : Kernel.system.Reachable (fun k op => k.Tame op) k
  resident : Resident modules k
  active : ∃ a A, k.active = some (a, A)
  loaded : k.Loaded
  handlers : k.interruptHandlers = .nil

theorem Settled.sound {modules : List BootModule} {k : Kernel} (h : Settled modules k) : k.Sound :=
  Kernel.sound_of_reachable h.reachable

theorem active_advance {k k' : Kernel} (h : k.kernelAdvanceScheduler = some k') :
    ∃ a A, k'.active = some (a, A) := by
  obtain ⟨p, P, queue, hP, rfl, -⟩ := Kernel.advance_cases h
  exact ⟨p, P, Kernel.active_eq_some.mpr ⟨rfl, hP⟩⟩

theorem active_builtin {k k' : Kernel} {op : Kernel.Op} (hop : op.isBuiltin = true)
    (hlive : k'.ActiveLives) (hactive : ∃ a A, k.active = some (a, A))
    (h : Kernel.Effect k op k') : ∃ a A, k'.active = some (a, A) := by
  obtain ⟨a, A, ha⟩ := hactive
  have hsame : k'.activeProcess = k.activeProcess → ∃ a A, k'.active = some (a, A) := by
    intro heq
    have ha' := heq.trans (Kernel.active_eq_some.mp ha).1
    obtain ⟨A', hA'⟩ := hlive a ha'
    exact ⟨a, A', Kernel.active_eq_some.mpr ⟨ha', hA'⟩⟩
  cases h with
  | idle _ _ heq | edit _ _ _ _ _ _ _ heq | wake _ _ _ _ _ _ _ _ _ _ heq => exact hsame heq
  | spawn _ _ _ _ _ _ _ _ _ _ heq => exact hsame heq
  | terminate _ _ _ _ _ _ _ _ _ _ _ h =>
    subst h
    cases hop
  | advance _ hadv | block _ _ _ _ _ _ _ _ _ _ _ _ _ hadv => exact active_advance hadv

theorem Settled.builtin {modules : List BootModule} {k k' : Kernel} (h : Settled modules k)
    (hmodules : modules.length ≤ moduleLimit) {op : Kernel.Op} (hop : op.isBuiltin = true)
    (hspares : op.sparesKernel k = true) (hst : k.step op = some k') : Settled modules k' := by
  obtain ⟨a, A, ha⟩ := h.active
  have hsound := h.sound
  have hlive : k.ActiveLives := by
    intro b hb
    obtain ⟨hactive, hA⟩ := Kernel.active_eq_some.mp ha
    obtain rfl := Option.some.inj (hactive.symm.trans hb)
    exact ⟨A, hA⟩
  have htame : k.Tame op := by
    refine ⟨?_, hspares, fun _ => h.resident.hasRoom hsound.readyOnce hsound.labelled hmodules⟩
    cases op <;> first | exact hop | cases hop
  obtain ⟨hlive', hspace⟩ := Kernel.step_spaceStep hsound.wellFormed hlive hst
  have hne := Kernel.isResourceCall_ne_signalReturn (Kernel.isResourceCall_of_tame htame)
  have heffect := Kernel.step_effect hsound.wellFormed.sending hne hst
  refine ⟨h.reachable.step htame hst, h.resident.builtin hsound.wellFormed hop hst,
    active_builtin hop hlive' h.active heffect, ?_,
    (Kernel.interruptHandlers_builtin hop hst).trans h.handlers⟩
  cases hspace with
  | stays hremains hcr3 _ => exact h.loaded.remains hremains hcr3
  | loads hloaded _ => exact hloaded

/-- The loop over the modules registers no interrupt handler. -/
theorem interruptHandlers_loadModules {modules : List BootModule} :
    ∀ {k k' : Kernel}, k.loadModules modules = some k' →
      k'.interruptHandlers = k.interruptHandlers := by
  induction modules with
  | nil =>
    rintro k k' ⟨⟩
    rfl
  | cons module modules ih =>
    intro k k' hload
    obtain ⟨k1, hk1, hload⟩ := Option.bind_eq_some_iff.mp hload
    obtain ⟨p, -, -, -, -, -, hhandlers, -⟩ := Kernel.kernelLoadModule_cases hk1
    exact (ih hload).trans hhandlers

/-- What `kernel_initialize` leaves. -/
theorem Starts.settled {modules : List BootModule} {s : SyscallKernel} (h : Starts modules s) :
    Settled modules s.kernel ∧ s.syscallTable = builtinTable ∧ s.inProgress = none := by
  obtain ⟨hmodules, heap, cr3, memory, hinit⟩ := h
  rw [kernelInitialize, runFrom_builtinSyscalls] at hinit
  simp only [Option.bind_eq_bind, Option.bind_some] at hinit
  obtain ⟨k1, hk1, hinit⟩ := Option.bind_eq_some_iff.mp hinit
  obtain ⟨k2, hk2, hinit⟩ := Option.bind_eq_some_iff.mp hinit
  cases hinit
  have hboot : Kernel.Boot (.kernelInitialize heap cr3 memory) := ⟨heap, cr3, memory, rfl⟩
  have hempty : Booting [] (.kernelInitialize heap cr3 memory) := by
    refine ⟨⟨cr3, memory, .init hboot⟩, ⟨?_, ?_, rfl⟩, rfl⟩
    · intro i hi
      cases hi
    · intro p P hP
      cases hP
  obtain ⟨⟨c, m, hreach⟩, hresident, hinactive⟩ := hempty.loads hmodules hk1
  have hadv : Kernel.kernelAdvanceScheduler { k1 with cr3 := c } = some k2 := by
    rw [Kernel.advance_elsewhere hinactive]
    exact hk2
  have hnone : Kernel.activeProcess { k1 with cr3 := c } = none := hinactive
  -- the programs bring about the memory that the boot leaves, and the scheduler is called
  have hprograms : Kernel.system.Step { k1 with cr3 := c, memory := m } (.programs k1.memory)
      { k1 with cr3 := c } := rfl
  have hadvance : Kernel.system.Step { k1 with cr3 := c } .advance k2 := hadv
  have hreach1 := hreach.step ⟨rfl, rfl, fun hready => by cases hready⟩ hprograms
  have hreach2 : Kernel.system.Reachable (fun k op => k.Tame op) k2 := by
    refine hreach1.step ⟨rfl, rfl, fun hready => ?_⟩ hadvance
    rw [Kernel.makesReady, hnone] at hready
    cases hready
  refine ⟨⟨hreach2, ?_, active_advance hk2, (Kernel.loaded_of_advance hk2).2, ?_⟩, rfl, rfl⟩
  · exact hresident.congr (Kernel.advance_occupied hk2).1 (nextPid_advance hk2)
  · obtain ⟨p, P, queue, -, rfl, -⟩ := Kernel.advance_cases hk2
    exact interruptHandlers_loadModules hk1

theorem settled_of_reachable {modules : List BootModule} {s : SyscallKernel}
    (h : (booted modules).Reachable (fun _ event => event.orderly = true) s) :
    modules.length ≤ moduleLimit ∧ Settled modules s.kernel ∧ s.syscallTable = builtinTable ∧
      s.inProgress = none := by
  induction h with
  | init hs => exact ⟨hs.1, hs.settled⟩
  | step _ hok hst ih =>
    obtain ⟨hmodules, hsettled, htable, hnone⟩ := ih
    have hkeeps := next_keeps
      (fun k op k' hk hmakes hst => hk.builtin hmodules hmakes.builtin hmakes.spares hst)
      (fun k hk => hk.active) htable hnone hok hsettled hst
    exact ⟨hmodules, hkeeps⟩

/-- Two modules, in the blocks 1 and 2. -/
def twoModules : List BootModule :=
  [⟨0x2000, fun _ _ => some 0, 0x8000, .succeeds 1 fun _ => 0⟩,
    ⟨0x3000, fun _ _ => some 0, 0x9000, .succeeds 2 fun _ => 0⟩]

/-- The allocators have memory. -/
def plenty : Answers := ⟨⟨true, true⟩, true, true, 0, 0, fun _ _ => some 0⟩

/-- The boot with these modules and an empty heap. -/
def boot (modules : List BootModule) : Option SyscallKernel :=
  kernelInitialize (fun _ => ⟨0, 0⟩) 0x1000 (fun _ _ => none) modules

/-- The first process opens a port and waits; the second one sends to it, makes a call
that does not exist and is interrupted. -/
def portRun : List Event :=
  [.systemCall ⟨8, 5, 0, 0, 0x8010, 0x7000, 0x3200⟩ .zero plenty,
    .systemCall ⟨7, 0x6000, 0, 0, 0x8020, 0x7000, 0x3200⟩ .zero plenty,
    .systemCall ⟨6, 5, 0x5000, 2, 0x9010, 0x7000, 0x3200⟩ .zero plenty,
    .systemCall ⟨4, 0, 0, 0, 0x9020, 0x7000, 0x3200⟩ .zero plenty,
    .preempt (ProcessContext.zero.setContextPc 0x9024)]

end SyscallKernel
end QuarkKernel
