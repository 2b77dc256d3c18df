import QuarkKernel.ReadyOnce

/-! # Process identity

A live process is found in the process table under its pid, which is not 0 and no
other live process's.  `next_pid` is never compared with the table: after
2^32 - 1 spawns it is 0, the value `kernel_spawn_process` returns when it fails,
and from then on it can be the pid of a process that still lives, for which
`avl_insert` keeps the old entry.  So every spawn has to find a counter that is
neither (`assignsFreePid`); as long as the counter has not come round, all do. -/
namespace QuarkKernel
namespace Kernel

/-- The pid a spawn would give out is not 0, and nobody has it. -/
def nextPidFree (k : Kernel) : Bool := k.nextPid ≠ 0 && (k.lookup k.nextPid).isNone

/-- The step does not start a process with a pid that is in use. -/
def assignsUnusedPid (k : Kernel) (op : Op) : Bool :=
  match op with
  | .spawn _ _ _ _ => !k.makesReady op || (k.lookup k.nextPid).isNone
  | _ => true

/-- The step does not start a process with the pid 0 or with one that is in use. -/
def assignsFreePid (k : Kernel) (op : Op) : Bool :=
  match op with
  | .spawn _ _ _ _ => !k.makesReady op || k.nextPidFree
  | _ => true

/-- What the pid of a process stands for. -/
structure Identity (k : Kernel) : Prop where
  nonzero : ∀ p P, k.processes p = some P → P.pid ≠ 0
  distinct : ∀ p P q Q, k.processes p = some P → k.processes q = some Q → P.pid = Q.pid → p = q
  registered : ∀ p P, k.processes p = some P → k.lookup P.pid = some p
  scheduled : ∀ p, p ∈ k.occupied → ∃ P, k.processes p = some P ∧ k.lookup P.pid = some p

/-- Every live process is in the table under its pid. -/
structure Registered (k : Kernel) : Prop where
  table : k.processTable.Table
  entry : ∀ p P, k.processes p = some P → k.lookup P.pid = some p

theorem Registered.boot {k : Kernel} (h : k.Boot) : k.Registered := by
  obtain ⟨heap, cr3, memory, rfl⟩ := h
  refine ⟨.nil, ?_⟩
  intro p P hP
  cases hP

theorem Registered.congr {k k' : Kernel} (h : k.Registered) (hproc : k'.processes = k.processes)
    (htable : k'.processTable = k.processTable) : k'.Registered := by
  refine ⟨htable ▸ h.table, ?_⟩
  simp only [lookup, hproc, htable]
  exact h.entry

/-- A block may change in all but the pid. -/
theorem Registered.edit {k k' : Kernel} (h : k.Registered) {p : Ptr} {P P' : Process}
    (hP : k.processes p = some P) (hpid : P'.pid = P.pid)
    (hproc : k'.processes = Function.update k.processes p (some P'))
    (htable : k'.processTable = k.processTable) : k'.Registered := by
  refine ⟨htable ▸ h.table, ?_⟩
  intro q Q hQ
  rw [hproc] at hQ
  rw [lookup, htable]
  by_cases hqp : q = p
  · subst hqp
    rw [Function.update_self] at hQ
    obtain rfl := Option.some.inj hQ
    rw [hpid]
    exact h.entry q P hP
  · rw [Function.update_of_ne hqp] at hQ
    exact h.entry q Q hQ

/-- The table after a process is entered under a pid nobody has. -/
theorem Registered.lookup_spawn {k k' : Kernel} (h : k.Registered) {p : Ptr} {node : Bool}
    (hfree : k.lookup k.nextPid = none)
    (htable : k.processTable.avlInsert node k.nextPid.toInt (some p) = some k'.processTable)
    (pid : Word) : k'.lookup pid = if pid = k.nextPid then some p else k.lookup pid := by
  rw [lookup, h.table.avlGet_avlInsert htable hfree]
  simp only [BitVec.toInt_inj]
  rfl

/-- The table after the entry of a pid is taken out. -/
theorem Registered.lookup_terminate {k k' : Kernel} (h : k.Registered) {pid : Word}
    (htable : k.processTable.avlRemove pid.toInt = some k'.processTable) (pid' : Word) :
    k'.lookup pid' = if pid' = pid then none else k.lookup pid' := by
  rw [lookup, AvlTree.avlGet_avlRemove h.table.search htable]
  simp only [BitVec.toInt_inj]
  rfl

theorem Registered.spawn {k k' : Kernel} (h : k.Registered) {p : Ptr} {P : Process} {node : Bool}
    (hpid : P.pid = k.nextPid) (hfree : k.lookup k.nextPid = none)
    (htable : k.processTable.avlInsert node k.nextPid.toInt (some p) = some k'.processTable)
    (hproc : k'.processes = Function.update k.processes p (some P)) : k'.Registered := by
  refine ⟨h.table.avlInsert htable, ?_⟩
  intro q Q hQ
  rw [h.lookup_spawn hfree htable]
  rw [hproc] at hQ
  by_cases hqp : q = p
  · subst hqp
    rw [Function.update_self] at hQ
    obtain rfl := Option.some.inj hQ
    rw [hpid, if_pos rfl]
  · rw [Function.update_of_ne hqp] at hQ
    have hQ' := h.entry q Q hQ
    have hne : Q.pid ≠ k.nextPid := by
      intro heq
      rw [heq, hfree] at hQ'
      cases hQ'
    rw [if_neg hne, hQ']

theorem Registered.terminate {k k' : Kernel} (h : k.Registered) {p : Ptr} {pid : Word}
    (hlookup : k.lookup pid = some p)
    (htable : k.processTable.avlRemove pid.toInt = some k'.processTable)
    (hproc : k'.processes = Function.update k.processes p none) : k'.Registered := by
  refine ⟨h.table.avlRemove htable, ?_⟩
  intro q Q hQ
  rw [h.lookup_terminate htable]
  rw [hproc] at hQ
  by_cases hqp : q = p
  · subst hqp
    rw [Function.update_self] at hQ
    cases hQ
  · rw [Function.update_of_ne hqp] at hQ
    have hQ' := h.entry q Q hQ
    have hne : Q.pid ≠ pid := by
      intro heq
      rw [heq, hlookup] at hQ'
      exact hqp (Option.some.inj hQ').symm
    rw [if_neg hne, hQ']

theorem Registered.advance {k k' : Kernel} (h : k.Registered)
    (hadv : k.kernelAdvanceScheduler = some k') : k'.Registered := by
  obtain ⟨hproc, htable, -⟩ := advance_occupied hadv
  exact h.congr hproc htable

theorem assignsUnusedPid_of_assignsFreePid {k : Kernel} {op : Op}
    (h : k.assignsFreePid op = true) : k.assignsUnusedPid op = true := by
  cases op with
  | spawn programEntry priority addressSpace alloc =>
    rw [assignsFreePid, nextPidFree, Bool.or_eq_true, Bool.and_eq_true] at h
    rw [assignsUnusedPid, Bool.or_eq_true]
    exact h.imp_right And.right
  | _ => rfl

theorem Registered.effect {k k' : Kernel} {op : Op} (h : k.Registered)
    (hpid : k.assignsUnusedPid op = true) (he : Effect k op k') : k'.Registered := by
  cases he with
  | idle hproc htable _ _ => exact h.congr hproc htable
  | edit p P P' hP hedit hproc htable _ _ => exact h.edit hP hedit.pid hproc htable
  | wake p P P' _ hP hsame _ _ hproc htable _ _ => exact h.edit hP hsame.pid hproc htable
  | spawn p P node hready _ hnext _ _ htable hproc _ _ hop =>
    obtain ⟨programEntry, addressSpace, alloc, rfl⟩ := hop
    have hfree : k.lookup k.nextPid = none := by simpa [assignsUnusedPid, hready] using hpid
    exact h.spawn hnext hfree htable hproc
  | terminate p P pid hlookup _ htable hproc _ _ _ _ _ => exact h.terminate hlookup htable hproc
  | advance _ hadv => exact h.advance hadv
  | block a A A' k1 hactive hsame _ _ _ hproc htable _ _ hadv =>
    exact (h.edit (active_eq_some.mp hactive).2 hsame.pid hproc htable).advance hadv

/-- No live process has the pid 0. -/
def PidsNonzero (k : Kernel) : Prop := ∀ p P, k.processes p = some P → P.pid ≠ 0

theorem PidsNonzero.update {k k' : Kernel} (h : k.PidsNonzero) {p : Ptr} {P' : Option Process}
    (hproc : k'.processes = Function.update k.processes p P')
    (hnew : ∀ P, P' = some P → P.pid ≠ 0) : k'.PidsNonzero := by
  intro q Q hQ
  rw [hproc] at hQ
  by_cases hqp : q = p
  · subst hqp
    rw [Function.update_self] at hQ
    exact hnew Q hQ
  · rw [Function.update_of_ne hqp] at hQ
    exact h q Q hQ

theorem PidsNonzero.effect {k k' : Kernel} {op : Op} (h : k.PidsNonzero)
    (hpid : k.assignsFreePid op = true) (he : Effect k op k') : k'.PidsNonzero := by
  -- a block that keeps its pid keeps it from being 0
  have hkeep : ∀ {k1 : Kernel} {p : Ptr} {P P' : Process}, k.processes p = some P →
      P'.pid = P.pid → k1.processes = Function.update k.processes p (some P') →
      k1.PidsNonzero := by
    rintro k1 p P P' hP hsame hproc
    refine h.update hproc ?_
    rintro _ ⟨⟩
    rw [hsame]
    exact h p P hP
  cases he with
  | idle hproc _ _ _ =>
    rw [PidsNonzero, hproc]
    exact h
  | edit p P P' hP hedit hproc _ _ _ => exact hkeep hP hedit.pid hproc
  | wake p P P' _ hP hsame _ _ hproc _ _ _ => exact hkeep hP hsame.pid hproc
  | spawn p P node hready _ hnext _ _ _ hproc _ _ hop =>
    obtain ⟨programEntry, addressSpace, alloc, rfl⟩ := hop
    refine h.update hproc ?_
    rintro _ ⟨⟩
    have hfree : k.nextPidFree = true := by simpa [assignsFreePid, hready] using hpid
    rw [nextPidFree, Bool.and_eq_true, decide_eq_true_eq] at hfree
    rw [hnext]
    exact hfree.1
  | terminate p P pid _ _ _ hproc _ _ _ _ _ => exact h.update hproc fun _ hnone => nomatch hnone
  | advance _ hadv =>
    rw [PidsNonzero, (advance_occupied hadv).1]
    exact h
  | block a A A' k1 hactive hsame _ _ _ hproc _ _ _ hadv =>
    rw [PidsNonzero, (advance_occupied hadv).1]
    exact hkeep (active_eq_some.mp hactive).2 hsame.pid hproc

/-- Runs of the calls that start, schedule and end processes and pass messages,
in which every spawn finds a counter that is not 0 and not in use. -/
theorem registered_of_reachable {k : Kernel}
    (h : system.Reachable (fun k op => op.isProcessCall = true ∧ k.assignsFreePid op = true) k) :
    k.Registered ∧ k.PidsNonzero := by
  have hinv : k.WellFormed ∧ k.Registered ∧ k.PidsNonzero := by
    refine h.invariant (fun k => k.WellFormed ∧ k.Registered ∧ k.PidsNonzero) ?_ ?_
    · intro k hb
      refine ⟨.boot hb, .boot hb, ?_⟩
      obtain ⟨heap, cr3, memory, rfl⟩ := hb
      intro p P hP
      cases hP
    · rintro k op k' ⟨hw, hr, hn⟩ ⟨hcall, hpid⟩ hst
      have hop : op ≠ .signalReturn := by
        rintro rfl
        cases hcall
      have heffect := step_effect hw.sending hop hst
      exact ⟨hw.effect heffect, hr.effect (assignsUnusedPid_of_assignsFreePid hpid) heffect,
        hn.effect hpid heffect⟩
  exact hinv.2

/-- The calls about processes leave no stray state behind. -/
theorem returnsCleanly_of_isProcessCall {k : Kernel} {op : Op} (h : op.isProcessCall = true) :
    k.returnsCleanly op = true := by
  cases op <;> first | rfl | cases h

/-- **Process identity.**  In every run whose spawns find a `next_pid` that is not 0
and not in use, every live process has a pid of its own, which is not 0 and under
which the table has it; this goes for the ready and the active processes too. -/
theorem identity_of_reachable {k : Kernel}
    (h : system.Reachable (fun k op => op.isProcessCall = true ∧ k.assignsFreePid op = true) k) :
    k.Identity := by
  obtain ⟨hreg, hnonzero⟩ := registered_of_reachable h
  have hready : k.ReadyOnce :=
    (readyOnce_of_reachable (h.mono fun _ _ hok => returnsCleanly_of_isProcessCall hok.1)).2
  refine ⟨hnonzero, ?_, hreg.entry, ?_⟩
  · intro p P q Q hP hQ hpid
    have hp := hreg.entry p P hP
    rw [hpid, hreg.entry q Q hQ] at hp
    exact (Option.some.inj hp).symm
  · intro p hp
    obtain ⟨P, hP, -⟩ := hready.running p hp
    exact ⟨P, hP, hreg.entry p P hP⟩

/-- Two processes are spawned and the first one ends before the third is spawned,
in its block. -/
def respawnRun : List Op :=
  [.spawn 0x8000 1 0x1000 (.succeeds 1 fun _ => 0), .spawn 0x9000 1 0x2000 (.succeeds 2 fun _ => 0),
    .terminate 1, .spawn 0xA000 1 0x3000 (.succeeds 1 fun _ => 0), .advance]

theorem identity_respawnRun :
    ∃ k, Transition.System.runFrom
      (fun k op => op.isProcessCall = true ∧ k.assignsFreePid op = true) step bare respawnRun =
        some k ∧ k.Identity := by
  obtain ⟨k, hk⟩ := Option.isSome_iff_exists.mp (show (Transition.System.runFrom
    (fun k op => op.isProcessCall = true ∧ k.assignsFreePid op = true) step bare
      respawnRun).isSome by decide +kernel)
  exact ⟨k, hk, identity_of_reachable (.runFrom _ _ (.init boot_bare) hk)⟩

/-! ### The counter comes round -/

/-- The step does not use up the last value of the counter. -/
def counterBelow (k : Kernel) : Op → Bool
  | .spawn _ _ _ _ => k.nextPid ≠ -1
  | _ => true

/-- All pids in use are below the counter. -/
structure Numbered (k : Kernel) : Prop where
  pos : k.nextPid ≠ 0
  below : ∀ p P, k.processes p = some P → P.pid.toNat < k.nextPid.toNat

theorem Numbered.nextPidFree {k : Kernel} (h : k.Numbered) (hw : k.WellFormed) :
    k.nextPidFree = true := by
  have hnone : k.lookup k.nextPid = none := by
    rcases Option.eq_none_or_eq_some (k.lookup k.nextPid) with hnone | ⟨q, hq⟩
    · exact hnone
    · obtain ⟨Q, hQ, hpid⟩ := hw.table _ q hq
      have hlt := h.below q Q hQ
      rw [BitVec.toInt_inj.mp hpid] at hlt
      exact absurd hlt (Nat.lt_irrefl _)
  simpa [Kernel.nextPidFree, hnone] using h.pos

theorem Numbered.congr {k k' : Kernel} (h : k.Numbered) (hproc : k'.processes = k.processes)
    (hnext : k'.nextPid = k.nextPid) : k'.Numbered := by
  constructor
  · rw [hnext]
    exact h.pos
  · rw [hproc, hnext]
    exact h.below

theorem Numbered.boot {k : Kernel} (h : k.Boot) : k.Numbered := by
  obtain ⟨heap, cr3, memory, rfl⟩ := h
  refine ⟨show (1 : Word) ≠ 0 by decide, ?_⟩
  intro p P hP
  cases hP

/-- One block changes, or comes in, and the counter does not fall. -/
theorem Numbered.update {k k' : Kernel} (h : k.Numbered) {p : Ptr} {P' : Option Process}
    (hproc : k'.processes = Function.update k.processes p P') (hpos : k'.nextPid ≠ 0)
    (hle : k.nextPid.toNat ≤ k'.nextPid.toNat)
    (hnew : ∀ P, P' = some P → P.pid.toNat < k'.nextPid.toNat) : k'.Numbered := by
  refine ⟨hpos, ?_⟩
  intro q Q hQ
  rw [hproc] at hQ
  by_cases hqp : q = p
  · subst hqp
    rw [Function.update_self] at hQ
    exact hnew Q hQ
  · rw [Function.update_of_ne hqp] at hQ
    exact Nat.lt_of_lt_of_le (h.below q Q hQ) hle

theorem Numbered.edit {k k' : Kernel} (h : k.Numbered) {p : Ptr} {P P' : Process}
    (hP : k.processes p = some P) (hpid : P'.pid = P.pid)
    (hproc : k'.processes = Function.update k.processes p (some P'))
    (hnext : k'.nextPid = k.nextPid) : k'.Numbered := by
  refine h.update hproc (by rw [hnext]; exact h.pos) (by rw [hnext]) ?_
  rintro _ ⟨⟩
  rw [hpid, hnext]
  exact h.below p P hP

theorem Numbered.advance {k k' : Kernel} (h : k.Numbered)
    (hadv : k.kernelAdvanceScheduler = some k') : k'.Numbered := by
  obtain ⟨p, P, queue, -, rfl, -⟩ := advance_cases hadv
  exact h.congr rfl rfl

theorem toNat_succ_of_ne {pid : Word} (h : pid ≠ -1) : (pid + 1).toNat = pid.toNat + 1 := by
  have hne : pid.toNat ≠ 2 ^ 32 - 1 := fun heq => h (BitVec.eq_of_toNat_eq heq)
  have := pid.isLt
  rw [BitVec.toNat_add, show (1 : Word).toNat = 1 from rfl]
  omega

theorem Numbered.effect {k k' : Kernel} {op : Op} (h : k.Numbered)
    (hbelow : k.counterBelow op = true) (he : Effect k op k') : k'.Numbered := by
  cases he with
  | idle hproc _ _ _ hnext => exact h.congr hproc hnext
  | edit p P P' hP hedit hproc _ _ _ hnext => exact h.edit hP hedit.pid hproc hnext
  | wake p P P' _ hP hsame _ _ hproc _ _ _ hnext => exact h.edit hP hsame.pid hproc hnext
  | spawn p P node _ _ hpid _ _ _ hproc _ _ hop hnext =>
    obtain ⟨programEntry, addressSpace, alloc, rfl⟩ := hop
    have hsucc : k'.nextPid.toNat = k.nextPid.toNat + 1 := by
      rw [hnext]
      exact toNat_succ_of_ne (by simpa [counterBelow] using hbelow)
    refine h.update hproc ?_ (by omega) ?_
    · intro hzero
      rw [hzero] at hsucc
      cases hsucc
    · rintro _ ⟨⟩
      rw [hpid]
      omega
  | terminate p P pid _ _ _ hproc _ _ _ _ _ hnext =>
    exact h.update hproc (by rw [hnext]; exact h.pos) (by rw [hnext]) fun _ hnone => nomatch hnone
  | advance _ hadv => exact h.advance hadv
  | block a A A' k1 hactive hsame _ _ _ hproc _ _ _ hadv hnext =>
    exact (h.edit (active_eq_some.mp hactive).2 hsame.pid hproc hnext).advance hadv

/-- As long as the counter has not come round, every spawn finds a free pid. -/
theorem assignsFreePid_of_counterBelow {k : Kernel}
    (h : system.Reachable (fun k op => op.isProcessCall = true ∧ k.counterBelow op = true) k) :
    k.Numbered ∧
      system.Reachable (fun k op => op.isProcessCall = true ∧ k.assignsFreePid op = true) k := by
  induction h with
  | init hb => exact ⟨.boot hb, .init hb⟩
  | @step k op k' hreach hok hst ih =>
    obtain ⟨hnum, hreach'⟩ := ih
    have hw := wellFormed_of_reachable hreach'
    have hop : op ≠ .signalReturn := by
      rintro rfl
      cases hok.1
    have hpid : k.assignsFreePid op = true := by
      cases op with
      | spawn programEntry priority addressSpace alloc =>
        simp [assignsFreePid, hnum.nextPidFree hw]
      | _ => rfl
    exact ⟨hnum.effect hok.2 (step_effect hw.sending hop hst), .step hreach' ⟨hok.1, hpid⟩ hst⟩

/-- **Process identity before the counter comes round.** -/
theorem identity_of_counterBelow {k : Kernel}
    (h : system.Reachable (fun k op => op.isProcessCall = true ∧ k.counterBelow op = true) k) :
    k.Identity :=
  identity_of_reachable (assignsFreePid_of_counterBelow h).2

/-- A process is spawned or ended. -/
def Op.isSpawnOrTerminate : Op → Bool
  | .spawn _ _ _ _ | .terminate _ => true
  | _ => false

/-- There is no process, and the next one gets the pid `n`. -/
structure Deserted (n : Nat) (k : Kernel) : Prop where
  table : k.processTable = .nil
  processes : ∀ p, k.processes p = none
  inactive : k.activeProcess = none
  ready : k.ready = 0
  capacity : k.priorityQueue.capacity = 512
  nextPid : k.nextPid = BitVec.ofNat 32 n

/-- The first spawn. -/
theorem Deserted.spawn {n : Nat} {k : Kernel} (h : Deserted n k) :
    ∃ k', k.step (.spawn 0 1 0 (.succeeds 1 fun _ => 0)) = some k' ∧
      k'.processTable = .node 1 (BitVec.ofNat 32 n).toInt (some 1) .nil .nil ∧
      k'.processes = Function.update k.processes 1
        (some (newProcess (BitVec.ofNat 32 n) 0 1 0)) ∧
      k'.activeProcess = none ∧ k'.ready = {1} ∧ k'.priorityQueue.capacity = 512 ∧
      k'.nextPid = BitVec.ofNat 32 (n + 1) := by
  have htable : k.processTable.avlInsert true k.nextPid.toInt (some 1) =
      some (.node 1 (BitVec.ofNat 32 n).toInt (some 1) .nil .nil) := by
    rw [h.table, h.nextPid]
    rfl
  have hroom : k.HasRoom := by
    have hsize : k.priorityQueue.size = 0 := by
      rw [← PriorityQueue.card_entries, ← Multiset.card_map PriorityQueueNode.value]
      exact Multiset.card_eq_zero.mpr h.ready
    rw [HasRoom, hsize, h.capacity]
    decide
  obtain ⟨memory, hst⟩ := spawn_succeeds (h.processes 1) htable 0 1 0 fun _ => 0
  refine ⟨_, hst, rfl, by rw [h.nextPid], h.inactive, ?_, ?_, ?_⟩
  · show (k.enqueue 1 1).ready = _
    rw [ready_enqueue hroom, h.ready]
    rfl
  · exact (capacity_enqueue k 1 1).trans h.capacity
  · show k.nextPid + 1 = _
    rw [h.nextPid]
    exact (BitVec.ofNat_add n 1).symm

/-- The process ends again: only the counter has moved. -/
theorem Deserted.round {n : Nat} {k : Kernel} (h : Deserted n k) :
    ∃ k1 k2, k.step (.spawn 0 1 0 (.succeeds 1 fun _ => 0)) = some k1 ∧
      k1.step (.terminate (BitVec.ofNat 32 n)) = some k2 ∧ Deserted (n + 1) k2 := by
  obtain ⟨k1, hst, htable, hproc, hactive, hready, hcap, hnext⟩ := h.spawn
  have hlookup : k1.lookup (BitVec.ofNat 32 n) = some 1 := by
    rw [lookup, htable]
    simp [AvlTree.avlGet]
  have hP : k1.processes 1 = some (newProcess (BitVec.ofNat 32 n) 0 1 0) := by
    rw [hproc, Function.update_self]
  have hremove : k1.processTable.avlRemove (BitVec.ofNat 32 n).toInt = some .nil := by
    rw [htable]
    simp [AvlTree.avlRemove, AvlTree.isNull, AvlTree.removeRebalance]
  obtain ⟨queue, hvalues, hcap', hterm⟩ := terminate_succeeds hlookup hP rfl hremove
  refine ⟨k1, _, hst, hterm, rfl, ?_, ?_, ?_, hcap'.trans hcap, hnext⟩
  · intro p
    show Function.update k1.processes 1 none p = none
    rw [hproc, Function.update_idem]
    by_cases hp : p = 1
    · rw [hp, Function.update_self]
    · rw [Function.update_of_ne hp, h.processes]
  · show (if k1.activeProcess = some 1 then none else k1.activeProcess) = none
    rw [hactive]
    rfl
  · show queue.values = 0
    rw [hvalues, hready]
    rfl

theorem exists_deserted (n : Nat) :
    ∃ k, system.Reachable (fun _ op => op.isSpawnOrTerminate = true) k ∧ Deserted (n + 1) k := by
  induction n with
  | zero => exact ⟨bare, .init boot_bare, rfl, fun _ => rfl, rfl, rfl, rfl, rfl⟩
  | succ n ih =>
    obtain ⟨k, hreach, hdeserted⟩ := ih
    obtain ⟨k1, k2, hspawn, hterm, hdeserted'⟩ := hdeserted.round
    exact ⟨k2, .step (.step hreach rfl hspawn) rfl hterm, hdeserted'⟩

/-- After 2^32 - 1 processes have come and gone, the next one gets the pid 0. -/
theorem not_identity_deserted :
    ¬ ∀ k, system.Reachable (fun _ op => op.isSpawnOrTerminate = true) k → k.Identity := by
  intro hall
  obtain ⟨k, hreach, hdeserted⟩ := exists_deserted (2 ^ 32 - 1)
  obtain ⟨k', hst, -, hproc, -⟩ := hdeserted.spawn
  have hP : k'.processes 1 = some (newProcess (BitVec.ofNat 32 (2 ^ 32 - 1 + 1)) 0 1 0) := by
    rw [hproc, Function.update_self]
  exact (hall k' (.step hreach rfl hst)).nonzero 1 _ hP rfl

end Kernel
end QuarkKernel
