import QuarkKernel.ProcessIdentity

/-! # References to processes

Ports name their owner by its pid; the ready queue and `active_process` point to
the block.  `kernel_terminate_process` takes the process out of the table, the
queue and `active_process`, but no port is closed: a port outlives its owner, and
then nobody can close it or open it again.  So references are sound in runs in
which a process closes its ports before it ends (`leavesNoReference`), and in
which the pid counter does not run into a pid in use, since a process the table
does not take is still put into the ready queue. -/
namespace QuarkKernel
namespace Kernel

/-- Every reference leads to a process in the table. -/
structure NoDangling (k : Kernel) : Prop where
  owner : ∀ id port, k.portTable.avlGet id = some port → ∃ p, k.lookup port.ownerPid = some p
  scheduled : ∀ p, p ∈ k.occupied → ∃ pid, k.lookup pid = some p

/-- The process with a given pid owns no port. -/
def ownsNoPort (k : Kernel) (pid : Word) : Bool :=
  k.portTable.toList.all fun entry => entry.2.all fun port => port.ownerPid ≠ pid

/-- The step does not end a process that owns a port, and does not start one with a
pid in use. -/
def leavesNoReference (k : Kernel) (op : Op) : Bool :=
  match op with
  | .terminate processId => k.ownsNoPort processId
  | _ => k.assignsUnusedPid op

/-- A port is opened or closed. -/
def Op.isPortCall : Op → Bool
  | .createPort _ _ _ | .removePort _ => true
  | _ => false

theorem portTable_sendMessage {k k' : Kernel} {recipient message : Word} {r : Status}
    (h : k.kernelSendMessage recipient message = some (r, k')) : k'.portTable = k.portTable := by
  obtain ⟨-, -, rfl⟩ | ⟨-, -, -, -, -, -, rfl⟩ |
    ⟨d, D, a, A, m, memory, -, -, -, -, -, -, -, rfl⟩ := sendMessage_cases h <;> rfl

theorem portTable_advance {k k' : Kernel} (h : k.kernelAdvanceScheduler = some k') :
    k'.portTable = k.portTable := by
  obtain ⟨p, P, queue, -, rfl, -⟩ := advance_cases h
  rfl

/-- The calls about processes and messages leave the ports alone. -/
theorem portTable_step {k k' : Kernel} {op : Op} (hw : k.WellFormed)
    (hop : op.isProcessCall = true) (hst : k.step op = some k') : k'.portTable = k.portTable := by
  cases op with
  | programs memory =>
    cases hst
    rfl
  | spawn programEntry priority addressSpace alloc =>
    rw [step] at hst
    split at hst
    · obtain ⟨⟨r, k1⟩, hk, rfl⟩ := Option.map_eq_some_iff.mp hst
      obtain ⟨-, rfl⟩ | ⟨p, memory, table, -, -, -, -, rfl⟩ := spawn_cases hk <;> rfl
    · cases hst
  | advance => exact portTable_advance hst
  | storeContext context =>
    obtain ⟨⟨r, k1⟩, hk, rfl⟩ := Option.map_eq_some_iff.mp hst
    obtain rfl | ⟨p, P, -, rfl⟩ := storeContext_cases hk <;> rfl
  | terminate processId =>
    obtain ⟨⟨r, k1⟩, hk, rfl⟩ := Option.map_eq_some_iff.mp hst
    obtain ⟨-, -, rfl⟩ | ⟨p, P, table, queue, -, -, -, -, -, -, -, rfl⟩ :=
      terminate_cases hw.sending hk <;> rfl
  | sendMessage recipient message =>
    obtain ⟨⟨r, k1⟩, hk, rfl⟩ := Option.map_eq_some_iff.mp hst
    exact portTable_sendMessage hk
  | send recipient message flags alloc =>
    obtain ⟨⟨r, k1⟩, hk, rfl⟩ := Option.map_eq_some_iff.mp hst
    obtain ⟨-, rfl⟩ | ⟨-, -, hs⟩ | ⟨-, -, hq⟩ := send_cases hk
    · rfl
    · exact portTable_sendMessage hs
    · obtain ⟨-, -, rfl⟩ | ⟨-, -, rfl⟩ | ⟨-, -, -, -, -, -, -, -, -, rfl⟩ |
        ⟨d, D, a, A, m, -, -, -, -, -, -, rfl⟩ := queueMessage_cases hq <;> rfl
  | receive buffer flags =>
    obtain ⟨⟨r, k1⟩, hk, rfl⟩ := Option.map_eq_some_iff.mp hst
    obtain ⟨a, A, -, hcases⟩ := receive_cases hk
    obtain ⟨m, queue, memory, -, -, -, rfl⟩ | ⟨-, -, -, rfl⟩ | ⟨-, -, -, hadv⟩ := hcases
    · rfl
    · rfl
    · have hports := portTable_advance hadv
      exact hports
  | _ => cases hop

/-! ### Owners -/

/-- The port table holds no NULL, and a process owns each port. -/
structure OwnersLive (k : Kernel) : Prop where
  table : k.portTable.Table
  owner : ∀ key port, k.portTable.avlGet key = some port → ∃ p, k.lookup port.ownerPid = some p

theorem OwnersLive.boot {k : Kernel} (h : k.Boot) : k.OwnersLive := by
  obtain ⟨heap, cr3, memory, rfl⟩ := h
  refine ⟨.nil, ?_⟩
  intro key port hport
  cases hport

/-- No pid that owns a port goes out of use. -/
theorem OwnersLive.of_lookup {k k' : Kernel} (h : k.OwnersLive)
    (hports : k'.portTable = k.portTable)
    (hlookup : ∀ key port p, k.portTable.avlGet key = some port →
      k.lookup port.ownerPid = some p → ∃ q, k'.lookup port.ownerPid = some q) :
    k'.OwnersLive := by
  refine ⟨hports ▸ h.table, ?_⟩
  intro key port hport
  rw [hports] at hport
  obtain ⟨p, hp⟩ := h.owner key port hport
  exact hlookup key port p hport hp

theorem owner_ne_of_ownsNoPort {k : Kernel} (h : k.OwnersLive) {pid : Word}
    (hno : k.ownsNoPort pid = true) {key : Int} {port : Port}
    (hport : k.portTable.avlGet key = some port) : port.ownerPid ≠ pid := by
  have hcontents := h.table.contents_eq key
  rw [hport] at hcontents
  obtain ⟨l, r, hlist, -⟩ := List.lookup_eq_some_iff.mp hcontents
  have hmem : (key, some port) ∈ k.portTable.toList := by simp [hlist]
  have hentry := List.all_eq_true.mp hno _ hmem
  simpa using hentry

/-- What becomes of the pids in use. -/
theorem OwnersLive.effect {k k' : Kernel} {op : Op} (h : k.OwnersLive) (hreg : k.Registered)
    (hok : k.leavesNoReference op = true)
    (hports : k'.portTable = k.portTable) (he : Effect k op k') : k'.OwnersLive := by
  have hsame : k'.processTable = k.processTable → k'.OwnersLive := by
    intro htable
    refine h.of_lookup hports ?_
    intro key port p _ hp
    exact ⟨p, by rw [lookup, htable]; exact hp⟩
  cases he with
  | idle _ htable _ _ _ => exact hsame htable
  | edit _ _ _ _ _ _ htable _ _ _ => exact hsame htable
  | wake _ _ _ _ _ _ _ _ _ htable _ _ _ => exact hsame htable
  | spawn p P node hready _ _ _ _ htable _ _ _ hop =>
    obtain ⟨programEntry, addressSpace, alloc, rfl⟩ := hop
    -- the new pid is not that of a process, so no owner is hidden by it
    have hfree : k.lookup k.nextPid = none := by
      simpa [leavesNoReference, assignsUnusedPid, hready] using hok
    refine h.of_lookup hports ?_
    intro key port q _ hq
    rw [hreg.lookup_spawn hfree htable]
    split
    · exact ⟨p, rfl⟩
    · exact ⟨q, hq⟩
  | terminate p P pid _ _ htable _ _ _ _ _ hop =>
    subst hop
    refine h.of_lookup hports ?_
    intro key port q hport hq
    rw [hreg.lookup_terminate htable, if_neg (owner_ne_of_ownsNoPort h hok hport)]
    exact ⟨q, hq⟩
  | advance _ hadv => exact hsame (advance_occupied hadv).2.1
  | block a A A' k1 hactive hsame' _ _ _ _ htable _ _ hadv _ =>
    exact hsame ((advance_occupied hadv).2.1.trans htable)

/-- A process that opens a port is in the table; a port that is closed is gone. -/
theorem OwnersLive.portCall {k k' : Kernel} {op : Op} (h : k.OwnersLive) (hreg : k.Registered)
    (hop : op.isPortCall = true) (hst : k.step op = some k') : k'.OwnersLive := by
  cases op with
  | createPort id port node =>
    obtain ⟨⟨r, k1⟩, hk, rfl⟩ := Option.map_eq_some_iff.mp hst
    obtain rfl | ⟨a, A, table, ha, hfree, htable, rfl⟩ := createPort_cases hk
    · exact h
    · refine ⟨h.table.avlInsert htable, ?_⟩
      intro key opened hopened
      have hget := h.table.avlGet_avlInsert htable hfree key
      rw [hopened] at hget
      split at hget
      · cases hget
        exact ⟨a, hreg.entry a A (active_eq_some.mp ha).2⟩
      · exact h.owner key opened hget.symm
  | removePort id =>
    obtain ⟨⟨r, k1⟩, hk, rfl⟩ := Option.map_eq_some_iff.mp hst
    obtain rfl | ⟨port, a, A, table, -, -, -, htable, rfl⟩ := removePort_cases hk
    · exact h
    · refine ⟨h.table.avlRemove htable, ?_⟩
      intro key other hother
      have hget := AvlTree.avlGet_avlRemove h.table.search htable key
      rw [hother] at hget
      split at hget
      · cases hget
      · exact h.owner key other hget.symm
  | _ => cases hop

/-- The calls of this module's runs: processes, messages and ports. -/
def Op.isResourceCall (op : Op) : Bool := op.isProcessCall || op.isPortCall

theorem isResourceCall_ne_signalReturn {op : Op} (h : op.isResourceCall = true) :
    op ≠ .signalReturn := by
  rintro rfl
  cases h

theorem assignsUnusedPid_of_leavesNoReference {k : Kernel} {op : Op}
    (h : k.leavesNoReference op = true) : k.assignsUnusedPid op = true := by
  cases op <;> first | exact h | rfl

/-- The step of both invariants. -/
theorem OwnersLive.step {k k' : Kernel} {op : Op} (hw : k.WellFormed) (hreg : k.Registered)
    (h : k.OwnersLive) (hcall : op.isResourceCall = true) (hok : k.leavesNoReference op = true)
    (hst : k.step op = some k') : k'.Registered ∧ k'.OwnersLive := by
  have heffect := step_effect hw.sending (isResourceCall_ne_signalReturn hcall) hst
  refine ⟨hreg.effect (assignsUnusedPid_of_leavesNoReference hok) heffect, ?_⟩
  rcases Bool.or_eq_true _ _ ▸ hcall with hcall | hcall
  · exact h.effect hreg hok (portTable_step hw hcall hst) heffect
  · exact h.portCall hreg hcall hst

/-- **No dangling references.**  In every run in which no process ends that owns a
port, and no process starts with a pid in use, the owner of every port is in the
process table, and so is every process that is ready or active. -/
theorem noDangling_of_reachable {k : Kernel}
    (h : system.Reachable
      (fun k op => op.isResourceCall = true ∧ k.leavesNoReference op = true) k) :
    k.NoDangling := by
  have hinv : k.WellFormed ∧ k.ReadyOnce ∧ k.Registered ∧ k.OwnersLive := by
    refine h.invariant (fun k => k.WellFormed ∧ k.ReadyOnce ∧ k.Registered ∧ k.OwnersLive) ?_ ?_
    · intro k hb
      exact ⟨.boot hb, .boot hb, .boot hb, .boot hb⟩
    · rintro k op k' ⟨hw, hr, hreg, howners⟩ ⟨hcall, hok⟩ hst
      have hclean : k.returnsCleanly op = true := by
        cases op <;> first | rfl | cases hcall
      exact ⟨hw.step hst, hr.step hw hclean hst, howners.step hw hreg hcall hok hst⟩
  obtain ⟨-, hready, hreg, howners⟩ := hinv
  refine ⟨fun id port hport => howners.owner id port hport, ?_⟩
  intro p hp
  obtain ⟨P, hP, -⟩ := hready.running p hp
  exact ⟨P.pid, hreg.entry p P hP⟩

/-- The active process opens two ports, closes them again and is ended; the other
process owns one. -/
def portsClosedRun : List Op :=
  [.spawn 0x8000 1 0x1000 (.succeeds 1 fun _ => 0), .spawn 0x9000 1 0x2000 (.succeeds 2 fun _ => 0),
    .advance, .createPort 7 true true, .createPort 8 true true, .removePort 7, .removePort 8,
    .advance, .createPort 9 true true, .terminate 1]

theorem noDangling_portsClosedRun :
    ∃ k, Transition.System.runFrom
      (fun k op => op.isResourceCall = true ∧ k.leavesNoReference op = true) step bare
      portsClosedRun = some k ∧ k.NoDangling := by
  obtain ⟨k, hk⟩ := Option.isSome_iff_exists.mp (show (Transition.System.runFrom
    (fun k op => op.isResourceCall = true ∧ k.leavesNoReference op = true) step bare
      portsClosedRun).isSome by decide +kernel)
  exact ⟨k, hk, noDangling_of_reachable (.runFrom _ _ (.init boot_bare) hk)⟩

/-- A process opens a port and is ended. -/
def portLeftOpenRun : List Op :=
  [.spawn 0x8000 1 0x1000 (.succeeds 1 fun _ => 0), .advance, .createPort 7 true true, .terminate 1]

theorem not_noDangling_portLeftOpenRun :
    ¬ ∀ k, system.Reachable (fun _ op => op.isResourceCall = true) k → k.NoDangling := by
  intro hall
  have hrun : (Transition.System.runFrom (fun _ op => op.isResourceCall = true) step bare
      portLeftOpenRun).any (fun k => k.portTable.avlGet 7 = some ⟨7, 1⟩ ∧ k.lookup 1 = none) =
        true := by decide +kernel
  obtain ⟨k, hk, hstate⟩ := (Option.any_eq_true _ _).mp hrun
  obtain ⟨hport, hgone⟩ := of_decide_eq_true hstate
  obtain ⟨p, hp⟩ := (hall k (.runFrom _ _ (.init boot_bare) hk)).owner 7 _ hport
  rw [hgone] at hp
  cases hp

end Kernel
end QuarkKernel
