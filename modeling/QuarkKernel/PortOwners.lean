import QuarkKernel.AvlRotations
import QuarkKernel.DanglingReferences

/-! # Who owns a port

The history records for each port id the pid of the process that opened it last, or
0 if it is closed.  The port table agrees with it: opening a port needs it to be
closed, closing it needs its owner, and a send to it goes to its owner.  The ids are
`unsigned long`s and the keys of the tree `int`s; no two ids become the same key.

The table is an AVL tree, though, and `avl_insert` can lose its way among stale
heights (`AvlTree.keepsPivots`): then opening a closed port ends in a crash. -/
namespace QuarkKernel
namespace Kernel

/-- `open_port` of `syscalls.c`. -/
def openPort (kernel : Kernel) (id : Word) (port node : Bool) : Option (Status × Kernel) :=
  kernel.kernelCreatePort id port node

/-- `close_port` of `syscalls.c`. -/
def closePort (kernel : Kernel) (id : Word) : Option (Status × Kernel) := kernel.kernelRemovePort id

/-- The owners after a step: who opened a port has it, and who closed it leaves it to
nobody. -/
def recordOwners (owners : Word → Word) (k : Kernel) (op : Op) (_ : Kernel) : Word → Word :=
  match op with
  | .createPort id port node =>
      match k.openPort id port node, k.active with
      | some (.enone, _), some (_, A) => Function.update owners id A.pid
      | _, _ => owners
  | .removePort id =>
      match k.closePort id with
      | some (.enone, _) => Function.update owners id 0
      | _ => owners
  | _ => owners

/-- The step is about processes, messages or ports; it ends no process, finds memory
for a port, and uses no pid twice. -/
def aboutPorts (k : Kernel) (op : Op) : Bool :=
  op.isResourceCall && k.assignsFreePid op &&
    match op with
    | .terminate _ => false
    | .createPort _ port node => port && node
    | _ => true

/-- The insertion of a new port finds the pivots of its rotations. -/
def opensSafely (k : Kernel) (id : Word) : Bool :=
  (k.portTable.avlGet id.toInt).isSome || AvlTree.keepsPivots k.portTable id.toInt

/-- Such a step, and if it opens a port it does so safely. -/
def keepsPorts (k : Kernel) (op : Op) : Bool :=
  k.aboutPorts op &&
    match op with
    | .createPort id _ _ => k.opensSafely id
    | _ => true

/-- The message at `message` gets to the process at `d`, and nothing to anybody else:
into its buffer if it waits, and to the end of its queue if not. -/
def Reaches (k : Kernel) (message : Word) (d : Ptr) (D : Process) (k' : Kernel) : Prop :=
  ∃ a A m, k.active = some (a, A) ∧ Message.load (k.memory k.cr3) message = some m ∧
    ((waiting D = true ∧ ∃ memory,
        Message.store (k.memory D.pageTable) D.messageBuffer { m with sender := A.pid } =
          some memory ∧
        k'.memory = Function.update k.memory D.pageTable memory ∧
        k'.processes = Function.update k.processes d (some (delivered D))) ∨
      (waiting D = false ∧ k'.memory = k.memory ∧
        k'.processes = Function.update k.processes d
          (some { D with messageQueue := D.messageQueue ++ [m] })))

/-- The flags of a `send` to a port. -/
def PortFlags (flags : Word) : Prop :=
  flags &&& ~~~(ioOp ||| ioRecipientType) = 0 ∧ flags &&& ioRecipientType = ioPort

/-- The calls about ports do what the owners in the history say. -/
structure FollowsOwners (k : Kernel) (owners : Word → Word) : Prop where
  owner : ∀ id, k.kernelGetPortOwner id = owners id
  opens : ∀ id a A, k.active = some (a, A) → owners id = 0 → k.opensSafely id = true →
    ∃ k', k.openPort id true true = some (.enone, k')
  refusesOpen : ∀ id, owners id ≠ 0 → k.openPort id true true = some (.eexists, k)
  closes : ∀ id a A, k.active = some (a, A) → owners id = A.pid →
    ∃ k', k.closePort id = some (.enone, k')
  refusesClose : ∀ id a A, k.active = some (a, A) → owners id ≠ A.pid →
    k.closePort id = some (if owners id = 0 then .edoesntexist else .eperm, k)
  refusesSend : ∀ id message flags alloc, PortFlags flags → owners id = 0 →
    k.send id message flags alloc = some (.edoesntexist, k)
  sends : ∀ id message flags, PortFlags flags → owners id ≠ 0 →
    ∃ d D, k.lookup (owners id) = some d ∧ k.processes d = some D ∧ D.pid = owners id ∧
      ∀ r k', k.send id message flags ⟨true, true⟩ = some (r, k') →
        r = .enone ∧ k.Reaches message d D k'
  arrives : ∀ id message flags a A d D m, PortFlags flags → owners id ≠ 0 →
    k.active = some (a, A) → k.lookup (owners id) = some d → k.processes d = some D →
    Message.load (k.memory k.cr3) message = some m →
    (waiting D = true →
      (Message.store (k.memory D.pageTable) D.messageBuffer { m with sender := A.pid }).isSome) →
    (k.send id message flags ⟨true, true⟩).isSome

/-- The port table, and the owners it should have. -/
structure PortsOwned (k : Kernel) (owners : Word → Word) : Prop where
  live : k.OwnersLive
  covered : k.portTable.Covered
  owner : ∀ id, k.kernelGetPortOwner id = owners id

theorem PortsOwned.boot {k : Kernel} (h : k.Boot) : k.PortsOwned fun _ => 0 := by
  refine ⟨.boot h, ?_, ?_⟩ <;> obtain ⟨heap, cr3, memory, rfl⟩ := h
  · trivial
  · exact fun id => rfl

/-! ### The owner of a port is a process with a pid -/

section Owners
variable {k : Kernel} {owners : Word → Word}

theorem exists_owner (hw : k.WellFormed) (h : k.OwnersLive) {key : Int} {port : Port}
    (hport : k.portTable.avlGet key = some port) :
    ∃ p P, k.lookup port.ownerPid = some p ∧ k.processes p = some P ∧ P.pid = port.ownerPid := by
  obtain ⟨p, hp⟩ := h.owner key port hport
  obtain ⟨P, hP, hpid⟩ := hw.table _ p hp
  exact ⟨p, P, hp, hP, BitVec.toInt_inj.mp hpid⟩

/-- A port is closed when the owner is 0, and open when it is not. -/
theorem PortsOwned.eq_zero_iff (h : k.PortsOwned owners) (hw : k.WellFormed) (hn : k.PidsNonzero)
    (id : Word) : owners id = 0 ↔ k.portTable.avlGet id.toInt = none := by
  rw [← h.owner id, kernelGetPortOwner]
  cases hport : k.portTable.avlGet id.toInt with
  | none => simp
  | some port =>
    obtain ⟨p, P, -, hP, hpid⟩ := exists_owner hw h.live hport
    simpa [hpid] using hn p P hP

theorem PortsOwned.of_port (h : k.PortsOwned owners) {id : Word} {port : Port}
    (hport : k.portTable.avlGet id.toInt = some port) : owners id = port.ownerPid := by
  rw [← h.owner id, kernelGetPortOwner, hport]

theorem PortsOwned.exists_port (h : k.PortsOwned owners) (hw : k.WellFormed) (hn : k.PidsNonzero)
    {id : Word} (hid : owners id ≠ 0) :
    ∃ port, k.portTable.avlGet id.toInt = some port ∧ port.ownerPid = owners id := by
  cases hport : k.portTable.avlGet id.toInt with
  | none => exact absurd ((h.eq_zero_iff hw hn id).mpr hport) hid
  | some port => exact ⟨port, rfl, (h.of_port hport).symm⟩

/-! ### What the calls answer -/

theorem openPort_of_closed {id : Word} {a : Ptr} {A : Process} (hactive : k.active = some (a, A))
    (hsearch : k.portTable.SearchTree) (hcovered : k.portTable.Covered)
    (hclosed : k.portTable.avlGet id.toInt = none) (hsafe : k.opensSafely id = true) :
    ∃ portTable, k.portTable.avlInsert true id.toInt (some ⟨id, A.pid⟩) = some portTable ∧
      portTable.Covered ∧ k.openPort id true true = some (.enone, { k with portTable }) := by
  rw [opensSafely, hclosed] at hsafe
  obtain ⟨portTable, htable, hcov⟩ :=
    AvlTree.avlInsert_covered hsearch hcovered (some ⟨id, A.pid⟩) hsafe
  refine ⟨portTable, htable, hcov, ?_⟩
  rw [openPort, kernelCreatePort, hclosed, hactive]
  simp [htable]

theorem openPort_of_open {id : Word} {port : Port} {p n : Bool}
    (hport : k.portTable.avlGet id.toInt = some port) :
    k.openPort id p n = some (.eexists, k) := by
  rw [openPort, kernelCreatePort, hport]
  rfl

theorem closePort_of_closed {id : Word} (hclosed : k.portTable.avlGet id.toInt = none) :
    k.closePort id = some (.edoesntexist, k) := by
  rw [closePort, kernelRemovePort, hclosed]

theorem closePort_of_other {id : Word} {port : Port} {a : Ptr} {A : Process}
    (hactive : k.active = some (a, A)) (hport : k.portTable.avlGet id.toInt = some port)
    (hother : port.ownerPid ≠ A.pid) : k.closePort id = some (.eperm, k) := by
  rw [closePort, kernelRemovePort, hport]
  simp [hactive, hother]

theorem closePort_of_owner {id : Word} {port : Port} {a : Ptr} {A : Process}
    (hactive : k.active = some (a, A)) (hcovered : k.portTable.Covered)
    (hport : k.portTable.avlGet id.toInt = some port) (howner : port.ownerPid = A.pid) :
    ∃ portTable, k.portTable.avlRemove id.toInt = some portTable ∧ portTable.Covered ∧
      k.closePort id = some (.enone, { k with portTable }) := by
  obtain ⟨portTable, htable, hcov⟩ := AvlTree.avlRemove_covered hcovered id.toInt
  refine ⟨portTable, htable, hcov, ?_⟩
  rw [closePort, kernelRemovePort, hport]
  simp [hactive, howner, htable]

/-- A send that is not refused puts the message where it belongs. -/
theorem reaches_of_send {recipient message flags : Word} {d : Ptr} {D : Process} {r : Status}
    {k' : Kernel} (haccepts : k.sendRefuses recipient flags = none)
    (hd : k.lookup (k.sendRecipient recipient flags) = some d) (hD : k.processes d = some D)
    (h : k.send recipient message flags ⟨true, true⟩ = some (r, k')) :
    r = .enone ∧ k.Reaches message d D k' := by
  have hfound : k.lookup (k.sendRecipient recipient flags) ≠ none := by
    rw [hd]
    exact Option.some_ne_none d
  -- the call that finds the recipient finds this one
  have hsame : ∀ {d' D'}, k.lookup (k.sendRecipient recipient flags) = some d' →
      k.processes d' = some D' → d' = d ∧ D' = D := by
    intro d' D' hd' hD'
    obtain rfl := Option.some.inj (hd'.symm.trans hd)
    exact ⟨rfl, Option.some.inj (hD'.symm.trans hD)⟩
  rw [send, haccepts] at h
  obtain ⟨⟨s, k1⟩, hs, hrest⟩ := Option.bind_eq_some_iff.mp h
  obtain ⟨-, hnone, -⟩ | ⟨d', D', rfl, hd', hD', hwait, rfl⟩ |
    ⟨d', D', a, A, m, memory, rfl, hd', hD', hwait, ha, hm, hmem, rfl⟩ := sendMessage_cases hs
  · exact absurd hnone hfound
  · -- the process does not wait: the message is queued
    obtain ⟨rfl, rfl⟩ := hsame hd' hD'
    obtain ⟨-, hnone, -⟩ | ⟨-, hmsg, -⟩ | ⟨-, -, -, -, -, hnode, -⟩ |
      ⟨d'', D'', a, A, m, rfl, -, hd'', hD'', ha, hm, rfl⟩ := queueMessage_cases hrest
    · exact absurd hnone hfound
    · cases hmsg
    · cases hnode
    · obtain ⟨rfl, rfl⟩ := hsame hd'' hD''
      exact ⟨rfl, a, A, m, ha, hm, .inr ⟨hwait, rfl, rfl⟩⟩
  · obtain ⟨rfl, rfl⟩ := hsame hd' hD'
    cases hrest
    exact ⟨rfl, a, A, m, ha, hm, .inl ⟨hwait, memory, hmem, rfl, rfl⟩⟩

/-- A send that is not refused returns, if the message can be read and the buffer of a
waiting recipient can be written. -/
theorem send_isSome {recipient message flags : Word} {a d : Ptr} {A D : Process} {m : Message}
    (haccepts : k.sendRefuses recipient flags = none) (hactive : k.active = some (a, A))
    (hd : k.lookup (k.sendRecipient recipient flags) = some d) (hD : k.processes d = some D)
    (hm : Message.load (k.memory k.cr3) message = some m)
    (hbuffer : waiting D = true →
      (Message.store (k.memory D.pageTable) D.messageBuffer { m with sender := A.pid }).isSome) :
    (k.send recipient message flags ⟨true, true⟩).isSome := by
  by_cases hwait : waiting D = true
  · obtain ⟨memory, hmem⟩ := Option.isSome_iff_exists.mp (hbuffer hwait)
    simp [send, haccepts, kernelSendMessage, hd, hD, hwait, hactive, hm, loadAddressSpace, hmem]
  · have hbusy : k.kernelSendMessage (k.sendRecipient recipient flags) message =
        some (.ebusy, k) := by
      simp [kernelSendMessage, hd, hD, hwait]
    simp [send, haccepts, hbusy, kernelQueueMessage, hd, hD, hactive, hm]

theorem sendRefuses_of_port {id flags : Word} (hflags : PortFlags flags) :
    k.sendRefuses id flags = if k.kernelGetPortOwner id = 0 then some .edoesntexist else none := by
  obtain ⟨hvalid, hport⟩ := hflags
  have hmailbox : ¬ ioMailbox.toNat ≤ ioPort.toNat := by decide
  rw [sendRefuses, hvalid, hport]
  simp only [ne_eq, not_true_eq_false, hmailbox, or_self, if_false, true_and]

/-- A message to a port that is owned goes to the owner. -/
theorem PortsOwned.accepts (h : k.PortsOwned owners) {id flags : Word} (hflags : PortFlags flags)
    (hid : owners id ≠ 0) :
    k.sendRefuses id flags = none ∧ k.sendRecipient id flags = owners id := by
  constructor
  · rw [sendRefuses_of_port hflags, h.owner id, if_neg hid]
  · rw [sendRecipient, if_pos hflags.2, h.owner id]

theorem PortsOwned.followsOwners (h : k.PortsOwned owners) (hw : k.WellFormed)
    (hn : k.PidsNonzero) : k.FollowsOwners owners := by
  constructor
  · exact h.owner
  · intro id a A hactive hid hsafe
    obtain ⟨portTable, -, -, hopen⟩ := openPort_of_closed hactive h.live.table.search h.covered
      ((h.eq_zero_iff hw hn id).mp hid) hsafe
    exact ⟨_, hopen⟩
  · intro id hid
    obtain ⟨port, hport, -⟩ := h.exists_port hw hn hid
    exact openPort_of_open hport
  · intro id a A hactive hid
    have hid' : owners id ≠ 0 := by
      rw [hid]
      exact hn a A (active_eq_some.mp hactive).2
    obtain ⟨port, hport, howner⟩ := h.exists_port hw hn hid'
    obtain ⟨portTable, -, -, hclose⟩ :=
      closePort_of_owner hactive h.covered hport (howner.trans hid)
    exact ⟨_, hclose⟩
  · intro id a A hactive hother
    by_cases hid : owners id = 0
    · rw [if_pos hid]
      exact closePort_of_closed ((h.eq_zero_iff hw hn id).mp hid)
    · obtain ⟨port, hport, howner⟩ := h.exists_port hw hn hid
      rw [if_neg hid]
      exact closePort_of_other hactive hport (howner ▸ hother)
  · intro id message flags alloc hflags hid
    rw [send, sendRefuses_of_port hflags, h.owner id, if_pos hid]
  · intro id message flags hflags hid
    obtain ⟨port, hport, howner⟩ := h.exists_port hw hn hid
    obtain ⟨d, D, hd, hD, hpid⟩ := exists_owner hw h.live hport
    rw [howner] at hd hpid
    refine ⟨d, D, hd, hD, hpid, ?_⟩
    intro r k' hsend
    obtain ⟨haccepts, hrecipient⟩ := h.accepts hflags hid
    exact reaches_of_send haccepts (hrecipient ▸ hd) hD hsend
  · intro id message flags a A d D m hflags hid hactive hd hD hm hbuffer
    obtain ⟨haccepts, hrecipient⟩ := h.accepts hflags hid
    exact send_isSome haccepts hactive (hrecipient ▸ hd) hD hm hbuffer

/-! ### Steps -/

/-- A port is opened: the owner is the active process. -/
theorem PortsOwned.openPort {k' : Kernel} {id : Word} (h : k.PortsOwned owners)
    (hlive : k'.OwnersLive) (hsafe : k.opensSafely id = true)
    (hst : k.step (.createPort id true true) = some k') :
    k'.PortsOwned (recordOwners owners k (.createPort id true true) k') := by
  obtain ⟨⟨r, k1⟩, hk, rfl⟩ := Option.map_eq_some_iff.mp hst
  replace hk : k.openPort id true true = some (r, k1) := hk
  cases hport : k.portTable.avlGet id.toInt with
  | some port =>
    -- taken, and refused
    rw [openPort_of_open hport] at hk
    cases hk
    simp only [recordOwners, openPort_of_open hport]
    exact h
  | none =>
    cases hactive : k.active with
    | none =>
      rw [Kernel.openPort, kernelCreatePort, hport, hactive] at hk
      cases hk
    | some active =>
      obtain ⟨a, A⟩ := active
      obtain ⟨portTable, htable, hcovered, hopen⟩ :=
        openPort_of_closed hactive h.live.table.search h.covered hport hsafe
      rw [hopen] at hk
      cases hk
      refine ⟨hlive, hcovered, ?_⟩
      intro id'
      have hget := h.live.table.avlGet_avlInsert htable hport id'.toInt
      simp only [BitVec.toInt_inj] at hget
      simp only [recordOwners, hopen, hactive]
      rw [kernelGetPortOwner]
      dsimp only
      rw [hget]
      by_cases hid : id' = id
      · rw [if_pos hid, hid, Function.update_self]
      · rw [if_neg hid, Function.update_of_ne hid]
        exact h.owner id'

/-- A port is closed: it belongs to nobody. -/
theorem PortsOwned.closePort {k' : Kernel} {id : Word} (h : k.PortsOwned owners)
    (hlive : k'.OwnersLive) (hst : k.step (.removePort id) = some k') :
    k'.PortsOwned (recordOwners owners k (.removePort id) k') := by
  obtain ⟨⟨r, k1⟩, hk, rfl⟩ := Option.map_eq_some_iff.mp hst
  replace hk : k.closePort id = some (r, k1) := hk
  cases hport : k.portTable.avlGet id.toInt with
  | none =>
    rw [closePort_of_closed hport] at hk
    cases hk
    simp only [recordOwners, closePort_of_closed hport]
    exact h
  | some port =>
    cases hactive : k.active with
    | none =>
      rw [Kernel.closePort, kernelRemovePort, hport, hactive] at hk
      cases hk
    | some active =>
      obtain ⟨a, A⟩ := active
      by_cases howner : port.ownerPid = A.pid
      · -- the owner closes it: the entry goes, the others stay
        obtain ⟨portTable, htable, hcovered, hclose⟩ :=
          closePort_of_owner hactive h.covered hport howner
        rw [hclose] at hk
        cases hk
        refine ⟨hlive, hcovered, ?_⟩
        intro id'
        have hget := AvlTree.avlGet_avlRemove h.live.table.search htable id'.toInt
        simp only [BitVec.toInt_inj] at hget
        simp only [recordOwners, hclose]
        rw [kernelGetPortOwner]
        dsimp only
        rw [hget]
        by_cases hid : id' = id
        · rw [if_pos hid, hid, Function.update_self]
        · rw [if_neg hid, Function.update_of_ne hid]
          exact h.owner id'
      · rw [closePort_of_other hactive hport howner] at hk
        cases hk
        simp only [recordOwners, closePort_of_other hactive hport howner]
        exact h

theorem PortsOwned.congr {k' : Kernel} (h : k.PortsOwned owners) (hlive : k'.OwnersLive)
    (hports : k'.portTable = k.portTable) : k'.PortsOwned owners := by
  refine ⟨hlive, hports ▸ h.covered, fun id => ?_⟩
  rw [kernelGetPortOwner, hports]
  exact h.owner id

theorem leavesNoReference_of_keepsPorts {op : Op} (h : k.keepsPorts op = true) :
    op.isResourceCall = true ∧ k.assignsFreePid op = true ∧ k.leavesNoReference op = true := by
  cases op with
  | terminate processId => simp [keepsPorts, aboutPorts] at h
  | _ =>
    simp only [keepsPorts, aboutPorts, Bool.and_eq_true] at h
    exact ⟨h.1.1.1, h.1.1.2, assignsUnusedPid_of_assignsFreePid h.1.1.2⟩

/-- What a step makes of the port table. -/
theorem PortsOwned.step {k' : Kernel} {op : Op} (h : k.PortsOwned owners) (hw : k.WellFormed)
    (hlive : k'.OwnersLive) (hok : k.keepsPorts op = true) (hst : k.step op = some k') :
    k'.PortsOwned (recordOwners owners k op k') := by
  cases op with
  | createPort id port node =>
    simp only [keepsPorts, aboutPorts, Bool.and_eq_true] at hok
    obtain ⟨⟨-, rfl, rfl⟩, hsafe⟩ := hok
    exact h.openPort hlive hsafe hst
  | removePort id => exact h.closePort hlive hst
  | registerHandler | removeHandler | executeHandler | signalReturn =>
    cases (leavesNoReference_of_keepsPorts hok).1
  | _ => exact h.congr hlive (portTable_step hw rfl hst)

end Owners

/-- **Ports are routed to their owners.**  In every run about processes, messages and
ports in which no process ends, the pid counter does not come round, and every port is
opened safely: the owner of a port is who opened it last, if it has not been closed
since; a closed port can be opened, safely, and no other; its owner and nobody else can
close it; and what is sent to it reaches its owner and nobody else. -/
theorem followsOwners_of_reachable {s : Kernel × (Word → Word)}
    (h : (system.record (fun _ => 0) recordOwners).Reachable
      (fun s op => s.1.keepsPorts op = true) s) : s.1.FollowsOwners s.2 := by
  have hinv : s.1.WellFormed ∧ s.1.Registered ∧ s.1.PidsNonzero ∧ s.1.PortsOwned s.2 := by
    refine h.invariant
      (fun s => s.1.WellFormed ∧ s.1.Registered ∧ s.1.PidsNonzero ∧ s.1.PortsOwned s.2) ?_ ?_
    · rintro ⟨k, owners⟩ ⟨hb, rfl⟩
      refine ⟨.boot hb, .boot hb, ?_, .boot hb⟩
      obtain ⟨heap, cr3, memory, rfl⟩ := hb
      intro p P hP
      cases hP
    · rintro ⟨k, owners⟩ op s' ⟨hw, hreg, hn, hports⟩ hok ⟨hst, howners⟩
      obtain ⟨hcall, hpid, hrefs⟩ := leavesNoReference_of_keepsPorts hok
      have heffect := step_effect hw.sending (isResourceCall_ne_signalReturn hcall) hst
      obtain ⟨hreg', hlive'⟩ := hports.live.step hw hreg hcall hrefs hst
      rw [howners]
      exact ⟨hw.effect heffect, hreg', hn.effect hpid heffect, hports.step hw hlive' hok hst⟩
  obtain ⟨hw, -, hn, hports⟩ := hinv
  exact hports.followsOwners hw hn

/-- Process 1 opens two ports, process 2 opens another and cannot close the first, and
then process 1 closes it. -/
def portsPassedRun : List Op :=
  [.spawn 0x8000 1 0x1000 (.succeeds 1 fun _ => 0), .spawn 0x9000 1 0x2000 (.succeeds 2 fun _ => 0),
    .advance, .createPort 7 true true, .createPort 9 true true, .advance, .createPort 8 true true,
    .removePort 7, .createPort 9 true true, .advance, .removePort 7]

theorem followsOwners_portsPassedRun :
    ∃ s : Kernel × (Word → Word), Transition.System.runFrom
        (fun s op => s.1.keepsPorts op = true)
        (Transition.System.recordStep step recordOwners) (bare, fun _ => 0) portsPassedRun = some s ∧
      (s.2 7 = 0 ∧ s.2 8 = 2 ∧ s.2 9 = 1) ∧ s.1.FollowsOwners s.2 := by
  have hrun : (Transition.System.runFrom (fun s op => s.1.keepsPorts op = true)
      (Transition.System.recordStep step recordOwners) (bare, fun _ => 0) portsPassedRun).any
      (fun s => s.2 7 = 0 ∧ s.2 8 = 2 ∧ s.2 9 = 1) = true := by decide +kernel
  obtain ⟨s, hs, howners⟩ := (Option.any_eq_true _ _).mp hrun
  have hinit : (system.record (fun _ => 0) recordOwners).Init (bare, fun _ => 0) :=
    ⟨boot_bare, rfl⟩
  have hreach := Transition.System.Reachable.run _ Transition.System.record_step portsPassedRun
    (.init hinit) hs
  exact ⟨s, hs, of_decide_eq_true howners, followsOwners_of_reachable hreach⟩

/-- One process opens eight ports. -/
def eightPortsRun : List Op :=
  [.spawn 0x8000 1 0x1000 (.succeeds 1 fun _ => 0), .advance, .createPort 6 true true,
    .createPort 8 true true, .createPort 12 true true, .createPort 1 true true,
    .createPort 3 true true, .createPort 10 true true, .createPort 11 true true,
    .createPort 2 true true]

/-- The ninth port is closed, and opening it is a crash. -/
theorem not_followsOwners_eightPortsRun :
    ¬ ∀ s : Kernel × (Word → Word), (system.record (fun _ => 0) recordOwners).Reachable
      (fun s op => s.1.aboutPorts op = true) s →
      ∀ id a A, s.1.active = some (a, A) → s.2 id = 0 →
        ∃ k', s.1.openPort id true true = some (.enone, k') := by
  intro hall
  have hrun : (Transition.System.runFrom (fun s op => s.1.aboutPorts op = true)
      (Transition.System.recordStep step recordOwners) (bare, fun _ => 0) eightPortsRun).any
      (fun s => s.1.active.isSome ∧ s.2 9 = 0 ∧ (s.1.openPort 9 true true).isNone) = true := by
    decide +kernel
  obtain ⟨s, hs, hstate⟩ := (Option.any_eq_true _ _).mp hrun
  obtain ⟨hactive, hclosed, hcrash⟩ := of_decide_eq_true hstate
  obtain ⟨⟨a, A⟩, ha⟩ := Option.isSome_iff_exists.mp hactive
  have hinit : (system.record (fun _ => 0) recordOwners).Init (bare, fun _ => 0) :=
    ⟨boot_bare, rfl⟩
  have hreach := Transition.System.Reachable.run _ Transition.System.record_step eightPortsRun
    (.init hinit) hs
  obtain ⟨k', hk'⟩ := hall s hreach 9 a A ha hclosed
  rw [hk'] at hcrash
  cases hcrash

end Kernel
end QuarkKernel
