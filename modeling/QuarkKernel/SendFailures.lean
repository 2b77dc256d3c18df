import QuarkKernel.HeapRuns

/-! # `send` without memory

A message to a recipient that does not wait takes two blocks: the copy of it, which
`kernel_queue_message` allocates, and a node of the queue, which `queue_insert`
allocates.  For the first one the call answers `ENOMEM`.  The result of `queue_insert` is
ignored, so without the second one the call answers `ENONE`, and neither the queue nor
anything else leads to the copy (`send_allOrNothing_iff`). -/
namespace QuarkKernel
namespace HeapKernel

variable {s s' : HeapKernel} {recipient message flags : Word} {alloc : QueueBlocks} {r : Status}

/-! ### What a call means to do -/

/-- The message is in the buffer that the recipient has waited with. -/
structure Copied (k k' : Kernel) (message : Word) (d : Ptr) (dest : Process) : Prop where
  waits : Kernel.waiting dest = true
  copied : ∃ a sender m memory, k.active = some (a, sender) ∧
    Message.load (k.memory k.cr3) message = some m ∧
    Message.store (k.memory dest.pageTable) dest.messageBuffer { m with sender := sender.pid } =
      some memory ∧
    k'.memory dest.pageTable = memory
  delivered : k'.processes d = some (Kernel.delivered dest)

/-- The message is the last one of the recipient's queue. -/
structure Linked (s s' : HeapKernel) (message : Word) (d : Ptr) (dest : Process) : Prop where
  linked : ∃ entry, Message.load (s.kernel.memory s.kernel.cr3) message = some entry.message ∧
    s'.messageQueue d = s.messageQueue d ++ [entry] ∧
    s'.kernel.processes d =
      some { dest with messageQueue := dest.messageQueue ++ [entry.message] }

/-- The recipient has got the message, in one way or the other. -/
def Received (s s' : HeapKernel) (recipient message flags : Word) : Prop :=
  ∃ d dest, s.kernel.lookup (s.kernel.sendRecipient recipient flags) = some d ∧
    s.kernel.processes d = some dest ∧
    (Copied s.kernel s'.kernel message d dest ∨ Linked s s' message d dest)

/-- `ENONE` is for a message received; after an error everything is as it was, the heap
included. -/
def AllOrNothing (s s' : HeapKernel) (recipient message flags : Word) (r : Status) : Prop :=
  (r = .enone ↔ s.Received s' recipient message flags) ∧ (r ≠ .enone → s' = s)

/-- There is a block for the message and none for the node. -/
def Drops (s : HeapKernel) (recipient flags : Word) (alloc : QueueBlocks) : Prop :=
  s.kernel.sendRefuses recipient flags = none ∧
    (∃ d dest, s.kernel.lookup (s.kernel.sendRecipient recipient flags) = some d ∧
      s.kernel.processes d = some dest ∧ Kernel.waiting dest = false) ∧
    alloc.message.isSome = true ∧ alloc.node = none

/-! ### How the call returns -/

/-- The returns of `send`. -/
inductive SendCase (s : HeapKernel) (recipient message flags : Word) (alloc : QueueBlocks) :
    Status → HeapKernel → Prop
  | refuses {r : Status} (hr : r ≠ .enone)
      (hnot : s.kernel.sendRefuses recipient flags ≠ none ∨
        s.kernel.lookup (s.kernel.sendRecipient recipient flags) = none) :
      SendCase s recipient message flags alloc r s
  | copies {kernel : Kernel} (d : Ptr) (dest : Process)
      (hlookup : s.kernel.lookup (s.kernel.sendRecipient recipient flags) = some d)
      (hdest : s.kernel.processes d = some dest)
      (hcopied : Copied s.kernel kernel message d dest) :
      SendCase s recipient message flags alloc .enone { s with kernel }
  | noBlock (halloc : alloc.message = none) : SendCase s recipient message flags alloc .enomem s
  | drops (d : Ptr) (dest : Process) (ptr : Ptr) (hptr : alloc.message = some ptr)
      (hnode : alloc.node = none)
      (hrefuses : s.kernel.sendRefuses recipient flags = none)
      (hlookup : s.kernel.lookup (s.kernel.sendRecipient recipient flags) = some d)
      (hdest : s.kernel.processes d = some dest) (hwait : Kernel.waiting dest = false) :
      SendCase s recipient message flags alloc .enone (s.kmalloc ptr)
  | links {s' : HeapKernel} (d : Ptr) (dest : Process)
      (hlookup : s.kernel.lookup (s.kernel.sendRecipient recipient flags) = some d)
      (hdest : s.kernel.processes d = some dest) (hnode : alloc.node ≠ none)
      (hlinked : Linked s s' message d dest) :
      SendCase s recipient message flags alloc .enone s'

theorem avlGet_of_erase (htable : s.processTable.erase id = s.kernel.processTable) (pid : Word) :
    s.processTable.avlGet pid.toInt = s.kernel.lookup pid := by
  rw [Kernel.lookup, ← htable, NodeTree.avlGet_erase, Option.map_id]
  rfl

theorem sendRefuses_ne_enone {k : Kernel} (h : k.sendRefuses recipient flags = some r) :
    r ≠ .enone := by
  rintro rfl
  rw [Kernel.sendRefuses] at h
  split at h
  · cases h
  · split at h <;> cases h

/-- A recipient that does not wait. -/
theorem kernelQueueMessage_cases (htable : s.processTable.erase id = s.kernel.processTable)
    (hrefuses : s.kernel.sendRefuses recipient flags = none)
    (hbusy : s.kernel.kernelSendMessage (s.kernel.sendRecipient recipient flags) message =
      some (.ebusy, s.kernel))
    (h : s.kernelQueueMessage (s.kernel.sendRecipient recipient flags) message alloc =
      some (r, s')) : SendCase s recipient message flags alloc r s' := by
  obtain ⟨⟨status, kernel⟩, hk, h⟩ := Option.bind_eq_some_iff.mp h
  obtain ⟨message', node⟩ := alloc
  simp only [avlGet_of_erase htable] at h
  rcases Kernel.queueMessage_cases hk with ⟨rfl, hnone, rfl⟩ | ⟨rfl, hmessage, rfl⟩ |
    ⟨d, dest, a, sender, rfl, hnode, hd, hdest, -, rfl⟩ |
    ⟨d, dest, a, sender, m, rfl, hblocks, hd, hdest, -, hm, rfl⟩
  · rw [hnone] at h
    obtain ⟨rfl, rfl⟩ := Prod.mk.inj (Option.some.inj h)
    exact .refuses (by decide) (.inr hnone)
  · cases message' with
    | none =>
      have hcase : some (Status.enomem, s) = some (r, s') := by
        rw [← h]
        split
        · rename_i heq
          cases heq
        · rfl
      obtain ⟨rfl, rfl⟩ := Prod.mk.inj (Option.some.inj hcase)
      exact .noBlock rfl
    | some ptr => cases hmessage
  · cases node with
    | none =>
      rw [hd] at h
      cases message' with
      | none =>
        -- without a block for the message the answer is an error
        rw [Kernel.kernelQueueMessage, hd] at hk
        obtain ⟨_, -, hactive⟩ := Option.bind_eq_some_iff.mp hk
        obtain ⟨_, -, hanswer⟩ := Option.bind_eq_some_iff.mp hactive
        cases hanswer
      | some ptr =>
        obtain ⟨m, hm, h⟩ := Option.bind_eq_some_iff.mp h
        obtain ⟨rfl, rfl⟩ := Prod.mk.inj (Option.some.inj h)
        exact .drops d dest ptr rfl rfl hrefuses hd hdest
          (Kernel.not_waiting_of_ebusy hbusy hd hdest)
    | some node => cases hnode
  · cases node with
    | none => cases hblocks.2
    | some node =>
      cases message' with
      | none => cases hblocks.1
      | some ptr =>
        rw [hd] at h
        simp only [hm, Option.bind_eq_bind, Option.bind_some] at h
        obtain ⟨rfl, rfl⟩ := Prod.mk.inj (Option.some.inj h)
        refine .links d dest hd hdest (Option.some_ne_none node) ⟨⟨node, ptr, m⟩, hm, ?_, ?_⟩
        · rw [queueInsert_some, setQueue_self]
          rfl
        · exact Function.update_self ..

theorem send_cases (htable : s.processTable.erase id = s.kernel.processTable)
    (h : s.send recipient message flags alloc = some (r, s')) :
    SendCase s recipient message flags alloc r s' := by
  rw [send] at h
  split at h
  · rename_i status hrefuses
    obtain ⟨rfl, rfl⟩ := Prod.mk.inj (Option.some.inj h)
    refine .refuses (sendRefuses_ne_enone hrefuses) (.inl ?_)
    rw [hrefuses]
    exact Option.some_ne_none status
  · rename_i hrefuses
    obtain ⟨⟨status, kernel⟩, hsend, h⟩ := Option.bind_eq_some_iff.mp h
    by_cases hbusy : status = .ebusy
    · subst hbusy
      obtain rfl := sendMessage_of_ebusy hsend
      exact kernelQueueMessage_cases htable hrefuses hsend h
    · simp only [hbusy, if_false] at h
      obtain ⟨rfl, rfl⟩ := Prod.mk.inj (Option.some.inj h)
      rcases Kernel.sendMessage_cases hsend with ⟨rfl, hnone, rfl⟩ | ⟨-, -, rfl, -⟩ |
        ⟨d, dest, a, sender, m, memory, rfl, hd, hdest, hwait, hactive, hm, hmemory, rfl⟩
      · exact .refuses (by decide) (.inr hnone)
      · exact absurd rfl hbusy
      · refine .copies d dest hd hdest ⟨hwait, ⟨a, sender, m, memory, hactive, hm, hmemory, ?_⟩, ?_⟩
        · exact Function.update_self ..
        · exact Function.update_self ..

/-! ### All or nothing -/

/-- Nobody receives from a call that leaves the processes and their queues alone. -/
theorem not_received_of_eq (hkernel : s'.kernel = s.kernel)
    (hqueues : s'.messageQueue = s.messageQueue) : ¬ s.Received s' recipient message flags := by
  rintro ⟨d, dest, -, hdest, hcopied | hlinked⟩
  · -- a process that waits has a buffer, one that has been served has none
    have hserved := hcopied.delivered
    rw [hkernel, hdest] at hserved
    have hwait := hcopied.waits
    rw [Option.some.inj hserved] at hwait
    cases hwait
  · obtain ⟨entry, -, hqueue, -⟩ := hlinked.linked
    rw [hqueues] at hqueue
    exact List.cons_ne_nil _ _ (List.self_eq_append_right.mp hqueue)

/-- **All or nothing.**  A send whose call returns is, exactly when it does not get a block
for the message without one for the node. -/
theorem send_allOrNothing_iff (htable : s.processTable.erase id = s.kernel.processTable)
    (h : s.send recipient message flags alloc = some (r, s')) :
    AllOrNothing s s' recipient message flags r ↔ ¬ s.Drops recipient flags alloc := by
  cases send_cases htable h with
  | refuses hr hnot =>
    refine iff_of_true ⟨iff_of_false hr (not_received_of_eq rfl rfl), fun _ => rfl⟩ ?_
    rintro ⟨hrefuses, ⟨d, dest, hd, -⟩, -⟩
    rcases hnot with hnot | hnone
    · exact hnot hrefuses
    · rw [hnone] at hd
      cases hd
  | copies d dest hd hdest hcopied =>
    refine iff_of_true ⟨iff_of_true rfl ⟨d, dest, hd, hdest, .inl hcopied⟩, fun hne =>
      absurd rfl hne⟩ ?_
    rintro ⟨-, ⟨d', dest', hd', hdest', hwait⟩, -⟩
    obtain rfl := Option.some.inj (hd.symm.trans hd')
    obtain rfl := Option.some.inj (hdest.symm.trans hdest')
    rw [hcopied.waits] at hwait
    cases hwait
  | noBlock halloc =>
    refine iff_of_true ⟨iff_of_false (by decide) (not_received_of_eq rfl rfl), fun _ => rfl⟩ ?_
    rintro ⟨-, -, hblock, -⟩
    rw [halloc] at hblock
    cases hblock
  | drops d dest ptr hptr hnode hrefuses hd hdest hwait =>
    refine iff_of_false ?_ (not_not.mpr ⟨hrefuses, ⟨d, dest, hd, hdest, hwait⟩, ?_, hnode⟩)
    · rintro ⟨hiff, -⟩
      have hreceived : s.Received (s.kmalloc ptr) recipient message flags := hiff.mp rfl
      exact absurd hreceived (not_received_of_eq rfl rfl)
    · rw [hptr]
      rfl
  | links d dest hd hdest hnode hlinked =>
    refine iff_of_true ⟨iff_of_true rfl ⟨d, dest, hd, hdest, .inr hlinked⟩, fun hne =>
      absurd rfl hne⟩ ?_
    rintro ⟨-, -, -, hnone⟩
    exact hnode hnone

/-! ### A process that writes to itself -/

/-- The process 1 is at 1 and active. -/
def oneProcess : HeapKernel where
  kernel := { Kernel.bare with
    processTable := .node 1 1 (some 1) .nil .nil
    activeProcess := some 1
    processes := fun p => if p = 1 then some (Kernel.newProcess 1 0x1000 0 0x1000) else none
    memory := fun _ _ => some 0 }
  processTable := .node 9 1 1 (some 1) .nil .nil
  portTable := .nil
  ctx := fun _ => 10
  messageQueue := fun _ => []
  heap := .empty

theorem send_allOrNothing_iff_oneProcess :
    ∃ s', oneProcess.send 1 0x2000 0 ⟨some 20, some 21⟩ = some (.enone, s') ∧
      (AllOrNothing oneProcess s' 1 0x2000 0 .enone ↔
        ¬ oneProcess.Drops 1 0 ⟨some 20, some 21⟩) := by
  have hsend : (oneProcess.send 1 0x2000 0 ⟨some 20, some 21⟩).map Prod.fst = some .enone := by
    decide
  obtain ⟨⟨r, s'⟩, hsend, rfl⟩ := Option.map_eq_some_iff.mp hsend
  exact ⟨s', hsend, send_allOrNothing_iff rfl hsend⟩

/-- Without a node the message is lost, and its block with it. -/
theorem not_allOrNothing_oneProcess :
    ¬ ∀ (s s' : HeapKernel) (recipient message flags : Word) (alloc : QueueBlocks) (r : Status),
      s.processTable.erase id = s.kernel.processTable →
      s.send recipient message flags alloc = some (r, s') →
      AllOrNothing s s' recipient message flags r := by
  intro hall
  have hsend : oneProcess.send 1 0x2000 0 ⟨some 20, none⟩ =
      some (.enone, oneProcess.kmalloc 20) := rfl
  have hreceived := (hall _ _ _ _ _ _ _ rfl hsend).1.mp rfl
  exact absurd hreceived (not_received_of_eq rfl rfl)

end HeapKernel
end QuarkKernel
