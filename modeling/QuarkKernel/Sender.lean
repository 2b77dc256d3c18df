import QuarkKernel.Delivery

/-! # The sender of a message

The direct path puts the pid of the sending process into the `sender` field of the
copy it delivers.  `kernel_queue_message` copies the message as the program wrote
it, so a message that goes through the queue arrives with whatever sender the
program chose.  The field is right in every run in which a message is queued only
with the sender it has.

The history records who executed the sends that are still queued, and with each
message put into a receive buffer, who executed the send that brought it. -/
namespace QuarkKernel
namespace Kernel

/-- The pids that executed the sends queued for each process, and the messages put
into receive buffers, each with the pid that executed its send. -/
structure Ledger where
  pending : Ptr → List Word
  delivered : List (Option Word × Message)

namespace Ledger

/-- Nothing was sent. -/
def empty : Ledger := ⟨fun _ => [], []⟩

/-- A message of `pid` was put into a buffer, which now holds `message`. -/
def deliver (ledger : Ledger) (pid : Option Word) (message : Option Message) : Ledger :=
  { ledger with delivered := ledger.delivered ++ (message.map fun m => (pid, m)).toList }

/-- The list of pending sends to `p` is set. -/
def setPending (ledger : Ledger) (p : Ptr) (pids : List Word) : Ledger :=
  { ledger with pending := Function.update ledger.pending p pids }

/-- A step of the kernel from `k` to `k'` in the history. -/
def record (ledger : Ledger) (k : Kernel) (op : Op) (k' : Kernel) : Ledger :=
  match op with
  | .spawn _ _ _ alloc =>
      match alloc.process with
      | some p => ledger.setPending p []
      | none => ledger
  | .send recipient message flags alloc =>
      match k.send recipient message flags alloc, k.lookup (k.sendRecipient recipient flags),
        k.active with
      | some (.enone, _), some d, some (_, A) =>
          match k.processes d with
          | some D =>
              if waiting D then
                ledger.deliver (some A.pid)
                  (Message.load (k'.memory D.pageTable) D.messageBuffer)
              else if alloc.node then ledger.setPending d (ledger.pending d ++ [A.pid])
              else ledger
          | none => ledger
      | _, _, _ => ledger
  | .receive buffer flags =>
      match k.receive buffer flags, k.activeProcess with
      | some (some .enone, _), some a =>
          (ledger.deliver (ledger.pending a).head? (Message.load (k'.memory k.cr3) buffer)).setPending
            a (ledger.pending a).tail
      | _, _ => ledger
  | _ => ledger

/-- Every delivered message has the pid that executed its send as sender. -/
def Authentic (ledger : Ledger) : Prop :=
  ∀ entry, entry ∈ ledger.delivered → entry.1 = some entry.2.sender

/-- A process's queued messages have the pids that executed their sends. -/
def Signed (ledger : Ledger) (p : Ptr) (queue : List Message) : Prop :=
  queue.map Message.sender = ledger.pending p

theorem Signed.of_ne {ledger : Ledger} {p q : Ptr} {queue : List Message} {pids : List Word}
    (hqp : q ≠ p) (h : ledger.Signed q queue) : (ledger.setPending p pids).Signed q queue := by
  simpa [Signed, setPending, hqp] using h

theorem Authentic.deliver {ledger : Ledger} (h : ledger.Authentic) {pid : Option Word}
    {message : Message} (hpid : pid = some message.sender) :
    (ledger.deliver pid (some message)).Authentic := by
  intro entry hentry
  rcases List.mem_append.mp hentry with hold | hnew
  · exact h entry hold
  · obtain rfl : entry = (pid, message) := by simpa using hnew
    exact hpid

end Ledger

/-- The send puts its message into a queue: the recipient is live and does not
wait, and there is memory. -/
def queuesMessage (k : Kernel) (recipient flags : Word) (alloc : QueueAlloc) : Bool :=
  (k.sendRefuses recipient flags).isNone && (k.lookup (k.sendRecipient recipient flags)).isSome &&
    !k.recipientWaits (k.sendRecipient recipient flags) && alloc.message && alloc.node

/-- The step is not one of a signal or a port, and a message it puts into a queue
has the sender's pid in its sender field. -/
def signsQueued (k : Kernel) : Op → Bool
  | .programs _ | .spawn _ _ _ _ | .advance | .storeContext _ | .terminate _ => true
  | .receive _ _ => true
  | .send recipient message flags alloc =>
      !k.queuesMessage recipient flags alloc ||
        k.active.all fun active =>
          (Message.load (k.memory k.cr3) message).all (·.sender = active.2.pid)
  | _ => false

/-- The queues and the deliveries name the right senders. -/
structure Attributed (k : Kernel) (ledger : Ledger) : Prop where
  queued : k.QueuesHold ledger.Signed
  delivered : ledger.Authentic

theorem ledger_record_send {k k' k1 : Kernel} {ledger : Ledger} {recipient message flags : Word}
    {alloc : QueueAlloc} {r : Status}
    (hk : k.send recipient message flags alloc = some (r, k1)) (hr : r ≠ .enone) :
    ledger.record k (.send recipient message flags alloc) k' = ledger := by
  simp only [Ledger.record, hk]
  cases r <;> first | rfl | exact absurd rfl hr

theorem Attributed.spawn {k k' : Kernel} {ledger : Ledger} (h : k.Attributed ledger)
    {programEntry addressSpace : Word} {priority : Int} {alloc : SpawnAlloc}
    (hst : k.step (.spawn programEntry priority addressSpace alloc) = some k') :
    k'.Attributed (ledger.record k (.spawn programEntry priority addressSpace alloc) k') := by
  constructor
  · refine h.queued.spawn hst ?_ ?_ ?_
    · intro hp
      simp only [Ledger.record, hp]
    · intro p hp q queue hqp hq
      simp only [Ledger.record, hp]
      exact hq.of_ne hqp
    · intro p hp
      simp [Ledger.record, hp, Ledger.Signed, Ledger.setPending]
  · cases hp : alloc.process with
    | none =>
      simp only [Ledger.record, hp]
      exact h.delivered
    | some p =>
      simp only [Ledger.record, hp]
      exact h.delivered

theorem Attributed.send {k k' : Kernel} {ledger : Ledger} (h : k.Attributed ledger)
    {recipient message flags : Word} {alloc : QueueAlloc}
    (hsigned : k.signsQueued (.send recipient message flags alloc) = true)
    (hst : k.step (.send recipient message flags alloc) = some k') :
    k'.Attributed (ledger.record k (.send recipient message flags alloc) k') := by
  obtain ⟨⟨r, k1⟩, hk, rfl⟩ := Option.map_eq_some_iff.mp hst
  obtain ⟨hr, rfl⟩ | ⟨-, -, hs⟩ | ⟨hrefuses, hs, hq⟩ := send_cases hk
  · rw [ledger_record_send hk hr]
    exact h
  · obtain ⟨rfl, -, rfl⟩ | ⟨-, -, rfl, -, -, -, rfl⟩ |
      ⟨d, D, a, A, m, memory, rfl, hd, hD, hwait, ha, hm, hmem, rfl⟩ := sendMessage_cases hs
    · rw [ledger_record_send hk (by decide)]
      exact h
    · rw [ledger_record_send hk (by decide)]
      exact h
    · -- the copy in the buffer has the sender's pid
      simp only [Ledger.record, hk, hd, ha, hD, hwait, if_true, Function.update_self,
        Message.load_store hmem]
      refine ⟨?_, h.delivered.deliver rfl⟩
      exact h.queued.update rfl (fun q queue _ hq => hq) (h.queued d D hD)
  · obtain ⟨rfl, -, rfl⟩ | ⟨rfl, -, rfl⟩ | ⟨d, D, a, A, rfl, hnode, hd, hD, ha, rfl⟩ |
      ⟨d, D, a, A, m, rfl, hnode, hd, hD, ha, hm, rfl⟩ := queueMessage_cases hq
    · rw [ledger_record_send hk (by decide)]
      exact h
    · rw [ledger_record_send hk (by decide)]
      exact h
    · simp only [Ledger.record, hk, hd, ha, hD, not_waiting_of_ebusy hs hd hD, hnode]
      exact h
    · have hbusy := not_waiting_of_ebusy hs hd hD
      -- the copy in the queue has the sender the program wrote
      have hsender : m.sender = A.pid := by
        simpa [signsQueued, queuesMessage, hrefuses, recipientWaits, hd, hD, hbusy, hnode, ha, hm]
          using hsigned
      simp only [Ledger.record, hk, hd, ha, hD, hbusy, hnode]
      refine ⟨?_, h.delivered⟩
      refine h.queued.update rfl (fun q queue hqd hq => Ledger.Signed.of_ne hqd hq) ?_
      have hold : D.messageQueue.map Message.sender = ledger.pending d := h.queued d D hD
      show (D.messageQueue ++ [m]).map Message.sender = Function.update ledger.pending d _ d
      rw [Function.update_self, List.map_append, hold, List.map_singleton, hsender]

theorem Attributed.receive {k k' : Kernel} {ledger : Ledger} (h : k.Attributed ledger)
    {buffer flags : Word} (hst : k.step (.receive buffer flags) = some k') :
    k'.Attributed (ledger.record k (.receive buffer flags) k') := by
  obtain ⟨⟨r, k1⟩, hk, rfl⟩ := Option.map_eq_some_iff.mp hst
  obtain ⟨a, A, hactive, hcases⟩ := receive_cases hk
  obtain ⟨hp, hA⟩ := active_eq_some.mp hactive
  obtain ⟨m, queue, memory, hq, hmem, rfl, rfl⟩ | ⟨hq, -, rfl, rfl⟩ | ⟨hq, -, rfl, hadv⟩ := hcases
  · have hsig : (m :: queue).map Message.sender = ledger.pending a := hq ▸ h.queued a A hA
    simp only [Ledger.record, hk, hp, setMemory, Function.update_self, Message.load_store hmem]
    constructor
    · refine h.queued.update rfl (fun q queue hqa hq => ?_) ?_
      · exact Ledger.Signed.of_ne hqa hq
      · show queue.map Message.sender = Function.update ledger.pending a _ a
        rw [Function.update_self, ← hsig]
        rfl
    · have hhead : (ledger.pending a).head? = some m.sender := by
        rw [← hsig]
        rfl
      exact h.delivered.deliver hhead
  · simp only [Ledger.record, hk]
    exact h
  · simp only [Ledger.record, hk]
    obtain ⟨hproc, -⟩ := advance_occupied hadv
    exact ⟨h.queued.update hproc (fun q queue _ hq => hq) (h.queued a A hA), h.delivered⟩

theorem Attributed.step {k k' : Kernel} {ledger : Ledger} {op : Op} (h : k.Attributed ledger)
    (hw : k.WellFormed) (hsigned : k.signsQueued op = true) (hst : k.step op = some k') :
    k'.Attributed (ledger.record k op k') := by
  cases op with
  | programs memory => exact ⟨h.queued.of_leavesQueues hw rfl hst, h.delivered⟩
  | spawn programEntry priority addressSpace alloc => exact h.spawn hst
  | advance => exact ⟨h.queued.of_leavesQueues hw rfl hst, h.delivered⟩
  | storeContext context => exact ⟨h.queued.of_leavesQueues hw rfl hst, h.delivered⟩
  | terminate processId => exact ⟨h.queued.of_leavesQueues hw rfl hst, h.delivered⟩
  | send recipient message flags alloc => exact h.send hsigned hst
  | receive buffer flags => exact h.receive hst
  | _ => cases hsigned

/-- **Sender authenticity.**  In every run in which a message is queued only with
the sender it has, every message put into a receive buffer has as its sender the
pid of the process that executed the send. -/
theorem authentic_of_reachable {s : Kernel × Ledger}
    (h : (system.record .empty Ledger.record).Reachable (fun s op => s.1.signsQueued op = true) s) :
    s.2.Authentic := by
  have hinv : s.1.WellFormed ∧ s.1.Attributed s.2 := by
    refine h.invariant (fun s => s.1.WellFormed ∧ s.1.Attributed s.2) ?_ ?_
    · rintro s ⟨hb, hstart⟩
      refine ⟨.boot hb, ?_⟩
      rw [hstart]
      constructor
      · obtain ⟨heap, cr3, memory, hk⟩ := hb
        intro p P hP
        rw [hk] at hP
        cases hP
      · intro entry hentry
        cases hentry
    · rintro s op s' ⟨hw, hatt⟩ hsigned ⟨hst, hledger⟩
      refine ⟨hw.step hst, ?_⟩
      rw [hledger]
      exact hatt.step hw hsigned hst
  exact hinv.2.delivered

/-- Process 1 sends process 2, which does not wait, a message all bytes of which
are `byte`; process 2 receives it. -/
def forgedRun (byte : BitVec 8) : List Op :=
  [.spawn 0x8000 1 0x1000 (.succeeds 1 fun _ => 0), .spawn 0x9000 1 0x1000 (.succeeds 2 fun _ => 0),
    .advance, .programs fun _ addr => if addr = 0xFF3FF100 then some 1 else some byte,
    .send 2 0xFF3FF100 0 ⟨true, true⟩, .advance, .receive 0xFF3FF200 0]

theorem runs_forgedRun :
    (Transition.System.runFrom (fun s op => s.1.signsQueued op = true)
      (Transition.System.recordStep step Ledger.record) (bare, .empty) (forgedRun 0)).any
      (fun s => s.2.delivered.length = 1) = true ∧
    (Transition.System.runFrom (fun _ op => op.isProcessCall = true)
      (Transition.System.recordStep step Ledger.record) (bare, .empty) (forgedRun 7)).any
      (fun s => s.2.delivered.any fun entry => entry.1 ≠ some entry.2.sender) = true := by
  decide +kernel

theorem authentic_forgedRun_zero :
    ∃ s : Kernel × Ledger, Transition.System.runFrom (fun s op => s.1.signsQueued op = true)
        (Transition.System.recordStep step Ledger.record) (bare, .empty) (forgedRun 0) = some s ∧
      s.2.delivered.length = 1 ∧ s.2.Authentic := by
  obtain ⟨s, hs, hone⟩ := (Option.any_eq_true _ _).mp runs_forgedRun.1
  have hinit : (system.record Ledger.empty Ledger.record).Init (bare, Ledger.empty) :=
    ⟨boot_bare, rfl⟩
  have hreach := Transition.System.Reachable.run _ Transition.System.record_step (forgedRun 0)
    (.init hinit) hs
  exact ⟨s, hs, of_decide_eq_true hone, authentic_of_reachable hreach⟩

/-- With other bytes process 1 names another sender, and process 2 is told so. -/
theorem not_authentic_forgedRun :
    ¬ ∀ s : Kernel × Ledger, (system.record .empty Ledger.record).Reachable
      (fun _ op => op.isProcessCall = true) s → s.2.Authentic := by
  intro hall
  obtain ⟨s, hs, hforged⟩ := (Option.any_eq_true _ _).mp runs_forgedRun.2
  obtain ⟨entry, hentry, hne⟩ := List.any_eq_true.mp hforged
  have hinit : (system.record Ledger.empty Ledger.record).Init (bare, Ledger.empty) :=
    ⟨boot_bare, rfl⟩
  have hreach := Transition.System.Reachable.run _ Transition.System.record_step (forgedRun 7)
    (.init hinit) hs
  exact of_decide_eq_true hne (hall s hreach entry hentry)

end Kernel
end QuarkKernel
