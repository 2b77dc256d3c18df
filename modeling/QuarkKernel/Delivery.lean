import QuarkKernel.Waiting

/-! # Messages are delivered once and in order

A run is given a history: for each process, the messages whose send returned
`ENONE`, in the order of the sends, and the messages that were put into its
receive buffers, read back from memory after the step that put them there.  Two
paths write a recipient's messages.  They do not overtake each other because the
direct one is taken for a waiting process only, and a waiting process has an empty
queue (`Waits`).  So at any time what was received, followed by what is queued, is
what was sent. -/
namespace QuarkKernel

open ByteMemory (Memory)

namespace Message

/-- What a program says in a message: the code and the arguments. -/
def payload (message : Message) : Word × Vector Word 6 := (message.code, message.args)

theorem length_toWords (message : Message) : message.toWords.length = 8 := by
  simp [toWords]

theorem ofWords_toWords (message : Message) : ofWords message.toWords = message := by
  obtain ⟨sender, code, args⟩ := message
  simp only [ofWords, toWords, List.getD_cons_zero, List.getD_cons_succ]
  congr 1
  ext i hi
  simp

/-- A message copied to memory reads back. -/
theorem load_store {memory memory' : Memory} {addr : Word} {message : Message}
    (h : store memory addr message = some memory') : load memory' addr = some message := by
  have hback := ByteMemory.loadWords_storeWords (by rw [length_toWords]; decide) h
  rw [length_toWords] at hback
  rw [load, hback, Option.map_some, ofWords_toWords]

end Message

namespace Kernel

/-- What the first calls that change no message queue do. -/
def Op.leavesQueues : Op → Bool
  | .programs _ | .advance | .storeContext _ | .terminate _ => true
  | _ => false

/-- The blocks there are after such a step have the queues they had before. -/
theorem messageQueue_of_leavesQueues {k k' : Kernel} {op : Op} (hw : k.WellFormed)
    (hop : op.leavesQueues = true) (hst : k.step op = some k') {p : Ptr} {P' : Process}
    (hP' : k'.processes p = some P') :
    ∃ P, k.processes p = some P ∧ P'.messageQueue = P.messageQueue := by
  cases op with
  | programs memory =>
    cases hst
    exact ⟨P', hP', rfl⟩
  | advance =>
    obtain ⟨hproc, -⟩ := advance_occupied hst
    exact ⟨P', by rw [← hproc, hP'], rfl⟩
  | storeContext context =>
    obtain ⟨⟨r, k1⟩, hk, rfl⟩ := Option.map_eq_some_iff.mp hst
    obtain rfl | ⟨a, A, hactive, rfl⟩ := storeContext_cases hk
    · exact ⟨P', hP', rfl⟩
    · have hP' : Function.update k.processes a (some { A with ctx := context }) p = some P' := hP'
      by_cases hpa : p = a
      · rw [hpa, Function.update_self] at hP'
        obtain rfl := Option.some.inj hP'
        exact ⟨A, hpa ▸ (active_eq_some.mp hactive).2, rfl⟩
      · rw [Function.update_of_ne hpa] at hP'
        exact ⟨P', hP', rfl⟩
  | terminate processId =>
    obtain ⟨⟨r, k1⟩, hk, rfl⟩ := Option.map_eq_some_iff.mp hst
    obtain ⟨-, -, rfl⟩ | ⟨q, Q, table, queue, -, -, -, -, -, -, -, rfl⟩ :=
      terminate_cases hw.sending hk
    · exact ⟨P', hP', rfl⟩
    · have hP' : Function.update k.processes q none p = some P' := hP'
      by_cases hpq : p = q
      · rw [hpq, Function.update_self] at hP'
        cases hP'
      · rw [Function.update_of_ne hpq] at hP'
        exact ⟨P', hP', rfl⟩
  | _ => cases hop

/-- Every live process and its message queue are related. -/
def QueuesHold (k : Kernel) (R : Ptr → List Message → Prop) : Prop :=
  ∀ p P, k.processes p = some P → R p P.messageQueue

theorem QueuesHold.of_leavesQueues {k k' : Kernel} {op : Op} {R : Ptr → List Message → Prop}
    (h : k.QueuesHold R) (hw : k.WellFormed) (hop : op.leavesQueues = true)
    (hst : k.step op = some k') : k'.QueuesHold R := by
  intro p P' hP'
  obtain ⟨P, hP, hq⟩ := messageQueue_of_leavesQueues hw hop hst hP'
  rw [hq]
  exact h p P hP

/-- One block changes, and with it what is known of that process. -/
theorem QueuesHold.update {k k' : Kernel} {R R' : Ptr → List Message → Prop}
    (h : k.QueuesHold R) {p : Ptr} {P' : Process}
    (hproc : k'.processes = Function.update k.processes p (some P'))
    (hsame : ∀ q queue, q ≠ p → R q queue → R' q queue) (hP' : R' p P'.messageQueue) :
    k'.QueuesHold R' := by
  intro q Q hQ
  rw [hproc] at hQ
  by_cases hqp : q = p
  · subst hqp
    rw [Function.update_self] at hQ
    obtain rfl := Option.some.inj hQ
    exact hP'
  · rw [Function.update_of_ne hqp] at hQ
    exact hsame q _ hqp (h q Q hQ)

/-- A spawned process starts with an empty queue. -/
theorem QueuesHold.spawn {k k' : Kernel} {R R' : Ptr → List Message → Prop}
    (h : k.QueuesHold R) {programEntry addressSpace : Word} {priority : Int} {alloc : SpawnAlloc}
    (hst : k.step (.spawn programEntry priority addressSpace alloc) = some k')
    (hnone : alloc.process = none → R' = R)
    (hother : ∀ p, alloc.process = some p → ∀ q queue, q ≠ p → R q queue → R' q queue)
    (hnew : ∀ p, alloc.process = some p → R' p []) : k'.QueuesHold R' := by
  rw [step] at hst
  split at hst
  · rename_i hfresh
    obtain ⟨⟨r, k1⟩, hk, rfl⟩ := Option.map_eq_some_iff.mp hst
    cases hp : alloc.process with
    | none =>
      rw [kernelSpawnProcess, hp] at hk
      cases hk
      rw [hnone hp]
      exact h
    | some p =>
      obtain ⟨-, rfl⟩ | ⟨p', memory, table, hp', -, -, -, rfl⟩ := spawn_cases hk
      · -- the block is free, so it is none of the live ones
        intro q Q hQ
        have hqp : q ≠ p := by
          rintro rfl
          rw [processes_of_fresh hfresh hp] at hQ
          cases hQ
        exact hother p hp q _ hqp (h q Q hQ)
      · obtain rfl := Option.some.inj (hp.symm.trans hp')
        exact h.update rfl (hother p hp) (hnew p hp)
  · cases hst

/-! ### The history -/

/-- What was sent to each process, and what it received, since it was spawned. -/
structure Mail where
  sent : Ptr → List (Word × Vector Word 6)
  received : Ptr → List (Word × Vector Word 6)

namespace Mail

/-- Nothing was sent. -/
def empty : Mail := ⟨fun _ => [], fun _ => []⟩

/-- A block is given to a new process. -/
def restart (mail : Mail) (p : Ptr) : Mail where
  sent := Function.update mail.sent p []
  received := Function.update mail.received p []

/-- A send to `p` has returned `ENONE`. -/
def send (mail : Mail) (p : Ptr) (message : Option Message) : Mail :=
  { mail with
    sent := Function.update mail.sent p (mail.sent p ++ (message.map Message.payload).toList) }

/-- A message is in the receive buffer of `p`. -/
def receive (mail : Mail) (p : Ptr) (message : Option Message) : Mail :=
  { mail with
    received :=
      Function.update mail.received p (mail.received p ++ (message.map Message.payload).toList) }

/-- A step of the kernel from `k` to `k'` in the history.  A send to a waiting
process is received at once, in the buffer it waits with. -/
def record (mail : Mail) (k : Kernel) (op : Op) (k' : Kernel) : Mail :=
  match op with
  | .spawn _ _ _ alloc =>
      match alloc.process with
      | some p => mail.restart p
      | none => mail
  | .send recipient message flags alloc =>
      match k.send recipient message flags alloc, k.lookup (k.sendRecipient recipient flags) with
      | some (.enone, _), some d =>
          let mail := mail.send d (Message.load (k.memory k.cr3) message)
          match k.processes d with
          | some D =>
              if waiting D then
                mail.receive d (Message.load (k'.memory D.pageTable) D.messageBuffer)
              else mail
          | none => mail
      | _, _ => mail
  | .receive buffer flags =>
      match k.receive buffer flags, k.activeProcess with
      | some (some .enone, _), some a =>
          mail.receive a (Message.load (k'.memory k.cr3) buffer)
      | _, _ => mail
  | _ => mail

/-- What `p` received, followed by a queue, is what was sent to `p`. -/
def Accounts (mail : Mail) (p : Ptr) (queue : List Message) : Prop :=
  mail.received p ++ queue.map Message.payload = mail.sent p

theorem accounts_restart (mail : Mail) (p : Ptr) : (mail.restart p).Accounts p [] := by
  simp [Accounts, restart]

theorem Accounts.restart {mail : Mail} {p q : Ptr} {queue : List Message} (hqp : q ≠ p)
    (h : mail.Accounts q queue) : (mail.restart p).Accounts q queue := by
  simpa [Accounts, Mail.restart, hqp] using h

/-- A sent message joins the queue. -/
theorem Accounts.queue {mail : Mail} {p : Ptr} {queue : List Message}
    (h : mail.Accounts p queue) (m : Message) : (mail.send p (some m)).Accounts p (queue ++ [m]) := by
  unfold Accounts at h ⊢
  simp [Mail.send, ← h]

theorem Accounts.send_of_ne {mail : Mail} {p q : Ptr} {queue : List Message} (hqp : q ≠ p)
    (h : mail.Accounts q queue) (m : Option Message) : (mail.send p m).Accounts q queue := by
  simpa [Accounts, Mail.send, hqp] using h

/-- The oldest queued message is received. -/
theorem Accounts.dequeue {mail : Mail} {p : Ptr} {queue : List Message} {m : Message}
    (h : mail.Accounts p (m :: queue)) : (mail.receive p (some m)).Accounts p queue := by
  unfold Accounts at h ⊢
  simp [Mail.receive, ← h]

theorem Accounts.receive_of_ne {mail : Mail} {p q : Ptr} {queue : List Message} (hqp : q ≠ p)
    (h : mail.Accounts q queue) (m : Option Message) : (mail.receive p m).Accounts q queue := by
  simpa [Accounts, Mail.receive, hqp] using h

end Mail

/-! ### Each step keeps the account -/

/-- The messages of a step are accounted for. -/
def Accounted (k : Kernel) (mail : Mail) : Prop := k.QueuesHold mail.Accounts

theorem Accounted.spawn {k k' : Kernel} {mail : Mail} (h : k.Accounted mail)
    {programEntry addressSpace : Word} {priority : Int} {alloc : SpawnAlloc}
    (hst : k.step (.spawn programEntry priority addressSpace alloc) = some k') :
    k'.Accounted (mail.record k (.spawn programEntry priority addressSpace alloc) k') := by
  refine QueuesHold.spawn h hst ?_ ?_ ?_
  · intro hp
    simp only [Mail.record, hp]
  · intro p hp q queue hqp hq
    simp only [Mail.record, hp]
    exact hq.restart hqp
  · intro p hp
    simp only [Mail.record, hp]
    exact mail.accounts_restart p

/-- The history after a send that returned. -/
theorem record_send {k k' k1 : Kernel} {mail : Mail} {recipient message flags : Word}
    {alloc : QueueAlloc} {r : Status}
    (hk : k.send recipient message flags alloc = some (r, k1)) :
    mail.record k (.send recipient message flags alloc) k' =
      match r, k.lookup (k.sendRecipient recipient flags) with
      | .enone, some d =>
          match k.processes d with
          | some D =>
              if waiting D then
                (mail.send d (Message.load (k.memory k.cr3) message)).receive d
                  (Message.load (k'.memory D.pageTable) D.messageBuffer)
              else mail.send d (Message.load (k.memory k.cr3) message)
          | none => mail.send d (Message.load (k.memory k.cr3) message)
      | _, _ => mail := by
  simp only [Mail.record, hk]
  cases r <;> cases k.lookup (k.sendRecipient recipient flags) <;> rfl

theorem record_send_error {k k' k1 : Kernel} {mail : Mail} {recipient message flags : Word}
    {alloc : QueueAlloc} {r : Status}
    (hk : k.send recipient message flags alloc = some (r, k1)) (hr : r ≠ .enone) :
    mail.record k (.send recipient message flags alloc) k' = mail := by
  rw [record_send hk]
  cases r <;> first | rfl | exact absurd rfl hr

theorem Accounted.send {k k' : Kernel} {mail : Mail} (h : k.Accounted mail) (hwaits : k.Waits)
    {recipient message flags : Word} {alloc : QueueAlloc} (hnode : alloc.node = true)
    (hst : k.step (.send recipient message flags alloc) = some k') :
    k'.Accounted (mail.record k (.send recipient message flags alloc) k') := by
  obtain ⟨⟨r, k1⟩, hk, rfl⟩ := Option.map_eq_some_iff.mp hst
  obtain ⟨hr, rfl⟩ | ⟨-, -, hs⟩ | ⟨-, hs, hq⟩ := send_cases hk
  · rw [record_send_error hk hr]
    exact h
  · obtain ⟨rfl, -, rfl⟩ | ⟨-, -, rfl, -, -, -, rfl⟩ |
      ⟨d, D, a, A, m, memory, rfl, hd, hD, hwait, ha, hm, hmem, rfl⟩ := sendMessage_cases hs
    · rw [record_send_error hk (by decide)]
      exact h
    · rw [record_send_error hk (by decide)]
      exact h
    · -- the recipient waits, so its queue is empty
      obtain ⟨hbuf, hstate⟩ := waiting_iff.mp hwait
      have hempty := (hwaits d D hD hstate).2
      have hacc := h d D hD
      rw [hempty] at hacc
      rw [record_send hk]
      simp only [hd, hD, hwait, if_true, hm, Function.update_self, Message.load_store hmem]
      refine QueuesHold.update h rfl (fun q queue hqd hq => ?_) ?_
      · exact (hq.send_of_ne hqd _).receive_of_ne hqd _
      · show Mail.Accounts _ d D.messageQueue
        rw [hempty]
        exact (hacc.queue m).dequeue
  · obtain ⟨rfl, -, rfl⟩ | ⟨rfl, -, rfl⟩ | ⟨-, -, -, -, -, hfail, -⟩ |
      ⟨d, D, a, A, m, rfl, -, hd, hD, ha, hm, rfl⟩ := queueMessage_cases hq
    · rw [record_send_error hk (by decide)]
      exact h
    · rw [record_send_error hk (by decide)]
      exact h
    · rw [hnode] at hfail
      cases hfail
    · -- it does not wait: the message goes to the end of its queue
      have hbusy := not_waiting_of_ebusy hs hd hD
      rw [record_send hk]
      simp only [hd, hD, hbusy, hm]
      exact QueuesHold.update h rfl (fun q queue hqd hq => hq.send_of_ne hqd _)
        (Mail.Accounts.queue (h d D hD) m)

theorem Accounted.receive {k k' : Kernel} {mail : Mail} (h : k.Accounted mail)
    {buffer flags : Word} (hst : k.step (.receive buffer flags) = some k') :
    k'.Accounted (mail.record k (.receive buffer flags) k') := by
  obtain ⟨⟨r, k1⟩, hk, rfl⟩ := Option.map_eq_some_iff.mp hst
  obtain ⟨a, A, hactive, hcases⟩ := receive_cases hk
  obtain ⟨hp, hA⟩ := active_eq_some.mp hactive
  obtain ⟨m, queue, memory, hq, hmem, rfl, rfl⟩ | ⟨hq, -, rfl, rfl⟩ | ⟨hq, -, rfl, hadv⟩ := hcases
  · have hacc := h a A hA
    rw [hq] at hacc
    simp only [Mail.record, hk, hp, setMemory, Function.update_self, Message.load_store hmem]
    exact QueuesHold.update h rfl (fun q queue hqa hq => hq.receive_of_ne hqa _)
      hacc.dequeue
  · simp only [Mail.record, hk]
    exact h
  · simp only [Mail.record, hk]
    obtain ⟨hproc, -⟩ := advance_occupied hadv
    exact QueuesHold.update h hproc (fun q queue _ hq => hq) (h a A hA)

/-- The step belongs to a run of spawns, sends, receives and terminations without
signals, where `kmalloc` provides for every message and no buffer is NULL. -/
def Op.isMailOp : Op → Bool
  | .programs _ | .spawn _ _ _ _ | .advance | .storeContext _ | .terminate _ => true
  | .send _ _ _ alloc => alloc.message && alloc.node
  | .receive buffer _ => buffer ≠ 0
  | _ => false

theorem Op.sleepsWithBuffer_of_isMailOp {op : Op} (k : Kernel) (h : op.isMailOp = true) :
    k.sleepsWithBuffer op = true := by
  cases op with
  | receive buffer flags =>
    have hbuf : ¬ buffer = 0#32 := of_decide_eq_true h
    simp [sleepsWithBuffer, hbuf]
  | signalReturn => cases h
  | _ => rfl

theorem Accounted.step {k k' : Kernel} {mail : Mail} {op : Op} (h : k.Accounted mail)
    (hw : k.WellFormed) (hwaits : k.Waits) (hop : op.isMailOp = true)
    (hst : k.step op = some k') : k'.Accounted (mail.record k op k') := by
  cases op with
  | programs memory => exact QueuesHold.of_leavesQueues h hw rfl hst
  | spawn programEntry priority addressSpace alloc => exact h.spawn hst
  | advance => exact QueuesHold.of_leavesQueues h hw rfl hst
  | storeContext context => exact QueuesHold.of_leavesQueues h hw rfl hst
  | terminate processId => exact QueuesHold.of_leavesQueues h hw rfl hst
  | send recipient message flags alloc =>
    have halloc : alloc.message = true ∧ alloc.node = true := by simpa [Op.isMailOp] using hop
    exact h.send hwaits halloc.2 hst
  | receive buffer flags => exact h.receive hst
  | _ => cases hop

/-- **Delivery.**  In every run of spawns, sends, receives and terminations without
signals, with memory for every message and no NULL buffer: what a live process
received, followed by what is queued for it, is what was sent to it with success
since it was spawned, in the order of the sends. -/
theorem received_append_queue_of_reachable {s : Kernel × Mail}
    (h : (system.record .empty Mail.record).Reachable (fun _ op => op.isMailOp = true) s)
    {pid : Word} {p : Ptr} (hlookup : s.1.lookup pid = some p) :
    ∃ P, s.1.processes p = some P ∧
      s.2.received p ++ P.messageQueue.map Message.payload = s.2.sent p := by
  have hinv : s.1.WellFormed ∧ s.1.Waits ∧ s.1.Accounted s.2 := by
    refine h.invariant (fun s => s.1.WellFormed ∧ s.1.Waits ∧ s.1.Accounted s.2) ?_ ?_
    · rintro s ⟨hb, -⟩
      obtain ⟨hw, hwaits⟩ := waits_of_reachable (.init hb)
      refine ⟨hw, hwaits, ?_⟩
      obtain ⟨heap, cr3, memory, hk⟩ := hb
      intro p P hP
      rw [hk] at hP
      cases hP
    · rintro s op s' ⟨hw, hwaits, hacc⟩ hop ⟨hst, hmail⟩
      refine ⟨hw.step hst, hwaits.step hw (op.sleepsWithBuffer_of_isMailOp s.1 hop) hst, ?_⟩
      rw [hmail]
      exact hacc.step hw hwaits hop hst
  obtain ⟨P, hP, -⟩ := hinv.1.table _ p hlookup
  exact ⟨P, hP, hinv.2.2 p P hP⟩

/-- Process 1 waits; process 2 sends it one message directly and one through the
queue. -/
def twoPathsRun : List Op :=
  [.spawn 0x8000 1 0x1000 (.succeeds 1 fun _ => 0), .spawn 0x9000 1 0x1000 (.succeeds 2 fun _ => 0),
    .advance, .receive 0xFF3FF000 0, .send 1 0xFF3FF100 0 ⟨true, true⟩,
    .send 1 0xFF3FF200 0 ⟨true, true⟩]

theorem received_append_queue_twoPathsRun :
    ∃ s : Kernel × Mail, Transition.System.runFrom (fun _ op => op.isMailOp = true)
        (Transition.System.recordStep step Mail.record) (bare, .empty) twoPathsRun = some s ∧
      (s.2.received 1).length = 1 ∧ (s.2.sent 1).length = 2 ∧ ∃ P, s.1.processes 1 = some P ∧
        s.2.received 1 ++ P.messageQueue.map Message.payload = s.2.sent 1 := by
  have hrun : (Transition.System.runFrom (fun _ op => op.isMailOp = true)
      (Transition.System.recordStep step Mail.record) (bare, .empty) twoPathsRun).any (fun s =>
        s.1.lookup 1 = some 1 ∧ (s.2.received 1).length = 1 ∧ (s.2.sent 1).length = 2) = true := by
    decide +kernel
  obtain ⟨s, hs, hthere⟩ := (Option.any_eq_true _ _).mp hrun
  obtain ⟨hlookup, hone, htwo⟩ := of_decide_eq_true hthere
  have hinit : (system.record Mail.empty Mail.record).Init (bare, Mail.empty) := ⟨boot_bare, rfl⟩
  have hreach := Transition.System.Reachable.run _ Transition.System.record_step twoPathsRun
    (.init hinit) hs
  exact ⟨s, hs, hone, htwo, received_append_queue_of_reachable hreach hlookup⟩

end Kernel
end QuarkKernel
