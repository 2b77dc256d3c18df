import QuarkKernel.AvlTree
import QuarkKernel.PriorityQueue
import QuarkKernel.Context

/-! # `kernel.c`

Processes, scheduling, messages, ports and interrupt handlers.  The kernel's own
objects are values: `processes` holds the `process_t` block at each address of
the kernel heap, and each block holds its context and its queues.  The bytes
programs see are in `memory`, one byte memory for each page directory, of which
`cr3` says which one is loaded.

Nothing in `memory` is part of these objects.  The code checks no pointer that a
program passes, so what is said of every run assumes that no buffer, and no stack
that a signal is put on, lies where the kernel keeps its own objects: a message
received there would change them behind the kernel's back.  `Op.sparesKernel` is
that condition on a step.

A call is a function to the value it returns and the kernel it leaves.  `none`
is a crash: NULL or a freed block dereferenced, a page fault in the kernel, or
`panic`.  What an allocator answers is an argument of the call. -/
namespace QuarkKernel

open ByteMemory (Memory loadWords storeWords)
open ProcessContext

/-- The address of a block on the kernel heap. -/
abbrev Ptr := Nat

/-- `struct message_t` -/
structure Message where
  sender : Word
  code : Word
  args : Vector Word 6
deriving DecidableEq, Repr

namespace Message

/-- The words of the struct, in memory order. -/
def toWords (message : Message) : List Word := message.sender :: message.code :: message.args.toList

/-- The struct that consists of the given words. -/
def ofWords (words : List Word) : Message where
  sender := words.getD 0 0
  code := words.getD 1 0
  args := Vector.ofFn fun i => words.getD (i + 2) 0

/-- `memcpy` of a message from `addr`. -/
def load (memory : Memory) (addr : Word) : Option Message :=
  (loadWords memory addr 8).map ofWords

/-- `memcpy` of a message to `addr`. -/
def store (memory : Memory) (addr : Word) (message : Message) : Option Memory :=
  storeWords memory addr message.toWords

end Message

/-- `enum process_state_t`.  `kernel_signal_return` fills it from a stack, so it
can be any word. -/
inductive ProcessState where
  | active
  | requesting
  | sending
  | other (word : Word) (large : 2 < word.toNat)
deriving DecidableEq, Repr

namespace ProcessState

/-- The value of a state. -/
def toWord : ProcessState → Word
  | active => 0
  | requesting => 1
  | sending => 2
  | other word _ => word

/-- The state with a given value. -/
def ofWord (word : Word) : ProcessState :=
  if h : 2 < word.toNat then other word h
  else if word = 0 then active
  else if word = 1 then requesting
  else sending

end ProcessState

/-- `struct process_t`.  The NULL `message_buffer` is 0. -/
structure Process where
  pid : Word
  priority : Int
  pageTable : Word
  state : ProcessState
  sendingQueue : List Ptr
  messageQueue : List Message
  messageBuffer : Word
  ctx : ProcessContext

/-- `struct port_t` -/
structure Port where
  id : Word
  ownerPid : Word
deriving DecidableEq, Repr

/-- `struct signal_action_t` -/
structure SignalAction where
  pid : Word
  funcPtr : Word
  trampolinePtr : Word
  userdata : Word
deriving DecidableEq, Repr

/-- `struct kernel_t`, the heap blocks it leads to, and the memory. -/
structure Kernel where
  priorityQueue : PriorityQueue Ptr
  interruptHandlers : AvlTree SignalAction
  portTable : AvlTree Port
  processTable : AvlTree Ptr
  activeProcess : Option Ptr
  nextPid : Word
  processes : Ptr → Option Process
  cr3 : Word
  memory : Word → Memory

/-- `DEFAULT_FLAGS` -/
def defaultFlags : Word := 0x3200

/-- `IO_OP` -/
def ioOp : Word := 1

/-- `IO_ASYNC` -/
def ioAsync : Word := 1

/-- `IO_RECIPIENT_TYPE` -/
def ioRecipientType : Word := 6

/-- `IO_PORT` -/
def ioPort : Word := 2

/-- `IO_MAILBOX` -/
def ioMailbox : Word := 4

/-- What the allocators answer to `kernel_spawn_process`: the `process_t` block,
whether there is one for the context and for the tree node, the frame
`reserve_page` returns, and the bytes of that frame if `map_page` maps it. -/
structure SpawnAlloc where
  process : Option Ptr
  context : Bool
  node : Bool
  stackPage : Word
  stackBytes : Option (Word → BitVec 8)

/-- Every allocation succeeds; the frame for the stack holds the given bytes. -/
def SpawnAlloc.succeeds (process : Ptr) (bytes : Word → BitVec 8) : SpawnAlloc where
  process := some process
  context := true
  node := true
  stackPage := 0x5000
  stackBytes := some bytes

/-- What `kmalloc` answers to `kernel_queue_message`: for the message, and for the
queue node. -/
structure QueueAlloc where
  message : Bool
  node : Bool
deriving DecidableEq, Repr

namespace Kernel

/-- The kernel with the block at `p` set. -/
def setProcess (kernel : Kernel) (p : Ptr) (process : Process) : Kernel :=
  { kernel with processes := Function.update kernel.processes p (some process) }

/-- The kernel with the memory of one address space set. -/
def setMemory (kernel : Kernel) (space : Word) (memory : Memory) : Kernel :=
  { kernel with memory := Function.update kernel.memory space memory }

/-- `paging_load_address_space` -/
def loadAddressSpace (kernel : Kernel) (space : Word) : Kernel := { kernel with cr3 := space }

/-- `priorityqueue_insert(&kernel.priority_queue, process, process->priority)`.
Every caller ignores the result. -/
def enqueue (kernel : Kernel) (p : Ptr) (priority : Int) : Kernel :=
  { kernel with priorityQueue := (kernel.priorityQueue.priorityqueueInsert p priority).2 }

/-- `*kernel.active_process` -/
def active (kernel : Kernel) : Option (Ptr × Process) := do
  let p ← kernel.activeProcess
  let process ← kernel.processes p
  some (p, process)

/-- `avl_get(kernel.process_table, pid)`, with the `unsigned long` taken as `int`. -/
def lookup (kernel : Kernel) (pid : Word) : Option Ptr := kernel.processTable.avlGet pid.toInt

/-! ### Processes and scheduling -/

/-- `map_page` of the page below `_kernel_start` in the loaded address space. -/
def mapStack (kernel : Kernel) (bytes : Word → BitVec 8) : Kernel :=
  kernel.setMemory kernel.cr3 fun addr =>
    if addr.toNat / pageSize.toNat = kernelStart.toNat / pageSize.toNat - 1 then some (bytes addr)
    else kernel.memory kernel.cr3 addr

/-- The block `kernel_spawn_process` fills in. -/
def newProcess (pid : Word) (programEntry : Word) (priority : Int) (addressSpace : Word) : Process where
  pid := pid
  priority := priority
  pageTable := addressSpace
  state := .active
  sendingQueue := []
  messageQueue := []
  messageBuffer := 0
  ctx := (((ProcessContext.zero.setContextPc programEntry).setContextFlags defaultFlags).setContextStack
    kernelStart)

/-- `kernel_spawn_process` -/
def kernelSpawnProcess (kernel : Kernel) (programEntry : Word) (priority : Int)
    (addressSpace : Word) (alloc : SpawnAlloc) : Option (Word × Kernel) :=
  match alloc.process with
  | none => some (0, kernel)
  | some p =>
      if !alloc.context then some (0, kernel)
      else if alloc.stackPage.toNat % pageSize.toNat ≠ 0 then some (0, kernel)
      else do
        let kernel := (alloc.stackBytes.map kernel.mapStack).getD kernel
        let pid := kernel.nextPid
        let processTable ← kernel.processTable.avlInsert alloc.node pid.toInt (some p)
        let kernel := { kernel.setProcess p (newProcess pid programEntry priority addressSpace) with
          processTable }
        let kernel := kernel.enqueue p priority
        some (pid, { kernel with nextPid := kernel.nextPid + 1 })

/-- The part of `kernel_advance_scheduler` that puts the active process back. -/
def requeueActive (kernel : Kernel) : Option Kernel :=
  match kernel.activeProcess with
  | none => some kernel
  | some p => do
      let process ← kernel.processes p
      some (kernel.enqueue p process.priority)

/-- `kernel_advance_scheduler`; the context it returns is that of the process it
makes active. -/
def kernelAdvanceScheduler (kernel : Kernel) : Option Kernel := do
  let kernel ← kernel.requeueActive
  let (next, priorityQueue) ← kernel.priorityQueue.priorityqueueExtractMin
  -- an empty queue ends in `panic`
  let p ← next
  let process ← kernel.processes p
  some ({ kernel with priorityQueue, activeProcess := some p }.loadAddressSpace process.pageTable)

/-- The loop over `sending_queue` in `kernel_terminate_process`. -/
def wakeSenders : List Ptr → Kernel → Option Kernel
  | [], kernel => some kernel
  | p :: senders, kernel => do
      let sender ← kernel.processes p
      let sender := { sender with
        state := .active, ctx := sender.ctx.setContextReturn Status.eexited.code }
      wakeSenders senders ((kernel.setProcess p sender).enqueue p sender.priority)

/-- `kernel_terminate_process` -/
def kernelTerminateProcess (kernel : Kernel) (processId : Word) : Option (Status × Kernel) :=
  match kernel.lookup processId with
  | none => some (.edoesntexist, kernel)
  | some p => do
      let process ← kernel.processes p
      let activeProcess := if kernel.activeProcess = some p then none else kernel.activeProcess
      let processTable ← kernel.processTable.avlRemove processId.toInt
      let (_, priorityQueue) ← kernel.priorityQueue.priorityqueueRemove p
      let kernel ← wakeSenders process.sendingQueue
        { kernel with activeProcess, processTable, priorityQueue }
      some (.enone, { kernel with processes := Function.update kernel.processes p none })

/-- `kernel_store_active_context` -/
def kernelStoreActiveContext (kernel : Kernel) (context : ProcessContext) :
    Option (Status × Kernel) :=
  match kernel.activeProcess with
  | none => some (.edoesntexist, kernel)
  | some p => do
      let process ← kernel.processes p
      some (.enone, kernel.setProcess p { process with ctx := context })

/-! ### Ports -/

/-- `kernel_create_port`; `port` and `node` tell whether `kmalloc` provides the
port and the tree node. -/
def kernelCreatePort (kernel : Kernel) (id : Word) (port node : Bool) : Option (Status × Kernel) :=
  if (kernel.portTable.avlGet id.toInt).isSome then some (.eexists, kernel)
  else if !port then none
  else do
    let (_, process) ← kernel.active
    let portTable ← kernel.portTable.avlInsert node id.toInt (some ⟨id, process.pid⟩)
    some (.enone, { kernel with portTable })

/-- `kernel_remove_port` -/
def kernelRemovePort (kernel : Kernel) (id : Word) : Option (Status × Kernel) :=
  match kernel.portTable.avlGet id.toInt with
  | none => some (.edoesntexist, kernel)
  | some port => do
      let (_, process) ← kernel.active
      if port.ownerPid ≠ process.pid then some (.eperm, kernel)
      else do
        let portTable ← kernel.portTable.avlRemove id.toInt
        some (.enone, { kernel with portTable })

/-- `kernel_get_port_owner` -/
def kernelGetPortOwner (kernel : Kernel) (id : Word) : Word :=
  match kernel.portTable.avlGet id.toInt with
  | none => 0
  | some port => port.ownerPid

/-! ### Messages -/

/-- The test for the direct path: the process waits in a receive. -/
def waiting (process : Process) : Bool :=
  process.messageBuffer ≠ 0 && process.state = .requesting

/-- `kernel_send_message` -/
def kernelSendMessage (kernel : Kernel) (recipient message : Word) : Option (Status × Kernel) :=
  match kernel.lookup recipient with
  | none => some (.edoesntexist, kernel)
  | some d => do
      let dest ← kernel.processes d
      if waiting dest then do
        let (_, sender) ← kernel.active
        let kernelBuffer ← Message.load (kernel.memory kernel.cr3) message
        let kernelBuffer := { kernelBuffer with sender := sender.pid }
        let kernel := kernel.loadAddressSpace dest.pageTable
        let memory ← kernelBuffer.store (kernel.memory kernel.cr3) dest.messageBuffer
        let kernel := kernel.setMemory kernel.cr3 memory
        let kernel := kernel.loadAddressSpace sender.pageTable
        let dest := { dest with
          messageBuffer := 0, state := .active
          ctx := dest.ctx.setContextReturn Status.enone.code }
        some (.enone, (kernel.setProcess d dest).enqueue d dest.priority)
      else some (.ebusy, kernel)

/-- `kernel_queue_message`.  The result of `queue_insert` is ignored, so a message
without a queue node is dropped. -/
def kernelQueueMessage (kernel : Kernel) (recipient message : Word) (alloc : QueueAlloc) :
    Option (Status × Kernel) :=
  match kernel.lookup recipient with
  | none => some (.edoesntexist, kernel)
  | some d => do
      let dest ← kernel.processes d
      let _ ← kernel.active
      if !alloc.message then some (.enomem, kernel)
      else do
        let queuedMsg ← Message.load (kernel.memory kernel.cr3) message
        if !alloc.node then some (.enone, kernel)
        else some (.enone, kernel.setProcess d
          { dest with messageQueue := dest.messageQueue ++ [queuedMsg] })

/-- `receive_message`.  Without a status it does not return: the active process
blocks and another one is entered. -/
def receiveMessage (kernel : Kernel) (buffer flags : Word) : Option (Option Status × Kernel) := do
  let (p, process) ← kernel.active
  match process.messageQueue with
  | queuedMsg :: messageQueue => do
      let kernel := kernel.setProcess p { process with messageQueue }
      let memory ← queuedMsg.store (kernel.memory kernel.cr3) buffer
      some (some .enone, kernel.setMemory kernel.cr3 memory)
  | [] =>
      if flags &&& ioOp = ioAsync then some (some .edoesntexist, kernel)
      else do
        let kernel := kernel.setProcess p
          { process with messageBuffer := buffer, state := .requesting }
        let kernel ← kernelAdvanceScheduler { kernel with activeProcess := none }
        some (none, kernel)

/-- The recipient a `send` with these flags means: a pid, or the owner of a port. -/
def sendRecipient (kernel : Kernel) (recipient flags : Word) : Word :=
  if flags &&& ioRecipientType = ioPort then kernel.kernelGetPortOwner recipient else recipient

/-- The error `send` finds in the flags or the port, before it sends. -/
def sendRefuses (kernel : Kernel) (recipient flags : Word) : Option Status :=
  if flags &&& ~~~(ioOp ||| ioRecipientType) ≠ 0 ∨
      ioMailbox.toNat ≤ (flags &&& ioRecipientType).toNat then some .einvalidarg
  else if flags &&& ioRecipientType = ioPort ∧ kernel.kernelGetPortOwner recipient = 0 then
    some .edoesntexist
  else none

/-- `send` of `syscalls.c`. -/
def send (kernel : Kernel) (recipient message flags : Word) (alloc : QueueAlloc) :
    Option (Status × Kernel) :=
  match kernel.sendRefuses recipient flags with
  | some status => some (status, kernel)
  | none => do
      let (status, kernel) ←
        kernel.kernelSendMessage (kernel.sendRecipient recipient flags) message
      if status = .ebusy then
        kernel.kernelQueueMessage (kernel.sendRecipient recipient flags) message alloc
      else some (status, kernel)

/-- `receive` of `syscalls.c`. -/
def receive (kernel : Kernel) (buffer flags : Word) : Option (Option Status × Kernel) :=
  kernel.receiveMessage buffer flags

/-! ### Interrupt handlers -/

/-- `kernel_register_interrupt_handler`; the trampoline pointer of the action is
what the block from `kmalloc` happens to hold. -/
def kernelRegisterInterruptHandler (kernel : Kernel) (interrupt handler userdata : Word)
    (trampoline : Word) (action node : Bool) : Option (Status × Kernel) :=
  if (kernel.interruptHandlers.avlGet interrupt.toInt).isSome then some (.eexists, kernel)
  else if !action then none
  else do
    let (_, process) ← kernel.active
    let interruptHandlers ← kernel.interruptHandlers.avlInsert node interrupt.toInt
      (some ⟨process.pid, handler, trampoline, userdata⟩)
    some (.enone, { kernel with interruptHandlers })

/-- `kernel_remove_interrupt_handler` -/
def kernelRemoveInterruptHandler (kernel : Kernel) (interrupt : Word) : Option (Status × Kernel) :=
  match kernel.interruptHandlers.avlGet interrupt.toInt with
  | none => some (.edoesntexist, kernel)
  | some _ => do
      let interruptHandlers ← kernel.interruptHandlers.avlRemove interrupt.toInt
      some (.enone, { kernel with interruptHandlers })

/-- The frame `kernel_execute_interrupt_handler` pushes: the signal's number, the
context, the process state, and the call of the handler. -/
def pushSignalFrame (interrupt : Word) (action : SignalAction) (process : Process)
    (memory : Memory) : Option (ProcessContext × Memory) := do
  let (ctx, memory) ← process.ctx.contextStackPushStruct memory (fun _ => [interrupt]) 1
  let siginfoPtr := ctx.getContextStack
  let (ctx, memory) ← ctx.contextStackPushStruct memory ProcessContext.toWords
    ProcessContext.sizeInWords
  let (ctx, memory) ← ctx.contextStackPush memory process.state.toWord
  ctx.contextCallFunc memory action.funcPtr action.trampolinePtr [action.userdata, siginfoPtr]

/-- `kernel_execute_interrupt_handler` -/
def kernelExecuteInterruptHandler (kernel : Kernel) (interrupt : Word) : Option (Status × Kernel) :=
  match kernel.interruptHandlers.avlGet interrupt.toInt with
  | none => some (.edoesntexist, kernel)
  | some action =>
      match kernel.lookup action.pid with
      | none => do
          let interruptHandlers ← kernel.interruptHandlers.avlRemove interrupt.toInt
          some (.edoesntexist, { kernel with interruptHandlers })
      | some p => do
          let process ← kernel.processes p
          let kernel := kernel.loadAddressSpace process.pageTable
          let (ctx, memory) ←
            pushSignalFrame interrupt action process (kernel.memory process.pageTable)
          let kernel := kernel.setMemory process.pageTable memory
          let kernel := kernel.setProcess p { process with ctx, state := .active }
          let kernel :=
            if process.state ≠ .active then kernel.enqueue p process.priority else kernel
          let (_, current) ← kernel.active
          some (.enone, kernel.loadAddressSpace current.pageTable)

/-- The context and the state `kernel_signal_return` finds on the stack. -/
def popSignalFrame (process : Process) (memory : Memory) : Option (ProcessContext × ProcessState) :=
  do
  let ctx := process.ctx.contextCleanupFunc 2
  let (ctx, state) ← ctx.contextStackPop memory
  let (_, words) ← ctx.contextStackPopStruct memory ProcessContext.sizeInWords
  some (ProcessContext.ofWords words, ProcessState.ofWord state)

/-- `kernel_signal_return`.  Without a status it does not return: a process is
entered. -/
def kernelSignalReturn (kernel : Kernel) : Option (Option Status × Kernel) := do
  let (p, process) ← kernel.active
  let (ctx, state) ← popSignalFrame process (kernel.memory kernel.cr3)
  let process := { process with ctx, state }
  let kernel := kernel.setProcess p process
  if process.state = .requesting then do
    let (_, kernel) ← kernel.receiveMessage process.messageBuffer 0
    let _ ← kernel.active
    some (none, kernel)
  else some (some .enone, kernel)

end Kernel
end QuarkKernel
