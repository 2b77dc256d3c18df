import QuarkKernel.BlockHeap
import QuarkKernel.KernelSteps
import QuarkKernel.NodeTree
import Mathlib.Data.Multiset.Bind

/-! # The kernel and its heap

`kernel.c` and `queue.c` again, with the blocks of the kernel heap: where the nodes of
the tables, the contexts, the queue nodes, the messages and the ports are, and which
blocks `kmalloc` has handed out.  What is in the blocks is in `kernel`; each function
here calls the one of `Kernel` for that, and does to the blocks what the source does.

What `kmalloc` answers is an argument of the call, `none` being NULL.  A `kfree` is checked
against what the structures lead to when it is called; for the one inside of `avl_remove`
that is what they lead to before the links above the freed node are stored. -/
namespace QuarkKernel

/-- `struct queue_node_t`: its block, and the message it leads to with that one's block. -/
structure QueueNode where
  node : Ptr
  ptr : Ptr
  message : Message
deriving DecidableEq, Repr

/-- The kernel, and the blocks of its heap. -/
structure HeapKernel where
  kernel : Kernel
  processTable : NodeTree Ptr Ptr
  portTable : NodeTree Ptr (Ptr × Port)
  ctx : Ptr → Ptr
  messageQueue : Ptr → List QueueNode
  heap : BlockHeap Ptr

/-- What the allocators answer to `kernel_spawn_process`. -/
structure SpawnBlocks where
  process : Option Ptr
  context : Option Ptr
  node : Option Ptr
  stackPage : Word
  stackBytes : Option (Word → BitVec 8)

/-- The answers without the blocks' addresses, but for that of the `process_t`. -/
def SpawnBlocks.toSpawnAlloc (alloc : SpawnBlocks) : SpawnAlloc where
  process := alloc.process
  context := alloc.context.isSome
  node := alloc.node.isSome
  stackPage := alloc.stackPage
  stackBytes := alloc.stackBytes

/-- What `kmalloc` answers to `kernel_queue_message`. -/
structure QueueBlocks where
  message : Option Ptr
  node : Option Ptr
deriving DecidableEq, Repr

/-- The answers without the blocks' addresses. -/
def QueueBlocks.toQueueAlloc (alloc : QueueBlocks) : QueueAlloc :=
  ⟨alloc.message.isSome, alloc.node.isSome⟩

namespace HeapKernel

/-! ### What refers to which blocks -/

/-- The blocks of a message queue: a node and a message for each that waits. -/
def queueBlocks (queue : List QueueNode) : Multiset Ptr :=
  (queue.flatMap fun entry => [entry.node, entry.ptr] : List Ptr)

/-- The blocks of a process: its `process_t`, its context, and its message queue. -/
def processBlocks (s : HeapKernel) (p : Ptr) : Multiset Ptr :=
  p ::ₘ s.ctx p ::ₘ queueBlocks (s.messageQueue p)

/-- All blocks the kernel's structures lead to: the nodes of the process table and the
blocks of each process in it, and the nodes and ports of the port table. -/
def references (s : HeapKernel) : Multiset Ptr :=
  s.processTable.nodes + s.processTable.values.bind s.processBlocks +
    (s.portTable.nodes + s.portTable.values.map Prod.fst)

/-! ### The heap -/

/-- `kmalloc`, when it provides the block `b`. -/
def kmalloc (s : HeapKernel) (b : Ptr) : HeapKernel := { s with heap := s.heap.alloc b }

/-- `kfree` -/
def kfree (s : HeapKernel) (b : Ptr) : HeapKernel :=
  { s with heap := s.heap.free s.references b }

/-! ### `queue.c` -/

/-- `queue_insert(&process->message_queue, message)`; every caller ignores the result. -/
def queueInsert (s : HeapKernel) (node : Option Ptr) (p ptr : Ptr) (message : Message) :
    HeapKernel :=
  match node with
  | none => s
  | some node =>
      let s := s.kmalloc node
      { s with
        messageQueue :=
          Function.update s.messageQueue p (s.messageQueue p ++ [⟨node, ptr, message⟩]) }

/-- `queue_get_next(&process->message_queue)` -/
def queueGetNext (s : HeapKernel) (p : Ptr) : Option Ptr × HeapKernel :=
  match s.messageQueue p with
  | [] => (none, s)
  | entry :: rest =>
      let s := { s with messageQueue := Function.update s.messageQueue p rest }
      (some entry.ptr, s.kfree entry.node)

/-! ### Processes -/

/-- `kernel.process_table = avl_insert(kernel.process_table, pid, process)` -/
def insertProcess (s : HeapKernel) (node : Option Ptr) (pid : Word) (p : Ptr) :
    Option HeapKernel := do
  let (processTable, new) ← s.processTable.avlInsert node pid.toInt (some p)
  some { (new.elim s s.kmalloc) with processTable }

/-- `kernel.process_table = avl_remove(kernel.process_table, pid)` -/
def removeProcess (s : HeapKernel) (pid : Word) : Option HeapKernel := do
  let linked := s.processTable.values.bind s.processBlocks +
    (s.portTable.nodes + s.portTable.values.map Prod.fst)
  let (processTable, heap) ← s.processTable.avlRemoveFreeing linked s.heap pid.toInt
  some { s with processTable, heap }

/-- `kernel_spawn_process` -/
def kernelSpawnProcess (s : HeapKernel) (programEntry : Word) (priority : Int)
    (addressSpace : Word) (alloc : SpawnBlocks) : Option (Word × HeapKernel) := do
  let (pid, kernel) ←
    s.kernel.kernelSpawnProcess programEntry priority addressSpace alloc.toSpawnAlloc
  match alloc.process with
  | none => some (pid, { s with kernel })
  | some p =>
      let t := { s with kernel }.kmalloc p
      match alloc.context with
      | none => some (pid, t)
      | some ctx =>
          let t := t.kmalloc ctx
          if alloc.stackPage.toNat % pageSize.toNat ≠ 0 then some (pid, t)
          else do
            let t := { t with
              ctx := Function.update t.ctx p ctx
              messageQueue := Function.update t.messageQueue p [] }
            let t ← t.insertProcess alloc.node s.kernel.nextPid p
            some (pid, t)

/-- The loop over `message_queue` in `kernel_terminate_process`, for at most `n` rounds. -/
def freeMessages (p : Ptr) : Nat → HeapKernel → HeapKernel
  | 0, s => s
  | n + 1, s =>
      match s.queueGetNext p with
      | (none, s) => s
      | (some msg, s) => freeMessages p n (s.kfree msg)

/-- `kernel_terminate_process` -/
def kernelTerminateProcess (s : HeapKernel) (processId : Word) : Option (Status × HeapKernel) := do
  let (status, kernel) ← s.kernel.kernelTerminateProcess processId
  let s := { s with kernel }
  match s.processTable.avlGet processId.toInt with
  | none => some (status, s)
  | some p => do
      let s ← s.removeProcess processId
      let s := freeMessages p (s.messageQueue p).length s
      some (status, (s.kfree (s.ctx p)).kfree p)

/-! ### Ports -/

/-- `kernel_create_port` -/
def kernelCreatePort (s : HeapKernel) (id : Word) (port node : Option Ptr) :
    Option (Status × HeapKernel) := do
  let (status, kernel) ← s.kernel.kernelCreatePort id port.isSome node.isSome
  if (s.portTable.avlGet id.toInt).isSome then some (status, { s with kernel })
  else do
    let port ← port
    let (_, process) ← s.kernel.active
    let t := { s with kernel }.kmalloc port
    let (portTable, new) ← t.portTable.avlInsert node id.toInt (some (port, ⟨id, process.pid⟩))
    some (status, { (new.elim t t.kmalloc) with portTable })

/-- `kernel.port_table = avl_remove(kernel.port_table, id)` -/
def erasePort (s : HeapKernel) (id : Word) : Option HeapKernel := do
  let linked := s.processTable.nodes + s.processTable.values.bind s.processBlocks +
    s.portTable.values.map Prod.fst
  let (portTable, heap) ← s.portTable.avlRemoveFreeing linked s.heap id.toInt
  some { s with portTable, heap }

/-- `kernel_remove_port` -/
def kernelRemovePort (s : HeapKernel) (id : Word) : Option (Status × HeapKernel) := do
  let (status, kernel) ← s.kernel.kernelRemovePort id
  let t := { s with kernel }
  match s.portTable.avlGet id.toInt with
  | none => some (status, t)
  | some (ptr, port) => do
      let (_, process) ← s.kernel.active
      if port.ownerPid ≠ process.pid then some (status, t)
      else do
        let t ← t.erasePort id
        some (status, t.kfree ptr)

/-! ### Messages -/

/-- `kernel_queue_message` -/
def kernelQueueMessage (s : HeapKernel) (recipient message : Word) (alloc : QueueBlocks) :
    Option (Status × HeapKernel) := do
  let (status, kernel) ← s.kernel.kernelQueueMessage recipient message alloc.toQueueAlloc
  let t := { s with kernel }
  match s.processTable.avlGet recipient.toInt, alloc.message with
  | some dest, some ptr => do
      let queuedMsg ← Message.load (s.kernel.memory s.kernel.cr3) message
      some (status, (t.kmalloc ptr).queueInsert alloc.node dest ptr queuedMsg)
  | _, _ => some (status, t)

/-- `receive_message` -/
def receiveMessage (s : HeapKernel) (buffer flags : Word) :
    Option (Option Status × HeapKernel) := do
  let (status, kernel) ← s.kernel.receiveMessage buffer flags
  let (p, _) ← s.kernel.active
  match { s with kernel }.queueGetNext p with
  | (none, t) => some (status, t)
  | (some queuedMsg, t) => some (status, t.kfree queuedMsg)

/-- `send` of `syscalls.c`. -/
def send (s : HeapKernel) (recipient message flags : Word) (alloc : QueueBlocks) :
    Option (Status × HeapKernel) :=
  match s.kernel.sendRefuses recipient flags with
  | some status => some (status, s)
  | none => do
      let recipient := s.kernel.sendRecipient recipient flags
      let (status, kernel) ← s.kernel.kernelSendMessage recipient message
      let t := { s with kernel }
      if status = .ebusy then t.kernelQueueMessage recipient message alloc else some (status, t)

/-! ### Runs -/

/-- What can happen next, with the blocks that `kmalloc` provides. -/
inductive Op where
  | programs (memory : Word → ByteMemory.Memory)
  | spawn (programEntry : Word) (priority : Int) (addressSpace : Word) (alloc : SpawnBlocks)
  | advance
  | storeContext (context : ProcessContext)
  | terminate (processId : Word)
  | send (recipient message flags : Word) (alloc : QueueBlocks)
  | receive (buffer flags : Word)
  | createPort (id : Word) (port node : Option Ptr)
  | removePort (id : Word)

/-- The step without the blocks. -/
def Op.toOp : Op → Kernel.Op
  | .programs memory => .programs memory
  | .spawn programEntry priority addressSpace alloc =>
      .spawn programEntry priority addressSpace alloc.toSpawnAlloc
  | .advance => .advance
  | .storeContext context => .storeContext context
  | .terminate processId => .terminate processId
  | .send recipient message flags alloc => .send recipient message flags alloc.toQueueAlloc
  | .receive buffer flags => .receive buffer flags
  | .createPort id port node => .createPort id port.isSome node.isSome
  | .removePort id => .removePort id

/-- The state after a step, if the kernel survives it. -/
def step (s : HeapKernel) : Op → Option HeapKernel
  | .programs memory => some { s with kernel := { s.kernel with memory } }
  | .spawn programEntry priority addressSpace alloc =>
      (s.kernelSpawnProcess programEntry priority addressSpace alloc).map (·.2)
  | .advance => s.kernel.kernelAdvanceScheduler.map fun kernel => { s with kernel }
  | .storeContext context =>
      (s.kernel.kernelStoreActiveContext context).map fun r => { s with kernel := r.2 }
  | .terminate processId => (s.kernelTerminateProcess processId).map (·.2)
  | .send recipient message flags alloc => (s.send recipient message flags alloc).map (·.2)
  | .receive buffer flags => (s.receiveMessage buffer flags).map (·.2)
  | .createPort id port node => (s.kernelCreatePort id port node).map (·.2)
  | .removePort id => (s.kernelRemovePort id).map (·.2)

/-- The port is there, and it is the active process's. -/
def closesPort (s : HeapKernel) (id : Word) : Bool :=
  (s.portTable.avlGet id.toInt).any fun entry =>
    s.kernel.active.any fun active => entry.2.ownerPid = active.2.pid

/-- The node without children that `avl_remove` frees in the step, if it frees one. -/
def leafFreed (s : HeapKernel) : Op → Multiset Ptr
  | .terminate processId => (s.processTable.leafFreed processId.toInt).toList
  | .removePort id => if s.closesPort id then (s.portTable.leafFreed id.toInt).toList else 0
  | _ => 0

/-- The kernel has just been initialized; what was allocated before is not counted. -/
def Boot (s : HeapKernel) : Prop :=
  s.kernel.Boot ∧ s.processTable = .nil ∧ s.portTable = .nil ∧ s.heap = .empty

def system : Transition.System HeapKernel Op := .ofStep Boot step

/-- The blocks that `kmalloc` provides during the step. -/
def Op.answers : Op → List (Option Ptr)
  | .spawn _ _ _ alloc => [alloc.process, alloc.context, alloc.node]
  | .send _ _ _ alloc => [alloc.message, alloc.node]
  | .createPort _ port node => [port, node]
  | _ => []

/-- Every allocation of the step succeeds. -/
def Op.allocates : Op → Bool
  | .spawn programEntry priority addressSpace alloc =>
      (Op.spawn programEntry priority addressSpace alloc).answers.all Option.isSome &&
        alloc.stackPage.toNat % pageSize.toNat = 0 && alloc.stackBytes.isSome
  | op => op.answers.all Option.isSome

/-- What is relied on: `kmalloc` provides blocks that are not live, each once. -/
def answersFresh (s : HeapKernel) (op : Op) : Prop :=
  op.answers.reduceOption.Nodup ∧ ∀ b ∈ op.answers.reduceOption, b ∉ s.heap.live

instance (s : HeapKernel) (op : Op) : Decidable (s.answersFresh op) :=
  inferInstanceAs (Decidable (_ ∧ _))

end HeapKernel
end QuarkKernel
