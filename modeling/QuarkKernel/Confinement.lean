import QuarkKernel.BlockSteps
import QuarkKernel.Delivery
import QuarkKernel.LoadedSpace
import QuarkKernel.SignalFrame
import QuarkKernel.UserSpace

/-! # The memory that `send` and `receive` touch

The kernel copies messages from and to the pointers it is given; it does not look
at what they point to.  What confines the copies is the loaded address space: each
byte that is read or written is one of the 32 bytes at a pointer which the process
passed, in a page that is present in the process's own address space.  Whether that
page is the process's or the kernel's is up to the pointer.

For the pointers of receives that blocked, which are used in another process's
call, a run records the pointers passed to `receive` (`recordBuffers`).

The `process_t` blocks are values here, outside of `memory`.  A message that is received
into one of them, or the frame of a signal on a stack that has been put there, changes
the pointer that the kernel has recorded.  The runs are those without such steps
(`Op.sparesKernel`), and in these the calls write nothing from `_kernel_start` on
(`KeepsKernelPart.step`). -/
namespace QuarkKernel

open ByteMemory

/-- The pointers each process passed to `receive`, the latest first. -/
abbrev Buffers := Ptr → List Word

namespace Kernel

/-- The page tables behind the memory of the kernel's address spaces. -/
def Shows (tables : PagedMemory) (k : Kernel) : Prop :=
  ∀ space addr, k.memory space addr = (tables.under (frameNumber space)).loadByte addr

/-- A new process has passed no pointers. -/
def recordBuffers (buffers : Buffers) (k : Kernel) (op : Op) (_ : Kernel) : Buffers :=
  match op with
  | .receive buffer _ =>
      match k.activeProcess with
      | some a => Function.update buffers a (buffer :: buffers a)
      | none => buffers
  | .spawn _ _ _ alloc =>
      match alloc.process with
      | some p => Function.update buffers p []
      | none => buffers
  | _ => buffers

/-- Every recorded `message_buffer` was passed to `receive` by its process. -/
def BuffersPassed (k : Kernel) (buffers : Buffers) : Prop :=
  ∀ p P, k.processes p = some P → P.messageBuffer ≠ 0 → P.messageBuffer ∈ buffers p

variable {k k' : Kernel} {tables : PagedMemory} {accesses : List Access}

/-- The bytes from `addr` on are below `_kernel_start`. -/
def BelowKernel (addr : Word) (size : Nat) : Prop := addr.toNat + size ≤ kernelStart.toNat

instance (addr : Word) (size : Nat) : Decidable (BelowKernel addr size) :=
  inferInstanceAs (Decidable (_ ≤ _))

/-- The buffers that processes wait with are below the kernel, or NULL. -/
def WaitsBelow (k : Kernel) : Prop :=
  ∀ p P, k.processes p = some P → BelowKernel P.messageBuffer Message.size

/-- The process that is to handle an interrupt. -/
def signalled (k : Kernel) (interrupt : Word) : Option Process := do
  let action ← k.interruptHandlers.avlGet interrupt.toInt
  let p ← k.lookup action.pid
  k.processes p

/-- The step is no receive into the kernel's part, and it puts no signal on a stack there. -/
def Op.sparesKernel (k : Kernel) : Op → Bool
  | .receive buffer _ => BelowKernel buffer Message.size
  | .executeHandler interrupt =>
      (k.signalled interrupt).all fun P => BelowKernel (P.ctx.getContextStack - 68) 68
  | _ => true

/-- From `_kernel_start` on, every address space shows the same. -/
def KeepsKernelPart (k k' : Kernel) : Prop :=
  ∀ space x, kernelStart ≤ x → k'.memory space x = k.memory space x

theorem KeepsKernelPart.of_eq (h : k'.memory = k.memory) : KeepsKernelPart k k' :=
  fun space x _ => by rw [h]

/-- Words are stored below the kernel, in one address space. -/
theorem KeepsKernelPart.store {space addr : Word} {words : List Word} {memory : Memory}
    (hbelow : BelowKernel addr (4 * words.length))
    (hstore : storeWords (k.memory space) addr words = some memory)
    (hmemory : k'.memory = Function.update k.memory space memory) : KeepsKernelPart k k' := by
  intro space' x hx
  rw [hmemory]
  by_cases hspace : space' = space
  · subst hspace
    rw [Function.update_self]
    rw [storeWords] at hstore
    split at hstore
    · obtain rfl := Option.some.inj hstore
      rw [BelowKernel] at hbelow
      rw [BitVec.le_def] at hx
      refine writeWords_of_le ?_
      rw [BitVec.toNat_sub]
      omega
    · cases hstore
  · rw [Function.update_of_ne hspace]

theorem KeepsKernelPart.storeMessage {space addr : Word} {message : Message} {memory : Memory}
    (hbelow : BelowKernel addr Message.size)
    (hstore : message.store (k.memory space) addr = some memory)
    (hmemory : k'.memory = Function.update k.memory space memory) : KeepsKernelPart k k' :=
  .store (by rwa [Message.length_toWords]) hstore hmemory

/-- The page of the stack ends at `_kernel_start`. -/
theorem KeepsKernelPart.spawn {programEntry addressSpace r : Word} {priority : Int}
    {alloc : SpawnAlloc}
    (h : k.kernelSpawnProcess programEntry priority addressSpace alloc = some (r, k')) :
    KeepsKernelPart k k' := by
  have hstack : KeepsKernelPart k ((alloc.stackBytes.map k.mapStack).getD k) := by
    cases alloc.stackBytes with
    | none => exact .of_eq rfl
    | some bytes =>
      intro space x hx
      show Function.update k.memory k.cr3 _ space x = _
      by_cases hspace : space = k.cr3
      · subst hspace
        rw [Function.update_self, if_neg]
        rw [BitVec.le_def, show kernelStart.toNat = 4282384384 from rfl] at hx
        rw [show pageSize.toNat = 4096 from rfl, show kernelStart.toNat = 4282384384 from rfl]
        omega
      · rw [Function.update_of_ne hspace]
  rw [kernelSpawnProcess] at h
  split at h
  · cases h
    exact .of_eq rfl
  · split at h
    · cases h
      exact .of_eq rfl
    · split at h
      · cases h
        exact .of_eq rfl
      · obtain ⟨table, -, h⟩ := Option.bind_eq_some_iff.mp h
        cases h
        exact hstack

/-- A direct send writes to the buffer that its recipient waits with. -/
theorem KeepsKernelPart.sendMessage {recipient message : Word} {r : Status}
    (hbelow : k.WaitsBelow)
    (h : k.kernelSendMessage recipient message = some (r, k')) : KeepsKernelPart k k' := by
  obtain ⟨-, -, rfl⟩ | ⟨-, -, -, -, -, -, rfl⟩ |
    ⟨d, D, a, A, m, memory, -, -, hD, -, -, -, hstore, rfl⟩ := sendMessage_cases h
  · exact .of_eq rfl
  · exact .of_eq rfl
  · exact .storeMessage (hbelow d D hD) hstore rfl

theorem KeepsKernelPart.receiveMessage {buffer flags : Word} {r : Option Status}
    (hbelow : BelowKernel buffer Message.size)
    (h : k.receiveMessage buffer flags = some (r, k')) : KeepsKernelPart k k' := by
  obtain ⟨a, A, -, ⟨m, queue, memory, -, hstore, -, rfl⟩ | ⟨-, -, -, rfl⟩ | ⟨-, -, -, hadv⟩⟩ :=
    receive_cases h
  · exact .storeMessage hbelow hstore rfl
  · exact .of_eq rfl
  · obtain ⟨p, P, queue, -, rfl, -⟩ := advance_cases hadv
    exact .of_eq rfl

/-- The frame of a signal goes below the stack pointer of the process. -/
theorem KeepsKernelPart.executeHandler {interrupt : Word} {r : Status}
    (hok : (Op.executeHandler interrupt).sparesKernel k = true)
    (h : k.kernelExecuteInterruptHandler interrupt = some (r, k')) : KeepsKernelPart k k' := by
  rw [kernelExecuteInterruptHandler] at h
  split at h
  · cases h
    exact .of_eq rfl
  · rename_i action haction
    split at h
    · obtain ⟨table, -, h⟩ := Option.bind_eq_some_iff.mp h
      cases h
      exact .of_eq rfl
    · rename_i p hp
      obtain ⟨P, hP, h⟩ := Option.bind_eq_some_iff.mp h
      obtain ⟨⟨ctx, memory⟩, hpush, h⟩ := Option.bind_eq_some_iff.mp h
      obtain ⟨⟨c, C⟩, -, h⟩ := Option.bind_eq_some_iff.mp h
      cases h
      have hpush : pushSignalFrame interrupt action P (k.memory P.pageTable) =
        some (ctx, memory) := hpush
      rw [pushSignalFrame_eq] at hpush
      obtain ⟨memory', hstore, heq⟩ := Option.map_eq_some_iff.mp hpush
      obtain ⟨-, rfl⟩ := Prod.mk.inj heq
      have hprocess : k.signalled interrupt = some P := by
        rw [signalled, haction, Option.bind_eq_bind, Option.bind_some, hp]
        exact hP
      rw [Op.sparesKernel, hprocess, Option.all_some, decide_eq_true_eq] at hok
      refine .store (by rw [length_signalFrame]; exact hok) hstore ?_
      show (if P.state ≠ .active then _ else _ : Kernel).memory = _
      split <;> rfl

/-- **The kernel's part.**  Where the buffers are below the kernel, no call writes anything
above. -/
theorem KeepsKernelPart.step {op : Op} (hw : k.WellFormed)
    (hbelow : k.WaitsBelow)
    (hop : ∀ memory, op ≠ .programs memory) (hok : op.sparesKernel k = true)
    (hst : k.step op = some k') : KeepsKernelPart k k' := by
  cases op with
  | programs memory => exact absurd rfl (hop memory)
  | spawn programEntry priority addressSpace alloc =>
    rw [Kernel.step] at hst
    split at hst
    · obtain ⟨⟨r, k1⟩, hk, rfl⟩ := Option.map_eq_some_iff.mp hst
      exact .spawn hk
    · cases hst
  | advance =>
    obtain ⟨p, P, queue, -, rfl, -⟩ := advance_cases hst
    exact .of_eq rfl
  | storeContext context =>
    obtain ⟨⟨r, k1⟩, hk, rfl⟩ := Option.map_eq_some_iff.mp hst
    obtain rfl | ⟨p, P, -, rfl⟩ := storeContext_cases hk <;> exact .of_eq rfl
  | terminate processId =>
    obtain ⟨⟨r, k1⟩, hk, rfl⟩ := Option.map_eq_some_iff.mp hst
    obtain ⟨-, -, rfl⟩ | ⟨p, P, table, queue, -, -, -, -, -, -, -, rfl⟩ :=
      terminate_cases hw.sending hk <;> exact .of_eq rfl
  | sendMessage recipient message =>
    obtain ⟨⟨r, k1⟩, hk, rfl⟩ := Option.map_eq_some_iff.mp hst
    exact .sendMessage hbelow hk
  | send recipient message flags alloc =>
    obtain ⟨⟨r, k1⟩, hk, rfl⟩ := Option.map_eq_some_iff.mp hst
    obtain ⟨-, rfl⟩ | ⟨-, -, hsent⟩ | ⟨-, -, hqueued⟩ := send_cases hk
    · exact .of_eq rfl
    · exact .sendMessage hbelow hsent
    · obtain ⟨-, -, rfl⟩ | ⟨-, -, rfl⟩ | ⟨-, -, -, -, -, -, -, -, -, rfl⟩ |
        ⟨d, D, a, A, m, -, -, -, -, -, -, rfl⟩ := queueMessage_cases hqueued
      all_goals exact .of_eq rfl
  | receive buffer flags =>
    obtain ⟨⟨r, k1⟩, hk, rfl⟩ := Option.map_eq_some_iff.mp hst
    exact .receiveMessage (of_decide_eq_true hok) hk
  | createPort id port node =>
    obtain ⟨⟨r, k1⟩, hk, rfl⟩ := Option.map_eq_some_iff.mp hst
    obtain rfl | ⟨-, -, table, -, -, -, rfl⟩ := createPort_cases hk <;> exact .of_eq rfl
  | removePort id =>
    obtain ⟨⟨r, k1⟩, hk, rfl⟩ := Option.map_eq_some_iff.mp hst
    obtain rfl | ⟨-, -, -, table, -, -, -, -, rfl⟩ := removePort_cases hk <;> exact .of_eq rfl
  | registerHandler interrupt handler userdata trampoline action node =>
    obtain ⟨⟨r, k1⟩, hk, rfl⟩ := Option.map_eq_some_iff.mp hst
    obtain ⟨table, rfl⟩ := registerHandler_cases hk
    exact .of_eq rfl
  | removeHandler interrupt =>
    obtain ⟨⟨r, k1⟩, hk, rfl⟩ := Option.map_eq_some_iff.mp hst
    obtain ⟨table, rfl⟩ := removeHandler_cases hk
    exact .of_eq rfl
  | executeHandler interrupt =>
    obtain ⟨⟨r, k1⟩, hk, rfl⟩ := Option.map_eq_some_iff.mp hst
    exact .executeHandler hok hk
  | signalReturn =>
    obtain ⟨⟨r, k1⟩, hk, rfl⟩ := Option.map_eq_some_iff.mp hst
    obtain ⟨a, A, ctx, state, ha, -, ⟨-, rfl⟩ | ⟨-, -, r', hreceive⟩⟩ := signalReturn_cases hk
    · exact .of_eq rfl
    · have hkeeps := KeepsKernelPart.receiveMessage (hbelow a A (active_eq_some.mp ha).2) hreceive
      exact hkeeps

theorem WaitsBelow.step {op : Op} (hw : k.WellFormed) (h : k.WaitsBelow)
    (hok : op.sparesKernel k = true) (hst : k.step op = some k') : k'.WaitsBelow := by
  have hnull : BelowKernel 0 Message.size := by decide
  intro p P' hP'
  have hblock := step_blockStep hw hst p
  rw [hP'] at hblock
  generalize hX : k.processes p = X at hblock
  generalize hY : some P' = Y at hblock
  cases hblock with
  | keeps => exact h p P' (hX.trans hY.symm)
  | ended P hop hlookup => cases hY
  | spawned | delivered =>
    obtain rfl := Option.some.inj hY
    exact hnull
  | blocked P hop hactive =>
    obtain rfl := Option.some.inj hY
    subst hop
    exact of_decide_eq_true hok
  | stored P | queued P | took P | interrupted P =>
    obtain rfl := Option.some.inj hY
    exact h p P hX
  | returned hop hactive hsame =>
    obtain rfl := Option.some.inj hY
    have hbuffer := h p _ hX
    rwa [← hsame.messageBuffer] at hbuffer

/-! ### The pointers in a run -/

/-- A pointer a live process has passed stays recorded. -/
theorem mem_recordBuffers {buffers : Buffers} {op : Op} {p : Ptr} {P : Process} {pointer : Word}
    (hst : k.step op = some k') (hP : k.processes p = some P) (hmem : pointer ∈ buffers p) :
    pointer ∈ recordBuffers buffers k op k' p := by
  cases op with
  | receive buffer flags =>
    rw [recordBuffers]
    cases k.activeProcess with
    | none => exact hmem
    | some a =>
      show pointer ∈ Function.update buffers a (buffer :: buffers a) p
      by_cases hpa : p = a
      · subst hpa
        rw [Function.update_self]
        exact List.mem_cons_of_mem _ hmem
      · rwa [Function.update_of_ne hpa]
  | spawn programEntry priority addressSpace alloc =>
    rw [recordBuffers]
    cases hq : alloc.process with
    | none => exact hmem
    | some q =>
      show pointer ∈ Function.update buffers q [] p
      -- the block of a live process is not handed out
      have hpq : p ≠ q := by
        rintro rfl
        rw [step] at hst
        split at hst
        · rename_i hfresh
          rw [processes_of_fresh hfresh hq] at hP
          cases hP
        · cases hst
      rwa [Function.update_of_ne hpq]
  | _ => exact hmem

theorem BuffersPassed.step {buffers : Buffers} {op : Op} (hw : k.WellFormed)
    (h : k.BuffersPassed buffers) (hst : k.step op = some k') :
    k'.BuffersPassed (recordBuffers buffers k op k') := by
  intro p P' hP' hbuffer
  have hblock := step_blockStep hw hst p
  have hkept : ∀ {P : Process}, k.processes p = some P → P'.messageBuffer = P.messageBuffer →
      P'.messageBuffer ∈ recordBuffers buffers k op k' p := by
    intro P hP heq
    exact mem_recordBuffers hst hP (heq ▸ h p P hP (heq ▸ hbuffer))
  rw [hP'] at hblock
  generalize hX : k.processes p = X at hblock
  generalize hY : some P' = Y at hblock
  cases hblock with
  | keeps => exact hkept (hX.trans hY.symm) rfl
  | spawned hop halloc =>
    obtain rfl := Option.some.inj hY
    exact absurd rfl hbuffer
  | ended P hop hlookup => cases hY
  | stored P hop hactive =>
    obtain rfl := Option.some.inj hY
    exact hkept hX rfl
  | delivered P hwait =>
    obtain rfl := Option.some.inj hY
    exact absurd rfl hbuffer
  | queued P message =>
    obtain rfl := Option.some.inj hY
    exact hkept hX rfl
  | took P hactive hqueue =>
    obtain rfl := Option.some.inj hY
    exact hkept hX rfl
  | blocked P hop hactive =>
    -- the pointer is that of this very call
    obtain rfl := Option.some.inj hY
    subst hop
    rw [recordBuffers, hactive]
    show (blocked P _).messageBuffer ∈ Function.update buffers p _ p
    rw [Function.update_self]
    exact List.mem_cons_self ..
  | interrupted P ctx hop haction hlookup =>
    obtain rfl := Option.some.inj hY
    exact hkept hX rfl
  | returned hop hactive hsame =>
    obtain rfl := Option.some.inj hY
    exact hkept hX hsame.messageBuffer

/-- The steps of the runs. -/
def sparesKernel (s : Kernel × Buffers) (op : Op) : Prop := op.sparesKernel s.1 = true

instance (s : Kernel × Buffers) (op : Op) : Decidable (sparesKernel s op) :=
  inferInstanceAs (Decidable (_ = true))

end Kernel
end QuarkKernel
