import QuarkKernel.HeapMapping
import QuarkKernel.TableInsertion

/-! # `kernel_spawn_process` and what it acquires

A spawn takes a block for the process, one for its context, a frame for its stack, perhaps
one for the table of that page, and a node of the process table.  It returns at the first
that is missing without giving back what it has, it does not look at what `map_page` and
`priorityqueue_insert` return, and it returns the pid even when that is 0.  So its result
can be relied on when there is no block for the process, or when there is everything
(`kernelSpawnProcess_atomic_iff`). -/
namespace QuarkKernel
open PagedMemory
open UserFrames (withFrame)

/-- The page below `_kernel_start`. -/
def stackPage : Word := kernelStart - pageSize

/-- `PAGE_PRESENT | PAGE_USERMODE | PAGE_RW` -/
def stackFlags : Word := pagePresent ||| pageUsermode ||| pageRw

/-- The part of `kernel_spawn_process` about the stack: the frame, and the bytes that are
in it if `map_page` has mapped it. -/
def Machine.spawnStack (m : Machine) : Option (Word × Option (Word → BitVec 8) × Machine) :=
  let (frame, pageMap) := m.pageMap.reservePage
  let m := { m with pageMap }
  if frame % pageSize ≠ 0 then some (frame, none, m)
  else do
    let (status, m) ← m.mapPage stackPage frame stackFlags
    let bytes := fun addr => (m.memory.ram (frameNumber frame)).byte (pageOffset addr)
    some (frame, if status = .enone then some bytes else none, m)

/-- The kernel with its heap, the page tables and the frames. -/
structure SpawnKernel where
  kernel : HeapKernel
  machine : Machine

/-- What `kmalloc` answers: for the `process_t`, for the context, and in `avl_new`. -/
structure ProcessBlocks where
  process : Option Ptr
  context : Option Ptr
  node : Option Ptr

namespace SpawnKernel

/-- `kernel_spawn_process` -/
def kernelSpawnProcess (s : SpawnKernel) (programEntry : Word) (priority : Int)
    (addressSpace : Word) (blocks : ProcessBlocks) : Option (Word × SpawnKernel) := do
  -- without both blocks it does not get to the stack
  let (frame, bytes, machine) ←
    (if blocks.process.isSome && blocks.context.isSome then s.machine.spawnStack
      else some (0, none, s.machine))
  let (pid, kernel) ← s.kernel.kernelSpawnProcess programEntry priority addressSpace
    ⟨blocks.process, blocks.context, blocks.node, frame, bytes⟩
  some (pid, ⟨kernel, machine⟩)

/-- Nothing has been acquired. -/
structure Unchanged (s s' : SpawnKernel) : Prop where
  processTable : s'.kernel.kernel.processTable = s.kernel.kernel.processTable
  ready : s'.kernel.kernel.ready = s.kernel.kernel.ready
  nextPid : s'.kernel.kernel.nextPid = s.kernel.kernel.nextPid
  heap : s'.kernel.heap.live = s.kernel.heap.live
  frames : ∀ f, f ∈ s'.machine.pageMap.reserved ↔ f ∈ s.machine.pageMap.reserved

/-- The process can be found and run, and it has a stack in its address space. -/
structure Spawned (s' : SpawnKernel) (pid addressSpace : Word) (process : Option Ptr) : Prop where
  running : ∃ p, process = some p ∧ s'.kernel.kernel.lookup pid = some p ∧
    p ∈ s'.kernel.kernel.ready
  stack : ∃ v, (s'.machine.memory.under (frameNumber addressSpace)).view stackPage = some v ∧
    v.rw = true ∧ v.usermode = true

/-- 0 is for nothing acquired, a pid for a process that has been spawned. -/
def Atomic (s s' : SpawnKernel) (pid addressSpace : Word) (process : Option Ptr) : Prop :=
  (pid = 0 → s.Unchanged s') ∧ (pid ≠ 0 → s'.Spawned pid addressSpace process)

/-- There is a table for the stack that user mode may use, or a second frame for one. -/
def StackTable (m : Machine) (g : Frame) : Prop :=
  if (m.memory.pde stackPage).present then (m.memory.pde stackPage).usermode = true
  else (withFrame m g).pageMap.next.isSome = true

/-- No block for the process, or everything else, a pid that is free and not 0, and room
in the ready queue. -/
def Provided (s : SpawnKernel) (blocks : ProcessBlocks) : Prop :=
  blocks.process = none ∨
    blocks.context.isSome = true ∧ (∃ g, s.machine.pageMap.next = some g ∧ StackTable s.machine g) ∧
      s.kernel.kernel.nextPid ≠ 0 ∧
      s.kernel.kernel.lookup s.kernel.kernel.nextPid = none ∧ s.kernel.kernel.HasRoom

/-- The tables are in use, and the process table is a table, the kernel's. -/
structure Consistent (s : SpawnKernel) : Prop where
  tables : TablesInUse s.machine
  processTable : s.kernel.processTable.erase id = s.kernel.kernel.processTable
  table : s.kernel.processTable.Table

end SpawnKernel

/-! ### The stack -/

/-- How the part about the stack ends: without a frame, without one for the table, or with
the page mapped. -/
inductive SpawnStack (m : Machine) : Word → Option (Word → BitVec 8) → Machine → Prop
  | noFrame (hnext : m.pageMap.next = none) :
      SpawnStack m Status.enomem.code none ⟨m.memory, ⟨m.pageMap.answers.tail, m.pageMap.reserved⟩⟩
  | noTable (g : Frame) (hnext : m.pageMap.next = some g)
      (hp : (m.memory.pde stackPage).present = false)
      (htable : (withFrame m g).pageMap.next = none) :
      SpawnStack m (frameAddress g) none
        ⟨m.memory, ⟨m.pageMap.answers.tail.tail, g :: m.pageMap.reserved⟩⟩
  | maps {m' : Machine} (g : Frame) (bytes : Word → BitVec 8) (hnext : m.pageMap.next = some g)
      (hcr3 : m'.memory.cr3 = m.memory.cr3)
      (htable : (m.memory.pde stackPage).present = true ∨ (withFrame m g).pageMap.next.isSome = true)
      (hmaps : MapsTo (withFrame m g) m' stackPage (frameAddress g) stackFlags) :
      SpawnStack m (frameAddress g) (some bytes) m'

section SpawnStack
variable {m m' : Machine} {frame : Word} {bytes : Option (Word → BitVec 8)}

theorem spawnStack_cases (h : TablesInUse m) (hcall : m.spawnStack = some (frame, bytes, m')) :
    SpawnStack m frame bytes m' := by
  have hpage : BelowWindow stackPage := by decide
  rcases Option.eq_none_or_eq_some m.pageMap.next with hnext | ⟨g, hnext⟩
  · rw [Machine.spawnStack, PageMap.reservePage_of_none hnext] at hcall
    obtain ⟨rfl, hrest⟩ := Prod.mk.inj (Option.some.inj hcall)
    obtain ⟨rfl, rfl⟩ := Prod.mk.inj hrest
    exact .noFrame hnext
  · have h' := h.withFrame hnext
    rw [Machine.spawnStack, PageMap.reservePage_of_some hnext] at hcall
    have hcall : (if frameAddress g % pageSize ≠ 0 then _ else Option.bind
      ((withFrame m g).mapPage stackPage (frameAddress g) stackFlags) _) = some (frame, bytes, m') :=
        hcall
    rw [if_neg (not_not.mpr (frameAddress_aligned g))] at hcall
    obtain ⟨⟨status, m1⟩, hmap, hcall⟩ := Option.bind_eq_some_iff.mp hcall
    obtain ⟨rfl, hrest⟩ := Prod.mk.inj (Option.some.inj hcall)
    obtain ⟨rfl, rfl⟩ := Prod.mk.inj hrest
    cases h'.tables.mapPage_cases hpage (fun f hf => h'.unused hf) hmap with
    | refuses ha => exact absurd (frameAddress_aligned g) ha
    | runsOut ha hp htable => exact .noTable g hnext hp htable
    | @maps m2 ha htable hself husable =>
      have hmaps : MapsTo (withFrame m g) _ stackPage (frameAddress g) stackFlags :=
        htable.mapsTo h'.tables hpage (fun f hf => h'.unused hf) husable
      cases htable with
      | old hp => exact .maps g _ hnext rfl (.inl hp) hmaps
      | new f hp hnew => exact .maps g _ hnext rfl (.inr (by rw [hnew]; rfl)) hmaps

end SpawnStack

/-! ### The kernel and its heap -/

namespace HeapKernel
variable {s s' : HeapKernel} {programEntry addressSpace pid : Word} {priority : Int} {p ctx : Ptr}
  {context node : Option Ptr} {stack : Word} {bytes : Option (Word → BitVec 8)}

/-- A spawn that gives up has lost its blocks. -/
theorem spawn_of_missing (hmissing : context = none ∨ stack.toNat % pageSize.toNat ≠ 0)
    (h : s.kernelSpawnProcess programEntry priority addressSpace
      ⟨some p, context, node, stack, bytes⟩ = some (pid, s')) :
    pid = 0 ∧ s.heap.live.card < s'.heap.live.card := by
  rw [HeapKernel.kernelSpawnProcess, Kernel.kernelSpawnProcess, SpawnBlocks.toSpawnAlloc] at h
  cases context with
  | none =>
    obtain ⟨rfl, rfl⟩ := Prod.mk.inj (Option.some.inj h)
    refine ⟨rfl, ?_⟩
    show s.heap.live.card < (p ::ₘ s.heap.live).card
    rw [Multiset.card_cons]
    omega
  | some ctx =>
    have hstack : stack.toNat % pageSize.toNat ≠ 0 := hmissing.resolve_left (Option.some_ne_none ctx)
    simp only [Option.isSome_some, Bool.not_true, Bool.false_eq_true, if_false, if_pos hstack,
      Option.bind_eq_bind, Option.bind_some] at h
    obtain ⟨rfl, rfl⟩ := Prod.mk.inj (Option.some.inj h)
    refine ⟨rfl, ?_⟩
    show s.heap.live.card < (ctx ::ₘ p ::ₘ s.heap.live).card
    rw [Multiset.card_cons, Multiset.card_cons]
    omega

/-- A spawn that has got so far enters the process. -/
theorem spawn_of_stack (hstack : stack.toNat % pageSize.toNat = 0)
    (h : s.kernelSpawnProcess programEntry priority addressSpace
      ⟨some p, some ctx, node, stack, bytes⟩ = some (pid, s')) :
    pid = s.kernel.nextPid ∧ s.heap.live.card < s'.heap.live.card ∧
      s'.kernel.ready = (s.kernel.enqueue p priority).ready ∧
      ∃ table, s.kernel.processTable.avlInsert node.isSome s.kernel.nextPid.toInt (some p) =
        some table ∧ s'.kernel.processTable = table := by
  have hstack : ¬ stack.toNat % pageSize.toNat ≠ 0 := not_not.mpr hstack
  obtain ⟨⟨pid', kernel⟩, hk, h⟩ := Option.bind_eq_some_iff.mp h
  simp only [if_neg hstack] at h
  obtain ⟨t, hins, h⟩ := Option.bind_eq_some_iff.mp h
  obtain ⟨rfl, rfl⟩ := Prod.mk.inj (Option.some.inj h)
  have hkernel := kernel_insertProcess hins
  rw [Kernel.kernelSpawnProcess, SpawnBlocks.toSpawnAlloc] at hk
  simp only [Option.isSome_some, Bool.not_true, Bool.false_eq_true, if_false, if_neg hstack] at hk
  obtain ⟨table, htable, hk⟩ := Option.bind_eq_some_iff.mp hk
  obtain ⟨rfl, rfl⟩ := Prod.mk.inj (Option.some.inj hk)
  have hlive : s.heap.live.card + 2 ≤ t.heap.live.card := by
    obtain ⟨⟨processTable, new⟩, -, ht⟩ := Option.bind_eq_some_iff.mp hins
    obtain rfl := Option.some.inj ht
    cases new with
    | none =>
      show _ ≤ (ctx ::ₘ p ::ₘ s.heap.live).card
      rw [Multiset.card_cons, Multiset.card_cons]
    | some n =>
      show _ ≤ (n ::ₘ ctx ::ₘ p ::ₘ s.heap.live).card
      rw [Multiset.card_cons, Multiset.card_cons, Multiset.card_cons]
      omega
  rw [hkernel]
  cases bytes with
  | none => exact ⟨rfl, by omega, rfl, table, htable, rfl⟩
  | some bytes => exact ⟨rfl, by omega, rfl, table, htable, rfl⟩

/-- A new pid takes a node. -/
theorem spawn_of_noNode (hstack : stack.toNat % pageSize.toNat = 0)
    (herase : s.processTable.erase id = s.kernel.processTable) (htable : s.processTable.Table)
    (hfree : s.kernel.lookup s.kernel.nextPid = none) :
    s.kernelSpawnProcess programEntry priority addressSpace
      ⟨some p, some ctx, none, stack, bytes⟩ = none := by
  rcases Option.eq_none_or_eq_some (s.kernelSpawnProcess programEntry priority addressSpace
    ⟨some p, some ctx, none, stack, bytes⟩) with hnone | ⟨⟨pid, s'⟩, hcall⟩
  · exact hnone
  · obtain ⟨-, -, -, table, hinsert, -⟩ := spawn_of_stack hstack hcall
    have hnode := NodeTree.avlInsert_erase id none s.processTable s.kernel.nextPid.toInt (some p)
    rw [herase] at hnode
    have hinsert : s.kernel.processTable.avlInsert (none : Option Ptr).isSome
      s.kernel.nextPid.toInt ((some p).map id) = some table := hinsert
    rw [hinsert] at hnode
    obtain ⟨result, hresult, -⟩ := Option.map_eq_some_iff.mp hnode.symm
    have hget : s.processTable.avlGet s.kernel.nextPid.toInt = none := by
      rw [Kernel.lookup, ← herase, NodeTree.avlGet_erase] at hfree
      exact Option.map_eq_none_iff.mp hfree
    obtain ⟨hsome, -⟩ := (htable.avlInsert_isSome_iff hget).mp (by rw [hresult]; rfl)
    cases hsome

end HeapKernel

/-! ### What a spawn comes to -/

namespace SpawnKernel
variable {s s' : SpawnKernel} {programEntry addressSpace pid : Word} {priority : Int}
  {process node : Option Ptr} {p ctx : Ptr} {g : Frame}

/-- The process table is a table. -/
theorem Consistent.kernelTable (h : s.Consistent) : s.kernel.kernel.processTable.Table := by
  rw [← h.processTable]
  exact h.table

/-- 0 is returned and blocks have been lost. -/
theorem not_atomic_of_lost (hpid : pid = 0)
    (hlost : s.kernel.heap.live.card < s'.kernel.heap.live.card) :
    ¬ s.Atomic s' pid addressSpace process := by
  rintro ⟨hzero, -⟩
  rw [(hzero hpid).heap] at hlost
  exact absurd hlost (Nat.lt_irrefl _)

/-- The loaded address space is that of the process. -/
theorem under_current {m m' : Machine} (hcr3 : m'.memory.cr3 = m.memory.cr3) :
    m'.memory.under (frameNumber (frameAddress m.memory.cr3)) = m'.memory := by
  rw [frameNumber_frameAddress, ← hcr3]
  rfl

/-- What a process that has been entered can be found under. -/
theorem lookup_spawned {kernel : HeapKernel} (h : s.Consistent) {table : AvlTree Ptr} {node : Bool}
    (hinsert : s.kernel.kernel.processTable.avlInsert node s.kernel.kernel.nextPid.toInt (some p) =
      some table) (htable : kernel.kernel.processTable = table) :
    kernel.kernel.lookup s.kernel.kernel.nextPid =
      some ((s.kernel.kernel.lookup s.kernel.kernel.nextPid).getD p) := by
  rw [Kernel.lookup, htable, AvlTree.avlGet_avlInsert h.kernelTable.search hinsert, if_pos rfl,
    h.kernelTable.contents_eq]
  show Option.getD ((s.kernel.kernel.lookup _).map some) (some p) = _
  cases s.kernel.kernel.lookup s.kernel.kernel.nextPid <;> rfl

/-- The stack that has been mapped is one for user mode, if the table is. -/
theorem stack_of_mapsTo {m m' : Machine} {g : Frame} (hcr3 : m'.memory.cr3 = m.memory.cr3)
    (hmaps : MapsTo (withFrame m g) m' stackPage (frameAddress g) stackFlags) :
    (∃ v, (m'.memory.under (frameNumber (frameAddress m.memory.cr3))).view stackPage = some v ∧
      v.rw = true ∧ v.usermode = true) ↔
        ((m.memory.pde stackPage).present = true → (m.memory.pde stackPage).usermode = true) := by
  have hview := hmaps.maps stackPage rfl
  have hpde : (withFrame m g).memory.pde stackPage = m.memory.pde stackPage := rfl
  have hrw : hasFlag stackFlags pageRw = true := by decide
  have huser : hasFlag stackFlags pageUsermode = true := by decide
  rw [hpde, hrw, huser, Bool.and_true] at hview
  rw [under_current hcr3, hview]
  constructor
  · rintro ⟨v, hv, -, hv'⟩ hp
    rw [← Option.some.inj hv, hp] at hv'
    exact hv'
  · intro hu
    refine ⟨_, rfl, rfl, ?_⟩
    cases hp : (m.memory.pde stackPage).present with
    | false => rfl
    | true => exact hu hp

/-- There is no frame for the table of the stack, and nobody notices. -/
theorem not_atomic_of_noTable {kernel : HeapKernel} {pageMap : PageMap}
    (haddress : addressSpace = frameAddress s.machine.memory.cr3)
    (hp : (s.machine.memory.pde stackPage).present = false)
    (hspawn : s.kernel.kernelSpawnProcess programEntry priority addressSpace
      ⟨some p, some ctx, node, frameAddress g, none⟩ = some (pid, kernel)) :
    ¬ s.Atomic ⟨kernel, ⟨s.machine.memory, pageMap⟩⟩ pid addressSpace (some p) := by
  obtain ⟨rfl, hlost, -⟩ :=
    HeapKernel.spawn_of_stack (aligned_iff.mp (frameAddress_aligned g)) hspawn
  intro hatomic
  by_cases hzero : s.kernel.kernel.nextPid = 0
  · exact not_atomic_of_lost hzero hlost hatomic
  · obtain ⟨v, hv, -⟩ := (hatomic.2 hzero).stack
    have hunder : s.machine.memory.under (frameNumber addressSpace) = s.machine.memory := by
      rw [haddress]
      exact under_current rfl
    have hview : (s.machine.memory.under (frameNumber addressSpace)).view stackPage = some v := hv
    rw [hunder, view_of_absent fun hpresent => by rw [hp] at hpresent; cases hpresent.1] at hview
    cases hview

/-- The process has a stack, if the table is one for user mode. -/
theorem atomic_iff_of_maps {kernel : HeapKernel} {machine : Machine} {bytes : Word → BitVec 8}
    (h : s.Consistent) (haddress : addressSpace = frameAddress s.machine.memory.cr3)
    (hunused : (∀ pid, s.kernel.kernel.lookup pid ≠ some p) ∧ p ∉ s.kernel.kernel.ready)
    (hcr3 : machine.memory.cr3 = s.machine.memory.cr3)
    (htable : (s.machine.memory.pde stackPage).present = true ∨
      (withFrame s.machine g).pageMap.next.isSome = true)
    (hmaps : MapsTo (withFrame s.machine g) machine stackPage (frameAddress g) stackFlags)
    (hspawn : s.kernel.kernelSpawnProcess programEntry priority addressSpace
      ⟨some p, some ctx, node, frameAddress g, some bytes⟩ = some (pid, kernel)) :
    s.Atomic ⟨kernel, machine⟩ pid addressSpace (some p) ↔
      StackTable s.machine g ∧ s.kernel.kernel.nextPid ≠ 0 ∧
        s.kernel.kernel.lookup s.kernel.kernel.nextPid = none ∧ s.kernel.kernel.HasRoom := by
  obtain ⟨rfl, hlost, hready, table, hinsert, hnew⟩ :=
    HeapKernel.spawn_of_stack (aligned_iff.mp (frameAddress_aligned g)) hspawn
  have hlookup := lookup_spawned h hinsert hnew
  have hstack := stack_of_mapsTo hcr3 hmaps
  rw [← haddress] at hstack
  constructor
  · intro hatomic
    have hpid : s.kernel.kernel.nextPid ≠ 0 := fun hzero => not_atomic_of_lost hzero hlost hatomic
    obtain ⟨⟨q, hq, hfound, hmem⟩, hview⟩ := hatomic.2 hpid
    obtain rfl := Option.some.inj hq
    refine ⟨?_, hpid, ?_, ?_⟩
    · rw [StackTable]
      cases hp : (s.machine.memory.pde stackPage).present with
      | true => exact hstack.mp hview hp
      | false => exact htable.resolve_left (by rw [hp]; exact Bool.false_ne_true)
    · -- a pid that is bound keeps the process it had
      have hfound : kernel.kernel.lookup s.kernel.kernel.nextPid = some p := hfound
      rw [hlookup] at hfound
      cases hold : s.kernel.kernel.lookup s.kernel.kernel.nextPid with
      | none => rfl
      | some q =>
        rw [hold] at hfound
        exact absurd (hold.trans hfound) (hunused.1 _)
    · by_contra hroom
      have hmem : p ∈ kernel.kernel.ready := hmem
      rw [hready, Kernel.enqueue_of_full hroom] at hmem
      exact hunused.2 hmem
  · rintro ⟨hst, hpid, hfree, hroom⟩
    refine ⟨fun hzero => absurd hzero hpid, fun _ => ⟨⟨p, rfl, ?_, ?_⟩, ?_⟩⟩
    · show kernel.kernel.lookup s.kernel.kernel.nextPid = some p
      rw [hlookup, hfree]
      rfl
    · show p ∈ kernel.kernel.ready
      rw [hready, Kernel.ready_enqueue hroom]
      exact Multiset.mem_cons_self ..
    · refine hstack.mpr fun hp => ?_
      rwa [StackTable, if_pos hp] at hst

/-- Without a node for a new pid the call does not return. -/
theorem Consistent.kernelSpawnProcess_of_noNode (h : s.Consistent)
    (hnext : s.machine.pageMap.next.isSome = true)
    (hfree : s.kernel.kernel.lookup s.kernel.kernel.nextPid = none) :
    s.kernelSpawnProcess programEntry priority addressSpace ⟨some p, some ctx, none⟩ = none := by
  rcases Option.eq_none_or_eq_some (s.kernelSpawnProcess programEntry priority addressSpace
    ⟨some p, some ctx, none⟩) with hnone | ⟨⟨pid, s'⟩, hcall⟩
  · exact hnone
  · obtain ⟨⟨frame, bytes, machine⟩, hstack, hcall⟩ := Option.bind_eq_some_iff.mp hcall
    obtain ⟨⟨pid', kernel⟩, hspawn, -⟩ := Option.bind_eq_some_iff.mp hcall
    have hframe : frame.toNat % pageSize.toNat = 0 := by
      cases spawnStack_cases h.tables hstack with
      | noFrame hnone =>
        rw [hnone] at hnext
        cases hnext
      | noTable g => exact aligned_iff.mp (frameAddress_aligned g)
      | maps g => exact aligned_iff.mp (frameAddress_aligned g)
    rw [HeapKernel.spawn_of_noNode hframe h.processTable h.table hfree] at hspawn
    cases hspawn

/-- **Spawns.**  When the call returns, its result can be relied on exactly when there is
no block for the process, or when it has got all that it takes.  It does not return
without a node for a new pid. -/
theorem kernelSpawnProcess_atomic_iff (h : s.Consistent) (blocks : ProcessBlocks)
    (haddress : addressSpace = frameAddress s.machine.memory.cr3)
    (hunused : ∀ p, blocks.process = some p →
      (∀ pid, s.kernel.kernel.lookup pid ≠ some p) ∧ p ∉ s.kernel.kernel.ready) :
    (∀ pid s', s.kernelSpawnProcess programEntry priority addressSpace blocks = some (pid, s') →
      (s.Atomic s' pid addressSpace blocks.process ↔ s.Provided blocks)) ∧
    (blocks.process.isSome = true → blocks.context.isSome = true → blocks.node = none →
      s.machine.pageMap.next.isSome = true →
      s.kernel.kernel.lookup s.kernel.kernel.nextPid = none →
      s.kernelSpawnProcess programEntry priority addressSpace blocks = none) := by
  obtain ⟨process, context, node⟩ := blocks
  constructor
  · intro pid s' hcall
    obtain ⟨⟨frame, bytes, machine⟩, hstack, hcall⟩ := Option.bind_eq_some_iff.mp hcall
    obtain ⟨⟨pid', kernel⟩, hspawn, hcall⟩ := Option.bind_eq_some_iff.mp hcall
    obtain ⟨rfl, rfl⟩ := Prod.mk.inj (Option.some.inj hcall)
    rw [Provided]
    cases process with
    | none =>
      obtain ⟨rfl, rfl⟩ := Prod.mk.inj (Option.some.inj hspawn)
      obtain ⟨hframe, hrest⟩ := Prod.mk.inj (Option.some.inj hstack)
      obtain ⟨hbytes, rfl⟩ := Prod.mk.inj hrest
      exact iff_of_true ⟨fun _ => ⟨rfl, rfl, rfl, rfl, fun _ => Iff.rfl⟩, fun hne => absurd rfl hne⟩
        (.inl rfl)
    | some p =>
      rw [or_iff_right nofun]
      cases context with
      | none =>
        obtain ⟨hpid, hlost⟩ := HeapKernel.spawn_of_missing (.inl rfl) hspawn
        refine iff_of_false (not_atomic_of_lost hpid hlost) ?_
        rintro ⟨hcontext, -⟩
        cases hcontext
      | some ctx =>
        have hcontext : (⟨some p, some ctx, node⟩ : ProcessBlocks).context.isSome = true := rfl
        rw [and_iff_right hcontext]
        cases spawnStack_cases h.tables hstack with
        | noFrame hnext =>
          obtain ⟨hpid, hlost⟩ := HeapKernel.spawn_of_missing (.inr (by decide)) hspawn
          refine iff_of_false (not_atomic_of_lost hpid hlost) ?_
          rintro ⟨⟨g, hg, -⟩, -⟩
          rw [hnext] at hg
          cases hg
        | noTable g hnext hp htable =>
          refine iff_of_false (not_atomic_of_noTable haddress hp hspawn) ?_
          rintro ⟨⟨g', hg', hst⟩, -⟩
          obtain rfl := Option.some.inj (hnext.symm.trans hg')
          rw [StackTable, hp, if_neg Bool.false_ne_true, htable] at hst
          cases hst
        | maps g bytes hnext hcr3 htable hmaps =>
          rw [atomic_iff_of_maps h haddress (hunused p rfl) hcr3 htable hmaps hspawn]
          refine and_congr_left fun _ => ⟨fun hst => ⟨g, hnext, hst⟩, ?_⟩
          rintro ⟨g', hg', hst⟩
          obtain rfl := Option.some.inj (hnext.symm.trans hg')
          exact hst
  · intro hprocess hcontext hnode hnext hfree
    obtain ⟨p, rfl⟩ := Option.isSome_iff_exists.mp hprocess
    obtain ⟨ctx, rfl⟩ := Option.isSome_iff_exists.mp hcontext
    obtain rfl : node = none := hnode
    exact h.kernelSpawnProcess_of_noNode hnext hfree

/-- The parts of a call. -/
theorem kernelSpawnProcess_of_parts {frame : Word} {bytes : Option (Word → BitVec 8)}
    {machine : Machine} {kernel : HeapKernel}
    (hstack : s.machine.spawnStack = some (frame, bytes, machine))
    (hspawn : s.kernel.kernelSpawnProcess programEntry priority addressSpace
      ⟨some p, some ctx, node, frame, bytes⟩ = some (pid, kernel)) :
    s.kernelSpawnProcess programEntry priority addressSpace ⟨some p, some ctx, node⟩ =
      some (pid, ⟨kernel, machine⟩) := by
  show Option.bind s.machine.spawnStack _ = _
  rw [hstack]
  show Option.bind (s.kernel.kernelSpawnProcess programEntry priority addressSpace
    ⟨some p, some ctx, node, frame, bytes⟩) _ = _
  rw [hspawn]
  rfl

/-! ### The first process -/

/-- A kernel without processes, whose tables have no pages; there are two frames. -/
def noProcess : SpawnKernel := ⟨.bare, emptyTable [some 4, some 5]⟩

theorem consistent_noProcess : noProcess.Consistent where
  tables := tablesInUse_emptyTable _ (by decide) (by decide)
  processTable := rfl
  table := .nil

theorem unused_noProcess (p : Ptr) :
    (∀ pid, noProcess.kernel.kernel.lookup pid ≠ some p) ∧ p ∉ noProcess.kernel.kernel.ready :=
  ⟨fun _ => nofun, Multiset.notMem_zero p⟩

theorem spawnStack_of_mapPage {m m' : Machine} (hnext : m.pageMap.next = some g)
    (hmap : (withFrame m g).mapPage stackPage (frameAddress g) stackFlags = some (.enone, m')) :
    ∃ bytes, m.spawnStack = some (frameAddress g, some bytes, m') := by
  refine ⟨fun addr => (m'.memory.ram (frameNumber (frameAddress g))).byte (pageOffset addr), ?_⟩
  rw [Machine.spawnStack, PageMap.reservePage_of_some hnext]
  show (if frameAddress g % pageSize ≠ 0 then _ else Option.bind
    ((withFrame m g).mapPage stackPage (frameAddress g) stackFlags) _) = _
  rw [if_neg (not_not.mpr (frameAddress_aligned g)), hmap]
  rfl

theorem spawnStack_noProcess :
    ∃ bytes m', noProcess.machine.spawnStack = some (frameAddress 4, some bytes, m') := by
  have hmap : (withFrame noProcess.machine 4).mapPage stackPage (frameAddress 4) stackFlags = _ :=
    Machine.mapPage_of_some pageTree_emptyMemory.self (by decide) (frameAddress_aligned 4)
      (show (emptyMemory.pde stackPage).present = false by decide)
      (show (withFrame noProcess.machine 4).pageMap.next = some 5 from rfl) (by decide)
  obtain ⟨bytes, hstack⟩ := spawnStack_of_mapPage (show _ = some 4 from rfl) hmap
  exact ⟨bytes, _, hstack⟩

theorem spawn_boot {s : HeapKernel} (h : s.Boot) (programEntry addressSpace : Word) (g : Frame)
    (bytes : Word → BitVec 8) : ∃ kernel, s.kernelSpawnProcess programEntry 1 addressSpace
      ⟨some 10, some 11, some 12, frameAddress g, some bytes⟩ = some (1, kernel) := by
  have ha : (frameAddress g).toNat % pageSize.toNat = 0 := aligned_iff.mp (frameAddress_aligned g)
  have hkernel : ∃ kernel, s.kernel.kernelSpawnProcess programEntry 1 addressSpace
      ⟨some 10, true, true, frameAddress g, some bytes⟩ = some (1, kernel) := by
    obtain ⟨⟨heap, cr3, memory, hboot⟩, -⟩ := h
    rw [hboot, Kernel.kernelSpawnProcess]
    simp only [Bool.not_true, Bool.false_eq_true, if_false]
    rw [if_neg (not_not.mpr ha)]
    exact ⟨_, rfl⟩
  obtain ⟨kernel, hk⟩ := hkernel
  exact HeapKernel.exists_spawnProcess (.boot h) ha hk

/-- There is all that the first process takes. -/
theorem provided_noProcess : noProcess.Provided ⟨some 10, some 11, some 12⟩ := by
  refine .inr ⟨rfl, ⟨4, rfl, ?_⟩, by decide, rfl, by decide⟩
  have habsent : (emptyMemory.pde stackPage).present = false := by decide
  show if (emptyMemory.pde stackPage).present = true then _ else _
  rw [habsent, if_neg (by decide)]
  rfl

/-- With everything, the process gets the pid 1, and there is nothing that it lacks. -/
theorem kernelSpawnProcess_atomic_iff_noProcess :
    (∃ s', noProcess.kernelSpawnProcess 0x8000 1 0x1000 ⟨some 10, some 11, some 12⟩ = some (1, s') ∧
      noProcess.Atomic s' 1 0x1000 (some 10)) ∧
    noProcess.kernelSpawnProcess 0x8000 1 0x1000 ⟨some 10, some 11, none⟩ = none := by
  have hunused : ∀ (process : Option Ptr) p, process = some p →
      (∀ pid, noProcess.kernel.kernel.lookup pid ≠ some p) ∧ p ∉ noProcess.kernel.kernel.ready :=
    fun _ p _ => unused_noProcess p
  constructor
  · obtain ⟨bytes, machine, hstack⟩ := spawnStack_noProcess
    obtain ⟨kernel, hspawn⟩ := spawn_boot HeapKernel.boot_bare 0x8000 0x1000 4 bytes
    have hcall : noProcess.kernelSpawnProcess 0x8000 1 0x1000 ⟨some 10, some 11, some 12⟩ =
        some (1, ⟨kernel, machine⟩) := kernelSpawnProcess_of_parts hstack hspawn
    have hiff := (kernelSpawnProcess_atomic_iff consistent_noProcess
      ⟨some 10, some 11, some 12⟩ (by decide) (hunused _)).1 _ _ hcall
    exact ⟨_, hcall, hiff.mpr provided_noProcess⟩
  · exact (kernelSpawnProcess_atomic_iff consistent_noProcess ⟨some 10, some 11, none⟩
      (by decide) (hunused _)).2 rfl rfl rfl rfl rfl

/-- Without a block for the context, the block for the process is lost. -/
theorem not_atomic_noProcess :
    ¬ ∀ (s s' : SpawnKernel) (programEntry : Word) (priority : Int) (addressSpace pid : Word)
      (blocks : ProcessBlocks), s.Consistent →
      addressSpace = frameAddress s.machine.memory.cr3 →
      (∀ p, blocks.process = some p →
        (∀ pid, s.kernel.kernel.lookup pid ≠ some p) ∧ p ∉ s.kernel.kernel.ready) →
      s.kernelSpawnProcess programEntry priority addressSpace blocks = some (pid, s') →
      s.Atomic s' pid addressSpace blocks.process := by
  intro hall
  have hcall : noProcess.kernelSpawnProcess 0x8000 1 0x1000 ⟨some 10, none, none⟩ =
      some (0, ⟨HeapKernel.bare.kmalloc 10, noProcess.machine⟩) := rfl
  have hatomic := hall _ _ _ _ _ _ _ consistent_noProcess (by decide)
    (fun p _ => unused_noProcess p) hcall
  exact not_atomic_of_lost rfl (by decide) hatomic

end SpawnKernel
end QuarkKernel
