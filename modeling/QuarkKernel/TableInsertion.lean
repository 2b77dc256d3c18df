import QuarkKernel.AvlRotations
import QuarkKernel.HeapRuns

/-! # New entries and `kmalloc`

`kernel_create_port` and `kernel_register_interrupt_handler` do the same: they refuse an
id that is bound, allocate a block for what is bound to it, fill it in, and insert it
into the table, which allocates a node.  Neither of the two blocks is compared with NULL
before it is written to.  So a new entry takes both allocations, and where the rotations
of the table find their pivots it takes no more (`newEntry_of_provided`). -/
namespace QuarkKernel

/-! ### Insertion with and without a node -/

namespace NodeTree
variable {Block α β : Type} {t t' : NodeTree Block α} {kmalloc new : Option Block} {key : Int}
  {v : α}

/-- The keys and heights of the tree let the rotations find their pivots when the key comes
in. -/
def Insertable (t : NodeTree Block α) (key : Int) : Prop :=
  ((t.erase fun _ => ()).avlInsert true key (some ())).isSome = true

instance (t : NodeTree Block α) (key : Int) : Decidable (t.Insertable key) :=
  inferInstanceAs (Decidable (_ = true))

/-- A new key takes a node, and then it is up to the rotations. -/
theorem Table.avlInsert_isSome_iff (ht : t.Table) (hfree : t.avlGet key = none) :
    (t.avlInsert kmalloc key (some v)).isSome = true ↔
      kmalloc.isSome = true ∧ t.Insertable key := by
  have hshape : ((t.erase fun _ => ()).avlInsert kmalloc.isSome key (some ())).isSome =
      (t.avlInsert kmalloc key (some v)).isSome := by
    rw [show some () = (some v).map fun _ => () from rfl, avlInsert_erase, Option.isSome_map]
  cases kmalloc with
  | none =>
    refine iff_of_false (fun hsome => ?_) (by rintro ⟨hnode, -⟩; cases hnode)
    obtain ⟨⟨t', new⟩, hins⟩ := Option.isSome_iff_exists.mp hsome
    obtain ⟨b, hb, -⟩ := ht.insert_entry hfree hins
    cases hb
  | some block => rw [← hshape, Insertable, Option.isSome_some, eq_self, true_and]

/-- Insertion under a key that is free. -/
theorem Table.avlGet_avlInsert (ht : t.Table) (hfree : t.avlGet key = none)
    (h : t.avlInsert kmalloc key (some v) = some (t', new)) (key' : Int) :
    t'.avlGet key' = if key' = key then some v else t.avlGet key' := by
  have hget : ∀ (u : NodeTree Block α) k, (u.erase id).avlGet k = u.avlGet k := by
    intro u k
    rw [avlGet_erase, Option.map_id]
    rfl
  have hnew := AvlTree.Table.avlGet_avlInsert ht (erase_avlInsert id h)
    ((hget t key).trans hfree) key'
  rw [hget, hget] at hnew
  exact hnew

/-- Where no stored height is too small, it is enough that `keepsPivots` finds none that is
too large next to a missing child. -/
theorem Table.insertable (ht : t.Table) (hcovered : (t.erase id).Covered)
    (hfree : t.avlGet key = none) (hok : (t.erase id).keepsPivots key = true) (b : Block) (v : α) :
    t.Insertable key := by
  obtain ⟨tree, htree, -⟩ := AvlTree.avlInsert_covered ht.search hcovered (some v) hok
  obtain ⟨t', new, hins⟩ := HeapKernel.exists_avlInsert id (b := b) htree
  exact ((ht.avlInsert_isSome_iff hfree).mp (by rw [hins]; rfl)).2

end NodeTree

/-! ### Tables with their blocks -/

/-- A table of the kernel, each of whose values has a block, and the heap. -/
structure BlockTable (α : Type) where
  table : NodeTree Ptr (Ptr × α)
  heap : BlockHeap Ptr

namespace BlockTable
variable {α : Type}

/-- Bind `value`, which the caller has read, to `key`. -/
def newEntry (t : BlockTable α) (key : Int) (value : Option α) (block node : Option Ptr) :
    Option (Status × BlockTable α) :=
  if (t.table.avlGet key).isSome then some (.eexists, t)
  else do
    let block ← block
    let value ← value
    let heap := t.heap.alloc block
    let (table, new) ← t.table.avlInsert node key (some (block, value))
    some (.enone, ⟨table, new.elim heap heap.alloc⟩)

/-- Exactly one new binding, and both blocks are in use. -/
structure Adds (t t' : BlockTable α) (key : Int) (value : Option α) (block node : Option Ptr) :
    Prop where
  free : t.table.avlGet key = none
  bound : ∃ b n v, block = some b ∧ node = some n ∧ value = some v ∧
    t'.table.avlGet key = some (b, v) ∧ t'.heap = (t.heap.alloc b).alloc n
  others : ∀ key', key' ≠ key → t'.table.avlGet key' = t.table.avlGet key'

/-- The call returns, with one new binding or with an error and nothing changed. -/
def AddsOrRefuses (t : BlockTable α) (key : Int) (value : Option α) (block node : Option Ptr)
    (result : Option (Status × BlockTable α)) : Prop :=
  ∃ status t', result = some (status, t') ∧
    (status = .enone ∧ t.Adds t' key value block node ∨ status ≠ .enone ∧ t' = t)

variable {t : BlockTable α} {key : Int} {value : Option α} {block node : Option Ptr}

/-- Something is bound to the key. -/
def Bound (t : BlockTable α) (key : Int) : Prop := (t.table.avlGet key).isSome = true

/-- There are both blocks, and an owner to fill in. -/
def Provided (value : Option α) (block node : Option Ptr) : Prop :=
  block.isSome = true ∧ node.isSome = true ∧ value.isSome = true

/-- The heights in the tree let every rotation on the way to the key find its pivot. -/
def KeepsPivots (t : BlockTable α) (key : Int) : Prop :=
  (t.table.erase id).Covered ∧ (t.table.erase id).keepsPivots key = true

theorem newEntry_bound (h : (t.table.avlGet key).isSome = true) :
    t.newEntry key value block node = some (.eexists, t) :=
  if_pos h

/-- A new entry, for which both blocks are there. -/
theorem newEntry_provided (ht : t.table.Table) (hfree : t.table.avlGet key = none) {b n : Ptr}
    {v : α} (hok : t.table.Insertable key) : ∃ t',
      t.newEntry key (some v) (some b) (some n) = some (.enone, t') ∧
        t.Adds t' key (some v) (some b) (some n) := by
  have hsome : (t.table.avlInsert (some n) key (some (b, v))).isSome = true :=
    (ht.avlInsert_isSome_iff hfree).mpr ⟨rfl, hok⟩
  obtain ⟨⟨table, new⟩, hins⟩ := Option.isSome_iff_exists.mp hsome
  obtain ⟨n', hn', rfl, -, -⟩ := ht.insert_entry hfree hins
  obtain rfl := Option.some.inj hn'
  have hget := ht.avlGet_avlInsert hfree hins
  refine ⟨⟨table, (t.heap.alloc b).alloc n⟩, ?_, ⟨hfree, ⟨b, n, v, rfl, rfl, rfl, ?_, rfl⟩, ?_⟩⟩
  · rw [newEntry, hfree, Option.isSome_none, if_neg Bool.false_ne_true]
    show Option.bind (t.table.avlInsert _ _ _) _ = _
    rw [hins]
    rfl
  · exact (hget key).trans (if_pos rfl)
  · exact fun key' hne => (hget key').trans (if_neg hne)

/-- Whatever the call returns for a key that is free, it had both blocks. -/
theorem AddsOrRefuses.provided
    (h : t.AddsOrRefuses key value block node (t.newEntry key value block node))
    (ht : t.table.Table) : t.Bound key ∨ Provided value block node := by
  obtain ⟨status, t', hnew, -⟩ := h
  rw [Bound]
  cases hget : t.table.avlGet key with
  | some v => exact .inl rfl
  | none =>
    rw [newEntry, hget, Option.isSome_none, if_neg Bool.false_ne_true] at hnew
    obtain ⟨b, rfl, hfilled⟩ := Option.bind_eq_some_iff.mp hnew
    obtain ⟨v, rfl, htree⟩ := Option.bind_eq_some_iff.mp hfilled
    obtain ⟨result, hins, -⟩ := Option.bind_eq_some_iff.mp htree
    obtain ⟨hnode, -⟩ := (ht.avlInsert_isSome_iff hget).mp (by rw [hins]; rfl)
    exact .inr ⟨rfl, hnode, rfl⟩

theorem addsOrRefuses_of_provided (ht : t.table.Table)
    (h : t.Bound key ∨ Provided value block node ∧ t.KeepsPivots key) :
    t.AddsOrRefuses key value block node (t.newEntry key value block node) := by
  cases hget : t.table.avlGet key with
  | some v => exact ⟨_, _, newEntry_bound (by rw [hget]; rfl), .inr ⟨by decide, rfl⟩⟩
  | none =>
    rcases h with hbound | ⟨⟨hblock, hnode, hvalue⟩, hcovered, hok⟩
    · rw [Bound, hget] at hbound
      cases hbound
    · obtain ⟨b, rfl⟩ := Option.isSome_iff_exists.mp hblock
      obtain ⟨n, rfl⟩ := Option.isSome_iff_exists.mp hnode
      obtain ⟨v, rfl⟩ := Option.isSome_iff_exists.mp hvalue
      obtain ⟨t', hnew, hadds⟩ :=
        newEntry_provided ht hget (ht.insertable hcovered hget hok n (b, v))
      exact ⟨_, t', hnew, .inl ⟨rfl, hadds⟩⟩

end BlockTable

/-! ### Ports -/

namespace HeapKernel
variable {s s' : HeapKernel} {id : Word} {port node : Option Ptr}

/-- The port table with its blocks. -/
def ports (s : HeapKernel) : BlockTable Port := ⟨s.portTable, s.heap⟩

/-- What is bound to the id of a port. -/
def newPort (s : HeapKernel) (id : Word) : Option Port :=
  s.kernel.active.map fun active => ⟨id, active.2.pid⟩

/-- The port table is that of the kernel. -/
structure MirrorsPorts (s : HeapKernel) : Prop where
  portTable : s.portTable.erase Prod.snd = s.kernel.portTable
  ports : s.portTable.Table

/-- The kernel with another port table, and the heap. -/
def withPorts (s : HeapKernel) (t : BlockTable Port) : HeapKernel :=
  { s with
    kernel := { s.kernel with portTable := t.table.erase Prod.snd }
    portTable := t.table
    heap := t.heap }

theorem MirrorsPorts.withPorts_ports (h : s.MirrorsPorts) : s.withPorts s.ports = s := by
  show { s with kernel := { s.kernel with portTable := s.portTable.erase Prod.snd } } = s
  rw [h.portTable]

/-- `kernel_create_port` makes a new entry. -/
theorem MirrorsPorts.kernelCreatePort_eq (h : s.MirrorsPorts) :
    s.kernelCreatePort id port node =
      (s.ports.newEntry id.toInt (s.newPort id) port node).map fun result =>
        (result.1, s.withPorts result.2) := by
  have hget : s.kernel.portTable.avlGet id.toInt = (s.portTable.avlGet id.toInt).map Prod.snd := by
    rw [← h.portTable, NodeTree.avlGet_erase]
  rw [HeapKernel.kernelCreatePort, Kernel.kernelCreatePort, BlockTable.newEntry, hget,
    Option.isSome_map]
  show _ = Option.map _ (if (s.portTable.avlGet id.toInt).isSome = true then _ else _)
  by_cases hbound : (s.portTable.avlGet id.toInt).isSome = true
  · rw [if_pos hbound, if_pos hbound]
    show (if (s.portTable.avlGet id.toInt).isSome = true then _ else _) = _
    rw [if_pos hbound, Option.map_some, h.withPorts_ports]
  · rw [if_neg hbound, if_neg hbound]
    cases port with
    | none => rfl
    | some ptr =>
      rw [newPort]
      cases hactive : s.kernel.active with
      | none => rfl
      | some active =>
        have herase := NodeTree.avlInsert_erase Prod.snd node s.portTable id.toInt
          (some (ptr, ⟨id, active.2.pid⟩))
        rw [h.portTable, Option.map_some] at herase
        show Option.bind (Option.bind (s.kernel.portTable.avlInsert _ _ _) _) _ =
          Option.map _ (Option.bind (s.portTable.avlInsert _ _ _) _)
        rw [herase]
        cases hins : s.portTable.avlInsert node id.toInt (some (ptr, ⟨id, active.2.pid⟩)) with
        | none => rfl
        | some result =>
          show (if (s.portTable.avlGet id.toInt).isSome = true then _ else _) = _
          rw [if_neg hbound]
          obtain ⟨table, new⟩ := result
          show Option.bind (s.portTable.avlInsert _ _ _) _ = _
          rw [hins]
          cases new <;> rfl

/-- `kernel_create_port` returns, with one new port or with an error and nothing changed. -/
def CreatesPort (s : HeapKernel) (id : Word) (port node : Option Ptr) : Prop :=
  ∃ status s', s.kernelCreatePort id port node = some (status, s') ∧
    (status = .enone ∧ s.ports.Adds s'.ports id.toInt (s.newPort id) port node ∨
      status ≠ .enone ∧ s' = s)

theorem MirrorsPorts.createsPort_iff (h : s.MirrorsPorts) :
    s.CreatesPort id port node ↔
      s.ports.AddsOrRefuses id.toInt (s.newPort id) port node
        (s.ports.newEntry id.toInt (s.newPort id) port node) := by
  rw [CreatesPort, h.kernelCreatePort_eq]
  constructor
  · rintro ⟨status, s', hcall, hresult⟩
    obtain ⟨⟨status', t⟩, hnew, heq⟩ := Option.map_eq_some_iff.mp hcall
    obtain ⟨rfl, rfl⟩ := Prod.mk.inj heq
    refine ⟨_, t, hnew, ?_⟩
    rcases hresult with ⟨hok, hadds⟩ | ⟨hne, hsame⟩
    · exact .inl ⟨hok, hadds⟩
    · exact .inr ⟨hne, congrArg HeapKernel.ports hsame⟩
  · rintro ⟨status, t, hnew, hresult⟩
    refine ⟨status, s.withPorts t, by rw [hnew]; rfl, ?_⟩
    rcases hresult with ⟨hok, hadds⟩ | ⟨hne, rfl⟩
    · exact .inl ⟨hok, hadds⟩
    · exact .inr ⟨hne, h.withPorts_ports⟩

end HeapKernel

/-! ### Interrupt handlers -/

/-- The kernel, and the blocks of its table of interrupt handlers. -/
structure HandlerKernel where
  kernel : Kernel
  interruptHandlers : NodeTree Ptr (Ptr × SignalAction)
  heap : BlockHeap Ptr

namespace HandlerKernel
variable {s s' : HandlerKernel} {interrupt handler userdata trampoline : Word}
  {action node : Option Ptr}

/-- The table with its blocks. -/
def handlers (s : HandlerKernel) : BlockTable SignalAction := ⟨s.interruptHandlers, s.heap⟩

/-- What is bound to an interrupt. -/
def newAction (s : HandlerKernel) (handler userdata trampoline : Word) : Option SignalAction :=
  s.kernel.active.map fun active => ⟨active.2.pid, handler, trampoline, userdata⟩

/-- The kernel with another table of handlers, and the heap. -/
def withHandlers (s : HandlerKernel) (t : BlockTable SignalAction) : HandlerKernel where
  kernel := { s.kernel with interruptHandlers := t.table.erase Prod.snd }
  interruptHandlers := t.table
  heap := t.heap

/-- `kernel_register_interrupt_handler` -/
def kernelRegisterInterruptHandler (s : HandlerKernel)
    (interrupt handler userdata trampoline : Word) (action node : Option Ptr) :
    Option (Status × HandlerKernel) :=
  (s.handlers.newEntry interrupt.toInt (s.newAction handler userdata trampoline) action node).map
    fun result => (result.1, s.withHandlers result.2)

/-- The table is that of the kernel. -/
structure Mirrors (s : HandlerKernel) : Prop where
  interruptHandlers : s.interruptHandlers.erase Prod.snd = s.kernel.interruptHandlers
  handlers : s.interruptHandlers.Table

theorem Mirrors.withHandlers_handlers (h : s.Mirrors) : s.withHandlers s.handlers = s := by
  show { s with kernel := { s.kernel with
    interruptHandlers := s.interruptHandlers.erase Prod.snd } } = s
  rw [h.interruptHandlers]

/-- The function without the blocks. -/
theorem Mirrors.kernel_registerInterruptHandler (h : s.Mirrors) :
    s.kernel.kernelRegisterInterruptHandler interrupt handler userdata trampoline action.isSome
        node.isSome =
      (s.kernelRegisterInterruptHandler interrupt handler userdata trampoline action node).map
        fun result => (result.1, result.2.kernel) := by
  have hget : s.kernel.interruptHandlers.avlGet interrupt.toInt =
      (s.interruptHandlers.avlGet interrupt.toInt).map Prod.snd := by
    rw [← h.interruptHandlers, NodeTree.avlGet_erase]
  rw [Kernel.kernelRegisterInterruptHandler, kernelRegisterInterruptHandler, Option.map_map,
    BlockTable.newEntry, hget, Option.isSome_map]
  show _ = Option.map _
    (if (s.interruptHandlers.avlGet interrupt.toInt).isSome = true then _ else _)
  by_cases hbound : (s.interruptHandlers.avlGet interrupt.toInt).isSome = true
  · rw [if_pos hbound, if_pos hbound, Option.map_some]
    show _ = some (Status.eexists, (s.withHandlers s.handlers).kernel)
    rw [h.withHandlers_handlers]
  · rw [if_neg hbound, if_neg hbound]
    cases action with
    | none => rfl
    | some ptr =>
      rw [newAction]
      cases hactive : s.kernel.active with
      | none => rfl
      | some active =>
        have herase := NodeTree.avlInsert_erase Prod.snd node s.interruptHandlers interrupt.toInt
          (some (ptr, ⟨active.2.pid, handler, trampoline, userdata⟩))
        rw [h.interruptHandlers, Option.map_some] at herase
        show Option.bind (s.kernel.interruptHandlers.avlInsert _ _ _) _ =
          Option.map _ (Option.bind (s.interruptHandlers.avlInsert _ _ _) _)
        rw [herase]
        cases s.interruptHandlers.avlInsert node interrupt.toInt
          (some (ptr, ⟨active.2.pid, handler, trampoline, userdata⟩)) <;> rfl

/-- `kernel_register_interrupt_handler` returns, with one new handler or with an error and
nothing changed. -/
def RegistersHandler (s : HandlerKernel) (interrupt handler userdata trampoline : Word)
    (action node : Option Ptr) : Prop :=
  ∃ status s', s.kernelRegisterInterruptHandler interrupt handler userdata trampoline action node =
      some (status, s') ∧
    (status = .enone ∧ s.handlers.Adds s'.handlers interrupt.toInt
        (s.newAction handler userdata trampoline) action node ∨
      status ≠ .enone ∧ s' = s)

theorem Mirrors.registersHandler_iff (h : s.Mirrors) :
    s.RegistersHandler interrupt handler userdata trampoline action node ↔
      s.handlers.AddsOrRefuses interrupt.toInt (s.newAction handler userdata trampoline) action
        node (s.handlers.newEntry interrupt.toInt (s.newAction handler userdata trampoline) action
          node) := by
  rw [RegistersHandler]
  constructor
  · rintro ⟨status, s', hcall, hresult⟩
    obtain ⟨⟨status', t⟩, hnew, heq⟩ := Option.map_eq_some_iff.mp hcall
    obtain ⟨rfl, rfl⟩ := Prod.mk.inj heq
    refine ⟨_, t, hnew, ?_⟩
    rcases hresult with ⟨hok, hadds⟩ | ⟨hne, hsame⟩
    · exact .inl ⟨hok, hadds⟩
    · exact .inr ⟨hne, congrArg HandlerKernel.handlers hsame⟩
  · rintro ⟨status, t, hnew, hresult⟩
    refine ⟨status, s.withHandlers t, by rw [kernelRegisterInterruptHandler, hnew]; rfl, ?_⟩
    rcases hresult with ⟨hok, hadds⟩ | ⟨hne, rfl⟩
    · exact .inl ⟨hok, hadds⟩
    · exact .inr ⟨hne, h.withHandlers_handlers⟩

end HandlerKernel

/-- **New entries.**  The two functions return, with one new binding or with an error and
nothing changed, when the id is bound already, or when both allocations succeed, a process
is active and the rotations find their pivots; and they never do so where the id is free
and a block or the active process is missing. -/
theorem newEntry_of_provided {s : HeapKernel} {s' : HandlerKernel} (h : s.MirrorsPorts)
    (h' : s'.Mirrors) (id interrupt handler userdata trampoline : Word)
    (block node : Option Ptr) :
    ((s.ports.Bound id.toInt ∨
          BlockTable.Provided (s.newPort id) block node ∧ s.ports.KeepsPivots id.toInt →
        s.CreatesPort id block node) ∧
      (s.CreatesPort id block node →
        s.ports.Bound id.toInt ∨ BlockTable.Provided (s.newPort id) block node)) ∧
    (s'.handlers.Bound interrupt.toInt ∨
          BlockTable.Provided (s'.newAction handler userdata trampoline) block node ∧
            s'.handlers.KeepsPivots interrupt.toInt →
        s'.RegistersHandler interrupt handler userdata trampoline block node) ∧
      (s'.RegistersHandler interrupt handler userdata trampoline block node →
        s'.handlers.Bound interrupt.toInt ∨
          BlockTable.Provided (s'.newAction handler userdata trampoline) block node) :=
  ⟨⟨fun hprovided => h.createsPort_iff.mpr (BlockTable.addsOrRefuses_of_provided h.ports hprovided),
      fun hcreates => (h.createsPort_iff.mp hcreates).provided h.ports⟩,
    fun hprovided => h'.registersHandler_iff.mpr
      (BlockTable.addsOrRefuses_of_provided h'.handlers hprovided),
    fun hregisters => (h'.registersHandler_iff.mp hregisters).provided h'.handlers⟩

/-! ### One process -/

/-- A kernel whose tables are empty, with an active process at 1. -/
def oneActive : Kernel :=
  { Kernel.bare with
    activeProcess := some 1
    processes := fun p => if p = 1 then some (Kernel.newProcess 1 0x1000 0 0) else none }

def noPorts : HeapKernel := ⟨oneActive, .nil, .nil, fun _ => 0, fun _ => [], .empty⟩

def noHandlers : HandlerKernel := ⟨oneActive, .nil, .empty⟩

theorem mirrorsPorts_noPorts : noPorts.MirrorsPorts := ⟨rfl, .nil⟩

theorem mirrors_noHandlers : noHandlers.Mirrors := ⟨rfl, .nil⟩

/-- Keys 1 and 2, the second below the first on the right. -/
def twoKeys {α : Type} (v w : α) : NodeTree Ptr (Ptr × α) :=
  .node 11 2 1 (some (10, v)) .nil (.node 13 1 2 (some (12, w)) .nil .nil)

theorem table_twoKeys {α : Type} (v w : α) : (twoKeys v w).Table := by
  refine ⟨?_, ?_⟩
  · simp [twoKeys, AvlTree.SearchTree]
  · intro key hkey
    obtain ⟨l, r, hlist, -⟩ := List.lookup_eq_some_iff.mp hkey
    have hmem : (key, none) ∈ ((twoKeys v w).erase id).toList := by
      rw [hlist]
      exact List.mem_append_right _ (List.mem_cons_self ..)
    simp [twoKeys] at hmem

theorem covered_twoKeys {α : Type} (v w : α) : ((twoKeys v w).erase id).Covered := by
  simp [twoKeys, AvlTree.Covered, AvlTree.trueHeight]

/-- Two ports. -/
def twoPorts : HeapKernel :=
  noPorts.withPorts ⟨twoKeys ⟨1, 0⟩ ⟨2, 0⟩, .empty⟩

/-- Two handlers. -/
def twoHandlers : HandlerKernel :=
  noHandlers.withHandlers ⟨twoKeys ⟨0, 0x1000, 0, 0⟩ ⟨0, 0x2000, 0, 0⟩, .empty⟩

theorem mirrorsPorts_twoPorts : twoPorts.MirrorsPorts := ⟨rfl, table_twoKeys _ _⟩

theorem mirrors_twoHandlers : twoHandlers.Mirrors := ⟨rfl, table_twoKeys _ _⟩

/-- The key 3 goes in below 2, and 2 is rotated to the top; without a block for the port
or for the node nothing does. -/
theorem newEntry_of_provided_twoPorts :
    (twoPorts.CreatesPort 3 (some 8) (some 9) ∧ ¬ twoPorts.CreatesPort 3 none (some 9) ∧
      ¬ twoPorts.CreatesPort 3 (some 8) none) ∧
    twoHandlers.RegistersHandler 3 0x1000 0 0 (some 8) (some 9) ∧
      ¬ twoHandlers.RegistersHandler 3 0x1000 0 0 none (some 9) ∧
      ¬ twoHandlers.RegistersHandler 3 0x1000 0 0 (some 8) none := by
  have hcalls := newEntry_of_provided mirrorsPorts_twoPorts mirrors_twoHandlers 3 3 0x1000 0 0
  have hport : ¬ twoPorts.ports.Bound (3 : Word).toInt := by
    show ¬ ((twoKeys _ _).avlGet 3).isSome = true
    decide
  have hhandler : ¬ twoHandlers.handlers.Bound (3 : Word).toInt := by
    show ¬ ((twoKeys _ _).avlGet 3).isSome = true
    decide
  refine ⟨⟨?_, ?_, ?_⟩, ?_, ?_, ?_⟩
  · exact (hcalls (some 8) (some 9)).1.1 (.inr ⟨⟨rfl, rfl, rfl⟩, covered_twoKeys _ _, by decide⟩)
  · intro hcreates
    rcases (hcalls none (some 9)).1.2 hcreates with hbound | ⟨hblock, -⟩
    · exact hport hbound
    · cases hblock
  · intro hcreates
    rcases (hcalls (some 8) none).1.2 hcreates with hbound | ⟨-, hnode, -⟩
    · exact hport hbound
    · cases hnode
  · exact (hcalls (some 8) (some 9)).2.1 (.inr ⟨⟨rfl, rfl, rfl⟩, covered_twoKeys _ _, by decide⟩)
  · intro hregisters
    rcases (hcalls none (some 9)).2.2 hregisters with hbound | ⟨hblock, -⟩
    · exact hhandler hbound
    · cases hblock
  · intro hregisters
    rcases (hcalls (some 8) none).2.2 hregisters with hbound | ⟨-, hnode, -⟩
    · exact hhandler hbound
    · cases hnode

/-- No block for the port or the action, or none for the node. -/
theorem not_addsOrRefuses_noPorts :
    (¬ ∀ (s : HeapKernel) (id : Word) (port node : Option Ptr), s.MirrorsPorts →
      s.kernel.active.isSome = true → s.CreatesPort id port node) ∧
    ¬ ∀ (s : HandlerKernel) (interrupt handler userdata trampoline : Word)
      (action node : Option Ptr), s.Mirrors → s.kernel.active.isSome = true →
      s.RegistersHandler interrupt handler userdata trampoline action node := by
  constructor
  · intro hall
    have hcreates := hall noPorts 5 none (some 9) mirrorsPorts_noPorts rfl
    rcases (mirrorsPorts_noPorts.createsPort_iff.mp hcreates).provided .nil with
      hbound | ⟨hblock, -⟩
    · cases hbound
    · cases hblock
  · intro hall
    have hregisters := hall noHandlers 5 0x1000 0 0 (some 8) none mirrors_noHandlers rfl
    rcases (mirrors_noHandlers.registersHandler_iff.mp hregisters).provided .nil with
      hbound | ⟨-, hnode, -⟩
    · cases hbound
    · cases hnode

end QuarkKernel
