import QuarkKernel.HeapKernel
import QuarkKernel.ProcessIdentity
import Mathlib.Tactic.Abel

/-! # Whose block is it

Between any two calls the blocks that `kmalloc` has handed out are exactly those the
kernel's structures lead to.  During a call there are also blocks that only a local
variable leads to: `Holds s held` says that the live blocks are those of the
structures and the `held` ones, that they are all different, and which of those freed so
far were still led to.  `kmalloc` adds a block to the held ones, `kfree` takes one away,
and storing a pointer moves blocks between the two.  Only the `kfree` inside of
`avl_remove` gets a block that is not held (`Holds.removeProcess`, `Holds.erasePort`). -/
namespace QuarkKernel
namespace HeapKernel

variable {s s' : HeapKernel} {held held' early : Multiset Ptr} {b p : Ptr}

/-- The live blocks are those of the structures and the held ones, all different; all that
were freed were live, and `early` ones were still led to. -/
def Holds (s : HeapKernel) (held early : Multiset Ptr) : Prop :=
  s.heap.Accounted (s.references + held) early

theorem Holds.kmalloc (h : s.Holds held early) (hb : b ∉ s.heap.live) :
    (s.kmalloc b).Holds (b ::ₘ held) early := by
  refine (h.alloc hb).congr ?_
  exact Multiset.add_cons b s.references held

theorem Holds.kfree (h : s.Holds (b ::ₘ held) early) : (s.kfree b).Holds held early := by
  have hcons : s.heap.Accounted (b ::ₘ (s.references + held)) early :=
    h.congr (Multiset.add_cons b s.references held).symm
  exact hcons.free (Multiset.subset_of_le (Multiset.le_add_right s.references held))

/-- Storing pointers. -/
theorem Holds.link (h : s.Holds held early) (hheap : s'.heap = s.heap)
    (hrefs : s'.references + held' = s.references + held) : s'.Holds held' early := by
  rw [Holds, hheap]
  exact h.congr hrefs

/-! ### What the structures lead to -/

theorem references_congr (htable : s'.processTable = s.processTable)
    (hport : s'.portTable = s.portTable)
    (hsame : ∀ q, q ∈ s.processTable.values → s'.processBlocks q = s.processBlocks q) :
    s'.references = s.references := by
  rw [references, references, htable, hport, Multiset.bind_congr hsame]

/-- One process of the table gets other blocks. -/
theorem references_replace (htable : s'.processTable = s.processTable)
    (hport : s'.portTable = s.portTable)
    (hother : ∀ q, q ≠ p → s'.processBlocks q = s.processBlocks q)
    (hnodup : s.processTable.values.Nodup) (hp : p ∈ s.processTable.values) :
    s'.references + s.processBlocks p = s.references + s'.processBlocks p := by
  obtain ⟨rest, hrest⟩ := Multiset.exists_cons_of_mem hp
  have hnot : p ∉ rest := by
    rw [hrest] at hnodup
    exact (Multiset.nodup_cons.mp hnodup).1
  have hbind : rest.bind s'.processBlocks = rest.bind s.processBlocks := by
    refine Multiset.bind_congr fun q hq => hother q ?_
    rintro rfl
    exact hnot hq
  rw [references, references, htable, hport, hrest, Multiset.cons_bind, Multiset.cons_bind, hbind]
  abel

theorem mem_references_of_values (hp : p ∈ s.processTable.values) : p ∈ s.references := by
  refine Multiset.mem_add.mpr (.inl (Multiset.mem_add.mpr (.inr ?_)))
  exact Multiset.mem_bind.mpr ⟨p, hp, Multiset.mem_cons_self _ _⟩

/-- Each process of the table is one of the blocks. -/
theorem values_le_bind (s : HeapKernel) (values : Multiset Ptr) :
    values ≤ values.bind s.processBlocks := by
  induction values using Multiset.induction_on with
  | empty => exact Multiset.zero_le _
  | cons p values ih =>
    rw [Multiset.cons_bind, ← Multiset.singleton_add]
    exact add_le_add (Multiset.singleton_le.mpr (Multiset.mem_cons_self _ _)) ih

theorem Holds.nodup_values (h : s.Holds held early) : s.processTable.values.Nodup := by
  refine Multiset.nodup_of_le ?_ h.nodup
  calc s.processTable.values ≤ s.processTable.values.bind s.processBlocks := values_le_bind s _
    _ ≤ s.processTable.nodes + s.processTable.values.bind s.processBlocks :=
      Multiset.le_add_left ..
    _ ≤ s.references := Multiset.le_add_right ..
    _ ≤ s.references + held := Multiset.le_add_right ..

theorem queueBlocks_cons (entry : QueueNode) (queue : List QueueNode) :
    queueBlocks (entry :: queue) = entry.node ::ₘ entry.ptr ::ₘ queueBlocks queue := rfl

theorem queueBlocks_append (queue : List QueueNode) (entry : QueueNode) :
    queueBlocks (queue ++ [entry]) = entry.node ::ₘ entry.ptr ::ₘ queueBlocks queue := by
  rw [queueBlocks, List.flatMap_append, ← Multiset.coe_add, add_comm]
  rfl

/-! ### Message queues -/

/-- The state with another queue for `p`. -/
def setQueue (s : HeapKernel) (p : Ptr) (queue : List QueueNode) : HeapKernel :=
  { s with messageQueue := Function.update s.messageQueue p queue }

@[simp] theorem setQueue_self (s : HeapKernel) (p : Ptr) (queue : List QueueNode) :
    (s.setQueue p queue).messageQueue p = queue := Function.update_self ..

theorem setQueue_of_ne (s : HeapKernel) (queue : List QueueNode) {q : Ptr} (hq : q ≠ p) :
    (s.setQueue p queue).messageQueue q = s.messageQueue q := Function.update_of_ne hq ..

theorem processBlocks_setQueue (queue : List QueueNode) :
    (s.setQueue p queue).processBlocks p = p ::ₘ s.ctx p ::ₘ queueBlocks queue := by
  rw [processBlocks, setQueue_self]
  rfl

theorem processBlocks_setQueue_of_ne (queue : List QueueNode) {q : Ptr} (hq : q ≠ p) :
    (s.setQueue p queue).processBlocks q = s.processBlocks q := by
  rw [processBlocks, processBlocks, setQueue_of_ne s queue hq]
  rfl

/-- A process that is not in the table may have any queue. -/
theorem references_setQueue_of_notMem (queue : List QueueNode)
    (hp : p ∉ s.processTable.values) : (s.setQueue p queue).references = s.references := by
  refine references_congr rfl rfl fun q hq => processBlocks_setQueue_of_ne queue ?_
  rintro rfl
  exact hp hq

/-- What a process of the table gains, or loses, with another queue. -/
theorem references_setQueue (queue : List QueueNode) (hnodup : s.processTable.values.Nodup)
    (hp : p ∈ s.processTable.values) :
    (s.setQueue p queue).references + queueBlocks (s.messageQueue p) =
      s.references + queueBlocks queue := by
  have hother : ∀ q, q ≠ p → (s.setQueue p queue).processBlocks q = s.processBlocks q :=
    fun q hq => processBlocks_setQueue_of_ne queue hq
  have hsum : (s.setQueue p queue).references + s.processBlocks p =
      s.references + (s.setQueue p queue).processBlocks p :=
    references_replace rfl rfl hother hnodup hp
  rw [processBlocks_setQueue, processBlocks] at hsum
  simp only [Multiset.add_cons, Multiset.cons_inj_right] at hsum
  exact hsum

/-- `queue_insert` with a node. -/
theorem queueInsert_some (s : HeapKernel) (node p ptr : Ptr) (message : Message) :
    s.queueInsert (some node) p ptr message =
      (s.kmalloc node).setQueue p (s.messageQueue p ++ [⟨node, ptr, message⟩]) := rfl

/-- A message, and the node for it, go to the end of the queue. -/
theorem Holds.append {node ptr : Ptr} (h : s.Holds (node ::ₘ ptr ::ₘ held) early)
    (hp : p ∈ s.processTable.values) (message : Message) :
    (s.setQueue p (s.messageQueue p ++ [⟨node, ptr, message⟩])).Holds held early := by
  refine h.link rfl ?_
  have hsum := references_setQueue (s.messageQueue p ++ [⟨node, ptr, message⟩]) h.nodup_values hp
  rw [queueBlocks_append, Multiset.add_cons, Multiset.add_cons, ← Multiset.cons_add,
    ← Multiset.cons_add] at hsum
  rw [add_right_cancel hsum]
  simp only [Multiset.cons_add, Multiset.add_cons]

/-- `queue_get_next` on an empty queue. -/
theorem queueGetNext_nil (hqueue : s.messageQueue p = []) : s.queueGetNext p = (none, s) := by
  rw [queueGetNext, hqueue]

/-- `queue_get_next` frees the first node. -/
theorem queueGetNext_cons {entry : QueueNode} {rest : List QueueNode}
    (hqueue : s.messageQueue p = entry :: rest) :
    s.queueGetNext p = (some entry.ptr, (s.setQueue p rest).kfree entry.node) := by
  rw [queueGetNext, hqueue]
  rfl

/-- A process of the table gives up its first message. -/
theorem Holds.queueGetNext {entry : QueueNode} {rest : List QueueNode} (h : s.Holds held early)
    (hp : p ∈ s.processTable.values) (hqueue : s.messageQueue p = entry :: rest) :
    ((s.setQueue p rest).kfree entry.node).Holds (entry.ptr ::ₘ held) early := by
  refine Holds.kfree (h.link rfl ?_)
  have hsum := references_setQueue rest h.nodup_values hp
  rw [hqueue, queueBlocks_cons, Multiset.add_cons, Multiset.add_cons, ← Multiset.cons_add,
    ← Multiset.cons_add] at hsum
  rw [← add_right_cancel hsum]
  simp only [Multiset.cons_add, Multiset.add_cons]

/-- The loop in `kernel_terminate_process` frees all nodes and messages of a process that
is out of the table. -/
theorem Holds.freeMessages {n : Nat} (h : s.Holds (queueBlocks (s.messageQueue p) + held) early)
    (hp : p ∉ s.processTable.values) (hn : n = (s.messageQueue p).length) :
    (freeMessages p n s).Holds held early ∧
      freeMessages p n s = { s.setQueue p [] with heap := (freeMessages p n s).heap } := by
  induction n generalizing s with
  | zero =>
    have hnil : s.messageQueue p = [] := List.length_eq_zero_iff.mp hn.symm
    rw [hnil] at h
    have hsame : s.setQueue p [] = s := by
      rw [setQueue, ← hnil, Function.update_eq_self]
    rw [HeapKernel.freeMessages, hsame]
    exact ⟨h.congr (by rw [show queueBlocks [] = 0 from rfl, zero_add]), rfl⟩
  | succ n ih =>
    cases hqueue : s.messageQueue p with
    | nil =>
      rw [hqueue] at hn
      cases hn
    | cons entry rest =>
      rw [hqueue] at h hn
      -- the first entry is taken out of the queue before its two blocks are freed
      obtain ⟨t, ht⟩ : ∃ t, t = ((s.setQueue p rest).kfree entry.node).kfree entry.ptr := ⟨_, rfl⟩
      have hfreed : t.Holds (queueBlocks rest + held) early := by
        rw [ht]
        refine Holds.kfree (Holds.kfree (h.link rfl ?_))
        rw [references_setQueue_of_notMem rest hp, queueBlocks_cons, Multiset.cons_add,
          Multiset.cons_add]
      have hrest : t.messageQueue p = rest := by
        rw [ht]
        exact setQueue_self s p rest
      rw [HeapKernel.freeMessages, queueGetNext_cons hqueue]
      simp only
      rw [← ht]
      rw [← hrest] at hfreed
      have hout : p ∉ t.processTable.values := by rwa [ht]
      have hlen : n = (t.messageQueue p).length := by
        rw [hrest]
        exact Nat.succ.inj hn
      obtain ⟨hheld, hshape⟩ := ih hfreed hout hlen
      refine ⟨hheld, hshape.trans ?_⟩
      rw [ht]
      show HeapKernel.mk _ _ _ _ _ _ = HeapKernel.mk _ _ _ _ _ _
      congr 1
      exact Function.update_idem ..

/-! ### The tables -/

/-- A process that is not in the table gets a context and an empty queue. -/
theorem Holds.newProcess {ctx : Ptr} (h : s.Holds (ctx ::ₘ p ::ₘ held) early)
    (hp : p ∉ s.processTable.values)
    (hs' : s' = { s with
      ctx := Function.update s.ctx p ctx, messageQueue := Function.update s.messageQueue p [] }) :
    s'.Holds (s'.processBlocks p + held) early := by
  have hsame : s'.references = s.references := by
    rw [hs']
    refine references_congr rfl rfl fun q hq => ?_
    have hqp : q ≠ p := by
      rintro rfl
      exact hp hq
    show q ::ₘ Function.update s.ctx p ctx q ::ₘ
      queueBlocks (Function.update s.messageQueue p [] q) = s.processBlocks q
    rw [Function.update_of_ne hqp, Function.update_of_ne hqp]
    rfl
  have hblocks : s'.processBlocks p = p ::ₘ ctx ::ₘ 0 := by
    rw [hs']
    show p ::ₘ Function.update s.ctx p ctx p ::ₘ
      queueBlocks (Function.update s.messageQueue p [] p) = _
    rw [Function.update_self, Function.update_self]
    rfl
  have hheap : s'.heap = s.heap := by rw [hs']
  refine h.link hheap ?_
  rw [hsame, hblocks, Multiset.cons_swap, Multiset.cons_add, Multiset.cons_add, zero_add]

/-- A process enters the table under a pid that is free. -/
theorem Holds.insertProcess {node : Ptr} {pid : Word} (h : s.Holds (s.processBlocks p + held) early)
    (hnode : node ∉ s.heap.live) (ht : s.processTable.Table)
    (hfree : s.processTable.avlGet pid.toInt = none)
    (hins : s.insertProcess (some node) pid p = some s') :
    s'.Holds held early ∧ ∃ processTable new,
      s.processTable.avlInsert (some node) pid.toInt (some p) = some (processTable, new) ∧
        s' = { s with processTable, heap := s'.heap } := by
  obtain ⟨⟨processTable, new⟩, htable, hs'⟩ := Option.bind_eq_some_iff.mp hins
  obtain ⟨b, hb, rfl, hnodes, hvalues⟩ := ht.insert_entry hfree htable
  obtain rfl := Option.some.inj hb
  obtain rfl := Option.some.inj hs'
  refine ⟨(h.kmalloc hnode).link rfl ?_, processTable, _, htable, rfl⟩
  show processTable.nodes + processTable.values.bind s.processBlocks +
    (s.portTable.nodes + s.portTable.values.map Prod.fst) + held = s.references + _
  rw [hnodes, hvalues, Multiset.cons_bind, references]
  simp only [← Multiset.singleton_add]
  abel

/-- A process leaves the table. -/
theorem Holds.removeProcess {pid : Word} (h : s.Holds held early) (ht : s.processTable.Table)
    (hget : s.processTable.avlGet pid.toInt = some p) (hrem : s.removeProcess pid = some s') :
    s'.Holds (s.processBlocks p + held) ((s.processTable.leafFreed pid.toInt).toList + early) ∧
      p ∉ s'.processTable.values ∧ ∃ processTable freed,
        s.processTable.avlRemove pid.toInt = some (processTable, freed) ∧
          s' = { s with processTable, heap := s'.heap } := by
  obtain ⟨⟨processTable, heap⟩, htable, hs'⟩ := Option.bind_eq_some_iff.mp hrem
  obtain rfl := Option.some.inj hs'
  have howned : s.heap.Accounted (s.processTable.nodes + (s.processTable.values.bind
      s.processBlocks + (s.portTable.nodes + s.portTable.values.map Prod.fst) + held)) early := by
    refine BlockHeap.Accounted.congr h ?_
    rw [references]
    abel
  obtain ⟨hfreed, hvalues, freed, hremoved⟩ :=
    ht.accounted_remove hget (Multiset.le_add_right _ held) howned htable
  have hout : p ∉ processTable.values := by
    have hnodup := h.nodup_values
    rw [hvalues] at hnodup
    exact (Multiset.nodup_cons.mp hnodup).1
  refine ⟨hfreed.congr ?_, hout, processTable, freed, hremoved, rfl⟩
  show processTable.nodes + processTable.values.bind s.processBlocks +
    (s.portTable.nodes + s.portTable.values.map Prod.fst) + _ = _
  rw [hvalues, Multiset.cons_bind]
  abel

/-- A port enters the table under an id that is free. -/
theorem Holds.insertPort {node ptr : Ptr} {port : Port} {key : Int} {new : Option Ptr}
    {portTable : NodeTree Ptr (Ptr × Port)} (h : s.Holds (ptr ::ₘ held) early)
    (hnode : node ∉ s.heap.live) (ht : s.portTable.Table) (hfree : s.portTable.avlGet key = none)
    (hins : s.portTable.avlInsert (some node) key (some (ptr, port)) = some (portTable, new)) :
    HeapKernel.Holds { (new.elim s s.kmalloc) with portTable } held early := by
  obtain ⟨b, hb, rfl, hnodes, hvalues⟩ := ht.insert_entry hfree hins
  obtain rfl := Option.some.inj hb
  refine (h.kmalloc hnode).link rfl ?_
  show s.processTable.nodes + s.processTable.values.bind s.processBlocks +
    (portTable.nodes + portTable.values.map Prod.fst) + held = s.references + _
  rw [hnodes, hvalues, Multiset.map_cons, references]
  simp only [← Multiset.singleton_add]
  abel

/-- A port leaves the table. -/
theorem Holds.erasePort {id : Word} {ptr : Ptr} {port : Port} (h : s.Holds held early)
    (ht : s.portTable.Table) (hget : s.portTable.avlGet id.toInt = some (ptr, port))
    (hrem : s.erasePort id = some s') :
    s'.Holds (ptr ::ₘ held) ((s.portTable.leafFreed id.toInt).toList + early) ∧
      ∃ portTable freed, s.portTable.avlRemove id.toInt = some (portTable, freed) ∧
        s' = { s with portTable, heap := s'.heap } := by
  obtain ⟨⟨portTable, heap⟩, htable, hs'⟩ := Option.bind_eq_some_iff.mp hrem
  obtain rfl := Option.some.inj hs'
  have howned : s.heap.Accounted (s.portTable.nodes + (s.processTable.nodes +
      s.processTable.values.bind s.processBlocks + s.portTable.values.map Prod.fst + held))
      early := by
    refine BlockHeap.Accounted.congr h ?_
    rw [references]
    abel
  obtain ⟨hfreed, hvalues, freed, hremoved⟩ :=
    ht.accounted_remove hget (Multiset.le_add_right _ held) howned htable
  refine ⟨hfreed.congr ?_, portTable, freed, hremoved, rfl⟩
  show s.processTable.nodes + s.processTable.values.bind s.processBlocks +
    (portTable.nodes + portTable.values.map Prod.fst) + _ = _
  rw [hvalues, Multiset.map_cons]
  simp only [← Multiset.singleton_add]
  abel

/-! ### The blocks hold what the kernel's values are -/

/-- The live blocks are those of the structures, and the structures are those of the
kernel; `early` blocks were freed while they were still led to. -/
structure Accounts (s : HeapKernel) (early : Multiset Ptr) : Prop where
  processTable : s.processTable.erase id = s.kernel.processTable
  portTable : s.portTable.erase Prod.snd = s.kernel.portTable
  messages : ∀ p P, s.kernel.processes p = some P →
    (s.messageQueue p).map QueueNode.message = P.messageQueue
  ports : s.portTable.Table
  holds : s.Holds 0 early

/-- No process gets another message queue. -/
def KeepsQueues (k k' : Kernel) : Prop :=
  ∀ p P', k'.processes p = some P' →
    ∃ P, k.processes p = some P ∧ P'.messageQueue = P.messageQueue

theorem KeepsQueues.of_eq {k k' : Kernel} (hproc : k'.processes = k.processes) :
    KeepsQueues k k' := by
  intro p P' hP'
  rw [hproc] at hP'
  exact ⟨P', hP', rfl⟩

theorem KeepsQueues.update {k k' : Kernel} {P P' : Process} (hP : k.processes p = some P)
    (hproc : k'.processes = Function.update k.processes p (some P'))
    (hqueue : P'.messageQueue = P.messageQueue) : KeepsQueues k k' := by
  intro q Q hQ
  rw [hproc] at hQ
  by_cases hqp : q = p
  · subst hqp
    rw [Function.update_self] at hQ
    obtain rfl := Option.some.inj hQ
    exact ⟨P, hP, hqueue⟩
  · rw [Function.update_of_ne hqp] at hQ
    exact ⟨Q, hQ, rfl⟩

/-- A call that does nothing to the blocks. -/
theorem Accounts.withKernel (h : s.Accounts early) {kernel : Kernel}
    (htable : kernel.processTable = s.kernel.processTable)
    (hport : kernel.portTable = s.kernel.portTable) (hkeeps : KeepsQueues s.kernel kernel) :
    Accounts { s with kernel } early where
  processTable := h.processTable.trans htable.symm
  portTable := h.portTable.trans hport.symm
  messages p P' hP' := by
    obtain ⟨P, hP, hqueue⟩ := hkeeps p P' hP'
    rw [hqueue]
    exact h.messages p P hP
  ports := h.ports
  holds := h.holds

/-- One process gets another queue, in its block and in its nodes. -/
theorem Accounts.messages_update (h : s.Accounts early) {kernel : Kernel} {P' : Process}
    {queue : List QueueNode}
    (hproc : kernel.processes = Function.update s.kernel.processes p (some P'))
    (hqueue : queue.map QueueNode.message = P'.messageQueue) (q : Ptr) (Q : Process)
    (hQ : kernel.processes q = some Q) :
    (Function.update s.messageQueue p queue q).map QueueNode.message = Q.messageQueue := by
  rw [hproc] at hQ
  by_cases hqp : q = p
  · subst hqp
    rw [Function.update_self] at hQ ⊢
    obtain rfl := Option.some.inj hQ
    exact hqueue
  · rw [Function.update_of_ne hqp] at hQ ⊢
    exact h.messages q Q hQ

/-- What the kernel knows of its processes. -/
structure Sound (s : HeapKernel) (early : Multiset Ptr) : Prop extends Accounts s early where
  wellFormed : s.kernel.WellFormed
  registered : s.kernel.Registered
  numbered : s.kernel.Numbered
  ready : s.kernel.ReadyOnce

namespace Sound
variable (h : s.Sound early)
include h

theorem table : s.processTable.Table := by
  rw [NodeTree.Table, h.processTable]
  exact h.registered.table

theorem lookup (pid : Word) : s.processTable.avlGet pid.toInt = s.kernel.lookup pid := by
  rw [Kernel.lookup, ← h.processTable, NodeTree.avlGet_erase, Option.map_id]
  rfl

theorem port (key : Int) :
    (s.portTable.avlGet key).map Prod.snd = s.kernel.portTable.avlGet key := by
  rw [← h.portTable, NodeTree.avlGet_erase]

theorem nodup_references : s.references.Nodup := by
  have hnodup := h.holds.nodup
  rwa [Multiset.add_zero] at hnodup

/-- The processes of the table are those there are. -/
theorem mem_values : p ∈ s.processTable.values ↔ ∃ P, s.kernel.processes p = some P := by
  rw [h.table.mem_values]
  constructor
  · rintro ⟨key, hget⟩
    have hget' : s.kernel.processTable.avlGet key = some p := by
      rw [← h.processTable, NodeTree.avlGet_erase, hget]
      rfl
    obtain ⟨P, hP, -⟩ := h.wellFormed.table key p hget'
    exact ⟨P, hP⟩
  · rintro ⟨P, hP⟩
    exact ⟨P.pid.toInt, (h.lookup P.pid).trans (h.registered.entry p P hP)⟩

theorem live_of_mem_values (hp : p ∈ s.processTable.values) : p ∈ s.heap.live := by
  rw [h.holds.live, Multiset.add_zero]
  exact mem_references_of_values hp

/-- `kmalloc` does not provide the block of a process. -/
theorem processes_of_fresh (hp : p ∉ s.heap.live) : s.kernel.processes p = none := by
  rcases Option.eq_none_or_eq_some (s.kernel.processes p) with hnone | ⟨P, hP⟩
  · exact hnone
  · exact absurd (h.live_of_mem_values (h.mem_values.mpr ⟨P, hP⟩)) hp

end Sound

end HeapKernel
end QuarkKernel
