import Mathlib.Data.BitVec
import Mathlib.Data.Fintype.Card
import Mathlib.Data.List.Nodup
import QuarkKernel.Status
import QuarkKernel.Transition

/-! # `queue.c`

A queue is a chain of nodes on the heap, with a pointer to each of its ends and a
count.  `kmalloc` may fail, and otherwise hands out a node that is not in use.  Over
every run the chain from `first` carries what has been inserted and not yet removed,
in order (`queue_fifo`). -/

/-! ### Chains of nodes -/

namespace NodeChain

/-- `struct queue_node_t`; NULL is 0. -/
structure Node where
  ptr : BitVec 32
  next : BitVec 32
deriving DecidableEq, Repr

/-- The nodes that are in use, by their addresses. -/
abbrev NodeHeap := BitVec 32 → Option Node

/-- Following `next` from `p` visits the cells, addresses with what is stored there, and
then comes to `q`. -/
def Chain (heap : NodeHeap) : BitVec 32 → List (BitVec 32 × BitVec 32) → BitVec 32 → Prop
  | p, [], q => p = q
  | p, cell :: cells, q =>
      p = cell.1 ∧ p ≠ 0 ∧ ∃ next, heap p = some ⟨cell.2, next⟩ ∧ Chain heap next cells q

variable {heap heap' : NodeHeap} {p q : BitVec 32} {cells rest : List (BitVec 32 × BitVec 32)}

theorem chain_append :
    Chain heap p (cells ++ rest) q ↔
      ∃ middle, Chain heap p cells middle ∧ Chain heap middle rest q := by
  induction cells generalizing p with
  | nil =>
    constructor
    · intro h
      exact ⟨p, rfl, h⟩
    · rintro ⟨middle, rfl, h⟩
      exact h
  | cons cell cells ih =>
    constructor
    · rintro ⟨hp, hne, next, hnode, h⟩
      obtain ⟨middle, hfirst, hrest⟩ := ih.mp h
      exact ⟨middle, ⟨hp, hne, next, hnode, hfirst⟩, hrest⟩
    · rintro ⟨middle, ⟨hp, hne, next, hnode, hfirst⟩, hrest⟩
      exact ⟨hp, hne, next, hnode, ih.mpr ⟨middle, hfirst, hrest⟩⟩

/-- A chain depends on its own nodes only. -/
theorem Chain.congr (h : Chain heap p cells q)
    (hsame : ∀ a ∈ cells.map Prod.fst, heap' a = heap a) : Chain heap' p cells q := by
  induction cells generalizing p with
  | nil => exact h
  | cons cell cells ih =>
    obtain ⟨rfl, hne, next, hnode, hrest⟩ := h
    refine ⟨rfl, hne, next, ?_, ih hrest fun a ha => hsame a (List.mem_cons_of_mem _ ha)⟩
    rw [hsame cell.1 List.mem_cons_self]
    exact hnode

/-- The nodes of a chain are in use, and none is at NULL. -/
theorem Chain.live (h : Chain heap p cells q) :
    ∀ a ∈ cells.map Prod.fst, a ≠ 0 ∧ (heap a).isSome := by
  induction cells generalizing p with
  | nil => exact fun a ha => absurd ha List.not_mem_nil
  | cons cell cells ih =>
    obtain ⟨rfl, hne, next, hnode, hrest⟩ := h
    intro a ha
    rcases List.mem_cons.mp ha with rfl | ha
    · exact ⟨hne, by rw [hnode]; rfl⟩
    · exact ih hrest a ha

/-- Only the empty chain begins with NULL. -/
theorem Chain.eq_zero_iff (h : Chain heap p cells 0) : p = 0 ↔ cells = [] := by
  rcases cells with _ | ⟨cell, cells⟩
  · exact ⟨fun _ => rfl, fun _ => h⟩
  · obtain ⟨-, hne, -⟩ := h
    exact ⟨fun hp => absurd hp hne, fun hnil => absurd hnil (List.cons_ne_nil _ _)⟩

/-- There are fewer nodes than addresses. -/
theorem length_lt_of_nodup {addrs : List (BitVec 32)} (hnodup : addrs.Nodup)
    (hnull : ∀ a ∈ addrs, a ≠ 0) : addrs.length < 2 ^ 32 := by
  have hzero : (0 :: addrs).Nodup := List.nodup_cons.mpr ⟨fun h => hnull 0 h rfl, hnodup⟩
  have hfin : ((0 :: addrs).map BitVec.toFin).Nodup :=
    hzero.map fun a b h => BitVec.eq_of_toFin_eq h
  have hcard := hfin.length_le_card
  rw [List.length_map, List.length_cons, Fintype.card_fin] at hcard
  omega

end NodeChain

namespace QuarkKernel

open NodeChain

/-! ### The queue -/

/-- `struct queue_t`, and the heap its nodes are on. -/
structure LinkedQueue where
  heap : NodeHeap
  count : Word
  first : Word
  last : Word

namespace LinkedQueue

/-- `queue_construct` -/
def queueConstruct (heap : NodeHeap) : LinkedQueue := { heap, count := 0, first := 0, last := 0 }

/-- `queue->last->next = node`; `none` if there is no such node. -/
def setNext (heap : NodeHeap) (addr next : Word) : Option NodeHeap :=
  (heap addr).map fun node => Function.update heap addr (some { node with next })

/-- `queue_insert`, where `kmalloc` returns `node`. -/
def queueInsert (queue : LinkedQueue) (ptr node : Word) : Option (LinkedQueue × Status) :=
  if node = 0 then some (queue, .enomem)
  else
    let heap := Function.update queue.heap node (some ⟨ptr, 0⟩)
    if queue.last = 0 then
      some ({ heap, first := node, last := node, count := queue.count + 1 }, .enone)
    else do
      let heap ← setNext heap queue.last node
      some ({ queue with heap, last := node, count := queue.count + 1 }, .enone)

/-- `queue_get_next`.  The node goes back to the heap. -/
def queueGetNext (queue : LinkedQueue) : Option (LinkedQueue × Word) :=
  if queue.first = 0 then some (queue, 0)
  else do
    let node ← queue.heap queue.first
    some ({ heap := Function.update queue.heap queue.first none
            first := node.next
            last := if node.next = 0 then 0 else queue.last
            count := queue.count - 1 }, node.ptr)

/-- A call of one of the two, with what `kmalloc` returns to it. -/
inductive Call where
  | insert (ptr node : Word)
  | getNext
deriving DecidableEq, Repr

/-- What a call returns. -/
inductive Answer where
  | status (status : Status)
  | item (ptr : Word)
deriving DecidableEq, Repr

/-- `kmalloc` returns NULL, or a node that is not in use. -/
def Call.Supplied (heap : NodeHeap) : Call → Prop
  | insert _ node => node = 0 ∨ heap node = none
  | getNext => True

/-- The effect of a call. -/
def call (queue : LinkedQueue) : Call → Option (LinkedQueue × Answer)
  | .insert ptr node => (queue.queueInsert ptr node).map fun r => (r.1, .status r.2)
  | .getNext => queue.queueGetNext.map fun r => (r.1, .item r.2)

/-- What the calls mean for the items inserted and not yet removed, the oldest first. -/
def fifo (items : List Word) : Call → List Word × Answer
  | .insert ptr node =>
      if node = 0 then (items, .status .enomem) else (items ++ [ptr], .status .enone)
  | .getNext => (items.tail, .item (items.headD 0))

/-- The cells are the chain from `first`, which ends at `last`, and there are `count` of
them. -/
structure Linked (queue : LinkedQueue) (cells : List (Word × Word)) : Prop where
  chain : Chain queue.heap queue.first cells 0
  nodup : (cells.map Prod.fst).Nodup
  last : queue.last = (cells.map Prod.fst).getLastD 0
  count : queue.count.toNat = cells.length

/-- The chain of the queue carries the items. -/
def Carries (queue : LinkedQueue) (items : List Word) : Prop :=
  ∃ cells, queue.Linked cells ∧ cells.map Prod.snd = items

theorem carries_queueConstruct (heap : NodeHeap) : (queueConstruct heap).Carries [] :=
  ⟨[], ⟨rfl, List.nodup_nil, rfl, rfl⟩, rfl⟩

variable {queue : LinkedQueue} {cells : List (Word × Word)} {ptr node : Word}

/-- A node that is not in use is in no chain. -/
theorem Linked.not_mem (h : queue.Linked cells) (hnode : queue.heap node = none) :
    node ∉ cells.map Prod.fst := by
  intro hmem
  have hlive := (h.chain.live node hmem).2
  rw [hnode] at hlive
  exact Bool.noConfusion hlive

theorem Linked.last_eq_zero_iff (h : queue.Linked cells) : queue.last = 0 ↔ cells = [] := by
  rw [h.last]
  rcases List.eq_nil_or_concat cells with rfl | ⟨init, cell, rfl⟩
  · exact ⟨fun _ => rfl, fun _ => rfl⟩
  · have hne := (h.chain.live cell.1 (by simp)).1
    rw [List.concat_eq_append, List.map_append, List.map_singleton, List.getLastD_concat]
    exact ⟨fun hz => absurd hz hne, fun hnil => absurd hnil (by simp)⟩

/-- The count goes up with the chain: there are more addresses than nodes. -/
theorem toNat_count_succ (h : queue.Linked cells) (hfree : node ∉ cells.map Prod.fst)
    (hne : node ≠ 0) : (queue.count + 1).toNat = cells.length + 1 := by
  have hnull : ∀ a ∈ node :: cells.map Prod.fst, a ≠ 0 := by
    intro a ha
    rcases List.mem_cons.mp ha with rfl | ha
    · exact hne
    · exact (h.chain.live a ha).1
  have hlt := length_lt_of_nodup (List.nodup_cons.mpr ⟨hfree, h.nodup⟩) hnull
  rw [List.length_cons, List.length_map] at hlt
  rw [BitVec.toNat_add, h.count]
  exact Nat.mod_eq_of_lt hlt

/-- **Inserting** puts a cell at the end of the chain. -/
theorem Linked.insert (h : queue.Linked cells) (hne : node ≠ 0) (hnode : queue.heap node = none) :
    ∃ queue', queue.queueInsert ptr node = some (queue', .enone) ∧
      queue'.Linked (cells ++ [(node, ptr)]) := by
  have hfree := h.not_mem hnode
  have hnodup : ((cells ++ [(node, ptr)]).map Prod.fst).Nodup := by
    rw [List.map_append, List.map_singleton]
    exact List.nodup_append.mpr ⟨h.nodup, List.nodup_singleton node, fun a ha b hb => by
      rw [List.mem_singleton.mp hb]
      rintro rfl
      exact hfree ha⟩
  have hcount : (queue.count + 1).toNat = (cells ++ [(node, ptr)]).length := by
    rw [toNat_count_succ h hfree hne, List.length_append, List.length_singleton]
  have hlast : node = ((cells ++ [(node, ptr)]).map Prod.fst).getLastD 0 := by
    rw [List.map_append, List.map_singleton, List.getLastD_concat]
  unfold queueInsert
  rw [if_neg hne]
  rcases List.eq_nil_or_concat cells with rfl | ⟨init, cell, rfl⟩
  · -- the queue was empty
    simp only [if_pos (h.last_eq_zero_iff.mpr rfl)]
    exact ⟨_, rfl, ⟨rfl, hne, 0, Function.update_self .., rfl⟩, hnodup, hlast, hcount⟩
  · rw [List.concat_eq_append] at *
    have hend : queue.last = cell.1 := by
      rw [h.last, List.map_append, List.map_singleton, List.getLastD_concat]
    obtain ⟨middle, hinit, rfl, hcell, next, hold, rfl⟩ := chain_append.mp h.chain
    have hother : cell.1 ≠ node := by
      rintro rfl
      exact hfree (by simp)
    have hstart : cell.1 ∉ init.map Prod.fst := by
      have hsplit := h.nodup
      rw [List.map_append, List.nodup_append] at hsplit
      exact fun hmem => hsplit.2.2 cell.1 hmem cell.1 (by simp) rfl
    have hset : setNext (Function.update queue.heap node (some ⟨ptr, 0⟩)) queue.last node =
        some (Function.update (Function.update queue.heap node (some ⟨ptr, 0⟩)) cell.1
          (some ⟨cell.2, node⟩)) := by
      rw [setNext, hend, Function.update_of_ne hother, hold]
      rfl
    have hsame : ∀ a ∈ init.map Prod.fst,
        Function.update (Function.update queue.heap node (some ⟨ptr, 0⟩)) cell.1
          (some ⟨cell.2, node⟩) a = queue.heap a := by
      intro a ha
      rw [Function.update_of_ne (by rintro rfl; exact hstart ha),
        Function.update_of_ne (by rintro rfl; exact hfree (by simp [ha]))]
    simp only [if_neg (fun hz => List.append_ne_nil_of_right_ne_nil init (List.cons_ne_nil _ _)
      (h.last_eq_zero_iff.mp hz)), hset, Option.bind_eq_bind, Option.bind_some]
    refine ⟨_, rfl, ?_, hnodup, hlast, hcount⟩
    rw [List.append_assoc]
    refine chain_append.mpr ⟨cell.1, hinit.congr hsame, rfl, hcell, node, ?_, ?_⟩
    · exact Function.update_self ..
    · exact ⟨rfl, hne, 0, (Function.update_of_ne hother.symm ..).trans (Function.update_self ..),
        rfl⟩

/-- **Removing** takes the first cell away, and gives its node back. -/
theorem Linked.getNext {cell : Word × Word} (h : queue.Linked (cell :: cells)) :
    ∃ queue', queue.queueGetNext = some (queue', cell.2) ∧ queue'.Linked cells := by
  obtain ⟨hfirst, hne, next, hnode, hrest⟩ := h.chain
  obtain ⟨hfree, hnodup⟩ := List.nodup_cons.mp h.nodup
  have hsame : ∀ a ∈ cells.map Prod.fst,
      Function.update queue.heap queue.first none a = queue.heap a := by
    intro a ha
    apply Function.update_of_ne
    rintro rfl
    exact hfree (hfirst ▸ ha)
  refine ⟨_, by rw [queueGetNext, if_neg hne, hnode]; rfl, hrest.congr hsame, hnodup, ?_, ?_⟩
  · show (if next = 0 then 0 else queue.last) = _
    rcases List.eq_nil_or_concat cells with rfl | ⟨init, lastCell, rfl⟩
    · rw [if_pos (hrest.eq_zero_iff.mpr rfl)]
      rfl
    · have hsome : next ≠ 0 := fun hz =>
        absurd (hrest.eq_zero_iff.mp hz) (by rw [List.concat_eq_append]; simp)
      rw [if_neg hsome, h.last, List.concat_eq_append, ← List.cons_append, List.map_append,
        List.map_append, List.map_singleton, List.getLastD_concat, List.getLastD_concat]
  · have hcount := h.count
    rw [List.length_cons] at hcount
    show (queue.count - 1).toNat = cells.length
    bv_omega

/-- **Every call means to the items what `fifo` says**, and keeps the chain that carries them. -/
theorem Carries.call {items : List Word} (h : queue.Carries items) {next : Call}
    (hsupplied : next.Supplied queue.heap) :
    ∃ queue', queue.call next = some (queue', (fifo items next).2) ∧
      queue'.Carries (fifo items next).1 := by
  obtain ⟨cells, hlinked, rfl⟩ := h
  cases next with
  | insert ptr node =>
    by_cases hz : node = 0
    · rw [fifo, if_pos hz]
      refine ⟨queue, ?_, cells, hlinked, rfl⟩
      rw [LinkedQueue.call, queueInsert, if_pos hz]
      rfl
    · obtain ⟨queue', hinsert, hlinked'⟩ :=
        @Linked.insert queue cells ptr node hlinked hz (hsupplied.resolve_left hz)
      rw [fifo, if_neg hz]
      refine ⟨queue', ?_, _, hlinked', ?_⟩
      · rw [LinkedQueue.call, hinsert]
        rfl
      · rw [List.map_append, List.map_singleton]
  | getNext =>
    rcases cells with _ | ⟨cell, cells⟩
    · refine ⟨queue, ?_, [], hlinked, rfl⟩
      have hfirst : queue.first = 0 := hlinked.chain
      rw [LinkedQueue.call, queueGetNext, if_pos hfirst]
      rfl
    · obtain ⟨queue', hget, hlinked'⟩ := hlinked.getNext
      refine ⟨queue', ?_, cells, hlinked', rfl⟩
      rw [LinkedQueue.call, hget]
      rfl

/-! ### Runs -/

/-- A queue that has been constructed, with the items inserted and not yet removed, over the
calls that are made of it. -/
def queueSystem (heap : NodeHeap) : Transition.System (LinkedQueue × List Word) Call where
  Init s := s = (queueConstruct heap, [])
  Step s next s' := next.Supplied s.1.heap ∧ ∃ answer, s.1.call next = some (s'.1, answer) ∧
    s'.2 = (fifo s.2 next).1

theorem carries_of_reachable {heap : NodeHeap} {s : LinkedQueue × List Word}
    (h : (queueSystem heap).Reachable Transition.anyStep s) : s.1.Carries s.2 := by
  apply h.invariant fun s => s.1.Carries s.2
  · rintro s rfl
    exact carries_queueConstruct heap
  · rintro s next s' hcarries - ⟨hsupplied, answer, hcall, hitems⟩
    obtain ⟨queue', hcall', hcarries'⟩ := hcarries.call hsupplied
    obtain ⟨hqueue, -⟩ := Prod.mk.inj (Option.some.inj (hcall'.symm.trans hcall))
    rw [← hqueue, hitems]
    exact hcarries'

/-- The three fields of a queue with the given items are NULL and 0 together. -/
theorem Carries.null_iff {items : List Word} (h : queue.Carries items) :
    (queue.first = 0 ↔ queue.last = 0) ∧ (queue.last = 0 ↔ queue.count = 0) ∧
      queue.count.toNat = items.length := by
  obtain ⟨cells, hlinked, rfl⟩ := h
  have hcount : queue.count = 0 ↔ cells = [] := by
    rw [← List.length_eq_zero_iff, ← hlinked.count]
    exact ⟨fun hz => by rw [hz]; rfl, fun hz => BitVec.eq_of_toNat_eq hz⟩
  refine ⟨hlinked.chain.eq_zero_iff.trans hlinked.last_eq_zero_iff.symm,
    hlinked.last_eq_zero_iff.trans hcount.symm, ?_⟩
  rw [hlinked.count, List.length_map]

/-- **The queue is first in, first out.**  In every state of every run, the chain from `first`
carries the items inserted and not yet removed, and ends at `last`; `first`, `last` and
`count` vanish together; and every further call returns what it should, a failed insertion
with nothing changed. -/
theorem queue_fifo (heap : NodeHeap) (s : LinkedQueue × List Word)
    (h : (queueSystem heap).Reachable Transition.anyStep s) :
    s.1.Carries s.2 ∧
      ((s.1.first = 0 ↔ s.1.last = 0) ∧ (s.1.last = 0 ↔ s.1.count = 0) ∧
        s.1.count.toNat = s.2.length) ∧
      (∀ next, next.Supplied s.1.heap →
        ∃ queue', s.1.call next = some (queue', (fifo s.2 next).2)) ∧
      ∀ ptr, s.1.call (.insert ptr 0) = some (s.1, .status .enomem) := by
  have hcarries := carries_of_reachable h
  refine ⟨hcarries, hcarries.null_iff, fun next hsupplied => ?_, fun ptr => rfl⟩
  obtain ⟨queue', hcall, -⟩ := hcarries.call hsupplied
  exact ⟨queue', hcall⟩

/-- Two items inserted and one removed. -/
theorem queue_fifo_two : ∃ queue, (queueSystem fun _ => none).Reachable Transition.anyStep
    (queue, [0x22]) ∧ queue.Carries [0x22] ∧ queue.count.toNat = 1 := by
  have h0 : (queueSystem fun _ => none).Reachable Transition.anyStep
      (queueConstruct fun _ => none, []) := .init rfl
  have h1 : (queueSystem fun _ => none).Reachable Transition.anyStep (_, _) :=
    h0.step (l := Call.insert 0x11 0x100) trivial ⟨Or.inr rfl, _, rfl, rfl⟩
  have h2 : (queueSystem fun _ => none).Reachable Transition.anyStep (_, _) :=
    h1.step (l := Call.insert 0x22 0x200) trivial ⟨Or.inr rfl, _, rfl, rfl⟩
  have h3 : (queueSystem fun _ => none).Reachable Transition.anyStep (_, _) :=
    h2.step (l := Call.getNext) trivial ⟨trivial, _, rfl, rfl⟩
  have hfifo := queue_fifo (fun _ => none) _ h3
  exact ⟨_, h3, hfifo.1, hfifo.2.1.2.2⟩

end LinkedQueue
end QuarkKernel
