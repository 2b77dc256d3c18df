import QuarkKernel.HeapOwnership

/-! # Runs of the kernel with its heap

The blocks change nothing about what the kernel does: a step with blocks is one without
(`kernel_step`), and with all allocations it is there whenever that one is
(`exists_step`).  So what is known of the kernel's runs holds here, and with it every
step keeps the blocks accounted for (`exactlyLive_of_reachable`). -/
namespace QuarkKernel
namespace HeapKernel

variable {s s' : HeapKernel} {early : Multiset Ptr}

/-! ### The kernel without its blocks -/

theorem kernel_insertProcess {node : Option Ptr} {pid : Word} {p : Ptr}
    (h : s.insertProcess node pid p = some s') : s'.kernel = s.kernel := by
  obtain ⟨⟨processTable, new⟩, -, h⟩ := Option.bind_eq_some_iff.mp h
  obtain rfl := Option.some.inj h
  cases new <;> rfl

theorem kernel_removeProcess {pid : Word} (h : s.removeProcess pid = some s') :
    s'.kernel = s.kernel := by
  obtain ⟨⟨processTable, heap⟩, -, h⟩ := Option.bind_eq_some_iff.mp h
  obtain rfl := Option.some.inj h
  rfl

theorem kernel_erasePort {id : Word} (h : s.erasePort id = some s') : s'.kernel = s.kernel := by
  obtain ⟨⟨portTable, heap⟩, -, h⟩ := Option.bind_eq_some_iff.mp h
  obtain rfl := Option.some.inj h
  rfl

theorem kernel_queueGetNext (s : HeapKernel) (p : Ptr) : (s.queueGetNext p).2.kernel = s.kernel := by
  rw [queueGetNext]
  split <;> rfl

theorem kernel_freeMessages (p : Ptr) (n : Nat) (s : HeapKernel) :
    (freeMessages p n s).kernel = s.kernel := by
  induction n generalizing s with
  | zero => rfl
  | succ n ih =>
    have hnext := kernel_queueGetNext s p
    rw [freeMessages]
    split
    · rename_i t heq
      rw [heq] at hnext
      exact hnext
    · rename_i msg t heq
      rw [heq] at hnext
      exact (ih (t.kfree msg)).trans hnext

theorem kernel_queueInsert (s : HeapKernel) (node : Option Ptr) (p ptr : Ptr) (message : Message) :
    (s.queueInsert node p ptr message).kernel = s.kernel := by
  cases node <;> rfl

theorem kernel_spawnProcess {programEntry addressSpace pid : Word} {priority : Int}
    {alloc : SpawnBlocks}
    (h : s.kernelSpawnProcess programEntry priority addressSpace alloc = some (pid, s')) :
    s.kernel.kernelSpawnProcess programEntry priority addressSpace alloc.toSpawnAlloc =
      some (pid, s'.kernel) := by
  obtain ⟨⟨pid', kernel⟩, hk, h⟩ := Option.bind_eq_some_iff.mp h
  rw [hk]
  simp only at h
  split at h
  · cases h
    rfl
  · split at h
    · cases h
      rfl
    · split at h
      · cases h
        rfl
      · obtain ⟨t, hins, h⟩ := Option.bind_eq_some_iff.mp h
        obtain ⟨rfl, rfl⟩ := Prod.mk.inj (Option.some.inj h)
        rw [kernel_insertProcess hins]
        rfl

theorem kernel_terminateProcess {processId : Word} {r : Status}
    (h : s.kernelTerminateProcess processId = some (r, s')) :
    s.kernel.kernelTerminateProcess processId = some (r, s'.kernel) := by
  obtain ⟨⟨status, kernel⟩, hk, h⟩ := Option.bind_eq_some_iff.mp h
  rw [hk]
  simp only at h
  split at h
  · cases h
    rfl
  · obtain ⟨t, hrem, h⟩ := Option.bind_eq_some_iff.mp h
    obtain ⟨rfl, rfl⟩ := Prod.mk.inj (Option.some.inj h)
    show some (status, kernel) = some (status, (freeMessages _ _ t).kernel)
    rw [kernel_freeMessages, kernel_removeProcess hrem]

theorem kernel_createPort {id : Word} {port node : Option Ptr} {r : Status}
    (h : s.kernelCreatePort id port node = some (r, s')) :
    s.kernel.kernelCreatePort id port.isSome node.isSome = some (r, s'.kernel) := by
  obtain ⟨⟨status, kernel⟩, hk, h⟩ := Option.bind_eq_some_iff.mp h
  rw [hk]
  simp only at h
  split at h
  · cases h
    rfl
  · obtain ⟨ptr, -, h⟩ := Option.bind_eq_some_iff.mp h
    obtain ⟨⟨a, A⟩, -, h⟩ := Option.bind_eq_some_iff.mp h
    obtain ⟨⟨portTable, new⟩, -, h⟩ := Option.bind_eq_some_iff.mp h
    obtain ⟨rfl, rfl⟩ := Prod.mk.inj (Option.some.inj h)
    cases new <;> rfl

theorem kernel_removePort {id : Word} {r : Status} (h : s.kernelRemovePort id = some (r, s')) :
    s.kernel.kernelRemovePort id = some (r, s'.kernel) := by
  obtain ⟨⟨status, kernel⟩, hk, h⟩ := Option.bind_eq_some_iff.mp h
  rw [hk]
  simp only at h
  split at h
  · cases h
    rfl
  · obtain ⟨⟨a, A⟩, -, h⟩ := Option.bind_eq_some_iff.mp h
    simp only at h
    split at h
    · cases h
      rfl
    · obtain ⟨t, ht, h⟩ := Option.bind_eq_some_iff.mp h
      obtain ⟨rfl, rfl⟩ := Prod.mk.inj (Option.some.inj h)
      show some (status, kernel) = some (status, t.kernel)
      rw [kernel_erasePort ht]

theorem kernel_send {recipient message flags : Word} {alloc : QueueBlocks} {r : Status}
    (h : s.send recipient message flags alloc = some (r, s')) :
    s.kernel.send recipient message flags alloc.toQueueAlloc = some (r, s'.kernel) := by
  cases hrefuses : s.kernel.sendRefuses recipient flags with
  | some status =>
    rw [HeapKernel.send, hrefuses] at h
    cases h
    rw [Kernel.send, hrefuses]
  | none =>
    rw [HeapKernel.send, hrefuses] at h
    rw [Kernel.send, hrefuses]
    obtain ⟨⟨status, kernel⟩, hsend, h⟩ := Option.bind_eq_some_iff.mp h
    simp only [hsend, Option.bind_eq_bind, Option.bind_some]
    simp only at h
    split at h
    · rename_i hbusy
      rw [if_pos hbusy]
      rw [hbusy] at hsend
      rw [sendMessage_of_ebusy hsend] at h ⊢
      obtain ⟨⟨status', kernel'⟩, hk, h⟩ := Option.bind_eq_some_iff.mp h
      simp only at hk h
      rw [hk]
      split at h
      · obtain ⟨m, -, h⟩ := Option.bind_eq_some_iff.mp h
        obtain ⟨rfl, rfl⟩ := Prod.mk.inj (Option.some.inj h)
        rw [kernel_queueInsert]
        rfl
      · cases h
        rfl
    · rename_i hbusy
      rw [if_neg hbusy]
      cases h
      rfl

theorem kernel_receiveMessage {buffer flags : Word} {r : Option Status}
    (h : s.receiveMessage buffer flags = some (r, s')) :
    s.kernel.receiveMessage buffer flags = some (r, s'.kernel) := by
  obtain ⟨⟨status, kernel⟩, hk, h⟩ := Option.bind_eq_some_iff.mp h
  rw [hk]
  obtain ⟨⟨a, A⟩, -, h⟩ := Option.bind_eq_some_iff.mp h
  have hnext := kernel_queueGetNext { s with kernel } a
  simp only at h
  split at h
  · rename_i t heq
    rw [heq] at hnext
    obtain ⟨rfl, rfl⟩ := Prod.mk.inj (Option.some.inj h)
    rw [hnext]
  · rename_i msg t heq
    rw [heq] at hnext
    obtain ⟨rfl, rfl⟩ := Prod.mk.inj (Option.some.inj h)
    show some (status, kernel) = some (status, t.kernel)
    rw [hnext]

/-- **The kernel without its blocks** does the same step. -/
theorem kernel_step {op : Op} (h : s.Sound early) (hfresh : s.answersFresh op)
    (hst : s.step op = some s') : s.kernel.step op.toOp = some s'.kernel := by
  cases op with
  | programs memory =>
    cases hst
    rfl
  | spawn programEntry priority addressSpace alloc =>
    obtain ⟨⟨pid, t⟩, ht, rfl⟩ := Option.map_eq_some_iff.mp hst
    -- what the heap has not given out is no process
    have hblock : s.kernel.fresh alloc.toSpawnAlloc = true := by
      cases hp : alloc.process with
      | none => simp [Kernel.fresh, SpawnBlocks.toSpawnAlloc, hp]
      | some p =>
        have hmem : p ∈ (Op.spawn programEntry priority addressSpace alloc).answers.reduceOption := by
          rw [Op.answers, hp]
          exact List.mem_cons_self ..
        have hnone := h.processes_of_fresh (hfresh.2 p hmem)
        simp [Kernel.fresh, SpawnBlocks.toSpawnAlloc, hp, hnone]
    rw [Op.toOp, Kernel.step, if_pos hblock, kernel_spawnProcess ht]
    rfl
  | advance =>
    obtain ⟨kernel, hk, rfl⟩ := Option.map_eq_some_iff.mp hst
    exact hk
  | storeContext context =>
    obtain ⟨⟨r, kernel⟩, hk, rfl⟩ := Option.map_eq_some_iff.mp hst
    rw [Op.toOp, Kernel.step, hk]
    rfl
  | terminate processId =>
    obtain ⟨⟨r, t⟩, ht, rfl⟩ := Option.map_eq_some_iff.mp hst
    rw [Op.toOp, Kernel.step, kernel_terminateProcess ht]
    rfl
  | send recipient message flags alloc =>
    obtain ⟨⟨r, t⟩, ht, rfl⟩ := Option.map_eq_some_iff.mp hst
    rw [Op.toOp, Kernel.step, kernel_send ht]
    rfl
  | receive buffer flags =>
    obtain ⟨⟨r, t⟩, ht, rfl⟩ := Option.map_eq_some_iff.mp hst
    rw [Op.toOp, Kernel.step, Kernel.receive, kernel_receiveMessage ht]
    rfl
  | createPort id port node =>
    obtain ⟨⟨r, t⟩, ht, rfl⟩ := Option.map_eq_some_iff.mp hst
    rw [Op.toOp, Kernel.step, kernel_createPort ht]
    rfl
  | removePort id =>
    obtain ⟨⟨r, t⟩, ht, rfl⟩ := Option.map_eq_some_iff.mp hst
    rw [Op.toOp, Kernel.step, kernel_removePort ht]
    rfl

/-! ### The blocks do not get in the way -/

theorem exists_avlInsert {Block α β : Type} (f : α → β) {t : NodeTree Block α} {b : Block} {key : Int}
    {v : α} {tree : AvlTree β}
    (h : (t.erase f).avlInsert true key (some (f v)) = some tree) :
    ∃ t' new, t.avlInsert (some b) key (some v) = some (t', new) := by
  have herase := NodeTree.avlInsert_erase f (some b) t key (some v)
  rw [show (t.erase f).avlInsert (some b).isSome key ((some v).map f) = some tree from h] at herase
  obtain ⟨⟨t', new⟩, ht, -⟩ := Option.map_eq_some_iff.mp herase.symm
  exact ⟨t', new, ht⟩

theorem exists_avlRemove {Block α β : Type} [DecidableEq Block] (f : α → β)
    {t : NodeTree Block α} {linked : Multiset Block} {key : Int} {tree : AvlTree β}
    (hnodup : (t.nodes + linked).Nodup) (h : (t.erase f).avlRemove key = some tree)
    (heap : BlockHeap Block) :
    ∃ t' heap', t.avlRemoveFreeing linked heap key = some (t', heap') := by
  rw [NodeTree.avlRemove_erase] at h
  obtain ⟨⟨t', freed⟩, ht, -⟩ := Option.map_eq_some_iff.mp h
  rw [NodeTree.avlRemoveFreeing_eq hnodup, ht]
  exact ⟨t', _, rfl⟩

theorem exists_removeProcess {pid : Word} {table : AvlTree Ptr} (hnodup : s.references.Nodup)
    (h : (s.processTable.erase id).avlRemove pid.toInt = some table) :
    ∃ s', s.removeProcess pid = some s' := by
  rw [references, add_assoc] at hnodup
  obtain ⟨t', heap', ht⟩ := exists_avlRemove id hnodup h s.heap
  exact ⟨_, by rw [removeProcess, ht]; rfl⟩

theorem exists_erasePort {id : Word} {table : AvlTree Port} (hnodup : s.references.Nodup)
    (h : (s.portTable.erase Prod.snd).avlRemove id.toInt = some table) :
    ∃ s', s.erasePort id = some s' := by
  rw [references, add_left_comm] at hnodup
  obtain ⟨t', heap', ht⟩ := exists_avlRemove Prod.snd hnodup h s.heap
  exact ⟨_, by rw [erasePort, ht]; rfl⟩

theorem exists_spawnProcess {programEntry addressSpace pid : Word} {priority : Int}
    {p ctx node : Ptr} {stackPage : Word} {bytes : Option (Word → BitVec 8)} {kernel : Kernel}
    (h : s.Sound early) (hpage : stackPage.toNat % pageSize.toNat = 0)
    (hk : s.kernel.kernelSpawnProcess programEntry priority addressSpace
      (SpawnBlocks.toSpawnAlloc ⟨some p, some ctx, some node, stackPage, bytes⟩) =
        some (pid, kernel)) :
    ∃ s', s.kernelSpawnProcess programEntry priority addressSpace
      ⟨some p, some ctx, some node, stackPage, bytes⟩ = some (pid, s') := by
  obtain ⟨memory, table, htable, -⟩ := kernelSpawnProcess_succeeds hpage hk
  rw [← h.processTable] at htable
  obtain ⟨t', new, ht⟩ := exists_avlInsert id (b := node) htable
  rw [HeapKernel.kernelSpawnProcess, hk]
  simp only [Option.bind_eq_bind, Option.bind_some, hpage, ne_eq, not_true, if_false]
  rw [insertProcess]
  show ∃ s', Option.bind (Option.bind (s.processTable.avlInsert _ _ _) _) _ = some (pid, s')
  rw [ht]
  exact ⟨_, rfl⟩

theorem exists_terminateProcess {processId : Word} {r : Status} {kernel : Kernel}
    (h : s.Sound early)
    (hk : s.kernel.kernelTerminateProcess processId = some (r, kernel)) :
    ∃ s', s.kernelTerminateProcess processId = some (r, s') := by
  rw [HeapKernel.kernelTerminateProcess, hk]
  simp only [Option.bind_eq_bind, Option.bind_some, h.lookup processId]
  rcases Kernel.terminate_cases h.wellFormed.sending hk with
    ⟨-, hnone, -⟩ | ⟨p, P, table, queue, -, hlookup, -, htable, -⟩
  · rw [hnone]
    exact ⟨_, rfl⟩
  · rw [← h.processTable] at htable
    obtain ⟨t, ht⟩ := exists_removeProcess (s := { s with kernel }) h.nodup_references htable
    rw [hlookup]
    simp only [ht, Option.bind_some]
    exact ⟨_, rfl⟩

theorem exists_createPort {id : Word} {r : Status} {ptr node : Ptr} {kernel : Kernel}
    (h : s.Sound early)
    (hk : s.kernel.kernelCreatePort id true true = some (r, kernel)) :
    ∃ s', s.kernelCreatePort id (some ptr) (some node) = some (r, s') := by
  have hport := h.port id.toInt
  rw [HeapKernel.kernelCreatePort]
  simp only [Option.isSome_some, hk, Option.bind_eq_bind, Option.bind_some]
  split
  · exact ⟨_, rfl⟩
  · rename_i hnone
    rw [Kernel.kernelCreatePort,
      if_neg (by rw [← hport, Option.isSome_map]; exact hnone)] at hk
    obtain ⟨⟨a, A⟩, hactive, hk⟩ := Option.bind_eq_some_iff.mp hk
    obtain ⟨table, htable, hk⟩ := Option.bind_eq_some_iff.mp hk
    obtain ⟨rfl, rfl⟩ := Prod.mk.inj (Option.some.inj hk)
    rw [← h.portTable] at htable
    obtain ⟨t', new, ht⟩ := exists_avlInsert Prod.snd (b := node)
      (v := ((ptr, ⟨id, A.pid⟩) : Ptr × Port)) htable
    rw [hactive]
    show ∃ s', Option.bind (s.portTable.avlInsert _ _ _) _ = some (Status.enone, s')
    rw [ht]
    exact ⟨_, rfl⟩

theorem exists_removePort {id : Word} {r : Status} {kernel : Kernel} (h : s.Sound early)
    (hk : s.kernel.kernelRemovePort id = some (r, kernel)) :
    ∃ s', s.kernelRemovePort id = some (r, s') := by
  have hport := h.port id.toInt
  rw [HeapKernel.kernelRemovePort, hk]
  simp only [Option.bind_eq_bind, Option.bind_some]
  cases hget : s.portTable.avlGet id.toInt with
  | none => exact ⟨_, rfl⟩
  | some entry =>
    obtain ⟨ptr, port⟩ := entry
    rw [Kernel.kernelRemovePort, ← hport, hget] at hk
    obtain ⟨⟨a, A⟩, hactive, hk⟩ := Option.bind_eq_some_iff.mp hk
    simp only at hk
    simp only [hactive, Option.bind_some]
    split
    · exact ⟨_, rfl⟩
    · rename_i howner
      rw [if_neg howner] at hk
      obtain ⟨table, htable, hk⟩ := Option.bind_eq_some_iff.mp hk
      obtain ⟨rfl, rfl⟩ := Prod.mk.inj (Option.some.inj hk)
      rw [← h.portTable] at htable
      obtain ⟨t, ht⟩ := exists_erasePort
        (s := { s with kernel := { s.kernel with portTable := table } }) h.nodup_references htable
      rw [ht]
      exact ⟨_, rfl⟩

theorem exists_queueMessage {recipient message : Word} {r : Status} {ptr node : Ptr}
    {kernel : Kernel} (h : s.Sound early)
    (hk : s.kernel.kernelQueueMessage recipient message ⟨true, true⟩ = some (r, kernel)) :
    ∃ s', s.kernelQueueMessage recipient message ⟨some ptr, some node⟩ = some (r, s') := by
  have halloc : (⟨some ptr, some node⟩ : QueueBlocks).toQueueAlloc = ⟨true, true⟩ := rfl
  rw [HeapKernel.kernelQueueMessage, halloc, hk]
  simp only [Option.bind_eq_bind, Option.bind_some, h.lookup recipient]
  rcases Kernel.queueMessage_cases hk with ⟨-, hnone, -⟩ | ⟨-, hmessage, -⟩ |
    ⟨-, -, -, -, -, hnode, -⟩ | ⟨d, D, a, A, m, -, -, hd, -, -, hm, -⟩
  · rw [hnone]
    exact ⟨_, rfl⟩
  · cases hmessage
  · cases hnode
  · rw [hd, hm]
    exact ⟨_, rfl⟩

theorem exists_send {recipient message flags : Word} {r : Status} {ptr node : Ptr}
    {kernel : Kernel} (h : s.Sound early)
    (hk : s.kernel.send recipient message flags ⟨true, true⟩ = some (r, kernel)) :
    ∃ s', s.send recipient message flags ⟨some ptr, some node⟩ = some (r, s') := by
  cases hrefuses : s.kernel.sendRefuses recipient flags with
  | some status =>
    rw [Kernel.send, hrefuses] at hk
    cases hk
    rw [HeapKernel.send, hrefuses]
    exact ⟨_, rfl⟩
  | none =>
    rw [Kernel.send, hrefuses] at hk
    rw [HeapKernel.send, hrefuses]
    obtain ⟨⟨status, kernel1⟩, hsend, hk⟩ := Option.bind_eq_some_iff.mp hk
    simp only [hsend, Option.bind_eq_bind, Option.bind_some]
    simp only at hk
    split at hk
    · rename_i hbusy
      rw [hbusy] at hsend
      rw [if_pos hbusy, sendMessage_of_ebusy hsend]
      rw [sendMessage_of_ebusy hsend] at hk
      exact exists_queueMessage h hk
    · rename_i hbusy
      rw [if_neg hbusy]
      cases hk
      exact ⟨_, rfl⟩

theorem exists_receiveMessage {buffer flags : Word} {r : Option Status} {kernel : Kernel}
    (hk : s.kernel.receiveMessage buffer flags = some (r, kernel)) :
    ∃ s', s.receiveMessage buffer flags = some (r, s') := by
  obtain ⟨a, A, hactive, -⟩ := Kernel.receive_cases hk
  rw [HeapKernel.receiveMessage, hk]
  simp only [hactive, Option.bind_eq_bind, Option.bind_some]
  split
  · exact ⟨_, rfl⟩
  · exact ⟨_, rfl⟩

theorem spawn_allocates {programEntry addressSpace : Word} {priority : Int} {alloc : SpawnBlocks}
    (h : (Op.spawn programEntry priority addressSpace alloc).allocates = true) :
    ∃ p ctx node stackPage bytes, alloc = ⟨some p, some ctx, some node, stackPage, bytes⟩ ∧
      stackPage.toNat % pageSize.toNat = 0 := by
  obtain ⟨process, context, node, stackPage, bytes⟩ := alloc
  simp only [Op.allocates, Op.answers, List.all_cons, List.all_nil, Bool.and_eq_true,
    decide_eq_true_eq] at h
  obtain ⟨⟨⟨hp, hc, hn, -⟩, hpage⟩, -⟩ := h
  obtain ⟨p, rfl⟩ := Option.isSome_iff_exists.mp hp
  obtain ⟨ctx, rfl⟩ := Option.isSome_iff_exists.mp hc
  obtain ⟨node, rfl⟩ := Option.isSome_iff_exists.mp hn
  exact ⟨p, ctx, node, stackPage, bytes, rfl, hpage⟩

theorem pair_allocates {a b : Option Ptr} (h : [a, b].all Option.isSome = true) :
    (∃ p, a = some p) ∧ ∃ q, b = some q := by
  simp only [List.all_cons, List.all_nil, Bool.and_eq_true] at h
  exact ⟨Option.isSome_iff_exists.mp h.1, Option.isSome_iff_exists.mp h.2.1⟩

/-- **Nothing is lost**: with all allocations, the kernel with its blocks can do every step
of the kernel without them. -/
theorem exists_step {op : Op} {kernel : Kernel} (h : s.Sound early) (halloc : op.allocates = true)
    (hk : s.kernel.step op.toOp = some kernel) : ∃ s', s.step op = some s' := by
  cases op with
  | programs memory => exact ⟨_, rfl⟩
  | spawn programEntry priority addressSpace alloc =>
    obtain ⟨p, ctx, node, stackPage, bytes, rfl, hpage⟩ := spawn_allocates halloc
    rw [Op.toOp, Kernel.step] at hk
    split at hk
    · obtain ⟨⟨pid, kernel'⟩, hk, -⟩ := Option.map_eq_some_iff.mp hk
      obtain ⟨s', hs'⟩ := exists_spawnProcess h hpage hk
      exact ⟨s', by rw [step, hs', Option.map_some]⟩
    · cases hk
  | advance =>
    have hk : s.kernel.kernelAdvanceScheduler = some kernel := hk
    exact ⟨_, by rw [step, hk, Option.map_some]⟩
  | storeContext context =>
    obtain ⟨⟨r, kernel'⟩, hk, -⟩ := Option.map_eq_some_iff.mp hk
    exact ⟨_, by rw [step, hk, Option.map_some]⟩
  | terminate processId =>
    obtain ⟨⟨r, kernel'⟩, hk, -⟩ := Option.map_eq_some_iff.mp hk
    obtain ⟨s', hs'⟩ := exists_terminateProcess h hk
    exact ⟨s', by rw [step, hs', Option.map_some]⟩
  | send recipient message flags alloc =>
    obtain ⟨ptr, node⟩ := alloc
    obtain ⟨⟨ptr, rfl⟩, node, rfl⟩ := pair_allocates halloc
    obtain ⟨⟨r, kernel'⟩, hk, -⟩ := Option.map_eq_some_iff.mp hk
    obtain ⟨s', hs'⟩ := exists_send h hk
    exact ⟨s', by rw [step, hs', Option.map_some]⟩
  | receive buffer flags =>
    obtain ⟨⟨r, kernel'⟩, hk, -⟩ := Option.map_eq_some_iff.mp hk
    obtain ⟨s', hs'⟩ := exists_receiveMessage hk
    exact ⟨s', by rw [step, hs', Option.map_some]⟩
  | createPort id port node =>
    obtain ⟨⟨port, rfl⟩, node, rfl⟩ := pair_allocates halloc
    obtain ⟨⟨r, kernel'⟩, hk, -⟩ := Option.map_eq_some_iff.mp hk
    obtain ⟨s', hs'⟩ := exists_createPort h hk
    exact ⟨s', by rw [step, hs', Option.map_some]⟩
  | removePort id =>
    obtain ⟨⟨r, kernel'⟩, hk, -⟩ := Option.map_eq_some_iff.mp hk
    obtain ⟨s', hs'⟩ := exists_removePort h hk
    exact ⟨s', by rw [step, hs', Option.map_some]⟩

/-! ### Runs -/

/-- The blocks after a step all of whose allocations succeed. -/
theorem Accounts.step {op : Op} (h : s.Sound early) (halloc : op.allocates = true)
    (hfresh : s.answersFresh op) (hst : s.step op = some s') :
    s'.Accounts (s.leafFreed op + early) := by
  have hsame : s'.Accounts early → s'.Accounts (0 + early) := by
    rw [zero_add]
    exact id
  cases op with
  | programs memory =>
    cases hst
    exact hsame (h.toAccounts.withKernel rfl rfl (.of_eq rfl))
  | spawn programEntry priority addressSpace alloc =>
    obtain ⟨⟨pid, t⟩, ht, rfl⟩ := Option.map_eq_some_iff.mp hst
    obtain ⟨p, ctx, node, stackPage, bytes, rfl, hpage⟩ := spawn_allocates halloc
    exact hsame (.spawn h hpage hfresh.1 hfresh.2 ht)
  | advance =>
    obtain ⟨kernel, hk, rfl⟩ := Option.map_eq_some_iff.mp hst
    exact hsame (h.toAccounts.advance hk)
  | storeContext context =>
    obtain ⟨⟨r, kernel⟩, hk, rfl⟩ := Option.map_eq_some_iff.mp hst
    exact hsame (h.toAccounts.storeContext hk)
  | terminate processId =>
    obtain ⟨⟨r, t⟩, ht, rfl⟩ := Option.map_eq_some_iff.mp hst
    exact .terminate h ht
  | send recipient message flags alloc =>
    obtain ⟨⟨r, t⟩, ht, rfl⟩ := Option.map_eq_some_iff.mp hst
    obtain ⟨ptr, node⟩ := alloc
    obtain ⟨⟨ptr, rfl⟩, node, rfl⟩ := pair_allocates halloc
    exact hsame (.send h hfresh.1 hfresh.2 ht)
  | receive buffer flags =>
    obtain ⟨⟨r, t⟩, ht, rfl⟩ := Option.map_eq_some_iff.mp hst
    exact hsame (.receive h ht)
  | createPort id port node =>
    obtain ⟨⟨r, t⟩, ht, rfl⟩ := Option.map_eq_some_iff.mp hst
    obtain ⟨⟨port, rfl⟩, node, rfl⟩ := pair_allocates halloc
    exact hsame (.createPort h hfresh.1 hfresh.2 ht)
  | removePort id =>
    obtain ⟨⟨r, t⟩, ht, rfl⟩ := Option.map_eq_some_iff.mp hst
    exact .removePort h ht

theorem Sound.step {op : Op} (h : s.Sound early) (halloc : op.allocates = true)
    (hfresh : s.answersFresh op) (hbelow : s.kernel.counterBelow op.toOp = true)
    (hst : s.step op = some s') : s'.Sound (s.leafFreed op + early) := by
  have hk := kernel_step h hfresh hst
  have hop : op.toOp ≠ .signalReturn := by
    cases op <;> exact fun heq => nomatch heq
  have heffect := Kernel.step_effect h.wellFormed.sending hop hk
  have hpid : s.kernel.assignsUnusedPid op.toOp = true := by
    have hnext := h.numbered.nextPidFree h.wellFormed
    rw [Kernel.nextPidFree, Bool.and_eq_true] at hnext
    cases op <;> first | rfl | exact Bool.or_eq_true _ _ ▸ .inr hnext.2
  have hclean : s.kernel.returnsCleanly op.toOp = true := by
    cases op <;> rfl
  exact {
    toAccounts := .step h halloc hfresh hst
    wellFormed := h.wellFormed.step hk
    registered := h.registered.effect hpid heffect
    numbered := h.numbered.effect hbelow heffect
    ready := h.ready.step h.wellFormed hclean hk }

theorem Sound.boot (h : s.Boot) : s.Sound 0 := by
  obtain ⟨hboot, htable, hport, hheap⟩ := h
  have hrefs : s.references = 0 := by
    rw [references, htable, hport]
    rfl
  have hholds : s.Holds 0 0 := by
    rw [Holds, hheap, hrefs]
    exact BlockHeap.accounted_empty
  have haccounts : s.Accounts 0 := by
    obtain ⟨heap, cr3, memory, hk⟩ := hboot
    refine ⟨?_, ?_, ?_, ?_, hholds⟩
    · rw [htable, hk]
      rfl
    · rw [hport, hk]
      rfl
    · intro p P hP
      rw [hk] at hP
      cases hP
    · rw [hport]
      exact NodeTree.Table.nil
  exact {
    toAccounts := haccounts
    wellFormed := .boot hboot
    registered := .boot hboot
    numbered := .boot hboot
    ready := .boot hboot }

/-- Every allocation succeeds, `kmalloc` provides blocks that are not live, and a spawn
does not use up the last value of `next_pid`. -/
def accountable (s : HeapKernel) (op : Op) : Prop :=
  op.allocates = true ∧ s.answersFresh op ∧ s.kernel.counterBelow op.toOp = true

instance (s : HeapKernel) (op : Op) : Decidable (s.accountable op) :=
  inferInstanceAs (Decidable (_ ∧ _ ∧ _))

theorem sound_of_reachable (h : system.Reachable accountable s) : s.Sound s.heap.early := by
  refine h.invariant (fun s => s.Sound s.heap.early) (fun s hboot => ?_)
    fun s op s' hi hok hst => ?_
  · have hsound := Sound.boot hboot
    rwa [hsound.holds.early]
  · have hsound := hi.step hok.1 hok.2.1 hok.2.2 hst
    rwa [hsound.holds.early]

/-- The blocks in use, once and for all: the live blocks are those `references` lists,
all different; no free was of a block that was not live; the tables and queues it lists
them from are those of the kernel, with an entry for each process there is; and what is
ready or active is live. -/
structure ExactlyLive (s : HeapKernel) : Prop where
  live : s.heap.live = s.references
  nodup : s.references.Nodup
  stray : s.heap.stray = 0
  processes : ∀ p, p ∈ s.processTable.values ↔ ∃ P, s.kernel.processes p = some P
  processTable : s.processTable.erase id = s.kernel.processTable
  messages : ∀ p P, s.kernel.processes p = some P →
    (s.messageQueue p).map QueueNode.message = P.messageQueue
  portTable : s.portTable.erase Prod.snd = s.kernel.portTable
  scheduled : ∀ p, p ∈ s.kernel.occupied → p ∈ s.heap.live

theorem Sound.exactlyLive (h : s.Sound early) : s.ExactlyLive := by
  have hlive := h.holds.live
  have hnodup := h.holds.nodup
  rw [Multiset.add_zero] at hlive hnodup
  refine ⟨hlive, hnodup, h.holds.stray, fun p => h.mem_values, h.processTable, h.messages,
    h.portTable, ?_⟩
  intro p hp
  obtain ⟨P, hP, -⟩ := h.ready.running p hp
  exact h.live_of_mem_values (h.mem_values.mpr ⟨P, hP⟩)

/-- **Heap accounting.**  In every run with all its allocations, before `next_pid` comes
round: between any two steps the live blocks are exactly a `process_t`, a context and a
table node for each process, a message and a queue node for each message that waits, and
a `port_t` and a tree node for each port; all that were freed were live.  In a step the only
block that is freed while the structures lead to it is the node that `avl_remove` frees, if
that one has no children. -/
theorem exactlyLive_of_reachable (h : system.Reachable accountable s) :
    s.ExactlyLive ∧ ∀ op s', s.accountable op → s.step op = some s' →
      s'.ExactlyLive ∧ s'.heap.early = s.leafFreed op + s.heap.early := by
  have hsound := sound_of_reachable h
  refine ⟨hsound.exactlyLive, fun op s' hok hst => ?_⟩
  have hsound' := hsound.step hok.1 hok.2.1 hok.2.2 hst
  exact ⟨hsound'.exactlyLive, hsound'.holds.early⟩

/-- The state concrete runs start from. -/
def bare : HeapKernel := ⟨.bare, .nil, .nil, fun _ => 0, fun _ => [], .empty⟩

theorem boot_bare : bare.Boot := ⟨Kernel.boot_bare, rfl, rfl, rfl⟩

/-- Two processes; the first opens a port and sends two messages, of which the second
takes one. -/
def oneMessageRun : List Op :=
  [.spawn 0x8000 1 0x1000 ⟨some 10, some 11, some 12, 0x5000, some fun _ => 0⟩,
    .spawn 0x9000 1 0x1000 ⟨some 20, some 21, some 22, 0x6000, some fun _ => 0⟩,
    .advance, .createPort 7 (some 30) (some 31),
    .send 2 0xFF3FFF00 0 ⟨some 40, some 41⟩, .send 2 0xFF3FFF00 0 ⟨some 42, some 43⟩,
    .advance, .receive 0xFF3FFF80 0]

theorem runs_oneMessageRun :
    (Transition.System.runFrom accountable step bare oneMessageRun).any (fun s =>
      decide (s.accountable (.terminate 2)) && (s.step (.terminate 2)).isSome &&
        decide (s.leafFreed (.terminate 2) = {22})) = true := by
  decide +kernel

/-- The second one is ended with the other message.  Its node in the table has no
children. -/
theorem exactlyLive_oneMessageRun :
    ∃ s s', Transition.System.runFrom accountable step bare oneMessageRun = some s ∧
      s.step (.terminate 2) = some s' ∧ s'.ExactlyLive ∧ s'.heap.early = {22} + s.heap.early := by
  obtain ⟨s, hs, hlast⟩ := (Option.any_eq_true _ _).mp runs_oneMessageRun
  rw [Bool.and_eq_true, Bool.and_eq_true] at hlast
  obtain ⟨⟨hok, hsome⟩, hleaf⟩ := hlast
  obtain ⟨s', hs'⟩ := Option.isSome_iff_exists.mp hsome
  obtain ⟨hlive, hearly⟩ := (exactlyLive_of_reachable (.runFrom _ _ (.init boot_bare) hs)).2
    (.terminate 2) s' (of_decide_eq_true hok) hs'
  rw [of_decide_eq_true hleaf] at hearly
  exact ⟨s, s', hs, hs', hlive, hearly⟩

/-- The node of the only process is freed while `kernel.process_table` is its address. -/
theorem not_freedLast_oneProcess :
    ¬ ∀ s, system.Reachable accountable s → s.ExactlyLive ∧ s.heap.early = 0 := by
  intro hall
  have hrun : (Transition.System.runFrom accountable step bare
      [.spawn 0x8000 1 0x1000 ⟨some 10, some 11, some 12, 0x5000, some fun _ => 0⟩,
        .terminate 1]).any (fun s => decide (s.heap.early = {12})) = true := by decide +kernel
  obtain ⟨s, hs, hearly⟩ := (Option.any_eq_true _ _).mp hrun
  have hnone := (hall s (.runFrom _ _ (.init boot_bare) hs)).2
  rw [of_decide_eq_true hearly] at hnone
  exact absurd hnone (by decide)

end HeapKernel
end QuarkKernel
