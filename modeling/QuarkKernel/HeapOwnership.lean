import QuarkKernel.HeapAccounting

/-! # The blocks in use between two calls

Each call of the kernel, with all its allocations, keeps the blocks accounted for:
`Accounts.spawn`, `Accounts.terminate` and so on follow the blocks through the
functions, from where `kmalloc` provides them or the structures give them up to where
they are stored or freed. -/
namespace QuarkKernel
namespace HeapKernel

variable {s s' : HeapKernel} {early : Multiset Ptr}

/-! ### Processes -/

/-- A spawn whose allocations succeed. -/
theorem kernelSpawnProcess_succeeds {k k' : Kernel} {programEntry addressSpace pid : Word}
    {priority : Int} {p ctx node : Ptr} {stackPage : Word} {bytes : Option (Word → BitVec 8)}
    (hpage : stackPage.toNat % pageSize.toNat = 0)
    (h : k.kernelSpawnProcess programEntry priority addressSpace
      (SpawnBlocks.toSpawnAlloc ⟨some p, some ctx, some node, stackPage, bytes⟩) =
        some (pid, k')) :
    ∃ memory processTable, k.processTable.avlInsert true k.nextPid.toInt (some p) =
        some processTable ∧
      k' = { k.enqueue p priority with
        memory, processTable, nextPid := k.nextPid + 1
        processes := Function.update k.processes p
          (some (Kernel.newProcess k.nextPid programEntry priority addressSpace)) } := by
  rw [Kernel.kernelSpawnProcess, SpawnBlocks.toSpawnAlloc] at h
  simp only [Option.isSome_some, Bool.not_true, Bool.false_eq_true, hpage, ne_eq, not_true,
    if_false] at h
  cases bytes with
  | none =>
    obtain ⟨table, ht, h⟩ := Option.bind_eq_some_iff.mp h
    cases h
    exact ⟨_, table, ht, rfl⟩
  | some bytes =>
    obtain ⟨table, ht, h⟩ := Option.bind_eq_some_iff.mp h
    cases h
    exact ⟨_, table, ht, rfl⟩

theorem Accounts.spawn {programEntry addressSpace pid : Word} {priority : Int}
    {p ctx node : Ptr} {stackPage : Word} {bytes : Option (Word → BitVec 8)} (h : s.Sound early)
    (hpage : stackPage.toNat % pageSize.toNat = 0) (hnodup : [p, ctx, node].Nodup)
    (hfresh : ∀ b ∈ [p, ctx, node], b ∉ s.heap.live)
    (hst : s.kernelSpawnProcess programEntry priority addressSpace
      ⟨some p, some ctx, some node, stackPage, bytes⟩ = some (pid, s')) : s'.Accounts early := by
  obtain ⟨⟨pid', kernel⟩, hk, hst⟩ := Option.bind_eq_some_iff.mp hst
  obtain ⟨memory, table, htable, hk'⟩ := kernelSpawnProcess_succeeds hpage hk
  simp only [hpage, ne_eq, not_true, if_false] at hst
  obtain ⟨t, hins, hst⟩ := Option.bind_eq_some_iff.mp hst
  obtain ⟨rfl, rfl⟩ := Prod.mk.inj (Option.some.inj hst)
  have hp := hfresh p (by simp)
  have hctx := hfresh ctx (by simp)
  have hnode := hfresh node (by simp)
  obtain ⟨⟨hpc, hpn⟩, hcn⟩ : (p ≠ ctx ∧ p ≠ node) ∧ ctx ≠ node := by simpa using hnodup
  have hout : p ∉ s.processTable.values := fun hin => hp (h.live_of_mem_values hin)
  -- the blocks of the process, and the node for it
  have hblock : ({ s with kernel }.kmalloc p).Holds (p ::ₘ 0) early := Holds.kmalloc h.holds hp
  have hctx' : ctx ∉ ({ s with kernel }.kmalloc p).heap.live := by
    rintro hin
    rcases Multiset.mem_cons.mp hin with heq | hin
    · exact hpc heq.symm
    · exact hctx hin
  have hnode' : node ∉ (({ s with kernel }.kmalloc p).kmalloc ctx).heap.live := by
    rintro hin
    rcases Multiset.mem_cons.mp hin with heq | hin
    · exact hcn heq.symm
    · rcases Multiset.mem_cons.mp hin with heq | hin
      · exact hpn heq.symm
      · exact hnode hin
  have hprocess := (hblock.kmalloc hctx').newProcess hout rfl
  have hfree : s.processTable.avlGet s.kernel.nextPid.toInt = none := by
    have hnext := h.numbered.nextPidFree h.wellFormed
    rw [Kernel.nextPidFree, Bool.and_eq_true, Option.isNone_iff_eq_none] at hnext
    rw [h.lookup]
    exact hnext.2
  obtain ⟨hholds, processTable, new, htree, hs'⟩ :=
    hprocess.insertProcess hnode' h.table hfree hins
  have htable' : kernel.processTable = table := by rw [hk']
  have hproc : kernel.processes = Function.update s.kernel.processes p
      (some (Kernel.newProcess s.kernel.nextPid programEntry priority addressSpace)) := by rw [hk']
  have herase : s.kernel.processTable.avlInsert true s.kernel.nextPid.toInt (some p) =
      some (processTable.erase id) := by
    rw [← h.processTable]
    exact NodeTree.erase_avlInsert id htree
  rw [hs']
  constructor
  · show processTable.erase id = kernel.processTable
    rw [htable']
    exact Option.some.inj (herase.symm.trans htable)
  · show s.portTable.erase Prod.snd = kernel.portTable
    rw [hk']
    exact h.portTable
  · exact h.messages_update hproc rfl
  · exact h.ports
  · rw [← hs']
    exact hholds

theorem Accounts.terminate {processId : Word} {r : Status} (h : s.Sound early)
    (hst : s.kernelTerminateProcess processId = some (r, s')) :
    s'.Accounts (s.leafFreed (.terminate processId) + early) := by
  obtain ⟨⟨status, kernel⟩, hk, hst⟩ := Option.bind_eq_some_iff.mp hst
  simp only [h.lookup processId] at hst
  rcases Kernel.terminate_cases h.wellFormed.sending hk with
    ⟨-, hnone, rfl⟩ | ⟨p, P, table, queue, -, hlookup, hP, htable, -, -, -, hk'⟩
  · rw [hnone] at hst
    cases hst
    rw [leafFreed, h.table.leafFreed_of_none ((h.lookup processId).trans hnone),
      Option.toList_none, Multiset.coe_nil, zero_add]
    exact h.toAccounts
  · rw [hlookup] at hst
    obtain ⟨t, hrem, hst⟩ := Option.bind_eq_some_iff.mp hst
    obtain ⟨rfl, rfl⟩ := Prod.mk.inj (Option.some.inj hst)
    have hget : s.processTable.avlGet processId.toInt = some p := (h.lookup processId).trans hlookup
    obtain ⟨hheld, hout, processTable, freed, htree, ht⟩ :=
      Holds.removeProcess (s := { s with kernel }) h.holds h.table hget hrem
    -- the messages with their nodes, the context, and the process
    have hqueue : t.messageQueue p = s.messageQueue p := by rw [ht]
    have hctx : t.ctx p = s.ctx p := by rw [ht]
    have hblocks : t.Holds (queueBlocks (t.messageQueue p) + s.ctx p ::ₘ p ::ₘ 0)
        (s.leafFreed (.terminate processId) + early) := by
      refine hheld.link rfl ?_
      rw [hqueue]
      show _ = t.references + (p ::ₘ s.ctx p ::ₘ queueBlocks (s.messageQueue p) + 0)
      simp only [← Multiset.singleton_add]
      abel
    obtain ⟨hfreed, hshape⟩ := hblocks.freeMessages hout rfl
    obtain ⟨u, hu⟩ : ∃ u, u = freeMessages p (t.messageQueue p).length t := ⟨_, rfl⟩
    rw [← hu] at hfreed hshape ⊢
    have hctx' : u.ctx p = s.ctx p := by
      rw [hshape]
      exact hctx
    have hutable : u.processTable = processTable := by
      rw [hshape]
      show t.processTable = processTable
      rw [ht]
    have huqueue : u.messageQueue = Function.update s.messageQueue p [] := by
      rw [hshape]
      show Function.update t.messageQueue p [] = _
      rw [ht]
    have hukernel : u.kernel = kernel := by
      rw [hshape]
      show t.kernel = kernel
      rw [ht]
    have huports : u.portTable = s.portTable := by
      rw [hshape]
      show t.portTable = s.portTable
      rw [ht]
    have hproc : kernel.processes = Function.update s.kernel.processes p none := by rw [hk']
    have herase : s.kernel.processTable.avlRemove processId.toInt = some (processTable.erase id) := by
      rw [← h.processTable]
      exact NodeTree.erase_avlRemove id htree
    rw [hctx']
    constructor
    · show u.processTable.erase id = u.kernel.processTable
      rw [hutable, hukernel, hk']
      exact Option.some.inj (herase.symm.trans htable)
    · show u.portTable.erase Prod.snd = u.kernel.portTable
      rw [huports, hukernel, hk']
      exact h.portTable
    · intro q Q hQ
      have hQ : u.kernel.processes q = some Q := hQ
      show (u.messageQueue q).map QueueNode.message = Q.messageQueue
      rw [hukernel, hproc] at hQ
      have hqp : q ≠ p := by
        rintro rfl
        rw [Function.update_self] at hQ
        cases hQ
      rw [Function.update_of_ne hqp] at hQ
      rw [huqueue, Function.update_of_ne hqp]
      exact h.messages q Q hQ
    · show u.portTable.Table
      rw [huports]
      exact h.ports
    · exact hfreed.kfree.kfree

theorem Accounts.storeContext {context : ProcessContext} {r : Status} {kernel : Kernel}
    (h : s.Accounts early) (hst : s.kernel.kernelStoreActiveContext context = some (r, kernel)) :
    Accounts { s with kernel } early := by
  rcases Kernel.storeContext_cases hst with rfl | ⟨p, P, hactive, rfl⟩
  · exact h
  · exact h.withKernel rfl rfl (.update (Kernel.active_eq_some.mp hactive).2 rfl rfl)

theorem Accounts.advance {kernel : Kernel} (h : s.Accounts early)
    (hst : s.kernel.kernelAdvanceScheduler = some kernel) : Accounts { s with kernel } early := by
  obtain ⟨p, P, queue, -, rfl, -⟩ := Kernel.advance_cases hst
  exact h.withKernel rfl rfl (.of_eq rfl)

/-! ### Messages -/

theorem Accounts.sendMessage {recipient message : Word} {r : Status} {kernel : Kernel}
    (h : s.Accounts early) (hst : s.kernel.kernelSendMessage recipient message = some (r, kernel)) :
    Accounts { s with kernel } early := by
  rcases Kernel.sendMessage_cases hst with ⟨-, -, rfl⟩ | ⟨d, D, -, -, -, -, rfl⟩ |
    ⟨d, D, a, A, m, memory, -, -, hD, -, -, -, -, rfl⟩
  · exact h
  · exact h
  · exact h.withKernel rfl rfl (.update hD rfl rfl)

theorem Accounts.queueMessage {recipient message : Word} {r : Status} {ptr node : Ptr}
    (h : s.Sound early) (hnodup : [ptr, node].Nodup) (hfresh : ∀ b ∈ [ptr, node], b ∉ s.heap.live)
    (hst : s.kernelQueueMessage recipient message ⟨some ptr, some node⟩ = some (r, s')) :
    s'.Accounts early := by
  obtain ⟨⟨status, kernel⟩, hk, hst⟩ := Option.bind_eq_some_iff.mp hst
  simp only [h.lookup recipient] at hst
  rcases Kernel.queueMessage_cases hk with ⟨-, hnone, rfl⟩ | ⟨-, hmessage, -⟩ |
    ⟨-, -, -, -, -, hnode, -⟩ | ⟨d, D, a, A, m, -, -, hd, hD, -, hm, hk'⟩
  · rw [hnone] at hst
    cases hst
    exact h.toAccounts
  · cases hmessage
  · cases hnode
  · rw [hd] at hst
    simp only [hm, Option.bind_eq_bind, Option.bind_some] at hst
    obtain ⟨rfl, rfl⟩ := Prod.mk.inj (Option.some.inj hst)
    have hptr := hfresh ptr (by simp)
    have hnode := hfresh node (by simp)
    have hne : node ≠ ptr := by
      rintro rfl
      exact absurd hnodup (by simp)
    have hin : d ∈ s.processTable.values := h.mem_values.mpr ⟨D, hD⟩
    have hmsg : ({ s with kernel }.kmalloc ptr).Holds (ptr ::ₘ 0) early :=
      Holds.kmalloc h.holds hptr
    have hnode' : node ∉ ({ s with kernel }.kmalloc ptr).heap.live := by
      intro hmem
      rcases Multiset.mem_cons.mp hmem with heq | hmem
      · exact hne heq
      · exact hnode hmem
    rw [queueInsert_some]
    constructor
    · show s.processTable.erase id = kernel.processTable
      rw [hk']
      exact h.processTable
    · show s.portTable.erase Prod.snd = kernel.portTable
      rw [hk']
      exact h.portTable
    · refine h.messages_update (by rw [hk']; rfl) ?_
      rw [List.map_append]
      exact congrArg (· ++ [m]) (h.messages d D hD)
    · exact h.ports
    · exact (hmsg.kmalloc hnode').append hin m

/-- At a busy recipient, nothing has happened so far. -/
theorem sendMessage_of_ebusy {k k' : Kernel} {recipient message : Word}
    (h : k.kernelSendMessage recipient message = some (.ebusy, k')) : k' = k := by
  rcases Kernel.sendMessage_cases h with ⟨hr, -⟩ | ⟨-, -, -, -, -, -, hk⟩ |
    ⟨-, -, -, -, -, -, hr, -⟩
  · cases hr
  · exact hk
  · cases hr

theorem Accounts.send {recipient message flags : Word} {r : Status} {ptr node : Ptr}
    (h : s.Sound early) (hnodup : [ptr, node].Nodup) (hfresh : ∀ b ∈ [ptr, node], b ∉ s.heap.live)
    (hst : s.send recipient message flags ⟨some ptr, some node⟩ = some (r, s')) :
    s'.Accounts early := by
  rw [HeapKernel.send] at hst
  split at hst
  · cases hst
    exact h.toAccounts
  · obtain ⟨⟨status, kernel⟩, hsend, hst⟩ := Option.bind_eq_some_iff.mp hst
    simp only at hst
    split at hst
    · rename_i hbusy
      rw [hbusy] at hsend
      rw [sendMessage_of_ebusy hsend] at hst
      exact queueMessage h hnodup hfresh hst
    · cases hst
      exact h.toAccounts.sendMessage hsend

theorem Accounts.receive {buffer flags : Word} {r : Option Status} (h : s.Sound early)
    (hst : s.receiveMessage buffer flags = some (r, s')) : s'.Accounts early := by
  obtain ⟨⟨status, kernel⟩, hk, hst⟩ := Option.bind_eq_some_iff.mp hst
  obtain ⟨a, A, hactive, hcases⟩ := Kernel.receive_cases hk
  rw [hactive] at hst
  simp only [Option.bind_eq_bind, Option.bind_some] at hst
  obtain ⟨-, hA⟩ := Kernel.active_eq_some.mp hactive
  have hqueue := h.messages a A hA
  rcases hcases with ⟨m, queue, memory, hmessages, -, -, hk'⟩ | ⟨hmessages, -, -, rfl⟩ |
    ⟨hmessages, -, -, hadv⟩
  · -- the oldest message goes, with its node
    rw [hmessages] at hqueue
    obtain ⟨entry, rest, hentry, hm, hrest⟩ := List.map_eq_cons_iff.mp hqueue
    have hentry' : ({ s with kernel } : HeapKernel).messageQueue a = entry :: rest := hentry
    rw [queueGetNext_cons hentry'] at hst
    obtain ⟨rfl, rfl⟩ := Prod.mk.inj (Option.some.inj hst)
    have hin : a ∈ s.processTable.values := h.mem_values.mpr ⟨A, hA⟩
    have hheld : ({ s with kernel } : HeapKernel).Holds 0 early := h.holds
    constructor
    · show s.processTable.erase id = kernel.processTable
      rw [hk']
      exact h.processTable
    · show s.portTable.erase Prod.snd = kernel.portTable
      rw [hk']
      exact h.portTable
    · exact h.messages_update (by rw [hk']; rfl) hrest
    · exact h.ports
    · exact (hheld.queueGetNext hin hentry').kfree
  · have hnil : s.messageQueue a = [] := List.map_eq_nil_iff.mp (hqueue.trans hmessages)
    rw [queueGetNext_nil hnil] at hst
    cases hst
    exact h.toAccounts
  · have hnil : ({ s with kernel } : HeapKernel).messageQueue a = [] :=
      List.map_eq_nil_iff.mp (hqueue.trans hmessages)
    rw [queueGetNext_nil hnil] at hst
    cases hst
    have hblocked : Accounts { s with
        kernel := { s.kernel.setProcess a (Kernel.blocked A buffer) with
          activeProcess := none } } early := h.toAccounts.withKernel rfl rfl (.update hA rfl rfl)
    exact hblocked.advance hadv

/-! ### Ports -/

theorem Accounts.createPort {id : Word} {r : Status} {ptr node : Ptr} (h : s.Sound early)
    (hnodup : [ptr, node].Nodup) (hfresh : ∀ b ∈ [ptr, node], b ∉ s.heap.live)
    (hst : s.kernelCreatePort id (some ptr) (some node) = some (r, s')) : s'.Accounts early := by
  obtain ⟨⟨status, kernel⟩, hk, hst⟩ := Option.bind_eq_some_iff.mp hst
  simp only at hst
  have hport := h.port id.toInt
  rw [Kernel.kernelCreatePort] at hk
  split at hst
  · -- the id is taken
    rename_i hsome
    rw [if_pos (by rw [← hport, Option.isSome_map]; exact hsome)] at hk
    cases hk
    cases hst
    exact h.toAccounts
  · rename_i hnone
    rw [if_neg (by rw [← hport, Option.isSome_map]; exact hnone)] at hk
    obtain ⟨⟨a, A⟩, hactive, hk⟩ := Option.bind_eq_some_iff.mp hk
    obtain ⟨table, htable, hk⟩ := Option.bind_eq_some_iff.mp hk
    obtain ⟨rfl, rfl⟩ := Prod.mk.inj (Option.some.inj hk)
    simp only [hactive, Option.bind_eq_bind, Option.bind_some] at hst
    obtain ⟨⟨portTable, new⟩, htree, hst⟩ := Option.bind_eq_some_iff.mp hst
    have hfree : s.portTable.avlGet id.toInt = none := Option.not_isSome_iff_eq_none.mp hnone
    -- first the block of the port is taken, then that of the node, which is another one
    have hptr := hfresh ptr (by simp)
    have hnode := hfresh node (by simp)
    have hheld : ({ s with kernel := { s.kernel with portTable := table } }.kmalloc ptr).Holds
        (ptr ::ₘ 0) early := Holds.kmalloc h.holds hptr
    have hnode' : node ∉ ({ s with kernel := { s.kernel with portTable := table } }.kmalloc
        ptr).heap.live := by
      intro hmem
      rcases Multiset.mem_cons.mp hmem with rfl | hmem
      · exact absurd hnodup (by simp)
      · exact hnode hmem
    have hholds := hheld.insertPort hnode' h.ports hfree htree
    obtain ⟨b, -, rfl, -, -⟩ := h.ports.insert_entry hfree htree
    obtain ⟨rfl, rfl⟩ := Prod.mk.inj (Option.some.inj hst)
    have herase : s.kernel.portTable.avlInsert true id.toInt (some ⟨id, A.pid⟩) =
        some (portTable.erase Prod.snd) := by
      rw [← h.portTable]
      exact NodeTree.erase_avlInsert Prod.snd htree
    exact {
      processTable := h.processTable
      portTable := Option.some.inj (herase.symm.trans htable)
      messages := h.messages
      ports := h.ports.avlInsert htree
      holds := hholds }

theorem Accounts.removePort {id : Word} {r : Status} (h : s.Sound early)
    (hst : s.kernelRemovePort id = some (r, s')) :
    s'.Accounts (s.leafFreed (.removePort id) + early) := by
  obtain ⟨⟨status, kernel⟩, hk, hst⟩ := Option.bind_eq_some_iff.mp hst
  simp only at hst
  have hport := h.port id.toInt
  rw [Kernel.kernelRemovePort, ← hport] at hk
  have hkeeps : s.closesPort id = false →
      s.Accounts (s.leafFreed (.removePort id) + early) := by
    intro hcloses
    rw [leafFreed, hcloses, if_neg Bool.false_ne_true, zero_add]
    exact h.toAccounts
  cases hget : s.portTable.avlGet id.toInt with
  | none =>
    rw [hget] at hk hst
    cases hk
    cases hst
    exact hkeeps (by rw [closesPort, hget]; rfl)
  | some entry =>
    obtain ⟨ptr, port⟩ := entry
    rw [hget] at hk hst
    simp only [Option.map_some] at hk hst
    obtain ⟨⟨a, A⟩, hactive, hk⟩ := Option.bind_eq_some_iff.mp hk
    simp only [hactive, Option.bind_eq_bind, Option.bind_some] at hst
    simp only at hk
    have hcloses : s.closesPort id = decide (port.ownerPid = A.pid) := by
      rw [closesPort, hget, hactive]
      rfl
    split at hk
    · -- not the owner
      rename_i howner
      rw [if_pos howner] at hst
      cases hk
      cases hst
      exact hkeeps (hcloses.trans (decide_eq_false howner))
    · rename_i howner
      rw [if_neg howner] at hst
      obtain ⟨table, htable, hk⟩ := Option.bind_eq_some_iff.mp hk
      obtain ⟨rfl, rfl⟩ := Prod.mk.inj (Option.some.inj hk)
      obtain ⟨t, herased, hst⟩ := Option.bind_eq_some_iff.mp hst
      obtain ⟨rfl, rfl⟩ := Prod.mk.inj (Option.some.inj hst)
      have hheld : HeapKernel.Holds { s with kernel := { s.kernel with portTable := table } } 0
          early := h.holds
      obtain ⟨hholds, portTable, freed, htree, ht⟩ := hheld.erasePort h.ports hget herased
      have hleaf : s.leafFreed (.removePort id) = (s.portTable.leafFreed id.toInt).toList := by
        rw [leafFreed, hcloses, decide_eq_true (not_not.mp howner), if_pos rfl]
      have herase : s.kernel.portTable.avlRemove id.toInt = some (portTable.erase Prod.snd) := by
        rw [← h.portTable]
        exact NodeTree.erase_avlRemove Prod.snd htree
      rw [hleaf]
      constructor
      · show t.processTable.erase _ = t.kernel.processTable
        rw [ht]
        exact h.processTable
      · show t.portTable.erase Prod.snd = t.kernel.portTable
        rw [ht]
        exact Option.some.inj (herase.symm.trans htable)
      · show ∀ p P, t.kernel.processes p = some P →
          (t.messageQueue p).map QueueNode.message = P.messageQueue
        rw [ht]
        exact h.messages
      · show t.portTable.Table
        rw [ht]
        exact h.ports.avlRemove htree
      · exact hholds.kfree

end HeapKernel
end QuarkKernel
