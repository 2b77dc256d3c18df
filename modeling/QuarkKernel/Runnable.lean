import QuarkKernel.AvlBalance
import QuarkKernel.ReadyOnce

/-! # No runnable process is lost

Every live process in state `PROCESS_ACTIVE` is the active process or in the ready
queue, as long as the queue has room whenever a process is put into it.  The queue
is built with 512 slots and every caller of `priorityqueue_insert` ignores its
`ENOMEM`, so the 513th process that becomes ready is in no queue at all. -/
namespace QuarkKernel
namespace Kernel

/-- Every live process in state `PROCESS_ACTIVE` is active or ready. -/
def Runnable (k : Kernel) : Prop :=
  ∀ p P, k.processes p = some P → P.state = .active → p ∈ k.occupied

/-- The step finds room in the ready queue if it puts a process there. -/
def FindsRoom (k : Kernel) (op : Op) : Prop := k.makesReady op = true → k.HasRoom

instance (k : Kernel) (op : Op) : Decidable (k.FindsRoom op) :=
  inferInstanceAs (Decidable (_ → _))

/-- A process becomes ready and nothing else changes. -/
theorem Runnable.enqueue {k k' : Kernel} (h : k.Runnable) (hroom : k.HasRoom) {p : Ptr}
    {P' : Process} {priority : Int}
    (hproc : k'.processes = Function.update k.processes p (some P'))
    (hactive : k'.activeProcess = k.activeProcess)
    (hqueue : k'.priorityQueue = (k.enqueue p priority).priorityQueue) : k'.Runnable := by
  have hocc : k'.occupied = p ::ₘ k.occupied := by
    rw [← occupied_enqueue hroom p priority]
    exact occupied_congr hactive (by rw [ready, ready, hqueue])
  intro q Q hQ hstate
  rw [hocc]
  by_cases hqp : q = p
  · rw [hqp]
    exact Multiset.mem_cons_self p _
  · rw [hproc, Function.update_of_ne hqp] at hQ
    exact Multiset.mem_cons_of_mem (h q Q hQ hstate)

theorem Runnable.effect {k k' : Kernel} {op : Op} (h : k.Runnable) (hr : k.ReadyOnce)
    (hroom : k.FindsRoom op) (he : Effect k op k') : k'.Runnable := by
  cases he with
  | idle hproc _ hactive hqueue =>
    intro p P hP hstate
    rw [occupied_congr hactive (by rw [ready, ready, hqueue])]
    rw [hproc] at hP
    exact h p P hP hstate
  | edit p P P' hP hedit hproc _ hactive hqueue =>
    intro q Q hQ hstate
    rw [occupied_congr hactive (by rw [ready, ready, hqueue])]
    by_cases hqp : q = p
    · subst hqp
      rw [hproc, Function.update_self] at hQ
      obtain rfl := Option.some.inj hQ
      exact h q P hP (hedit.state.symm.trans hstate)
    · rw [hproc, Function.update_of_ne hqp] at hQ
      exact h q Q hQ hstate
  | wake p P P' hready _ _ _ _ hproc _ hactive hqueue =>
    exact h.enqueue (hroom hready) hproc hactive hqueue
  | spawn p P node hready _ _ _ _ _ hproc hactive hqueue =>
    exact h.enqueue (hroom hready) hproc hactive hqueue
  | terminate p P pid _ _ _ hproc hactive hqueue _ _ =>
    intro q Q hQ hstate
    rw [occupied_terminate hr.nodup hactive hqueue]
    by_cases hqp : q = p
    · rw [hqp, hproc, Function.update_self] at hQ
      cases hQ
    · rw [hproc, Function.update_of_ne hqp] at hQ
      exact (Multiset.mem_erase_of_ne hqp).mpr (h q Q hQ hstate)
  | advance hready hadv =>
    obtain ⟨hproc, -, -, -, hocc⟩ := advance_occupied hadv
    have hkeep : k.activeProcess = none ∨ k.HasRoom := by
      cases ha : k.activeProcess with
      | none => exact .inl rfl
      | some a => exact .inr (hroom (hready (by rw [ha]; rfl)))
    intro p P hP hstate
    rw [hocc hkeep]
    rw [hproc] at hP
    exact h p P hP hstate
  | block a A A' k1 hactive _ hstate' _ _ hproc _ hnone hqueue hadv =>
    obtain ⟨hproc', -, -, -, hocc⟩ := advance_occupied hadv
    intro q Q hQ hstate
    rw [hocc (.inl hnone), occupied_of_none hnone]
    rw [hproc', hproc] at hQ
    by_cases hqa : q = a
    · rw [hqa, Function.update_self] at hQ
      obtain rfl := Option.some.inj hQ
      rw [hstate'] at hstate
      cases hstate
    · rw [Function.update_of_ne hqa] at hQ
      have hq := h q Q hQ hstate
      rw [occupied_of_some (active_eq_some.mp hactive).1] at hq
      rw [ready, hqueue]
      exact (Multiset.mem_cons.mp hq).resolve_left hqa

theorem Runnable.step {k k' : Kernel} {op : Op} (hw : k.WellFormed) (hr : k.ReadyOnce)
    (h : k.Runnable) (hclean : k.returnsCleanly op = true) (hroom : k.FindsRoom op)
    (hst : k.step op = some k') : k'.Runnable := by
  by_cases hop : op = .signalReturn
  · subst hop
    obtain ⟨⟨r, k1⟩, hk, rfl⟩ := Option.map_eq_some_iff.mp hst
    exact h.effect hr hroom (effect_signalReturn (fun _ _ => hr.active) hclean hk)
  · exact h.effect hr hroom (step_effect hw.sending hop hst)

/-- **No runnable process is lost.**  In every run that finds room in the ready
queue whenever it puts a process there, every process in the table whose state is
`PROCESS_ACTIVE` is the active process or in the ready queue.  Returns from
signals, if there are any, have to find a state that fits. -/
theorem runnable_of_reachable {k : Kernel}
    (h : system.Reachable (fun k op => k.returnsCleanly op = true ∧ k.FindsRoom op) k)
    {pid : Word} {p : Ptr} (hlookup : k.lookup pid = some p) :
    ∃ P, k.processes p = some P ∧
      (P.state = .active → k.activeProcess = some p ∨ p ∈ k.ready) := by
  have hinv : k.WellFormed ∧ k.ReadyOnce ∧ k.Runnable := by
    refine h.invariant (fun k => k.WellFormed ∧ k.ReadyOnce ∧ k.Runnable) ?_ ?_
    · intro k hb
      refine ⟨.boot hb, .boot hb, ?_⟩
      obtain ⟨heap, cr3, memory, rfl⟩ := hb
      intro p P hP
      cases hP
    · intro k op k' hi hok hst
      exact ⟨hi.1.step hst, hi.2.1.step hi.1 hok.1 hst,
        hi.2.2.step hi.1 hi.2.1 hok.1 hok.2 hst⟩
  obtain ⟨P, hP, -⟩ := hinv.1.table _ p hlookup
  exact ⟨P, hP, fun hstate => mem_occupied.mp (hinv.2.2 p P hP hstate)⟩

/-- Two processes, one of which blocks and is woken up again. -/
def wakeRun : List Op :=
  [.spawn 0x8000 1 0x1000 (.succeeds 1 fun _ => 0), .spawn 0x9000 1 0x1000 (.succeeds 2 fun _ => 0),
    .advance, .receive 0xFF3FF000 0, .send 1 0xFF3FF100 0 ⟨true, true⟩]

theorem runnable_wakeRun :
    ∃ k, Transition.System.runFrom
        (fun k op => k.returnsCleanly op = true ∧ k.FindsRoom op) step bare wakeRun = some k ∧
      ∃ P, k.processes 1 = some P ∧
        (P.state = .active → k.activeProcess = some 1 ∨ 1 ∈ k.ready) := by
  have hrun : (Transition.System.runFrom
      (fun k op => k.returnsCleanly op = true ∧ k.FindsRoom op) step bare wakeRun).any
      (fun k => k.lookup 1 = some 1) = true := by decide +kernel
  obtain ⟨k, hk, hlookup⟩ := (Option.any_eq_true _ _).mp hrun
  have hreach : system.Reachable _ k := .runFrom _ wakeRun (.init boot_bare) hk
  exact ⟨k, hk, runnable_of_reachable hreach (of_decide_eq_true hlookup)⟩

/-! ### More than 512 processes -/

/-- After `n` spawns: the pids are 1 to `n`, and as many processes as fit are ready. -/
structure Crowd (n : Nat) (k : Kernel) : Prop where
  balanced : k.processTable.Balanced
  keys : ∀ b ∈ k.processTable.toList, b.1 ≤ n
  nextPid : k.nextPid = BitVec.ofNat 32 (n + 1)
  free : ∀ p : Nat, n < p → k.processes p = none
  inactive : k.activeProcess = none
  capacity : k.priorityQueue.capacity = 512
  size : k.priorityQueue.size = min n 512
  known : ∀ p : Nat, p ∈ k.ready → p ≤ n

/-- A key above all others is inserted on the right. -/
theorem insertTipsLeft_of_forall_lt {t : AvlTree Ptr} {key : Int}
    (h : ∀ b ∈ t.toList, b.1 < key) : AvlTree.insertTipsLeft t key = false := by
  induction t with
  | nil => rfl
  | node height k v l r ihl ihr =>
    rw [AvlTree.toList_node] at h
    have hk : k < key := h (k, v) (by simp)
    rw [AvlTree.insertTipsLeft, if_neg (by omega), if_pos hk]
    apply ihr
    intro b hb
    exact h b (by simp [hb])

theorem Crowd.spawn {n : Nat} {k : Kernel} (h : Crowd n k) (hw : k.WellFormed)
    (hn : n + 1 < 2 ^ 31) :
    ∃ k', k.step (.spawn 0 1 0 (.succeeds (n + 1) fun _ => 0)) = some k' ∧ Crowd (n + 1) k' ∧
      k'.lookup (BitVec.ofNat 32 (n + 1)) = some (n + 1) ∧
      (∃ P, k'.processes (n + 1) = some P ∧ P.state = .active) ∧
      (k.HasRoom ∨ k'.occupied = k.occupied) := by
  have hpid : k.nextPid.toInt = (n + 1 : Nat) := by
    rw [h.nextPid, BitVec.toInt_eq_toNat_of_lt (by rw [BitVec.toNat_ofNat]; omega),
      BitVec.toNat_ofNat, Nat.mod_eq_of_lt (by omega)]
  have hlt : ∀ b ∈ k.processTable.toList, b.1 < k.nextPid.toInt := by
    intro b hb
    have := h.keys b hb
    omega
  -- keys that grow only ever rotate to the left, so the insertion does not fault
  obtain ⟨table, htable, hbal, -⟩ :=
    AvlTree.avlInsert_balanced h.balanced (some (n + 1)) (insertTipsLeft_of_forall_lt hlt)
  have hnew : k.processTable.contents k.nextPid.toInt = none :=
    SortedAssoc.lookup_of_forall_ne fun b hb => by
      have := hlt b hb
      omega
  have hfree : k.processes (n + 1) = none := h.free _ (Nat.lt_succ_self n)
  obtain ⟨memory, hspawn⟩ := spawn_succeeds hfree htable 0 1 0 fun _ => 0
  refine ⟨_, hspawn, ?_, ?_, ?_, ?_⟩
  · constructor
    · exact hbal
    · intro b hb
      rw [AvlTree.toList_avlInsert hw.search htable] at hb
      rcases SortedAssoc.mem_insertNew hb with rfl | hb
      · exact le_of_eq hpid
      · have := h.keys b hb
        omega
    · show k.nextPid + 1 = _
      rw [h.nextPid]
      exact (BitVec.ofNat_add (n + 1) 1).symm
    · intro p hp
      show Function.update k.processes (n + 1) _ p = none
      rw [Function.update_of_ne (Nat.ne_of_gt hp), h.free p (Nat.lt_of_succ_lt hp)]
    · exact h.inactive
    · exact (capacity_enqueue k (n + 1) 1).trans h.capacity
    · show (k.enqueue (n + 1) 1).priorityQueue.size = _
      have hsize := h.size
      have hcap := h.capacity
      by_cases hroom : k.HasRoom
      · rw [size_enqueue hroom]
        unfold HasRoom at hroom
        omega
      · rw [enqueue_of_full hroom]
        unfold HasRoom at hroom
        omega
    · intro p hp
      have hp : p ∈ (k.enqueue (n + 1) 1).occupied := mem_occupied.mpr (.inr hp)
      rcases Multiset.mem_cons.mp (Multiset.mem_of_le (occupied_enqueue_le k (n + 1) 1) hp)
        with rfl | hold
      · exact le_refl _
      · rw [occupied_of_none h.inactive] at hold
        exact Nat.le_succ_of_le (h.known p hold)
  · show AvlTree.avlGet table _ = _
    rw [AvlTree.avlGet_avlInsert hw.search htable, h.nextPid, if_pos rfl, ← h.nextPid, hnew]
    rfl
  · exact ⟨_, Function.update_self .., rfl⟩
  · by_cases hroom : k.HasRoom
    · exact .inl hroom
    · right
      show (k.enqueue (n + 1) 1).occupied = _
      rw [enqueue_of_full hroom]

theorem exists_crowd (n : Nat) (hn : n < 2 ^ 31) :
    ∃ k, system.Reachable (fun _ op => op.isProcessCall = true) k ∧ Crowd n k := by
  induction n with
  | zero =>
    refine ⟨bare, .init boot_bare, ⟨trivial, ?_, rfl, fun _ _ => rfl, rfl, rfl, rfl, ?_⟩⟩
    · intro b hb
      cases hb
    · intro p hp
      exact absurd hp (Multiset.notMem_zero p)
  | succ n ih =>
    obtain ⟨k, hreach, hcrowd⟩ := ih (by omega)
    obtain ⟨k', hst, hcrowd', -⟩ := hcrowd.spawn (wellFormed_of_reachable hreach) hn
    exact ⟨k', .step hreach rfl hst, hcrowd'⟩

/-- After 513 spawns the last process is in the table and nowhere else. -/
theorem not_runnable_crowd :
    ¬ ∀ k, system.Reachable (fun _ op => op.isProcessCall = true) k →
      ∀ pid p, k.lookup pid = some p → ∃ P, k.processes p = some P ∧
        (P.state = .active → k.activeProcess = some p ∨ p ∈ k.ready) := by
  intro hall
  obtain ⟨k, hreach, hcrowd⟩ := exists_crowd 512 (by decide)
  obtain ⟨k', hst, -, hlookup, ⟨P, hP, hstate⟩, hocc⟩ :=
    hcrowd.spawn (wellFormed_of_reachable hreach) (by decide)
  have hfull : ¬ k.HasRoom := by
    unfold HasRoom
    rw [hcrowd.size, hcrowd.capacity]
    decide
  obtain ⟨P', hP', hthere⟩ := hall k' (.step hreach rfl hst) _ _ hlookup
  obtain rfl := Option.some.inj (hP.symm.trans hP')
  have hmem : 513 ∈ k'.occupied := mem_occupied.mpr (hthere hstate)
  rw [hocc.resolve_left hfull, occupied_of_none hcrowd.inactive] at hmem
  exact absurd (hcrowd.known 513 hmem) (by decide)

end Kernel
end QuarkKernel
