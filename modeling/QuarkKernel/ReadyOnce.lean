import QuarkKernel.KernelEffects

/-! # Every process is ready at most once

`WellFormed` holds in every run, whatever programs do: the process table is a
search tree, it leads to live blocks with the pid as key, and nobody waits to
send.

`ReadyOnce` says that no process is twice among the active process and the ready
queue, and that all of these are live and in state `PROCESS_ACTIVE`.  The calls
that make a process ready test the state first, so the second half carries the
first.  It fails when `kernel_signal_return` takes a state from the stack that
does not fit a running process: what a program left there, or `PROCESS_REQUESTING`
when a message has come in the meantime, since `receive_message` then returns
without setting the state back. -/
namespace QuarkKernel
namespace Kernel

/-! ### Well-formed process tables -/

/-- The process table leads to live blocks, each under its pid, and nobody waits
to send. -/
structure WellFormed (k : Kernel) : Prop where
  search : k.processTable.SearchTree
  table : ∀ key p, k.processTable.avlGet key = some p →
    ∃ P, k.processes p = some P ∧ P.pid.toInt = key
  sending : ∀ p P, k.processes p = some P → P.sendingQueue = []

theorem WellFormed.boot {k : Kernel} (h : k.Boot) : k.WellFormed := by
  obtain ⟨heap, cr3, memory, rfl⟩ := h
  constructor
  · trivial
  · intro key p hp
    cases hp
  · intro p P hP
    cases hP

theorem WellFormed.congr {k k' : Kernel} (h : k.WellFormed)
    (hproc : k'.processes = k.processes) (htable : k'.processTable = k.processTable) :
    k'.WellFormed := by
  constructor
  · rw [htable]
    exact h.search
  · rw [htable, hproc]
    exact h.table
  · rw [hproc]
    exact h.sending

/-- A block may change in all but pid and sending queue. -/
theorem WellFormed.edit {k k' : Kernel} (h : k.WellFormed) {p : Ptr} {P P' : Process}
    (hP : k.processes p = some P) (hsame : SameIdentity P P')
    (hproc : k'.processes = Function.update k.processes p (some P'))
    (htable : k'.processTable = k.processTable) : k'.WellFormed := by
  constructor
  · rw [htable]
    exact h.search
  · intro key q hq
    rw [htable] at hq
    obtain ⟨Q, hQ, hkey⟩ := h.table key q hq
    by_cases hqp : q = p
    · subst hqp
      obtain rfl := Option.some.inj (hP.symm.trans hQ)
      exact ⟨P', by rw [hproc, Function.update_self], by rw [hsame.pid, hkey]⟩
    · exact ⟨Q, by rw [hproc, Function.update_of_ne hqp, hQ], hkey⟩
  · intro q Q hQ
    rw [hproc] at hQ
    by_cases hqp : q = p
    · subst hqp
      rw [Function.update_self] at hQ
      obtain rfl := Option.some.inj hQ
      rw [hsame.sendingQueue, h.sending q P hP]
    · rw [Function.update_of_ne hqp] at hQ
      exact h.sending q Q hQ

theorem WellFormed.spawn {k k' : Kernel} (h : k.WellFormed) {p : Ptr} {P : Process} {node : Bool}
    (hfree : k.processes p = none) (hpid : P.pid = k.nextPid) (hsend : P.sendingQueue = [])
    (htable : k.processTable.avlInsert node k.nextPid.toInt (some p) = some k'.processTable)
    (hproc : k'.processes = Function.update k.processes p (some P)) : k'.WellFormed := by
  have hother : ∀ q Q, k.processes q = some Q → k'.processes q = some Q := by
    intro q Q hQ
    have hqp : q ≠ p := by
      rintro rfl
      rw [hfree] at hQ
      cases hQ
    rw [hproc, Function.update_of_ne hqp, hQ]
  constructor
  · exact h.search.avlInsert htable
  · intro key q hq
    rw [AvlTree.avlGet_avlInsert h.search htable] at hq
    split at hq
    · rename_i hkey
      cases hold : k.processTable.contents k.nextPid.toInt with
      | none =>
        rw [hold] at hq
        cases hq
        exact ⟨P, by rw [hproc, Function.update_self], by rw [hpid, hkey]⟩
      | some old =>
        -- the pid is in use again: the table keeps its old owner
        rw [hold] at hq
        have hget : k.processTable.avlGet k.nextPid.toInt = some q := by
          rw [AvlTree.avlGet_eq h.search, hold]
          exact hq
        obtain ⟨Q, hQ, hQkey⟩ := h.table _ q hget
        exact ⟨Q, hother q Q hQ, by rw [hQkey, hkey]⟩
    · obtain ⟨Q, hQ, hQkey⟩ := h.table key q hq
      exact ⟨Q, hother q Q hQ, hQkey⟩
  · intro q Q hQ
    rw [hproc] at hQ
    by_cases hqp : q = p
    · subst hqp
      rw [Function.update_self] at hQ
      obtain rfl := Option.some.inj hQ
      exact hsend
    · rw [Function.update_of_ne hqp] at hQ
      exact h.sending q Q hQ

theorem WellFormed.terminate {k k' : Kernel} (h : k.WellFormed) {p : Ptr} {pid : Word}
    (hlookup : k.lookup pid = some p)
    (htable : k.processTable.avlRemove pid.toInt = some k'.processTable)
    (hproc : k'.processes = Function.update k.processes p none) : k'.WellFormed := by
  obtain ⟨P, hP, hpid⟩ := h.table _ p hlookup
  constructor
  · exact h.search.avlRemove htable
  · intro key q hq
    rw [AvlTree.avlGet_avlRemove h.search htable] at hq
    split at hq
    · cases hq
    · rename_i hkey
      obtain ⟨Q, hQ, hQkey⟩ := h.table key q hq
      -- a block is in the table under its pid only
      have hqp : q ≠ p := by
        rintro rfl
        obtain rfl := Option.some.inj (hP.symm.trans hQ)
        exact hkey (hQkey.symm.trans hpid)
      exact ⟨Q, by rw [hproc, Function.update_of_ne hqp, hQ], hQkey⟩
  · intro q Q hQ
    rw [hproc] at hQ
    by_cases hqp : q = p
    · subst hqp
      rw [Function.update_self] at hQ
      cases hQ
    · rw [Function.update_of_ne hqp] at hQ
      exact h.sending q Q hQ

theorem WellFormed.advance {k k' : Kernel} (h : k.WellFormed)
    (hadv : k.kernelAdvanceScheduler = some k') : k'.WellFormed := by
  obtain ⟨p, P, queue, -, rfl, -⟩ := advance_cases hadv
  exact h.congr rfl rfl

theorem WellFormed.effect {k k' : Kernel} {op : Op} (h : k.WellFormed) (he : Effect k op k') :
    k'.WellFormed := by
  cases he with
  | idle hproc htable _ _ => exact h.congr hproc htable
  | edit p P P' hP hedit hproc htable _ _ => exact h.edit hP hedit.toSameIdentity hproc htable
  | wake p P P' _ hP hsame _ _ hproc htable _ _ => exact h.edit hP hsame hproc htable
  | spawn p P node _ hfree hpid _ hsend htable hproc _ _ =>
    exact h.spawn hfree hpid hsend htable hproc
  | terminate p P pid hlookup _ htable hproc _ _ _ _ => exact h.terminate hlookup htable hproc
  | advance _ hadv => exact h.advance hadv
  | block a A A' k1 hactive hsame _ _ _ hproc htable _ _ hadv =>
    have hA := (active_eq_some.mp hactive).2
    exact (h.edit hA hsame hproc htable).advance hadv

theorem WellFormed.signalReturn {k k' : Kernel} {r : Option Status} (h : k.WellFormed)
    (hret : k.kernelSignalReturn = some (r, k')) : k'.WellFormed := by
  obtain ⟨a, A, ctx, state, hactive, -, hcases⟩ := signalReturn_cases hret
  have hA := (active_eq_some.mp hactive).2
  have hsame : SameIdentity A { A with ctx, state } := ⟨rfl, rfl, rfl⟩
  have hset : (k.setProcess a { A with ctx, state }).WellFormed := h.edit hA hsame rfl rfl
  obtain ⟨-, rfl⟩ | ⟨-, -, r', hrec⟩ := hcases
  · exact hset
  · exact hset.effect (effect_receive hrec)

theorem WellFormed.step {k k' : Kernel} {op : Op} (h : k.WellFormed) (hst : k.step op = some k') :
    k'.WellFormed := by
  by_cases hop : op = .signalReturn
  · subst hop
    obtain ⟨⟨r, k1⟩, hk, rfl⟩ := Option.map_eq_some_iff.mp hst
    exact h.signalReturn hk
  · exact h.effect (step_effect h.sending hop hst)

theorem wellFormed_of_reachable {ok : Kernel → Op → Prop} {k : Kernel}
    (h : system.Reachable ok k) : k.WellFormed :=
  h.invariant WellFormed (fun _ hb => .boot hb) fun _ _ _ hi _ hst => hi.step hst

/-! ### Ready once -/

/-- The active process and the ready queue hold live processes in state
`PROCESS_ACTIVE`, each of them once. -/
structure ReadyOnce (k : Kernel) : Prop where
  nodup : k.occupied.Nodup
  running : ∀ p, p ∈ k.occupied → ∃ P, k.processes p = some P ∧ P.state = .active

/-- A step that touches one block at most, and brings at most that one in. -/
theorem ReadyOnce.of_sub {k k' : Kernel} (h : k.ReadyOnce) (d : Ptr) (hnodup : k'.occupied.Nodup)
    (hsub : ∀ q, q ∈ k'.occupied → q ≠ d → q ∈ k.occupied)
    (hother : ∀ q, q ≠ d → k'.processes q = k.processes q)
    (hd : d ∈ k'.occupied → ∃ D, k'.processes d = some D ∧ D.state = .active) : k'.ReadyOnce := by
  refine ⟨hnodup, ?_⟩
  intro q hq
  by_cases hqd : q = d
  · subst hqd
    exact hd hq
  · rw [hother q hqd]
    exact h.running q (hsub q hq hqd)

theorem advance_occupied {k k' : Kernel} (h : k.kernelAdvanceScheduler = some k') :
    k'.processes = k.processes ∧ k'.processTable = k.processTable ∧
      k'.priorityQueue.capacity = k.priorityQueue.capacity ∧ k'.occupied ≤ k.occupied ∧
      (k.activeProcess = none ∨ k.HasRoom → k'.occupied = k.occupied) := by
  obtain ⟨p, P, queue, -, rfl, hcap, -, hle, heq⟩ := advance_cases h
  exact ⟨rfl, rfl, hcap, hle, heq⟩

theorem ReadyOnce.advance {k k' : Kernel} (h : k.ReadyOnce)
    (hadv : k.kernelAdvanceScheduler = some k') : k'.ReadyOnce := by
  obtain ⟨hproc, -, -, hle, -⟩ := advance_occupied hadv
  refine ⟨Multiset.nodup_of_le hle h.nodup, ?_⟩
  intro p hp
  rw [hproc]
  exact h.running p (Multiset.mem_of_le hle hp)

/-- A process that is not running becomes ready. -/
theorem ReadyOnce.enqueue {k k' : Kernel} (h : k.ReadyOnce) {p : Ptr} {P' : Process}
    {priority : Int} (hnot : p ∉ k.occupied) (hstate : P'.state = .active)
    (hproc : k'.processes = Function.update k.processes p (some P'))
    (hactive : k'.activeProcess = k.activeProcess)
    (hqueue : k'.priorityQueue = (k.enqueue p priority).priorityQueue) : k'.ReadyOnce := by
  have hocc : k'.occupied = (k.enqueue p priority).occupied :=
    occupied_congr hactive (by rw [ready, ready, hqueue])
  have hle : k'.occupied ≤ p ::ₘ k.occupied := by
    rw [hocc]
    exact occupied_enqueue_le k p priority
  refine h.of_sub p (Multiset.nodup_of_le hle (Multiset.nodup_cons.mpr ⟨hnot, h.nodup⟩)) ?_ ?_ ?_
  · intro q hq hqp
    exact (Multiset.mem_cons.mp (Multiset.mem_of_le hle hq)).resolve_left hqp
  · intro q hqp
    rw [hproc, Function.update_of_ne hqp]
  · intro _
    exact ⟨P', by rw [hproc, Function.update_self], hstate⟩

theorem ReadyOnce.effect {k k' : Kernel} {op : Op} (h : k.ReadyOnce) (he : Effect k op k') :
    k'.ReadyOnce := by
  cases he with
  | idle hproc _ hactive hqueue =>
    have hocc : k'.occupied = k.occupied := occupied_congr hactive (by rw [ready, ready, hqueue])
    refine ⟨hocc ▸ h.nodup, ?_⟩
    rw [hocc, hproc]
    exact h.running
  | edit p P P' hP hedit hproc _ hactive hqueue =>
    have hocc : k'.occupied = k.occupied := occupied_congr hactive (by rw [ready, ready, hqueue])
    refine h.of_sub p (hocc ▸ h.nodup) (fun q hq _ => hocc ▸ hq) ?_ ?_
    · intro q hqp
      rw [hproc, Function.update_of_ne hqp]
    · intro hp
      rw [hocc] at hp
      obtain ⟨Q, hQ, hstate⟩ := h.running p hp
      obtain rfl := Option.some.inj (hP.symm.trans hQ)
      exact ⟨P', by rw [hproc, Function.update_self], hedit.state.trans hstate⟩
  | wake p P P' _ hP _ hstate hstate' hproc _ hactive hqueue =>
    have hnot : p ∉ k.occupied := by
      intro hp
      obtain ⟨Q, hQ, hact⟩ := h.running p hp
      obtain rfl := Option.some.inj (hP.symm.trans hQ)
      exact hstate hact
    exact h.enqueue hnot hstate' hproc hactive hqueue
  | spawn p P node _ hfree _ hstate _ _ hproc hactive hqueue =>
    have hnot : p ∉ k.occupied := by
      intro hp
      obtain ⟨Q, hQ, -⟩ := h.running p hp
      rw [hfree] at hQ
      cases hQ
    exact h.enqueue hnot hstate hproc hactive hqueue
  | terminate p P pid _ _ _ hproc hactive hqueue _ _ =>
    have hocc := occupied_terminate h.nodup hactive hqueue
    refine h.of_sub p (hocc ▸ h.nodup.erase p) ?_ ?_ ?_
    · intro q hq _
      rw [hocc] at hq
      exact Multiset.mem_of_mem_erase hq
    · intro q hqp
      rw [hproc, Function.update_of_ne hqp]
    · intro hp
      rw [hocc] at hp
      exact absurd hp h.nodup.notMem_erase
  | advance _ hadv => exact h.advance hadv
  | block a A A' k1 hactive _ _ _ _ hproc _ hnone hqueue hadv =>
    -- the active process leaves, and it was not in the queue
    have hocc : k.occupied = a ::ₘ k1.occupied := by
      rw [occupied_of_some (active_eq_some.mp hactive).1, occupied_of_none hnone, ready, ready,
        hqueue]
    have hnodup : (a ::ₘ k1.occupied).Nodup := hocc ▸ h.nodup
    refine ReadyOnce.advance (k := k1) ?_ hadv
    refine h.of_sub a (Multiset.nodup_cons.mp hnodup).2 ?_ ?_ ?_
    · intro q hq _
      rw [hocc]
      exact Multiset.mem_cons_of_mem hq
    · intro q hqa
      rw [hproc, Function.update_of_ne hqa]
    · intro ha
      exact absurd ha (Multiset.nodup_cons.mp hnodup).1

theorem ReadyOnce.active {k : Kernel} (h : k.ReadyOnce) {a : Ptr} {A : Process}
    (ha : k.active = some (a, A)) : A.state = .active := by
  obtain ⟨hp, hA⟩ := active_eq_some.mp ha
  obtain ⟨A', hA', hstate⟩ := h.running a (mem_occupied.mpr (.inl hp))
  obtain rfl := Option.some.inj (hA.symm.trans hA')
  exact hstate

theorem ReadyOnce.boot {k : Kernel} (h : k.Boot) : k.ReadyOnce := by
  obtain ⟨heap, cr3, memory, rfl⟩ := h
  refine ⟨Multiset.nodup_zero, ?_⟩
  intro p hp
  exact absurd hp (Multiset.notMem_zero p)

/-- The step is not a return from a signal with a state that no longer fits. -/
def returnsCleanly (k : Kernel) : Op → Bool
  | .signalReturn => k.resumesCleanly
  | _ => true

theorem ReadyOnce.step {k k' : Kernel} {op : Op} (hw : k.WellFormed) (h : k.ReadyOnce)
    (hclean : k.returnsCleanly op = true) (hst : k.step op = some k') : k'.ReadyOnce := by
  by_cases hop : op = .signalReturn
  · subst hop
    obtain ⟨⟨r, k1⟩, hk, rfl⟩ := Option.map_eq_some_iff.mp hst
    exact h.effect (effect_signalReturn (fun _ _ => h.active) hclean hk)
  · exact h.effect (step_effect hw.sending hop hst)

theorem readyOnce_of_reachable {k : Kernel}
    (h : system.Reachable (fun k op => k.returnsCleanly op = true) k) :
    k.WellFormed ∧ k.ReadyOnce := by
  refine h.invariant (fun k => k.WellFormed ∧ k.ReadyOnce) ?_ ?_
  · intro k hb
    exact ⟨.boot hb, .boot hb⟩
  · intro k op k' hi hclean hst
    exact ⟨hi.1.step hst, hi.2.step hi.1 hclean hst⟩

/-- **Ready once.**  In every run whose returns from signals find a state on the
stack that fits, no process occurs twice among the active process and the ready
queue. -/
theorem occupied_nodup_of_reachable {k : Kernel}
    (h : system.Reachable (fun k op => k.returnsCleanly op = true) k) : k.occupied.Nodup :=
  (readyOnce_of_reachable h).2.nodup

/-- Registers with the stack pointer in the middle of the stack page. -/
def midStack : ProcessContext := ProcessContext.zero.setContextStack 0xFF3FFF00

/-- A process takes an interrupt and returns from it with a stack of zeros, of
which the first word is `PROCESS_ACTIVE`. -/
def cleanReturnRun : List Op :=
  [.spawn 0x8000 1 0x1000 (.succeeds 1 fun _ => 0), .advance,
    .registerHandler 5 0x9000 0 0 true true, .storeContext midStack, .executeHandler 5,
    .storeContext midStack, .programs fun _ _ => some 0, .signalReturn, .executeHandler 5]

theorem occupied_nodup_cleanReturnRun :
    ∃ k, Transition.System.runFrom (fun k op => returnsCleanly k op = true) step bare
      cleanReturnRun = some k ∧ k.occupied.Nodup := by
  obtain ⟨k, hk⟩ := Option.isSome_iff_exists.mp (show (Transition.System.runFrom
    (fun k op => returnsCleanly k op = true) step bare cleanReturnRun).isSome by decide +kernel)
  exact ⟨k, hk, occupied_nodup_of_reachable (.runFrom _ _ (.init boot_bare) hk)⟩

/-- The same with the word 2, `PROCESS_SENDING`, where the state is taken from:
the next interrupt makes the process ready although it runs. -/
def strayStateRun : List Op :=
  [.spawn 0x8000 1 0x1000 (.succeeds 1 fun addr => if addr = 0xFF3FFEF8 then 2 else 0), .advance,
    .registerHandler 5 0x9000 0 0 true true, .storeContext midStack, .signalReturn,
    .storeContext midStack, .executeHandler 5]

theorem not_occupied_nodup_strayStateRun :
    ¬ ∀ k, system.Reachable Transition.anyStep k → k.occupied.Nodup := by
  intro h
  have hrun : (Transition.System.runFrom Transition.anyStep step bare strayStateRun).any
      (fun k => ¬ k.occupied.Nodup) = true := by decide +kernel
  obtain ⟨k, hk, hdup⟩ := (Option.any_eq_true _ _).mp hrun
  have hreach : system.Reachable Transition.anyStep k := .runFrom _ _ (.init boot_bare) hk
  exact of_decide_eq_true hdup (h k hreach)

end Kernel
end QuarkKernel
