import QuarkKernel.ReadyOnce

/-! # No lost wakeup

A process that waits in `receive` has to be found by the next send, which looks
for the state `PROCESS_REQUESTING` and a `message_buffer` that is not NULL.
`receive_message` stores the buffer pointer as it is given, so a receive into NULL
puts the process to sleep where no send finds it: every message to it is queued.
As long as that does not happen, a waiting process has a buffer and no message. -/
namespace QuarkKernel
namespace Kernel

/-- Every process that waits has a buffer, and no message is queued for it. -/
def Waits (k : Kernel) : Prop :=
  ∀ p P, k.processes p = some P → P.state = .requesting →
    P.messageBuffer ≠ 0 ∧ P.messageQueue = []

/-- The step is not a receive that blocks on a NULL buffer, and not a return from a
signal. -/
def sleepsWithBuffer (k : Kernel) : Op → Bool
  | .receive buffer flags => !k.wouldBlock flags || buffer ≠ 0
  | .signalReturn => false
  | _ => true

/-- A block changes to one that waits as it should, if it does. -/
theorem Waits.update {k k' : Kernel} (h : k.Waits) {p : Ptr} {P' : Process}
    (hproc : k'.processes = Function.update k.processes p (some P'))
    (hP' : P'.state = .requesting → P'.messageBuffer ≠ 0 ∧ P'.messageQueue = []) : k'.Waits := by
  intro q Q hQ hstate
  rw [hproc] at hQ
  by_cases hqp : q = p
  · rw [hqp, Function.update_self] at hQ
    obtain rfl := Option.some.inj hQ
    exact hP' hstate
  · rw [Function.update_of_ne hqp] at hQ
    exact h q Q hQ hstate

theorem Waits.effect {k k' : Kernel} {op : Op} (h : k.Waits)
    (hok : k.sleepsWithBuffer op = true) (he : Effect k op k') : k'.Waits := by
  cases he with
  | idle hproc _ _ _ =>
    intro p P hP
    rw [hproc] at hP
    exact h p P hP
  | edit p P P' hP hedit hproc _ _ _ =>
    apply h.update hproc
    intro hstate
    obtain ⟨hbuf, hempty⟩ := h p P hP (hedit.state.symm.trans hstate)
    have hwait : waiting P = true := waiting_iff.mpr ⟨hbuf, hedit.state.symm.trans hstate⟩
    exact ⟨hedit.messageBuffer ▸ hbuf, hedit.messageQueue hwait hempty⟩
  | wake p P P' _ _ _ _ hstate' hproc _ _ _ =>
    apply h.update hproc
    intro hstate
    rw [hstate'] at hstate
    cases hstate
  | spawn p P node _ _ _ hstate' _ _ hproc _ _ =>
    apply h.update hproc
    intro hstate
    rw [hstate'] at hstate
    cases hstate
  | terminate p P pid _ _ _ hproc _ _ _ _ =>
    intro q Q hQ hstate
    rw [hproc] at hQ
    by_cases hqp : q = p
    · rw [hqp, Function.update_self] at hQ
      cases hQ
    · rw [Function.update_of_ne hqp] at hQ
      exact h q Q hQ hstate
  | advance _ hadv =>
    obtain ⟨hproc, -⟩ := advance_occupied hadv
    intro p P hP
    rw [hproc] at hP
    exact h p P hP
  | block a A A' k1 _ _ _ hempty hop hproc _ _ _ hadv =>
    -- only a receive gets here, and it has a buffer
    obtain ⟨hproc', -⟩ := advance_occupied hadv
    apply h.update (hproc'.trans hproc)
    intro _
    obtain rfl | ⟨flags, hblock, rfl⟩ := hop
    · cases hok
    · exact ⟨by simpa [sleepsWithBuffer, hblock] using hok, hempty⟩

theorem Waits.step {k k' : Kernel} {op : Op} (hw : k.WellFormed) (h : k.Waits)
    (hok : k.sleepsWithBuffer op = true) (hst : k.step op = some k') : k'.Waits := by
  have hop : op ≠ .signalReturn := by
    rintro rfl
    cases hok
  exact h.effect hok (step_effect hw.sending hop hst)

theorem waits_of_reachable {k : Kernel}
    (h : system.Reachable (fun k op => k.sleepsWithBuffer op = true) k) :
    k.WellFormed ∧ k.Waits := by
  refine h.invariant (fun k => k.WellFormed ∧ k.Waits) ?_ ?_
  · intro k hb
    refine ⟨.boot hb, ?_⟩
    obtain ⟨heap, cr3, memory, rfl⟩ := hb
    intro p P hP
    cases hP
  · intro k op k' hi hok hst
    exact ⟨hi.1.step hst, hi.2.step hi.1 hok hst⟩

/-- A send to a waiting process takes the direct path: the process is active
again, its buffer is used up, and it is ready if the queue has room. -/
theorem sendMessage_of_waiting {k k' : Kernel} {pid message : Word} {p : Ptr} {P : Process}
    {r : Status} (hlookup : k.lookup pid = some p) (hP : k.processes p = some P)
    (hwait : waiting P = true) (h : k.kernelSendMessage pid message = some (r, k')) :
    r = .enone ∧ k'.processes p = some (delivered P) ∧ (k.HasRoom → p ∈ k'.ready) := by
  obtain ⟨-, hnone, -⟩ | ⟨d, D, -, hd, hD, hbusy, -⟩ |
    ⟨d, D, a, A, m, memory, hr, hd, hD, -, -, -, -, rfl⟩ := sendMessage_cases h
  · rw [hlookup] at hnone
    cases hnone
  · obtain rfl := Option.some.inj (hlookup.symm.trans hd)
    obtain rfl := Option.some.inj (hP.symm.trans hD)
    rw [hwait] at hbusy
    cases hbusy
  · obtain rfl := Option.some.inj (hlookup.symm.trans hd)
    obtain rfl := Option.some.inj (hP.symm.trans hD)
    refine ⟨hr, Function.update_self .., ?_⟩
    intro hroom
    show p ∈ (k.enqueue p P.priority).ready
    rw [ready_enqueue hroom]
    exact Multiset.mem_cons_self p _

/-- **No lost wakeup.**  In every run in which no receive blocks on a NULL buffer,
every process in the table that waits has a buffer and no message queued, and a
send to it delivers and makes it ready, if there is room. -/
theorem wakeup_of_reachable {k : Kernel}
    (h : system.Reachable (fun k op => k.sleepsWithBuffer op = true) k) {pid : Word} {p : Ptr}
    (hlookup : k.lookup pid = some p) :
    ∃ P, k.processes p = some P ∧ (P.state = .requesting →
      P.messageBuffer ≠ 0 ∧ P.messageQueue = [] ∧
      ∀ message r k', k.kernelSendMessage pid message = some (r, k') →
        r = .enone ∧ k'.processes p = some (delivered P) ∧ (k.HasRoom → p ∈ k'.ready)) := by
  obtain ⟨hw, hwaits⟩ := waits_of_reachable h
  obtain ⟨P, hP, -⟩ := hw.table _ p hlookup
  refine ⟨P, hP, ?_⟩
  intro hstate
  obtain ⟨hbuf, hempty⟩ := hwaits p P hP hstate
  refine ⟨hbuf, hempty, ?_⟩
  intro message r k' hsend
  exact sendMessage_of_waiting hlookup hP (waiting_iff.mpr ⟨hbuf, hstate⟩) hsend

/-- Two processes, the first of which waits in a receive into `buffer`. -/
def sleepRun (buffer : Word) : List Op :=
  [.spawn 0x8000 1 0x1000 (.succeeds 1 fun _ => 0), .spawn 0x9000 1 0x1000 (.succeeds 2 fun _ => 0),
    .advance, .receive buffer 0]

theorem runs_sleepRun :
    (Transition.System.runFrom (fun k op => k.sleepsWithBuffer op = true) step bare
      (sleepRun 0xFF3FF000)).any (fun k => k.lookup 1 = some 1) = true ∧
    (Transition.System.runFrom (fun _ op => op.isProcessCall = true) step bare
      (sleepRun 0)).any (fun k => k.lookup 1 = some 1 ∧ k.activeProcess ≠ some 1 ∧ 1 ∉ k.ready ∧
        (k.processes 1).any (fun P => P.state = .requesting ∧ P.messageBuffer = 0)) = true := by
  decide +kernel

theorem wakeup_sleepRun :
    ∃ k, Transition.System.runFrom (fun k op => k.sleepsWithBuffer op = true) step bare
        (sleepRun 0xFF3FF000) = some k ∧
      ∃ P, k.processes 1 = some P ∧ (P.state = .requesting →
        P.messageBuffer ≠ 0 ∧ P.messageQueue = [] ∧
        ∀ message r k', k.kernelSendMessage 1 message = some (r, k') →
          r = .enone ∧ k'.processes 1 = some (delivered P) ∧ (k.HasRoom → 1 ∈ k'.ready)) := by
  obtain ⟨k, hk, hlookup⟩ := (Option.any_eq_true _ _).mp runs_sleepRun.1
  have hreach : system.Reachable _ k := .runFrom _ _ (.init boot_bare) hk
  exact ⟨k, hk, wakeup_of_reachable hreach (of_decide_eq_true hlookup)⟩

/-- A receive into NULL: the process sleeps, and has no buffer. -/
theorem not_wakeup_sleepRun_null :
    ¬ ∀ k, system.Reachable (fun _ op => op.isProcessCall = true) k →
      ∀ pid p P, k.lookup pid = some p → k.processes p = some P → P.state = .requesting →
        k.activeProcess ≠ some p → p ∉ k.ready → P.messageBuffer ≠ 0 ∧ P.messageQueue = [] := by
  intro hall
  obtain ⟨k, hk, hthere⟩ := (Option.any_eq_true _ _).mp runs_sleepRun.2
  obtain ⟨hlookup, hactive, hready, hblock⟩ := of_decide_eq_true hthere
  obtain ⟨P, hP, hP'⟩ := (Option.any_eq_true _ _).mp hblock
  obtain ⟨hstate, hnull⟩ := of_decide_eq_true hP'
  have hreach : system.Reachable _ k := .runFrom _ _ (.init boot_bare) hk
  exact (hall k hreach 1 1 P hlookup hP hstate hactive hready).1 hnull

end Kernel
end QuarkKernel
