import Mathlib.Logic.Basic

/-! # Labelled transition systems

States, labelled steps, and the states a run can reach.  A run may be limited to
steps that meet a condition `ok` on the state before the step and its label;
`Reachable.invariant` is the induction every safety argument goes through, and
`System.record` adds a history variable that the steps do not depend on. -/
namespace Transition

/-- Initial states and labelled steps. -/
structure System (State Label : Type) where
  Init : State → Prop
  Step : State → Label → State → Prop

/-- No condition on the steps of a run. -/
def anyStep {State Label : Type} : State → Label → Prop := fun _ _ => True

instance {State Label : Type} (s : State) (l : Label) : Decidable (anyStep s l) :=
  .isTrue trivial

namespace System
variable {State Label : Type} (T : System State Label)

/-- The states reached by runs all of whose steps meet `ok`. -/
inductive Reachable (ok : State → Label → Prop) : State → Prop
  | init {s : State} : T.Init s → Reachable ok s
  | step {s : State} {l : Label} {s' : State} :
      Reachable ok s → ok s l → T.Step s l s' → Reachable ok s'

variable {T} {ok ok' : State → Label → Prop}

/-- **The invariant rule.**  What holds initially and is kept by every step that
meets `ok` holds in every reachable state. -/
theorem Reachable.invariant (Inv : State → Prop) (hinit : ∀ s, T.Init s → Inv s)
    (hstep : ∀ s l s', Inv s → ok s l → T.Step s l s' → Inv s')
    {s : State} (h : T.Reachable ok s) : Inv s := by
  induction h with
  | init hs => exact hinit _ hs
  | step _ hok hst ih => exact hstep _ _ _ ih hok hst

/-- Weakening the condition on steps keeps what was reachable. -/
theorem Reachable.mono (hsub : ∀ s l, ok s l → ok' s l) {s : State}
    (h : T.Reachable ok s) : T.Reachable ok' s := by
  induction h with
  | init hs => exact .init hs
  | step _ hok hst ih => exact .step ih (hsub _ _ hok) hst

section Functional
variable (Init : State → Prop) (step : State → Label → Option State)

/-- A system whose steps are a partial function. -/
def ofStep : System State Label := ⟨Init, fun s l s' => step s l = some s'⟩

variable (ok) [∀ s l, Decidable (ok s l)]

/-- Run a list of labels, as long as they meet `ok`. -/
def runFrom : State → List Label → Option State
  | s, [] => some s
  | s, l :: ls => if ok s l then (step s l).bind fun s' => runFrom s' ls else none

variable {Init step}

/-- What a list of labels leads to is reachable, in any system that can do what
the function does. -/
theorem Reachable.run (hT : ∀ s l s', step s l = some s' → T.Step s l s') {s s' : State}
    (ls : List Label) (h : T.Reachable ok s) (hrun : runFrom ok step s ls = some s') :
    T.Reachable ok s' := by
  induction ls generalizing s with
  | nil => rwa [← Option.some.inj hrun]
  | cons l ls ih =>
    rw [System.runFrom] at hrun
    split at hrun
    · rename_i hok
      obtain ⟨u, hu, hrun⟩ := Option.bind_eq_some_iff.mp hrun
      exact ih (.step h hok (hT _ _ _ hu)) hrun
    · cases hrun

/-- What a list of labels leads to is reachable. -/
theorem Reachable.runFrom {s s' : State} (ls : List Label) (h : (ofStep Init step).Reachable ok s)
    (hrun : runFrom ok step s ls = some s') : (ofStep Init step).Reachable ok s' :=
  Reachable.run ok (fun _ _ _ hst => hst) ls h hrun

end Functional

/-- The system with a history variable: `upd` extends the history by what each
step did. -/
def record {History : Type} (T : System State Label) (start : History)
    (upd : History → State → Label → State → History) : System (State × History) Label where
  Init s := T.Init s.1 ∧ s.2 = start
  Step s l s' := T.Step s.1 l s'.1 ∧ s'.2 = upd s.2 s.1 l s'.1

/-- Steps by a function, with the history they leave. -/
def recordStep {History : Type} (step : State → Label → Option State)
    (upd : History → State → Label → State → History) (s : State × History) (l : Label) :
    Option (State × History) :=
  (step s.1 l).map fun s' => (s', upd s.2 s.1 l s')

theorem record_step {History : Type} {Init : State → Prop} {step : State → Label → Option State}
    {start : History} {upd : History → State → Label → State → History} (s : State × History)
    (l : Label) (s' : State × History) (h : recordStep step upd s l = some s') :
    ((ofStep Init step).record start upd).Step s l s' := by
  obtain ⟨t, ht, rfl⟩ := Option.map_eq_some_iff.mp h
  exact ⟨ht, rfl⟩

end System
end Transition
