import Mathlib.Data.List.Basic
import QuarkKernel.Transition

/-! # Run queues

A queue whose first element has the turn: it goes to the end of the queue or out of it
when its turn ends, and others join at the end.  So nobody is overtaken, and who has `i`
others before it has its turn when `i` turns have ended (`served_within`). -/
namespace RunQueue
variable {α : Type}

/-- What a step does to the queue, and whether it ends a turn. -/
inductive Step : List α → Bool → List α → Prop
  | keeps (l : List α) : Step l false l
  | joins (l : List α) (p : α) : Step l false (l ++ [p])
  | yields (a : α) (l : List α) : Step (a :: l) true (l ++ [a])
  | leaves (a : α) (l : List α) : Step (a :: l) true l

/-- Whoever waits moves up by one if a turn ends, and stays in place otherwise. -/
theorem Step.moves {l l' : List α} {ended : Bool} (h : Step l ended l') {i : Nat} {q : α}
    (hq : l[i + 1]? = some q) : l'[i + 1 - ended.toNat]? = some q := by
  have hlt := (List.getElem?_eq_some_iff.mp hq).1
  cases h with
  | keeps => exact hq
  | joins l p =>
    show (l ++ [p])[i + 1]? = some q
    rw [List.getElem?_append_left hlt, hq]
  | yields a l =>
    rw [List.getElem?_cons_succ] at hq
    show (l ++ [a])[i]? = some q
    rw [List.getElem?_append_left (Nat.lt_of_succ_lt_succ hlt), hq]
  | leaves a l => exact hq

section Runs
variable {State Label : Type} {ok : State → Label → Prop} [∀ s l, Decidable (ok s l)]
  {step : State → Label → Option State} (ends : State → Label → Bool)

/-- The number of turns that end in a run. -/
def turnsEnded (step : State → Label → Option State) (ends : State → Label → Bool) :
    State → List Label → Nat
  | _, [] => 0
  | s, l :: ls =>
      (ends s l).toNat + ((step s l).map fun s' => turnsEnded step ends s' ls).getD 0

/-- **Nobody waits for more turns than there are others before it.** -/
theorem served_within (line : State → List α) (Inv : State → Prop)
    (hstep : ∀ s l s', Inv s → ok s l → step s l = some s' →
      Inv s' ∧ Step (line s) (ends s l) (line s'))
    (ls : List Label) {s s' : State} {i : Nat} {q : α} (hinv : Inv s)
    (hrun : Transition.System.runFrom ok step s ls = some s') (hq : (line s)[i]? = some q)
    (hi : i ≤ turnsEnded step ends s ls) :
    ∃ n, n ≤ ls.length ∧ ∃ u, Transition.System.runFrom ok step s (ls.take n) = some u ∧
      (line u).head? = some q := by
  induction ls generalizing s i with
  | nil =>
    obtain rfl : i = 0 := Nat.le_zero.mp hi
    exact ⟨0, Nat.le_refl 0, s, rfl, by rw [List.head?_eq_getElem?, hq]⟩
  | cons l ls ih =>
    cases i with
    | zero => exact ⟨0, Nat.zero_le _, s, rfl, by rw [List.head?_eq_getElem?, hq]⟩
    | succ i =>
      rw [Transition.System.runFrom] at hrun
      split at hrun
      · rename_i hok
        obtain ⟨t, ht, hrun⟩ := Option.bind_eq_some_iff.mp hrun
        obtain ⟨hinv', hmove⟩ := hstep s l t hinv hok ht
        rw [turnsEnded, ht, Option.map_some, Option.getD_some] at hi
        obtain ⟨n, hn, u, hu, hhead⟩ := ih hinv' hrun (hmove.moves hq) (by omega)
        refine ⟨n + 1, Nat.succ_le_succ hn, u, ?_, hhead⟩
        rw [List.take_succ_cons, Transition.System.runFrom, if_pos hok, ht]
        exact hu
      · cases hrun

end Runs
end RunQueue
