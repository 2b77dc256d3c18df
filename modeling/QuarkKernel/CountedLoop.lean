import Mathlib.Logic.Basic

/-! # Counted loops

`for (i = 0; i < n; i++)` with a body that may fail, and the rules for it: the
invariant rule, and the state in front of each pass of a loop that succeeds. -/
namespace CountedLoop
variable {σ : Type} {body : Nat → σ → Option σ}

/-- The state after the passes `0`, …, `n - 1`. -/
def loop (body : Nat → σ → Option σ) : Nat → σ → Option σ
  | 0, s => some s
  | n + 1, s => (loop body n s).bind (body n)

@[simp] theorem loop_zero (s : σ) : loop body 0 s = some s := rfl

theorem loop_succ (n : Nat) (s : σ) : loop body (n + 1) s = (loop body n s).bind (body n) := rfl

/-- **The invariant rule.**  A loop whose passes succeed under `Inv` succeeds. -/
theorem loop_of_invariant (body : Nat → σ → Option σ) (n : Nat) (s : σ) (Inv : Nat → σ → Prop)
    (hinit : Inv 0 s)
    (hstep : ∀ i t, i < n → Inv i t → ∃ t', body i t = some t' ∧ Inv (i + 1) t') :
    ∃ t, loop body n s = some t ∧ Inv n t := by
  induction n with
  | zero => exact ⟨s, rfl, hinit⟩
  | succ n ih =>
    obtain ⟨t, ht, hinv⟩ := ih fun i t hi => hstep i t (by omega)
    obtain ⟨t', ht', hinv'⟩ := hstep n t (by omega) hinv
    exact ⟨t', by rw [loop_succ, ht]; exact ht', hinv'⟩

/-- What every successful pass keeps is kept by the loop. -/
theorem loop_preserves (Inv : Nat → σ → Prop) {n : Nat} {s t : σ} (hinit : Inv 0 s)
    (hstep : ∀ i t t', i < n → Inv i t → body i t = some t' → Inv (i + 1) t')
    (h : loop body n s = some t) : Inv n t := by
  induction n generalizing t with
  | zero =>
    obtain rfl := Option.some.inj h
    exact hinit
  | succ n ih =>
    obtain ⟨u, hu, hbody⟩ := Option.bind_eq_some_iff.mp h
    exact hstep n u t (by omega) (ih (fun i t t' hi => hstep i t t' (by omega)) hu) hbody

/-- A loop that succeeds gets to each of its passes. -/
theorem loop_prefix {n i : Nat} {s t : σ} (hi : i ≤ n) (h : loop body n s = some t) :
    ∃ u, loop body i s = some u := by
  induction n generalizing t with
  | zero =>
    obtain rfl : i = 0 := by omega
    exact ⟨t, h⟩
  | succ n ih =>
    rcases Nat.lt_or_ge n i with hlt | hle
    · obtain rfl : i = n + 1 := by omega
      exact ⟨t, h⟩
    · obtain ⟨u, hu, -⟩ := Option.bind_eq_some_iff.mp h
      exact ih hle hu

end CountedLoop
