import Mathlib.Data.List.Nodup
import Mathlib.Data.Finset.Card
import Mathlib.Data.Fintype.Pigeonhole

/-! # Turns

Who has its turn at each time, and whether turns are shared fairly.  Going round
a list is fair and serves everybody (`fair_of_rotation`, `served_of_rotation`);
when the turns go to finitely many and leave one out for ever, they are not fair
(`not_fair_of_left_out`). -/
namespace RoundRobin
variable {α : Type} {turn : Nat → Option α}

/-- Between two turns of one of them, everybody else in the group has a turn. -/
def Fair (turn : Nat → Option α) (group : α → Prop) : Prop :=
  ∀ t u p q, t < u → turn t = some p → turn u = some p → group q → q ≠ p →
    ∃ v, t < v ∧ v < u ∧ turn v = some q

/-- Everybody in the group has a turn after any time. -/
def Served (turn : Nat → Option α) (group : α → Prop) : Prop :=
  ∀ q t, group q → ∃ u, t ≤ u ∧ turn u = some q

/-- The turns go round a list, from time `d` on. -/
theorem served_of_rotation {l : List α} {group : α → Prop} (hgroup : ∀ q, group q → q ∈ l)
    {d : Nat} (hturn : ∀ t, turn (t + d) = l[t % l.length]?) : Served turn group := by
  intro q t hq
  obtain ⟨j, hj, rfl⟩ := List.mem_iff_getElem.mp (hgroup q hq)
  refine ⟨l.length * t + j + d, ?_, ?_⟩
  · have : t ≤ l.length * t := Nat.le_mul_of_pos_left t (Nat.zero_lt_of_lt hj)
    omega
  · rw [hturn, Nat.mul_add_mod, Nat.mod_eq_of_lt hj, List.getElem?_eq_getElem hj]

/-- The turns go round a list without repetitions, from time `d` on. -/
theorem fair_of_rotation {l : List α} (hnodup : l.Nodup) {group : α → Prop}
    (hgroup : ∀ q, group q → q ∈ l) {d : Nat} (hbefore : ∀ t, t < d → turn t = none)
    (hturn : ∀ t, turn (t + d) = l[t % l.length]?) : Fair turn group := by
  intro t u p q htu ht hu hq hne
  have hd : d ≤ t := by
    apply Nat.le_of_not_lt
    intro hlt
    rw [hbefore t hlt] at ht
    cases ht
  obtain ⟨a, rfl⟩ := Nat.exists_eq_add_of_le' hd
  obtain ⟨b, rfl⟩ := Nat.exists_eq_add_of_le' (Nat.le_of_lt (Nat.lt_of_le_of_lt hd htu))
  obtain ⟨j, hj, rfl⟩ := List.mem_iff_getElem.mp (hgroup q hq)
  have hpos : 0 < l.length := Nat.lt_of_le_of_lt (Nat.zero_le j) hj
  have ha := Nat.mod_lt a hpos
  rw [hturn, List.getElem?_eq_getElem ha] at ht
  rw [hturn, List.getElem?_eq_getElem (Nat.mod_lt b hpos)] at hu
  -- equal turns are a multiple of the length apart
  have hmod : a % l.length = b % l.length :=
    (hnodup.getElem_inj_iff).mp (Option.some.inj (ht.trans hu.symm))
  have hj' : j ≠ a % l.length := by
    rintro rfl
    exact hne (Option.some.inj ht)
  have ha' : l.length * (a / l.length) + a % l.length = a := Nat.div_add_mod a l.length
  have hround : a + l.length ≤ b := by
    have hb' : l.length * (b / l.length) + b % l.length = b := Nat.div_add_mod b l.length
    have hlt : a / l.length < b / l.length := by
      apply Nat.lt_of_not_le
      intro hle
      have := Nat.mul_le_mul_left l.length hle
      omega
    have hmul := Nat.mul_le_mul_left l.length (Nat.succ_le_of_lt hlt)
    rw [Nat.mul_succ] at hmul
    omega
  -- the next turn of `j` after time `a`
  have hnext : ∃ v, a < v ∧ v < a + l.length ∧ v % l.length = j := by
    rcases Nat.lt_or_gt_of_ne hj' with hlt | hgt
    · refine ⟨l.length * (a / l.length + 1) + j, ?_, ?_, ?_⟩
      · rw [Nat.mul_add, Nat.mul_one]
        omega
      · rw [Nat.mul_add, Nat.mul_one]
        omega
      · rw [Nat.mul_add_mod, Nat.mod_eq_of_lt hj]
    · refine ⟨l.length * (a / l.length) + j, by omega, by omega, ?_⟩
      rw [Nat.mul_add_mod, Nat.mod_eq_of_lt hj]
  obtain ⟨v, hav, hvb, hv⟩ := hnext
  refine ⟨v + d, by omega, by omega, ?_⟩
  rw [hturn, hv, List.getElem?_eq_getElem hj]

theorem not_served_of_left_out {group : α → Prop} {q : α} (hq : group q) {d : Nat}
    (hturn : ∀ t, turn (t + d) ≠ some q) : ¬ Served turn group := by
  intro h
  obtain ⟨u, hu, hturn_u⟩ := h q d hq
  obtain ⟨t, rfl⟩ := Nat.exists_eq_add_of_le' hu
  exact hturn t hturn_u

/-- Turns that go to finitely many but never to one of the group. -/
theorem not_fair_of_left_out {group : α → Prop} {q : α} (hq : group q) {d : Nat}
    (others : Finset α) (hturn : ∀ t, ∃ p, turn (t + d) = some p ∧ p ≠ q ∧ p ∈ others) :
    ¬ Fair turn group := by
  intro hfair
  choose who hwho using hturn
  -- somebody has two turns
  obtain ⟨t, -, u, -, hne, heq⟩ := Finset.exists_ne_map_eq_of_card_lt_of_maps_to
    (s := Finset.range (others.card + 1)) (t := others) (by simp) (fun t _ => (hwho t).2.2)
  have hleft : ∀ t u, t < u → who t = who u → False := by
    intro t u htu heq
    obtain ⟨v, htv, -, hv⟩ := hfair (t + d) (u + d) (who t) q (by omega) (hwho t).1
      (heq ▸ (hwho u).1) hq (hwho t).2.1.symm
    obtain ⟨w, rfl⟩ := Nat.exists_eq_add_of_le' (show d ≤ v by omega)
    exact (hwho w).2.1 (Option.some.inj ((hwho w).1.symm.trans hv))
  rcases Nat.lt_or_gt_of_ne hne with hlt | hgt
  · exact hleft t u hlt heq
  · exact hleft u t hgt heq.symm

end RoundRobin
