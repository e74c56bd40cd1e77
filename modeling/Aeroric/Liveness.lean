import Mathlib.Order.WellFounded
import Mathlib.Order.Lattice.Nat

/-! Endless runs of a step function, and what happens in them sooner or later. -/
namespace Aeroric

def states {σ α : Type} (step : σ → α → σ) (start : σ) (labels : ℕ → α) : ℕ → σ
  | 0 => start
  | t + 1 => step (states step start labels t) (labels t)

/-- What every step keeps that meets the condition holds at all times. -/
lemma states_invariant {σ α : Type} {step : σ → α → σ} {start : σ} {labels : ℕ → α}
    {P : σ → α → Prop} {I : σ → Prop} (hP : ∀ t, P (states step start labels t) (labels t))
    (hstart : I start) (hstep : ∀ s a, I s → P s a → I (step s a)) (t : ℕ) :
    I (states step start labels t) := by
  induction t with
  | zero => exact hstart
  | succ t ih => exact hstep _ _ ih (hP t)

section Eventually
variable {P Q H : ℕ → Prop}

/-- What lasts while nothing helps lasts up to the next moment that helps. -/
lemma exists_next (hfair : ∀ t, ∃ u, t ≤ u ∧ H u) (hwait : ∀ t, P t → ¬H t → P (t + 1)) {t : ℕ}
    (ht : P t) : ∃ u, t ≤ u ∧ H u ∧ P u := by
  obtain ⟨u, htu, hu⟩ := hfair t
  obtain ⟨d, rfl⟩ := Nat.exists_eq_add_of_le htu
  clear htu
  induction d generalizing t with
  | zero => exact ⟨t, le_rfl, hu, ht⟩
  | succ d ih =>
    by_cases hnow : H t
    · exact ⟨t, le_rfl, hnow, ht⟩
    · have hlater : H (t + 1 + d) := by rwa [Nat.add_right_comm, Nat.add_assoc]
      obtain ⟨u, htu, hu⟩ := ih (hwait t ht hnow) hlater
      exact ⟨u, (Nat.le_succ t).trans htu, hu⟩

/-- A goal is reached when a rank is lowered at every moment that helps and kept at the others,
and there is always one more moment that helps. -/
lemma eventually_of_rank {ι : Type} [Preorder ι] [WellFoundedLT ι] (rank : ℕ → ι)
    (hfair : ∀ t, ∃ u, t ≤ u ∧ H u) (hwait : ∀ t, P t → ¬H t → P (t + 1) ∧ rank (t + 1) = rank t)
    (hhelp : ∀ t, P t → H t → Q (t + 1) ∨ P (t + 1) ∧ rank (t + 1) < rank t) {t : ℕ} (ht : P t) :
    ∃ u, t ≤ u ∧ Q u := by
  induction hrank : rank t using WellFoundedLT.induction generalizing t with
  | ind r ih =>
    have hlasts : ∀ u, P u ∧ rank u = r → ¬H u → P (u + 1) ∧ rank (u + 1) = r :=
      fun u hu hno => ⟨(hwait u hu.1 hno).1, (hwait u hu.1 hno).2.trans hu.2⟩
    obtain ⟨u, htu, hu, hPu, hsame⟩ := exists_next hfair hlasts ⟨ht, hrank⟩
    rcases hhelp u hPu hu with hQ | ⟨hP, hlower⟩
    · exact ⟨u + 1, Nat.le_succ_of_le htu, hQ⟩
    · obtain ⟨v, huv, hQ⟩ := ih _ (hsame ▸ hlower) hP rfl
      exact ⟨v, htu.trans ((Nat.le_succ u).trans huv), hQ⟩

end Eventually
end Aeroric
