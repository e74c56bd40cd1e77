import Mathlib.Data.List.Infix
import Mathlib.Data.List.Induction

/-! Runs of a step function. A condition on the steps of a run is met at every step, in the state
that the earlier ones have led to. -/
namespace Aeroric
variable {σ α : Type}

/-- Every step of the run from a state meets the condition where it is taken. -/
def Along (step : σ → α → σ) (P : σ → α → Prop) : σ → List α → Prop
  | _, [] => True
  | s, a :: as => P s a ∧ Along step P (step s a) as

instance decidableAlong (step : σ → α → σ) (P : σ → α → Prop) [∀ s a, Decidable (P s a)] :
    ∀ s as, Decidable (Along step P s as)
  | _, [] => .isTrue trivial
  | s, a :: as => @instDecidableAnd _ _ inferInstance (decidableAlong step P (step s a) as)

namespace Along
variable {step : σ → α → σ} {P : σ → α → Prop}

lemma iff {s : σ} {as : List α} : Along step P s as ↔
    ∀ earlier a, earlier ++ [a] <+: as → P (earlier.foldl step s) a := by
  induction as generalizing s with
  | nil => simp [Along]
  | cons b as ih =>
    rw [Along, ih]
    constructor
    · rintro ⟨hb, has⟩ earlier a hpre
      cases earlier with
      | nil =>
        obtain ⟨rfl, -⟩ := List.cons_prefix_cons.mp hpre
        exact hb
      | cons c earlier =>
        obtain ⟨rfl, hrest⟩ := List.cons_prefix_cons.mp hpre
        exact has earlier a hrest
    · intro h
      refine ⟨h [] b (List.cons_prefix_cons.mpr ⟨rfl, List.nil_prefix⟩), fun earlier a hpre => ?_⟩
      exact h (b :: earlier) a (List.cons_prefix_cons.mpr ⟨rfl, hpre⟩)

/-- What each step that meets the condition keeps holds all along the run. -/
lemma invariant {I : σ → Prop} {s : σ} {as : List α}
    (h : ∀ earlier a, earlier ++ [a] <+: as → P (earlier.foldl step s) a) (hs : I s)
    (hstep : ∀ s a, I s → P s a → I (step s a)) {earlier : List α} (hpre : earlier <+: as) :
    I (earlier.foldl step s) := by
  induction earlier using List.reverseRecOn with
  | nil => exact hs
  | append_singleton earlier a ih =>
    rw [List.foldl_concat]
    exact hstep _ a (ih ((List.prefix_append _ _).trans hpre)) (h earlier a hpre)

end Along

end Aeroric
