import Mathlib.Algebra.BigOperators.Ring.Finset
import Mathlib.Algebra.Order.BigOperators.Group.Finset
import Mathlib.Data.Nat.Periodic
import Mathlib.Order.Interval.Finset.Nat
import Mathlib.Tactic.Linarith
import Mathlib.Tactic.Ring

/-! Smooth weighted rotation. In each turn every member gains its weight, and a member that has the
most pays the total. -/
namespace Aeroric

structure Rotation (ι : Type) where
  members : Finset ι
  weight : ι → ℕ
  weight_of_notMem : ∀ i ∉ members, weight i = 0
  choose : (ι → ℤ) → ι
  choose_mem : ∀ x : ι → ℤ, choose x ∈ members
  le_choose : ∀ x : ι → ℤ, ∀ i ∈ members, x i ≤ x (choose x)

namespace Rotation
variable {ι : Type} [DecidableEq ι] (r : Rotation ι)

def total : ℕ := ∑ i ∈ r.members, r.weight i

def gain (x : ι → ℤ) (i : ι) : ℤ := x i + r.weight i

def step (x : ι → ℤ) (i : ι) : ℤ := r.gain x i - if i = r.choose (r.gain x) then (r.total : ℤ) else 0

/-- What the members have before a turn, from nothing. -/
def state (n : ℕ) : ι → ℤ := r.step^[n] fun _ => 0

def chosen (n : ℕ) : ι := r.choose (r.gain (r.state n))

lemma state_succ (n : ℕ) (i : ι) : r.state (n + 1) i =
    r.state n i + r.weight i - if i = r.chosen n then (r.total : ℤ) else 0 := by
  unfold state
  rw [Function.iterate_succ_apply']
  rfl

lemma state_eq (n : ℕ) (i : ι) :
    r.state n i = n * r.weight i - r.total * (Nat.count (r.chosen · = i) n : ℕ) := by
  induction n with
  | zero => simp [state]
  | succ n ih =>
    rw [state_succ, ih, Nat.count_succ]
    by_cases h : r.chosen n = i
    · rw [if_pos h.symm, if_pos h]
      push_cast
      ring
    · rw [if_neg (Ne.symm h), if_neg h]
      push_cast
      ring

lemma sum_count (n : ℕ) : ∑ i ∈ r.members, Nat.count (r.chosen · = i) n = n := by
  induction n with
  | zero => simp
  | succ n ih =>
    simp only [Nat.count_succ, Finset.sum_add_distrib, ih, Finset.sum_ite_eq]
    rw [chosen, if_pos (r.choose_mem _)]

lemma sum_state (n : ℕ) : ∑ i ∈ r.members, r.state n i = 0 := by
  simp only [state_eq, Finset.sum_sub_distrib, ← Finset.mul_sum, ← Nat.cast_sum, sum_count]
  rw [← total]
  ring

/-- Nobody owes a whole total: who pays it has had something. -/
lemma neg_total_lt_state (h : 0 < r.total) (n : ℕ) : ∀ i ∈ r.members, -(r.total : ℤ) < r.state n i := by
  induction n with
  | zero =>
    intro i _
    simpa [state] using h
  | succ n ih =>
    intro i hi
    rw [state_succ]
    by_cases hchosen : i = r.chosen n
    · have hsum : 0 < ∑ j ∈ r.members, r.gain (r.state n) j := by
        simp only [gain, Finset.sum_add_distrib, sum_state, zero_add, ← Nat.cast_sum]
        exact_mod_cast h
      obtain ⟨j, hj, hpos⟩ := Finset.exists_lt_of_sum_lt (f := fun _ => (0 : ℤ)) (by simpa using hsum)
      have hmost := r.le_choose (r.gain (r.state n)) j hj
      rw [if_pos hchosen]
      have : 0 < r.state n i + r.weight i := by
        rw [hchosen]
        exact hpos.trans_le hmost
      omega
    · rw [if_neg hchosen]
      have := ih i hi
      omega

/-- In a period from nothing everyone is chosen as often as its weight says. -/
lemma count_total {i : ι} (hi : i ∈ r.members) : Nat.count (r.chosen · = i) r.total = r.weight i := by
  rcases Nat.eq_zero_or_pos r.total with hzero | hpos
  · have hweight := (Finset.sum_eq_zero_iff.mp hzero) i hi
    rw [hzero, hweight, Nat.count_zero]
  have hle : ∀ j ∈ r.members, Nat.count (r.chosen · = j) r.total ≤ r.weight j := by
    intro j hj
    have hlt := r.neg_total_lt_state hpos r.total j hj
    rw [state_eq, ← mul_sub] at hlt
    by_contra hmore
    have hstep : (r.weight j : ℤ) - (Nat.count (r.chosen · = j) r.total : ℕ) ≤ -1 := by omega
    nlinarith
  exact (Finset.sum_eq_sum_iff_of_le hle).mp (r.sum_count r.total) i hi

lemma count_of_notMem {i : ι} (hi : i ∉ r.members) (n : ℕ) : Nat.count (r.chosen · = i) n = 0 := by
  have hnever : ∀ j, r.chosen j ≠ i := fun j h => hi (h ▸ r.choose_mem _)
  simp [Nat.count_eq_card_filter_range, hnever]

lemma state_total : r.state r.total = fun _ => 0 := by
  funext i
  by_cases hi : i ∈ r.members
  · rw [state_eq, r.count_total hi, sub_self]
  · rw [state_eq, r.count_of_notMem hi, r.weight_of_notMem i hi]
    simp

lemma state_add_total (n : ℕ) : r.state (n + r.total) = r.state n := by
  have htotal := r.state_total
  unfold state at htotal ⊢
  rw [Function.iterate_add_apply, htotal]

lemma state_mul_total (n : ℕ) : r.state (n * r.total) = fun _ => 0 := by
  induction n with
  | zero => simp [state]
  | succ n ih => rw [Nat.succ_mul, state_add_total, ih]

/-- So it is in every stretch of that length. -/
lemma card_chosen {i : ι} (hi : i ∈ r.members) (n : ℕ) :
    (Finset.filter (r.chosen · = i) (Finset.Ico n (n + r.total))).card = r.weight i := by
  rw [← r.count_total hi]
  refine Nat.filter_Ico_card_eq_of_periodic n r.total (r.chosen · = i) fun j => ?_
  simp only [chosen, state_add_total]

end Rotation

end Aeroric
