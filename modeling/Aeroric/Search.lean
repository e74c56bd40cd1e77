import Mathlib.Data.List.Infix

/-! Looking for a pattern in a text that comes in pieces: what may be the beginning of the pattern is held
back. -/
namespace Aeroric.Search
variable {α : Type} [DecidableEq α]

/-- What stands before the first occurrence, and what after it. -/
def find (pattern : List α) : List α → Option (List α × List α)
  | [] => if pattern = [] then some ([], []) else none
  | a :: text =>
    if pattern.isPrefixOf (a :: text) then some ([], (a :: text).drop pattern.length)
    else (find pattern text).map fun found => (a :: found.1, found.2)

def contains (pattern text : List α) : Bool := (find pattern text).isSome

/-- The longest end of a text that the pattern begins with. -/
def heldBack (pattern : List α) : List α → List α
  | [] => []
  | a :: text => if (a :: text).isPrefixOf pattern then a :: text else heldBack pattern text

/-- The text before it. -/
def free (pattern text : List α) : List α := text.take (text.length - (heldBack pattern text).length)

/-- A loop that reads off one thing after another. -/
def repeatedly {β : Type} (step : List α → Option (β × List α)) : ℕ → List α → List β
  | 0, _ => []
  | turns + 1, text =>
    match step text with
    | none => []
    | some (found, rest) => found :: repeatedly step turns rest

variable {pattern text before after : List α}

lemma find_some (h : find pattern text = some (before, after)) : text = before ++ pattern ++ after := by
  induction text generalizing before with
  | nil =>
    unfold find at h
    split at h
    · next hpattern =>
      cases h
      rw [hpattern]
      rfl
    · cases h
  | cons a text ih =>
    unfold find at h
    split at h
    · next hpre =>
      cases h
      exact List.prefix_iff_eq_append.mp (List.isPrefixOf_iff_prefix.mp hpre) |>.symm
    · obtain ⟨found, hfound, heq⟩ := Option.map_eq_some_iff.mp h
      cases heq
      rw [List.cons_append, List.cons_append, ← ih hfound]

/-- A pattern is found where it stands if no character before it begins it. -/
lemma find_append {a : α} {before : List α} (h : a ∉ before) (pattern after : List α) :
    find (a :: pattern) (before ++ (a :: pattern) ++ after) = some (before, after) := by
  induction before with
  | nil =>
    have hpre : (a :: pattern).isPrefixOf (a :: pattern ++ after) = true :=
      List.isPrefixOf_iff_prefix.mpr (List.prefix_append _ _)
    rw [List.nil_append, List.cons_append, find, ← List.cons_append, if_pos hpre, List.drop_left]
  | cons b before ih =>
    rw [List.mem_cons, not_or] at h
    have hpre : ¬ (a :: pattern).isPrefixOf (b :: (before ++ (a :: pattern) ++ after)) = true := by
      simp [h.1]
    rw [List.cons_append, List.cons_append, find, if_neg hpre, ih h.2]
    rfl

lemma notMem_of_find_singleton {a : α} (h : find [a] text = some (before, after)) : a ∉ before := by
  induction text generalizing before with
  | nil => exact absurd h nofun
  | cons b text ih =>
    unfold find at h
    split at h
    · cases h
      exact List.not_mem_nil
    · next hpre =>
      obtain ⟨found, hfound, heq⟩ := Option.map_eq_some_iff.mp h
      cases heq
      have hne : a ≠ b := by
        rintro rfl
        exact hpre (by simp)
      exact List.not_mem_cons_of_ne_of_not_mem hne (ih hfound)

lemma notMem_of_find_singleton_none {a : α} (h : find [a] text = none) : a ∉ text := by
  intro hmem
  obtain ⟨before, after, htext, hbefore⟩ := List.eq_append_cons_of_mem hmem
  have hfound := find_append hbefore [] after
  rw [List.append_assoc, List.singleton_append, ← htext, h] at hfound
  cases hfound

omit [DecidableEq α] in
/-- A mark cuts a text in one way where it stands first. -/
lemma cut_unique {mark : α} {xs ys as bs : List α} (hx : mark ∉ xs) (hy : mark ∉ ys)
    (h : xs ++ mark :: as = ys ++ mark :: bs) : xs = ys ∧ as = bs := by
  rcases List.append_eq_append_iff.mp h with ⟨between, rfl, hrest⟩ | ⟨between, rfl, hrest⟩
  · cases between with
    | nil => exact ⟨(List.append_nil _).symm, (List.cons.inj hrest).2⟩
    | cons a between => exact absurd (by simp [(List.cons.inj hrest).1]) hy
  · cases between with
    | nil => exact ⟨List.append_nil _, (List.cons.inj hrest).2.symm⟩
    | cons a between => exact absurd (by simp [(List.cons.inj hrest).1]) hx

end Aeroric.Search
