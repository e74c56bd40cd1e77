import Mathlib.Data.List.Induction
import Aeroric.Table

/-! Lists that are made of tables key by key: two passes that are merged by a sort, and tables that
are collected from lists. -/
namespace Aeroric
variable {κ α β γ : Type} [LinearOrder κ]

/-- Strictly increasing lists are given by their members. -/
lemma eq_of_increasing {key : β → κ} {l m : List β} (hl : l.Pairwise fun a b => key a < key b)
    (hm : m.Pairwise fun a b => key a < key b) (h : ∀ b, b ∈ l ↔ b ∈ m) : l = m := by
  have hne : ∀ {a b : β}, key a < key b → a ≠ b := by
    rintro a _ hlt rfl
    exact lt_irrefl _ hlt
  have hperm := (List.perm_ext_iff_of_nodup (hl.imp hne) (hm.imp hne)).mpr h
  exact hperm.eq_of_pairwise (fun a b _ _ hab hba => absurd hba (lt_asymm hab)) hl hm

namespace Table

/-- What one pass makes of the keys of a table and another of the keys that only a second table has,
in the order of the keys. -/
def twoPass (key : β → κ) (s : Table κ α) (r : Table κ γ) (first second : κ → Option β) : List β :=
  (s.keys.filterMap first ++ r.keys.filterMap fun k =>
    if (s.get k).isSome then none else second k).insertionSort fun a b => key a ≤ key b

section TwoPass
variable {key : β → κ} {s : Table κ α} {r : Table κ γ} {first second : κ → Option β}
  (hfirst : ∀ k b, first k = some b → key b = k) (hsecond : ∀ k b, second k = some b → key b = k)
include hfirst hsecond

lemma mem_twoPass {b : β} : b ∈ twoPass key s r first second ↔
    if (s.get (key b)).isSome then first (key b) = some b
    else (r.get (key b)).isSome ∧ second (key b) = some b := by
  unfold twoPass
  rw [List.mem_insertionSort, List.mem_append, List.mem_filterMap, List.mem_filterMap]
  simp only [mem_keys]
  constructor
  · rintro (⟨k, hs, hb⟩ | ⟨k, hr, hb⟩)
    · obtain rfl := hfirst k b hb
      rwa [if_pos hs]
    · split at hb
      · cases hb
      · next hs =>
        obtain rfl := hsecond k b hb
        rw [if_neg hs]
        exact ⟨hr, hb⟩
  · intro h
    split at h
    · next hs => exact .inl ⟨key b, hs, h⟩
    · next hs => exact .inr ⟨key b, h.1, by rw [if_neg hs]; exact h.2⟩

lemma twoPass_increasing :
    (twoPass key s r first second).Pairwise fun a b => key a < key b := by
  have hpass : ∀ {δ : Type} (t : Table κ δ) (f : κ → Option β), (∀ k b, f k = some b → key b = k) →
      (t.keys.filterMap f).Pairwise fun a b => key a ≠ key b := by
    intro δ t f hf
    rw [List.pairwise_filterMap]
    refine t.keys_sorted.imp fun {j k} hlt a ha b hb => ?_
    rw [hf j a ha, hf k b hb]
    exact ne_of_lt hlt
  have hsecond' : ∀ k b, (if (s.get k).isSome then none else second k) = some b → key b = k := by
    intro k b hb
    split at hb
    · cases hb
    · exact hsecond k b hb
  -- no key is in both passes
  have happart : ∀ a ∈ s.keys.filterMap first, ∀ b ∈ r.keys.filterMap fun k =>
      if (s.get k).isSome then none else second k, key a ≠ key b := by
    intro a ha b hb heq
    obtain ⟨j, hj, ha⟩ := List.mem_filterMap.mp ha
    obtain ⟨k, -, hb⟩ := List.mem_filterMap.mp hb
    rw [hfirst j a ha, hsecond' k b hb] at heq
    subst heq
    rw [if_pos (mem_keys.mp hj)] at hb
    cases hb
  have hne := List.pairwise_append.mpr ⟨hpass s first hfirst, hpass r _ hsecond', happart⟩
  have hle := List.pairwise_insertionSort (fun a b : β => key a ≤ key b)
    (s.keys.filterMap first ++ r.keys.filterMap fun k =>
      if (s.get k).isSome then none else second k)
  have hsorted := ((List.perm_insertionSort (fun a b : β => key a ≤ key b) _).pairwise_iff
    fun {a b} hab => Ne.symm hab).mpr hne
  exact (hle.and hsorted).imp fun h => lt_of_le_of_ne h.1 h.2

end TwoPass

/-! Tables from lists. -/

/-- The rows of a list by their keys; of several rows with one key the last. -/
def collect (key : α → κ) (l : List α) : Table κ α :=
  l.foldl (fun t a => t.set (key a) a) .empty

def look (key : α → κ) (l : List α) (k : κ) : Option α := l.find? fun a => key a = k

variable {key : α → κ}

lemma look_eq_some {l : List α} (hnodup : (l.map key).Nodup) {k : κ} {a : α} :
    look key l k = some a ↔ a ∈ l ∧ key a = k := by
  constructor
  · intro h
    exact ⟨List.mem_of_find?_eq_some h, by simpa using List.find?_some h⟩
  · rintro ⟨ha, rfl⟩
    cases hlook : look key l (key a) with
    | none =>
      have := List.find?_eq_none.mp hlook a ha
      simp at this
    | some b =>
      have hb := List.mem_of_find?_eq_some hlook
      have hkey : key b = key a := by simpa using List.find?_some hlook
      rw [List.inj_on_of_nodup_map hnodup hb ha hkey]

/-- With keys that are all different the order of the rows does not matter. -/
lemma look_perm {l m : List α} (h : l.Perm m) (hnodup : (l.map key).Nodup) (k : κ) :
    look key l k = look key m k := by
  refine Option.ext fun a => ?_
  rw [look_eq_some hnodup, look_eq_some ((h.map key).nodup_iff.mp hnodup), h.mem_iff]

/-- A row is found among the rows with its key. -/
lemma look_filter (l : List α) (k : κ) :
    look key l k = (l.filter fun a => key a = k).head? := by
  rw [look, List.head?_filter]

lemma get_collect {l : List α} (hnodup : (l.map key).Nodup) (k : κ) :
    (collect key l).get k = look key l k := by
  unfold collect look
  induction l using List.reverseRecOn with
  | nil => rfl
  | append_singleton l a ih =>
    rw [List.map_append, List.nodup_append] at hnodup
    rw [List.foldl_concat, List.find?_append]
    by_cases hk : k = key a
    · subst hk
      have hnone : l.find? (fun b => key b = key a) = none := by
        rw [List.find?_eq_none]
        intro b hb heq
        exact hnodup.2.2 (key b) (List.mem_map_of_mem hb) (key a) (by simp) (by simpa using heq)
      rw [get_set_self, hnone]
      simp
    · rw [get_set_of_ne hk, ih hnodup.1]
      simp [Ne.symm hk]

end Table
end Aeroric
