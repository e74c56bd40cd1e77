import Mathlib.Data.List.Dedup
import Mathlib.Data.List.Sort

/-! Values by keys, for finitely many of them, listed in the order of the keys. -/
namespace Aeroric

structure Table (κ α : Type) where
  get : κ → Option α
  /-- The keys, and others perhaps. -/
  support : List κ
  covers : ∀ k, get k ≠ none → k ∈ support

namespace Table
variable {κ α β : Type}

def empty : Table κ α := ⟨fun _ => none, [], fun _ h => absurd rfl h⟩

/-- The rows that satisfy a condition. -/
def filter (p : κ → α → Bool) (t : Table κ α) : Table κ α where
  get := fun k => (t.get k).filter (p k)
  support := t.support
  covers := fun k h => t.covers k fun hnone => h (by rw [hnone]; rfl)

@[simp] lemma get_empty (k : κ) : (empty : Table κ α).get k = none := rfl

@[simp] lemma get_filter (p : κ → α → Bool) (t : Table κ α) (k : κ) :
    (t.filter p).get k = (t.get k).filter (p k) := rfl

lemma get_filter_key (p : κ → Bool) (t : Table κ α) (k : κ) :
    (t.filter fun k _ => !p k).get k = if p k then none else t.get k := by
  rw [get_filter]
  cases t.get k <;> cases p k <;> simp

section DecidableEq
variable [DecidableEq κ]

def set (t : Table κ α) (k : κ) (a : α) : Table κ α where
  get := Function.update t.get k (some a)
  support := k :: t.support
  covers := fun j h => by
    by_cases hj : j = k
    · exact hj ▸ List.mem_cons_self
    · rw [Function.update_of_ne hj] at h
      exact List.mem_cons_of_mem _ (t.covers j h)

def size (t : Table κ α) : ℕ := (t.support.dedup.filter fun k => (t.get k).isSome).length

def values (t : Table κ α) : List α := t.support.dedup.filterMap t.get

def erase (t : Table κ α) (k : κ) : Table κ α where
  get := Function.update t.get k none
  support := t.support
  covers := fun j h => by
    by_cases hj : j = k
    · subst hj
      exact absurd (Function.update_self ..) h
    · rw [Function.update_of_ne hj] at h
      exact t.covers j h

variable {t : Table κ α}

/-- A list of the keys without repetition counts them. -/
lemma size_eq_length {keys : List κ} (hnodup : keys.Nodup)
    (hkeys : ∀ k, k ∈ keys ↔ (t.get k).isSome = true) : t.size = keys.length := by
  refine ((List.perm_ext_iff_of_nodup ((List.nodup_dedup _).filter _) hnodup).mpr ?_).length_eq
  intro k
  rw [hkeys, List.mem_filter, List.mem_dedup]
  refine and_iff_right_of_imp fun h => t.covers k fun hnone => ?_
  rw [hnone] at h
  cases h

@[simp] lemma get_set_self (t : Table κ α) (k : κ) (a : α) : (t.set k a).get k = some a :=
  Function.update_self ..

@[simp] lemma get_set_of_ne {j k : κ} {a : α} (h : j ≠ k) :
    (t.set k a).get j = t.get j := Function.update_of_ne h ..

@[simp] lemma get_erase_self (t : Table κ α) (k : κ) : (t.erase k).get k = none :=
  Function.update_self ..

@[simp] lemma get_erase_of_ne {j k : κ} (h : j ≠ k) :
    (t.erase k).get j = t.get j := Function.update_of_ne h ..

lemma mem_values {a : α} : a ∈ t.values ↔ ∃ k, t.get k = some a := by
  simp only [values, List.mem_filterMap, List.mem_dedup]
  refine ⟨fun ⟨k, _, hget⟩ => ⟨k, hget⟩, fun ⟨k, hget⟩ => ⟨k, t.covers k ?_, hget⟩⟩
  rw [hget]
  exact Option.some_ne_none a

end DecidableEq

section LinearOrder
variable [LinearOrder κ]

def keys (t : Table κ α) : List κ :=
  (t.support.insertionSort (· ≤ ·)).dedup.filter fun k => (t.get k).isSome

variable {t : Table κ α}

lemma mem_keys {k : κ} : k ∈ t.keys ↔ (t.get k).isSome = true := by
  unfold keys
  rw [List.mem_filter, List.mem_dedup, List.mem_insertionSort]
  refine and_iff_right_of_imp fun h => t.covers k fun hnone => ?_
  rw [hnone] at h
  cases h

lemma keys_sorted (t : Table κ α) : t.keys.Pairwise (· < ·) := by
  have hle : (t.support.insertionSort (· ≤ ·)).dedup.Pairwise (· ≤ ·) :=
    (List.pairwise_insertionSort (· ≤ ·) t.support).sublist (List.dedup_sublist _)
  have hlt : (t.support.insertionSort (· ≤ ·)).dedup.Pairwise (· < ·) :=
    (hle.and (List.nodup_dedup _)).imp fun h => lt_of_le_of_ne h.1 h.2
  exact hlt.sublist List.filter_sublist

lemma keys_eq {l : List κ} (hl : l.Pairwise (· < ·))
    (h : ∀ k, k ∈ l ↔ (t.get k).isSome = true) : t.keys = l := by
  have hperm : t.keys.Perm l := (List.perm_ext_iff_of_nodup (t.keys_sorted.imp fun h => h.ne)
    (hl.imp fun h => h.ne)).mpr fun k => by rw [mem_keys, h]
  exact hperm.eq_of_pairwise (fun a b _ _ hab hba => absurd hab hba.not_gt) t.keys_sorted hl

/-- How many keys come after one. -/
def later (t : Table κ α) (k : κ) : ℕ := (t.keys.filter (k < ·)).length

/-- The last keys, the last one first. -/
def latest (t : Table κ α) (n : ℕ) : List κ := t.keys.reverse.take n

lemma mem_take_of_descending {l : List κ} (hsorted : l.Pairwise (· > ·)) (k : κ) (n : ℕ) :
    k ∈ l.take n ↔ k ∈ l ∧ (l.filter (k < ·)).length < n := by
  induction l generalizing n with
  | nil => simp
  | cons a l ih =>
    obtain ⟨ha, hsorted⟩ := List.pairwise_cons.mp hsorted
    cases n with
    | zero => simp
    | succ n =>
      rw [List.take_succ_cons, List.mem_cons, ih hsorted, List.mem_cons]
      by_cases hk : k = a
      · -- Nothing in the list comes after its head.
        subst hk
        have hnone : l.filter (k < ·) = [] := List.filter_eq_nil_iff.mpr fun b hb => by
          simpa using (ha b hb).le
        simp [hnone]
      · by_cases hmem : k ∈ l
        · simp [hk, hmem, ha k hmem]
        · simp [hk, hmem]

lemma mem_latest {n : ℕ} {k : κ} : k ∈ t.latest n ↔ (t.get k).isSome = true ∧ t.later k < n := by
  unfold latest later
  rw [mem_take_of_descending (List.pairwise_reverse.mpr t.keys_sorted), List.mem_reverse, mem_keys,
    List.filter_reverse, List.length_reverse]

lemma keys_set_perm {k : κ} (a : α) (hfree : t.get k = none) :
    (t.set k a).keys.Perm (k :: t.keys) := by
  have hnew : k ∉ t.keys := fun h => by
    rw [mem_keys, hfree] at h
    cases h
  have hnodup : (k :: t.keys).Nodup := List.nodup_cons.mpr ⟨hnew, t.keys_sorted.imp ne_of_lt⟩
  refine (List.perm_ext_iff_of_nodup ((keys_sorted _).imp ne_of_lt) hnodup).mpr fun j => ?_
  rw [mem_keys, List.mem_cons, mem_keys]
  by_cases hj : j = k
  · simp [hj]
  · simp [hj]

lemma later_set {k : κ} (a : α) (hfree : t.get k = none) (j : κ) :
    (t.set k a).later j = t.later j + if j < k then 1 else 0 := by
  unfold later
  rw [((keys_set_perm a hfree).filter _).length_eq, List.filter_cons]
  by_cases hj : j < k <;> simp [hj]

lemma later_le_of_filter (t : Table κ α) (p : κ → α → Bool) (k : κ) :
    (t.filter p).later k ≤ t.later k := by
  refine List.Subperm.length_le (List.subperm_of_subset ?_ fun j hj => ?_)
  · exact ((keys_sorted _).imp ne_of_lt).filter _
  · obtain ⟨hj, hlt⟩ := List.mem_filter.mp hj
    rw [mem_keys, get_filter] at hj
    refine List.mem_filter.mpr ⟨mem_keys.mpr ?_, hlt⟩
    cases h : t.get j with
    | none => rw [h] at hj; cases hj
    | some a => rfl

end LinearOrder

end Table
end Aeroric
