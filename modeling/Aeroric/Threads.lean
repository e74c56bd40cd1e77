import Mathlib

/-! Threads that take turns. Each has a list of instructions left to do; an instruction changes the
shared state, puts further instructions before the rest of its thread and may start other
threads. -/
namespace Aeroric

/-- What one instruction does. -/
structure Effect (σ ι : Type) where
  state : σ
  next : List ι
  spawned : List (List ι)

structure Threads (σ ι : Type) where
  state : σ
  todo : List (List ι)

namespace Threads
variable {σ ι α : Type}

/-- An instruction some thread has still to do. -/
def Pending (T : Threads σ ι) (i : ι) : Prop := ∃ t ∈ T.todo, i ∈ t

def begin (T : Threads σ ι) (t : List ι) : Threads σ ι := { T with todo := T.todo ++ [t] }

/-- Some thread takes its next instruction, which is `i`, and the outside answers `a` to it. -/
def Takes (exec : α → σ → ι → Effect σ ι) (a : α) (i : ι) (T T' : Threads σ ι) : Prop :=
  ∃ before rest after, T.todo = before ++ (i :: rest) :: after ∧
    T' = ⟨(exec a T.state i).state,
      before ++ ((exec a T.state i).next ++ rest) :: after ++ (exec a T.state i).spawned⟩

/-- The thread at a place takes its next instruction; without one nothing happens. -/
def turn (exec : α → σ → ι → Effect σ ι) (T : Threads σ ι) (n : ℕ) (a : α) : Threads σ ι :=
  match T.todo[n]? with
  | some (i :: rest) =>
    ⟨(exec a T.state i).state,
      T.todo.set n ((exec a T.state i).next ++ rest) ++ (exec a T.state i).spawned⟩
  | _ => T

/-- The sum of a weight over all instructions left. -/
def weigh (T : Threads σ ι) (w : ι → ℕ) : ℕ := (T.todo.map fun t => (t.map w).sum).sum

section
variable {exec : α → σ → ι → Effect σ ι} {a : α} {i j : ι} {T T' : Threads σ ι}

def head (T : Threads σ ι) (n : ℕ) : Option ι := T.todo[n]?.bind List.head?

lemma turn_takes {n : ℕ} (h : T.head n = some i) : Takes exec a i T (T.turn exec n a) := by
  unfold head at h
  obtain ⟨t, ht, hi⟩ := Option.bind_eq_some_iff.mp h
  obtain ⟨rest, rfl⟩ : ∃ rest, t = i :: rest := by
    cases t with
    | nil => cases hi
    | cons k rest => exact ⟨rest, by rw [Option.some.inj hi]⟩
  obtain ⟨hn, hget⟩ := List.getElem?_eq_some_iff.mp ht
  refine ⟨T.todo.take n, rest, T.todo.drop (n + 1), ?_, ?_⟩
  · rw [← hget, List.cons_getElem_drop_succ, List.take_append_drop]
  · unfold turn
    rw [ht]
    simp only [List.set_eq_take_append_cons_drop, if_pos hn]

lemma pending_of_head {n : ℕ} (h : T.head n = some i) : T.Pending i := by
  obtain ⟨t, ht, hi⟩ := Option.bind_eq_some_iff.mp h
  exact ⟨t, List.mem_of_getElem? ht, List.mem_of_head? hi⟩

lemma Takes.state (h : Takes exec a i T T') : T'.state = (exec a T.state i).state := by
  obtain ⟨before, rest, after, -, rfl⟩ := h
  rfl

lemma Takes.pending_self (h : Takes exec a i T T') : T.Pending i := by
  obtain ⟨before, rest, after, hT, -⟩ := h
  exact ⟨i :: rest, by simp [hT], List.mem_cons_self⟩

/-- What is left afterwards was left before, or the instruction has added it. -/
lemma Takes.pending (h : Takes exec a i T T') (hj : T'.Pending j) :
    T.Pending j ∨ j ∈ (exec a T.state i).next ∨ ∃ t ∈ (exec a T.state i).spawned, j ∈ t := by
  obtain ⟨before, rest, after, hT, rfl⟩ := h
  obtain ⟨t, ht, hjt⟩ := hj
  simp only [List.mem_append, List.mem_cons] at ht
  have old : ∀ t', t' ∈ before ∨ t' = i :: rest ∨ t' ∈ after → j ∈ t' → T.Pending j := by
    intro t' ht' hj'
    exact ⟨t', by simpa [hT] using ht', hj'⟩
  rcases ht with (ht | rfl | ht) | ht
  · exact .inl (old t (.inl ht) hjt)
  · rcases List.mem_append.mp hjt with hjt | hjt
    · exact .inr (.inl hjt)
    · exact .inl (old _ (.inr (.inl rfl)) (List.mem_cons_of_mem _ hjt))
  · exact .inl (old t (.inr (.inr ht)) hjt)
  · exact .inr (.inr ⟨t, ht, hjt⟩)

/-- What holds of each thread: of the rest of one that goes on and of those that are started. -/
lemma Takes.each (h : Takes exec a i T T') {P : List ι → Prop} (hall : ∀ t ∈ T.todo, P t)
    (hnext : ∀ rest, P (i :: rest) → P ((exec a T.state i).next ++ rest))
    (hspawned : ∀ t ∈ (exec a T.state i).spawned, P t) : ∀ t ∈ T'.todo, P t := by
  obtain ⟨before, rest, after, hT, rfl⟩ := h
  rw [hT] at hall
  intro t ht
  simp only [List.mem_append, List.mem_cons] at ht
  rcases ht with (ht | rfl | ht) | ht
  · exact hall t (List.mem_append_left _ ht)
  · exact hnext rest (hall _ (List.mem_append_right _ List.mem_cons_self))
  · exact hall t (List.mem_append_right _ (List.mem_cons_of_mem _ ht))
  · exact hspawned t ht

/-- The thread that goes on has the rest still to do. -/
lemma Takes.rest (h : Takes exec a i T T') :
    ∃ rest, (i :: rest) ∈ T.todo ∧ ∀ j ∈ rest, T'.Pending j := by
  obtain ⟨before, rest, after, hT, rfl⟩ := h
  refine ⟨rest, by simp [hT], fun j hj => ?_⟩
  exact ⟨(exec a T.state i).next ++ rest, by simp, List.mem_append_right _ hj⟩

/-- Other instructions are still left. -/
lemma Takes.keeps (h : Takes exec a i T T') (hj : T.Pending j) (hne : j ≠ i) : T'.Pending j := by
  obtain ⟨before, rest, after, hT, rfl⟩ := h
  obtain ⟨t, ht, hjt⟩ := hj
  rw [hT, List.mem_append, List.mem_cons] at ht
  rcases ht with ht | rfl | ht
  · exact ⟨t, by simp [ht], hjt⟩
  · refine ⟨(exec a T.state i).next ++ rest, by simp, List.mem_append_right _ ?_⟩
    exact (List.mem_cons.mp hjt).resolve_left hne
  · exact ⟨t, by simp [ht], hjt⟩

lemma Takes.pending_next (h : Takes exec a i T T') (hj : j ∈ (exec a T.state i).next) :
    T'.Pending j := by
  obtain ⟨before, rest, after, -, rfl⟩ := h
  exact ⟨(exec a T.state i).next ++ rest, by simp, List.mem_append_left _ hj⟩

/-- The instruction is taken from the sum, and what it adds is added. -/
lemma Takes.weigh (h : Takes exec a i T T') (w : ι → ℕ) :
    T'.weigh w + w i = T.weigh w + ((exec a T.state i).next.map w).sum +
      ((exec a T.state i).spawned.map fun t => (t.map w).sum).sum := by
  obtain ⟨before, rest, after, hT, rfl⟩ := h
  unfold Threads.weigh
  rw [hT]
  simp only [List.map_append, List.map_cons, List.sum_append, List.sum_cons]
  omega

/-- An instruction that adds nothing of a weight. -/
lemma Takes.weigh_of_none (h : Takes exec a i T T') {w : ι → ℕ}
    (hw : ∀ j, (j ∈ (exec a T.state i).next ∨ ∃ t ∈ (exec a T.state i).spawned, j ∈ t) → w j = 0) :
    T'.weigh w + w i = T.weigh w := by
  have hnext : ((exec a T.state i).next.map w).sum = 0 := by
    refine List.sum_eq_zero fun n hn => ?_
    obtain ⟨j, hj, rfl⟩ := List.mem_map.mp hn
    exact hw j (.inl hj)
  have hspawned : ((exec a T.state i).spawned.map fun t => (t.map w).sum).sum = 0 := by
    refine List.sum_eq_zero fun n hn => ?_
    obtain ⟨t, ht, rfl⟩ := List.mem_map.mp hn
    refine List.sum_eq_zero fun m hm => ?_
    obtain ⟨j, hj, rfl⟩ := List.mem_map.mp hm
    exact hw j (.inr ⟨t, ht, hj⟩)
  rw [h.weigh w, hnext, hspawned, add_zero, add_zero]

/-- Every thread is done. -/
lemma not_pending_of_done (h : T.todo.all List.isEmpty = true) : ¬ T.Pending j := by
  rintro ⟨t, ht, hj⟩
  rw [List.isEmpty_iff.mp (List.all_eq_true.mp h t ht)] at hj
  cases hj

@[simp] lemma pending_begin {t : List ι} : (T.begin t).Pending j ↔ T.Pending j ∨ j ∈ t := by
  unfold begin Pending
  constructor
  · rintro ⟨t', ht', hj⟩
    rcases List.mem_append.mp ht' with ht' | ht'
    · exact .inl ⟨t', ht', hj⟩
    · exact .inr (List.mem_singleton.mp ht' ▸ hj)
  · rintro (⟨t', ht', hj⟩ | hj)
    · exact ⟨t', List.mem_append_left _ ht', hj⟩
    · exact ⟨t, by simp, hj⟩

@[simp] lemma weigh_begin {t : List ι} (w : ι → ℕ) :
    (T.begin t).weigh w = T.weigh w + (t.map w).sum := by
  simp [begin, weigh]

/-- A weight that is not left out of the sum. -/
lemma le_weigh (hj : T.Pending j) (w : ι → ℕ) : w j ≤ T.weigh w := by
  obtain ⟨t, ht, hjt⟩ := hj
  have h1 : w j ≤ (t.map w).sum := List.single_le_sum (by simp) _ (List.mem_map_of_mem hjt)
  have h2 : (t.map w).sum ≤ T.weigh w := List.single_le_sum (by simp) _
    (List.mem_map_of_mem (f := fun t => (t.map w).sum) ht)
  exact h1.trans h2

lemma weigh_eq_zero {w : ι → ℕ} (h : ∀ j, T.Pending j → w j = 0) : T.weigh w = 0 := by
  refine List.sum_eq_zero fun n hn => ?_
  obtain ⟨t, ht, rfl⟩ := List.mem_map.mp hn
  refine List.sum_eq_zero fun m hm => ?_
  obtain ⟨j, hj, rfl⟩ := List.mem_map.mp hm
  exact h j ⟨t, ht, hj⟩

lemma weigh_mono {v w : ι → ℕ} (h : ∀ j, v j ≤ w j) : T.weigh v ≤ T.weigh w :=
  List.sum_le_sum fun _ _ => List.sum_le_sum fun j _ => h j

end
end Threads
end Aeroric
