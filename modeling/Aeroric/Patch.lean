import Mathlib.Data.List.Chain
import Mathlib.Data.List.Infix

/-! A value that was changed several times, each change kept as what it found and what it left; and
ways to take the changes back that look only at the value as it is, and at no more of it than a key. -/
namespace Aeroric.Patch
variable {α κ : Type} [DecidableEq κ] (key : α → κ)

/-- Take one change back, if the value still looks like what it left. -/
def back (c : α × α) (x : α) : α := if key x = key c.2 then c.1 else x

/-- Take the changes back one at a time, the newest first. They are in order of time. -/
def backEach (cs : List (α × α)) (x : α) : α := cs.foldr (back key) x

/-- Take them back at once: from what the last one left to what the first one found. -/
def backTo (cs : List (α × α)) (x : α) : α :=
  match cs.head?, cs.getLast? with
  | some first, some last => if key x = key last.2 then first.1 else x
  | _, _ => x

/-- The other way: from what the first one found to what the last one left. -/
def forthTo (cs : List (α × α)) (x : α) : α :=
  match cs.head?, cs.getLast? with
  | some first, some last => if key x = key first.1 then last.2 else x
  | _, _ => x

@[simp] lemma backTo_nil (x : α) : backTo key [] x = x := rfl

@[simp] lemma forthTo_nil (x : α) : forthTo key [] x = x := rfl

@[simp] lemma backEach_nil (x : α) : backEach key [] x = x := rfl

lemma backEach_cons (c : α × α) (cs : List (α × α)) (x : α) :
    backEach key (c :: cs) x = back key c (backEach key cs x) := rfl

lemma backTo_cons (c : α × α) (cs : List (α × α)) (x : α) : backTo key (c :: cs) x =
    if key x = key ((c :: cs).getLast (List.cons_ne_nil _ _)).2 then c.1 else x := by
  unfold backTo
  rw [List.head?_cons, List.getLast?_eq_getLast_of_ne_nil (List.cons_ne_nil _ _)]

lemma forthTo_cons (c : α × α) (cs : List (α × α)) (x : α) : forthTo key (c :: cs) x =
    if key x = key c.1 then ((c :: cs).getLast (List.cons_ne_nil _ _)).2 else x := by
  unfold forthTo
  rw [List.head?_cons, List.getLast?_eq_getLast_of_ne_nil (List.cons_ne_nil _ _)]

/-- Forth after back gives a value of the same key back, unless back left it alone and it looks like
what the first change found. -/
theorem forthTo_backTo_iff (cs : List (α × α)) (x : α) :
    key (forthTo key cs (backTo key cs x)) = key x ↔
      ∀ first ∈ cs.head?, ∀ last ∈ cs.getLast?, key x = key last.2 ∨ key x ≠ key first.1 := by
  cases cs with
  | nil => simp
  | cons c cs =>
    rw [backTo_cons, forthTo_cons, List.head?_cons,
      List.getLast?_eq_getLast_of_ne_nil (List.cons_ne_nil _ _)]
    simp only [Option.mem_def, Option.some.injEq, forall_eq']
    generalize ((c :: cs).getLast (List.cons_ne_nil _ _)).2 = left
    by_cases hleft : key x = key left
    · simp [hleft]
    · by_cases hfound : key x = key c.1
      · rw [if_neg hleft, if_pos hfound]
        refine ⟨fun h => absurd h.symm hleft, fun h => ?_⟩
        rcases h with h | h
        · exact h.symm
        · exact absurd hfound h
      · simp [hleft, hfound]

/-- Nothing came between the changes: the value looks like what the last one left, and each found what
looks like what the one before it left, or the very value that one had found; or the value looks like
what none of them left, or is what that one had found. -/
def Unbroken (cs : List (α × α)) (x : α) : Prop :=
  (∀ last ∈ cs.getLast?, key x = key last.2 →
      cs.IsChain fun c d => key d.1 = key c.2 ∨ d.1 = c.1) ∧
    ∀ last ∈ cs.getLast?, key x ≠ key last.2 → ∀ c ∈ cs, key x ≠ key c.2 ∨ x = c.1

lemma unbroken_cons {c d : α × α} {cs : List (α × α)} {x : α} :
    Unbroken key (c :: d :: cs) x ↔ Unbroken key (d :: cs) x ∧
      if key x = key ((d :: cs).getLast (List.cons_ne_nil _ _)).2 then key d.1 = key c.2 ∨ d.1 = c.1
      else key x ≠ key c.2 ∨ x = c.1 := by
  unfold Unbroken
  rw [List.getLast?_cons_cons, List.getLast?_eq_getLast_of_ne_nil (List.cons_ne_nil _ _)]
  generalize (d :: cs).getLast (List.cons_ne_nil _ _) = last
  simp only [Option.mem_def, Option.some.injEq, forall_eq', List.isChain_cons_cons]
  by_cases hx : key x = key last.2
  · simp only [hx, true_implies, ne_eq, not_true_eq_false, false_implies, and_true, if_true]
    exact and_comm
  · simp only [hx, false_implies, ne_eq, not_false_eq_true, true_implies, true_and, if_false,
      List.forall_mem_cons (a := c)]
    exact and_comm

/-- Then, and only then, taking back at once is taking back one at a time, whichever change one
goes back to. -/
theorem unbroken_iff {cs : List (α × α)} {x : α} :
    Unbroken key cs x ↔ ∀ s, s <:+ cs → backTo key s x = backEach key s x := by
  induction cs with
  | nil => simp [Unbroken]
  | cons c cs ih =>
    cases cs with
    | nil =>
      have hone : backTo key [c] x = backEach key [c] x := by rw [backTo_cons, backEach_cons]; rfl
      simp only [Unbroken, List.getLast?_singleton, Option.mem_def, Option.some.injEq, forall_eq',
        List.isChain_singleton, implies_true, true_and, List.mem_singleton, forall_eq]
      refine iff_of_true (fun hx => .inl hx) fun s hs => ?_
      rcases List.suffix_cons_iff.mp hs with rfl | hs
      · exact hone
      · rw [List.suffix_nil.mp hs]
        rfl
    | cons d cs =>
      rw [unbroken_cons, ih]
      have hsplit : (∀ s, s <:+ c :: d :: cs → backTo key s x = backEach key s x) ↔
          (∀ s, s <:+ d :: cs → backTo key s x = backEach key s x) ∧
            backTo key (c :: d :: cs) x = backEach key (c :: d :: cs) x := by
        simp only [List.suffix_cons_iff (a := c), or_imp, forall_and, forall_eq]
        exact and_comm
      rw [hsplit]
      refine and_congr_right fun hlater => ?_
      have hnext : backTo key (d :: cs) x = backEach key (d :: cs) x := hlater _ List.suffix_rfl
      rw [backEach_cons, ← hnext, backTo_cons, backTo_cons,
        List.getLast_cons (List.cons_ne_nil d cs)]
      unfold back
      split
      · by_cases hd : key d.1 = key c.2 <;> simp [hd, eq_comm]
      · by_cases hx : key x = key c.2 <;> simp [hx]

end Aeroric.Patch
