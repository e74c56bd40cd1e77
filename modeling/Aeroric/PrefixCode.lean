import Mathlib.Data.List.Infix

/-! Codes whose words say where they end. What follows such a word is found again, so a text made
of several words is read in one way only. -/
namespace Aeroric
variable {α β : Type} {P : α → Prop} {enc : α → List β}

/-- Two texts that begin with words of the code and are equal begin with one word. The words are
those of the values with `P`. -/
def PrefixCode (P : α → Prop) (enc : α → List β) : Prop :=
  ∀ a b, P a → P b → ∀ x y, enc a ++ x = enc b ++ y → a = b ∧ x = y

namespace PrefixCode

lemma of_length (n : ℕ) (hlength : ∀ a, (enc a).length = n)
    (hinj : ∀ a b, P a → P b → enc a = enc b → a = b) : PrefixCode P enc := by
  intro a b ha hb x y h
  obtain ⟨henc, hrest⟩ := List.append_inj h ((hlength a).trans (hlength b).symm)
  exact ⟨hinj a b ha hb henc, hrest⟩

/-- A word that its length comes before. -/
lemma sized {Q : ℕ → Prop} {length : ℕ → List β} (hlength : PrefixCode Q length)
    (hQ : ∀ a, P a → Q (enc a).length) (hinj : Function.Injective enc) :
    PrefixCode P fun a => length (enc a).length ++ enc a := by
  intro a b ha hb x y h
  rw [List.append_assoc, List.append_assoc] at h
  obtain ⟨hsize, hrest⟩ := hlength _ _ (hQ a ha) (hQ b hb) _ _ h
  obtain ⟨henc, hxy⟩ := List.append_inj hrest hsize
  exact ⟨hinj henc, hxy⟩

/-- A mark says whether a word follows. -/
lemma optional {without with_ : β} (hne : without ≠ with_) (h : PrefixCode P enc) :
    PrefixCode (fun o : Option α => ∀ a ∈ o, P a) fun o =>
      match o with
      | none => [without]
      | some a => with_ :: enc a := by
  intro o p ho hp x y hxy
  match o, p with
  | none, none => exact ⟨rfl, (List.cons.inj hxy).2⟩
  | none, some b => exact absurd (List.cons.inj hxy).1 hne
  | some a, none => exact absurd (List.cons.inj hxy).1.symm hne
  | some a, some b =>
    obtain ⟨rfl, hrest⟩ := h a b (ho a rfl) (hp b rfl) x y (List.cons.inj hxy).2
    exact ⟨rfl, hrest⟩

/-- A word that a mark ends. The mark may stand in the word, a number of times known before. -/
lemma ended [DecidableEq β] (mark : β) (n : ℕ) :
    PrefixCode (fun word : List β => word.count mark = n) (· ++ [mark]) := by
  intro a b ha hb x y h
  simp only [List.append_assoc, List.singleton_append] at h
  induction a generalizing b n with
  | nil =>
    cases b with
    | nil => exact ⟨rfl, (List.cons.inj h).2⟩
    | cons c b =>
      obtain ⟨rfl, -⟩ := List.cons.inj h
      rw [← ha, List.count_cons_self] at hb
      cases hb
  | cons c a ih =>
    cases b with
    | nil =>
      obtain ⟨rfl, -⟩ := List.cons.inj h
      rw [← hb, List.count_cons_self] at ha
      cases ha
    | cons d b =>
      obtain ⟨rfl, hrest⟩ := List.cons.inj h
      rw [← ha, List.count_cons, List.count_cons] at hb
      obtain ⟨rfl, hxy⟩ := ih _ b rfl (Nat.add_right_cancel hb) hrest
      exact ⟨rfl, hxy⟩

/-- As many words on the one side as on the other. -/
lemma words (h : PrefixCode P enc) {as bs : List α} (hlength : as.length = bs.length)
    (ha : ∀ a ∈ as, P a) (hb : ∀ b ∈ bs, P b) {x y : List β}
    (hxy : (as.map enc).flatten ++ x = (bs.map enc).flatten ++ y) : as = bs ∧ x = y := by
  induction as generalizing bs with
  | nil =>
    obtain rfl := List.length_eq_zero_iff.mp hlength.symm
    exact ⟨rfl, hxy⟩
  | cons a as ih =>
    match bs with
    | b :: bs =>
      rw [List.map_cons, List.map_cons, List.flatten_cons, List.flatten_cons, List.append_assoc,
        List.append_assoc] at hxy
      obtain ⟨rfl, hrest⟩ := h a b (ha a (.head _)) (hb b (.head _)) _ _ hxy
      obtain ⟨rfl, hends⟩ := ih (Nat.succ.inj hlength) (fun c hc => ha c (.tail _ hc))
        (fun c hc => hb c (.tail _ hc)) hrest
      exact ⟨rfl, hends⟩

/-- A list of words that their number comes before. -/
lemma counted {Q : ℕ → Prop} {length : ℕ → List β} (hlength : PrefixCode Q length)
    (h : PrefixCode P enc) :
    PrefixCode (fun as : List α => Q as.length ∧ ∀ a ∈ as, P a) fun as =>
      length as.length ++ (as.map enc).flatten := by
  intro as bs has hbs x y hxy
  rw [List.append_assoc, List.append_assoc] at hxy
  obtain ⟨hcount, hrest⟩ := hlength _ _ has.1 hbs.1 _ _ hxy
  exact h.words hcount has.2 hbs.2 hrest

end PrefixCode
end Aeroric
