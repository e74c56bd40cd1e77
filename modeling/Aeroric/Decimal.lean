import Mathlib.Data.List.Basic
import Mathlib.Data.Nat.Digits.Lemmas

/-! Decimal numbers at the end of a name, and how they are read back. -/
namespace Aeroric

/-- The text before and after the last occurrence of a pattern. -/
def rsplitOnce (pattern : List Char) : List Char → Option (List Char × List Char)
  | [] => if pattern = [] then some ([], []) else none
  | x :: text =>
    match rsplitOnce pattern text with
    | some (front, rest) => some (x :: front, rest)
    | none =>
      if pattern.isPrefixOf (x :: text) then some ([], (x :: text).drop pattern.length) else none

lemma rsplitOnce_none {c : Char} {text : List Char} (h : c ∉ text) : rsplitOnce [c] text = none := by
  induction text with
  | nil => rfl
  | cons x text ih =>
    rw [List.mem_cons, not_or] at h
    rw [rsplitOnce, ih h.2]
    simp [h.1]

lemma rsplitOnce_append {c : Char} (front : List Char) {rest : List Char} (h : c ∉ rest) :
    rsplitOnce [c] (front ++ c :: rest) = some (front, rest) := by
  induction front with
  | nil =>
    rw [List.nil_append, rsplitOnce, rsplitOnce_none h]
    simp
  | cons x front ih => rw [List.cons_append, rsplitOnce, ih]

lemma toDigits_injective : Function.Injective (Nat.toDigits 10) := by
  intro m n h
  rw [← Nat.ofDigitChars_ten_toDigits (n := m), h, Nat.ofDigitChars_ten_toDigits]

lemma isDigit_of_mem_toDigits {n : ℕ} {c : Char} (h : c ∈ Nat.toDigits 10 n) : c.isDigit = true :=
  Nat.isDigit_of_mem_toDigits (by decide) (by decide) h

lemma notMem_toDigits {c : Char} (h : c.isDigit = false) (n : ℕ) : c ∉ Nat.toDigits 10 n :=
  fun hmem => Bool.false_ne_true (h.symm.trans (isDigit_of_mem_toDigits hmem))

/-- An unsigned number of some bits; a plus sign may stand before it. -/
def parseUnsigned (bits : ℕ) (text : List Char) : Option ℕ :=
  let digits := if text.head? = some '+' then text.tail else text
  if digits ≠ [] ∧ digits.all Char.isDigit then
    (some (Nat.ofDigitChars 10 digits 0)).filter (· < 2 ^ bits)
  else none

lemma parseUnsigned_toDigits (bits n : ℕ) :
    parseUnsigned bits (Nat.toDigits 10 n) = if n < 2 ^ bits then some n else none := by
  have hplus : (Nat.toDigits 10 n).head? ≠ some '+' := fun h =>
    notMem_toDigits (by decide) n (List.mem_of_mem_head? h)
  have hdigits : (Nat.toDigits 10 n).all Char.isDigit = true :=
    List.all_eq_true.mpr fun _ => isDigit_of_mem_toDigits
  unfold parseUnsigned
  rw [if_neg hplus, if_pos ⟨Nat.toDigits_ne_nil, hdigits⟩, Nat.ofDigitChars_ten_toDigits]
  rw [Option.filter_some]
  simp

end Aeroric
