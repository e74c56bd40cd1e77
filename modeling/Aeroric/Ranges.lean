import Mathlib.Algebra.BigOperators.Group.List.Basic
import Mathlib.Algebra.GroupWithZero.Nat
import Mathlib.Data.List.Infix

/-! Texts cut at a number of bytes. -/
namespace Aeroric.Ranges

def byteLen (text : List Char) : ℕ := (text.map Char.utf8Size).sum

/-- A text cut after a number of bytes, if that is between two characters. -/
def cutAt : List Char → ℕ → Option (List Char × List Char)
  | text, 0 => some ([], text)
  | [], _ + 1 => none
  | c :: text, n + 1 =>
    if c.utf8Size ≤ n + 1 then
      (cutAt text (n + 1 - c.utf8Size)).map fun cut => (c :: cut.1, cut.2)
    else none

def isCharBoundary (text : List Char) (n : ℕ) : Bool := (cutAt text n).isSome

@[simp] lemma byteLen_nil : byteLen [] = 0 := rfl

@[simp] lemma byteLen_cons (c : Char) (text : List Char) :
    byteLen (c :: text) = c.utf8Size + byteLen text := by simp [byteLen]

@[simp] lemma byteLen_append (front back : List Char) :
    byteLen (front ++ back) = byteLen front + byteLen back := by simp [byteLen]

lemma cutAt_byteLen (front back : List Char) : cutAt (front ++ back) (byteLen front) = some (front, back) := by
  induction front with
  | nil => cases back <;> rfl
  | cons c front ih =>
    obtain ⟨n, hn⟩ : ∃ n, byteLen (c :: front) = n + 1 := by
      have := c.utf8Size_pos
      rw [byteLen_cons]
      exact ⟨c.utf8Size + byteLen front - 1, by omega⟩
    rw [hn, List.cons_append, cutAt, if_pos (by rw [← hn, byteLen_cons]; omega), ← hn, byteLen_cons,
      Nat.add_sub_cancel_left, ih]
    rfl

end Aeroric.Ranges
