import Aeroric.Utf8

/-! The raw bytes of a terminal as text, chunk by chunk. -/
namespace Aeroric.Terminal
open Utf8

structure Utf8Projection where
  pending : List UInt8

namespace Utf8Projection

def new : Utf8Projection := ⟨[]⟩

/-- The loop of a push: the text that is certain, and the bytes that are held back. -/
def drain : ℕ → List UInt8 → List UInt8 × List UInt8
  | 0, buf => ([], buf)
  | turns + 1, buf =>
    match fromUtf8 buf with
    | .ok text => (text, [])
    | .error error =>
      let text := buf.take error.validUpTo
      let rest := buf.drop error.validUpTo
      match error.errorLen with
      -- the beginning of a character: it waits for the next push
      | none => (text, rest)
      | some bad =>
        let later := drain turns (rest.drop (min bad rest.length))
        (text ++ replacement ++ later.1, later.2)

def push (projection : Utf8Projection) (bytes : List UInt8) : List UInt8 × Utf8Projection :=
  match projection.pending, fromUtf8 bytes with
  | [], .ok text => (text, projection)
  | _, _ =>
    let buf := projection.pending ++ bytes
    let drained := drain (buf.length + 1) buf
    (drained.1, ⟨drained.2⟩)

def finish (projection : Utf8Projection) : List UInt8 :=
  if projection.pending = [] then [] else fromUtf8Lossy projection.pending

def pushAll (projection : Utf8Projection) : List (List UInt8) → List UInt8 × Utf8Projection
  | [] => ([], projection)
  | bytes :: chunks =>
    let pushed := projection.push bytes
    let later := pushed.2.pushAll chunks
    (pushed.1 ++ later.1, later.2)

end Utf8Projection

lemma fromUtf8_cases (buf : List UInt8) : ∃ text rest, buf = text ++ rest ∧
    (∀ out left, Settles rest out left → Settles buf (text ++ out) left) ∧
    ((rest = [] ∧ fromUtf8 buf = .ok text) ∨
      (start rest = .unfinished ∧ fromUtf8 buf = .error ⟨text.length, none⟩) ∨
      ∃ bad, start rest = .invalid bad ∧ fromUtf8 buf = .error ⟨text.length, some bad⟩) := by
  obtain ⟨hsplit, hnone, hsettles⟩ := characters_spec (le_refl buf.length)
  refine ⟨_, _, hsplit.symm, hsettles, ?_⟩
  unfold fromUtf8
  dsimp only
  cases hstart : start (characters buf.length buf).2 with
  | nothing => exact .inl ⟨start_nothing hstart, rfl⟩
  | character n => exact absurd hstart (hnone n)
  | invalid bad => exact .inr (.inr ⟨bad, rfl, rfl⟩)
  | unfinished => exact .inr (.inl ⟨rfl, rfl⟩)

lemma settles_nil : Settles [] [] [] := .rest (.inl rfl)

lemma drain_settles {turns : ℕ} {buf : List UInt8} (h : buf.length < turns) :
    Settles buf (Utf8Projection.drain turns buf).1 (Utf8Projection.drain turns buf).2 := by
  induction turns generalizing buf with
  | zero => omega
  | succ turns ih =>
    obtain ⟨text, rest, rfl, hsettles, hcases⟩ := fromUtf8_cases buf
    unfold Utf8Projection.drain
    rcases hcases with ⟨rfl, hok⟩ | ⟨hstart, herror⟩ | ⟨bad, hstart, herror⟩
    · rw [hok]
      simpa using hsettles [] [] settles_nil
    · rw [herror]
      simpa using hsettles [] rest (.rest (.inr hstart))
    · obtain ⟨hpos, hle, -⟩ := start_invalid [] hstart
      have hlater := @ih (rest.drop bad) (by
        rw [List.length_append] at h
        rw [List.length_drop]
        omega)
      have hall := hsettles _ _ (.invalid hstart hlater)
      rw [herror]
      simpa [Nat.min_eq_left hle] using hall

/-- One push: what it gives and what it holds back are what the bytes so far settle to. -/
lemma push_settles (projection : Utf8Projection) (bytes : List UInt8) :
    Settles (projection.pending ++ bytes) (projection.push bytes).1
      (projection.push bytes).2.pending := by
  have hdrain := drain_settles (Nat.lt_succ_self (projection.pending ++ bytes).length)
  obtain ⟨pending⟩ := projection
  unfold Utf8Projection.push
  split
  · next text hpending hok =>
    obtain ⟨text', rest, hsplit, hsettles, hcases⟩ := fromUtf8_cases bytes
    obtain rfl : pending = [] := hpending
    rcases hcases with ⟨rfl, hok'⟩ | ⟨-, herror⟩ | ⟨bad, -, herror⟩
    · obtain rfl : text' = text := by simpa [hok] using hok'.symm
      simpa using hsettles [] [] settles_nil
    · simp [hok] at herror
    · simp [hok] at herror
  · exact hdrain

lemma pushAll_lossy (projection : Utf8Projection) (chunks : List (List UInt8)) (more : List UInt8) :
    fromUtf8Lossy (projection.pending ++ (chunks.flatten ++ more)) =
      (projection.pushAll chunks).1 ++
        fromUtf8Lossy ((projection.pushAll chunks).2.pending ++ more) := by
  induction chunks generalizing projection with
  | nil => rfl
  | cons bytes chunks ih =>
    have hpush := (push_settles projection bytes).append (chunks.flatten ++ more)
    rw [List.append_assoc] at hpush
    rw [List.flatten_cons, List.append_assoc, hpush, ih]
    simp [Utf8Projection.pushAll]

lemma pushAll_pending (projection : Utf8Projection) (hpending : projection.pending.length ≤ 3)
    (chunks : List (List UInt8)) : (projection.pushAll chunks).2.pending.length ≤ 3 := by
  induction chunks generalizing projection with
  | nil => exact hpending
  | cons bytes chunks ih => exact ih _ (push_settles projection bytes).length_le

/-- However the bytes are cut, the texts of the pushes and of the end are the text of the whole, and
never more than three bytes are held back. -/
theorem project_eq_lossy (chunks : List (List UInt8)) :
    (Utf8Projection.new.pushAll chunks).1 ++ (Utf8Projection.new.pushAll chunks).2.finish =
        fromUtf8Lossy chunks.flatten ∧
      ∀ pushed, pushed <+: chunks → (Utf8Projection.new.pushAll pushed).2.pending.length ≤ 3 := by
  constructor
  · have hall := pushAll_lossy .new chunks []
    rw [List.append_nil, List.append_nil] at hall
    have hfinish : (Utf8Projection.new.pushAll chunks).2.finish =
        fromUtf8Lossy (Utf8Projection.new.pushAll chunks).2.pending := by
      unfold Utf8Projection.finish
      split
      · next hnone => rw [hnone]; rfl
      · rfl
    rw [hfinish]
    exact hall.symm
  · intro pushed _
    exact pushAll_pending .new (by simp [Utf8Projection.new]) pushed

end Aeroric.Terminal
