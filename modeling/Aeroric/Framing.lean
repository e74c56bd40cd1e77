import Mathlib.Data.List.Basic

/-! A stream cut into frames at delimiters, as it comes in pieces. -/
namespace Aeroric.Framing
variable {α σ : Type}

/-- A search for the first delimiter: where it starts, and how long it is. -/
abbrev Finder (α : Type) := List α → Option (ℕ × ℕ)

/-- What is found is there, and is found again when more comes. -/
structure Finder.Lawful (find : Finder α) : Prop where
  inside : ∀ {xs i n}, find xs = some (i, n) → 0 < n ∧ i + n ≤ xs.length
  stable : ∀ {xs r}, find xs = some r → ∀ ys, find (xs ++ ys) = some r

/-- A frame is followed by its delimiter. -/
structure Frame (α : Type) where
  body : List α
  delimiter : List α

section Cut
variable (find : Finder α)

def cutTurns : ℕ → List α → List (Frame α) × List α
  | 0, xs => ([], xs)
  | turns + 1, xs =>
    match find xs with
    | none => ([], xs)
    | some (i, n) =>
      let cut := cutTurns turns (xs.drop (i + n))
      (⟨xs.take i, (xs.drop i).take n⟩ :: cut.1, cut.2)

/-- The frames that are complete, and what is left. -/
def cut (xs : List α) : List (Frame α) × List α := cutTurns find xs.length xs

variable {find} (hfind : find.Lawful)
include hfind

lemma find_nil : find [] = none := by
  cases h : find [] with
  | none => rfl
  | some r =>
    have hr := hfind.inside h
    rw [List.length_nil] at hr
    omega

lemma cutTurns_eq {turns : ℕ} {xs : List α} (h : xs.length ≤ turns) :
    cutTurns find turns xs = cut find xs := by
  suffices ∀ {turns turns' : ℕ} {xs : List α}, xs.length ≤ turns → xs.length ≤ turns' →
      cutTurns find turns xs = cutTurns find turns' xs from this h (Nat.le_refl _)
  intro turns turns' xs h h'
  induction turns generalizing turns' xs with
  | zero =>
    obtain rfl := List.length_eq_zero_iff.mp (Nat.le_zero.mp h)
    cases turns' <;> simp [cutTurns, find_nil hfind]
  | succ turns ih =>
    cases turns' with
    | zero =>
      obtain rfl := List.length_eq_zero_iff.mp (Nat.le_zero.mp h')
      simp [cutTurns, find_nil hfind]
    | succ turns' =>
      cases hxs : find xs with
      | none => simp [cutTurns, hxs]
      | some r =>
        have hr := hfind.inside hxs
        have hrest : cutTurns find turns (xs.drop (r.1 + r.2)) =
            cutTurns find turns' (xs.drop (r.1 + r.2)) := by
          apply ih <;> rw [List.length_drop] <;> omega
        simp only [cutTurns, hxs, hrest]

omit hfind in
lemma cut_of_none {xs : List α} (h : find xs = none) : cut find xs = ([], xs) := by
  unfold cut
  cases hlength : xs.length with
  | zero => rfl
  | succ n => simp [cutTurns, h]

lemma cut_of_some {xs : List α} {i n : ℕ} (h : find xs = some (i, n)) :
    cut find xs = (⟨xs.take i, (xs.drop i).take n⟩ :: (cut find (xs.drop (i + n))).1,
      (cut find (xs.drop (i + n))).2) := by
  have hn := hfind.inside h
  obtain ⟨turns, hturns⟩ : ∃ turns, xs.length = turns + 1 := ⟨xs.length - 1, by omega⟩
  have hrest : cutTurns find turns (xs.drop (i + n)) = cut find (xs.drop (i + n)) :=
    cutTurns_eq hfind (by rw [List.length_drop]; omega)
  unfold cut at hrest ⊢
  rw [hturns]
  simp only [cutTurns, h, hrest]

/-- What comes later completes no earlier frame and changes none. -/
lemma cut_append (xs ys : List α) :
    cut find (xs ++ ys) = ((cut find xs).1 ++ (cut find ((cut find xs).2 ++ ys)).1,
      (cut find ((cut find xs).2 ++ ys)).2) := by
  induction hlength : xs.length using Nat.strongRecOn generalizing xs with
  | ind length ih =>
    cases hxs : find xs with
    | none => simp [cut_of_none hxs]
    | some r =>
      obtain ⟨i, n⟩ := r
      have hn := hfind.inside hxs
      have hdrop : (xs ++ ys).drop (i + n) = xs.drop (i + n) ++ ys :=
        List.drop_append_of_le_length hn.2
      have hbody : (xs ++ ys).take i = xs.take i :=
        List.take_append_of_le_length (by omega)
      have hdelimiter : ((xs ++ ys).drop i).take n = (xs.drop i).take n := by
        rw [List.drop_append_of_le_length (by omega), List.take_append_of_le_length]
        rw [List.length_drop]
        omega
      rw [cut_of_some hfind hxs, cut_of_some hfind (hfind.stable hxs ys), hdrop, hbody, hdelimiter,
        ih _ (by rw [List.length_drop]; omega) (xs.drop (i + n)) rfl]
      rfl

end Cut

/-- A consumer of frames, and the bytes that it has yet to see the end of. -/
structure Buffered (σ α : Type) where
  buffer : List α
  state : σ

variable (find : Finder α) (handle : σ → Frame α → σ)

def Buffered.push (consumer : Buffered σ α) (chunk : List α) : Buffered σ α :=
  let frames := cut find (consumer.buffer ++ chunk)
  ⟨frames.2, frames.1.foldl handle consumer.state⟩

/-- How the stream comes in pieces does not matter. -/
lemma foldl_push {find : Finder α} (hfind : find.Lawful) (chunks : List (List α)) (state : σ) :
    chunks.foldl (Buffered.push find handle) ⟨[], state⟩ =
      ⟨(cut find chunks.flatten).2, (cut find chunks.flatten).1.foldl handle state⟩ := by
  suffices ∀ (before : List α),
      chunks.foldl (Buffered.push find handle)
        ⟨(cut find before).2, (cut find before).1.foldl handle state⟩ =
      ⟨(cut find (before ++ chunks.flatten)).2,
        (cut find (before ++ chunks.flatten)).1.foldl handle state⟩ by
    have hnil : cut find ([] : List α) = ([], []) := rfl
    have h := this []
    rwa [hnil] at h
  induction chunks with
  | nil => simp
  | cons chunk chunks ih =>
    intro before
    have hpush : Buffered.push find handle
        ⟨(cut find before).2, (cut find before).1.foldl handle state⟩ chunk =
        ⟨(cut find (before ++ chunk)).2, (cut find (before ++ chunk)).1.foldl handle state⟩ := by
      rw [cut_append hfind before chunk]
      simp only [Buffered.push, List.foldl_append]
    rw [List.foldl_cons, hpush, ih, List.flatten_cons, List.append_assoc]

/-- The consumer gets the stream in chunks, and at the end what is left of it. -/
def feed (state : σ) (chunks : List (List α)) : σ :=
  let fed := chunks.foldl (Buffered.push find handle) ⟨[], state⟩
  match fed.buffer with
  | [] => fed.state
  | a :: rest => handle fed.state ⟨a :: rest, []⟩

lemma feed_congr {find : Finder α} (hfind : find.Lawful) {chunks chunks' : List (List α)}
    (h : chunks.flatten = chunks'.flatten) (state : σ) :
    feed find handle state chunks = feed find handle state chunks' := by
  unfold feed
  rw [foldl_push handle hfind, foldl_push handle hfind, h]

end Aeroric.Framing
