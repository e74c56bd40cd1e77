import Aeroric.ChunkCover

/-! Keyword search in text without word boundaries. Chinese, Japanese and Korean characters are set
apart by spaces before a chunk is indexed, and so is a word that is asked for. -/
namespace Aeroric.Highlights

open ChangeReview (splitInclusive)
open Sse (isWhitespace solid solid_append)

def isCjk (ch : Char) : Bool :=
  let c := ch.toNat
  (0x4e00 ≤ c && c ≤ 0x9fff) || (0x3400 ≤ c && c ≤ 0x4dbf) || (0xf900 ≤ c && c ≤ 0xfaff) ||
  (0x3040 ≤ c && c ≤ 0x30ff) || (0xff66 ≤ c && c ≤ 0xff9f) ||
  (0xac00 ≤ c && c ≤ 0xd7af) || (0x1100 ≤ c && c ≤ 0x11ff) ||
  (0x3000 ≤ c && c ≤ 0x303f) || (0xff01 ≤ c && c ≤ 0xff65)

structure Segmented where
  out : Text
  prevCjk : Bool

def Segmented.endsBlank (s : Segmented) : Bool := s.out.getLast?.any isWhitespace

def Segmented.push (s : Segmented) (ch : Char) : Segmented :=
  let needsSpace := (isCjk ch || s.prevCjk) && !s.out.isEmpty && !isWhitespace ch && !s.endsBlank
  ⟨s.out ++ (if needsSpace then [' '] else []) ++ [ch], isCjk ch⟩

def segment (text : Text) : Text := (text.foldl Segmented.push ⟨[], false⟩).out

def bodySeg (c : Chunk) : Text := segment c.body

/-- The tokenizer of the index: the maximal runs of alphanumeric characters. -/
def tokens (alnum : Char → Bool) (text : Text) : List Text :=
  (text.splitOnP fun c => !alnum c).filter (· ≠ [])

section Tokens
variable {alnum : Char → Bool} (halnum : ∀ c, isWhitespace c = true → alnum c = false)

lemma tokens_nil : tokens alnum [] = [] := by simp [tokens]

lemma tokens_append_cons (front back : Text) {c : Char} (hc : alnum c = false) :
    tokens alnum (front ++ c :: back) = tokens alnum front ++ tokens alnum back := by
  have hsep : (!alnum c) = true := by rw [hc]; rfl
  rw [tokens, @List.splitOnP_append_cons _ (fun c => !alnum c) front back c hsep, List.filter_append]
  rfl

include halnum

lemma tokens_append_of_blank {front : Text} (back : Text)
    (h : front = [] ∨ ∃ c ∈ front.getLast?, isWhitespace c = true) :
    tokens alnum (front ++ back) = tokens alnum front ++ tokens alnum back := by
  rcases h with rfl | ⟨c, hc, hspace⟩
  · rw [tokens_nil, List.nil_append, List.nil_append]
  · obtain ⟨before, rfl⟩ := List.getLast?_eq_some_iff.mp hc
    have hsep := halnum c hspace
    rw [List.append_assoc, List.singleton_append, tokens_append_cons before back hsep,
      tokens_append_cons before [] hsep, tokens_nil, List.append_nil]

end Tokens

/-! The spaces that are put in. -/

/-- Whatever comes next is not joined to the last token. -/
def Segmented.Sealed (s : Segmented) : Prop := s.prevCjk = true ∨ s.out = [] ∨ s.endsBlank = true

section Pushing
variable {alnum : Char → Bool} (halnum : ∀ c, isWhitespace c = true → alnum c = false)

lemma endsBlank_iff {s : Segmented} :
    s.endsBlank = true ↔ ∃ c ∈ s.out.getLast?, isWhitespace c = true := by
  unfold Segmented.endsBlank
  cases s.out.getLast? <;> simp

lemma push_out (s : Segmented) (ch : Char) :
    (s.push ch).out = s.out ++ [ch] ∨ (s.push ch).out = s.out ++ [' ', ch] := by
  unfold Segmented.push
  dsimp only
  split
  · exact .inr (by simp)
  · exact .inl (by simp)

lemma foldl_push_prefix (text : Text) (s : Segmented) :
    s.out <+: (text.foldl Segmented.push s).out := by
  induction text generalizing s with
  | nil => exact List.prefix_rfl
  | cons ch text ih =>
    refine List.IsPrefix.trans ?_ (ih (s.push ch))
    rcases push_out s ch with h | h <;> rw [h] <;> exact List.prefix_append _ _

include halnum

lemma tokens_push {s : Segmented} {ch : Char} (hch : isWhitespace ch = false)
    (hapart : isCjk ch = true ∨ s.Sealed) :
    tokens alnum (s.push ch).out = tokens alnum s.out ++ tokens alnum [ch] := by
  have hspace : alnum ' ' = false := halnum ' ' (by decide)
  by_cases hfront : s.out = [] ∨ ∃ c ∈ s.out.getLast?, isWhitespace c = true
  · have hout : (s.push ch).out = s.out ++ [ch] := by
      have hnot : (!s.out.isEmpty && !s.endsBlank) = false := by
        rcases hfront with h | h
        · simp [h]
        · simp [endsBlank_iff.mpr h]
      unfold Segmented.push
      dsimp only
      rw [if_neg, List.append_nil]
      intro hneeds
      simp only [Bool.and_eq_true] at hneeds
      rw [hneeds.1.1.2, hneeds.2] at hnot
      cases hnot
    rw [hout, tokens_append_of_blank halnum [ch] hfront]
  · have hnonempty : s.out ≠ [] := fun h => hfront (.inl h)
    have hends : s.endsBlank = false :=
      Bool.eq_false_iff.mpr fun h => hfront (.inr (endsBlank_iff.mp h))
    have hcjk : (isCjk ch || s.prevCjk) = true := by
      rcases hapart with h | h | h | h
      · simp [h]
      · simp [h]
      · exact absurd h hnonempty
      · rw [hends] at h
        cases h
    have hout : (s.push ch).out = s.out ++ ' ' :: [ch] := by
      simp [Segmented.push, hcjk, hnonempty, hch, hends]
    rw [hout, tokens_append_cons s.out [ch] hspace]

lemma tokens_push_blank {s : Segmented} {ch : Char} (hch : isWhitespace ch = true) :
    tokens alnum (s.push ch).out = tokens alnum s.out ∧ (s.push ch).endsBlank = true := by
  have hout : (s.push ch).out = s.out ++ ch :: [] := by simp [Segmented.push, hch]
  refine ⟨?_, ?_⟩
  · rw [hout, tokens_append_cons s.out [] (halnum ch hch), tokens_nil, List.append_nil]
  · simp [endsBlank_iff, hout, hch]

lemma tokens_foldl_push (text : Text) {s : Segmented} (h : s.Sealed) :
    ∃ rest, tokens alnum (text.foldl Segmented.push s).out = tokens alnum s.out ++ rest := by
  by_cases hfront : s.out = [] ∨ ∃ c ∈ s.out.getLast?, isWhitespace c = true
  · obtain ⟨rest, hrest⟩ := foldl_push_prefix text s
    rw [← hrest]
    exact ⟨_, tokens_append_of_blank halnum rest hfront⟩
  · cases text with
    | nil => exact ⟨[], (List.append_nil _).symm⟩
    | cons ch text =>
      have hspace : alnum ' ' = false := halnum ' ' (by decide)
      have hnonempty : s.out ≠ [] := fun h => hfront (.inl h)
      have hends : s.endsBlank = false :=
        Bool.eq_false_iff.mpr fun h => hfront (.inr (endsBlank_iff.mp h))
      have hprev : s.prevCjk = true := by
        rcases h with h | h | h
        · exact h
        · exact absurd h hnonempty
        · rw [hends] at h
          cases h
      obtain ⟨rest, hrest⟩ := foldl_push_prefix text (s.push ch)
      rw [List.foldl_cons, ← hrest]
      -- A blank follows, its own or the one that is put in.
      cases hch : isWhitespace ch with
      | true =>
        have hout : (s.push ch).out = s.out ++ ch :: [] := by simp [Segmented.push, hch]
        rw [hout, List.append_assoc, List.cons_append]
        exact ⟨_, tokens_append_cons s.out _ (halnum ch hch)⟩
      | false =>
        have hout : (s.push ch).out = s.out ++ ' ' :: [ch] := by
          simp [Segmented.push, hprev, hnonempty, hch, hends]
        rw [hout, List.append_assoc, List.cons_append]
        exact ⟨_, tokens_append_cons s.out _ hspace⟩

/-- A run of such characters, with white space in between, gives one token for each. -/
lemma tokens_foldl_cjk (text : Text) (htext : ∀ c ∈ solid text, isCjk c = true) (s : Segmented) :
    tokens alnum (text.foldl Segmented.push s).out =
        tokens alnum s.out ++ (solid text).flatMap (fun c => tokens alnum [c]) ∧
      (text ≠ [] → (text.foldl Segmented.push s).Sealed) := by
  induction text generalizing s with
  | nil => exact ⟨(List.append_nil _).symm, fun h => absurd rfl h⟩
  | cons ch text ih =>
    have hsealed : (s.push ch).Sealed ∧ tokens alnum (s.push ch).out =
        tokens alnum s.out ++ (solid [ch]).flatMap (fun c => tokens alnum [c]) := by
      cases hch : isWhitespace ch with
      | true =>
        obtain ⟨htokens, hends⟩ := tokens_push_blank halnum (s := s) hch
        have hsolid : solid [ch] = [] := by simp [solid, hch]
        rw [hsolid, htokens]
        exact ⟨.inr (.inr hends), (List.append_nil _).symm⟩
      | false =>
        have hsolid : solid [ch] = [ch] := by simp [solid, hch]
        have hcjk : isCjk ch = true := by
          refine htext ch ?_
          rw [← List.singleton_append, solid_append, hsolid]
          exact List.mem_append_left _ (List.mem_singleton.mpr rfl)
        rw [hsolid, tokens_push halnum hch (.inl hcjk)]
        exact ⟨.inl hcjk, by simp⟩
    have htail : ∀ c ∈ solid text, isCjk c = true := by
      intro c hc
      refine htext c ?_
      rw [← List.singleton_append, solid_append]
      exact List.mem_append_right _ hc
    obtain ⟨htokens, hrest⟩ := ih htail (s.push ch)
    refine ⟨?_, fun _ => ?_⟩
    · rw [List.foldl_cons, htokens, hsealed.2, List.append_assoc, ← List.flatMap_append,
        ← solid_append, List.singleton_append]
    · cases text with
      | nil => exact hsealed.1
      | cons d text => exact hrest (List.cons_ne_nil _ _)

/-- A word that the solid characters of a text contain is found in the segmented text. -/
lemma tokens_segment_within {word text : Text} (hword : word ≠ []) (hcjk : ∀ c ∈ word, isCjk c = true)
    (hsolid : solid word = word) (h : word <:+: solid text) :
    tokens alnum (segment word) <:+: tokens alnum (segment text) := by
  obtain ⟨front, back, hparts⟩ := h
  obtain ⟨most, after, rfl, hmost, -⟩ := List.filter_eq_append_iff.mp hparts.symm
  obtain ⟨before, middle, rfl, -, hmiddle⟩ := List.filter_eq_append_iff.mp hmost
  have hmiddle : solid middle = word := hmiddle
  have hne : middle ≠ [] := by
    rintro rfl
    exact hword hmiddle.symm
  obtain ⟨hrun, hsealed⟩ := tokens_foldl_cjk halnum middle (hmiddle ▸ hcjk)
    (before.foldl Segmented.push ⟨[], false⟩)
  obtain ⟨rest, hrest⟩ := tokens_foldl_push halnum after (hsealed hne)
  have hasked := (tokens_foldl_cjk halnum word (by rwa [hsolid]) ⟨[], false⟩).1
  rw [hsolid, tokens_nil, List.nil_append] at hasked
  refine ⟨tokens alnum (before.foldl Segmented.push ⟨[], false⟩).out, rest, ?_⟩
  rw [segment, segment, List.foldl_append, List.foldl_append, hrest, hrun, hmiddle, hasked]

end Pushing

/-! Words of a note. -/

/-- Every word of a note that is not on a heading and not longer than the overlap is found in one of the
chunks. -/
theorem exists_bodySeg_tokens (alnum : Char → Bool) (halnum : ∀ c, isWhitespace c = true → alnum c = false)
    (front w back : Text) (hw : w ≠ []) (hlength : w.length ≤ overlapChars)
    (hcjk : ∀ c ∈ w, isCjk c = true) (hsolid : ∀ c ∈ w, isWhitespace c = false)
    (hoff : ∀ i, front.length ≤ i → i < front.length + w.length → ¬ OnHeading (front ++ w ++ back) i) :
    ∃ c ∈ split (front ++ w ++ back),
      tokens alnum (segment w) <:+: tokens alnum (bodySeg c) := by
  have hpos : 0 < w.length := List.length_pos_iff.mpr hw
  have hwhole : solid w = w := List.filter_eq_self.mpr fun c hc => by rw [hsolid c hc]; rfl
  have hget {i : ℕ} (hi : i < w.length) : (front ++ w ++ back)[front.length + i]? = some w[i] := by
    rw [List.append_assoc, List.getElem?_append_right (Nat.le_add_right _ _), Nat.add_sub_cancel_left,
      List.getElem?_append_left hi, List.getElem?_eq_getElem hi]
  -- The chunk that has the last character of the word.
  have hlast : w.length - 1 < w.length := by omega
  obtain ⟨c, hc, hcovers⟩ : ∃ c ∈ split (front ++ w ++ back),
      c.covers (front.length + (w.length - 1)) = true := by
    have hone := (split_laid (front ++ w ++ back)).countP_covers (hget hlast)
      (hsolid _ (List.getElem_mem hlast)) (hoff _ (by omega) (by omega))
      (by simp only [List.length_append]; omega)
    rw [if_pos (Nat.zero_le _)] at hone
    exact List.countP_pos_iff.mp (by omega)
  simp only [Chunk.covers, Bool.and_eq_true, decide_eq_true_eq] at hcovers
  have hholds := ((split_laid _).holds c hc).1
  have hstop := hholds.stop
  have hsuffix : solid (charSlice (front ++ w ++ back) front.length c.charEnd) <:+ solid c.body := by
    rcases Nat.lt_or_ge front.length c.charStart with hlt | hge
    · have hk : c.charStart - (c.charStart - front.length) = front.length := by omega
      have hreach := hholds.reaches (c.charStart - front.length) (by omega) (Nat.sub_le _ _)
      rw [hk] at hreach
      refine hreach (fun i hfrom hto => hoff i hfrom (by omega)) fun x hx => hsolid x ?_
      -- What stands between the beginning of the word and the range is a part of the word.
      rw [charSlice, List.append_assoc, List.drop_left,
        List.take_append_of_le_length (by omega)] at hx
      exact (List.take_sublist _ _).subset hx
    · obtain ⟨repeated, hbody, -⟩ := hholds.repeats
      rw [hbody, ← charSlice_append hge (by omega), solid_append, ← List.append_assoc]
      exact List.suffix_append _ _
  have hprefix : w <+: charSlice (front ++ w ++ back) front.length c.charEnd := by
    rw [charSlice, List.append_assoc, List.drop_left]
    exact List.prefix_take_iff.mpr ⟨List.prefix_append _ _, by omega⟩
  refine ⟨c, hc, tokens_segment_within halnum hw hcjk hwhole ?_⟩
  have hinside : solid w <+: solid (charSlice (front ++ w ++ back) front.length c.charEnd) :=
    hprefix.filter _
  rw [hwhole] at hinside
  exact hinside.isInfix.trans hsuffix.isInfix

/-- The CJK unified ideographs are letters. -/
def isIdeograph (ch : Char) : Bool := 0x4e00 ≤ ch.toNat && ch.toNat ≤ 0x9fff

lemma isIdeograph_of_isWhitespace {c : Char} (h : isWhitespace c = true) : isIdeograph c = false := by
  rw [Bool.eq_false_iff]
  intro hletter
  simp only [isIdeograph, isWhitespace, Bool.and_eq_true, Bool.or_eq_true, decide_eq_true_eq]
    at hletter h
  omega

theorem exists_bodySeg_tokens_export :
    ∃ c ∈ split ("# 标题\n\n用".toList ++ "导出".toList ++ "功能".toList),
      tokens isIdeograph (segment "导出".toList) <:+: tokens isIdeograph (bodySeg c) := by
  have hspans : headingSpans none 0 (splitInclusive
      ("# 标题\n\n用".toList ++ "导出".toList ++ "功能".toList)) = [(0, 5)] := by decide
  have hcjk : "导出".toList.all isCjk = true := by decide
  have hsolid : "导出".toList.all (fun c => !isWhitespace c) = true := by decide
  refine exists_bodySeg_tokens _ (fun _ => isIdeograph_of_isWhitespace) _ _ _ (by decide) (by decide)
    (List.all_eq_true.mp hcjk) (fun c hc => ?_) ?_
  · simpa using List.all_eq_true.mp hsolid c hc
  · rintro i hi - ⟨span, hspan, -, hlt⟩
    rw [hspans, List.mem_singleton] at hspan
    rw [hspan] at hlt
    exact absurd (hi.trans_lt hlt) (by decide)

end Aeroric.Highlights
