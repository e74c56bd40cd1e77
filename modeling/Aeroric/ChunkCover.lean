import Aeroric.Highlights

/-! The chunks of a note cover it. What is left out between them is white space or a heading line, and
what a chunk repeats stands before its range. -/
namespace Aeroric.Highlights

open ChangeReview (splitInclusive)
open Sse (trim trimStart isWhitespace solid solid_nil solid_append solid_eq_nil solid_rdropWhile trim_eq_nil)

/-! Slices. -/

section Slices
variable {text : Text} {a b c : ℕ}

lemma take_append_charSlice (h : a ≤ b) : text.take a ++ charSlice text a b = text.take b := by
  rw [charSlice, ← List.take_add, Nat.add_sub_cancel' h]

lemma charSlice_append (hab : a ≤ b) (hbc : b ≤ c) :
    charSlice text a b ++ charSlice text b c = charSlice text a c := by
  refine @List.append_cancel_left _ (text.take a) _ _ ?_
  rw [← List.append_assoc, take_append_charSlice hab, take_append_charSlice hbc,
    take_append_charSlice (hab.trans hbc)]

lemma charSlice_self : charSlice text a a = [] := by simp [charSlice]

lemma charSlice_zero : charSlice text 0 b = text.take b := by simp [charSlice]

lemma length_charSlice (h : b ≤ text.length) : (charSlice text a b).length = b - a := by
  rw [charSlice, List.length_take, List.length_drop]
  omega

lemma charSlice_charSlice {m n : ℕ} (h : a + n ≤ b) :
    charSlice (charSlice text a b) m n = charSlice text (a + m) (a + n) := by
  simp only [charSlice, List.drop_take, List.drop_drop, List.take_take]
  congr 1
  omega

lemma charSlice_of_prefix {front : Text} (h : front <+: text.drop a) (hb : b ≤ front.length) (m : ℕ) :
    charSlice front m b = charSlice text (a + m) (a + b) := by
  obtain ⟨rest, hrest⟩ := h
  have hslice : front = charSlice text a (a + front.length) := by
    rw [charSlice, ← hrest, Nat.add_sub_cancel_left, List.take_left]
  rw [hslice, charSlice_charSlice (Nat.add_le_add_left hb a)]

lemma mem_charSlice {i : ℕ} {x : Char} (hx : text[i]? = some x) (ha : a ≤ i) (hb : i < b) :
    x ∈ charSlice text a b := by
  refine List.mem_of_getElem? (i := i - a) ?_
  rw [charSlice, List.getElem?_take_of_lt (by omega), List.getElem?_drop, Nat.add_sub_cancel' ha, hx]

end Slices

/-! What is not white space. -/

section Solid
variable {text : Text} {a b c : ℕ}

lemma solid_take (h : a ≤ b) :
    solid (text.take b) = solid (text.take a) ++ solid (charSlice text a b) := by
  rw [← solid_append, take_append_charSlice h]

lemma isWhitespace_newline : ∀ c, decide (c = '\n') = true → isWhitespace c = true := by
  intro c hc
  rw [of_decide_eq_true hc]
  decide

/-- Nothing but white space lies between two places. -/
def Blank (text : Text) (a b : ℕ) : Prop := solid (charSlice text a b) = []

lemma Blank.refl (text : Text) (a : ℕ) : Blank text a a := by simp [Blank, charSlice_self]

lemma Blank.trans (h : Blank text a b) (h' : Blank text b c) (hab : a ≤ b) (hbc : b ≤ c) :
    Blank text a c := by
  rw [Blank, ← charSlice_append hab hbc, solid_append, h, h', List.append_nil]

lemma Blank.take (h : Blank text a b) (hab : a ≤ b) : solid (text.take b) = solid (text.take a) := by
  rw [solid_take hab, h, List.append_nil]

lemma Blank.whitespace (h : Blank text a b) {i : ℕ} {x : Char} (hx : text[i]? = some x) (ha : a ≤ i)
    (hb : i < b) : isWhitespace x = true :=
  solid_eq_nil.mp h x (mem_charSlice hx ha hb)

lemma suffix_solid_take (hab : a ≤ b) : solid (charSlice text a b) <:+ solid (text.take b) :=
  ⟨solid (text.take a), (solid_take hab).symm⟩

end Solid

/-! The paragraphs of a section. -/

/-- White space, or nothing, stands before the place. -/
def Begins (text : Text) (a : ℕ) : Prop := ∀ c ∈ (text.take a).getLast?, isWhitespace c = true

/-- A paragraph that comes next behind a place. -/
structure Follows (body : Text) (a : ℕ) (p : Paragraph) : Prop where
  start : a ≤ p.start
  blank : Blank body a p.start
  begins : Begins body p.start
  text : solid p.text ≠ []
  here : p.text <+: body.drop p.start
  length : p.start + p.text.length ≤ p.stop
  stop : p.stop ≤ body.length
  ending : Blank body (p.start + p.text.length) p.stop

/-- The paragraphs come one behind the other, from one place to another. -/
def Spaced (body : Text) : ℕ → List Paragraph → ℕ → Prop
  | a, [], b => a ≤ b ∧ Blank body a b
  | a, p :: ps, b => Follows body a p ∧ Spaced body p.stop ps b

section Paragraphs
variable {body : Text} {a b c : ℕ}

lemma Spaced.extend {ps : List Paragraph} (h : Spaced body a ps b) (hbc : b ≤ c)
    (hblank : Blank body b c) : Spaced body a ps c := by
  induction ps generalizing a with
  | nil => exact ⟨h.1.trans hbc, h.2.trans hblank h.1 hbc⟩
  | cons p ps ih => exact ⟨h.1, ih h.2⟩

lemma Spaced.concat {ps : List Paragraph} {p : Paragraph} (h : Spaced body a ps p.start)
    (hp : Follows body p.start p) : Spaced body a (ps ++ [p]) p.stop := by
  induction ps generalizing a with
  | nil => exact ⟨{ hp with start := h.1, blank := h.2 }, le_rfl, .refl _ _⟩
  | cons q ps ih => exact ⟨h.1, ih h.2⟩

/-- The line of one paragraph ends and an empty one follows before the next paragraph. -/
def Gapped (p q : Paragraph) : Prop := p.start + p.text.length + 2 ≤ q.start

/-- The loop has read `done`. -/
structure Scans (body done : Text) (s : ParagraphSpans) : Prop where
  cur : s.cur = done.length
  start : s.segStart ≤ s.cur
  seg : s.seg = done.drop s.segStart
  begins : Begins body s.segStart
  out : Spaced body 0 s.out s.segStart
  chain : s.out.IsChain Gapped
  last : ∀ p ∈ s.out.getLast?, p.start + p.text.length + 2 ≤ s.segStart

lemma Scans.seg_eq {done : Text} {s : ParagraphSpans} (h : Scans body done s) (hdone : done <+: body) :
    s.seg = charSlice body s.segStart s.cur := by
  obtain ⟨rest, rfl⟩ := hdone
  rw [h.seg, charSlice, List.drop_append_of_le_length (h.cur ▸ h.start), List.take_left']
  rw [List.length_drop, h.cur]

lemma Scans.flush {done : Text} {s : ParagraphSpans} (h : Scans body done s) (hdone : done <+: body) :
    Spaced body 0 (flushSpan s.out s.seg s.segStart s.cur) s.cur := by
  have hseg := h.seg_eq hdone
  have hcur : s.cur ≤ body.length := h.cur ▸ hdone.length_le
  dsimp only [flushSpan]
  split
  · next hblank =>
    rw [trim_eq_nil, solid_rdropWhile isWhitespace_newline, hseg] at hblank
    exact h.out.extend h.start hblank
  · next htext =>
    rw [trim_eq_nil] at htext
    have hfront : s.seg.rdropWhile (· = '\n') <+: s.seg := List.rdropWhile_prefix _ _
    have hlength : s.segStart + s.seg.length = s.cur := by
      rw [hseg, length_charSlice hcur, Nat.add_sub_cancel' h.start]
    have hhere : s.seg.rdropWhile (· = '\n') <+: body.drop s.segStart := by
      refine hfront.trans ?_
      rw [hseg, charSlice]
      exact List.take_prefix _ _
    have hlen : s.segStart + (s.seg.rdropWhile (· = '\n')).length ≤ s.cur :=
      (Nat.add_le_add_left hfront.length_le _).trans hlength.le
    refine h.out.concat ⟨le_rfl, .refl _ _, h.begins, htext, hhere, hlen, hcur, ?_⟩
    -- The text and the whole segment have the same solid characters.
    have hends := solid_rdropWhile isWhitespace_newline s.seg
    have hwhole := charSlice_of_prefix hhere le_rfl 0
    rw [charSlice_zero, List.take_length, Nat.add_zero] at hwhole
    have hsplit : s.seg = s.seg.rdropWhile (· = '\n') ++
        charSlice body (s.segStart + (s.seg.rdropWhile (· = '\n')).length) s.cur := by
      refine hseg.trans ?_
      rw [← charSlice_append (Nat.le_add_right _ _) hlen, ← hwhole]
    have hsolid := congrArg solid hsplit
    rw [solid_append, hends] at hsolid
    exact List.append_right_eq_self.mp hsolid.symm

lemma Scans.flush_chain {done : Text} {s : ParagraphSpans} (h : Scans body done s) :
    (flushSpan s.out s.seg s.segStart s.cur).IsChain Gapped := by
  dsimp only [flushSpan]
  split
  · exact h.chain
  · refine List.isChain_append.mpr ⟨h.chain, List.isChain_singleton _, fun p hp q hq => ?_⟩
    obtain rfl := Option.some.inj hq
    exact h.last p hp

/-- Before a further line the paragraph that is closed has lost the line feed at its end. -/
lemma Scans.flush_last {done : Text} {s : ParagraphSpans} (h : Scans body done s)
    (hends : ∀ c ∈ done.getLast?, c = '\n') :
    ∀ p ∈ (flushSpan s.out s.seg s.segStart s.cur).getLast?,
      p.start + p.text.length + 1 ≤ s.cur := by
  dsimp only [flushSpan]
  split
  · intro p hp
    have := h.last p hp
    have := h.start
    omega
  · next htext =>
    intro p hp
    rw [List.getLast?_concat] at hp
    obtain rfl := Option.some.inj hp
    obtain hnil | ⟨front, c, hseg⟩ := s.seg.eq_nil_or_concat'
    · rw [hnil] at htext
      exact absurd rfl htext
    · have hdone : c = '\n' := by
        refine hends c ?_
        rw [h.seg] at hseg
        have hlast := congrArg List.getLast? hseg
        rw [List.getLast?_drop, List.getLast?_concat] at hlast
        split at hlast
        · cases hlast
        · exact hlast
      have hle := (List.rdropWhile_prefix (· = '\n') front).length_le
      have hlength := congrArg List.length h.seg
      rw [hseg, List.length_append, List.length_singleton, List.length_drop, ← h.cur] at hlength
      dsimp only
      rw [hseg, List.rdropWhile_concat_pos _ _ _ (by simpa using hdone)]
      omega

lemma Scans.line {done line : Text} {s : ParagraphSpans} (h : Scans body done s)
    (hdone : done ++ line <+: body) (hline : line ≠ []) (hends : ∀ c ∈ done.getLast?, c = '\n') :
    Scans body (done ++ line) (s.line line) := by
  have hspace : ∀ c ∈ done.getLast?, isWhitespace c = true := fun c hc =>
    isWhitespace_newline c (decide_eq_true (hends c hc))
  have hfront : done <+: body := (List.prefix_append _ _).trans hdone
  have hcur : s.cur + line.length = (done ++ line).length := by rw [h.cur, List.length_append]
  have htake : body.take s.cur = done := by
    rw [h.cur]
    exact (List.prefix_iff_eq_take.mp hfront).symm
  have hnext : body.take (s.cur + line.length) = done ++ line := by
    rw [hcur]
    exact (List.prefix_iff_eq_take.mp hdone).symm
  by_cases hblank : trim line = [] ∧ feed s.fence line = none
  · rw [ParagraphSpans.line, if_pos hblank]
    have hslice : charSlice body s.cur (s.cur + line.length) = line := by
      refine @List.append_cancel_left _ (body.take s.cur) _ _ ?_
      rw [take_append_charSlice (Nat.le_add_right _ _), hnext, htake]
    have hsolid : Blank body s.cur (s.cur + line.length) := by
      rw [Blank, hslice]
      exact trim_eq_nil.mp hblank.1
    have hgap : ∀ p ∈ (flushSpan s.out s.seg s.segStart s.cur).getLast?,
        p.start + p.text.length + 2 ≤ s.cur + line.length := fun p hp => by
      have := h.flush_last hends p hp
      have := List.length_pos_iff.mpr hline
      omega
    refine ⟨hcur, le_rfl, by simp [hcur], ?_, (h.flush hfront).extend (Nat.le_add_right _ _) hsolid,
      h.flush_chain, hgap⟩
    intro c hc
    rw [hnext, List.getLast?_append] at hc
    cases hlast : line.getLast? with
    | none =>
      rw [hlast] at hc
      exact hspace c hc
    | some x =>
      rw [hlast] at hc
      obtain rfl : x = c := Option.some.inj hc
      exact solid_eq_nil.mp (trim_eq_nil.mp hblank.1) x (List.mem_of_getLast? hlast)
  · rw [ParagraphSpans.line, if_neg hblank]
    by_cases hseg : s.seg = []
    · rw [if_pos hseg, hseg]
      have hstart : s.segStart = s.cur := by
        have hlength := congrArg List.length (h.seg.symm.trans hseg)
        rw [List.length_drop, List.length_nil, ← h.cur] at hlength
        have := h.start
        omega
      refine ⟨hcur, Nat.le_add_right _ _, by simp [h.cur], ?_, hstart ▸ h.out, h.chain,
        hstart ▸ h.last⟩
      rw [Begins, htake]
      exact hspace
    · rw [if_neg hseg]
      refine ⟨hcur, h.start.trans (Nat.le_add_right _ _), ?_, h.begins, h.out, h.chain, h.last⟩
      rw [List.drop_append_of_le_length (h.cur ▸ h.start), ← h.seg]

lemma splitInclusive_ended (text : Text) :
    ∀ line ∈ (splitInclusive text).dropLast, line.getLast? = some '\n' := by
  induction text with
  | nil => simp [splitInclusive]
  | cons c text ih =>
    rw [splitInclusive]
    split
    · next hc =>
      cases hlines : splitInclusive text with
      | nil => simp
      | cons line lines =>
        rw [hlines] at ih
        simp only [List.dropLast_cons_cons, List.mem_cons]
        rintro l (rfl | hl)
        · simp [hc]
        · exact ih l hl
    · cases hlines : splitInclusive text with
      | nil => simp
      | cons line lines =>
        rw [hlines] at ih
        cases lines with
        | nil => simp
        | cons next lines =>
          simp only [List.dropLast_cons_cons, List.mem_cons] at ih ⊢
          rintro l (rfl | hl)
          · have hline := ih line (.inl rfl)
            cases line with
            | nil => simp at hline
            | cons d line => exact hline
          · exact ih l (.inr hl)

lemma splitInclusive_ne_nil (text : Text) : ∀ line ∈ splitInclusive text, line ≠ [] := by
  induction text with
  | nil => simp [splitInclusive]
  | cons c text ih =>
    rw [splitInclusive]
    split
    · simpa using ih
    · cases hlines : splitInclusive text with
      | nil => simp
      | cons line lines =>
        rw [hlines, List.forall_mem_cons] at ih
        simpa using ih.2

lemma Scans.run (lines : List Text) {done : Text} {s : ParagraphSpans} (h : Scans body done s)
    (hdone : done ++ lines.flatten <+: body)
    (hlines : ∀ line ∈ lines, line ≠ [])
    (hended : ∀ line ∈ lines.dropLast, line.getLast? = some '\n')
    (hends : ∀ c ∈ done.getLast?, c = '\n') :
    Scans body (done ++ lines.flatten) (lines.foldl ParagraphSpans.line s) := by
  induction lines generalizing done s with
  | nil => simpa using h
  | cons line lines ih =>
    rw [List.flatten_cons, ← List.append_assoc] at hdone ⊢
    obtain ⟨hline, hlines⟩ := List.forall_mem_cons.mp hlines
    have hnext := h.line ((List.prefix_append _ _).trans hdone) hline hends
    cases lines with
    | nil => simpa using hnext
    | cons next lines =>
      rw [List.dropLast_cons_cons, List.forall_mem_cons] at hended
      refine ih hnext hdone hlines hended.2 fun c hc => ?_
      rw [List.getLast?_append, hended.1] at hc
      exact (Option.some.inj hc).symm

lemma paragraphSpans_spaced (body : Text) : Spaced body 0 (paragraphSpans body) body.length ∧
    (paragraphSpans body).IsChain Gapped := by
  have hstart : Scans body [] ⟨[], [], 0, 0, none⟩ :=
    ⟨rfl, le_rfl, rfl, by simp [Begins], ⟨le_rfl, .refl _ _⟩, .nil, by simp⟩
  have hread := hstart.run (splitInclusive body)
  rw [List.nil_append, flatten_splitInclusive] at hread
  have hend := hread List.prefix_rfl (splitInclusive_ne_nil body) (splitInclusive_ended body)
    (by simp)
  have hflush := hend.flush List.prefix_rfl
  rw [hend.cur] at hflush
  unfold paragraphSpans
  dsimp only
  refine ⟨?_, hend.flush_chain⟩
  rw [hend.cur]
  exact hflush

end Paragraphs

/-! The parts of a section. -/

/-- A part covers its range: it ends with what the range has, repeats only what stands before it, and
repeats the last solid characters up to the overlap. -/
structure Sits (body : Text) (part : BodyPart) : Prop where
  start : part.start < part.stop
  stop : part.stop ≤ body.length
  repeats : ∃ front, solid part.text = front ++ solid (charSlice body part.start part.stop) ∧
    front <:+ solid (body.take part.start)
  reaches : ∀ k ≤ overlapChars, k ≤ part.start →
    (∀ c ∈ charSlice body (part.start - k) part.start, isWhitespace c = false) →
    solid (charSlice body (part.start - k) part.stop) <:+ solid part.text
  size : part.text.length ≤ maxChars + overlapChars + 2

/-- The parts cover what lies between two places. -/
def Tiled (body : Text) : ℕ → List BodyPart → ℕ → Prop
  | a, [], b => a ≤ b ∧ Blank body a b
  | a, part :: parts, b =>
    (a ≤ part.start ∧ Blank body a part.start ∧ Sits body part) ∧ Tiled body part.stop parts b

section Parts
variable {body : Text} {a b c : ℕ}

lemma Tiled.extend {parts : List BodyPart} (h : Tiled body a parts b) (hbc : b ≤ c)
    (hblank : Blank body b c) : Tiled body a parts c := by
  induction parts generalizing a with
  | nil => exact ⟨h.1.trans hbc, h.2.trans hblank h.1 hbc⟩
  | cons part parts ih => exact ⟨h.1, ih h.2⟩

lemma Tiled.append {parts more : List BodyPart} (h : Tiled body a parts b) (h' : Tiled body b more c) :
    Tiled body a (parts ++ more) c := by
  induction parts generalizing a with
  | nil =>
    cases more with
    | nil => exact ⟨h.1.trans h'.1, h.2.trans h'.2 h.1 h'.1⟩
    | cons part more =>
      obtain ⟨⟨hle, hblank, hsits⟩, hrest⟩ := h'
      exact ⟨⟨h.1.trans hle, h.2.trans hblank h.1 hle, hsits⟩, hrest⟩
  | cons part parts ih => exact ⟨h.1, ih h.2⟩

lemma Tiled.singleton {part : BodyPart} (h : Sits body part) :
    Tiled body part.start [part] part.stop :=
  ⟨⟨le_rfl, .refl _ _, h⟩, le_rfl, .refl _ _⟩

lemma eq_zero_of_begins {start k : ℕ} (hbegins : Begins body start) (hstart : start ≤ body.length)
    (hk : k ≤ start)
    (hsolid : ∀ c ∈ charSlice body (start - k) start, isWhitespace c = false) : k = 0 := by
  by_contra hne
  have hlt : start - 1 < body.length := by omega
  have hget : body[start - 1]? = some (body[start - 1]) := List.getElem?_eq_getElem hlt
  have hlast : (body.take start).getLast? = some (body[start - 1]) := by
    rw [List.getLast?_eq_getElem?, List.length_take, Nat.min_eq_left hstart,
      List.getElem?_take_of_lt (by omega), hget]
  have hspace := hbegins _ hlast
  rw [hsolid _ (mem_charSlice hget (by omega) (by omega))] at hspace
  cases hspace

lemma sits_cut {p : Paragraph} (hp : Follows body a p) {cursor stop : ℕ} (hcut : cursor < stop)
    (hle : stop ≤ p.text.length) (hwidth : stop ≤ cursor + maxChars) :
    Sits body ⟨charSlice p.text (cursor - overlapChars) stop, p.start + cursor, p.start + stop⟩ := by
  have hwhole := hp.length.trans hp.stop
  have hslice : charSlice p.text (cursor - overlapChars) stop =
      charSlice body (p.start + (cursor - overlapChars)) (p.start + stop) :=
    charSlice_of_prefix hp.here hle _
  refine ⟨Nat.add_lt_add_left hcut _, ?_, ?_, ?_, ?_⟩
  · exact (Nat.add_le_add_left hle _).trans hwhole
  · refine ⟨solid (charSlice body (p.start + (cursor - overlapChars)) (p.start + cursor)), ?_, ?_⟩
    · simp only [hslice]
      rw [← solid_append, charSlice_append (by omega) (by omega)]
    · exact suffix_solid_take (by omega)
  · intro k hk hkstart hsolid
    simp only [hslice] at hkstart hsolid ⊢
    -- Before the paragraph there is white space.
    have hinside : k ≤ cursor := by
      by_contra hlong
      have hshift : p.start - (k - cursor) = p.start + cursor - k := by omega
      have hzero := eq_zero_of_begins hp.begins (by omega) (by omega : k - cursor ≤ p.start) fun c hc =>
        hsolid c (by
          rw [← charSlice_append (by omega) (Nat.le_add_right p.start cursor), ← hshift]
          exact List.mem_append_left _ hc)
      omega
    rw [show p.start + cursor - k = p.start + (cursor - k) by omega]
    have hmiddle : p.start + (cursor - overlapChars) ≤ p.start + (cursor - k) := by omega
    rw [← charSlice_append hmiddle (by omega), solid_append]
    exact List.suffix_append _ _
  · simp only [charSlice, List.length_take, List.length_drop]
    omega

lemma hardSplit_tiled {p : Paragraph} (hp : Follows body a p) (cursor : ℕ)
    (hcursor : cursor ≤ p.text.length) :
    Tiled body (p.start + cursor) (hardSplit p.text p.start cursor) (p.start + p.text.length) := by
  induction cursor using hardSplit.induct p.text with
  | case1 cursor hlt stop ih =>
    rw [hardSplit, if_pos hlt]
    have hstop : stop ≤ p.text.length ∧ cursor < stop ∧ stop ≤ cursor + maxChars := by
      simp only [stop, maxChars]
      omega
    exact ⟨⟨le_rfl, .refl _ _, sits_cut hp hstop.2.1 hstop.1 hstop.2.2⟩, ih hstop.1⟩
  | case2 cursor hlt =>
    rw [hardSplit, if_neg hlt]
    have heq : cursor = p.text.length := by omega
    rw [heq]
    exact ⟨le_rfl, .refl _ _⟩

/-- What is true of the open part when the paragraphs up to a place are in. -/
structure Builds (body : Text) (b : Building) (place : ℕ) : Prop where
  within : place ≤ body.length
  chars : b.currentChars = b.current.length
  size : b.current.length ≤ maxChars + overlapChars + 2
  parts : Tiled body 0 b.parts (b.start.getD place)
  fresh : b.start = none → b.current = []
  opened : ∀ start ∈ b.start, b.stop = place ∧ start < place ∧ Begins body start ∧
    solid (charSlice body start place) ≠ [] ∧
    ∃ front, solid b.current = front ++ solid (charSlice body start place) ∧
      front <:+ solid (body.take start)

lemma Builds.part {b : Building} {place start : ℕ} (h : Builds body b place) (hb : b.start = some start) :
    Tiled body 0 (b.parts ++ [b.part]) place := by
  obtain ⟨hstop, hlt, hbegins, -, hrepeats⟩ := h.opened start hb
  have hparts := h.parts
  rw [hb, Option.getD_some] at hparts
  have hpart : b.part.start = start := by simp [Building.part, hb]
  have hsits : Sits body b.part := by
    refine ⟨?_, ?_, ?_, ?_, h.size⟩
    · rw [hpart]
      exact hlt.trans_eq hstop.symm
    · exact hstop.le.trans h.within
    · rw [hpart]
      simp only [Building.part, hstop]
      exact hrepeats
    · intro k hk hkstart hsolid
      rw [hpart] at hkstart hsolid ⊢
      rw [eq_zero_of_begins hbegins (hlt.le.trans h.within) hkstart hsolid, Nat.sub_zero]
      simp only [Building.part, hstop]
      obtain ⟨front, htext, -⟩ := hrepeats
      exact ⟨front, htext.symm⟩
  have hlast := Tiled.singleton hsits
  rw [hpart, show b.part.stop = place from hstop] at hlast
  exact hparts.append hlast

lemma Builds.closed {b : Building} {place : ℕ} (h : Builds body b place) :
    Tiled body 0 b.closed place := by
  unfold Building.closed
  cases hb : b.start with
  | none =>
    have hparts := h.parts
    rw [hb, Option.getD_none] at hparts
    rw [h.fresh hb, if_pos (by decide)]
    exact hparts
  | some start =>
    obtain ⟨-, -, -, hsolid, front, htext, -⟩ := h.opened start hb
    have hnonblank : ¬ trim b.current = [] := by
      rw [trim_eq_nil, htext]
      simp [hsolid]
    rw [if_neg hnonblank]
    exact h.part hb

lemma Follows.solid_eq {p : Paragraph} (hp : Follows body a p) :
    solid (charSlice body p.start p.stop) = solid p.text := by
  have hwhole := charSlice_of_prefix hp.here le_rfl 0
  rw [charSlice_zero, List.take_length, Nat.add_zero] at hwhole
  rw [← charSlice_append (Nat.le_add_right _ _) hp.length, ← hwhole, solid_append, hp.ending,
    List.append_nil]

lemma Follows.lt {p : Paragraph} (hp : Follows body a p) : p.start < p.stop := by
  have hne : p.text ≠ [] := fun h => hp.text (by rw [h, solid_nil])
  have := List.length_pos_iff.mpr hne
  have := hp.length
  omega

lemma Builds.cut {b : Building} {place : ℕ} {p : Paragraph} (h : Builds body b place)
    (hp : Follows body place p) : Builds body (b.cut p) p.stop := by
  have hbefore := h.closed.extend hp.start hp.blank
  have hcut := hbefore.append (hardSplit_tiled hp 0 (Nat.zero_le _))
  exact ⟨hp.stop, rfl, Nat.zero_le _, hcut.extend hp.length hp.ending, fun _ => rfl, nofun⟩

lemma append_current (b : Building) (p : Paragraph) :
    solid (b.append p).current = solid b.current ++ solid p.text ∧
      (b.append p).current.length ≤ b.current.length + 2 + p.text.length ∧
      (b.current = [] → (b.append p).current.length = p.text.length) ∧
      (b.currentChars = b.current.length → (b.append p).currentChars = (b.append p).current.length) := by
  by_cases hb : b.current = []
  · simp [Building.append, hb]
  · have hglue : solid ['\n', '\n'] = [] := by decide
    simp only [Building.append, if_neg hb, List.append_assoc, solid_append, hglue, List.nil_append,
      List.length_append, List.length_cons, List.length_nil]
    refine ⟨trivial, by omega, fun h => absurd h hb, fun h => by omega⟩

lemma builds_open {b : Building} {place : ℕ} {p : Paragraph} (hb : b.start = none)
    (hchars : b.currentChars = b.current.length) (hparts : Tiled body 0 b.parts place)
    (hrepeats : solid b.current <:+ solid (body.take place)) (hp : Follows body place p)
    (hsize : (b.append p).current.length ≤ maxChars + overlapChars + 2) :
    Builds body (b.append p) p.stop := by
  have hstart : (b.append p).start = some p.start := by simp [Building.append, hb]
  obtain ⟨htext, -, -, hcount⟩ := append_current b p
  refine ⟨hp.stop, hcount hchars, hsize, ?_, ?_, ?_⟩
  · rw [hstart]
    exact hparts.extend hp.start hp.blank
  · rw [hstart]
    intro h
    cases h
  · intro start h
    obtain rfl : p.start = start := Option.some.inj (hstart.symm.trans h)
    refine ⟨rfl, hp.lt, hp.begins, hp.solid_eq ▸ hp.text, solid b.current, ?_, ?_⟩
    · rw [htext, hp.solid_eq]
    · rw [hp.blank.take hp.start]
      exact hrepeats

lemma Builds.extend {b : Building} {place start : ℕ} {p : Paragraph} (h : Builds body b place)
    (hb : b.start = some start) (hp : Follows body place p)
    (hsize : (b.append p).current.length ≤ maxChars + overlapChars + 2) :
    Builds body (b.append p) p.stop := by
  have hstart : (b.append p).start = some start := by simp [Building.append, hb]
  obtain ⟨htext, -, -, hcount⟩ := append_current b p
  obtain ⟨-, hlt, hbegins, hsolid, front, hcurrent, hfront⟩ := h.opened start hb
  have hparts := h.parts
  rw [hb] at hparts
  have hslice : solid (charSlice body start p.stop) =
      solid (charSlice body start place) ++ solid p.text := by
    rw [← charSlice_append hlt.le (hp.start.trans hp.lt.le), solid_append,
      ← charSlice_append hp.start hp.lt.le, solid_append, hp.blank, hp.solid_eq, List.nil_append]
  refine ⟨hp.stop, hcount h.chars, hsize, ?_, ?_, ?_⟩
  · rw [hstart]
    exact hparts
  · rw [hstart]
    intro h
    cases h
  · intro other h
    obtain rfl : start = other := Option.some.inj (hstart.symm.trans h)
    refine ⟨rfl, hlt.trans_le (hp.start.trans hp.lt.le), hbegins, ?_, front, ?_, hfront⟩
    · rw [hslice]
      simp [hsolid]
    · rw [htext, hslice, hcurrent, List.append_assoc]

lemma Builds.repeated {b : Building} {place : ℕ} (h : Builds body b place) :
    solid b.current <:+ solid (body.take place) := by
  cases hb : b.start with
  | none =>
    rw [h.fresh hb]
    exact List.nil_suffix
  | some start =>
    obtain ⟨-, hlt, -, -, front, hcurrent, before, hbefore⟩ := h.opened start hb
    refine ⟨before, ?_⟩
    rw [hcurrent, solid_take hlt.le, ← hbefore, List.append_assoc]

lemma Builds.paragraph {b : Building} {place : ℕ} {p : Paragraph} (h : Builds body b place)
    (hp : Follows body place p) : Builds body (b.paragraph p) p.stop := by
  unfold Building.paragraph
  split_ifs with hlong hfull
  · exact h.cut hp
  · -- The end of the closed part is what the next one repeats.
    obtain ⟨start, hb⟩ := Option.ne_none_iff_exists'.mp fun hnone => hfull.2 (h.fresh hnone)
    have htail : (tailChars b.current overlapChars).length ≤ overlapChars := by
      rw [tailChars, List.length_drop]
      omega
    have hsuffix : solid b.turn.current <:+ solid b.current := by
      simp only [Building.turn]
      exact (List.drop_suffix _ _).filter _
    have hlength : (b.turn.append p).current.length ≤ maxChars + overlapChars + 2 := by
      refine (append_current b.turn p).2.1.trans ?_
      simp only [Building.turn]
      omega
    have hcount : b.turn.currentChars = b.turn.current.length := by simp only [Building.turn]
    exact builds_open rfl hcount (h.part hb) (hsuffix.trans h.repeated) hp hlength
  · cases hb : b.start with
    | none =>
      have hempty := h.fresh hb
      have hparts := h.parts
      rw [hb] at hparts
      refine builds_open hb h.chars hparts h.repeated hp ?_
      rw [(append_current b p).2.2.1 hempty]
      omega
    | some start =>
      refine h.extend hb hp ((append_current b p).2.1.trans ?_)
      obtain ⟨-, -, -, hsolid, front, hcurrent, -⟩ := h.opened start hb
      have hne : b.current ≠ [] := by
        intro hnil
        rw [hnil, solid_nil] at hcurrent
        exact hsolid (List.append_eq_nil_iff.mp hcurrent.symm).2
      have hroom := not_and_or.mp hfull
      have hchars := h.chars
      have hroom : b.currentChars + p.text.length + 2 ≤ maxChars := by
        rcases hroom with hroom | hroom
        · omega
        · exact absurd hne hroom
      omega

lemma Builds.run {ps : List Paragraph} {b : Building} {place stop : ℕ} (h : Builds body b place)
    (hps : Spaced body place ps stop) :
    Tiled body 0 (ps.foldl Building.paragraph b).closed stop := by
  induction ps generalizing b place with
  | nil => exact h.closed.extend hps.1 hps.2
  | cons p ps ih => exact ih (h.paragraph hps.1) hps.2

lemma splitSectionBody_tiled (hbody : body ≠ []) :
    Tiled body 0 (splitSectionBody body) body.length := by
  unfold splitSectionBody
  split
  · next hshort =>
    have hsits : Sits body ⟨body, 0, body.length⟩ := by
      refine ⟨List.length_pos_iff.mpr hbody, le_rfl, ⟨[], ?_, List.nil_suffix⟩, ?_, ?_⟩
      · rw [charSlice_zero, List.take_length, List.nil_append]
      · intro k _ hk _
        rw [Nat.le_zero.mp hk, Nat.sub_zero, charSlice_zero, List.take_length]
      · exact hshort.trans (by decide)
    exact Tiled.singleton hsits
  · have hempty : Builds body ⟨[], [], 0, none, 0⟩ 0 :=
      ⟨Nat.zero_le _, rfl, Nat.zero_le _, ⟨le_rfl, .refl _ _⟩, fun _ => rfl, nofun⟩
    exact hempty.run (paragraphSpans_spaced body).1

end Parts

/-! The sections of a note. -/

/-- The heading lines among the lines from a place on, as the ranges they take. -/
def headingSpans : Option Marker → ℕ → List Text → List (ℕ × ℕ)
  | _, _, [] => []
  | fence, pos, line :: lines =>
    let rest := headingSpans (feed fence line) (pos + line.length) lines
    if fence = none ∧ (parseHeading (trimStart line)).isSome then (pos, pos + line.length) :: rest
    else rest

def OnHeading (s : Text) (i : ℕ) : Prop :=
  ∃ span ∈ headingSpans none 0 (splitInclusive s), span.1 ≤ i ∧ i < span.2

/-- The sections come one behind the other, and only headings lie between them. -/
def Divided (heading : ℕ → Prop) : ℕ → List Section → ℕ → Prop
  | a, [], b => a ≤ b ∧ ∀ i, a ≤ i → i < b → heading i
  | a, sect :: sects, b =>
    (a ≤ sect.start ∧ (∀ i, a ≤ i → i < sect.start → heading i) ∧ sect.start ≤ sect.stop ∧
      (sect.start ≠ 0 → heading (sect.start - 1))) ∧
    Divided heading sect.stop sects b

section Sections
variable {heading : ℕ → Prop} {a b c : ℕ}

lemma Divided.extend {sects : List Section} (h : Divided heading a sects b) (hbc : b ≤ c)
    (hheading : ∀ i, b ≤ i → i < c → heading i) : Divided heading a sects c := by
  induction sects generalizing a with
  | nil =>
    refine ⟨h.1.trans hbc, fun i ha hc => ?_⟩
    rcases Nat.lt_or_ge i b with hb | hb
    · exact h.2 i ha hb
    · exact hheading i hb hc
  | cons sect sects ih => exact ⟨h.1, ih h.2⟩

lemma Divided.concat {sects : List Section} {sect : Section} (h : Divided heading a sects sect.start)
    (hstop : sect.start ≤ sect.stop) (hstart : sect.start ≠ 0 → heading (sect.start - 1)) :
    Divided heading a (sects ++ [sect]) sect.stop := by
  induction sects generalizing a with
  | nil => exact ⟨⟨h.1, h.2, hstop, hstart⟩, le_rfl, fun i ha hb => absurd hb (Nat.not_lt.mpr ha)⟩
  | cons other sects ih => exact ⟨h.1, ih h.2⟩

structure Outlines (heading : ℕ → Prop) (o : Outline) : Prop where
  start : o.currentStart ≤ o.charPos
  behind : o.currentStart ≠ 0 → heading (o.currentStart - 1)
  out : Divided heading 0 o.out o.currentStart

lemma Outlines.closed {o : Outline} (h : Outlines heading o) : Divided heading 0 o.closed o.charPos := by
  unfold Outline.closed
  split
  · next hlt => exact @Divided.concat heading 0 o.out ⟨_, _, _⟩ h.out hlt.le h.behind
  · next hge =>
    have hsame : o.currentStart = o.charPos := by
      have := h.start
      omega
    exact hsame ▸ h.out

lemma Outlines.line {o : Outline} (h : Outlines heading o) (line : Text)
    (hheading : o.fence = none ∧ (parseHeading (trimStart line)).isSome →
      ∀ i, o.charPos ≤ i → i < o.charPos + line.length → heading i) :
    Outlines heading (o.line line) := by
  have hnone : Outlines heading { o with charPos := o.charPos + line.length, fence := feed o.fence line } :=
    ⟨h.start.trans (Nat.le_add_right _ _), h.behind, h.out⟩
  cases hfence : o.fence with
  | some marker => simpa [Outline.line, hfence] using hnone
  | none =>
    cases hparse : parseHeading (trimStart line) with
    | none => simpa [Outline.line, hfence, hparse] using hnone
    | some found =>
      have hall := hheading ⟨hfence, by rw [hparse, Option.isSome_some]⟩
      have hout := h.closed.extend (Nat.le_add_right o.charPos line.length) hall
      have hpos : 0 < line.length := by
        refine List.length_pos_iff.mpr fun hnil => ?_
        rw [hnil, show parseHeading (trimStart []) = none by decide] at hparse
        cases hparse
      have hlast : heading (o.charPos + line.length - 1) := hall _ (by omega) (by omega)
      have hnext : Outlines heading ⟨o.closed,
          o.stack.rdropWhile (fun entry => found.1 ≤ entry.1) ++ [found], o.charPos + line.length,
          " > ".toList.intercalate
            ((o.stack.rdropWhile (fun entry => found.1 ≤ entry.1) ++ [found]).map Prod.snd),
          o.charPos + line.length, feed o.fence line⟩ :=
        ⟨le_rfl, fun _ => hlast, hout⟩
      simpa [Outline.line, hfence, hparse] using hnext

lemma line_charPos (o : Outline) (line : Text) : (o.line line).charPos = o.charPos + line.length := by
  unfold Outline.line
  dsimp only
  split <;> rfl

lemma line_fence (o : Outline) (line : Text) : (o.line line).fence = feed o.fence line := by
  unfold Outline.line
  dsimp only
  split <;> rfl

lemma Outlines.run (lines : List Text) {o : Outline} (h : Outlines heading o)
    (hheading : ∀ span ∈ headingSpans o.fence o.charPos lines, ∀ i, span.1 ≤ i → i < span.2 → heading i) :
    Outlines heading (lines.foldl Outline.line o) ∧
      (lines.foldl Outline.line o).charPos = o.charPos + lines.flatten.length := by
  induction lines generalizing o with
  | nil => exact ⟨h, rfl⟩
  | cons line lines ih =>
    rw [headingSpans] at hheading
    have hline : o.fence = none ∧ (parseHeading (trimStart line)).isSome →
        ∀ i, o.charPos ≤ i → i < o.charPos + line.length → heading i := by
      intro hhead
      rw [if_pos hhead] at hheading
      exact hheading _ List.mem_cons_self
    have hrest := @ih (o.line line) (h.line line hline) (by
      rw [line_charPos, line_fence]
      intro span hspan
      split at hheading
      · exact hheading span (List.mem_cons_of_mem _ hspan)
      · exact hheading span hspan)
    refine ⟨hrest.1, ?_⟩
    rw [List.foldl_cons, hrest.2, line_charPos, List.flatten_cons, List.length_append, Nat.add_assoc]

end Sections

lemma sections_divided (s : Text) : Divided (OnHeading s) 0 (sections s) s.length := by
  have hstart : Outlines (OnHeading s) ⟨[], [], 0, [], 0, none⟩ :=
    ⟨le_rfl, fun h => absurd rfl h, le_rfl, fun i _ h => absurd h (Nat.not_lt_zero i)⟩
  obtain ⟨hend, hpos⟩ := hstart.run (splitInclusive s) fun span hspan i ha hb => ⟨span, hspan, ha, hb⟩
  rw [flatten_splitInclusive, Nat.zero_add] at hpos
  unfold sections
  dsimp only
  split
  · rw [hpos]
    exact ⟨⟨le_rfl, fun i _ h => absurd h (Nat.not_lt_zero i), Nat.zero_le _, fun h => absurd rfl h⟩,
      le_rfl, fun i ha hb => absurd hb (Nat.not_lt.mpr ha)⟩
  · exact hpos ▸ hend.closed

/-! The chunks of a note. -/

/-- A chunk covers its range of the note, as a part covers its range of the section. -/
structure Holds (s : Text) (c : Chunk) : Prop where
  start : c.charStart < c.charEnd
  stop : c.charEnd ≤ s.length
  repeats : ∃ front, solid c.body = front ++ solid (charSlice s c.charStart c.charEnd) ∧
    front <:+ solid (s.take c.charStart)
  reaches : ∀ k ≤ overlapChars, k ≤ c.charStart →
    (∀ i, c.charStart - k ≤ i → i < c.charStart → ¬ OnHeading s i) →
    (∀ x ∈ charSlice s (c.charStart - k) c.charStart, isWhitespace x = false) →
    solid (charSlice s (c.charStart - k) c.charEnd) <:+ solid c.body
  size : c.body.length ≤ maxChars + overlapChars + 2

/-- What lies between two places is white space or stands on a heading. -/
def Skipped (s : Text) (a b : ℕ) : Prop :=
  ∀ i, a ≤ i → i < b → ∀ x, s[i]? = some x → isWhitespace x = true ∨ OnHeading s i

/-- The chunks cover what lies between two places. -/
def Laid (s : Text) : ℕ → List Chunk → ℕ → Prop
  | a, [], b => a ≤ b ∧ Skipped s a b
  | a, c :: cs, b =>
    (a ≤ c.charStart ∧ Skipped s a c.charStart ∧ Holds s c) ∧ Laid s c.charEnd cs b

section Chunks
variable {s : Text} {a b c : ℕ}

lemma Skipped.trans (h : Skipped s a b) (h' : Skipped s b c) : Skipped s a c := by
  intro i ha hc
  rcases Nat.lt_or_ge i b with hb | hb
  · exact h i ha hb
  · exact h' i hb hc

lemma Blank.skipped (h : Blank s a b) : Skipped s a b :=
  fun _ ha hb _ hx => .inl (h.whitespace hx ha hb)

lemma Laid.append {cs more : List Chunk} (h : Laid s a cs b) (h' : Laid s b more c) :
    Laid s a (cs ++ more) c := by
  induction cs generalizing a with
  | nil =>
    cases more with
    | nil => exact ⟨h.1.trans h'.1, h.2.trans h'.2⟩
    | cons d more =>
      obtain ⟨⟨hle, hskip, hholds⟩, hrest⟩ := h'
      exact ⟨⟨h.1.trans hle, h.2.trans hskip, hholds⟩, hrest⟩
  | cons d cs ih => exact ⟨h.1, ih h.2⟩

lemma Tiled.filter {body : Text} {parts : List BodyPart} (h : Tiled body a parts b) :
    Tiled body a (parts.filter fun part => trim part.text ≠ []) b := by
  induction parts generalizing a with
  | nil => exact h
  | cons part parts ih =>
    obtain ⟨⟨hle, hblank, hsits⟩, hrest⟩ := h
    by_cases htext : trim part.text = []
    · rw [List.filter_cons_of_neg (by simpa using htext)]
      obtain ⟨front, hsolid, -⟩ := hsits.repeats
      rw [trim_eq_nil.mp htext] at hsolid
      have hempty : Blank body part.start part.stop := (List.append_eq_nil_iff.mp hsolid.symm).2
      have hbefore : Tiled body a [] part.stop :=
        ⟨hle.trans hsits.start.le, hblank.trans hempty hle hsits.start.le⟩
      exact hbefore.append (ih hrest)
    · rw [List.filter_cons_of_pos (by simpa using htext)]
      exact ⟨⟨hle, hblank, hsits⟩, ih hrest⟩

def chunkOf (sect : Section) (part : BodyPart) : Chunk :=
  ⟨sect.heading, part.text, sect.start + part.start, sect.start + part.stop⟩

variable {sect : Section}

lemma Sits.holds {part : BodyPart} (h : Sits (charSlice s sect.start sect.stop) part)
    (hle : sect.start ≤ sect.stop) (hstop : sect.stop ≤ s.length)
    (hbehind : sect.start ≠ 0 → OnHeading s (sect.start - 1)) : Holds s (chunkOf sect part) := by
  have hpart : sect.start + part.stop ≤ sect.stop := by
    have hstop' := h.stop
    rw [length_charSlice hstop] at hstop'
    omega
  have hslice (m : ℕ) : charSlice (charSlice s sect.start sect.stop) m part.stop =
      charSlice s (sect.start + m) (sect.start + part.stop) := charSlice_charSlice hpart
  have hbefore (m : ℕ) : charSlice (charSlice s sect.start sect.stop) m part.start =
      charSlice s (sect.start + m) (sect.start + part.start) :=
    charSlice_charSlice ((Nat.add_le_add_left h.start.le _).trans hpart)
  refine ⟨Nat.add_lt_add_left h.start _, hpart.trans hstop, ?_, ?_, h.size⟩
  · obtain ⟨front, hsolid, hfront⟩ := h.repeats
    refine ⟨front, ?_, hfront.trans ?_⟩
    · rw [hslice] at hsolid
      exact hsolid
    · rw [← charSlice_zero, hbefore]
      exact suffix_solid_take (Nat.le_add_right _ _)
  · intro k hk hkstart hoff hsolid
    simp only [chunkOf] at hkstart hoff hsolid ⊢
    -- What stands before the section is on a heading.
    have hinside : k ≤ part.start := by
      by_contra hlong
      exact hoff (sect.start - 1) (by omega) (by omega) (hbehind (by omega))
    have hshift : sect.start + part.start - k = sect.start + (part.start - k) := by omega
    rw [hshift] at hsolid ⊢
    rw [← hslice]
    refine h.reaches k hk hinside ?_
    rw [hbefore]
    exact hsolid

lemma Tiled.laid {parts : List BodyPart}
    (h : Tiled (charSlice s sect.start sect.stop) a parts b) (hb : sect.start + b ≤ sect.stop)
    (hle : sect.start ≤ sect.stop) (hstop : sect.stop ≤ s.length)
    (hbehind : sect.start ≠ 0 → OnHeading s (sect.start - 1)) :
    Laid s (sect.start + a) (parts.map (chunkOf sect)) (sect.start + b) := by
  induction parts generalizing a with
  | nil =>
    refine ⟨Nat.add_le_add_left h.1 _, Blank.skipped ?_⟩
    rw [Blank, ← charSlice_charSlice hb]
    exact h.2
  | cons part parts ih =>
    obtain ⟨⟨hstart, hblank, hsits⟩, hrest⟩ := h
    have hholds := hsits.holds hle hstop hbehind
    have hpart : sect.start + part.start ≤ sect.stop := by
      have := hsits.start
      have := hsits.stop
      rw [length_charSlice hstop] at this
      omega
    refine ⟨⟨Nat.add_le_add_left hstart _, Blank.skipped ?_, hholds⟩, ih hrest⟩
    simp only [chunkOf]
    rw [Blank, ← charSlice_charSlice hpart]
    exact hblank

def sectionChunks (s : Text) (sect : Section) : List Chunk :=
  let body := charSlice s sect.start sect.stop
  if trim body = [] then []
  else ((splitSectionBody body).filter fun part => trim part.text ≠ []).map (chunkOf sect)

lemma sectionChunks_laid (hle : sect.start ≤ sect.stop) (hstop : sect.stop ≤ s.length)
    (hbehind : sect.start ≠ 0 → OnHeading s (sect.start - 1)) :
    Laid s sect.start (sectionChunks s sect) sect.stop := by
  unfold sectionChunks
  dsimp only
  split
  · next hblank => exact ⟨hle, Blank.skipped (trim_eq_nil.mp hblank)⟩
  · next hsolid =>
    have hbody : charSlice s sect.start sect.stop ≠ [] := by
      intro hnil
      rw [hnil] at hsolid
      exact hsolid (by decide)
    have hlength : sect.start + (charSlice s sect.start sect.stop).length = sect.stop := by
      rw [length_charSlice hstop, Nat.add_sub_cancel' hle]
    have hlaid := (splitSectionBody_tiled hbody).filter.laid hlength.le hle hstop hbehind
    rw [hlength, Nat.add_zero] at hlaid
    exact hlaid

lemma Divided.stop_le {heading : ℕ → Prop} {sects : List Section} (h : Divided heading a sects b) : a ≤ b := by
  induction sects generalizing a with
  | nil => exact h.1
  | cons other sects ih => exact (h.1.1.trans h.1.2.2.1).trans (ih h.2)

lemma Divided.laid {sects : List Section} (h : Divided (OnHeading s) a sects b) (hb : b ≤ s.length) :
    Laid s a (sects.flatMap (sectionChunks s)) b := by
  induction sects generalizing a with
  | nil => exact ⟨h.1, fun i ha hi _ _ => .inr (h.2 i ha hi)⟩
  | cons sect sects ih =>
    obtain ⟨⟨hstart, hheading, hle, hbehind⟩, hrest⟩ := h
    have hbefore : Laid s a [] sect.start := ⟨hstart, fun i ha hi _ _ => .inr (hheading i ha hi)⟩
    have hhere := sectionChunks_laid hle (hrest.stop_le.trans hb) hbehind
    rw [List.flatMap_cons]
    exact hbefore.append (hhere.append (ih hrest))

lemma split_laid (s : Text) : Laid s 0 (split s) s.length :=
  (sections_divided s).laid le_rfl

lemma Laid.holds {cs : List Chunk} (h : Laid s a cs b) : ∀ d ∈ cs, Holds s d ∧ a ≤ d.charStart := by
  induction cs generalizing a with
  | nil => simp
  | cons d cs ih =>
    rw [List.forall_mem_cons]
    refine ⟨⟨h.1.2.2, h.1.1⟩, fun e he => ?_⟩
    obtain ⟨hholds, hle⟩ := ih h.2 e he
    exact ⟨hholds, h.1.1.trans (h.1.2.2.start.le.trans hle)⟩

/-- A chunk has no solid characters that the note does not have in a row. -/
lemma Holds.within {d : Chunk} (h : Holds s d) : solid d.body <:+: solid s := by
  obtain ⟨front, hbody, before, hbefore⟩ := h.repeats
  have hsplit := congrArg solid (List.take_append_drop d.charEnd s)
  rw [solid_append, solid_take h.start.le, ← hbefore, List.append_assoc before, ← hbody] at hsplit
  exact ⟨_, _, hsplit⟩

lemma Laid.pairwise {cs : List Chunk} (h : Laid s a cs b) :
    cs.Pairwise fun d e => d.charEnd ≤ e.charStart := by
  induction cs generalizing a with
  | nil => exact .nil
  | cons d cs ih => exact List.pairwise_cons.mpr ⟨fun e he => (h.2.holds e he).2, ih h.2⟩

end Chunks

def Chunk.covers (c : Chunk) (i : ℕ) : Bool := c.charStart ≤ i && i < c.charEnd

lemma Laid.countP_covers {s : Text} {cs : List Chunk} {a b i : ℕ} {x : Char} (h : Laid s a cs b)
    (hx : s[i]? = some x) (hsolid : isWhitespace x = false) (hoff : ¬ OnHeading s i) (hb : i < b) :
    cs.countP (·.covers i) = if a ≤ i then 1 else 0 := by
  have hkept {m n : ℕ} (hskip : Skipped s m n) (hm : m ≤ i) : n ≤ i := by
    by_contra hlt
    rcases hskip i hm (Nat.lt_of_not_le hlt) x hx with hspace | hheading
    · rw [hsolid] at hspace
      cases hspace
    · exact hoff hheading
  induction cs generalizing a with
  | nil =>
    have hlate : ¬ a ≤ i := fun ha => absurd (hkept h.2 ha) (Nat.not_le.mpr hb)
    rw [if_neg hlate, List.countP_nil]
  | cons d cs ih =>
    obtain ⟨⟨hle, hskip, hholds⟩, hrest⟩ := h
    have hstart := hholds.start
    have hshift : a ≤ i ↔ d.charStart ≤ i := ⟨hkept hskip, hle.trans⟩
    rw [List.countP_cons, ih hrest]
    simp only [hshift, Chunk.covers, Bool.and_eq_true, decide_eq_true_eq]
    split_ifs <;> omega

/-- The chunks of a note lie in order within it. What is neither white space nor on a heading lies in
exactly one of them, a chunk has the solid characters of its range behind what it repeats, and no chunk
is too long. -/
theorem split_covers (s : Text) :
    (∀ c ∈ split s, c.charStart < c.charEnd ∧ c.charEnd ≤ s.length) ∧
    (split s).Pairwise (fun c d => c.charEnd ≤ d.charStart) ∧
    (∀ i x, s[i]? = some x → isWhitespace x = false → ¬ OnHeading s i →
      (split s).countP (·.covers i) = 1) ∧
    (∀ c ∈ split s, ∃ front, solid c.body = front ++ solid (charSlice s c.charStart c.charEnd) ∧
      front <:+ solid (s.take c.charStart)) ∧
    ∀ c ∈ split s, c.body.length ≤ maxChars + overlapChars + 2 := by
  have hlaid := split_laid s
  have hholds := fun c hc => (hlaid.holds c hc).1
  refine ⟨fun c hc => ⟨(hholds c hc).start, (hholds c hc).stop⟩, hlaid.pairwise, ?_,
    fun c hc => (hholds c hc).repeats, fun c hc => (hholds c hc).size⟩
  intro i x hx hsolid hoff
  have hi : i < s.length := (List.getElem?_eq_some_iff.mp hx).1
  rw [hlaid.countP_covers hx hsolid hoff hi, if_pos (Nat.zero_le i)]

end Aeroric.Highlights
