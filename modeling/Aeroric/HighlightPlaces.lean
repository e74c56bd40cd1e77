import Aeroric.ChunkCover

/-! Where the highlights of a search point. A chunk that is joined from paragraphs stands in the note as
it is only if the paragraphs lie one empty line apart. -/
namespace Aeroric.Highlights

open Sse (trim trimStart isWhitespace solid solid_nil solid_append solid_eq_nil solid_trimStart trim_eq_nil)

def Adjacent (body : Text) (p q : Paragraph) : Prop :=
  q.start = p.start + p.text.length + 2 ∧ ['\n', '\n'] <+: body.drop (p.start + p.text.length)

def joinedText (paragraphs : List Paragraph) : Text :=
  ['\n', '\n'].intercalate (paragraphs.map Paragraph.text)

/-- Paragraphs that come together in one chunk, behind some characters of the chunk before it. -/
structure Group where
  carried : ℕ
  paragraphs : List Paragraph

namespace Group

def ahead (g : Group) : ℕ := if g.carried = 0 then 0 else g.carried + 2

def size (g : Group) : ℕ := g.ahead + (joinedText g.paragraphs).length

def close (g : Group) : List Group := if g.paragraphs = [] then [] else [g]

/-- The lengths alone decide which paragraphs come together. -/
def groups (g : Group) : List Paragraph → List Group
  | [] => g.close
  | p :: ps =>
    if maxChars < p.text.length then g.close ++ groups ⟨0, []⟩ ps
    else if maxChars < g.size + p.text.length + 2 ∧ g.paragraphs ≠ [] then
      g :: groups ⟨min overlapChars g.size, [p]⟩ ps
    else groups ⟨g.carried, g.paragraphs ++ [p]⟩ ps

/-- The paragraphs lie one empty line apart, and no line feed follows the last of them where the chunk
repeats the one before it. -/
def Regular (body : Text) (g : Group) : Prop :=
  g.paragraphs.IsChain (Adjacent body) ∧
    (g.carried ≠ 0 → ∀ last ∈ g.paragraphs.getLast?, last.stop = last.start + last.text.length)

end Group

/-- In each section that is too long for one chunk the paragraphs of a chunk lie regularly. -/
def Even (s : Text) : Prop :=
  ∀ sect ∈ sections s, let body := charSlice s sect.start sect.stop
    trim body ≠ [] → maxChars < body.length →
      ∀ g ∈ Group.groups ⟨0, []⟩ (paragraphSpans body), g.Regular body

instance (body : Text) (p q : Paragraph) : Decidable (Adjacent body p q) :=
  inferInstanceAs (Decidable (_ ∧ _))

instance (body : Text) (g : Group) : Decidable (g.Regular body) :=
  inferInstanceAs (Decidable (_ ∧ (_ → ∀ _ ∈ _, _)))

instance (s : Text) : Decidable (Even s) :=
  inferInstanceAs (Decidable (∀ sect ∈ _, _ → _ → ∀ g ∈ _, _))

/-! The text of a group in its section. -/

section Places
variable {body : Text}

/-- What is true of two paragraphs in a row. -/
structure Next (body : Text) (p q : Paragraph) : Prop where
  gap : p.start + p.text.length + 2 ≤ q.start
  blank : Blank body (p.start + p.text.length) q.start

lemma Spaced.next {ps : List Paragraph} {a b : ℕ} (h : Spaced body a ps b)
    (hgap : ps.IsChain Gapped) :
    ps.IsChain (Next body) ∧ ∀ p ∈ ps, Follows body p.start p := by
  induction ps generalizing a with
  | nil => exact ⟨.nil, by simp⟩
  | cons p ps ih =>
    obtain ⟨hp, hps⟩ := h
    obtain ⟨hchain, hfollows⟩ := ih hps hgap.tail
    refine ⟨?_, List.forall_mem_cons.mpr ⟨{ hp with start := le_rfl, blank := .refl _ _ }, hfollows⟩⟩
    cases ps with
    | nil => exact List.isChain_singleton p
    | cons q ps =>
      obtain ⟨hpq, -⟩ := List.isChain_cons_cons.mp hgap
      exact List.isChain_cons_cons.mpr
        ⟨⟨hpq, hp.ending.trans hps.1.blank hp.length hps.1.start⟩, hchain⟩

lemma joinedText_singleton (p : Paragraph) : joinedText [p] = p.text := by simp [joinedText]

lemma joinedText_cons (p q : Paragraph) (ps : List Paragraph) :
    joinedText (p :: q :: ps) = p.text ++ (['\n', '\n'] ++ joinedText (q :: ps)) := by
  rw [joinedText, List.map_cons, List.map_cons, List.intercalate_cons_cons, List.append_assoc]
  rfl

lemma joinedText_concat {ps : List Paragraph} (h : ps ≠ []) (p : Paragraph) :
    joinedText (ps ++ [p]) = joinedText ps ++ ['\n', '\n'] ++ p.text := by
  rw [joinedText, List.map_append, List.map_singleton, Sse.intercalate_concat _ (by simpa using h)]
  rfl

lemma text_prefix_joinedText (p : Paragraph) (ps : List Paragraph) :
    p.text <+: joinedText (p :: ps) := by
  cases ps with
  | nil => rw [joinedText_singleton]
  | cons q ps =>
    rw [joinedText_cons]
    exact List.prefix_append _ _

lemma eq_nil_of_shift {w x y : Text} (hw : solid w = []) (hx : solid x ≠ []) (hxy : x <+: y)
    (hwxy : w ++ x <+: y) : w = [] := by
  have hlead : ∀ z : Text, z <+: y → solid z ≠ [] →
      y.takeWhile isWhitespace = z.takeWhile isWhitespace := by
    rintro z ⟨rest, rfl⟩ hz
    rw [List.takeWhile_append, if_neg fun hlength => hz (solid_eq_nil.mpr ?_)]
    exact List.takeWhile_eq_self_iff.mp ((List.takeWhile_prefix _).eq_of_length hlength)
  have hshift : (w ++ x).takeWhile isWhitespace = w ++ x.takeWhile isWhitespace :=
    List.takeWhile_append_of_pos (solid_eq_nil.mp hw)
  have heq := (hlead x hxy hx).symm.trans (hlead _ hwxy (by simp [hx]))
  rw [hshift] at heq
  exact List.self_eq_append_left.mp heq

lemma drop_eq_charSlice {a b : ℕ} (h : a ≤ b) :
    body.drop a = charSlice body a b ++ body.drop b := by
  obtain ⟨n, rfl⟩ := Nat.exists_eq_add_of_le h
  rw [charSlice, Nat.add_sub_cancel_left, ← List.drop_drop, List.take_append_drop]

lemma Follows.drop_eq {p : Paragraph} (hp : Follows body p.start p) :
    body.drop p.start = p.text ++ body.drop (p.start + p.text.length) := by
  obtain ⟨rest, hrest⟩ := hp.here
  rw [← List.drop_drop, ← hrest, List.drop_left]

/-- The paragraphs are joined to what the section has there exactly if they are one empty line apart. -/
lemma joinedText_prefix_iff {p : Paragraph} {ps : List Paragraph}
    (hfollows : ∀ q ∈ p :: ps, Follows body q.start q) (hnext : (p :: ps).IsChain (Next body)) :
    joinedText (p :: ps) <+: body.drop p.start ↔ (p :: ps).IsChain (Adjacent body) := by
  induction ps generalizing p with
  | nil =>
    rw [joinedText_singleton]
    exact iff_of_true (hfollows p List.mem_cons_self).here (List.isChain_singleton p)
  | cons q ps ih =>
    obtain ⟨hp, hfollows⟩ := List.forall_mem_cons.mp hfollows
    obtain ⟨hpq, hnext⟩ := List.isChain_cons_cons.mp hnext
    have hq := hfollows q List.mem_cons_self
    rw [joinedText_cons, hp.drop_eq, List.prefix_append_right_inj, List.isChain_cons_cons,
      ← ih hfollows hnext]
    constructor
    · intro h
      -- Behind two line feeds there is white space that the joined text does not have.
      have hfeeds := (List.prefix_append _ _).trans h
      obtain ⟨rest, hrest⟩ := hfeeds
      have hdrop : body.drop (p.start + p.text.length + 2) = rest := by
        rw [← List.drop_drop, ← hrest]
        rfl
      rw [← hrest, List.prefix_append_right_inj, ← hdrop] at h
      have hblank := hpq.blank
      rw [Blank, ← charSlice_append (Nat.le_add_right _ 2) hpq.gap, solid_append,
        List.append_eq_nil_iff] at hblank
      have hnone := eq_nil_of_shift hblank.2 hq.text ((text_prefix_joinedText q ps).trans h) (by
        rw [drop_eq_charSlice hpq.gap]
        exact (List.prefix_append_right_inj _).mpr hq.here)
      have hlength := congrArg List.length hnone
      rw [length_charSlice ((Nat.le_add_right _ _).trans (hq.length.trans hq.stop)),
        List.length_nil] at hlength
      have hstart : q.start = p.start + p.text.length + 2 := by
        have := hpq.gap
        omega
      exact ⟨⟨hstart, rest, hrest⟩, hstart ▸ h⟩
    · rintro ⟨⟨hstart, hfeeds⟩, hjoined⟩
      obtain ⟨rest, hrest⟩ := hfeeds
      rw [← hrest, List.prefix_append_right_inj]
      rw [hstart, ← List.drop_drop, ← hrest] at hjoined
      exact hjoined

/-- The joined text is not longer than what it is taken from, and has the same solid characters. -/
lemma joinedText_length {p last : Paragraph} {ps : List Paragraph}
    (hfollows : ∀ q ∈ p :: ps, Follows body q.start q) (hnext : (p :: ps).IsChain (Next body))
    (hlast : last ∈ (p :: ps).getLast?) :
    p.start + (joinedText (p :: ps)).length ≤ last.start + last.text.length ∧
      solid (charSlice body p.start last.stop) = solid (joinedText (p :: ps)) := by
  induction ps generalizing p with
  | nil =>
    obtain rfl : p = last := Option.some.inj hlast
    rw [joinedText_singleton]
    exact ⟨le_rfl, (hfollows p List.mem_cons_self).solid_eq⟩
  | cons q ps ih =>
    obtain ⟨hp, hfollows⟩ := List.forall_mem_cons.mp hfollows
    obtain ⟨hpq, hnext⟩ := List.isChain_cons_cons.mp hnext
    rw [List.getLast?_cons_cons] at hlast
    obtain ⟨hlength, hsolid⟩ := ih hfollows hnext hlast
    have hstop := (hfollows last (List.mem_of_getLast? hlast)).length
    have htext := charSlice_of_prefix hp.here le_rfl 0
    rw [charSlice_zero, List.take_length, Nat.add_zero] at htext
    have hfeeds : solid ['\n', '\n'] = [] := by decide
    have hgap := hpq.gap
    rw [joinedText_cons]
    constructor
    · simp only [List.length_append, List.length_cons, List.length_nil]
      omega
    · rw [solid_append, solid_append, hfeeds, List.nil_append, ← hsolid,
        ← charSlice_append (Nat.le_add_right p.start p.text.length) (by omega), solid_append, ← htext,
        ← charSlice_append (by omega : p.start + p.text.length ≤ q.start) (by omega), solid_append,
        hpq.blank, List.nil_append]

lemma joinedText_adjacent {p last : Paragraph} {ps : List Paragraph}
    (hchain : (p :: ps).IsChain (Adjacent body)) (hlast : last ∈ (p :: ps).getLast?) :
    p.start + (joinedText (p :: ps)).length = last.start + last.text.length := by
  induction ps generalizing p with
  | nil =>
    obtain rfl : p = last := Option.some.inj hlast
    rw [joinedText_singleton]
  | cons q ps ih =>
    obtain ⟨hpq, hchain⟩ := List.isChain_cons_cons.mp hchain
    rw [List.getLast?_cons_cons] at hlast
    have hrest := ih hchain hlast
    have hstart := hpq.1
    rw [joinedText_cons]
    simp only [List.length_append, List.length_cons, List.length_nil]
    omega

/-- Behind the overlap that its lengths give, the text of a part is what the section has where the
part begins. -/
def BodyPart.Aligned (body : Text) (part : BodyPart) : Prop :=
  part.text.drop (overlap part.text part.start part.stop) <+: body.drop part.start

/-- The part that is made of a group. -/
structure Joined (part : BodyPart) (g : Group) : Prop where
  text : ∃ front, part.text = front ++ joinedText g.paragraphs ∧ front.length = g.ahead
  start : g.paragraphs.head?.map Paragraph.start = some part.start
  stop : ∀ last ∈ g.paragraphs.getLast?, part.stop = last.stop

lemma Joined.aligned_iff {part : BodyPart} {g : Group} (h : Joined part g)
    (hfollows : ∀ q ∈ g.paragraphs, Follows body q.start q)
    (hnext : g.paragraphs.IsChain (Next body)) : part.Aligned body ↔ g.Regular body := by
  obtain ⟨front, htext, hfront⟩ := h.text
  obtain ⟨carried, paragraphs⟩ := g
  cases paragraphs with
  | nil => exact absurd h.start (by simp)
  | cons p ps =>
    have hstart : p.start = part.start := by simpa using h.start
    obtain ⟨last, hlast⟩ : ∃ last, (p :: ps).getLast? = some last :=
      ⟨_, List.getLast?_eq_some_getLast (List.cons_ne_nil p ps)⟩
    have hstop := h.stop last hlast
    have hended := (hfollows last (List.mem_of_getLast? hlast)).length
    obtain ⟨hlength, hsolid⟩ := joinedText_length hfollows hnext hlast
    have hchain := joinedText_prefix_iff hfollows hnext
    unfold BodyPart.Aligned overlap Group.Regular
    rw [htext, List.length_append, ← hstart, hstop, ← hchain]
    dsimp only at hlength hsolid ⊢
    by_cases hcarried : carried = 0
    · have hnone : front = [] := List.length_eq_zero_iff.mp (by simpa [Group.ahead, hcarried] using hfront)
      rw [hnone, List.nil_append, List.length_nil, Nat.sub_eq_zero_of_le (by omega), List.drop_zero]
      simp [hcarried]
    · have hpos : 0 < front.length := by
        rw [hfront, Group.ahead, if_neg hcarried]
        exact Nat.succ_pos _
      constructor
      · intro h
        by_cases hwidth : p.start + (joinedText (p :: ps)).length = last.stop
        · rw [show front.length + (joinedText (p :: ps)).length - (last.stop - p.start) = front.length
            by omega, List.drop_left] at h
          refine ⟨h, fun _ other hother => ?_⟩
          obtain rfl := Option.some.inj (hlast.symm.trans hother)
          omega
        · -- Something of what is repeated would stand before the first paragraph.
          rw [List.drop_append_of_le_length (by omega)] at h
          have hp := hfollows p List.mem_cons_self
          have hinside : front.drop (front.length + (joinedText (p :: ps)).length -
              (last.stop - p.start)) ++ joinedText (p :: ps) <+: charSlice body p.start last.stop := by
            refine List.prefix_take_iff.mpr ⟨h, ?_⟩
            rw [List.length_append, List.length_drop]
            omega
          have hcount := (hinside.filter fun c => !isWhitespace c).length_le
          rw [← solid, ← solid, hsolid, solid_append, List.length_append] at hcount
          have hnone := eq_nil_of_shift (List.length_eq_zero_iff.mp (by omega)) hp.text hp.here
            (((List.prefix_append_right_inj _).mpr (text_prefix_joinedText p ps)).trans h)
          have hlength := congrArg List.length hnone
          rw [List.length_drop, List.length_nil] at hlength
          omega
      · rintro ⟨hjoined, hended⟩
        have hwidth := joinedText_adjacent (hchain.mp hjoined) hlast
        rw [show front.length + (joinedText (p :: ps)).length - (last.stop - p.start) = front.length
          by have := hended hcarried last hlast; omega, List.drop_left]
        exact hjoined

lemma hardSplit_aligned {p : Paragraph} (h : p.text <+: body.drop p.start) (cursor : ℕ) :
    ∀ part ∈ hardSplit p.text p.start cursor, part.Aligned body := by
  induction cursor using hardSplit.induct p.text with
  | case1 cursor hlt stop ih =>
    rw [hardSplit, if_pos hlt]
    have hstop : stop ≤ p.text.length ∧ cursor < stop := by
      simp only [stop, maxChars]
      omega
    intro part hpart
    rcases List.mem_cons.mp hpart with rfl | hpart
    · have hover : overlap (charSlice p.text (cursor - overlapChars) stop) (p.start + cursor)
          (p.start + stop) = cursor - (cursor - overlapChars) := by
        simp only [overlap, charSlice, List.length_take, List.length_drop]
        omega
      unfold BodyPart.Aligned
      dsimp only
      rw [hover]
      simp only [charSlice, List.drop_take, List.drop_drop]
      rw [Nat.add_sub_cancel' (Nat.sub_le cursor overlapChars)]
      refine (List.take_prefix _ _).trans ?_
      rw [← List.drop_drop]
      exact h.drop cursor
    · exact ih part hpart
  | case2 cursor hlt =>
    rw [hardSplit, if_neg hlt]
    simp

end Places

/-! The parts of a section are made of the groups. -/

/-- The parts are the pieces of long paragraphs and one part for each group. -/
def Made (ps : List Paragraph) (gs : List Group) (parts : List BodyPart) : Prop :=
  (∀ part ∈ parts, (∃ p ∈ ps, part ∈ hardSplit p.text p.start 0) ∨ ∃ g ∈ gs, Joined part g) ∧
    ∀ g ∈ gs, ∃ part ∈ parts, Joined part g

lemma Made.cons {ps : List Paragraph} {gs : List Group} {parts : List BodyPart} (h : Made ps gs parts)
    (p : Paragraph) : Made (p :: ps) gs parts := by
  refine ⟨fun part hpart => (h.1 part hpart).imp_left ?_, h.2⟩
  rintro ⟨q, hq, hcut⟩
  exact ⟨q, List.mem_cons_of_mem p hq, hcut⟩

lemma Made.append {ps more : List Paragraph} {gs gs' : List Group} {parts parts' : List BodyPart}
    (h : Made ps gs parts) (h' : Made more gs' parts') :
    Made (ps ++ more) (gs ++ gs') (parts ++ parts') := by
  constructor
  · intro part hpart
    rcases List.mem_append.mp hpart with hpart | hpart
    · exact (h.1 part hpart).imp (fun ⟨p, hp, hcut⟩ => ⟨p, List.mem_append_left _ hp, hcut⟩)
        fun ⟨g, hg, hjoined⟩ => ⟨g, List.mem_append_left _ hg, hjoined⟩
    · exact (h'.1 part hpart).imp (fun ⟨p, hp, hcut⟩ => ⟨p, List.mem_append_right _ hp, hcut⟩)
        fun ⟨g, hg, hjoined⟩ => ⟨g, List.mem_append_right _ hg, hjoined⟩
  · intro g hg
    rcases List.mem_append.mp hg with hg | hg
    · exact (h.2 g hg).imp fun part hpart => ⟨List.mem_append_left _ hpart.1, hpart.2⟩
    · exact (h'.2 g hg).imp fun part hpart => ⟨List.mem_append_right _ hpart.1, hpart.2⟩

/-- The open part is that of the open group. -/
structure Grown (b : Building) (g : Group) : Prop where
  text : ∃ front, b.current = front ++ joinedText g.paragraphs ∧ front.length = g.ahead
  chars : b.currentChars = b.current.length
  start : b.start = g.paragraphs.head?.map Paragraph.start
  stop : ∀ last ∈ g.paragraphs.getLast?, b.stop = last.stop
  fresh : g.paragraphs = [] → g.carried = 0
  solid : ∀ p ∈ g.paragraphs, solid p.text ≠ []

section Growing
variable {b : Building} {g : Group}

lemma Grown.size (h : Grown b g) : b.current.length = g.size := by
  obtain ⟨front, htext, hfront⟩ := h.text
  rw [htext, List.length_append, hfront, Group.size]

lemma Grown.solid_current (h : Grown b g) (hne : g.paragraphs ≠ []) :
    Sse.solid b.current ≠ [] := by
  obtain ⟨front, htext, -⟩ := h.text
  obtain ⟨p, ps, hps⟩ := List.exists_cons_of_ne_nil hne
  obtain ⟨rest, hrest⟩ := text_prefix_joinedText p ps
  have hp := h.solid p (by simp [hps])
  rw [htext, hps, ← hrest]
  simp [hp]

lemma Grown.current_eq_nil (h : Grown b g) (hnil : g.paragraphs = []) : b.current = [] := by
  rw [← List.length_eq_zero_iff, h.size, Group.size, Group.ahead, if_pos (h.fresh hnil), hnil]
  rfl

lemma Grown.joined (h : Grown b g) (hne : g.paragraphs ≠ []) : Joined b.part g := by
  refine ⟨h.text, ?_, h.stop⟩
  obtain ⟨p, ps, hps⟩ := List.exists_cons_of_ne_nil hne
  simp [Building.part, h.start, hps]

lemma made_singleton {part : BodyPart} (h : Joined part g) : Made [] [g] [part] :=
  ⟨by simp [h], by simp [h]⟩

lemma Grown.closed (h : Grown b g) : ∃ new, b.closed = b.parts ++ new ∧ Made [] g.close new := by
  unfold Building.closed Group.close
  by_cases hne : g.paragraphs = []
  · rw [h.current_eq_nil hne, if_pos (by decide), if_pos hne]
    exact ⟨[], by simp, by simp [Made]⟩
  · rw [if_neg fun hblank => h.solid_current hne (trim_eq_nil.mp hblank), if_neg hne]
    exact ⟨[b.part], rfl, made_singleton (h.joined hne)⟩

lemma grown_fresh (parts : List BodyPart) (stop : ℕ) : Grown ⟨parts, [], 0, none, stop⟩ ⟨0, []⟩ :=
  ⟨⟨[], rfl, rfl⟩, rfl, rfl, by simp, fun _ => rfl, by simp⟩

lemma Grown.append (h : Grown b g) {p : Paragraph} (hp : Sse.solid p.text ≠ []) :
    Grown (b.append p) ⟨g.carried, g.paragraphs ++ [p]⟩ := by
  have hchars := (append_current b p).2.2.2 h.chars
  refine ⟨?_, hchars, ?_, by simp [Building.append], by simp, ?_⟩
  · obtain ⟨front, htext, hfront⟩ := h.text
    refine ⟨front, ?_, hfront⟩
    by_cases hne : g.paragraphs = []
    · have hcurrent := h.current_eq_nil hne
      rw [hcurrent] at htext
      simp [Building.append, hcurrent, hne, joinedText_singleton, List.append_eq_nil_iff.mp htext.symm]
    · have hcurrent : b.current ≠ [] := fun hnil => h.solid_current hne (by rw [hnil, solid_nil])
      simp only [Building.append, if_neg hcurrent, joinedText_concat hne]
      rw [htext]
      simp only [List.append_assoc]
  · simp only [Building.append, h.start]
    cases g.paragraphs <;> rfl
  · intro q hq
    rcases List.mem_append.mp hq with hq | hq
    · exact h.solid q hq
    · rwa [List.mem_singleton.mp hq]

lemma Grown.turn (h : Grown b g) (hne : g.paragraphs ≠ []) {p : Paragraph}
    (hp : Sse.solid p.text ≠ []) :
    Grown (b.turn.append p) ⟨min overlapChars g.size, [p]⟩ := by
  have hcurrent : b.current ≠ [] := fun hnil => h.solid_current hne (by rw [hnil, solid_nil])
  have hpos := List.length_pos_iff.mpr hcurrent
  have htail : (tailChars b.current overlapChars).length = min overlapChars g.size := by
    rw [tailChars, List.length_drop, ← h.size]
    omega
  have hcarried : min overlapChars g.size ≠ 0 := by
    rw [← h.size]
    simp only [overlapChars]
    omega
  have hturn : b.turn.current ≠ [] := by
    rw [← List.length_pos_iff]
    simp only [Building.turn, htail]
    omega
  have hchars : b.turn.currentChars = b.turn.current.length := by simp only [Building.turn]
  refine ⟨⟨b.turn.current ++ ['\n', '\n'], ?_, ?_⟩, (append_current b.turn p).2.2.2 hchars,
    by simp [Building.append, Building.turn], by simp [Building.append], by simp, by simpa using hp⟩
  · simp only [Building.append, if_neg hturn, joinedText_singleton]
  · rw [List.length_append, Group.ahead, if_neg hcarried]
    simp only [Building.turn, htail]
    rfl

/-- Behind the parts that there are, the loop makes one part of each group. -/
lemma Grown.run {ps : List Paragraph} (h : Grown b g) (hps : ∀ p ∈ ps, Sse.solid p.text ≠ []) :
    ∃ new, (ps.foldl Building.paragraph b).closed = b.parts ++ new ∧ Made ps (g.groups ps) new := by
  induction ps generalizing b g with
  | nil => exact h.closed
  | cons p ps ih =>
    obtain ⟨hp, hps⟩ := List.forall_mem_cons.mp hps
    have hopen : b.current ≠ [] ↔ g.paragraphs ≠ [] :=
      ⟨fun hne hnil => hne (h.current_eq_nil hnil), fun hne hnil =>
        h.solid_current hne (by rw [hnil, solid_nil])⟩
    rw [List.foldl_cons, Group.groups, Building.paragraph, h.chars, h.size]
    simp only [hopen]
    split_ifs with hlong hfull
    · obtain ⟨old, hclosed, hmade⟩ := h.closed
      obtain ⟨new, hnew, hrest⟩ := ih (grown_fresh (b.closed ++ hardSplit p.text p.start 0) p.stop) hps
      have hcut : Made [p] [] (hardSplit p.text p.start 0) := ⟨by simp, by simp⟩
      refine ⟨old ++ (hardSplit p.text p.start 0 ++ new), ?_, hmade.append (hcut.append hrest)⟩
      rw [Building.cut, hnew, hclosed]
      simp only [List.append_assoc]
    · obtain ⟨new, hnew, hrest⟩ := ih (h.turn hfull.2 hp) hps
      refine ⟨b.part :: new, ?_, ?_⟩
      · rw [hnew]
        simp [Building.append, Building.turn]
      · exact ((made_singleton (h.joined hfull.2)).append hrest).cons p
    · obtain ⟨new, hnew, hrest⟩ := ih (h.append hp) hps
      exact ⟨new, hnew, hrest.cons p⟩

lemma close_within (rest : List Paragraph) :
    ∀ g' ∈ g.close, g'.paragraphs ≠ [] ∧ g'.paragraphs <:+: g.paragraphs ++ rest := by
  unfold Group.close
  split
  · simp
  · next hne => simpa [hne] using (List.prefix_append _ _).isInfix

lemma groups_within {ps : List Paragraph} :
    ∀ g' ∈ g.groups ps, g'.paragraphs ≠ [] ∧ g'.paragraphs <:+: g.paragraphs ++ ps := by
  induction ps generalizing g with
  | nil => exact close_within []
  | cons p ps ih =>
    have hrest : ∀ front : List Paragraph, ps <:+: front ++ p :: ps := fun front =>
      ((List.suffix_cons p ps).trans (List.suffix_append _ _)).isInfix
    rw [Group.groups]
    intro g' hg'
    split_ifs at hg' with hlong hfull
    · rcases List.mem_append.mp hg' with hg' | hg'
      · exact close_within _ g' hg'
      · exact ⟨(ih g' hg').1, (ih g' hg').2.trans (hrest _)⟩
    · rcases List.mem_cons.mp hg' with rfl | hg'
      · exact ⟨hfull.2, (List.prefix_append _ _).isInfix⟩
      · exact ⟨(ih g' hg').1, (ih g' hg').2.trans (List.suffix_append _ _).isInfix⟩
    · simpa using ih g' hg'

end Growing

lemma aligned_section_iff {body : Text} (h : maxChars < body.length) :
    (∀ part ∈ splitSectionBody body, trim part.text ≠ [] → part.Aligned body) ↔
      ∀ g ∈ Group.groups ⟨0, []⟩ (paragraphSpans body), g.Regular body := by
  obtain ⟨hspaced, hgap⟩ := paragraphSpans_spaced body
  obtain ⟨hnext, hfollows⟩ := hspaced.next hgap
  obtain ⟨parts, hparts, hmade⟩ := (grown_fresh [] 0).run fun p hp => (hfollows p hp).text
  have hsplit : splitSectionBody body = parts := by
    rw [splitSectionBody, if_neg (Nat.not_le.mpr h), hparts, List.nil_append]
  have hiff : ∀ part, ∀ g ∈ Group.groups ⟨0, []⟩ (paragraphSpans body), Joined part g →
      (part.Aligned body ↔ g.Regular body) := fun part g hg hjoined => by
    have hwithin := (groups_within g hg).2
    have hchain := List.IsChain.infix hnext hwithin
    exact hjoined.aligned_iff (fun q hq => hfollows q (hwithin.subset hq)) hchain
  rw [hsplit]
  constructor
  · intro haligned g hg
    obtain ⟨part, hpart, hjoined⟩ := hmade.2 g hg
    refine (hiff part g hg hjoined).mp (haligned part hpart fun hblank => ?_)
    -- The part has the solid characters of its paragraphs.
    obtain ⟨hne, hwithin⟩ := groups_within g hg
    obtain ⟨p, ps, hps⟩ := List.exists_cons_of_ne_nil hne
    obtain ⟨rest, hrest⟩ := text_prefix_joinedText p ps
    obtain ⟨front, htext, -⟩ := hjoined.text
    rw [trim_eq_nil, htext, hps, ← hrest] at hblank
    have hsolid := (hfollows p (hwithin.subset (by simp [hps]))).text
    simp [hsolid] at hblank
  · intro hregular part hpart _
    rcases hmade.1 part hpart with ⟨p, hp, hcut⟩ | ⟨g, hg, hjoined⟩
    · exact hardSplit_aligned (hfollows p hp).here 0 part hcut
    · exact (hiff part g hg hjoined).mpr (hregular g hg)

/-! The highlights of a chunk. -/

lemma hits_skip (lower : Char → List Char) (needle : Text) {skip : ℕ} {rest : Text}
    (h : rest.length ≤ skip) (pos : ℕ) : hits lower needle pos skip rest = [] := by
  induction rest generalizing pos skip with
  | nil => simp [hits]
  | cons c rest ih =>
    cases skip with
    | zero => exact absurd h (by simp)
    | succ skip => exact ih (Nat.le_of_succ_le_succ h) (pos + 1)

lemma findSpans_self (lower : Char → List Char) {text : Text} (h : text ≠ []) :
    findSpans lower text [text] = [⟨0, text.length⟩] := by
  have hhit : isHit lower text text = true := by
    simp only [isHit, le_refl, decide_true, Bool.true_and, List.all_eq_true]
    intro c hc
    have hsame : c.1 = c.2 := by
      obtain ⟨i, hi, rfl⟩ := List.mem_iff_getElem.mp hc
      simp
    simp [charsEqIgnoreCase, hsame]
  obtain ⟨c, rest, rfl⟩ := List.exists_cons_of_ne_nil h
  have hhits : hits lower (c :: rest) 0 0 (c :: rest) = [⟨0, (c :: rest).length⟩] := by
    rw [hits, if_pos hhit, hits_skip lower _ (by simp), Nat.zero_add]
  simp [findSpans, hhits, mergeSpans, mergeFrom, mergeInto, maxSpans]

/-- All highlights of a chunk are right exactly if the note has its text behind the overlap. -/
lemma points_iff (lower : Char → List Char) (s : Text) (c : Chunk) :
    (∀ terms, Points lower s c terms) ↔
      c.body.drop (overlap c.body c.charStart c.charEnd) <+: s.drop c.charStart := by
  constructor
  · intro h
    by_cases hlong : overlap c.body c.charStart c.charEnd < c.body.length
    · have hbody : c.body ≠ [] := List.ne_nil_of_length_pos (Nat.zero_lt_of_lt hlong)
      have hself := h [c.body]
      unfold Points toSourceSpans at hself
      rw [findSpans_self lower hbody] at hself
      obtain ⟨-, -, span, hspan, -, heq⟩ := hself
        (Span.toSource ⟨0, c.body.length⟩ c.charStart (overlap c.body c.charStart c.charEnd))
        (by simp [Span.toSource, hlong])
      obtain rfl := List.mem_singleton.mp hspan
      simp only [Span.toSource, charSlice, Nat.zero_sub, Nat.add_zero, Nat.zero_max,
        Nat.add_sub_cancel_left] at heq
      rw [List.take_of_length_le (by simp : (c.body.drop _).length ≤ _)] at heq
      rw [← heq]
      exact List.take_prefix _ _
    · rw [List.drop_eq_nil_of_le (Nat.not_lt.mp hlong)]
      exact List.nil_prefix
  · intro h terms mapped hmapped
    simp only [toSourceSpans, List.mem_filter, List.mem_map, decide_eq_true_eq] at hmapped
    obtain ⟨⟨span, hspan, rfl⟩, hlt⟩ := hmapped
    have hstop := findSpans_stop lower c.body terms span hspan
    refine ⟨Nat.le_add_right _ _, ?_, span, hspan, rfl, charSlice_toSource h hstop⟩
    simp only [Span.toSource, overlap] at hlt ⊢
    omega

lemma Tiled.sits {body : Text} {parts : List BodyPart} {a b : ℕ} (h : Tiled body a parts b) :
    ∀ part ∈ parts, Sits body part := by
  induction parts generalizing a with
  | nil => simp
  | cons part parts ih => exact List.forall_mem_cons.mpr ⟨h.1.2.2, ih h.2⟩

lemma aligned_chunk_iff {s : Text} {sect : Section} {part : BodyPart}
    (h : Sits (charSlice s sect.start sect.stop) part) (lower : Char → List Char) :
    (∀ terms, Points lower s (chunkOf sect part) terms) ↔
      part.Aligned (charSlice s sect.start sect.stop) := by
  have hstart := h.start
  have hstop := h.stop.trans (List.length_take_le _ _)
  rw [points_iff]
  simp only [chunkOf, BodyPart.Aligned, overlap, charSlice, List.drop_take, List.drop_drop,
    Nat.add_sub_add_left, List.prefix_take_iff, List.length_drop]
  exact (and_iff_left (by omega)).symm

/-- The highlights of a note point at what was found, in each chunk and for all terms, exactly if the
paragraphs of its chunks lie regularly. -/
theorem highlights_point_iff (lower : Char → List Char) (s : Text) :
    (∀ c ∈ split s, ∀ terms, Points lower s c terms) ↔ Even s := by
  have hsits : ∀ sect : Section, trim (charSlice s sect.start sect.stop) ≠ [] →
      ∀ part ∈ splitSectionBody (charSlice s sect.start sect.stop),
        Sits (charSlice s sect.start sect.stop) part := fun sect htrim =>
    (splitSectionBody_tiled fun hnil => htrim (by rw [hnil]; rfl)).sits
  have hmem : ∀ c, c ∈ split s ↔ ∃ sect ∈ sections s, c ∈ sectionChunks s sect := fun c =>
    List.mem_flatMap
  constructor
  · intro h sect hsect
    dsimp only
    intro htrim hlong
    refine (aligned_section_iff hlong).mp fun part hpart htext => ?_
    refine (aligned_chunk_iff (hsits sect htrim part hpart) lower).mp
      (h _ ((hmem _).mpr ⟨sect, hsect, ?_⟩))
    rw [sectionChunks, if_neg htrim]
    exact List.mem_map_of_mem (List.mem_filter.mpr ⟨hpart, decide_eq_true htext⟩)
  · intro h c hc
    obtain ⟨sect, hsect, hc⟩ := (hmem c).mp hc
    unfold sectionChunks at hc
    dsimp only at hc
    split at hc
    · exact absurd hc List.not_mem_nil
    · next htrim =>
      obtain ⟨part, hpart, rfl⟩ := List.mem_map.mp hc
      obtain ⟨hpart, htext⟩ := List.mem_filter.mp hpart
      refine (aligned_chunk_iff (hsits sect htrim part hpart) lower).mpr ?_
      by_cases hlong : maxChars < (charSlice s sect.start sect.stop).length
      · exact (aligned_section_iff hlong).mpr (h sect hsect htrim hlong) part hpart
          (of_decide_eq_true htext)
      · rw [splitSectionBody, if_pos (Nat.not_lt.mp hlong)] at hpart
        rw [List.mem_singleton.mp hpart]
        simp [BodyPart.Aligned, overlap]

def asciiLower (c : Char) : List Char := [c.toLower]

def unendedNote : Text := List.replicate 1400 'a' ++ ['\n', '\n', 'b'] ++ List.replicate 99 'c'

theorem points_unended : (split unendedNote).map Chunk.charStart = [0, 1402] ∧
    ∀ c ∈ split unendedNote, ∀ terms, Points asciiLower unendedNote c terms := by
  have heven : Even unendedNote := by decide +kernel
  exact ⟨by decide +kernel, (highlights_point_iff asciiLower unendedNote).mpr heven⟩

/-- With a line feed behind it the last paragraph is one character wider than its text, and the
highlight of its first character falls on the second. -/
theorem not_points_ended :
    ¬ ∀ c ∈ split (unendedNote ++ ['\n']),
      Points asciiLower (unendedNote ++ ['\n']) c [['b']] := by
  decide +kernel

end Aeroric.Highlights
