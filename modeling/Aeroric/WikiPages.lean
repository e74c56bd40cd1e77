import Aeroric.Sse
import Mathlib.Algebra.Order.BigOperators.Group.List
import Mathlib.Algebra.Order.Group.Nat
import Mathlib.Data.List.Perm.Basic
import Mathlib.Tactic.Common

/-! The pages of a project's Wiki as Markdown: how a page is shown, and when the sections of what is
shown are the blocks of the page again. -/
namespace Aeroric.WikiEdits

open Sse (trim trimEnd lines stripPrefix isWhitespace solid solid_append solid_rdropWhile solid_trim)

abbrev Text := List Char

inductive PageKind
  | index
  | decision
  | runbook
  deriving DecidableEq

inductive SourceKind
  | note
  | memory
  | skill
  deriving DecidableEq

structure SourceRef where
  kind : SourceKind
  target : Text
  label : Text
  deriving DecidableEq

structure Block where
  key : Text
  heading : Option Text
  text : Text
  source : Option SourceRef
  userEdited : Bool
  compiledHash : Text
  deriving DecidableEq

structure Page where
  slug : Text
  kind : PageKind
  title : Text
  status : Option Text
  category : Option Text
  blocks : List Block
  revision : ℕ
  updatedMs : ℕ
  titleEdited : Bool
  compiledTitle : Option Text
  deriving DecidableEq

/-- A block that the user has emptied is not shown. -/
def Block.hidden (b : Block) : Bool := b.text = [] && b.userEdited

def renderBlock (b : Block) : Text :=
  if b.hidden then []
  else
    '\n' :: (match b.heading with
      | some heading => ['#', '#', ' '] ++ heading ++ ['\n', '\n']
      | none => []) ++ trimEnd b.text ++ ['\n']

def render (page : Page) : Text :=
  ['#', ' '] ++ page.title ++ ['\n'] ++ page.blocks.flatMap renderBlock

abbrev Section := Option Text × Text

/-- The sections of the lines, the first one open with what it has. Only before the first heading
there is none, and there a title may open the text. -/
def splitSections (heading : Option Text) (body : List Text) :
    List Text → List (Option Text × List Text)
  | [] => [(heading, body)]
  | line :: rest =>
    match stripPrefix ['#', '#', ' '] line with
    | some next => (heading, body) :: splitSections (some (trim next)) [] rest
    | none =>
      if ['#', ' '].isPrefixOf line = true ∧ heading = none ∧ body = [] then
        splitSections heading body rest
      else splitSections heading (body ++ [line]) rest

def joined (body : List Text) : Text := ['\n'].intercalate body

def sections (markdown : Text) : List Section :=
  ((splitSections none [] (lines markdown)).map fun s => (s.1, trim (joined s.2))).filter
    fun s => s.1.isSome || s.2 ≠ []

/-! When a page is read as it was written. -/

def visible (blocks : List Block) : List Block := blocks.filter fun b => !b.hidden

/-- One line, without white space around it. -/
def PlainLine (line : Text) : Prop := '\n' ∉ line ∧ trim line = line

/-- No line of the text opens a section. -/
def Unmarked (text : Text) : Prop :=
  ∀ line ∈ (trimEnd text).splitOn '\n', ['#', '#', ' '].isPrefixOf line = false

/-- Nor does one inside it end with a carriage return. -/
def PlainText (text : Text) : Prop :=
  Unmarked text ∧ ∀ line ∈ (trim text).splitOn '\n', line.getLast? ≠ some '\r'

instance (line : Text) : Decidable (PlainLine line) := inferInstanceAs (Decidable (_ ∧ _))

instance (text : Text) : Decidable (PlainText text) :=
  inferInstanceAs (Decidable ((∀ line ∈ _, _) ∧ ∀ line ∈ _, _))

/-- Headings are single lines, no text has a heading in it, and only the first block may be without
a heading, and then not blank. -/
structure Reads (blocks : List Block) : Prop where
  headings : ∀ b ∈ blocks, ∀ heading ∈ b.heading, PlainLine heading
  texts : ∀ b ∈ blocks, PlainText b.text
  first : ∀ b ∈ blocks.tail, b.heading ≠ none
  intro : ∀ b ∈ blocks, b.heading = none → trim b.text ≠ []

/-! The lines of a page. -/

/-- A line without the carriage return at its end. -/
def chop (line : Text) : Text := if line.getLast? = some '\r' then line.dropLast else line

lemma chop_eq_self_iff {line : Text} : chop line = line ↔ line.getLast? ≠ some '\r' := by
  unfold chop
  split
  · next hlast =>
    refine ⟨fun h => ?_, fun h => absurd hlast h⟩
    have hlength := congrArg List.length h
    have hpos : 0 < line.length := List.length_pos_iff.mpr fun hnil => by simp [hnil] at hlast
    rw [List.length_dropLast] at hlength
    omega
  · next hlast => exact ⟨fun _ => hlast, fun _ => rfl⟩

lemma chop_sublist (line : Text) : (chop line).Sublist line := by
  unfold chop
  split
  · exact List.dropLast_sublist line
  · exact .refl line

lemma isPrefixOf_chop {front : Text} (hfront : '\r' ∉ front) (line : Text) :
    front.isPrefixOf (chop line) = front.isPrefixOf line := by
  unfold chop
  split
  · next hlast =>
    obtain ⟨start, rfl⟩ := List.getLast?_eq_some_iff.mp hlast
    rw [List.dropLast_concat, Bool.eq_iff_iff, List.isPrefixOf_iff_prefix,
      List.isPrefixOf_iff_prefix, List.prefix_concat_iff]
    refine ⟨.inr, fun h => h.resolve_left fun heq => hfront ?_⟩
    rw [heq]
    exact List.mem_append_right _ List.mem_cons_self
  · rfl

lemma lines_eq (text : Text) : ∃ front last, text.splitOn '\n' = front ++ [last] ∧
    lines text = front.map chop ++ if last = [] then [] else [last] := by
  obtain ⟨front, last, hlast⟩ :=
    (List.eq_nil_or_concat' (text.splitOn '\n')).resolve_left (List.splitOn_ne_nil _ _)
  refine ⟨front, last, hlast, ?_⟩
  unfold lines
  rw [hlast]
  simp only [List.dropLast_concat, List.getLast?_concat]
  cases last <;> simp [chop]

lemma lines_append (text rest : Text) :
    lines (text ++ '\n' :: rest) = (text.splitOn '\n').map chop ++ lines rest := by
  obtain ⟨front, last, hlast, hlines⟩ := lines_eq rest
  obtain ⟨front', last', hlast', hlines'⟩ := lines_eq (text ++ '\n' :: rest)
  rw [List.splitOn_append_cons_self, hlast, ← List.append_assoc] at hlast'
  obtain ⟨rfl, hsame⟩ := List.append_inj' hlast' rfl
  rw [hlines', hlines, List.map_append, List.append_assoc, List.singleton_inj.mp hsame]

lemma notMem_lines {text line : Text} (h : line ∈ lines text) : '\n' ∉ line := by
  have hparts := Sse.notMem_splitOn '\n' text
  obtain ⟨front, last, hlast, hlines⟩ := lines_eq text
  rw [hlast] at hparts
  rw [hlines] at h
  rcases List.mem_append.mp h with h | h
  · obtain ⟨part, hpart, rfl⟩ := List.mem_map.mp h
    exact fun hmem => hparts part (List.mem_append_left _ hpart) ((chop_sublist part).subset hmem)
  · split at h
    · cases h
    · rw [List.mem_singleton.mp h]
      exact hparts _ (List.mem_append_right _ List.mem_cons_self)

lemma trim_sublist (text : Text) : (trim text).Sublist text :=
  (List.rdropWhile_prefix _ _).sublist.trans (List.dropWhile_suffix _).sublist

lemma last_of_trimmed {front : Text} {c : Char} (h : trim (front ++ [c]) = front ++ [c]) :
    isWhitespace c = false := by
  by_contra hc
  rw [Sse.trim_concat (by simpa using hc)] at h
  have hle := (trim_sublist front).length_le
  rw [h, List.length_append] at hle
  exact absurd hle (by simp)

def Block.lines (b : Block) : List Text :=
  [] :: (match b.heading with
    | some heading => [['#', '#', ' '] ++ heading, []]
    | none => []) ++ ((trimEnd b.text).splitOn '\n').map chop

def Block.section (b : Block) : Section := (b.heading, trim b.text)

lemma visible_cons_hidden {b : Block} (h : b.hidden = true) (blocks : List Block) :
    visible (b :: blocks) = visible blocks :=
  List.filter_cons_of_neg (by simp [h])

lemma visible_cons_shown {b : Block} (h : b.hidden = false) (blocks : List Block) :
    visible (b :: blocks) = b :: visible blocks :=
  List.filter_cons_of_pos (by simp [h])

lemma hidden_of_visible {blocks : List Block} {b : Block} (h : b ∈ visible blocks) :
    b.hidden = false := by
  simpa using (List.mem_filter.mp h).2

lemma render_eq (page : Page) :
    render page = (['#', ' '] ++ page.title) ++ '\n' ::
      (visible page.blocks).flatMap renderBlock := by
  have hblocks : ∀ blocks : List Block,
      blocks.flatMap renderBlock = (visible blocks).flatMap renderBlock := by
    intro blocks
    induction blocks with
    | nil => rfl
    | cons b blocks ih =>
      cases hb : b.hidden with
      | true => rw [visible_cons_hidden hb, ← ih, List.flatMap_cons, renderBlock, hb]; rfl
      | false => rw [visible_cons_shown hb, List.flatMap_cons, List.flatMap_cons, ih]
  rw [render, hblocks, List.append_assoc, List.singleton_append]

lemma splitOn_of_notMem {line : Text} (h : '\n' ∉ line) : line.splitOn '\n' = [line] := by
  simpa using List.splitOn_intercalate '\n' (List.forall_mem_singleton.mpr h)
    (List.cons_ne_nil line [])

lemma lines_render {page : Page} (htitle : '\n' ∉ page.title) :
    lines (render page) = chop (['#', ' '] ++ page.title) ::
      lines ((visible page.blocks).flatMap renderBlock) := by
  have hline : '\n' ∉ ['#', ' '] ++ page.title := by simpa using htitle
  rw [render_eq, lines_append, splitOn_of_notMem hline]
  rfl

/-! The sections of a text. -/

def tidy (s : Option Text × List Text) : Section := (s.1, trim (joined s.2))

lemma sections_eq (markdown : Text) :
    sections markdown = ((splitSections none [] (lines markdown)).map tidy).filter
      fun s => s.1.isSome || s.2 ≠ [] := rfl

lemma splitSections_headings (heading : Option Text) (body ls : List Text) :
    (splitSections heading body ls).map Prod.fst =
      heading :: (ls.filterMap (stripPrefix ['#', '#', ' '])).map fun next => some (trim next) := by
  induction ls generalizing heading body with
  | nil => rfl
  | cons line ls ih =>
    rw [splitSections]
    split
    · next next hnext => rw [List.map_cons, ih, List.filterMap_cons_some hnext, List.map_cons]
    · next hnext =>
      rw [List.filterMap_cons_none hnext]
      split <;> exact ih _ _

lemma sections_trimmed {markdown : Text} {s : Section} (h : s ∈ sections markdown) :
    trim s.2 = s.2 := by
  obtain ⟨part, -, rfl⟩ := List.mem_map.mp (List.mem_of_mem_filter h)
  exact Sse.trim_trim _

lemma sections_intro {markdown : Text} {s : Section} (h : s ∈ sections markdown)
    (hnone : s.1 = none) : s.2 ≠ [] := by
  have hkept := (List.mem_filter.mp h).2
  simpa [hnone] using hkept

lemma sections_heading {markdown : Text} {s : Section} (h : s ∈ sections markdown) {heading : Text}
    (hheading : s.1 = some heading) : PlainLine heading := by
  obtain ⟨part, hpart, rfl⟩ := List.mem_map.mp (List.mem_of_mem_filter h)
  have hmem := List.mem_map_of_mem (f := Prod.fst) hpart
  rw [splitSections_headings, show part.1 = some heading from hheading] at hmem
  obtain ⟨next, hnext, heq⟩ := List.mem_map.mp
    (List.mem_of_ne_of_mem (Option.some_ne_none heading) hmem)
  obtain ⟨line, hline, hstrip⟩ := List.mem_filterMap.mp hnext
  obtain rfl := Option.some.inj heq
  unfold stripPrefix at hstrip
  split at hstrip
  · obtain rfl := Option.some.inj hstrip
    exact ⟨fun hmem => notMem_lines hline
      (List.mem_of_mem_drop ((trim_sublist _).subset hmem)), Sse.trim_trim _⟩
  · exact absurd hstrip nofun

lemma sections_tail {markdown : Text} {s : Section} (h : s ∈ (sections markdown).tail) :
    s.1 ≠ none := by
  have hheadings := splitSections_headings none [] (lines markdown)
  rw [sections_eq] at h
  cases hparts : splitSections none [] (lines markdown) with
  | nil => simp [hparts] at h
  | cons part parts =>
    rw [hparts, List.map_cons] at hheadings
    have hsome : ∀ s ∈ parts.map tidy, s.1 ≠ none := by
      intro s hs
      obtain ⟨other, hother, rfl⟩ := List.mem_map.mp hs
      have hmem := List.mem_map_of_mem (f := Prod.fst) hother
      rw [(List.cons.inj hheadings).2] at hmem
      obtain ⟨next, -, heq⟩ := List.mem_map.mp hmem
      exact fun hnone => absurd (heq.trans hnone) nofun
    rw [hparts, List.map_cons, List.filter_cons] at h
    split at h
    · exact hsome s (List.mem_of_mem_filter h)
    · exact hsome s (List.mem_of_mem_filter (List.mem_of_mem_tail h))

/-! What is written down stays: every character that is not white space. -/

lemma solid_cons {c : Char} (h : isWhitespace c = true) (text : Text) : solid (c :: text) = solid text :=
  List.filter_cons_of_neg (by simp [h])

lemma solid_concat {c : Char} (h : isWhitespace c = true) (text : Text) :
    solid (text ++ [c]) = solid text := by
  rw [solid_append, solid_cons h]
  exact List.append_nil _

lemma solid_chop (line : Text) : solid (chop line) = solid line := by
  unfold chop
  split
  · next hlast =>
    obtain ⟨front, rfl⟩ := List.getLast?_eq_some_iff.mp hlast
    rw [List.dropLast_concat, solid_concat rfl]
  · rfl

lemma solid_joined (body : List Text) : solid (joined body) = body.flatMap solid := by
  induction body with
  | nil => rfl
  | cons line body ih =>
    cases body with
    | nil => simp [joined]
    | cons next body =>
      rw [joined, List.intercalate_cons_cons, List.append_assoc, solid_append, List.singleton_append,
        solid_cons rfl, ← joined, ih]
      simp only [List.flatMap_cons]

lemma solid_lines (text : Text) : (lines text).flatMap solid = solid text := by
  obtain ⟨front, last, hlast, hlines⟩ := lines_eq text
  have htext : joined (text.splitOn '\n') = text := List.intercalate_splitOn _
  have hchop : (front.map chop).flatMap solid = front.flatMap solid := by
    rw [List.flatMap_map]
    exact List.flatMap_congr fun line _ => solid_chop line
  have hwhole := solid_joined (text.splitOn '\n')
  rw [htext, hlast, List.flatMap_append, List.flatMap_singleton] at hwhole
  rw [hwhole, hlines, List.flatMap_append, hchop]
  split
  · next hnil => simp [hnil, solid]
  · rw [List.flatMap_singleton]

def solidSection (s : Section) : Text :=
  (match s.1 with
    | some heading => ['#', '#'] ++ solid heading
    | none => []) ++ solid s.2

lemma splitSections_solid {heading : Option Text} {body : List Text}
    (hopen : heading ≠ none ∨ body ≠ []) (ls : List Text) :
    ((splitSections heading body ls).map tidy).flatMap solidSection =
      solidSection (tidy (heading, body)) ++ ls.flatMap solid := by
  induction ls generalizing heading body with
  | nil => simp [splitSections]
  | cons line ls ih =>
    rw [splitSections]
    split
    · next next hnext =>
      have hline : solid line = ['#', '#'] ++ solid next := by
        unfold stripPrefix at hnext
        split at hnext
        · next hmark =>
          obtain ⟨rest, rfl⟩ := List.isPrefixOf_iff_prefix.mp hmark
          obtain rfl := Option.some.inj hnext
          rfl
        · exact absurd hnext nofun
      rw [List.map_cons, List.flatMap_cons, ih (.inl (Option.some_ne_none _)),
        List.flatMap_cons, hline]
      simp [solidSection, tidy, solid_trim, solid_joined]
    · rw [if_neg fun h => hopen.elim (fun hne => hne h.2.1) fun hne => hne h.2.2,
        ih (.inr (by simp)), List.flatMap_cons]
      simp [solidSection, tidy, solid_trim, solid_joined]

lemma flatMap_filter_solidSection (parts : List Section) :
    (parts.filter fun s => s.1.isSome || s.2 ≠ []).flatMap solidSection = parts.flatMap solidSection := by
  induction parts with
  | nil => rfl
  | cons s parts ih =>
    rw [List.filter_cons]
    split
    · rw [List.flatMap_cons, List.flatMap_cons, ih]
    · next hs =>
      obtain ⟨hnone, hempty⟩ : s.1 = none ∧ s.2 = [] := by simpa using hs
      rw [ih, List.flatMap_cons, solidSection, hnone, hempty]
      rfl

lemma solid_renderBlock {b : Block} (h : b.hidden = false) : solid (renderBlock b) = solidSection b.section := by
  unfold renderBlock solidSection Block.section
  rw [h, if_neg Bool.false_ne_true, List.cons_append, List.cons_append, solid_cons rfl, solid_concat rfl,
    solid_append, trimEnd, solid_rdropWhile (fun _ h => h), solid_trim]
  cases b.heading with
  | none => rfl
  | some heading =>
    rw [List.append_assoc, solid_append, solid_append, show solid ['\n', '\n'] = [] from rfl,
      List.append_nil]
    rfl

lemma splitSections_title (title : Text) (ls : List Text) :
    splitSections none [] (chop (['#', ' '] ++ title) :: ls) = splitSections none [] ls := by
  have hmark : ['#', '#', ' '].isPrefixOf (chop (['#', ' '] ++ title)) = false := by
    rw [isPrefixOf_chop (by decide)]
    rfl
  have htitle : ['#', ' '].isPrefixOf (chop (['#', ' '] ++ title)) = true := by
    rw [isPrefixOf_chop (by decide)]
    rfl
  rw [splitSections, stripPrefix, hmark]
  simp only [Bool.false_eq_true, if_false, htitle, and_self, if_true]

lemma splitSections_blank (heading : Option Text) (body rest : List Text) :
    splitSections heading body ([] :: rest) = splitSections heading (body ++ [[]]) rest := by
  simp [splitSections, stripPrefix]

/-- The blocks that are shown and the sections that are read hold the same writing. -/
lemma sections_solidSection {page : Page} (htitle : '\n' ∉ page.title) :
    (sections (render page)).flatMap solidSection =
      ((visible page.blocks).map Block.section).flatMap solidSection := by
  have hblocks : solid ((visible page.blocks).flatMap renderBlock) =
      ((visible page.blocks).map Block.section).flatMap solidSection := by
    rw [solid, List.filter_flatMap, List.flatMap_map]
    exact List.flatMap_congr fun b hb => solid_renderBlock (hidden_of_visible hb)
  rw [sections_eq, flatMap_filter_solidSection, lines_render htitle, splitSections_title, ← hblocks]
  cases hshown : visible page.blocks with
  | nil => rfl
  | cons b blocks =>
    have hb := hidden_of_visible (hshown ▸ List.mem_cons_self)
    obtain ⟨text, htext⟩ : ∃ text, renderBlock b = '\n' :: text := by
      unfold renderBlock
      rw [hb, if_neg Bool.false_ne_true]
      exact ⟨_, rfl⟩
    rw [List.flatMap_cons, htext, List.cons_append, solid_cons rfl]
    have hline := lines_append [] (text ++ blocks.flatMap renderBlock)
    rw [List.nil_append] at hline
    rw [hline]
    simp only [List.splitOn_nil, List.map_cons, List.map_nil, List.singleton_append]
    rw [show chop [] = [] from rfl, splitSections_blank, splitSections_solid (.inr (by simp)), solid_lines]
    rfl

/-! A text as it is read: without the carriage returns before its line feeds. -/

def unify (text : Text) : Text := joined ((text.splitOn '\n').map chop)

lemma unify_eq_self_iff {text : Text} :
    unify text = text ↔ ∀ line ∈ text.splitOn '\n', line.getLast? ≠ some '\r' := by
  have hjoined : joined (text.splitOn '\n') = text := List.intercalate_splitOn _
  constructor
  · intro h line hline
    have hlines : ∀ line ∈ (text.splitOn '\n').map chop, '\n' ∉ line := by
      intro line hline
      obtain ⟨part, hpart, rfl⟩ := List.mem_map.mp hline
      exact fun hmem => Sse.notMem_splitOn '\n' text part hpart ((chop_sublist part).subset hmem)
    have hsplit : (unify text).splitOn '\n' = (text.splitOn '\n').map chop :=
      List.splitOn_intercalate _ hlines (by simp [List.splitOn_ne_nil])
    rw [h] at hsplit
    have hsame := List.map_inj_left.mp (hsplit.symm.trans (List.map_id _).symm)
    exact chop_eq_self_iff.mp (hsame line hline)
  · intro h
    rw [unify, List.map_congr_left fun line hline => chop_eq_self_iff.mpr (h line hline),
      List.map_id', hjoined]

lemma joined_cons_cons (c : Char) (line : Text) (body : List Text) :
    joined ((c :: line) :: body) = c :: joined (line :: body) := by
  cases body <;> simp [joined]

lemma unify_cons (c : Char) (text : Text) :
    unify (c :: text) = c :: unify text ∨ c = '\r' ∧ unify (c :: text) = unify text := by
  obtain ⟨first, rest, hsplit⟩ := List.exists_cons_of_ne_nil (List.splitOn_ne_nil '\n' text)
  unfold unify
  rw [Sse.splitOn_cons, hsplit]
  by_cases hc : c = '\n'
  · refine .inl ?_
    rw [if_pos hc, hc]
    simp [joined, chop]
  · rw [if_neg hc, List.modifyHead_cons, List.map_cons, List.map_cons]
    cases first with
    | nil =>
      by_cases hreturn : c = '\r'
      · exact .inr ⟨hreturn, by simp [chop, hreturn]⟩
      · have hchop : chop [c] = c :: chop [] := by simp [chop, hreturn]
        exact .inl (by rw [hchop, joined_cons_cons])
    | cons d first =>
      have hchop : chop (c :: d :: first) = c :: chop (d :: first) := by
        unfold chop
        rw [List.getLast?_cons_cons, List.dropLast_cons_cons]
        split <;> rfl
      exact .inl (by rw [hchop, joined_cons_cons])

lemma unify_length (text : Text) :
    (unify text).length ≤ text.length ∧ ((unify text).length = text.length → unify text = text) := by
  induction text with
  | nil => exact ⟨le_rfl, fun _ => rfl⟩
  | cons c text ih =>
    rcases unify_cons c text with h | ⟨-, h⟩
    · rw [h, List.length_cons, List.length_cons]
      exact ⟨Nat.succ_le_succ ih.1, fun heq => by rw [ih.2 (Nat.succ.inj heq)]⟩
    · rw [h, List.length_cons]
      exact ⟨ih.1.trans (Nat.le_succ _), fun heq => absurd (heq ▸ ih.1) (Nat.not_succ_le_self _)⟩

lemma trimStart_unify (text : Text) : Sse.trimStart (unify text) = unify (Sse.trimStart text) := by
  induction text with
  | nil => rfl
  | cons c text ih =>
    by_cases hc : isWhitespace c = true
    · rw [Sse.trimStart, Sse.trimStart, List.dropWhile_cons_of_pos hc]
      rcases unify_cons c text with h | ⟨-, h⟩
      · rw [h, List.dropWhile_cons_of_pos hc]
        exact ih
      · rw [h]
        exact ih
    · have h := (unify_cons c text).resolve_right fun hreturn => hc (by rw [hreturn.1]; rfl)
      rw [Sse.trimStart, Sse.trimStart, List.dropWhile_cons_of_neg hc, h,
        List.dropWhile_cons_of_neg hc]

lemma unify_concat {c : Char} (hc : isWhitespace c = false) (text : Text) :
    ∃ front, unify (text ++ [c]) = front ++ [c] := by
  induction text with
  | nil =>
    refine ⟨[], (unify_cons c []).resolve_right fun hreturn => ?_⟩
    rw [hreturn.1] at hc
    exact absurd hc (by decide)
  | cons d text ih =>
    obtain ⟨front, hfront⟩ := ih
    rcases unify_cons d (text ++ [c]) with h | ⟨-, h⟩
    · exact ⟨d :: front, by rw [List.cons_append, h, hfront, List.cons_append]⟩
    · exact ⟨front, by rw [List.cons_append, h, hfront]⟩

lemma trimStart_trimEnd (text : Text) : Sse.trimStart (trimEnd text) = trim text := by
  induction text using List.reverseRecOn with
  | nil => rfl
  | append_singleton text c ih =>
    by_cases hc : isWhitespace c = true
    · rw [Sse.trim_concat hc, ← ih, trimEnd, List.rdropWhile_concat_pos _ _ _ hc, trimEnd]
    · rw [trimEnd, List.rdropWhile_concat_neg _ _ _ hc, trim, Sse.trimStart,
        List.dropWhile_append]
      split
      · rw [List.dropWhile_cons_of_neg hc]
        exact (List.rdropWhile_concat_neg _ [] _ hc).symm
      · exact (List.rdropWhile_concat_neg _ _ _ hc).symm

lemma trim_unify (text : Text) : trim (unify (trimEnd text)) = unify (trim text) := by
  rw [trim, trimStart_unify, trimStart_trimEnd]
  obtain hnil | ⟨front, c, hlast⟩ := (trim text).eq_nil_or_concat'
  · rw [hnil]
    rfl
  · have hc := last_of_trimmed (hlast ▸ Sse.trim_trim text)
    obtain ⟨start, hstart⟩ := unify_concat hc front
    rw [hlast, hstart]
    exact List.rdropWhile_concat_neg _ _ _ (by simp [hc])

lemma trim_joined_text (text : Text) :
    trim (joined ([] :: ((trimEnd text).splitOn '\n').map chop)) = unify (trim text) := by
  obtain ⟨first, rest, hsplit⟩ :=
    List.exists_cons_of_ne_nil (List.splitOn_ne_nil '\n' (trimEnd text))
  have hcons : joined ([] :: ((trimEnd text).splitOn '\n').map chop) =
      '\n' :: unify (trimEnd text) := by
    rw [unify, hsplit]
    simp [joined]
  rw [hcons, Sse.trim_cons rfl, trim_unify]

lemma unify_trim_ne_nil {text : Text} (h : trim text ≠ []) : unify (trim text) ≠ [] := by
  obtain ⟨front, c, hlast⟩ := (trim text).eq_nil_or_concat'.resolve_left h
  obtain ⟨start, hstart⟩ := unify_concat (last_of_trimmed (hlast ▸ Sse.trim_trim text)) front
  rw [hlast, hstart]
  simp

/-! The sections of a page. -/

lemma PlainLine.chop_mark {heading : Text} (h : PlainLine heading) :
    chop (['#', '#', ' '] ++ heading) = ['#', '#', ' '] ++ heading := by
  refine chop_eq_self_iff.mpr ?_
  obtain rfl | ⟨front, c, rfl⟩ := heading.eq_nil_or_concat'
  · decide
  · rw [← List.append_assoc, List.getLast?_concat]
    rintro ⟨rfl⟩
    exact absurd (last_of_trimmed h.2) (by decide)

lemma lines_blocks {blocks : List Block} (hshown : ∀ b ∈ blocks, b.hidden = false)
    (hheadings : ∀ b ∈ blocks, ∀ heading ∈ b.heading, PlainLine heading) :
    lines (blocks.flatMap renderBlock) = blocks.flatMap Block.lines := by
  induction blocks with
  | nil => rfl
  | cons b blocks ih =>
    obtain ⟨hb, hshown⟩ := List.forall_mem_cons.mp hshown
    obtain ⟨hheading, hheadings⟩ := List.forall_mem_cons.mp hheadings
    have hblank : ∀ rest : Text, lines ('\n' :: rest) = [] :: lines rest := fun rest =>
      lines_append [] rest
    rw [List.flatMap_cons, List.flatMap_cons, ← ih hshown hheadings, Block.lines, renderBlock, hb,
      if_neg Bool.false_ne_true]
    cases hcase : b.heading with
    | none =>
      simp only [List.nil_append, List.cons_append, List.append_assoc]
      rw [hblank, lines_append]
    | some heading =>
      have hplain := hheading heading hcase
      have hmark : '\n' ∉ ['#', '#', ' '] ++ heading := by simpa using hplain.1
      have hline : ∀ rest : Text, lines ((['#', '#', ' '] ++ heading) ++ '\n' :: '\n' :: rest) =
          (['#', '#', ' '] ++ heading) :: [] :: lines rest := by
        intro rest
        rw [lines_append, splitOn_of_notMem hmark, List.map_singleton, hplain.chop_mark, hblank,
          List.singleton_append]
      simp only [List.nil_append, List.cons_append, List.append_assoc] at hline ⊢
      rw [hblank, hline, lines_append]

lemma splitSections_heading (heading : Option Text) (body : List Text) (next : Text)
    (rest : List Text) :
    splitSections heading body ((['#', '#', ' '] ++ next) :: rest) =
      (heading, body) :: splitSections (some (trim next)) [] rest := by
  simp [splitSections, stripPrefix]

lemma splitSections_text {heading : Option Text} {body : List Text} {text : List Text}
    (htext : ∀ line ∈ text, ['#', '#', ' '].isPrefixOf line = false) (hbody : body ≠ [])
    (rest : List Text) :
    splitSections heading body (text ++ rest) = splitSections heading (body ++ text) rest := by
  induction text generalizing body with
  | nil => simp
  | cons line text ih =>
    obtain ⟨hline, htext⟩ := List.forall_mem_cons.mp htext
    rw [List.cons_append, splitSections, stripPrefix, if_neg (by simp [hline])]
    simp only [hbody, and_false, if_false]
    rw [ih htext (by simp), List.append_assoc, List.singleton_append]

lemma Unmarked.chopped {text : Text} (h : Unmarked text) :
    ∀ line ∈ ((trimEnd text).splitOn '\n').map chop, ['#', '#', ' '].isPrefixOf line = false := by
  intro line hline
  obtain ⟨part, hpart, rfl⟩ := List.mem_map.mp hline
  rw [isPrefixOf_chop (by decide)]
  exact h part hpart

lemma trim_joined_concat (body : List Text) : trim (joined (body ++ [[]])) = trim (joined body) := by
  cases body with
  | nil => rfl
  | cons line body =>
    rw [joined, Sse.intercalate_concat _ (List.cons_ne_nil _ _), List.append_nil]
    exact Sse.trim_concat rfl _

def Block.read (b : Block) : Section := (b.heading, unify (trim b.text))

/-- Blocks with headings are read one by one, behind the section that is open. -/
lemma splitSections_blocks {blocks : List Block}
    (hheadings : ∀ b ∈ blocks, ∃ heading, b.heading = some heading ∧ trim heading = heading)
    (htexts : ∀ b ∈ blocks, Unmarked b.text) (heading : Option Text) (body : List Text) :
    (splitSections heading body (blocks.flatMap Block.lines)).map tidy =
      (heading, trim (joined body)) :: blocks.map Block.read := by
  induction blocks generalizing heading body with
  | nil => rfl
  | cons b blocks ih =>
    obtain ⟨⟨next, hnext, htrim⟩, hheadings⟩ := List.forall_mem_cons.mp hheadings
    obtain ⟨htext, htexts⟩ := List.forall_mem_cons.mp htexts
    have hlines : (b :: blocks).flatMap Block.lines = [] :: (['#', '#', ' '] ++ next) :: [] ::
        (((trimEnd b.text).splitOn '\n').map chop ++ blocks.flatMap Block.lines) := by
      simp [Block.lines, hnext]
    rw [hlines, splitSections_blank, splitSections_heading, splitSections_blank, List.nil_append,
      splitSections_text htext.chopped (List.cons_ne_nil _ _), List.map_cons, List.map_cons,
      ih hheadings htexts, List.singleton_append, trim_joined_text, tidy, trim_joined_concat, htrim,
      Block.read, hnext]

section Shown

variable {page : Page} (htitle : '\n' ∉ page.title)
  (hheadings : ∀ b ∈ visible page.blocks, ∀ heading ∈ b.heading, PlainLine heading)
include htitle hheadings

lemma sections_lines : sections (render page) =
    ((splitSections none [] ((visible page.blocks).flatMap Block.lines)).map tidy).filter
      fun s => s.1.isSome || s.2 ≠ [] := by
  rw [sections_eq, lines_render htitle, splitSections_title,
    lines_blocks (fun b hb => hidden_of_visible hb) hheadings]

lemma sections_read (hmarks : ∀ b ∈ visible page.blocks, Unmarked b.text)
    (hfirst : ∀ b ∈ (visible page.blocks).tail, b.heading ≠ none)
    (hintro : ∀ b ∈ visible page.blocks, b.heading = none → trim b.text ≠ []) :
    sections (render page) = (visible page.blocks).map Block.read := by
  have hheaded : ∀ b ∈ visible page.blocks, b.heading ≠ none →
      ∃ heading, b.heading = some heading ∧ trim heading = heading := by
    intro b hb hne
    obtain ⟨heading, hheading⟩ := Option.ne_none_iff_exists'.mp hne
    exact ⟨heading, hheading, (hheadings b hb heading hheading).2⟩
  have hkept : ∀ blocks : List Block, (∀ b ∈ blocks, b.heading ≠ none) →
      (blocks.map Block.read).filter (fun s => s.1.isSome || s.2 ≠ []) =
        blocks.map Block.read := by
    intro blocks hblocks
    refine List.filter_eq_self.mpr fun s hs => ?_
    obtain ⟨b, hb, rfl⟩ := List.mem_map.mp hs
    simp [Block.read, Option.isSome_iff_ne_none, hblocks b hb]
  rw [sections_lines htitle hheadings]
  cases hv : visible page.blocks with
  | nil => rfl
  | cons b blocks =>
    rw [hv] at hheaded hmarks hfirst hintro
    have htail : ∀ c ∈ blocks, ∃ heading, c.heading = some heading ∧ trim heading = heading :=
      fun c hc => hheaded c (List.mem_cons_of_mem b hc) (hfirst c hc)
    have htail' : ∀ c ∈ blocks, Unmarked c.text := fun c hc => hmarks c (List.mem_cons_of_mem b hc)
    by_cases hb : b.heading = none
    · -- The text before the first heading: its section is open already.
      have hlines : (b :: blocks).flatMap Block.lines =
          [] :: (((trimEnd b.text).splitOn '\n').map chop ++ blocks.flatMap Block.lines) := by
        simp [Block.lines, hb]
      have hne := unify_trim_ne_nil (hintro b List.mem_cons_self hb)
      rw [hlines, splitSections_blank, List.nil_append,
        splitSections_text (hmarks b List.mem_cons_self).chopped (List.cons_ne_nil _ _),
        splitSections_blocks htail htail', List.singleton_append, trim_joined_text,
        List.filter_cons_of_pos (by simpa using hne), hkept blocks hfirst, List.map_cons, Block.read,
        hb]
    · have hall : ∀ c ∈ b :: blocks, c.heading ≠ none := by
        intro c hc
        rcases List.mem_cons.mp hc with rfl | hc
        · exact hb
        · exact hfirst c hc
      rw [splitSections_blocks (fun c hc => hheaded c hc (hall c hc)) hmarks,
        List.filter_cons_of_neg (by simp [joined, trim, Sse.trimStart]), hkept _ hall]

end Shown

lemma read_eq_section_iff {b : Block} : b.read = b.section ↔
    ∀ line ∈ (trim b.text).splitOn '\n', line.getLast? ≠ some '\r' := by
  rw [Block.read, Block.section, Prod.mk.injEq, ← unify_eq_self_iff]
  exact and_iff_right rfl

lemma sections_render {page : Page} (htitle : '\n' ∉ page.title) (h : Reads (visible page.blocks)) :
    sections (render page) = (visible page.blocks).map Block.section := by
  rw [sections_read htitle h.headings (fun b hb => (h.texts b hb).1) h.first h.intro]
  exact List.map_congr_left fun b hb => read_eq_section_iff.mpr (h.texts b hb).2

lemma length_eq_of_flatMap {α β : Type} {f g : α → List β} {l : List α}
    (hle : ∀ a ∈ l, (f a).length ≤ (g a).length)
    (h : (l.flatMap f).length = (l.flatMap g).length) : ∀ a ∈ l, (f a).length = (g a).length := by
  intro a ha
  by_contra hne
  rw [List.length_flatMap, List.length_flatMap] at h
  exact (List.sum_lt_sum _ _ hle ⟨a, ha, lt_of_le_of_ne (hle a ha) hne⟩).ne h

lemma sections_filterMap (markdown : Text) : (sections markdown).filterMap Prod.fst =
    ((lines markdown).filterMap (stripPrefix ['#', '#', ' '])).map trim := by
  have hparts := congrArg (List.filterMap id) (splitSections_headings none [] (lines markdown))
  have hkept : ∀ parts : List Section,
      (parts.filter fun s => s.1.isSome || s.2 ≠ []).filterMap Prod.fst =
        parts.filterMap Prod.fst := by
    intro parts
    rw [List.filterMap_filter]
    refine List.filterMap_congr fun s _ => ?_
    cases s.1 <;> simp
  rw [sections_eq, hkept, List.filterMap_map]
  simpa [List.filterMap_map, Function.comp_def, tidy] using hparts

lemma filterMap_lines (b : Block) : b.lines.filterMap (stripPrefix ['#', '#', ' ']) =
    b.heading.toList ++
      (((trimEnd b.text).splitOn '\n').map chop).filterMap (stripPrefix ['#', '#', ' ']) := by
  unfold Block.lines
  cases b.heading <;> simp [stripPrefix]

lemma headed_of_perm {markdown : Text} {c : Block} {blocks : List Block}
    (h : (sections markdown).Perm ((c :: blocks).map Block.section)) (hc : c.heading = none) :
    ∀ b ∈ blocks, b.heading ≠ none := by
  intro b hb hnone
  have hone : (sections markdown).countP (·.1.isNone) ≤ 1 := by
    cases hs : sections markdown with
    | nil => exact Nat.zero_le 1
    | cons s rest =>
      have hrest : rest.countP (·.1.isNone) = 0 := List.countP_eq_zero.mpr fun t ht => by
        have hsome := sections_tail (hs ▸ ht : t ∈ (sections markdown).tail)
        simpa [Option.isNone_iff_eq_none] using hsome
      rw [List.countP_cons, hrest]
      split <;> simp
  have htwo : 0 < blocks.countP (fun b => b.section.1.isNone) :=
    List.countP_pos_iff.mpr ⟨b, hb, by simp [Block.section, hnone]⟩
  rw [h.countP_eq, List.countP_map, List.countP_cons, if_pos (by simp [Block.section, hc])] at hone
  exact absurd htwo (Nat.not_lt.mpr (Nat.le_of_succ_le_succ hone))

section Counted

variable {page : Page} (htitle : '\n' ∉ page.title)
  (hheadings : ∀ b ∈ visible page.blocks, ∀ heading ∈ b.heading, PlainLine heading)
  (h : (sections (render page)).Perm ((visible page.blocks).map Block.section))
include htitle hheadings h

lemma unmarked_of_perm : ∀ b ∈ visible page.blocks, Unmarked b.text := by
  -- Each line that opens a section is one of the headings.
  have hlength := (h.filterMap Prod.fst).length_eq
  have htitleLine : stripPrefix ['#', '#', ' '] (chop (['#', ' '] ++ page.title)) = none := by
    rw [stripPrefix, isPrefixOf_chop (by decide)]
    rfl
  rw [sections_filterMap, List.length_map, lines_render htitle,
    lines_blocks (fun b hb => hidden_of_visible hb) hheadings,
    List.filterMap_cons_none htitleLine, List.filterMap_flatMap, List.filterMap_map,
    List.filterMap_eq_flatMap_toList] at hlength
  intro b hb line hline
  have hle : ∀ b ∈ visible page.blocks, ((Prod.fst ∘ Block.section) b).toList.length ≤
      (b.lines.filterMap (stripPrefix ['#', '#', ' '])).length := by
    intro b _
    rw [filterMap_lines, List.length_append]
    exact Nat.le_add_right _ _
  have hnone : b.heading.toList.length = _ := length_eq_of_flatMap hle hlength.symm b hb
  rw [filterMap_lines, List.length_append, Nat.left_eq_add, List.length_eq_zero_iff,
    List.filterMap_eq_nil_iff] at hnone
  have hstrip := hnone (chop line) (List.mem_map_of_mem hline)
  rw [stripPrefix, isPrefixOf_chop (by decide)] at hstrip
  split at hstrip
  · exact absurd hstrip (Option.some_ne_none _)
  · next hmark => exact eq_false_of_ne_true hmark

lemma first_of_perm : ∀ b ∈ (visible page.blocks).tail, b.heading ≠ none := by
  intro b hb hnone
  have hb' := h.mem_iff.mpr (List.mem_map_of_mem (List.mem_of_mem_tail hb))
  cases hv : visible page.blocks with
  | nil => simp [hv] at hb
  | cons c blocks =>
    rw [hv, List.tail_cons] at hb
    cases hc : c.heading with
    | some next =>
      -- Nothing stands before the first heading.
      have hlines : (c :: blocks).flatMap Block.lines = [] :: (['#', '#', ' '] ++ next) :: [] ::
          (((trimEnd c.text).splitOn '\n').map chop ++ blocks.flatMap Block.lines) := by
        simp [Block.lines, hc]
      rw [sections_lines htitle hheadings, hv, hlines, splitSections_blank, splitSections_heading,
        List.map_cons, List.filter_cons_of_neg (by simp [tidy, joined, trim, Sse.trimStart])] at hb'
      obtain ⟨part, hpart, heq⟩ := List.mem_map.mp (List.mem_of_mem_filter hb')
      have hheading := List.mem_map_of_mem (f := Prod.fst) hpart
      rw [splitSections_headings, show part.1 = none from (congrArg Prod.fst heq).trans hnone]
        at hheading
      simp at hheading
    | none => exact headed_of_perm (hv ▸ h) hc b hb hnone

end Counted

/-- What reads as the blocks it shows is plain: each way not to be is seen in a count. -/
lemma reads_of_perm {page : Page} (htitle : '\n' ∉ page.title)
    (h : (sections (render page)).Perm ((visible page.blocks).map Block.section)) :
    Reads (visible page.blocks) := by
  have hmem : ∀ b ∈ visible page.blocks, b.section ∈ sections (render page) := fun b hb =>
    h.mem_iff.mpr (List.mem_map_of_mem hb)
  have hheadings : ∀ b ∈ visible page.blocks, ∀ heading ∈ b.heading, PlainLine heading :=
    fun b hb heading hheading => sections_heading (hmem b hb) hheading
  have hintro : ∀ b ∈ visible page.blocks, b.heading = none → trim b.text ≠ [] :=
    fun b hb hnone => sections_intro (hmem b hb) hnone
  have hmarks := unmarked_of_perm htitle hheadings h
  have hfirst := first_of_perm htitle hheadings h
  refine ⟨hheadings, fun b hb => ⟨hmarks b hb, read_eq_section_iff.mp ?_⟩, hfirst, hintro⟩
  have hread := sections_read htitle hheadings hmarks hfirst hintro
  have hlength := (h.flatMap_right Prod.snd).length_eq
  rw [hread, List.flatMap_map, List.flatMap_map] at hlength
  have heach := length_eq_of_flatMap (fun b _ => (unify_length (trim b.text)).1) hlength b hb
  exact Prod.ext rfl ((unify_length (trim b.text)).2 heach)

lemma none_more {page : Page} (htitle : '\n' ∉ page.title) {more : List Section}
    (hperm : (sections (render page)).Perm ((visible page.blocks).map Block.section ++ more))
    (hempty : ∀ s ∈ more, s.2 = []) : more = [] := by
  have hlength := (hperm.flatMap_right solidSection).length_eq
  rw [sections_solidSection htitle, List.flatMap_append, List.length_append, Nat.left_eq_add,
    List.length_eq_zero_iff, List.flatMap_eq_nil_iff] at hlength
  refine List.eq_nil_iff_forall_not_mem.mpr fun s hs => ?_
  have hmem := hperm.mem_iff.mpr (List.mem_append_right _ hs)
  obtain ⟨heading, hheading⟩ := Option.ne_none_iff_exists'.mp fun hnone =>
    sections_intro hmem hnone (hempty s hs)
  have hsolidSection := hlength s hs
  simp [solidSection, hheading] at hsolidSection

end Aeroric.WikiEdits
