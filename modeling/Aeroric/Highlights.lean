import Aeroric.DiffHunks
import Aeroric.Sse
import Mathlib.Data.List.Sort

/-! The highlights of a search. A note is cut into chunks, a chunk repeats the end of the one before
it, and what is found in a chunk is mapped back to the note by the lengths alone. -/
namespace Aeroric.Highlights

open ChangeReview (splitInclusive)
open Sse (trim trimStart)

abbrev Text := List Char

def maxChars : ℕ := 1500

def overlapChars : ℕ := 180

def maxSpans : ℕ := 32

/-! The chunks of a note. -/

inductive Marker
  | backticks
  | tildes
  deriving DecidableEq

def markerOf (line : Text) : Option Marker :=
  let trimmed := trimStart line
  if "```".toList.isPrefixOf trimmed then some .backticks
  else if "~~~".toList.isPrefixOf trimmed then some .tildes
  else none

/-- The fence that is open behind a line: only a marker of its own kind closes it. -/
def feed (fence : Option Marker) (line : Text) : Option Marker :=
  match fence, markerOf line with
  | none, found => found
  | some opened, some found => if opened = found then none else some opened
  | some opened, none => some opened

def parseHeading (line : Text) : Option (ℕ × Text) :=
  let hashes := (line.takeWhile (· = '#')).length
  if hashes = 0 ∨ 6 < hashes then none
  else
    let rest := line.drop hashes
    if rest.head? = some ' ' ∨ rest.head? = some '\t' then
      let title := trim ((trim rest).rdropWhile (· = '#'))
      if title = [] then none else some (hashes, title)
    else none

structure Section where
  heading : Text
  start : ℕ
  stop : ℕ

structure Outline where
  out : List Section
  stack : List (ℕ × Text)
  currentStart : ℕ
  currentHeading : Text
  charPos : ℕ
  fence : Option Marker

def Outline.closed (o : Outline) : List Section :=
  if o.currentStart < o.charPos then o.out ++ [⟨o.currentHeading, o.currentStart, o.charPos⟩]
  else o.out

def Outline.line (o : Outline) (line : Text) : Outline :=
  let next := { o with charPos := o.charPos + line.length, fence := feed o.fence line }
  -- The state before the line decides: inside a fence nothing is a heading.
  match if o.fence.isSome then none else parseHeading (trimStart line) with
  | none => next
  | some (level, title) =>
    let stack := o.stack.rdropWhile (fun entry => level ≤ entry.1) ++ [(level, title)]
    { next with
      out := o.closed
      stack := stack
      currentStart := o.charPos + line.length
      currentHeading := " > ".toList.intercalate (stack.map Prod.snd) }

def sections (source : Text) : List Section :=
  let o := (splitInclusive source).foldl Outline.line ⟨[], [], 0, [], 0, none⟩
  if o.closed.isEmpty then [⟨[], 0, o.charPos⟩] else o.closed

def charSlice (source : Text) (start stop : ℕ) : Text := (source.drop start).take (stop - start)

structure Paragraph where
  text : Text
  start : ℕ
  stop : ℕ

structure ParagraphSpans where
  out : List Paragraph
  seg : Text
  segStart : ℕ
  cur : ℕ
  fence : Option Marker

def flushSpan (out : List Paragraph) (seg : Text) (start stop : ℕ) : List Paragraph :=
  let trimmed := seg.rdropWhile (· = '\n')
  if trim trimmed = [] then out else out ++ [⟨trimmed, start, stop⟩]

def ParagraphSpans.line (s : ParagraphSpans) (line : Text) : ParagraphSpans :=
  let fence := feed s.fence line
  let next := s.cur + line.length
  if trim line = [] ∧ fence = none then
    ⟨flushSpan s.out s.seg s.segStart s.cur, [], next, next, fence⟩
  else
    ⟨s.out, s.seg ++ line, if s.seg = [] then s.cur else s.segStart, next, fence⟩

def paragraphSpans (body : Text) : List Paragraph :=
  let s := (splitInclusive body).foldl ParagraphSpans.line ⟨[], [], 0, 0, none⟩
  flushSpan s.out s.seg s.segStart s.cur

structure BodyPart where
  text : Text
  start : ℕ
  stop : ℕ

def hardSplit (chars : Text) (base cursor : ℕ) : List BodyPart :=
  if cursor < chars.length then
    let stop := min (cursor + maxChars) chars.length
    ⟨charSlice chars (cursor - overlapChars) stop, base + cursor, base + stop⟩ ::
      hardSplit chars base stop
  else []
termination_by chars.length - cursor
decreasing_by simp only [maxChars]; omega

def tailChars (text : Text) (n : ℕ) : Text := text.drop (text.length - n)

structure Building where
  parts : List BodyPart
  current : Text
  currentChars : ℕ
  start : Option ℕ
  stop : ℕ

namespace Building

def part (b : Building) : BodyPart :=
  ⟨b.current, b.start.getD 0, b.stop⟩

def closed (b : Building) : List BodyPart :=
  if trim b.current = [] then b.parts else b.parts ++ [b.part]

/-- A paragraph that is too long by itself is cut by its length. -/
def cut (b : Building) (p : Paragraph) : Building :=
  ⟨b.closed ++ hardSplit p.text p.start 0, [], 0, none, p.stop⟩

/-- The part is closed, and the next one begins with its end. -/
def turn (b : Building) : Building :=
  let tail := tailChars b.current overlapChars
  ⟨b.parts ++ [b.part], tail, tail.length, none, b.stop⟩

def append (b : Building) (p : Paragraph) : Building :=
  let glue := if b.current = [] then [] else ['\n', '\n']
  { b with
    current := b.current ++ glue ++ p.text
    currentChars := b.currentChars + glue.length + p.text.length
    start := some (b.start.getD p.start)
    stop := p.stop }

def paragraph (b : Building) (p : Paragraph) : Building :=
  if maxChars < p.text.length then b.cut p
  else if maxChars < b.currentChars + p.text.length + 2 ∧ b.current ≠ [] then b.turn.append p
  else b.append p

end Building

def splitSectionBody (body : Text) : List BodyPart :=
  if body.length ≤ maxChars then [⟨body, 0, body.length⟩]
  else ((paragraphSpans body).foldl Building.paragraph ⟨[], [], 0, none, 0⟩).closed

structure Chunk where
  heading : Text
  body : Text
  charStart : ℕ
  charEnd : ℕ

def split (source : Text) : List Chunk :=
  (sections source).flatMap fun sect =>
    let body := charSlice source sect.start sect.stop
    if trim body = [] then []
    else ((splitSectionBody body).filter fun part => trim part.text ≠ []).map fun part =>
      ⟨sect.heading, part.text, sect.start + part.start, sect.start + part.stop⟩

/-! What is found in a chunk. -/

structure Span where
  start : ℕ
  stop : ℕ
  deriving DecidableEq

section Finding

-- The lower case of a character may be more than one character.
variable (lower : Char → List Char)

def charsEqIgnoreCase (a b : Char) : Bool := a = b || lower a = lower b

def isHit (needle haystack : Text) : Bool :=
  needle.length ≤ haystack.length &&
    (needle.zip haystack).all fun c => charsEqIgnoreCase lower c.1 c.2

/-- The loop over the positions of the text. Behind a hit it goes on `skip` characters later. -/
def hits (needle : Text) : ℕ → ℕ → Text → List Span
  | _, _, [] => []
  | pos, skip + 1, _ :: rest => hits needle (pos + 1) skip rest
  | pos, 0, c :: rest =>
    if isHit lower needle (c :: rest) then
      ⟨pos, pos + needle.length⟩ :: hits needle (pos + 1) (needle.length - 1) rest
    else hits needle (pos + 1) 0 rest

def mergeInto (out : List Span) (span : Span) : List Span :=
  match out.getLast? with
  | some last =>
    if span.start ≤ last.stop then
      out.dropLast ++ [{ last with stop := max last.stop span.stop }]
    else out ++ [span]
  | none => out ++ [span]

def mergeFrom : List Span → List Span → List Span
  | out, [] => out
  | out, span :: spans =>
    if maxSpans ≤ (mergeInto out span).length then mergeInto out span
    else mergeFrom (mergeInto out span) spans

def mergeSpans (spans : List Span) : List Span :=
  mergeFrom [] (spans.insertionSort fun a b => a.start < b.start ∨ a.start = b.start ∧ a.stop ≤ b.stop)

def findSpans (text : Text) (terms : List Text) : List Span :=
  mergeSpans (terms.flatMap fun needle =>
    if needle = [] ∨ text.length < needle.length then []
    else hits lower needle 0 0 text)

end Finding

def overlap (body : Text) (charStart charEnd : ℕ) : ℕ := body.length - (charEnd - charStart)

def Span.toSource (span : Span) (charStart overlap : ℕ) : Span :=
  ⟨charStart + (span.start - overlap), charStart + (span.stop - overlap)⟩

def toSourceSpans (spans : List Span) (body : Text) (charStart charEnd : ℕ) : List Span :=
  (spans.map fun span => span.toSource charStart (overlap body charStart charEnd)).filter
    fun mapped => mapped.start < mapped.stop

/-- Every highlight of the chunk lies within it, and the note under it is what was found behind the
repeated part. -/
def Points (lower : Char → List Char) (s : Text) (c : Chunk) (terms : List Text) : Prop :=
  let found := findSpans lower c.body terms
  let repeated := overlap c.body c.charStart c.charEnd
  ∀ mapped ∈ toSourceSpans found c.body c.charStart c.charEnd,
    c.charStart ≤ mapped.start ∧ mapped.stop ≤ c.charEnd ∧
      ∃ span ∈ found, mapped = span.toSource c.charStart repeated ∧
        charSlice s mapped.start mapped.stop = charSlice c.body (max span.start repeated) span.stop

instance (lower : Char → List Char) (s : Text) (c : Chunk) (terms : List Text) :
    Decidable (Points lower s c terms) :=
  inferInstanceAs (Decidable (∀ mapped ∈ toSourceSpans _ _ _ _, _ ∧ _ ∧ ∃ span ∈ _, _ ∧ _))

lemma flatten_splitInclusive (text : Text) : (splitInclusive text).flatten = text := by
  induction text with
  | nil => rfl
  | cons c text ih =>
    rw [splitInclusive]
    split
    · rw [List.flatten_cons, ih, List.singleton_append]
    · split
      · next h => simpa [h] using ih
      · next h => simpa [h] using ih

/-! Where the highlights lie. -/

lemma hits_stop (lower : Char → List Char) (needle : Text) (pos skip : ℕ) (haystack : Text) :
    ∀ span ∈ hits lower needle pos skip haystack, span.stop ≤ pos + haystack.length := by
  induction haystack generalizing pos skip with
  | nil => simp [hits]
  | cons c rest ih =>
    have hshift : pos + 1 + rest.length = pos + (c :: rest).length := by
      rw [List.length_cons]
      omega
    cases skip with
    | succ skip => exact hshift ▸ ih (pos + 1) skip
    | zero =>
      rw [hits]
      split
      · next hhit =>
        intro span hspan
        rcases List.mem_cons.mp hspan with rfl | hspan
        · simp only [isHit, Bool.and_eq_true, decide_eq_true_eq] at hhit
          exact Nat.add_le_add_left hhit.1 pos
        · exact hshift ▸ ih _ _ span hspan
      · exact hshift ▸ ih _ _

lemma mergeInto_stop {n : ℕ} {span : Span} {out : List Span}
    (hout : ∀ other ∈ out, other.stop ≤ n) (hspan : span.stop ≤ n) :
    ∀ other ∈ mergeInto out span, other.stop ≤ n := by
  have hpush : ∀ other ∈ out ++ [span], other.stop ≤ n := by
    simpa [or_imp, forall_and, hspan] using hout
  unfold mergeInto
  split
  · next last hlast =>
    split
    · intro other hother
      rcases List.mem_append.mp hother with hother | hother
      · exact hout other (List.mem_of_mem_dropLast hother)
      · rw [List.mem_singleton.mp hother]
        exact max_le (hout last (List.mem_of_getLast? hlast)) hspan
    · exact hpush
  · exact hpush

lemma mergeFrom_stop {n : ℕ} (spans : List Span) {out : List Span}
    (hout : ∀ span ∈ out, span.stop ≤ n) (h : ∀ span ∈ spans, span.stop ≤ n) :
    ∀ span ∈ mergeFrom out spans, span.stop ≤ n := by
  induction spans generalizing out with
  | nil => exact hout
  | cons span spans ih =>
    obtain ⟨hspan, hspans⟩ := List.forall_mem_cons.mp h
    have hnext := mergeInto_stop hout hspan
    rw [mergeFrom]
    split
    · exact hnext
    · exact ih hnext hspans

lemma findSpans_stop (lower : Char → List Char) (text : Text) (terms : List Text) :
    ∀ span ∈ findSpans lower text terms, span.stop ≤ text.length := by
  refine mergeFrom_stop _ (by simp) fun span hspan => ?_
  rw [List.mem_insertionSort, List.mem_flatMap] at hspan
  obtain ⟨needle, -, hspan⟩ := hspan
  split at hspan
  · simp at hspan
  · simpa using hits_stop lower needle 0 0 text span hspan

lemma charSlice_toSource {s body : Text} {charStart repeated : ℕ} {span : Span}
    (h : body.drop repeated <+: s.drop charStart) (hstop : span.stop ≤ body.length) :
    charSlice s (span.toSource charStart repeated).start (span.toSource charStart repeated).stop =
      charSlice body (max span.start repeated) span.stop := by
  obtain ⟨rest, hrest⟩ := h
  have hbegin : repeated + (span.start - repeated) = max span.start repeated := by omega
  have hwidth : charStart + (span.stop - repeated) - (charStart + (span.start - repeated)) =
      span.stop - max span.start repeated := by omega
  simp only [charSlice, Span.toSource]
  rw [hwidth, ← List.drop_drop, ← hrest]
  by_cases hlt : max span.start repeated < span.stop
  · rw [List.drop_append_of_le_length (by rw [List.length_drop]; omega), List.drop_drop, hbegin,
      List.take_append_of_le_length (by rw [List.length_drop]; omega)]
  · rw [Nat.sub_eq_zero_of_le (not_lt.mp hlt), List.take_zero, List.take_zero]

end Aeroric.Highlights
