import Aeroric.Decimal
import Aeroric.Sse
import Mathlib.Data.List.DropRight
import Mathlib.Tactic.Common

/-! How the review of a session's changes reads the diff that git writes. -/
namespace Aeroric.ChangeReview

open Sse (unlines)

structure DiffLine where
  kind : Char
  text : List Char
  old : Option ℕ
  new : Option ℕ

structure ParsedHunk where
  header : List Char
  body : List Char
  lines : List DiffLine

structure Parsed where
  path : List Char
  binary : Bool
  header : List Char
  hunks : List ParsedHunk

/-- The pieces of a text, each with the line feed that ends it. -/
def splitInclusive : List Char → List (List Char)
  | [] => []
  | c :: text =>
    if c = '\n' then [c] :: splitInclusive text
    else
      match splitInclusive text with
      | [] => [[c]]
      | line :: lines => (c :: line) :: lines

def afterLast (pattern : List Char) : List Char → Option (List Char)
  | [] => none
  | c :: text => (afterLast pattern text).or (pattern.isPrefixOf? (c :: text))

/-- `-12,3` begins at 12. -/
def start (range : List Char) : ℕ :=
  (parseUnsigned 32 ((range.dropWhile fun c => c = '-' || c = '+').takeWhile (· ≠ ','))).getD 0

structure Reading where
  files : List Parsed
  inHeader : Bool
  old : ℕ
  new : ℕ

namespace Reading

/-- Another value of the last file. -/
def amend (s : Reading) (file : Parsed) : Reading := { s with files := s.files.dropLast ++ [file] }

def bodyLine (s : Reading) (file : Parsed) (hunk : ParsedHunk) (line bare : List Char) : Reading :=
  let put (lines : List DiffLine) : Reading := s.amend { file with hunks := file.hunks.dropLast ++
    [{ hunk with body := hunk.body ++ line, lines := hunk.lines ++ lines }] }
  match bare.head? with
  | some '+' => { put [⟨'+', bare.tail, none, some s.new⟩] with new := (s.new + 1) % 2 ^ 32 }
  | some '-' => { put [⟨'-', bare.tail, some s.old, none⟩] with old := (s.old + 1) % 2 ^ 32 }
  | some ' ' | none =>
    { put [⟨' ', bare.tail, some s.old, some s.new⟩] with
      old := (s.old + 1) % 2 ^ 32, new := (s.new + 1) % 2 ^ 32 }
  | _ => put []

/-- A line, and the line without its end. -/
def lineOf (s : Reading) (line bare : List Char) : Reading :=
  if "diff --git ".toList.isPrefixOf bare then
    { s with
      files := s.files ++ [⟨(afterLast " b/".toList bare).getD [], false, line, []⟩]
      inHeader := true }
  else
    match s.files.getLast? with
    | none => s
    | some file =>
      if s.inHeader && !"@@".toList.isPrefixOf bare then
        s.amend { file with
          binary := file.binary || "Binary files".toList.isPrefixOf bare
          path := ("+++ b/".toList.isPrefixOf? bare).getD file.path
          header := file.header ++ line }
      else
        match "@@ ".toList.isPrefixOf? bare with
        | some rest =>
          { s.amend { file with hunks := file.hunks ++ [⟨bare, [], []⟩] } with
            inHeader := false
            old := start (rest.takeWhile (· ≠ ' '))
            new := start ((rest.dropWhile (· ≠ ' ')).tail.takeWhile (· ≠ ' ')) }
        | none =>
          match file.hunks.getLast? with
          | none => s
          | some hunk => s.bodyLine file hunk line bare

def line (s : Reading) (line : List Char) : Reading := s.lineOf line (line.rdropWhile (· = '\n'))

end Reading

def parse (raw : List Char) : List Parsed :=
  ((splitInclusive raw).foldl Reading.line ⟨[], false, 0, 0⟩).files

/-- The patch of each hunk without its file's header, after that header. -/
def rebuild (files : List Parsed) : List Char :=
  files.flatMap fun file => file.header ++ file.hunks.flatMap fun h => h.header ++ '\n' :: h.body

/-! What git writes. -/

def Line := { text : List Char // '\n' ∉ text }

inductive BodyLine
  | context (text : Line)
  | removed (text : Line)
  | added (text : Line)
  /-- That the line before it does not end. -/
  | marker (text : Line)

namespace BodyLine

def text : BodyLine → List Char
  | .context text => ' ' :: text.val
  | .removed text => '-' :: text.val
  | .added text => '+' :: text.val
  | .marker text => '\\' :: text.val

def isOld : BodyLine → Bool
  | .context _ | .removed _ => true
  | _ => false

def isNew : BodyLine → Bool
  | .context _ | .added _ => true
  | _ => false

end BodyLine

structure Hunk where
  oldStart : ℕ
  newStart : ℕ
  heading : Line
  body : List BodyLine

namespace Hunk

def oldCount (h : Hunk) : ℕ := h.body.countP BodyLine.isOld

def newCount (h : Hunk) : ℕ := h.body.countP BodyLine.isNew

def range (start count : ℕ) : List Char :=
  Nat.toDigits 10 start ++ if count = 1 then [] else ',' :: Nat.toDigits 10 count

def header (h : Hunk) : List Char :=
  "@@ ".toList ++ (('-' :: range h.oldStart h.oldCount) ++ ' ' ::
    (('+' :: range h.newStart h.newCount) ++ ' ' :: '@' :: '@' :: h.heading.val))

def lines (h : Hunk) : List (List Char) := h.header :: h.body.map BodyLine.text

/-- The numbers of its lines are numbers of 32 bits. -/
def Fits (h : Hunk) : Prop :=
  (∀ i < h.oldCount, h.oldStart + i < 2 ^ 32) ∧ ∀ i < h.newCount, h.newStart + i < 2 ^ 32

end Hunk

inductive Change
  /-- The modes, or an empty file. -/
  | header
  | binary (old new : Bool)
  | text (old new : Bool) (hunks : List Hunk)

/-- Another line of a header: of modes or of hashes. -/
def IsExtended (line : List Char) : Prop :=
  ∀ other ∈ ["diff --git ", "@@", "Binary files", "+++ b/"], ¬ other.toList <+: line

structure FileDiff where
  path : Line
  extended : List Line
  isExtended : ∀ line ∈ extended, IsExtended line.val
  change : Change

namespace FileDiff

/-- The name of a side that exists or does not. -/
def name (side : Char) (there : Bool) (path : List Char) : List Char :=
  if there then side :: '/' :: path else "/dev/null".toList

/-- After a name with a space git writes a tab. -/
def tab (path : List Char) : List Char := if ' ' ∈ path then ['\t'] else []

def changeLines (f : FileDiff) : List (List Char) :=
  match f.change with
  | .header => []
  | .binary old new =>
    ["Binary files ".toList ++ (name 'a' old f.path.val ++ " and ".toList ++ name 'b' new f.path.val ++
      " differ".toList)]
  | .text old new _ =>
    ["--- ".toList ++ name 'a' old (f.path.val ++ tab f.path.val),
      "+++ ".toList ++ name 'b' new (f.path.val ++ tab f.path.val)]

def gitLine (f : FileDiff) : List Char :=
  "diff --git ".toList ++ ("a/".toList ++ (f.path.val ++ (" b/".toList ++ f.path.val)))

def headLines (f : FileDiff) : List (List Char) :=
  f.gitLine :: (f.extended.map Subtype.val ++ f.changeLines)

def hunks (f : FileDiff) : List Hunk :=
  match f.change with
  | .text _ _ hunks => hunks
  | _ => []

def lines (f : FileDiff) : List (List Char) := f.headLines ++ f.hunks.flatMap Hunk.lines

def namesNew (f : FileDiff) : Bool :=
  match f.change with
  | .text _ new _ => new
  | _ => false

/-- No space in the path, or no line for the new side and no other place where it may begin. -/
def PathPlain (f : FileDiff) : Prop :=
  ' ' ∉ f.path.val ∨ f.namesNew = false ∧ ¬ " b/".toList <:+: f.path.val

end FileDiff

def diffText (files : List FileDiff) : List Char := unlines (files.flatMap FileDiff.lines)

/-! The lines of a diff, one after the other. -/

lemma splitInclusive_line {l : List Char} (h : '\n' ∉ l) (rest : List Char) :
    splitInclusive (l ++ '\n' :: rest) = (l ++ ['\n']) :: splitInclusive rest := by
  induction l with
  | nil => simp [splitInclusive]
  | cons c l ih =>
    obtain ⟨hc, hl⟩ := not_or.mp (List.mem_cons.not.mp h)
    rw [List.cons_append, splitInclusive, if_neg (Ne.symm hc), ih hl]
    rfl

lemma splitInclusive_unlines {lines : List (List Char)} (h : ∀ l ∈ lines, '\n' ∉ l) :
    splitInclusive (unlines lines) = lines.map (· ++ ['\n']) := by
  induction lines with
  | nil => rfl
  | cons l lines ih =>
    obtain ⟨hl, hlines⟩ := List.forall_mem_cons.mp h
    rw [List.map_cons, ← ih hlines, ← splitInclusive_line hl]
    simp [unlines]

lemma bare_line {l : List Char} (h : '\n' ∉ l) : (l ++ ['\n']).rdropWhile (· = '\n') = l := by
  rw [List.rdropWhile_concat_pos _ _ _ (by simp), List.rdropWhile_eq_self_iff]
  intro hl heq
  exact h (of_decide_eq_true heq ▸ List.getLast_mem hl)

lemma not_prefix_append {a b : List Char} (h : ¬ a <+: b) (h' : ¬ b <+: a) (x : List Char) :
    ¬ a <+: b ++ x := fun hpre =>
  (List.prefix_or_prefix_of_prefix hpre (List.prefix_append b x)).elim h h'

lemma isPrefixOf_eq_false {a l : List Char} (h : ¬ a <+: l) : a.isPrefixOf l = false :=
  Bool.eq_false_iff.mpr fun heq => h (List.isPrefixOf_iff_prefix.mp heq)

lemma isPrefixOf?_eq_none {a l : List Char} (h : ¬ a <+: l) : a.isPrefixOf? l = none := by
  cases heq : a.isPrefixOf? l with
  | none => rfl
  | some rest => exact absurd ⟨rest, List.isPrefixOf?_eq_some_iff_append_eq.mp heq⟩ h

lemma isPrefixOf?_append (a l : List Char) : a.isPrefixOf? (a ++ l) = some l :=
  List.isPrefixOf?_eq_some_iff_append_eq.mpr rfl

namespace Reading

def feed (s : Reading) (lines : List (List Char)) : Reading :=
  lines.foldl (fun s l => s.line (l ++ ['\n'])) s

lemma feed_append (s : Reading) (lines others : List (List Char)) :
    s.feed (lines ++ others) = (s.feed lines).feed others := List.foldl_append

variable {l : List Char} (hl : '\n' ∉ l) (hgit : ¬ "diff --git ".toList <+: l)
  (files : List Parsed) (file : Parsed) (old new : ℕ)
include hl hgit

lemma line_header (hat : ¬ "@@".toList <+: l) :
    line ⟨files ++ [file], true, old, new⟩ (l ++ ['\n']) =
      ⟨files ++ [{ file with
        binary := file.binary || "Binary files".toList.isPrefixOf l
        path := ("+++ b/".toList.isPrefixOf? l).getD file.path
        header := file.header ++ (l ++ ['\n']) }], true, old, new⟩ := by
  unfold line lineOf
  rw [bare_line hl, isPrefixOf_eq_false hgit, if_neg Bool.false_ne_true, List.getLast?_concat,
    isPrefixOf_eq_false hat]
  simp only [amend, List.dropLast_concat]
  rfl

lemma line_hunk {rest : List Char} (hrest : l = "@@ ".toList ++ rest) (inHeader : Bool) :
    line ⟨files ++ [file], inHeader, old, new⟩ (l ++ ['\n']) =
      ⟨files ++ [{ file with hunks := file.hunks ++ [⟨l, [], []⟩] }], false,
        start (rest.takeWhile (· ≠ ' ')),
        start ((rest.dropWhile (· ≠ ' ')).tail.takeWhile (· ≠ ' '))⟩ := by
  have hat : "@@".toList.isPrefixOf l = true := by
    rw [List.isPrefixOf_iff_prefix, hrest]
    exact (by decide : "@@".toList <+: "@@ ".toList).trans (List.prefix_append ..)
  have hstrip : "@@ ".toList.isPrefixOf? l = some rest := hrest ▸ isPrefixOf?_append ..
  unfold line lineOf
  rw [bare_line hl, isPrefixOf_eq_false hgit, if_neg Bool.false_ne_true, List.getLast?_concat, hat,
    hstrip]
  simp only [Bool.not_true, Bool.and_false, if_neg Bool.false_ne_true, amend, List.dropLast_concat]

lemma line_body (hat : ¬ "@@ ".toList <+: l) (hunks : List ParsedHunk) (hunk : ParsedHunk) :
    line ⟨files ++ [{ file with hunks := hunks ++ [hunk] }], false, old, new⟩ (l ++ ['\n']) =
      bodyLine ⟨files ++ [{ file with hunks := hunks ++ [hunk] }], false, old, new⟩
        { file with hunks := hunks ++ [hunk] } hunk (l ++ ['\n']) l := by
  unfold line lineOf
  rw [bare_line hl, isPrefixOf_eq_false hgit, if_neg Bool.false_ne_true, List.getLast?_concat,
    isPrefixOf?_eq_none hat]
  simp only [Bool.false_and, if_neg Bool.false_ne_true, List.getLast?_concat]

end Reading

lemma afterLast_append {pattern text rest : List Char} (h : afterLast pattern text = some rest)
    (front : List Char) : afterLast pattern (front ++ text) = some rest := by
  induction front with
  | nil => exact h
  | cons c front ih => rw [List.cons_append, afterLast, ih, Option.some_or]

lemma afterLast_suffix {pattern text rest : List Char} (h : afterLast pattern text = some rest) :
    pattern ++ rest <:+ text := by
  induction text with
  | nil => cases h
  | cons c text ih =>
    rw [afterLast, Option.or_eq_some_iff] at h
    rcases h with h | ⟨-, h⟩
    · exact (ih h).trans (List.suffix_cons c text)
    · rw [List.isPrefixOf?_eq_some_iff_append_eq.mp h]

lemma afterLast_eq_none {pattern text : List Char} (hpattern : pattern ≠ []) :
    afterLast pattern text = none ↔ ¬ pattern <:+: text := by
  induction text with
  | nil => simp [afterLast, hpattern]
  | cons d text ih =>
    rw [afterLast, Option.or_eq_none_iff, ih, List.infix_cons_iff, not_or, and_comm]
    refine and_congr_left fun _ => ⟨fun hnone hpre => ?_, isPrefixOf?_eq_none⟩
    obtain ⟨rest, hrest⟩ := hpre
    cases hnone.symm.trans (List.isPrefixOf?_eq_some_iff_append_eq.mpr hrest)

namespace FileDiff

def readPath (f : FileDiff) : List Char :=
  if f.namesNew then f.path.val ++ tab f.path.val else (afterLast " b/".toList f.gitLine).getD []

/-- Where the path holds the mark before it, less than the path follows the last one. -/
lemma afterLast_ne {path : List Char} (h : " b/".toList <:+: path) (front : List Char) :
    (afterLast " b/".toList (front ++ path)).getD [] ≠ path := by
  cases hlast : afterLast " b/".toList path with
  | none => exact absurd ((afterLast_eq_none (by decide)).mp hlast) (not_not.mpr h)
  | some rest =>
    rw [afterLast_append hlast, Option.getD_some]
    rintro rfl
    have hlength := (afterLast_suffix hlast).length_le
    rw [List.length_append] at hlength
    exact absurd hlength (by simp)

lemma afterLast_gitLine {f : FileDiff} (h : ¬ " b/".toList <:+: f.path.val) :
    (afterLast " b/".toList f.gitLine).getD [] = f.path.val := by
  have hend : afterLast " b/".toList (" b/".toList ++ f.path.val) = some f.path.val := by
    have hb : ∀ c ∈ ['b', '/'], ∀ text, afterLast " b/".toList (c :: text) =
        afterLast " b/".toList text := by
      intro c hc text
      rw [afterLast, isPrefixOf?_eq_none, Option.or_none]
      intro hpre
      have := List.cons_prefix_cons.mp (hpre : ' ' :: ['b', '/'] <+: c :: text)
      rw [← this.1] at hc
      exact absurd hc (by decide)
    show (afterLast " b/".toList ('b' :: '/' :: f.path.val)).or _ = _
    rw [hb 'b' (by simp), hb '/' (by simp), (afterLast_eq_none (by decide)).mpr h, Option.none_or]
    exact isPrefixOf?_append " b/".toList f.path.val
  unfold gitLine
  rw [afterLast_append (afterLast_append (afterLast_append hend _) _) _]
  rfl

lemma readPath_eq_iff (f : FileDiff) : f.readPath = f.path.val ↔ f.PathPlain := by
  have hspace : ' ' ∉ f.path.val → ¬ " b/".toList <:+: f.path.val := fun hno hin =>
    hno (hin.subset (by decide))
  unfold readPath PathPlain
  cases f.namesNew with
  | true =>
    rw [if_pos rfl, List.append_right_eq_self, tab]
    by_cases hin : ' ' ∈ f.path.val <;> simp [hin]
  | false =>
    rw [if_neg Bool.false_ne_true]
    constructor
    · intro hread
      refine .inr ⟨rfl, fun hin => ?_⟩
      have hshort := afterLast_ne hin ("diff --git ".toList ++ ("a/".toList ++ (f.path.val ++
        " b/".toList)))
      refine hshort ?_
      rw [List.append_assoc, List.append_assoc, List.append_assoc]
      exact hread
    · rintro (hno | ⟨-, hin⟩)
      · exact afterLast_gitLine (hspace hno)
      · exact afterLast_gitLine hin

/-- A line of a header that is not its first. -/
def IsHead (l : List Char) : Prop :=
  '\n' ∉ l ∧ ¬ "diff --git ".toList <+: l ∧ ¬ "@@".toList <+: l

lemma feed_header {lines : List (List Char)} (h : ∀ l ∈ lines, IsHead l) (files : List Parsed)
    (file : Parsed) (old new : ℕ) :
    Reading.feed ⟨files ++ [file], true, old, new⟩ lines =
      ⟨files ++ [{ file with
        binary := file.binary || lines.any "Binary files".toList.isPrefixOf
        path := lines.foldl (fun path l => ("+++ b/".toList.isPrefixOf? l).getD path) file.path
        header := file.header ++ unlines lines }], true, old, new⟩ := by
  induction lines generalizing file with
  | nil => simp [Reading.feed, unlines]
  | cons l lines ih =>
    obtain ⟨⟨hl, hgit, hat⟩, hlines⟩ := List.forall_mem_cons.mp h
    have hcons : ∀ s : Reading, s.feed (l :: lines) = (s.line (l ++ ['\n'])).feed lines := fun _ => rfl
    rw [hcons, Reading.line_header hl hgit files file old new hat, ih hlines]
    simp only [List.any_cons, List.foldl_cons, unlines, List.flatMap_cons, Bool.or_assoc,
      List.append_assoc]

variable (f : FileDiff)

def isBinary : Bool :=
  match f.change with
  | .binary .. => true
  | _ => false

lemma isHead_headLines : ∀ l ∈ f.extended.map Subtype.val ++ f.changeLines, IsHead l := by
  intro l hl
  rcases List.mem_append.mp hl with hl | hl
  · obtain ⟨line, hline, rfl⟩ := List.mem_map.mp hl
    exact ⟨line.2, f.isExtended line hline _ (by simp), f.isExtended line hline _ (by simp)⟩
  · have hname : ∀ side there, side ≠ '\n' → '\n' ∉ name side there f.path.val ∧
        '\n' ∉ name side there (f.path.val ++ tab f.path.val) := by
      intro side there hside
      have := f.path.2
      unfold name tab
      constructor <;> split <;> try split
      all_goals simp_all [Ne.symm hside]
    unfold changeLines at hl
    cases hchange : f.change <;> simp only [hchange] at hl
    · cases hl
    · rw [List.mem_singleton.mp hl]
      refine ⟨?_, not_prefix_append (by decide) (by decide) _,
        not_prefix_append (by decide) (by decide) _⟩
      simp [(hname 'a' _ (by decide)).1, (hname 'b' _ (by decide)).1]
    · rcases List.mem_pair.mp hl with rfl | rfl
      all_goals refine ⟨?_, not_prefix_append (by decide) (by decide) _,
        not_prefix_append (by decide) (by decide) _⟩
      · simp [(hname 'a' _ (by decide)).2]
      · simp [(hname 'b' _ (by decide)).2]

lemma isExtended_of_mem {l : List Char} (hl : l ∈ f.extended.map Subtype.val) : IsExtended l := by
  obtain ⟨line, hline, rfl⟩ := List.mem_map.mp hl
  exact f.isExtended line hline

lemma any_binary : (f.extended.map Subtype.val ++ f.changeLines).any
    "Binary files".toList.isPrefixOf = f.isBinary := by
  have hextended : (f.extended.map Subtype.val).any "Binary files".toList.isPrefixOf = false :=
    List.any_eq_false.mpr fun l hl heq =>
      f.isExtended_of_mem hl _ (by simp) (List.isPrefixOf_iff_prefix.mp heq)
  rw [List.any_append, hextended, Bool.false_or]
  unfold changeLines isBinary
  cases f.change with
  | header => rfl
  | binary old new =>
    rw [List.any_cons, List.isPrefixOf_iff_prefix.mpr, Bool.true_or]
    exact (by decide : "Binary files".toList <+: "Binary files ".toList).trans (List.prefix_append ..)
  | text old new hunks =>
    rw [List.any_cons, List.any_cons,
      isPrefixOf_eq_false (not_prefix_append (by decide) (by decide) _),
      isPrefixOf_eq_false (not_prefix_append (by decide) (by decide) _)]
    rfl

lemma foldl_path (path : List Char) : (f.extended.map Subtype.val ++ f.changeLines).foldl
    (fun path l => ("+++ b/".toList.isPrefixOf? l).getD path) path =
      if f.namesNew then f.path.val ++ tab f.path.val else path := by
  have hskip : ∀ {lines : List (List Char)}, (∀ l ∈ lines, IsExtended l) →
      lines.foldl (fun path l => ("+++ b/".toList.isPrefixOf? l).getD path) path = path := by
    intro lines hlines
    induction lines with
    | nil => rfl
    | cons l lines ih =>
      obtain ⟨hl, hlines⟩ := List.forall_mem_cons.mp hlines
      rw [List.foldl_cons, isPrefixOf?_eq_none (hl _ (by simp)), Option.getD_none, ih hlines]
  rw [List.foldl_append, hskip fun l => f.isExtended_of_mem]
  unfold changeLines namesNew
  cases f.change with
  | header => rfl
  | binary old new =>
    rw [List.foldl_cons, isPrefixOf?_eq_none (not_prefix_append (by decide) (by decide) _)]
    rfl
  | text old new hunks =>
    rw [List.foldl_cons, List.foldl_cons,
      isPrefixOf?_eq_none (not_prefix_append (b := "--- ".toList) (by decide) (by decide) _)]
    cases new with
    | true =>
      have hnew : "+++ ".toList ++ name 'b' true (f.path.val ++ tab f.path.val) =
        "+++ b/".toList ++ (f.path.val ++ tab f.path.val) := rfl
      rw [hnew, isPrefixOf?_append]
      rfl
    | false =>
      have hnone : ¬ "+++ b/".toList <+: "+++ ".toList ++ "/dev/null".toList := by decide
      rw [name, if_neg Bool.false_ne_true, isPrefixOf?_eq_none hnone]
      rfl

lemma newline_notMem_gitLine : '\n' ∉ f.gitLine := by
  unfold gitLine
  simp only [List.mem_append, not_or]
  exact ⟨by decide, by decide, f.path.2, by decide, f.path.2⟩

lemma feed_headLines (s : Reading) : s.feed f.headLines =
    ⟨s.files ++ [⟨f.readPath, f.isBinary, unlines f.headLines, []⟩], true, s.old, s.new⟩ := by
  have hfirst : s.line (f.gitLine ++ ['\n']) = ⟨s.files ++ [⟨(afterLast " b/".toList f.gitLine).getD [],
      false, f.gitLine ++ ['\n'], []⟩], true, s.old, s.new⟩ := by
    have hpre : "diff --git ".toList.isPrefixOf f.gitLine = true := by
      unfold gitLine
      exact List.isPrefixOf_iff_prefix.mpr (List.prefix_append _ _)
    unfold Reading.line Reading.lineOf
    rw [bare_line f.newline_notMem_gitLine, hpre, if_pos rfl]
  have hcons : s.feed f.headLines = (s.line (f.gitLine ++ ['\n'])).feed
    (f.extended.map Subtype.val ++ f.changeLines) := rfl
  have hlines : unlines f.headLines = f.gitLine ++ ['\n'] ++
    unlines (f.extended.map Subtype.val ++ f.changeLines) := List.flatMap_cons
  rw [hcons, hfirst, feed_header f.isHead_headLines, any_binary, foldl_path, hlines]
  rfl

end FileDiff

def following (n : ℕ) : ℕ := (n + 1) % 2 ^ 32

lemma following_lt (n : ℕ) : following n < 2 ^ 32 := Nat.mod_lt _ (by decide)

/-- The lines of a body with the numbers that the reader gives them. -/
def numbered : List BodyLine → ℕ → ℕ → List DiffLine
  | [], _, _ => []
  | .context text :: body, old, new => ⟨' ', text.val, some old, some new⟩ ::
      numbered body (following old) (following new)
  | .removed text :: body, old, new =>
    ⟨'-', text.val, some old, none⟩ :: numbered body (following old) new
  | .added text :: body, old, new =>
    ⟨'+', text.val, none, some new⟩ :: numbered body old (following new)
  | .marker _ :: body, old, new => numbered body old new

def counted (start count : ℕ) : List ℕ := (List.range count).map fun i => (start + i) % 2 ^ 32

lemma counted_succ {start : ℕ} (h : start < 2 ^ 32) (count : ℕ) :
    counted start (count + 1) = start :: counted (following start) count := by
  unfold counted following
  rw [List.range_succ_eq_map, List.map_cons, Nat.add_zero, Nat.mod_eq_of_lt h, List.map_map]
  refine congrArg _ (List.map_congr_left fun i _ => ?_)
  rw [Function.comp_apply, Nat.mod_add_mod, Nat.succ_eq_add_one, Nat.add_comm i, Nat.add_assoc]

lemma numbered_old (body : List BodyLine) {old : ℕ} (hold : old < 2 ^ 32) (new : ℕ) :
    (numbered body old new).filterMap DiffLine.old = counted old (body.countP BodyLine.isOld) := by
  induction body generalizing old new with
  | nil => rfl
  | cons line body ih =>
    cases line <;> simp [numbered, ih hold, ih (following_lt _), BodyLine.isOld, List.countP_cons,
      counted_succ hold]

lemma numbered_new (body : List BodyLine) (old : ℕ) {new : ℕ} (hnew : new < 2 ^ 32) :
    (numbered body old new).filterMap DiffLine.new = counted new (body.countP BodyLine.isNew) := by
  induction body generalizing old new with
  | nil => rfl
  | cons line body ih =>
    cases line <;> simp [numbered, ih _ hnew, ih _ (following_lt _), BodyLine.isNew, List.countP_cons,
      counted_succ hnew]

def readNumber (n : ℕ) : ℕ := if n < 2 ^ 32 then n else 0

lemma readNumber_lt (n : ℕ) : readNumber n < 2 ^ 32 := by
  unfold readNumber
  split
  · assumption
  · decide

/-- The numbers are those that are announced exactly if these have 32 bits. -/
lemma counted_eq_iff (start count : ℕ) :
    counted (readNumber start) count = List.range' start count ↔
      ∀ i < count, start + i < 2 ^ 32 := by
  rw [counted, List.range'_eq_map_range, List.map_inj_left]
  refine forall_congr' fun i => ?_
  rw [List.mem_range]
  refine imp_congr_right fun _ => ?_
  unfold readNumber
  split
  · exact Nat.mod_eq_iff_lt (by decide)
  · have hle := Nat.mod_le (0 + i) (2 ^ 32)
    omega

namespace BodyLine

lemma newline_notMem (line : BodyLine) : '\n' ∉ line.text := by
  rcases line with text | text | text | text <;> simpa [BodyLine.text] using text.2

lemma not_prefix (line : BodyLine) {c : Char} {rest : List Char}
    (hc : c ∉ [' ', '-', '+', '\\']) : ¬ c :: rest <+: line.text := by
  intro hpre
  cases line <;> exact hc (by simp [(List.cons_prefix_cons.mp hpre).1])

end BodyLine

lemma feed_body (body : List BodyLine) (files : List Parsed) (file : Parsed)
    (hunks : List ParsedHunk) (hunk : ParsedHunk) (old new : ℕ) : ∃ old' new',
    Reading.feed ⟨files ++ [{ file with hunks := hunks ++ [hunk] }], false, old, new⟩
        (body.map BodyLine.text) =
      ⟨files ++ [{ file with hunks := hunks ++ [{ hunk with
        body := hunk.body ++ unlines (body.map BodyLine.text)
        lines := hunk.lines ++ numbered body old new }] }], false, old', new'⟩ := by
  induction body generalizing hunk old new with
  | nil => exact ⟨old, new, by simp [Reading.feed, unlines, numbered]⟩
  | cons line body ih =>
    have hcons : ∀ s : Reading, s.feed ((line :: body).map BodyLine.text) =
      (s.line (line.text ++ ['\n'])).feed (body.map BodyLine.text) := fun _ => rfl
    rw [hcons, Reading.line_body line.newline_notMem (line.not_prefix (by decide)) files file old new
      (line.not_prefix (by decide))]
    have htext : unlines ((line :: body).map BodyLine.text) =
      line.text ++ ['\n'] ++ unlines (body.map BodyLine.text) := List.flatMap_cons
    rw [htext]
    cases line with
    | context text | removed text | added text =>
      simp only [Reading.bodyLine, BodyLine.text, List.head?_cons, List.tail_cons, Reading.amend,
        List.dropLast_concat, numbered, following]
      obtain ⟨old', new', hfeed⟩ := ih _ _ _
      refine ⟨old', new', hfeed.trans ?_⟩
      simp
    | marker text =>
      have hbody : ∀ (s : Reading) (file hunk line), s.bodyLine file hunk line (BodyLine.marker text).text =
        s.amend { file with hunks := file.hunks.dropLast ++
          [{ hunk with body := hunk.body ++ line, lines := hunk.lines ++ [] }] } := fun _ _ _ _ => rfl
      simp only [hbody, Reading.amend, List.dropLast_concat, numbered]
      obtain ⟨old', new', hfeed⟩ := ih _ _ _
      refine ⟨old', new', hfeed.trans ?_⟩
      simp

lemma notMem_range {c : Char} (hdigit : c.isDigit = false) (hcomma : c ≠ ',') (start count : ℕ) :
    c ∉ Hunk.range start count := by
  unfold Hunk.range
  split <;> simp [notMem_toDigits hdigit, hcomma]

lemma start_range {sign : Char} (hsign : sign = '-' ∨ sign = '+') (n count : ℕ) :
    start (sign :: Hunk.range n count) = readNumber n := by
  have hdrop : (sign :: Hunk.range n count).dropWhile (fun c => c = '-' || c = '+') =
      Hunk.range n count := by
    rw [List.dropWhile_cons_of_pos (by rcases hsign with rfl | rfl <;> rfl)]
    have hself : (Hunk.range n count).dropWhile (fun c => c = '-' || c = '+') = _ :=
      List.dropWhile_eq_self_iff.mpr fun hlength => by
        have hmem := List.getElem_mem hlength
        have hminus := notMem_range (c := '-') (by decide) (by decide) n count
        have hplus := notMem_range (c := '+') (by decide) (by decide) n count
        simp only [Bool.or_eq_true, decide_eq_true_eq, not_or]
        exact ⟨fun h => hminus (h ▸ hmem), fun h => hplus (h ▸ hmem)⟩
    exact hself
  have hdigits : (Hunk.range n count).takeWhile (· ≠ ',') = Nat.toDigits 10 n := by
    unfold Hunk.range
    have hcomma : ∀ c ∈ Nat.toDigits 10 n, decide (c ≠ ',') = true := fun c hc =>
      decide_eq_true fun h => notMem_toDigits (by decide) n (h ▸ hc)
    rw [List.takeWhile_append_of_pos hcomma]
    split <;> simp
  unfold start readNumber
  rw [hdrop, hdigits, parseUnsigned_toDigits]
  split <;> rfl

namespace Hunk

def parsed (h : Hunk) : ParsedHunk :=
  ⟨h.header, unlines (h.body.map BodyLine.text),
    numbered h.body (readNumber h.oldStart) (readNumber h.newStart)⟩

lemma newline_notMem_header (h : Hunk) : '\n' ∉ h.header := by
  have hrange := notMem_range (c := '\n') (by decide) (by decide)
  unfold header
  simp only [List.mem_append, List.mem_cons, not_or]
  exact ⟨by decide, ⟨by decide, hrange _ _⟩, by decide, ⟨by decide, hrange _ _⟩, by decide, by decide,
    by decide, h.heading.2⟩

lemma feed_lines (h : Hunk) (files : List Parsed) (file : Parsed) (inHeader : Bool)
    (old new : ℕ) : ∃ old' new', Reading.feed ⟨files ++ [file], inHeader, old, new⟩ h.lines =
      ⟨files ++ [{ file with hunks := file.hunks ++ [h.parsed] }], false, old', new'⟩ := by
  have hgit : ¬ "diff --git ".toList <+: h.header := not_prefix_append (by decide) (by decide) _
  have hspace := notMem_range (c := ' ') (by decide) (by decide)
  have hword : ∀ (sign : Char), sign ≠ ' ' → ∀ start count, ∀ c ∈ sign :: range start count,
      decide (c ≠ ' ') = true := by
    intro sign hsign start count c hc
    rcases List.mem_cons.mp hc with rfl | hc
    · simpa using hsign
    · exact decide_eq_true fun heq => hspace start count (heq ▸ hc)
  have hcons : ∀ s : Reading, s.feed h.lines =
    (s.line (h.header ++ ['\n'])).feed (h.body.map BodyLine.text) := fun _ => rfl
  rw [hcons, Reading.line_hunk h.newline_notMem_header hgit files file old new rfl]
  rw [List.takeWhile_append_of_pos (hword '-' (by decide) _ _),
    List.dropWhile_append_of_pos (hword '-' (by decide) _ _)]
  rw [List.takeWhile_cons_of_neg (by decide), List.dropWhile_cons_of_neg (by decide), List.tail_cons,
    List.takeWhile_append_of_pos (hword '+' (by decide) _ _), List.takeWhile_cons_of_neg (by decide),
    List.append_nil, List.append_nil, start_range (.inl rfl), start_range (.inr rfl)]
  exact feed_body h.body files file file.hunks ⟨h.header, [], []⟩ _ _

lemma newline_notMem_lines (h : Hunk) : ∀ l ∈ h.lines, '\n' ∉ l := by
  intro l hl
  rcases List.mem_cons.mp hl with rfl | hl
  · exact h.newline_notMem_header
  · obtain ⟨line, -, rfl⟩ := List.mem_map.mp hl
    exact line.newline_notMem

end Hunk

lemma feed_hunks (hunks : List Hunk) (files : List Parsed) (file : Parsed) (inHeader : Bool) (old new : ℕ) :
    (Reading.feed ⟨files ++ [file], inHeader, old, new⟩ (hunks.flatMap Hunk.lines)).files =
      files ++ [{ file with hunks := file.hunks ++ hunks.map Hunk.parsed }] := by
  induction hunks generalizing file inHeader old new with
  | nil => simp [Reading.feed]
  | cons h hunks ih =>
    obtain ⟨old', new', hfeed⟩ := h.feed_lines files file inHeader old new
    rw [List.flatMap_cons, Reading.feed_append, hfeed, ih]
    simp

namespace FileDiff

def parsed (f : FileDiff) : Parsed :=
  ⟨f.readPath, f.isBinary, unlines f.headLines, f.hunks.map Hunk.parsed⟩

lemma newline_notMem_lines (f : FileDiff) : ∀ l ∈ f.lines, '\n' ∉ l := by
  intro l hl
  rcases List.mem_append.mp hl with hl | hl
  · rcases List.mem_cons.mp hl with rfl | hl
    · exact f.newline_notMem_gitLine
    · exact (f.isHead_headLines l hl).1
  · obtain ⟨h, -, hl⟩ := List.mem_flatMap.mp hl
    exact h.newline_notMem_lines l hl

end FileDiff

lemma parse_diffText (files : List FileDiff) :
    parse (diffText files) = files.map FileDiff.parsed := by
  have hlines : ∀ l ∈ files.flatMap FileDiff.lines, '\n' ∉ l := by
    intro l hl
    obtain ⟨f, -, hl⟩ := List.mem_flatMap.mp hl
    exact f.newline_notMem_lines l hl
  have hfeed : ∀ s : Reading, (s.feed (files.flatMap FileDiff.lines)).files =
      s.files ++ files.map FileDiff.parsed := by
    clear hlines
    induction files with
    | nil => exact fun s => (List.append_nil _).symm
    | cons f files ih =>
      intro s
      rw [List.flatMap_cons, Reading.feed_append, ih, FileDiff.lines, Reading.feed_append,
        f.feed_headLines, feed_hunks]
      simp [FileDiff.parsed]
  unfold parse diffText
  rw [splitInclusive_unlines hlines, List.foldl_map]
  exact hfeed ⟨[], false, 0, 0⟩

lemma unlines_append (lines others : List (List Char)) :
    unlines (lines ++ others) = unlines lines ++ unlines others := List.flatMap_append

lemma unlines_flatMap {α : Type} (f : α → List (List Char)) (as : List α) :
    unlines (as.flatMap f) = as.flatMap fun a => unlines (f a) := List.flatMap_assoc

/-- The headers and hunks that the reader returns make up the diff, their lines bear the numbers that
the headers announce, and the paths are those of the diff. -/
structure Rebuilds (files : List FileDiff) : Prop where
  text : rebuild (parse (diffText files)) = diffText files
  numbers : List.Forall₂ (fun file f => List.Forall₂ (fun (hunk : ParsedHunk) (h : Hunk) =>
    hunk.lines.filterMap DiffLine.old = List.range' h.oldStart h.oldCount ∧
      hunk.lines.filterMap DiffLine.new = List.range' h.newStart h.newCount) file.hunks f.hunks)
    (parse (diffText files)) files
  paths : (parse (diffText files)).map (·.path) = files.map (·.path.val)

lemma rebuild_parse (files : List FileDiff) : rebuild (parse (diffText files)) = diffText files := by
  rw [parse_diffText]
  unfold rebuild diffText
  rw [List.flatMap_map, unlines_flatMap]
  congr 1
  funext f
  rw [FileDiff.lines, unlines_append, unlines_flatMap, FileDiff.parsed, List.flatMap_map]
  congr 2
  funext h
  simp [Hunk.parsed, Hunk.lines, unlines]

lemma Hunk.numbers_iff (h : Hunk) :
    h.parsed.lines.filterMap DiffLine.old = List.range' h.oldStart h.oldCount ∧
      h.parsed.lines.filterMap DiffLine.new = List.range' h.newStart h.newCount ↔ h.Fits := by
  unfold Hunk.parsed Hunk.Fits
  rw [numbered_old _ (readNumber_lt _), numbered_new _ _ (readNumber_lt _)]
  exact and_congr (counted_eq_iff ..) (counted_eq_iff ..)

/-- A diff that git writes is rebuilt just if its line numbers have 32 bits and its paths are
plain. -/
theorem rebuilds_iff_plain (files : List FileDiff) :
    Rebuilds files ↔ ∀ f ∈ files, (∀ h ∈ f.hunks, h.Fits) ∧ f.PathPlain := by
  have hnumbers : List.Forall₂ (fun file f => List.Forall₂ (fun (hunk : ParsedHunk) (h : Hunk) =>
      hunk.lines.filterMap DiffLine.old = List.range' h.oldStart h.oldCount ∧
        hunk.lines.filterMap DiffLine.new = List.range' h.newStart h.newCount) file.hunks f.hunks)
      (parse (diffText files)) files ↔ ∀ f ∈ files, ∀ h ∈ f.hunks, h.Fits := by
    rw [parse_diffText, List.forall₂_map_left_iff, List.forall₂_same]
    refine forall₂_congr fun f _ => ?_
    rw [FileDiff.parsed, List.forall₂_map_left_iff, List.forall₂_same]
    exact forall₂_congr fun h _ => h.numbers_iff
  have hpaths : (parse (diffText files)).map (·.path) = files.map (·.path.val) ↔
      ∀ f ∈ files, f.PathPlain := by
    rw [parse_diffText, List.map_map, List.map_inj_left]
    exact forall₂_congr fun f _ => f.readPath_eq_iff
  constructor
  · intro h f hf
    exact ⟨hnumbers.mp h.numbers f hf, hpaths.mp h.paths f hf⟩
  · intro h
    exact ⟨rebuild_parse files, hnumbers.mpr fun f hf => (h f hf).1,
      hpaths.mpr fun f hf => (h f hf).2⟩

def oneLineFile (path : Line) : FileDiff where
  path := path
  extended := [⟨"index 257cc56..5716ca5 100644".toList, by decide⟩]
  isExtended := by
    unfold IsExtended
    decide
  change := .text true true
    [⟨1, 1, ⟨[], by simp⟩, [.removed ⟨"foo".toList, by decide⟩, .added ⟨"bar".toList, by decide⟩]⟩]

/-- A space in the path: the tab after it is taken for a part of it. -/
theorem spaced_path_misread :
    (parse (diffText [oneLineFile ⟨"a b.rs".toList, by decide⟩])).map (·.path) =
      ["a b.rs\t".toList] ∧ ¬ Rebuilds [oneLineFile ⟨"a b.rs".toList, by decide⟩] := by
  have hpath : (parse (diffText [oneLineFile ⟨"a b.rs".toList, by decide⟩])).map (·.path) =
      ["a b.rs\t".toList] := by decide
  refine ⟨hpath, fun h => ?_⟩
  have hpaths := hpath.symm.trans h.paths
  exact absurd hpaths (by decide)

end Aeroric.ChangeReview
