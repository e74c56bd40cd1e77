import Aeroric.Ranges
import Aeroric.Sse
import Mathlib.Data.List.Dedup
import Mathlib.Data.List.Sort

/-! The links between notes. A link is resolved by the name of a file, a title, a path or the end of
one, and is found again from the other side by its normal form. -/
namespace Aeroric.NoteLinks

open Ranges (byteLen cutAt isCharBoundary)
open Sse (trim)

abbrev Text := List Char

/-- `none` is a panic: the text is cut in the middle of a character. -/
def stripMdExtension (input : Text) : Option Text :=
  let len := byteLen input
  if 3 ≤ len then
    (cutAt input (len - 3)).map fun cut =>
      if cut.2.map Char.toLower = ".md".toList then cut.1 else input
  else some input

def hexDigit (byte : UInt8) : Option ℕ :=
  let n := byte.toNat
  if 0x30 ≤ n ∧ n ≤ 0x39 then some (n - 0x30)
  else if 0x41 ≤ n ∧ n ≤ 0x46 then some (n - 0x41 + 10)
  else if 0x61 ≤ n ∧ n ≤ 0x66 then some (n - 0x61 + 10)
  else none

def decodeBytes : List UInt8 → List UInt8
  | [] => []
  | b :: h :: l :: rest =>
    match hexDigit h, hexDigit l with
    | some h', some l' =>
      if b = 0x25 then .ofNat (h' * 16 + l') :: decodeBytes rest else b :: decodeBytes (h :: l :: rest)
    | _, _ => b :: decodeBytes (h :: l :: rest)
  | b :: rest => b :: decodeBytes rest

def percentDecode (input : Text) : Text :=
  if '%' ∈ input then
    match String.fromUTF8? ⟨(decodeBytes (input.flatMap String.utf8EncodeChar)).toArray⟩ with
    | some text => text.toList
    | none => input
  else input

def decoded (input : Text) : Text :=
  percentDecode ((trim input).map fun c => if c = '\\' then '/' else c)

def trimSlashes (input : Text) : Text := (input.dropWhile (· = '/')).rdropWhile (· = '/')

def fileName (path : Text) : Text := path.rtakeWhile fun c => c ≠ '/' ∧ c ≠ '\\'

def stemOf (path : Text) : Option Text := stripMdExtension (fileName path)

inductive Via
  | stem
  | title
  | path
  deriving DecidableEq

structure Resolved where
  id : ℤ
  via : Via
  ambiguous : Bool
  deriving DecidableEq

structure DocRef where
  id : ℤ
  path : Text
  title : Text

structure Link where
  docId : ℤ
  target : Text
  targetNorm : Text

structure DocKeys where
  stem : Text
  title : Text
  path : Text

/-- The tables hold keys that are not empty, with the note of each, in the order of the notes. -/
structure LinkIndex where
  byStem : List (Text × ℤ)
  byTitle : List (Text × ℤ)
  paths : List (Text × ℤ)

namespace LinkIndex

def add (index : LinkIndex) (keys : DocKeys) (id : ℤ) : LinkIndex where
  byStem := if keys.stem = [] then index.byStem else index.byStem ++ [(keys.stem, id)]
  byTitle := if keys.title = [] then index.byTitle else index.byTitle ++ [(keys.title, id)]
  paths := if keys.path = [] then index.paths else index.paths ++ [(keys.path, id)]

def ids (table : List (Text × ℤ)) (needle : Text) : List ℤ :=
  ((table.filter (·.1 = needle)).map Prod.snd).insertionSort (· ≤ ·)

def tailHits (index : LinkIndex) (needle : Text) : List ℤ :=
  ((index.paths.insertionSort fun a b => a.1 < b.1 ∨ a.1 = b.1 ∧ a.2 ≤ b.2).filter fun p =>
    '/' :: needle <:+ p.1).map Prod.snd

def first (via : Via) : List ℤ → Option Resolved
  | [] => none
  | id :: rest => some ⟨id, via, !rest.isEmpty⟩

def lookup (index : LinkIndex) (needle : Text) : Option Resolved :=
  if needle = [] then none
  else if '/' ∉ needle then
    (first .stem (ids index.byStem needle)).or (first .title (ids index.byTitle needle))
  else
    match index.paths.lookup needle with
    | some id => some ⟨id, .path, false⟩
    | none => first .path (index.tailHits needle)

end LinkIndex

section
variable (lower : Text → Text)

def normalizeTarget (input : Text) : Option Text :=
  (stripMdExtension (decoded input)).map fun noExt => lower (trimSlashes noExt)

def docKeys (doc : DocRef) : Option DocKeys := do
  let stem ← (stemOf doc.path).bind (normalizeTarget lower)
  let title ← normalizeTarget lower doc.title
  let path ← normalizeTarget lower doc.path
  return ⟨stem, title, path⟩

def LinkIndex.build (docs : List DocRef) : Option LinkIndex :=
  docs.foldlM (fun index doc => (docKeys lower doc).map (index.add · doc.id)) ⟨[], [], []⟩

def LinkIndex.resolve (index : LinkIndex) (target : Text) : Option (Option Resolved) :=
  (normalizeTarget lower target).map index.lookup

/-- The notes of a notebook and their links, with the normal form that was stored with each; nothing
is said of one on which the normal form panics. -/
structure Notebook where
  docs : List DocRef
  links : List Link
  ids : (docs.map DocRef.id).Nodup
  norms : ∀ link ∈ links, ∀ norm ∈ normalizeTarget lower link.target, link.targetNorm = norm

variable {lower}

/-- Links to the note itself are left out, and repetitions. -/
def collect (docId : ℤ) (out : List ℤ) : Option Resolved → List ℤ
  | some r => if r.id ≠ docId ∧ r.id ∉ out then out ++ [r.id] else out
  | none => out

def forwardTargets (nb : Notebook lower) (index : LinkIndex) (docId : ℤ) : Option (List ℤ) :=
  (nb.links.filter (·.docId = docId)).foldlM (fun out link =>
    (index.resolve lower link.target).map (collect docId out)) []

def backlinks (nb : Notebook lower) (doc : DocRef) : Option (List ℤ) :=
  (docKeys lower doc).map fun keys =>
    let keys := [keys.stem, keys.title, keys.path].filter (· ≠ [])
    let hits := nb.links.filter fun link => link.targetNorm ∈ keys ∧ link.docId ≠ doc.id
    (hits.map Link.docId).dedup.insertionSort (· ≤ ·)

/-- Nothing panics, and a link that leads to a note is seen from there. -/
def SeenFromBothEnds (nb : Notebook lower) : Prop :=
  ∃ index, LinkIndex.build lower nb.docs = some index ∧
    ∀ a ∈ nb.docs, ∃ targets, forwardTargets nb index a.id = some targets ∧
      ∀ b ∈ nb.docs, ∃ sources, backlinks nb b = some sources ∧ (b.id ∈ targets → a.id ∈ sources)

/-- The last three bytes of the text begin with a character. -/
def CutsCleanly (text : Text) : Prop :=
  3 ≤ byteLen text → isCharBoundary text (byteLen text - 3) = true

instance (text : Text) : Decidable (CutsCleanly text) := inferInstanceAs (Decidable (_ → _))

/-- Whatever of a note's names loses its extension has whole characters there. -/
structure DocRef.CutsCleanly (doc : DocRef) : Prop where
  file : NoteLinks.CutsCleanly (fileName doc.path)
  stem : ∀ stem ∈ stemOf doc.path, NoteLinks.CutsCleanly (decoded stem)
  title : NoteLinks.CutsCleanly (decoded doc.title)
  path : NoteLinks.CutsCleanly (decoded doc.path)

def LinkIndex.tailHit (index : LinkIndex) (needle : Text) : Option ℤ :=
  if '/' ∈ needle ∧ index.paths.lookup needle = none then (index.tailHits needle).head? else none

def Names (lower : Text → Text) (norm : Text) (doc : DocRef) : Prop :=
  norm ≠ [] ∧ ∃ keys ∈ docKeys lower doc, norm ∈ [keys.stem, keys.title, keys.path]

/-- No name of a note and no target of its links is cut within a character, and a note that links to
another one by the end of its path links to it by one of its keys as well. -/
structure Notebook.Linkable (nb : Notebook lower) : Prop where
  docs : ∀ doc ∈ nb.docs, doc.CutsCleanly
  links : ∀ doc ∈ nb.docs, ∀ link ∈ nb.links, link.docId = doc.id → CutsCleanly (decoded link.target)
  tails : ∀ index ∈ LinkIndex.build lower nb.docs, ∀ a ∈ nb.docs, ∀ b ∈ nb.docs, b.id ≠ a.id →
    ∀ link ∈ nb.links, link.docId = a.id → index.tailHit link.targetNorm = some b.id →
      ∃ other ∈ nb.links, other.docId = a.id ∧ Names lower other.targetNorm b

variable {doc : DocRef} {index : LinkIndex} {needle : Text} {nb : Notebook lower}

lemma stripMdExtension_isSome_iff {text : Text} :
    (stripMdExtension text).isSome = true ↔ CutsCleanly text := by
  unfold stripMdExtension CutsCleanly
  dsimp only
  split
  · next hlen =>
    rw [Option.isSome_map]
    exact ⟨fun h _ => h, fun h => h hlen⟩
  · next hlen => exact ⟨fun _ h => absurd h hlen, fun _ => rfl⟩

lemma normalizeTarget_isSome_iff {text : Text} :
    (normalizeTarget lower text).isSome = true ↔ CutsCleanly (decoded text) := by
  rw [normalizeTarget, Option.isSome_map, stripMdExtension_isSome_iff]

lemma docKeys_isSome_iff : (docKeys lower doc).isSome = true ↔ doc.CutsCleanly := by
  have hkeys : (docKeys lower doc).isSome = true ↔
      ((stemOf doc.path).bind (normalizeTarget lower)).isSome = true ∧
        (normalizeTarget lower doc.title).isSome = true ∧
        (normalizeTarget lower doc.path).isSome = true := by
    unfold docKeys
    cases (stemOf doc.path).bind (normalizeTarget lower) <;>
      cases normalizeTarget lower doc.title <;> cases normalizeTarget lower doc.path <;> simp
  rw [hkeys, normalizeTarget_isSome_iff, normalizeTarget_isSome_iff]
  constructor
  · rintro ⟨hstem, htitle, hpath⟩
    obtain ⟨key, hkey⟩ := Option.isSome_iff_exists.mp hstem
    obtain ⟨stem, hfile, hnorm⟩ := Option.bind_eq_some_iff.mp hkey
    refine ⟨stripMdExtension_isSome_iff.mp (Option.isSome_of_mem hfile), fun other hother => ?_,
      htitle, hpath⟩
    cases hfile.symm.trans hother
    exact normalizeTarget_isSome_iff.mp (Option.isSome_of_mem hnorm)
  · intro h
    obtain ⟨stem, hstem⟩ := Option.isSome_iff_exists.mp (stripMdExtension_isSome_iff.mpr h.file)
    refine ⟨?_, h.title, h.path⟩
    rw [stemOf, hstem, Option.bind_some]
    exact normalizeTarget_isSome_iff.mpr (h.stem stem hstem)

/-- What the tables hold are keys of notes. -/
structure LinkIndex.Of (P : DocKeys → ℤ → Prop) (index : LinkIndex) : Prop where
  stem : ∀ e ∈ index.byStem, ∃ keys, P keys e.2 ∧ keys.stem = e.1
  title : ∀ e ∈ index.byTitle, ∃ keys, P keys e.2 ∧ keys.title = e.1
  path : ∀ e ∈ index.paths, ∃ keys, P keys e.2 ∧ keys.path = e.1

lemma mem_grown {table : List (Text × ℤ)} {key : Text} {id : ℤ} {e : Text × ℤ}
    (h : e ∈ if key = [] then table else table ++ [(key, id)]) : e ∈ table ∨ e = (key, id) := by
  split at h
  · exact .inl h
  · simpa using h

lemma LinkIndex.Of.add {P : DocKeys → ℤ → Prop} (h : index.Of P) {keys : DocKeys} {id : ℤ}
    (hP : P keys id) : (index.add keys id).Of P where
  stem e he := by
    rcases mem_grown he with he | rfl
    · exact h.stem e he
    · exact ⟨keys, hP, rfl⟩
  title e he := by
    rcases mem_grown he with he | rfl
    · exact h.title e he
    · exact ⟨keys, hP, rfl⟩
  path e he := by
    rcases mem_grown he with he | rfl
    · exact h.path e he
    · exact ⟨keys, hP, rfl⟩

lemma build_isSome {docs : List DocRef} (h : ∀ doc ∈ docs, (docKeys lower doc).isSome = true)
    (index : LinkIndex) :
    ∃ built, docs.foldlM (fun index doc => (docKeys lower doc).map (index.add · doc.id)) index =
      some built := by
  induction docs generalizing index with
  | nil => exact ⟨index, rfl⟩
  | cons doc docs ih =>
    obtain ⟨hdoc, hdocs⟩ := List.forall_mem_cons.mp h
    obtain ⟨keys, hkeys⟩ := Option.isSome_iff_exists.mp hdoc
    rw [List.foldlM_cons, hkeys]
    exact ih hdocs (index.add keys doc.id)

/-- An index that is built holds the keys of its notes, and there are some for each. -/
lemma of_build {P : DocKeys → ℤ → Prop} {docs : List DocRef} {built : LinkIndex}
    (hindex : index.Of P) (hdocs : ∀ doc ∈ docs, ∀ keys ∈ docKeys lower doc, P keys doc.id)
    (h : docs.foldlM (fun index doc => (docKeys lower doc).map (index.add · doc.id)) index =
      some built) :
    built.Of P ∧ ∀ doc ∈ docs, (docKeys lower doc).isSome = true := by
  induction docs generalizing index with
  | nil =>
    obtain rfl := Option.some.inj h
    exact ⟨hindex, by simp⟩
  | cons doc docs ih =>
    obtain ⟨hdoc, hdocs⟩ := List.forall_mem_cons.mp hdocs
    rw [List.foldlM_cons] at h
    obtain ⟨grown, hgrown, hbuilt⟩ := Option.bind_eq_some_iff.mp h
    obtain ⟨keys, hkeys, rfl⟩ := Option.map_eq_some_iff.mp hgrown
    obtain ⟨hof, hsome⟩ := ih (hindex.add (hdoc keys hkeys)) hdocs hbuilt
    exact ⟨hof, List.forall_mem_cons.mpr ⟨Option.isSome_of_mem hkeys, hsome⟩⟩

lemma mem_of_first {via : Via} {table : List (Text × ℤ)} {r : Resolved}
    (h : LinkIndex.first via (LinkIndex.ids table needle) = some r) : (needle, r.id) ∈ table := by
  have hmem : r.id ∈ LinkIndex.ids table needle := by
    unfold LinkIndex.first at h
    split at h
    · cases h
    · next heq =>
      cases h
      rw [heq]
      exact List.mem_cons_self
  simp only [LinkIndex.ids, List.mem_insertionSort, List.mem_map, List.mem_filter,
    decide_eq_true_eq] at hmem
  obtain ⟨e, ⟨he, rfl⟩, heq⟩ := hmem
  exact heq ▸ he

/-- A link has a key of its note as its normal form, or is resolved by the end of a path. -/
lemma LinkIndex.Of.lookup {P : DocKeys → ℤ → Prop} (h : index.Of P) {r : Resolved}
    (hr : index.lookup needle = some r) :
    (needle ≠ [] ∧ ∃ keys, P keys r.id ∧ needle ∈ [keys.stem, keys.title, keys.path]) ∨
      index.tailHit needle = some r.id := by
  unfold LinkIndex.lookup at hr
  split at hr
  · cases hr
  · next hne =>
    split at hr
    · refine .inl ⟨hne, ?_⟩
      rcases Option.or_eq_some_iff.mp hr with hr | ⟨-, hr⟩
      · obtain ⟨keys, hP, hkey⟩ := h.stem _ (mem_of_first hr)
        exact ⟨keys, hP, by simp [hkey]⟩
      · obtain ⟨keys, hP, hkey⟩ := h.title _ (mem_of_first hr)
        exact ⟨keys, hP, by simp [hkey]⟩
    · next hslash =>
      split at hr
      · next id hid =>
        cases hr
        obtain ⟨front, back, hpaths, -⟩ := List.lookup_eq_some_iff.mp hid
        obtain ⟨keys, hP, hkey⟩ := h.path (needle, id) (by rw [hpaths]; simp)
        exact .inl ⟨hne, keys, hP, by simp [hkey]⟩
      · next hnone =>
        refine .inr ?_
        rw [LinkIndex.tailHit, if_pos ⟨Classical.not_not.mp hslash, hnone⟩]
        unfold LinkIndex.first at hr
        split at hr
        · cases hr
        · next heq =>
          cases hr
          rw [heq, List.head?_cons]

lemma LinkIndex.lookup_of_tailHit {id : ℤ} (h : index.tailHit needle = some id) :
    ∃ r, index.lookup needle = some r ∧ r.id = id := by
  unfold LinkIndex.tailHit at h
  split at h
  · next hcase =>
    have hne : needle ≠ [] := List.ne_nil_of_mem hcase.1
    obtain ⟨rest, hrest⟩ := List.head?_eq_some_iff.mp h
    refine ⟨⟨id, .path, !rest.isEmpty⟩, ?_, rfl⟩
    rw [LinkIndex.lookup, if_neg hne, if_neg (not_not.mpr hcase.1), hcase.2, hrest]
    rfl
  · cases h

lemma mem_collect_iff {docId : ℤ} {out : List ℤ} {resolved : Option Resolved} {id : ℤ} :
    id ∈ collect docId out resolved ↔
      id ∈ out ∨ id ≠ docId ∧ ∃ r, resolved = some r ∧ r.id = id := by
  cases resolved with
  | none => simp [collect]
  | some r =>
    simp only [collect, Option.some.injEq, exists_eq_left']
    split
    · next hnew =>
      rw [List.mem_append, List.mem_singleton]
      refine or_congr_right ⟨?_, fun h => h.2.symm⟩
      rintro rfl
      exact ⟨hnew.1, rfl⟩
    · next hold =>
      refine ⟨.inl, fun h => h.elim (fun hmem => hmem) ?_⟩
      rintro ⟨hne, rfl⟩
      by_contra hout
      exact hold ⟨hne, hout⟩

lemma exists_targets (docId : ℤ) {links : List Link}
    (hnorms : ∀ link ∈ links, normalizeTarget lower link.target = some link.targetNorm)
    (out : List ℤ) :
    ∃ targets, links.foldlM (fun out link =>
        (index.resolve lower link.target).map (collect docId out)) out = some targets ∧
      ∀ id, id ∈ targets ↔ id ∈ out ∨ id ≠ docId ∧
        ∃ link ∈ links, ∃ r, index.lookup link.targetNorm = some r ∧ r.id = id := by
  induction links generalizing out with
  | nil => exact ⟨out, rfl, by simp⟩
  | cons link links ih =>
    obtain ⟨hlink, hlinks⟩ := List.forall_mem_cons.mp hnorms
    have hresolve : index.resolve lower link.target = some (index.lookup link.targetNorm) := by
      rw [LinkIndex.resolve, hlink, Option.map_some]
    obtain ⟨targets, htargets, hfound⟩ :=
      ih hlinks (collect docId out (index.lookup link.targetNorm))
    refine ⟨targets, ?_, fun id => ?_⟩
    · rw [List.foldlM_cons, hresolve]
      exact htargets
    · rw [hfound, mem_collect_iff, List.exists_mem_cons_iff, and_or_left, or_assoc]

lemma clean_of_targets {docId : ℤ} {links : List Link} {out targets : List ℤ}
    (h : links.foldlM (fun out link =>
      (index.resolve lower link.target).map (collect docId out)) out = some targets) :
    ∀ link ∈ links, (normalizeTarget lower link.target).isSome = true := by
  induction links generalizing out with
  | nil => simp
  | cons link links ih =>
    rw [List.foldlM_cons] at h
    obtain ⟨next, hnext, hrest⟩ := Option.bind_eq_some_iff.mp h
    obtain ⟨resolved, hresolved, -⟩ := Option.map_eq_some_iff.mp hnext
    obtain ⟨norm, hnorm, -⟩ := Option.map_eq_some_iff.mp hresolved
    exact List.forall_mem_cons.mpr ⟨Option.isSome_of_mem hnorm, ih hrest⟩

lemma forwardTargets_spec {docId : ℤ} (hclean : ∀ link ∈ nb.links, link.docId = docId →
      CutsCleanly (decoded link.target)) (index : LinkIndex) :
    ∃ targets, forwardTargets nb index docId = some targets ∧ ∀ id, id ∈ targets ↔ id ≠ docId ∧
      ∃ link ∈ nb.links, link.docId = docId ∧
        ∃ r, index.lookup link.targetNorm = some r ∧ r.id = id := by
  have hnorms : ∀ link ∈ nb.links.filter (·.docId = docId),
      normalizeTarget lower link.target = some link.targetNorm := by
    intro link hlink
    obtain ⟨hlink, hdoc⟩ := List.mem_filter.mp hlink
    obtain ⟨norm, hnorm⟩ := Option.isSome_iff_exists.mp
      (normalizeTarget_isSome_iff.mpr (hclean link hlink (of_decide_eq_true hdoc)))
    rw [hnorm, nb.norms link hlink norm hnorm]
  obtain ⟨targets, htargets, hfound⟩ := @exists_targets _ index docId _ hnorms []
  refine ⟨targets, htargets, fun id => ?_⟩
  rw [hfound]
  simp [and_assoc]

lemma backlinks_spec (h : doc.CutsCleanly) : ∃ sources, backlinks nb doc = some sources ∧
    ∀ id, id ∈ sources ↔ id ≠ doc.id ∧
      ∃ link ∈ nb.links, link.docId = id ∧ Names lower link.targetNorm doc := by
  obtain ⟨keys, hkeys⟩ := Option.isSome_iff_exists.mp (docKeys_isSome_iff.mpr h)
  refine ⟨_, by rw [backlinks, hkeys]; rfl, fun id => ?_⟩
  have hnames : ∀ norm, Names lower norm doc ↔
      norm ∈ [keys.stem, keys.title, keys.path].filter (· ≠ []) := fun norm => by
    rw [Names, hkeys, List.mem_filter]
    simp [and_comm]
  rw [List.mem_insertionSort, List.mem_dedup, List.mem_map]
  simp only [hnames]
  constructor
  · rintro ⟨link, hlink, rfl⟩
    obtain ⟨hlink, hcase⟩ := List.mem_filter.mp hlink
    obtain ⟨hnorm, hne⟩ := of_decide_eq_true hcase
    exact ⟨hne, link, hlink, rfl, hnorm⟩
  · rintro ⟨hne, link, hlink, rfl, hnorm⟩
    exact ⟨link, List.mem_filter.mpr ⟨hlink, decide_eq_true ⟨hnorm, hne⟩⟩, rfl⟩

/-- Every link is seen from both ends exactly if no name and no target is cut within a character and
none is resolved by the end of a path alone. -/
theorem seenFromBothEnds_iff (nb : Notebook lower) : SeenFromBothEnds nb ↔ nb.Linkable := by
  have hof {index : LinkIndex} (hindex : LinkIndex.build lower nb.docs = some index) := of_build
    (P := fun keys id => ∃ doc ∈ nb.docs, docKeys lower doc = some keys ∧ doc.id = id)
    (show LinkIndex.Of _ ⟨[], [], []⟩ from ⟨nofun, nofun, nofun⟩)
    (fun doc hdoc keys hkeys => ⟨doc, hdoc, hkeys, rfl⟩) hindex
  constructor
  · rintro ⟨index, hindex, hseen⟩
    have hdocs : ∀ doc ∈ nb.docs, doc.CutsCleanly := fun doc hdoc =>
      docKeys_isSome_iff.mp ((hof hindex).2 doc hdoc)
    have hlinks : ∀ doc ∈ nb.docs, ∀ link ∈ nb.links, link.docId = doc.id →
        CutsCleanly (decoded link.target) := by
      intro doc hdoc link hlink hid
      obtain ⟨targets, htargets, -⟩ := hseen doc hdoc
      exact normalizeTarget_isSome_iff.mp (clean_of_targets htargets link
        (List.mem_filter.mpr ⟨hlink, decide_eq_true hid⟩))
    refine ⟨hdocs, hlinks, fun other hother a ha b hb hne link hlink hdoc htail => ?_⟩
    cases hindex.symm.trans hother
    obtain ⟨targets, htargets, hsources⟩ := hseen a ha
    obtain ⟨targets', htargets', hfound⟩ := forwardTargets_spec (hlinks a ha) index
    cases htargets.symm.trans htargets'
    obtain ⟨sources, hback, hmem⟩ := hsources b hb
    obtain ⟨sources', hback', hlisted⟩ := @backlinks_spec _ b nb (hdocs b hb)
    cases hback.symm.trans hback'
    have htarget := (hfound b.id).mpr
      ⟨hne, link, hlink, hdoc, LinkIndex.lookup_of_tailHit htail⟩
    exact ((hlisted a.id).mp (hmem htarget)).2
  · intro h
    obtain ⟨index, hindex⟩ := build_isSome
      (fun doc hdoc => docKeys_isSome_iff.mpr (h.docs doc hdoc)) ⟨[], [], []⟩
    refine ⟨index, hindex, fun a ha => ?_⟩
    obtain ⟨targets, htargets, hfound⟩ := forwardTargets_spec (h.links a ha) index
    refine ⟨targets, htargets, fun b hb => ?_⟩
    obtain ⟨sources, hsources, hlisted⟩ := @backlinks_spec _ b nb (h.docs b hb)
    refine ⟨sources, hsources, fun htarget => (hlisted a.id).mpr ?_⟩
    obtain ⟨hne, link, hlink, hdoc, r, hr, hid⟩ := (hfound b.id).mp htarget
    refine ⟨hne.symm, ?_⟩
    rcases (hof hindex).1.lookup hr with ⟨hnorm, keys, ⟨b', hb', hkeys, hid'⟩, hkey⟩ | htail
    · obtain rfl : b' = b := List.inj_on_of_nodup_map nb.ids hb' hb (hid'.trans hid)
      exact ⟨link, hlink, hdoc, hnorm, keys, hkeys, hkey⟩
    · exact h.tails index hindex a ha b hb hne link hlink hdoc (hid ▸ htail)

end

def noteA : DocRef := ⟨1, "/v/a.md".toList, "a".toList⟩
def noteFoo : DocRef := ⟨2, "/v/sub/foo.md".toList, "Foo".toList⟩

def linked (target : String) (h : normalizeTarget id target.toList = some target.toList) :
    Notebook id where
  docs := [noteA, noteFoo]
  links := [⟨1, target.toList, target.toList⟩]
  ids := by decide
  norms := by simp [h]

theorem seenFromBothEnds_foo : SeenFromBothEnds (linked "foo" (by decide)) := by
  refine (seenFromBothEnds_iff _).mpr ⟨?_, ?_, ?_⟩
  · simp only [linked, List.mem_cons, List.not_mem_nil, or_false, forall_eq_or_imp, forall_eq]
    exact ⟨⟨by decide, by decide, by decide, by decide⟩, ⟨by decide, by decide, by decide, by decide⟩⟩
  · decide
  · intro index _ a _ b _ _ link hlink _ htail
    obtain rfl := List.mem_singleton.mp hlink
    rw [LinkIndex.tailHit, if_neg fun h => absurd h.1 (by decide)] at htail
    cases htail

/-- A title of two characters and a digit has its third last byte within a character. -/
def plan : Notebook id where
  docs := [⟨1, "/v/a.md".toList, "计划1".toList⟩]
  links := []
  ids := by decide
  norms := nofun

theorem not_seenFromBothEnds :
    ¬ SeenFromBothEnds plan ∧ ¬ SeenFromBothEnds (linked "sub/foo" (by decide)) := by
  constructor
  · rintro ⟨index, hindex, -⟩
    have hpanics : (LinkIndex.build id plan.docs).isNone = true := by decide
    rw [hindex] at hpanics
    cases hpanics
  · rintro ⟨index, hindex, h⟩
    have hbuilt : LinkIndex.build id (linked "sub/foo" (by decide)).docs =
      some ⟨[("a".toList, 1), ("foo".toList, 2)], [("a".toList, 1), ("Foo".toList, 2)],
        [("v/a".toList, 1), ("v/sub/foo".toList, 2)]⟩ := by rfl
    cases hindex.symm.trans hbuilt
    obtain ⟨targets, htargets, h⟩ := h noteA (by simp [linked])
    obtain ⟨sources, hsources, hseen⟩ := h noteFoo (by simp [linked])
    cases htargets.symm.trans (show _ = some [2] by decide)
    cases hsources.symm.trans (show _ = some [] by decide)
    exact absurd (hseen (by decide)) List.not_mem_nil

end Aeroric.NoteLinks
