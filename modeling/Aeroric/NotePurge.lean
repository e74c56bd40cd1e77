import Aeroric.NoteHistory
import Aeroric.Ranges
import Aeroric.Runs

/-! What purging the trash does to the versions of the notes. The versions lie in a directory that is
named after the path of the note, and purging removes the directories of all paths from which notes
went into the trash. -/
namespace Aeroric.NotePurge

open NoteHistory (EntryId maxSnapshotBytes maxNoteSnapshots)
open Ranges (byteLen)

def minSnapshotIntervalMs : ℕ := 3 * 60 * 1000
def maxSizeDepth : ℕ := 12

abbrev Path := List String
abbrev Content := List Char

structure Note where
  /-- Which note of all that were ever created it is. -/
  id : ℕ
  content : Content
  deriving DecidableEq

structure Snapshot where
  content : Content
  /-- The note it was recorded from. -/
  note : ℕ
  deriving DecidableEq

abbrev Versions := Table EntryId Snapshot

/-- An entry of the trash. Its notes are listed with the paths at which they were. -/
structure Entry where
  relativePath : Path
  isDir : Bool
  payload : List (Path × Note)

structure Vault where
  notes : List (Path × Note)
  trash : List (ℕ × Entry)
  /-- The versions below the directory of a path. -/
  history : Path → Versions
  created : ℕ

/-! Versions. -/

/-- Only names without a suffix are read as a time. -/
def latestTimestamp (versions : Versions) : Option ℕ :=
  (versions.keys.filter fun id => (ofLex id).2 = 0).getLast?.map fun id => (ofLex id).1

def withinMinInterval (versions : Versions) (nowMs : ℕ) : Bool :=
  (latestTimestamp versions).any fun latest => nowMs - latest < minSnapshotIntervalMs

def createSnapshot (nowMs : ℕ) (note : Note) (versions : Versions) : Versions :=
  match ((List.range 1000).map fun suffix => toLex (nowMs, suffix)).find? fun id =>
      (versions.get id).isNone with
  | some id =>
    let versions := versions.set id ⟨note.content, note.id⟩
    versions.filter fun id _ => id ∈ versions.latest maxNoteSnapshots
  | none => versions

def recordSnapshot (nowMs : ℕ) (next : Content) (note : Note) (versions : Versions) : Versions :=
  if maxSnapshotBytes < byteLen note.content ∨ note.content = next ∨
      withinMinInterval versions nowMs then versions
  else createSnapshot nowMs note versions

/-- The directory of a path is removed with all below it. If that fails, some files survive. -/
def discard (survives : Path → EntryId → Bool) (history : Path → Versions) (path : Path) :
    Path → Versions := fun p =>
  if path <+: p then (history p).filter fun id _ => survives p id else history p

/-- The paths of the files in a payload. A folder is not searched too deep. -/
def Entry.relatives (e : Entry) : List Path :=
  if e.isDir then
    (e.payload.map Prod.fst).filter fun path => path.length ≤ e.relativePath.length + maxSizeDepth
  else [e.relativePath]

/-- What a purge meets. -/
structure Purge where
  id : ℕ
  payloadExists : Bool
  survives : Path → EntryId → Bool
  removed : Bool

namespace Vault

def new : Vault := ⟨[], [], fun _ => .empty, 0⟩

/-- A file or a folder stands at the path, or a file where a folder above it would have to be. -/
def occupied (v : Vault) (path : Path) : Bool := v.notes.any fun n => path <+: n.1 ∨ n.1 <+: path

def create (path : Path) (content : Content) (v : Vault) : Vault :=
  if v.occupied path then v
  else { v with notes := (path, ⟨v.created, content⟩) :: v.notes, created := v.created + 1 }

/-- Saving to a path without a note makes one. -/
def save (path : Path) (content : Content) (nowMs : ℕ) (v : Vault) : Vault :=
  match v.notes.lookup path with
  | some note =>
    { v with
      notes := v.notes.map fun n => if n.1 = path then (path, { note with content := content }) else n
      history := Function.update v.history path
        (recordSnapshot nowMs content note (v.history path)) }
  | none => v.create path content

def moveToTrash (target : Path) (id : ℕ) (v : Vault) : Vault :=
  if target = [] ∨ (v.trash.lookup id).isSome then v
  else
    let entry : Entry :=
      ⟨target, (v.notes.lookup target).isNone, v.notes.filter fun n => target <+: n.1⟩
    { v with
      notes := v.notes.filter fun n => ¬target <+: n.1
      trash := (id, entry) :: v.trash }

/-- `refused` stands for a file system that does not move the payload. -/
def restore (id : ℕ) (refused : Bool) (v : Vault) : Vault :=
  match v.trash.lookup id with
  | some entry =>
    if v.occupied entry.relativePath || refused then v
    else { v with notes := entry.payload ++ v.notes, trash := v.trash.filter (·.1 ≠ id) }
  | none => v

def purge (v : Vault) (p : Purge) : Vault :=
  match v.trash.lookup p.id with
  | some entry =>
    let history := if p.payloadExists then entry.relatives.foldl (discard p.survives) v.history
      else v.history
    let trash := if p.payloadExists && !p.removed then v.trash else v.trash.filter (·.1 ≠ p.id)
    { v with history := history, trash := trash }
  | none => v

def purgeAll (ps : List Purge) (v : Vault) : Vault := ps.foldl purge v

/-- The versions that are shown for a note, the last one first. -/
def list (v : Vault) (path : Path) : List EntryId := (v.history path).latest maxNoteSnapshots

def read (v : Vault) (path : Path) (id : EntryId) : Option Snapshot := (v.history path).get id

end Vault

inductive Op
  | create (path : Path) (content : Content)
  | save (path : Path) (content : Content) (nowMs : ℕ)
  | trash (target : Path) (id : ℕ)
  | restore (id : ℕ) (refused : Bool)
  | purge (p : Purge)
  | purgeAll (ps : List Purge)

def Op.purges : Op → Bool
  | purge _ | purgeAll _ => true
  | _ => false

def step (v : Vault) : Op → Vault
  | .create path content => v.create path content
  | .save path content nowMs => v.save path content nowMs
  | .trash target id => v.moveToTrash target id
  | .restore id refused => v.restore id refused
  | .purge p => v.purge p
  | .purgeAll ps => v.purgeAll ps

def run (ops : List Op) : Vault := ops.foldl step .new

/-- What is shown of a note that is in the vault, and was recorded from it, is still there. -/
def KeepsLiving (before after : Vault) : Prop :=
  ∀ path note, (path, note) ∈ before.notes → ∀ id ∈ before.list path, ∀ snapshot,
    before.read path id = some snapshot → snapshot.note = note.id →
      id ∈ after.list path ∧ after.read path id = some snapshot

/-- An entry of the trash, other than a given one, has a note from this path or from above it. -/
def Vault.claimed (v : Vault) (but : Option ℕ) (path : Path) : Bool :=
  v.trash.any fun e => e.1 ∉ but ∧ e.2.relatives.any (· <+: path)

/-- No note comes to a path while there is an entry in the trash that came from it or from above it. -/
def Op.Unclaimed (v : Vault) : Op → Prop
  | .create path _ => v.claimed none path = false
  | .save path _ _ => v.notes.lookup path = none → v.claimed none path = false
  | .restore id _ => ∀ entry ∈ v.trash.lookup id, ∀ n ∈ entry.payload, v.claimed (some id) n.1 = false
  | _ => True

instance (v : Vault) : (op : Op) → Decidable (op.Unclaimed v)
  | .create .. => inferInstanceAs (Decidable (_ = false))
  | .save .. => inferInstanceAs (Decidable (_ = none → _ = false))
  | .restore id _ => inferInstanceAs (Decidable (∀ entry ∈ v.trash.lookup id, _))
  | .trash .. | .purge _ | .purgeAll _ => .isTrue trivial

variable {v : Vault} {path : Path}

/-- No living note is at a path from which an entry came, or behind one. -/
def Separate (v : Vault) : Prop :=
  ∀ e ∈ v.trash, ∀ r ∈ e.2.relatives, ∀ n ∈ v.notes, ¬r <+: n.1

lemma mem_of_lookup {id : ℕ} {e : Entry} {trash : List (ℕ × Entry)} (h : trash.lookup id = some e) :
    (id, e) ∈ trash := by
  obtain ⟨front, back, heq, -⟩ := List.lookup_eq_some_iff.mp h
  rw [heq]
  exact List.mem_append_right _ List.mem_cons_self

lemma claimed_eq_false {but : Option ℕ} (h : v.claimed but path = false) {e : ℕ × Entry}
    (he : e ∈ v.trash) (hbut : e.1 ∉ but) {r : Path} (hr : r ∈ e.2.relatives) : ¬r <+: path := by
  intro hpre
  have htrue : v.claimed but path = true :=
    List.any_eq_true.mpr ⟨e, he, decide_eq_true ⟨hbut, List.any_eq_true.mpr ⟨r, hr, decide_eq_true hpre⟩⟩⟩
  exact Bool.false_ne_true (h.symm.trans htrue)

lemma foldl_discard {survives : Path → EntryId → Bool} {paths : List Path} (history : Path → Versions)
    (h : ∀ r ∈ paths, ¬r <+: path) : paths.foldl (discard survives) history path = history path := by
  induction paths generalizing history with
  | nil => rfl
  | cons r paths ih =>
    rw [List.foldl_cons, ih _ fun s hs => h s (List.mem_cons_of_mem _ hs), discard,
      if_neg (h r List.mem_cons_self)]

lemma purge_notes (v : Vault) (p : Purge) : (v.purge p).notes = v.notes := by
  unfold Vault.purge
  split <;> rfl

lemma purge_trash_subset (v : Vault) (p : Purge) : (v.purge p).trash ⊆ v.trash := by
  unfold Vault.purge
  split
  · dsimp only
    split
    · exact List.Subset.refl _
    · exact List.filter_subset_self _
  · exact List.Subset.refl _

lemma purge_history (h : Separate v) (p : Purge) {n : Path × Note} (hn : n ∈ v.notes) :
    (v.purge p).history n.1 = v.history n.1 := by
  unfold Vault.purge
  split
  · next entry hentry =>
    dsimp only
    split
    · exact foldl_discard _ fun r hr => h _ (mem_of_lookup hentry) r hr n hn
    · rfl
  · rfl

lemma Separate.purge (h : Separate v) (p : Purge) : Separate (v.purge p) := by
  intro e he r hr n hn
  rw [purge_notes] at hn
  exact h e (purge_trash_subset v p he) r hr n hn

lemma purgeAll_kept (h : Separate v) (ps : List Purge) :
    Separate (v.purgeAll ps) ∧ ∀ n ∈ v.notes, (v.purgeAll ps).history n.1 = v.history n.1 := by
  induction ps generalizing v with
  | nil => exact ⟨h, fun _ _ => rfl⟩
  | cons p ps ih =>
    obtain ⟨hseparate, hhistory⟩ := ih (h.purge p)
    refine ⟨hseparate, fun n hn => ?_⟩
    rw [Vault.purgeAll, List.foldl_cons, ← Vault.purgeAll, hhistory n (purge_notes v p ▸ hn),
      purge_history h p hn]

lemma Separate.create (h : Separate v) {content : Content} (hfree : v.claimed none path = false) :
    Separate (v.create path content) := by
  unfold Vault.create
  split
  · exact h
  · intro e he r hr n hn
    rcases List.mem_cons.mp hn with rfl | hn
    · exact claimed_eq_false hfree he nofun hr
    · exact h e he r hr n hn

lemma Separate.save (h : Separate v) {content : Content} {nowMs : ℕ}
    (hfree : v.notes.lookup path = none → v.claimed none path = false) :
    Separate (v.save path content nowMs) := by
  unfold Vault.save
  split
  · intro e he r hr n hn
    obtain ⟨old, hold, rfl⟩ := List.mem_map.mp hn
    have hold' := h e he r hr old hold
    split
    · next heq => exact heq ▸ hold'
    · exact hold'
  · next hnone => exact h.create (hfree hnone)

lemma Separate.moveToTrash (h : Separate v) (target : Path) (id : ℕ) :
    Separate (v.moveToTrash target id) := by
  unfold Vault.moveToTrash
  split
  · exact h
  · intro e he r hr n hn
    obtain ⟨hn, hleft⟩ := List.mem_filter.mp hn
    rcases List.mem_cons.mp he with rfl | he
    · have hbehind : target <+: r := by
        unfold Entry.relatives at hr
        split at hr
        · obtain ⟨m, hm, rfl⟩ := List.mem_map.mp (List.mem_filter.mp hr).1
          simpa using (List.mem_filter.mp hm).2
        · exact List.mem_singleton.mp hr ▸ List.prefix_rfl
      exact fun hpre => absurd (hbehind.trans hpre) (by simpa using hleft)
    · exact h e he r hr n hn

lemma Separate.restore (h : Separate v) {id : ℕ} (refused : Bool)
    (hfree : ∀ entry ∈ v.trash.lookup id, ∀ n ∈ entry.payload, v.claimed (some id) n.1 = false) :
    Separate (v.restore id refused) := by
  unfold Vault.restore
  split
  · next entry hentry =>
    split
    · exact h
    · intro e he r hr n hn
      obtain ⟨he, hne⟩ := List.mem_filter.mp he
      rcases List.mem_append.mp hn with hn | hn
      · refine claimed_eq_false (hfree entry hentry n hn) he ?_ hr
        rintro heq
        cases heq
        simp at hne
      · exact h e he r hr n hn
  · exact h

lemma Separate.step (h : Separate v) {op : Op} (hfree : op.Unclaimed v) : Separate (step v op) := by
  cases op with
  | create path content => exact h.create hfree
  | save path content nowMs => exact h.save hfree
  | trash target id => exact h.moveToTrash target id
  | restore id refused => exact h.restore refused hfree
  | purge p => exact h.purge p
  | purgeAll ps => exact (purgeAll_kept h ps).1

lemma KeepsLiving.of_history {w : Vault} (h : ∀ n ∈ v.notes, w.history n.1 = v.history n.1) :
    KeepsLiving v w := by
  intro path note hmem id hid snapshot hread _
  have heq := h (path, note) hmem
  rw [Vault.list, Vault.read, heq]
  exact ⟨hid, hread⟩

/-- In a run in which no note comes to a claimed path, every purge keeps the versions of the living. -/
theorem purges_keep_living (ops : List Op) (h : Along step (fun v op => op.Unclaimed v) .new ops)
    (earlier : List Op) (op : Op) (hpre : earlier ++ [op] <+: ops) (hpurges : op.purges = true) :
    KeepsLiving (run earlier) (step (run earlier) op) := by
  have hseparate : Separate (run earlier) :=
    Along.invariant (Along.iff.mp h) nofun (fun _ _ h => h.step)
      ((List.prefix_append _ _).trans hpre)
  cases op with
  | purge p => exact .of_history fun n hn => purge_history hseparate p hn
  | purgeAll ps => exact .of_history (purgeAll_kept hseparate ps).2
  | create | save | trash | restore => cases hpurges

def purged (id : ℕ) : Purge := ⟨id, true, fun _ _ => false, true⟩

/-- A note is trashed, another one is edited, and the trash is cleared. -/
def cleared : List Op :=
  [.create ["a.md"] ['1'], .create ["b.md"] ['x'], .save ["a.md"] ['2'] 0, .save ["b.md"] ['y'] 0,
    .trash ["a.md"] 0, .purgeAll [purged 0]]

theorem keeps_living_cleared : Along step (fun v op => op.Unclaimed v) .new cleared ∧
    (run cleared.dropLast).list ["b.md"] = [toLex (0, 0)] ∧
    KeepsLiving (run cleared.dropLast) (run cleared) :=
  ⟨by decide +kernel, by decide +kernel, purges_keep_living cleared (by decide +kernel)
    cleared.dropLast (.purgeAll [purged 0]) List.prefix_rfl rfl⟩

/-- A new note is made where a trashed one was, and edited, before the old one is purged. -/
def reused : List Op :=
  [.create ["a.md"] ['1'], .trash ["a.md"] 0, .create ["a.md"] ['2'], .save ["a.md"] ['3'] 0,
    .purge (purged 0)]

theorem not_keeps_living_of_reused : ¬ KeepsLiving (run reused.dropLast) (run reused) := by
  intro h
  have hkept := h ["a.md"] ⟨1, ['3']⟩ (by decide +kernel) (toLex (0, 0)) (by decide +kernel)
    ⟨['2'], 1⟩ (by decide +kernel) rfl
  exact absurd hkept.2 (by decide +kernel)

end Aeroric.NotePurge
