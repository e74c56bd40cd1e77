import Aeroric.Table
import Aeroric.Fallible
import Mathlib.Data.Prod.Lex

/-! The versions of a note. The last ones are kept, and rolling the note back to one of them first
puts its present content beside them. -/
namespace Aeroric.NoteHistory
open Fallible

def maxSnapshotBytes : ℕ := 2 * 1024 * 1024
def maxNoteSnapshots : ℕ := 30

abbrev Content := List UInt8

/-- The millisecond of a version and its number in that millisecond. -/
abbrev EntryId := ℕ ×ₗ ℕ

instance : LawfulBEq EntryId := inferInstance

abbrev History := Table EntryId Content

structure Vault where
  note : Content
  history : History

/-- The calls that may fail. -/
inductive Step where
  | readEntry
  | metadata
  | readNote
  | createDir
  | createNew
  | writeNew
  | newMetadata
  | readDir
  | removeFile
  | writeNote
  | signature
  | recordOpen
  deriving DecidableEq

/-- What a call meets: the clock, the errors, and which contents are text. -/
structure Env where
  nowMs : ℕ
  errors : Step → Option String
  isUtf8 : Content → Bool

namespace Env
variable (env : Env)

def attempt (step : Step) : Except String Unit :=
  match env.errors step with
  | some error => .error error
  | none => .ok ()

def readToString (step : Step) (content : Content) : Except String Content := do
  env.attempt step
  if env.isUtf8 content then .ok content else .error "stream did not contain valid UTF-8"

def removeFiles (ids : List EntryId) : Except String Unit :=
  if ids.isEmpty then .ok () else env.attempt .removeFile

/-- The last versions stay, by the clock readings in their names. -/
def pruneSnapshots (maxEntries : ℕ) (history : History) : Except String History := do
  env.attempt .readDir
  env.removeFiles (history.keys.reverse.drop maxEntries)
  return history.filter fun id _ => id ∈ history.latest maxEntries

def uniqueId (history : History) : Option EntryId :=
  ((List.range 1000).map fun suffix => toLex (env.nowMs, suffix)).find?
    fun id => (history.get id).isNone

def createSnapshot (maxEntries : ℕ) (history : History) (content : Content) :
    Except String History := do
  env.attempt .createDir
  match env.uniqueId history with
  | none => .error "Could not create a unique local history snapshot"
  | some id =>
    env.attempt .createNew
    env.attempt .writeNew
    env.attempt .newMetadata
    env.pruneSnapshots maxEntries (history.set id content)

/-- A note that is too large is passed over without an error. -/
def forceSnapshot (maxEntries : ℕ) (vault : Vault) : Except String History := do
  env.attempt .metadata
  if maxSnapshotBytes < vault.note.length then
    return vault.history
  else
    let current ← env.readToString .readNote vault.note
    env.createSnapshot maxEntries vault.history current

def readEntry (history : History) (id : EntryId) : Except String Content :=
  match history.get id with
  | none => .error "snapshot not found"
  | some content => env.readToString .readEntry content

def restore (vault : Vault) (id : EntryId) : Except String Vault := do
  let snapshot ← env.readEntry vault.history id
  match env.forceSnapshot maxNoteSnapshots vault with
  | .error error => .error s!"Cannot snapshot the current note before rollback: {error}"
  | .ok history =>
    env.attempt .writeNote
    env.attempt .signature
    env.attempt .recordOpen
    return ⟨snapshot, history⟩

end Env

def list (history : History) : List EntryId := history.latest maxNoteSnapshots

def Shown (isUtf8 : Content → Bool) (history : History) (content : Content) : Prop :=
  ∃ id ∈ list history, Env.readEntry ⟨0, fun _ => none, isUtf8⟩ history id = .ok content

instance (isUtf8 : Content → Bool) (history : History) (content : Content) :
    Decidable (Shown isUtf8 history content) :=
  inferInstanceAs (Decidable (∃ id ∈ list history, _ = _))

variable {history : History}

lemma shown_iff {isUtf8 : Content → Bool} {content : Content} : Shown isUtf8 history content ↔
      isUtf8 content = true ∧
        ∃ id, history.get id = some content ∧ history.later id < maxNoteSnapshots := by
  have hread : ∀ id, Env.readEntry ⟨0, fun _ => none, isUtf8⟩ history id = .ok content ↔
      history.get id = some content ∧ isUtf8 content = true := by
    intro id
    unfold Env.readEntry
    cases history.get id with
    | none => exact ⟨nofun, nofun⟩
    | some old =>
      change (if isUtf8 old then Except.ok old else .error _) = .ok content ↔ _
      cases h : isUtf8 old with
      | false => simp only [Bool.false_eq_true, if_false]; grind
      | true => simp only [if_true]; grind
  constructor
  · rintro ⟨id, hid, hok⟩
    obtain ⟨hget, hutf8⟩ := (hread id).mp hok
    exact ⟨hutf8, id, hget, (Table.mem_latest.mp hid).2⟩
  · rintro ⟨hutf8, id, hget, hlater⟩
    exact ⟨id, Table.mem_latest.mpr ⟨by rw [hget]; rfl, hlater⟩, (hread id).mpr ⟨hget, hutf8⟩⟩

namespace Env
variable {env : Env}

lemma readToString_ok {step : Step} {content read : Content}
    (h : env.readToString step content = .ok read) : read = content ∧ env.isUtf8 content = true := by
  obtain ⟨-, -, h⟩ := bind_eq_ok h
  split at h
  case isTrue hutf8 => exact ⟨(Except.ok.inj h).symm, hutf8⟩
  case isFalse => cases h

lemma uniqueId_free {id : EntryId} (h : env.uniqueId history = some id) :
    history.get id = none := by
  unfold uniqueId at h
  have hnone := List.find?_some h
  exact Option.isNone_iff_eq_none.mp hnone

lemma pruneSnapshots_ok {maxEntries : ℕ} {history pruned : History}
    (h : env.pruneSnapshots maxEntries history = .ok pruned) :
    pruned = history.filter fun id _ => id ∈ history.latest maxEntries := by
  obtain ⟨-, -, h⟩ := bind_eq_ok h
  obtain ⟨-, -, h⟩ := bind_eq_ok h
  exact (Except.ok.inj h).symm

def copyId (env : Env) (vault : Vault) : Option EntryId :=
  if maxSnapshotBytes < vault.note.length then none else env.uniqueId vault.history

lemma forceSnapshot_ok {maxEntries : ℕ} {vault : Vault}
    (h : env.forceSnapshot maxEntries vault = .ok history) :
    (env.copyId vault = none ∧ history = vault.history) ∨
      env.isUtf8 vault.note = true ∧ ∃ id, env.copyId vault = some id ∧
        history = (vault.history.set id vault.note).filter
          fun j _ => j ∈ (vault.history.set id vault.note).latest maxEntries := by
  obtain ⟨-, -, h⟩ := bind_eq_ok h
  unfold copyId
  split at h
  case isTrue hlarge => exact .inl ⟨if_pos hlarge, (Except.ok.inj h).symm⟩
  case isFalse hsmall =>
    obtain ⟨current, hread, h⟩ := bind_eq_ok h
    obtain ⟨rfl, hutf8⟩ := readToString_ok hread
    obtain ⟨-, -, h⟩ := bind_eq_ok h
    rw [if_neg hsmall]
    split at h
    case h_1 => cases h
    case h_2 id hid =>
      obtain ⟨-, -, h⟩ := bind_eq_ok h
      obtain ⟨-, -, h⟩ := bind_eq_ok h
      obtain ⟨-, -, h⟩ := bind_eq_ok h
      exact .inr ⟨hutf8, id, hid, pruneSnapshots_ok h⟩

lemma restore_ok {vault after : Vault} {id : EntryId} (h : env.restore vault id = .ok after) :
    env.forceSnapshot maxNoteSnapshots vault = .ok after.history := by
  obtain ⟨snapshot, -, h⟩ := bind_eq_ok h
  split at h
  case h_1 => cases h
  case h_2 history hforce =>
    obtain ⟨-, -, h⟩ := bind_eq_ok h
    obtain ⟨-, -, h⟩ := bind_eq_ok h
    obtain ⟨-, -, h⟩ := bind_eq_ok h
    rw [hforce, ← Except.ok.inj h]

def laterThan (env : Env) (vault : Vault) (id : EntryId) : ℕ :=
  vault.history.later id + if ∃ copy ∈ env.copyId vault, id < copy then 1 else 0

end Env

lemma shown_pruned {isUtf8 : Content → Bool} {content : Content} :
    Shown isUtf8 (history.filter fun id _ => id ∈ history.latest maxNoteSnapshots) content ↔
      Shown isUtf8 history content := by
  rw [shown_iff, shown_iff]
  refine and_congr_right fun _ => exists_congr fun id => ?_
  rw [Table.get_filter]
  constructor
  · rintro ⟨hget, -⟩
    obtain ⟨hget, hlatest⟩ := Option.filter_eq_some_iff.mp hget
    exact ⟨hget, (Table.mem_latest.mp (of_decide_eq_true hlatest)).2⟩
  · rintro ⟨hget, hlater⟩
    refine ⟨Option.filter_eq_some_iff.mpr ⟨hget, decide_eq_true (Table.mem_latest.mpr ?_)⟩, ?_⟩
    · exact ⟨by rw [hget]; rfl, hlater⟩
    · exact (Table.later_le_of_filter ..).trans_lt hlater

/-- A rollback can be undone when its copy is made and is among the last versions, or when one of
the versions that stay is the same. -/
theorem restore_undoable_iff (env : Env) (vault after : Vault) (id : EntryId)
    (h : env.restore vault id = .ok after) :
    Shown env.isUtf8 after.history vault.note ↔
      (∃ copy ∈ env.copyId vault, vault.history.later copy < maxNoteSnapshots) ∨
      env.isUtf8 vault.note = true ∧ ∃ old, vault.history.get old = some vault.note ∧
        env.laterThan vault old < maxNoteSnapshots := by
  obtain ⟨hcopy, hafter⟩ | ⟨hutf8, copy, hcopy, hafter⟩ := Env.forceSnapshot_ok (Env.restore_ok h)
  · rw [hafter, shown_iff]
    simp [Env.laterThan, hcopy]
  · have hfree : vault.history.get copy = none := by
      unfold Env.copyId at hcopy
      split at hcopy
      · cases hcopy
      · exact Env.uniqueId_free hcopy
    have hlater : ∀ j, (vault.history.set copy vault.note).later j =
        vault.history.later j + if j < copy then 1 else 0 := Table.later_set _ hfree
    rw [hafter, shown_pruned, shown_iff]
    simp only [hutf8, true_and, hlater, Env.laterThan, hcopy, Option.mem_some_iff,
      exists_eq_left']
    constructor
    · rintro ⟨j, hget, hlt⟩
      by_cases hj : j = copy
      · subst hj
        exact .inl (by simpa using hlt)
      · rw [Table.get_set_of_ne hj] at hget
        exact .inr ⟨j, hget, hlt⟩
    · rintro (hlt | ⟨j, hget, hlt⟩)
      · exact ⟨copy, Table.get_set_self .., by simpa using hlt⟩
      · have hj : j ≠ copy := fun hj => by
          rw [hj, hfree] at hget
          cases hget
        exact ⟨j, by rw [Table.get_set_of_ne hj]; exact hget, hlt⟩

/-- Versions of the milliseconds from one on, all of one content. -/
def versions (start count : ℕ) (content : Content) : History :=
  (List.range count).foldl (fun history i => history.set (toLex (start + i, 0)) content) .empty

theorem restore_undoable_iff_twoVersions :
    ∃ after, Env.restore ⟨9, fun _ => none, fun _ => true⟩ ⟨[2], versions 1 2 [1]⟩
        (toLex (1, 0)) = .ok after ∧
      Shown (fun _ => true) after.history [2] := by
  have hany : (Env.restore ⟨9, fun _ => none, fun _ => true⟩ ⟨[2], versions 1 2 [1]⟩
      (toLex (1, 0))).toOption.any (fun _ => true) = true := by decide +kernel
  obtain ⟨after, hok, -⟩ := exists_ok_of_any hany
  refine ⟨after, hok, (restore_undoable_iff _ _ _ _ hok).mpr (.inl ⟨toLex (9, 0), ?_, ?_⟩)⟩
  · decide +kernel
  · decide +kernel

/-- The clock has been set back behind thirty versions: the copy is the first to go. -/
theorem not_shown_clockBehind :
    ∃ after, Env.restore ⟨0, fun _ => none, fun _ => true⟩ ⟨[2], versions 1 30 [1]⟩
        (toLex (1, 0)) = .ok after ∧
      ¬Shown (fun _ => true) after.history [2] := by
  have hany : (Env.restore ⟨0, fun _ => none, fun _ => true⟩ ⟨[2], versions 1 30 [1]⟩
      (toLex (1, 0))).toOption.any
        (fun after => decide ¬Shown (fun _ => true) after.history [2]) = true := by
    decide +kernel
  obtain ⟨after, hok, hnot⟩ := exists_ok_of_any hany
  exact ⟨after, hok, of_decide_eq_true hnot⟩

end Aeroric.NoteHistory
