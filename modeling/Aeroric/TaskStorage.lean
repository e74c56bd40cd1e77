import Aeroric.Program
import Aeroric.TaskLaunch
import Aeroric.TaskLedger

/-! The files: each project's `tasks.json`, the table in `runtime.json` of what the core
last published, and the mirror of the ledger. A file is replaced as a whole or not at all. -/
namespace Aeroric.TaskStorage

open TaskRecord TaskLedger

/-- The files a storage error can name. -/
inductive File
  | tasks (projectId : String)
  | runtime
  | operations
  | dataDir
  deriving DecidableEq

/-- What a `tasks.json` parses to: nothing, some other JSON than an array of objects, or rows. -/
inductive Body
  | broken
  | other
  | rows (records : List Record)
  deriving DecidableEq

/-- The bytes of a `tasks.json`: what they parse to, and which of its spellings they are.
The core has one spelling of its own, number 0. -/
structure Document where
  spelling : ℕ
  body : Body
  deriving DecidableEq

/-- The rows a file holds; one that is absent or cannot be read as rows holds none. -/
def rowsOf : Option Document → List Record
  | some ⟨_, .rows records⟩ => records
  | _ => []

def Document.pretty (records : List Record) : Document := ⟨0, .rows records⟩

/-- Digest and size of a document; taken to be injective, so it is the document. -/
structure Fingerprint where
  of ::
  content : Document
  deriving DecidableEq

inductive PathError
  | emptyId (label : String)
  | illegalIdCharacter (label value : String)
  deriving DecidableEq

inductive StorageError
  | corrupt (file : File)
  | unreadable (file : File) (reason : String)
  | writeFailed (file : File) (reason : String)
  | permissionDenied (file : File)
  | unsupportedSchema (file : File) (found supported : ℕ)
  | contentDiverged (file : File) (expected found : Option Fingerprint)
  | invalidId (error : PathError)
  | writePermission
  deriving DecidableEq

def StorageError.isStaleWrite : StorageError → Bool
  | .contentDiverged _ _ _ => true
  | _ => false

/-- Why the file system refused. -/
inductive Fault
  | denied
  | failed (reason : String)
  deriving DecidableEq

def Fault.onRead (file : File) : Fault → StorageError
  | .denied => .permissionDenied file
  | .failed reason => .unreadable file reason

def Fault.onWrite (file : File) : Fault → StorageError
  | .denied => .permissionDenied file
  | .failed reason => .writeFailed file reason

/-- What the lease and the file system answer to one write: is the lease still held, does
reading the list or the table before it go wrong, does the replacing go wrong. -/
structure WriteAnswer where
  held : Bool
  readList : Option Fault
  readTable : Option Fault
  fault : Option Fault
  deriving DecidableEq

def WriteAnswer.yes : WriteAnswer := ⟨true, none, none, none⟩

structure RuntimeMetadata where
  schemaVersion : ℕ
  /-- `none` for a text that is not a canonical decimal. -/
  revision : Option ℕ
  contentFingerprints : String → Option (Option Fingerprint)

inductive RuntimeFile
  | absent
  | unparsable
  | found (metadata : RuntimeMetadata)

structure Disk where
  tasks : String → Option Document
  runtime : RuntimeFile
  operations : Option Ledger

def runtimeSchemaVersion : ℕ := 2

/-- The name a project's list goes by in the table. -/
def tableKey (projectId : String) : String := "projects/" ++ projectId ++ "/tasks.json"

lemma tableKey_injective {p q : String} (h : tableKey p = tableKey q) : p = q := by
  have h' : ("projects/".toList ++ p.toList) ++ "/tasks.json".toList =
      ("projects/".toList ++ q.toList) ++ "/tasks.json".toList := by
    simpa [tableKey] using congrArg String.toList h
  exact String.toList_inj.mp (List.append_cancel_left (List.append_cancel_right h'))

def idCharacter (ch : Char) : Bool := ch.isAlphanum || ch = '-' || ch = '_'

def validateId (id label : String) : Except PathError Unit :=
  if isBlank id then .error (.emptyId label)
  else if !(Sse.trim id.toList).all idCharacter then .error (.illegalIdCharacter label id)
  else .ok ()

/-- `runtime.json` as this build reads it; a newer layout stops it. -/
def loadRuntime (read : Option Fault) (file : RuntimeFile) :
    Except StorageError (Option RuntimeMetadata) :=
  match read, file with
  | some fault, _ => .error (fault.onRead .runtime)
  | none, .absent => .ok none
  | none, .unparsable => .error (.corrupt .runtime)
  | none, .found m =>
    if m.schemaVersion > runtimeSchemaVersion then
      .error (.unsupportedSchema .runtime m.schemaVersion runtimeSchemaVersion)
    else if m.revision.isNone then .error (.corrupt .runtime)
    else .ok (some { m with schemaVersion := runtimeSchemaVersion })

/-- Never published, published as absent, or published with these bytes. -/
def recordedCover (read : Option Fault) (disk : Disk) (key : String) :
    Except StorageError (Option (Option Fingerprint)) :=
  (loadRuntime read disk.runtime).map fun found => found.bind (·.contentFingerprints key)

/-- The rows and the fingerprint of the bytes they came from. -/
structure StampedTasks where
  records : List Record
  fingerprint : Option Fingerprint

def loadStamped (read : Option Fault) (disk : Disk) (projectId : String) :
    Except StorageError StampedTasks :=
  match validateId projectId "project", read, disk.tasks projectId with
  | .error e, _, _ => .error (.invalidId e)
  | .ok (), some fault, _ => .error (fault.onRead (.tasks projectId))
  | .ok (), none, none => .ok ⟨[], none⟩
  | .ok (), none, some ⟨spelling, .rows records⟩ => .ok ⟨records, some (.of ⟨spelling, .rows records⟩)⟩
  | .ok (), none, some _ => .error (.corrupt (.tasks projectId))

/-- Refuse unless the bytes on disk are those this core last published. A list it never
published has no cover to defend. -/
def checkCover (answer : WriteAnswer) (disk : Disk) (projectId : String) : Option StorageError :=
  let onDisk := (disk.tasks projectId).map Fingerprint.of
  match answer.readList, recordedCover answer.readTable disk (tableKey projectId) with
  | some fault, _ => some (fault.onRead (.tasks projectId))
  | none, .error e => some e
  | none, .ok none => none
  | none, .ok (some baseline) =>
    if onDisk = baseline then none else some (.contentDiverged (.tasks projectId) baseline onDisk)

/-- What stands before a list is replaced: the lease, the id, the cover. -/
def checkWriter (answer : WriteAnswer) (disk : Disk) (projectId : String) : Option StorageError :=
  match answer.held, validateId projectId "project" with
  | false, _ => some .writePermission
  | true, .error e => some (.invalidId e)
  | true, .ok () => checkCover answer disk projectId

/-- Why a list is not replaced. A file that does not parse is not ours to overwrite. -/
def saveRefusal (answer : WriteAnswer) (projectId : String) (disk : Disk) : Option StorageError :=
  match checkWriter answer disk projectId with
  | some e => some e
  | none =>
    if (disk.tasks projectId).any (·.body = .broken) then some (.corrupt (.tasks projectId))
    else answer.fault.map (·.onWrite (.tasks projectId))

def removeRefusal (answer : WriteAnswer) (projectId : String) (disk : Disk) :
    Option StorageError :=
  match checkWriter answer disk projectId with
  | some e => some e
  | none =>
    if (disk.tasks projectId).isSome then answer.fault.map (·.onWrite (.tasks projectId)) else none

def Disk.setTasks (disk : Disk) (projectId : String) (document : Option Document) : Disk :=
  { disk with tasks := Function.update disk.tasks projectId document }

def saveCovering (answer : WriteAnswer) (projectId : String) (records : List Record)
    (disk : Disk) : Except StorageError Fingerprint × Disk :=
  match saveRefusal answer projectId disk with
  | some e => (.error e, disk)
  | none => (.ok (.of (.pretty records)), disk.setTasks projectId (some (.pretty records)))

def removeCovering (answer : WriteAnswer) (projectId : String) (disk : Disk) :
    Except StorageError (Option Fingerprint) × Disk :=
  match removeRefusal answer projectId disk with
  | some e => (.error e, disk)
  | none => (.ok none, disk.setTasks projectId none)

def RuntimeMetadata.fresh : RuntimeMetadata := ⟨runtimeSchemaVersion, some 0, fun _ => none⟩

/-- One step further, with what this change covered. -/
def RuntimeMetadata.advance (m : RuntimeMetadata) (revision : ℕ) (key : String)
    (cover : Option Fingerprint) : RuntimeMetadata :=
  { m with
    revision := some revision
    contentFingerprints := Function.update m.contentFingerprints key (some cover) }

/-- The table a bump starts from and the revision it takes, or why there is none. -/
def bumpFrom (answer : WriteAnswer) (disk : Disk) : Except StorageError (RuntimeMetadata × ℕ) :=
  match answer.held, loadRuntime answer.readTable disk.runtime, answer.fault with
  | false, _, _ => .error .writePermission
  | true, .error e, _ => .error e
  | true, .ok found, fault =>
    let m := found.getD .fresh
    let next := m.revision.getD 0 + 1
    if 2 ^ 64 ≤ next then .error (.corrupt .runtime)
    else match fault with
      | some fault => .error (fault.onWrite .runtime)
      | none => .ok (m, next)

/-- Advance the revision and publish what this change covered, in one write. -/
def bumpCovering (answer : WriteAnswer) (key : String) (cover : Option Fingerprint)
    (disk : Disk) : Except StorageError ℕ × Disk :=
  match bumpFrom answer disk with
  | .error e => (.error e, disk)
  | .ok (m, next) => (.ok next, { disk with runtime := .found (m.advance next key cover) })

def storeLedger (answer : WriteAnswer) (state : Ledger) (disk : Disk) :
    Except StorageError Unit × Disk :=
  if !answer.held then (.error .writePermission, disk)
  else match answer.fault with
    | some fault => (.error (fault.onWrite .operations), disk)
    | none => (.ok (), { disk with operations := some state })

end Aeroric.TaskStorage
