import Aeroric.TaskStorage

/-! What one call of the task service acts on, and the ways it reads and writes it. -/
namespace Aeroric.TaskWorld

open TaskRecord TaskSession TaskReducer TaskLaunch TaskLedger TaskStorage

inductive ExecutorRequest
  | launch (request : LaunchRequest)
  | resume (request : ResumeRequest)
  | cancel (taskId : String) (target : CancelTarget)
  | complete (taskId workingDirectory : String)
  | reset (taskId : String)
  deriving DecidableEq

/-- One call of the executor, with its failure if it failed and the task lists that were on
disk when it was made. -/
structure ExecutorCall where
  request : ExecutorRequest
  failure : Option ExecutorFailure
  tasks : String → Option Document

/-- One attempt to replace a task list: what was there, what was to be there, and the
refusal if it was refused. -/
structure ListWrite where
  projectId : String
  found : Option Document
  put : Option Document
  refused : Option StorageError
  deriving DecidableEq

/-- The files, the ledger in memory, and what an observer saw of executor and lists. -/
structure World where
  disk : Disk
  ledger : Ledger
  calls : List ExecutorCall
  writes : List ListWrite

/-- The service as it is built over the files it finds. -/
def World.new (disk : Disk) : World :=
  ⟨disk, match disk.operations with
    | some state => state.new
    | none => .empty, [], []⟩

def stored (w : World) (projectId : String) : List Record := rowsOf (w.disk.tasks projectId)

/-- What the service is built with: the agent table, and the spelling the host's task saver
writes, when one is installed. -/
structure Context where
  families : AgentFamilies
  taskSaver : Option ℕ

/-- The places inside one call an answer of the outside can belong to. -/
inductive Site
  | prelude
  | main
  | shape
  | acknowledge
  | abandon
  | settle
  deriving DecidableEq

/-- The answers to one publish: the list, the table, the ledger's mirror, or the host. -/
structure PublishAnswer where
  list : WriteAnswer
  table : WriteAnswer
  ledger : WriteAnswer
  host : Option String

/-- Everything the outside answers during one call. -/
structure Env where
  clock : Site → ℕ
  read : Site → Option Fault
  publish : Site → PublishAnswer
  mirror : Site → WriteAnswer
  executor : Option ExecutorFailure
  reset : Except ExecutorFailure ResetOutcome
  liveRun : Bool
  isDir : String → Bool
  loginConfig : String → Option String

def PublishAnswer.yes : PublishAnswer := ⟨.yes, .yes, .yes, none⟩

/-- A quiet outside at a given time: everything is answered with yes. -/
def Env.quiet (now : ℕ) : Env where
  clock _ := now
  read _ := none
  publish _ := .yes
  mirror _ := .yes
  executor := none
  reset := .ok ⟨fun _ => none, fun _ => none⟩
  liveRun := false
  isDir _ := true
  loginConfig _ := none

inductive TaskError
  | storage (error : StorageError)
  | notFound (projectId taskId : String)
  | unaddressable (projectId : String)
  | persistFailed (error : StorageError)
  | duplicateId (taskId : String)
  | alreadyClaimed (taskId kind : String) (claimedAtMs : ℕ)
  | noSession (taskId : String)
  | launch (reason : String)
  | awaitingAcknowledgement (taskId : String)
  | worktreeDiscarded (taskId : String)
  | noContinuationContext (taskId : String)
  | unsupportedOnRemote (kind what : String)
  | futureGeneration (taskId : String) (seen current : ℕ)
  deriving DecidableEq

structure Applied where
  records : List Record
  revision : Option ℕ
  changed : Bool
  fingerprint : Option Fingerprint
  generation : Option ℕ
  deriving DecidableEq

inductive Persist
  | commit
  | decideOnly
  | viaHost
  deriving DecidableEq

abbrev Service (α : Type) := Call World TaskError α

def load (fault : Option Fault) (projectId : String) : Service StampedTasks :=
  Call.act fun w => ((loadStamped fault w.disk projectId).mapError .storage, w)

def stampGenerationCopies (ledger : Ledger) (records : List Record) : List Record :=
  records.map fun r =>
    match r.id with
    | none => r
    | some id =>
      let known := Value.string (toString (ledger.peekGeneration id))
      if r.get "generation" = some known then r else r.insert "generation" known

/-- Replace a list on disk, and let the attempt be seen. -/
def writeList {α : Type} (projectId : String) (put : Option Document)
    (f : Disk → Except StorageError α × Disk) : Service α :=
  Call.act fun w =>
    let refused := match (f w.disk).1 with
      | .error e => some e
      | .ok _ => none
    ((f w.disk).1.mapError .storage, { w with
      disk := (f w.disk).2
      writes := w.writes ++ [⟨projectId, w.disk.tasks projectId, put, refused⟩] })

def bumpTable (answer : WriteAnswer) (projectId : String) (cover : Option Fingerprint) :
    Service ℕ :=
  Call.act fun w =>
    let bumped := bumpCovering answer (tableKey projectId) cover w.disk
    (bumped.1.mapError .storage, { w with disk := bumped.2 })

def persistLedger (answer : WriteAnswer) : Service Unit :=
  Call.act fun w =>
    let mirrored := storeLedger answer w.ledger w.disk
    (mirrored.1.mapError .storage, { w with disk := mirrored.2 })

/-- Publish what a list write covered, then mirror the ledger. -/
def publishCover (answer : PublishAnswer) (projectId : String) (cover : Option Fingerprint) :
    Service ℕ := do
  let revision ← bumpTable answer.table projectId cover
  persistLedger answer.ledger
  return revision

/-- The list, then the table, then the ledger: the only write path. -/
def commit (answer : PublishAnswer) (projectId : String) (records : List Record) :
    Service Applied := do
  let stamped ← Call.modify fun w => (stampGenerationCopies w.ledger records, w)
  let fingerprint ← writeList projectId (some (.pretty stamped))
    (saveCovering answer.list projectId stamped)
  let revision ← publishCover answer projectId (some fingerprint)
  return ⟨stamped, some revision, true, some fingerprint, none⟩

/-- The dual of `commit` for a list emptied by a delete: the file goes. -/
def commitRemoval (answer : PublishAnswer) (projectId : String) : Service Applied := do
  let fingerprint ← writeList projectId none (removeCovering answer.list projectId)
  let revision ← publishCover answer projectId fingerprint
  return ⟨[], some revision, true, fingerprint, none⟩

/-- Why the host's saver does not store a list. Without a saver the write is an error. -/
def hostRefusal (c : Context) (answer : Option String) (projectId : String) :
    Option StorageError :=
  if c.taskSaver.isNone then
    some (.writeFailed .dataDir ("no host task saver is installed, so ViaHost cannot store " ++
      "the decision for " ++ projectId))
  else answer.map (.writeFailed .dataDir)

/-- The file the host's saver leaves: the rows verbatim, and no file for no rows. -/
def hostDocument (c : Context) (records : List Record) : Option Document :=
  if records = [] then none else some ⟨c.taskSaver.getD 0, .rows records⟩

def hostSave (c : Context) (answer : Option String) (projectId : String)
    (records : List Record) (disk : Disk) : Except StorageError Unit × Disk :=
  match hostRefusal c answer projectId with
  | some e => (.error e, disk)
  | none => (.ok (), disk.setTasks projectId (hostDocument c records))

def saveViaHost (c : Context) (answer : PublishAnswer) (projectId : String)
    (records : List Record) : Service Applied := do
  let stamped ← Call.modify fun w => (stampGenerationCopies w.ledger records, w)
  writeList projectId (hostDocument c stamped) (hostSave c answer.host projectId stamped)
  return ⟨stamped, none, true, none, none⟩

/-- The end of an intent: commit, hand to the host, or only report what was decided. -/
def finishIntent (c : Context) (answer : PublishAnswer) (projectId : String)
    (persist : Persist) (records : List Record) : Service Applied :=
  match persist with
  | .commit => if records = [] then commitRemoval answer projectId
      else commit answer projectId records
  | .viaHost => saveViaHost c answer projectId records
  | .decideOnly => return ⟨records, none, true, none, none⟩

/-- A launch cannot be decided without being stored. -/
def persistLaunch (c : Context) (answer : PublishAnswer) (projectId : String)
    (persist : Persist) (records : List Record) : Service Applied :=
  match persist with
  | .commit => commit answer projectId records
  | .viaHost => saveViaHost c answer projectId records
  | .decideOnly => throw (.storage (.writeFailed .dataDir ("a " ++ projectId ++
      " launch cannot be decided without being stored; the executor would spawn over an " ++
      "unpersisted row")))

def unchanged (snapshot : StampedTasks) : Applied :=
  ⟨snapshot.records, none, false, snapshot.fingerprint, none⟩

def onLedger {α : Type} (f : Ledger → α × Ledger) : Service α :=
  Call.modify fun w => ((f w.ledger).1, { w with ledger := (f w.ledger).2 })

/-- Change the ledger and mirror it; a mirror that fails is let go. -/
def mirrorLedger (answer : WriteAnswer) (f : Ledger → Ledger) : Service Unit :=
  Call.modify fun w => ((), { w with
    ledger := f w.ledger
    disk := (storeLedger answer (f w.ledger) w.disk).2 })

def settle (answer : WriteAnswer) (taskId : String) (kind : OperationKind)
    (operationKey : String) : Service Unit :=
  mirrorLedger answer (·.settle taskId kind operationKey)

def settleByGeneration (answer : WriteAnswer) (taskId : String) (generation : ℕ) : Service Unit :=
  mirrorLedger answer (·.settleByGeneration taskId generation)

/-- "The user has seen this." Mirrored only when there was something to see. -/
def acknowledge (answer : WriteAnswer) (taskId : String) : Service Bool :=
  Call.modify fun w =>
    let acknowledged := w.ledger.acknowledge taskId
    if (w.ledger.awaiting taskId).isSome then
      (true, { w with
        ledger := acknowledged
        disk := (storeLedger answer acknowledged w.disk).2 })
    else (false, w)

/-- Ask the executor; whatever it answers, the call was made. -/
def askExecutor (request : ExecutorRequest) (failure : Option ExecutorFailure) : Service Unit :=
  Call.modify fun w => ((), { w with calls := w.calls ++ [⟨request, failure, w.disk.tasks⟩] })

def plainRow (projectId taskId : String) (status : TaskStatus) : Record :=
  ((Record.empty.insert "id" (.string taskId)).insert "projectId" (.string projectId)).insert
    "status" status.value

/-- Files that hold one task list, not published by the core yet, and nothing else. -/
def Disk.holding (projectId : String) (records : List Record) : Disk where
  tasks q := if q = projectId then some (.pretty records) else none
  runtime := .absent
  operations := none

/-- A service that knows one family and has no host to save through. -/
def Context.plain : Context := ⟨⟨fun _ => .claude, fun _ => .claude, fun _ => .claude, fun _ => true⟩, none⟩

end Aeroric.TaskWorld
