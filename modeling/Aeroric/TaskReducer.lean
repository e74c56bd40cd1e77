import Aeroric.TaskSession

/-! The task state machine on rows and lists of rows. -/
namespace Aeroric.TaskReducer

open TaskRecord TaskSession

def find (records : List Record) (taskId : String) : Option Record :=
  records.find? fun r => r.id = some taskId

/-- Rebuild the rows a rule answers for, and report whether there was one. -/
def mapRows (edit : Record → Option Record) (records : List Record) : List Record × Bool :=
  let next := records.map fun r => (edit r).getD r
  let changed := records.any fun r => (edit r).isSome
  (if changed then next else records, changed)

def updateFirst (taskId : String) (f : Record → Record) : List Record → List Record
  | [] => []
  | r :: rs => if r.id = some taskId then f r :: rs else r :: updateFirst taskId f rs

/-- A number to write, or a key to take away. -/
inductive Field
  | set (n : ℕ)
  | clear
  deriving DecidableEq, Repr

def writeField (r : Record) (key : String) : Field → Record
  | .set n => r.insert key (.ofNat n)
  | .clear => r.remove key

def fieldMatches (r : Record) (key : String) (want : Field) : Bool :=
  match r.get key, want with
  | none, .clear => true
  | some (.number held), .set n => held.asU64 = some n
  | _, _ => false

def shouldIgnoreTransition (current : Option TaskStatus) (next : TaskStatus) : Bool :=
  current = some .detached && (next = .running || next = .inputRequired)

/-- The first end time stays; leaving a terminal status takes it away. -/
def completedField (r : Record) (status : TaskStatus) (nowMs : ℕ) : Field :=
  if status.isTerminal then
    match r.get "completedAt" with
    | some (.number n) => .set (n.asU64.getD nowMs)
    | _ => .set nowMs
  else .clear

def attentionField (status : TaskStatus) (attention : Option ℕ) (nowMs : ℕ) : Field :=
  if status = .inputRequired then .set (attention.getD nowMs) else .clear

/-- What one status event makes of the row it names, when it moves anything. -/
def statusEdit (status : TaskStatus) (attention : Option ℕ) (reason : Option String) (nowMs : ℕ)
    (r : Record) : Option Record :=
  let attention := attentionField status attention nowMs
  let completed := completedField r status nowMs
  if shouldIgnoreTransition (statusOf r) status then none
  else if statusOf r = some status && fieldMatches r "attentionRequestedAt" attention
      && fieldMatches r "completedAt" completed then none
  else
    let moved := writeField (writeField (r.insert "status" status.value)
      "attentionRequestedAt" attention) "completedAt" completed
    some (if status = .failed then insertText moved "failureReason" reason else moved)

structure Transition where
  records : List Record
  changed : Bool
  task : Option Record

def onTask (taskId : String) (edit : Record → Option Record) (r : Record) : Option Record :=
  if r.id = some taskId then edit r else none

def applyStatusTransition (records : List Record) (taskId : String) (status : TaskStatus)
    (attention : Option ℕ) (reason : Option String) (nowMs : ℕ) : Transition :=
  let next := mapRows (onTask taskId (statusEdit status attention reason nowMs)) records
  ⟨next.1, next.2, find next.1 taskId⟩

def isArchivable (r : Record) : Bool :=
  match statusOf r with
  | some s => !(s = .running || s = .pending)
  | none => true

def hasNumber (r : Record) (key : String) : Bool := (r.get key).any Value.isNumber

def named (taskIds : List String) (r : Record) : Bool := r.id.any taskIds.contains

def archive (records : List Record) (taskIds : List String) (nowMs : ℕ) : List Record × Bool :=
  mapRows (fun r => if named taskIds r && isArchivable r && !hasNumber r "archivedAt" then
    some (r.insert "archivedAt" (.ofNat nowMs)) else none) records

def unarchive (records : List Record) (taskIds : List String) : List Record × Bool :=
  mapRows (fun r => if named taskIds r && hasNumber r "archivedAt" then
    some (r.remove "archivedAt") else none) records

def mapTask (taskId : String) (f : Record → Record) (records : List Record) : List Record :=
  records.map fun r => if r.id = some taskId then f r else r

def toggleStar (records : List Record) (taskId : String) : List Record :=
  mapTask taskId (fun r =>
    r.insert "starred" (.bool (!((r.get "starred").bind Value.asBool).getD false))) records

/-- An empty name is not a name: the key goes. -/
def rename (records : List Record) (taskId name : String) : List Record :=
  mapTask taskId (fun r =>
    if name = "" then r.remove "name" else r.insert "name" (.string name)) records

/-- Undo one field: only where this change moved it and nobody has moved it since. -/
def rollbackField (current previous applied : Record) (restored : Record) (key : String) : Record :=
  if previous.get key = applied.get key ∨ current.get key ≠ applied.get key then restored
  else restored.write key (previous.get key)

lemma rollbackField_comm (current previous applied restored : Record) (j k : String) :
    rollbackField current previous applied (rollbackField current previous applied restored j) k =
      rollbackField current previous applied
        (rollbackField current previous applied restored k) j := by
  unfold rollbackField
  split <;> split <;> try rfl
  apply Record.ext_get
  intro i
  by_cases hj : i = j <;> by_cases hk : i = k <;> simp_all

def rollbackMutation (current previous applied : Record) : Record :=
  let undo := fun restored key (_ : Value) => rollbackField current previous applied restored key
  let comm := fun restored j (_ : Value) k (_ : Value) =>
    rollbackField_comm current previous applied restored j k
  applied.fields.foldl undo comm (previous.fields.foldl undo comm current)

structure RenameExpect where
  name : String
  prompt : String
  status : TaskStatus
  sessionPath : Option String
  deriving DecidableEq

def renamePreconditionHolds (r : Record) (expect : RenameExpect)
    (currentSessionPath : Option String) : Bool :=
  expect.name = (r.strField "name").getD "" && expect.prompt = (r.strField "prompt").getD "" &&
    statusOf r = some expect.status && expect.sessionPath = currentSessionPath

def ifMoved (f : Record → Record) (r : Record) : Option Record :=
  if f r = r then none else some (f r)

/-- Two empty values change nothing; a missing one falls back to the row's own. -/
def attachSession (records : List Record) (taskId : String) (family : ProtocolFamily)
    (sessionAgent : String) (sessionId sessionPath : Option String) : List Record × Bool :=
  let blank := fun (value : Option String) => value.all (· = "")
  if blank sessionId && blank sessionPath then (records, false)
  else mapRows (onTask taskId (ifMoved fun r =>
    applyResolvedSession r (owner sessionAgent family)
      (sessionId.or (r.strField (sessionIdKey family)))
      (sessionPath.or (r.strField (sessionPathKey family))))) records

/-- Every session field a row may carry, the oldest two included. -/
def detachKeys : List String :=
  ProtocolFamily.all.flatMap (fun f => [sessionIdKey f, sessionPathKey f]) ++
    ["sessionId", "sessionPath"]

def detachSession (records : List Record) (taskId : String) : List Record × Bool :=
  mapRows (onTask taskId fun r =>
    if detachKeys.any r.contains then some (detachKeys.foldl Record.remove r) else none) records

def setWorktree (records : List Record) (taskId path branch baseBranch : String) :
    List Record × Bool :=
  mapRows (onTask taskId (ifMoved fun r =>
    (((r.insert "worktreePath" (.string path)).insert "worktreeBranch" (.string branch)).insert
      "baseBranch" (.string baseBranch)).remove "worktreeDiscarded")) records

def discardWorktree (records : List Record) (taskId : String) : List Record × Bool :=
  mapRows (onTask taskId fun r =>
    if r.get "worktreeDiscarded" = some (.bool true) then none
    else some (r.insert "worktreeDiscarded" (.bool true))) records

def recordDiffStats (records : List Record) (taskId : String) (additions deletions : ℕ) :
    List Record × Bool :=
  mapRows (onTask taskId (ifMoved fun r =>
    (r.insert "additions" (.ofNat additions)).insert "deletions" (.ofNat deletions))) records

def isActive (r : Record) : Bool := (statusOf r).any TaskStatus.isActive

/-- Interrupted, with a time since when somebody has to look at it. -/
def interruptRow (nowMs : ℕ) (r : Record) : Record :=
  let marked := r.insert "status" TaskStatus.interrupted.value
  if marked.contains "attentionRequestedAt" then marked
  else writeField marked "attentionRequestedAt" (.set nowMs)

/-- Settle the rows whose driver died with the last host: failed where the row already
says why, interrupted otherwise. The rows are judged as they were read. -/
def settleOrphanedSessions (records : List Record) (isOrphan : Record → Bool) (nowMs : ℕ) :
    List Record × List String :=
  records.foldl (fun (next, settled) r =>
    match r.id with
    | none => (next, settled)
    | some taskId =>
      if !isActive r || !isOrphan r then (next, settled)
      else if (r.strField "failureReason").any fun reason => !isBlank reason then
        ((applyStatusTransition next taskId .failed none none nowMs).records, settled ++ [taskId])
      else (updateFirst taskId (interruptRow nowMs) next, settled ++ [taskId])) (records, [])

/-- Boot repair of one row: detached while its child lives, interrupted otherwise, and
no `fast` for a dsh agent. A row already where it should be is not touched. -/
def bootEdit (liveTaskIds : List String) (nowMs : ℕ) (isDsh : String → Bool) (r : Record) :
    Option Record :=
  let live := named liveTaskIds r
  let target : TaskStatus := if live then .detached else .interrupted
  let repair := isActive r || (statusOf r = some .interrupted && live)
  let retarget := repair && statusOf r ≠ some target
  let stamp := repair && !r.contains "attentionRequestedAt"
  let slow := r.strField "speed" = some "fast" && (r.strField "agent").any isDsh
  let updated := if retarget then r.insert "status" target.value else r
  let updated := if stamp then updated.insert "attentionRequestedAt" (.ofNat nowMs) else updated
  let updated := if slow then updated.insert "speed" (.string "standard") else updated
  if retarget || stamp || slow then some updated else none

def normalizeAfterBoot (records : List Record) (liveTaskIds : List String) (nowMs : ℕ)
    (isDsh : String → Bool) : List Record × Bool :=
  mapRows (bootEdit liveTaskIds nowMs isDsh) records

def editTodo (records : List Record) (taskId prompt agent permissionMode : String) :
    List Record × Bool :=
  mapRows (onTask taskId fun r =>
    if statusOf r ≠ some .todo then none
    else ifMoved (fun r => ((r.insert "prompt" (.string prompt)).insert "agent"
      (.string agent)).insert "permissionMode" (.string permissionMode)) r) records

/-- Only the keys the delta names; a missing value takes the key away. -/
def applyFieldDelta (records : List Record) (taskId : String)
    (delta : List (String × Option Value)) : List Record × Bool :=
  mapRows (onTask taskId (ifMoved fun r => delta.foldl (fun r d => r.write d.1 d.2) r)) records

end Aeroric.TaskReducer
