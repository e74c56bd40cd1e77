import Aeroric.TaskService

/-! The calls that only move rows, the intents a host hands over, and the whole interface. -/
namespace Aeroric.TaskInterface

open TaskRecord TaskSession TaskReducer TaskLaunch TaskLedger TaskStorage TaskWorld TaskService

variable (c : Context) (env : Env)

/-- Load, decide, store. An edit that moves nothing is not stored. -/
def readModifyWrite (projectId : String)
    (decision : List Record → Except TaskError (Option (List Record)))
    (store : List Record → Service Applied) : Service Applied := do
  let snapshot ← load (env.read .main) projectId
  match decision snapshot.records with
  | .error e => throw e
  | .ok none => return unchanged snapshot
  | .ok (some records) => store records

def finish (projectId : String) (persist : Persist) : List Record → Service Applied :=
  finishIntent c (env.publish .main) projectId persist

def ifListMoved (old : List Record) (new : List Record × Bool) : Option (List Record) :=
  if !new.2 || new.1 = old then none else some new.1

/-- A call on a row that is not there is an error, not a call without effect. -/
def onRow (projectId taskId : String)
    (decision : Record → List Record → Option (List Record)) (records : List Record) :
    Except TaskError (Option (List Record)) :=
  match find records taskId with
  | some r => .ok (decision r records)
  | none => .error (.notFound projectId taskId)

def metadataEdit (projectId taskId : String) (persist : Persist)
    (change : List Record → List Record) : Service Applied :=
  readModifyWrite env projectId
    (onRow projectId taskId fun _ records => ifListMoved records (change records, true))
    (finish c env projectId persist)

/-- One missing row refuses the whole batch. -/
def metadataBatch (projectId : String) (taskIds : List String) (persist : Persist)
    (change : List Record → List Record × Bool) : Service Applied :=
  readModifyWrite env projectId (fun records =>
    match taskIds.find? fun taskId => (find records taskId).isNone with
    | some taskId => .error (.notFound projectId taskId)
    | none => .ok (ifListMoved records (change records))) (finish c env projectId persist)

def metadataOne (projectId taskId : String) (persist : Persist)
    (change : List Record → List Record × Bool) : Service Applied :=
  metadataBatch c env projectId [taskId] persist change

def resolvedSessionPath (r : Record) : Option String :=
  let fields := sessionFields r (resolveSessionOwner c.families r).family
  fields.sessionPath.or fields.legacySessionPath

/-- A precondition that no longer holds drops the new name without an error. -/
def runRename (projectId taskId name : String) (expect : Option RenameExpect)
    (persist : Persist) : Service Applied :=
  readModifyWrite env projectId (onRow projectId taskId fun r records =>
    if expect.any fun want => !renamePreconditionHolds r want (resolvedSessionPath c r) then none
    else ifListMoved records (rename records taskId name, true)) (finish c env projectId persist)

def normalizeAfterBootWith (projectId : String) (liveTaskIds : List String)
    (persist : Persist) : Service Applied :=
  readModifyWrite env projectId (fun records =>
    let next := normalizeAfterBoot records liveTaskIds (env.clock .main)
      fun agent => c.families.sessionFamily agent = .dsh
    .ok (if next.2 then some next.1 else none)) (finish c env projectId persist)

/-- The row a resume is about to continue: the session and the agent, pending. -/
def resumedRow (agent : String) (family : ProtocolFamily) (sessionId sessionPath : Option String)
    (r : Record) : Record :=
  let committed := applyResolvedSession r (owner agent family) sessionId sessionPath
  (((committed.insert "agent" (.string agent)).insert "status" TaskStatus.pending.value).remove
    "attentionRequestedAt").remove "failureReason"

def resumeWithSessionWith (projectId taskId agent : String) (family : ProtocolFamily)
    (sessionId sessionPath : Option String) (persist : Persist) : Service Applied :=
  readModifyWrite env projectId (onRow projectId taskId fun r records =>
    let committed := resumedRow agent family sessionId sessionPath r
    if committed = r then none
    else some (updateFirst taskId (fun _ => committed) records)) (finish c env projectId persist)

/-- The eleven session fields of a row, a missing key for an absent value. -/
structure SessionSnapshot where
  sessionId : ProtocolFamily → Option String
  sessionPath : ProtocolFamily → Option String
  sessionAgent : Option String
  sessionCodexLike : Option Bool
  sessionFamily : Option String

def SessionSnapshot.entries (s : SessionSnapshot) : List (String × Option Value) :=
  ProtocolFamily.all.flatMap (fun f =>
    [(sessionIdKey f, (s.sessionId f).map Value.string),
      (sessionPathKey f, (s.sessionPath f).map Value.string)]) ++
  [("sessionAgent", s.sessionAgent.map Value.string),
    ("sessionCodexLike", s.sessionCodexLike.map Value.bool),
    ("sessionFamily", s.sessionFamily.map Value.string)]

/-- What a config switch writes: the session fields the host saw move, the configuration,
and the row back to pending. -/
def switchDelta (values : ConfigSwitch) (previous resolved : SessionSnapshot) :
    List (String × Option Value) :=
  ((previous.entries.zip resolved.entries).filter fun (before, after) =>
    before.2 ≠ after.2).map Prod.snd ++
  [("agent", some (.string values.agent)), ("selectedModel", values.selectedModel.map .string),
    ("reasoningEffort", values.reasoningEffort.map .string), ("speed", values.speed.map .string),
    ("permissionMode", some (.string values.permissionMode)),
    ("status", some TaskStatus.pending.value), ("attentionRequestedAt", none),
    ("failureReason", none)]

def switchConfigWriteWith (projectId taskId : String) (values : ConfigSwitch)
    (previous resolved : SessionSnapshot) (persist : Persist) : Service Applied :=
  readModifyWrite env projectId (onRow projectId taskId fun _ records =>
    let next := applyFieldDelta records taskId (switchDelta values previous resolved)
    if next.2 then some next.1 else none) (finish c env projectId persist)

structure NewTask where
  id : String
  prompt : String
  agent : String
  permissionMode : String
  immediate : Bool
  selectedModel : Option String
  reasoningEffort : Option String
  speed : Option String
  dshAgentPreset : Option String
  agentConfigId : Option String
  deriving DecidableEq

def buildNewRecord (projectId : String) (spec : NewTask) (now : ℕ) : Record :=
  let base := ((Record.empty.insert "id" (.string spec.id)).insert "projectId"
    (.string projectId)).insert "prompt" (.string spec.prompt)
  let labelled := if !isBlank spec.prompt then base.remove "name"
    else base.insert "name" (.string spec.agent)
  let pinned := (((labelled.insert "agent" (.string spec.agent)).insert "launchFamily"
    (c.families.launchFamily spec.agent).value).insert "sessionFamily"
    (c.families.sessionFamily spec.agent).value).insert "resumeFamily"
    (c.families.nativeResumeFamily spec.agent).value
  let configured := insertText (insertText (insertText (insertText pinned "selectedModel"
    spec.selectedModel) "reasoningEffort" spec.reasoningEffort) "speed" spec.speed)
    "agentConfigId" spec.agentConfigId
  let preset := if c.families.launchFamily spec.agent = .dsh then
      configured.insert "dshAgentPreset" (.string (spec.dshAgentPreset.getD "standard"))
    else configured
  let status : TaskStatus := if spec.immediate then .pending else .todo
  ((preset.insert "permissionMode" (.string spec.permissionMode)).insert "status"
    status.value).insert "createdAt" (.ofNat now)

def insertNewTask (projectId : String) (spec : NewTask) (persist : Persist) :
    Service (Record × Applied) := do
  let record := buildNewRecord c projectId spec (env.clock .main)
  let applied ← readModifyWrite env projectId (fun records =>
    if (find records spec.id).isSome then .error (.duplicateId spec.id)
    else .ok (some (record :: records))) (finish c env projectId persist)
  return (record, applied)

/-- A session without a configuration of its own takes the login's, on this machine. -/
def create (project : Project) (spec : NewTask) : Service (Record × Applied) :=
  let remote := match project.location with
    | .target (.ssh _ _) => true
    | _ => false
  let spec := if spec.agentConfigId.isNone && !remote then
      { spec with agentConfigId := env.loginConfig spec.agent } else spec
  match project.id with
  | none => throw (.storage (.invalidId (.emptyId "project")))
  | some projectId =>
    if !isAddressable project then throw (.unaddressable projectId)
    else Call.serial (insertNewTask c env projectId spec .commit)

structure Deleted where
  removed : List String
  skippedStarred : List String
  applied : Applied
  deriving DecidableEq

def isStarred (records : List Record) (taskId : String) : Bool :=
  (find records taskId).any fun r => ((r.get "starred").bind Value.asBool).getD false

def isLiveRow (records : List Record) (taskId : String) : Bool :=
  (find records taskId).any fun r => (statusOf r).any TaskStatus.isLive

/-- Forget the claims and the pending acknowledgements of these tasks. -/
def forgetTasks (taskIds : List String) (l : Ledger) : Ledger :=
  taskIds.foldl (fun l taskId => (l.settleTask taskId).acknowledge taskId) l

/-- Starred rows are skipped and a live row refuses the whole call. The ledger lets go of
the tasks before the list is written. -/
def deleteWith (projectId : String) (taskIds : List String) (persist : Persist) :
    Service Deleted := do
  let snapshot ← load (env.read .main) projectId
  let requested := taskIds.filter fun t => !isStarred snapshot.records t
  let skippedStarred := taskIds.filter (isStarred snapshot.records)
  let blocked := requested.filter (isLiveRow snapshot.records)
  if requested = [] then return ⟨[], skippedStarred, unchanged snapshot⟩
  else if blocked ≠ [] then throw (.alreadyClaimed (", ".intercalate blocked) "running" 0)
  else do
    let records := snapshot.records.filter fun r => !named requested r
    onLedger fun l => ((), forgetTasks requested l)
    let applied ← finishIntent c (env.publish .main) projectId persist records
    return ⟨requested, skippedStarred, applied⟩

def mutate (projectId : String) (change : List Record → ℕ → List Record × Bool) :
    Service Applied :=
  Call.serial (readModifyWrite env projectId (fun records =>
    .ok (ifListMoved records (change records (env.clock .main))))
    (commit (env.publish .main) projectId))

def settleOrphaned (projectId : String) (isOrphan : Record → Bool) :
    Service (List String × Applied) :=
  Call.serial do
    let snapshot ← load (env.read .main) projectId
    let next := settleOrphanedSessions snapshot.records isOrphan (env.clock .main)
    if next.2 = [] then return ([], unchanged snapshot)
    else do
      let applied ← commit (env.publish .main) projectId next.1
      mirrorLedger (env.mirror .settle) fun l => next.2.foldl Ledger.settleTask l
      return (next.2, applied)

/-- Let go of a cut-off run, and keep that somebody has to see it. -/
def cutOff (l : Ledger) (item : Acknowledgement) : Ledger :=
  (l.settleTask item.taskId).awaitAcknowledgement item

/-- What a fresh process owes: every start or resume the last one left open becomes
interrupted, and nothing is respawned. -/
def reconcileProject (projectId : String) : Service (List String × Applied) := do
  let snapshot ← load (env.read .main) projectId
  let claims ← onLedger fun l => (l.claims, l)
  let next := reconcile claims snapshot.records (env.clock .main)
  if next.2 = [] then return ([], unchanged snapshot)
  else do
    let applied ← commit (env.publish .main) projectId next.1
    mirrorLedger (env.mirror .settle) fun l => next.2.foldl cutOff l
    return (next.2.map Acknowledgement.taskId, applied)

/-- One intent of a host's queue. -/
inductive TaskIntent
  | rename (taskId name : String) (expect : Option RenameExpect)
  | toggleStar (taskId : String)
  | archive (taskIds : List String)
  | unarchive (taskIds : List String)
  | attachSession (taskId : String) (family : ProtocolFamily) (sessionAgent : String)
      (sessionId sessionPath : Option String)
  | setWorktree (taskId path branch baseBranch : String)
  | discardWorktree (taskId : String)
  | recordDiffStats (taskId : String) (additions deletions : ℕ)
  | create (spec : NewTask)
  | delete (taskIds : List String)
  | normalizeAfterBoot (liveTaskIds : List String)
  | switchConfig (taskId : String) (values : ConfigSwitch) (previous resolved : SessionSnapshot)
  | resumeWithSession (taskId agent : String) (family : ProtocolFamily)
      (sessionId sessionPath : Option String)
  | editTodo (taskId prompt agent permissionMode : String)

/-- What an intent does once the lock is held. The named metadata calls of the service
(rename, archive and the others) are the same bodies under the same lock. -/
def intentUnderLock (projectId : String) (persist : Persist) : TaskIntent → Service Applied
  | .rename taskId name expect => runRename c env projectId taskId name expect persist
  | .toggleStar taskId => metadataEdit c env projectId taskId persist (toggleStar · taskId)
  | .archive taskIds =>
    metadataBatch c env projectId taskIds persist (archive · taskIds (env.clock .main))
  | .unarchive taskIds => metadataBatch c env projectId taskIds persist (unarchive · taskIds)
  | .attachSession taskId family agent sessionId sessionPath =>
    metadataOne c env projectId taskId persist
      (attachSession · taskId family agent sessionId sessionPath)
  | .setWorktree taskId path branch baseBranch =>
    metadataOne c env projectId taskId persist (setWorktree · taskId path branch baseBranch)
  | .discardWorktree taskId =>
    metadataOne c env projectId taskId persist (discardWorktree · taskId)
  | .recordDiffStats taskId additions deletions =>
    metadataOne c env projectId taskId persist (recordDiffStats · taskId additions deletions)
  | .create spec => do
    let created ← insertNewTask c env projectId { spec with agentConfigId := none } persist
    return created.2
  | .delete taskIds => do
    let deleted ← deleteWith c env projectId taskIds persist
    return deleted.applied
  | .normalizeAfterBoot liveTaskIds => normalizeAfterBootWith c env projectId liveTaskIds persist
  | .switchConfig taskId values previous resolved =>
    switchConfigWriteWith c env projectId taskId values previous resolved persist
  | .resumeWithSession taskId agent family sessionId sessionPath =>
    resumeWithSessionWith c env projectId taskId agent family sessionId sessionPath persist
  | .editTodo taskId prompt agent permissionMode =>
    metadataOne c env projectId taskId persist (editTodo · taskId prompt agent permissionMode)

def runIntent (projectId : String) (intent : TaskIntent) (persist : Persist) : Service Applied :=
  Call.serial (intentUnderLock c env projectId persist intent)

/-- Every call of the service that can change something. -/
inductive Request
  | create (project : Project) (spec : NewTask)
  | start (project : Project) (taskId operationKey : String) (persistBeforeLaunch : Bool)
      (args : StartArgs) (persist : Persist)
  | resume (project : Project) (taskId sessionId operationKey : String)
      (persistBeforeLaunch : Bool) (terminalSize : Option (ℕ × ℕ)) (persist : Persist)
  | switchConfig (project : Project) (taskId operationKey : String) (values : ConfigSwitch)
      (observed : SwitchEvidence)
  | observe (projectId : String) (event : TaskEvent) (persist : Persist)
  | complete (project : Project) (taskId : String)
  | cancel (project : Project) (taskId : String)
  | delete (projectId : String) (taskIds : List String)
  | mutate (projectId : String) (change : List Record → ℕ → List Record × Bool)
  | detachSession (projectId taskId : String)
  | normalizeAfterBoot (projectId : String) (liveTaskIds : List String)
  | settleOrphanedSessions (projectId : String) (isOrphan : Record → Bool)
  | resumeWithSession (projectId taskId agent : String) (family : ProtocolFamily)
      (sessionId sessionPath : Option String)
  | switchConfigWrite (projectId taskId : String) (values : ConfigSwitch)
      (previous resolved : SessionSnapshot)
  | intent (projectId : String) (intent : TaskIntent) (persist : Persist)
  | reconcile (projectId : String)
  | acknowledge (taskId : String)

inductive Reply
  | created (record : Record) (applied : Applied)
  | applied (applied : Applied)
  | switched (strategy : ConfigSwitchStrategy) (applied : Applied)
  | observed (outcome : EventOutcome) (applied : Applied)
  | completed (kind : Completion) (applied : Option Applied)
  | cancelled (target : CancelTarget)
  | deleted (deleted : Deleted)
  | settled (taskIds : List String) (applied : Applied)
  | reconciled (taskIds : List String) (applied : Applied)
  | acknowledged (cleared : Bool)

/-- One call of the service, as the actions it makes. -/
def call : Request → Service Reply
  | .create project spec => do
    let made ← create c env project spec
    return .created made.1 made.2
  | .start project taskId operationKey persistBeforeLaunch args persist => do
    return .applied (← startAs c env project taskId operationKey persistBeforeLaunch args persist)
  | .resume project taskId sessionId operationKey persistBeforeLaunch terminalSize persist => do
    return .applied (← resumeAs c env project taskId sessionId operationKey persistBeforeLaunch
      terminalSize persist)
  | .switchConfig project taskId operationKey values observed => do
    let switched ← switchConfig c env project taskId operationKey values observed
    return .switched switched.1 switched.2
  | .observe projectId event persist => do
    let seen ← applyObservation c env projectId event persist
    return .observed seen.1 seen.2
  | .complete project taskId => do
    let completed ← complete c env project taskId
    return .completed completed.1 completed.2
  | .cancel project taskId => do return .cancelled (← cancel c env project taskId)
  | .delete projectId taskIds => do return .deleted (← deleteWith c env projectId taskIds .commit)
  | .mutate projectId change => do return .applied (← mutate env projectId change)
  | .detachSession projectId taskId => do
    return .applied (← Call.serial
      (metadataOne c env projectId taskId .commit (detachSession · taskId)))
  | .normalizeAfterBoot projectId liveTaskIds => do
    return .applied (← normalizeAfterBootWith c env projectId liveTaskIds .commit)
  | .settleOrphanedSessions projectId isOrphan => do
    let settled ← settleOrphaned env projectId isOrphan
    return .settled settled.1 settled.2
  | .resumeWithSession projectId taskId agent family sessionId sessionPath => do
    return .applied (← resumeWithSessionWith c env projectId taskId agent family sessionId
      sessionPath .commit)
  | .switchConfigWrite projectId taskId values previous resolved => do
    return .applied (← switchConfigWriteWith c env projectId taskId values previous resolved
      .commit)
  | .intent projectId intent persist => do
    return .applied (← runIntent c env projectId intent persist)
  | .reconcile projectId => do
    let reconciled ← reconcileProject env projectId
    return .reconciled reconciled.1 reconciled.2
  | .acknowledge taskId => do
    return .acknowledged (← acknowledge (env.mirror .acknowledge) taskId)

end Aeroric.TaskInterface
