import Aeroric.TaskWorld

/-! The task service: start and resume, config switches, observations, and the calls that
stop a task. Each definition follows the function of the same name, one action of the source
for one action here, save that an observation asks the ledger all its questions at once. -/
namespace Aeroric.TaskService

open TaskRecord TaskSession TaskReducer TaskLaunch TaskLedger TaskStorage TaskWorld

variable (c : Context) (env : Env)

def prepareForLaunch (r : Record) (kind : OperationKind) : Record :=
  let prepared := (r.insert "status" TaskStatus.pending.value).remove "attentionRequestedAt"
  if kind = .resume then prepared.remove "failureReason" else prepared

/-- Attachments and worktrees are for local projects only. -/
def checkTargetShape (project : Project) (taskId : String) (attachments : Attachments) :
    Service Unit :=
  let kind := match resolveLocation project with
    | .ssh _ _ => "ssh"
    | _ => "wsl"
  if (resolveLocation project).isLocal then pure ()
  else if attachments.images ≠ [] ∨ attachments.texts ≠ [] then
    throw (.unsupportedOnRemote kind "attachments")
  else do
    let snapshot ← load (env.read .shape) (project.id.getD "")
    if (find snapshot.records taskId).any fun row =>
        (row.strField "worktreePath").any (· ≠ "") then
      throw (.unsupportedOnRemote kind "a worktree")
    else pure ()

/-- Take the attempt out: the claim that already has its key, or the new run's number. -/
def takeAttempt (taskId : String) (kind : OperationKind) (operationKey : String) (nowMs : ℕ)
    (l : Ledger) : Except Claim ℕ × Ledger :=
  match l.openClaim taskId kind operationKey with
  | some existing => (.error existing, l)
  | none =>
    let advanced := l.nextGeneration taskId
    let generation := advanced.peekGeneration taskId
    (.ok generation, advanced.claim taskId kind operationKey generation nowMs)

/-- A refusal of stale content is told as a failed save. -/
def refusedLaunch : TaskError → TaskError
  | .storage inner => if inner.isStaleWrite then .persistFailed inner else .storage inner
  | other => other

/-- Mark the row of a failed spawn, as far as that goes. The list that is written back is
the one row. -/
def markFailed (r : Record) (failure : ExecutorFailure) (kind : OperationKind)
    (persist : Persist) : Service Unit := do
  let projectId := (r.strField "projectId").getD ""
  let taskId := r.id.getD ""
  match ← Call.attempt (load (env.read .abandon) projectId) with
  | .error _ => pure ()
  | .ok snapshot =>
    match find snapshot.records taskId with
    | none => pure ()
    | some current =>
      let rolledBack := rollbackMutation current r (prepareForLaunch r kind)
      let transition := applyStatusTransition [rolledBack] taskId .failed none
        (some failure.text) (env.clock .abandon)
      let _ ← Call.attempt
        (persistLaunch c (env.publish .abandon) projectId persist transition.records)
      pure ()

/-- A spawn that failed: mark the row, release the attempt, report the reason. -/
def abandonLaunch (r : Record) (failure : ExecutorFailure) (kind : OperationKind)
    (operationKey : String) (persist : Persist) : Service TaskError := do
  markFailed c env r failure kind persist
  settle (env.mirror .abandon) (r.id.getD "") kind operationKey
  return .launch failure.text

/-- Claim, persist, spawn, under the lock. -/
def beginUnderLock (project : Project) (taskId operationKey : String) (kind : OperationKind)
    (persistBeforeLaunch : Bool) (attachments : Attachments) (persist : Persist)
    (spawn : Record → ℕ → Service Unit) : Service Applied :=
  let projectId := project.id.getD ""
  if !isAddressable project then throw (.unaddressable projectId)
  else do
    let snapshot ← load (env.read .main) projectId
    match find snapshot.records taskId with
    | none => throw (.notFound projectId taskId)
    | some record =>
      checkTargetShape env project taskId attachments
      match ← onLedger (takeAttempt taskId kind operationKey (env.clock .main)) with
      | .error existing => throw (.alreadyClaimed taskId kind.asStr existing.claimedAtMs)
      | .ok generation =>
        let prepared := prepareForLaunch record kind
        let records := updateFirst taskId (fun _ => prepared) snapshot.records
        match ← Call.attempt (persistLaunch c (env.publish .main) projectId persist records) with
        | .error e =>
          settle (env.mirror .settle) taskId kind operationKey
          throw (refusedLaunch e)
        | .ok applied =>
          Call.onlyIf (kind = .start) do
            let _ ← acknowledge (env.mirror .acknowledge) taskId
          match ← Call.attempt (spawn prepared generation) with
          | .error e =>
            settle (env.mirror .settle) taskId kind operationKey
            throw e
          | .ok () =>
            Call.onlyIf (!persistBeforeLaunch) (settle (env.mirror .settle) taskId kind operationKey)
            return applied

/-- What a start is given beside its task and its key. -/
structure StartArgs where
  promptOverride : Option String
  injectPromptIntoTerminal : Bool
  attachments : Attachments
  hostFacts : HostWindowFacts
  deriving DecidableEq

def StartArgs.plain : StartArgs := ⟨none, false, ⟨[], []⟩, ⟨none, none⟩⟩

def launch (project : Project) (operationKey : String) (args : StartArgs) (persist : Persist)
    (r : Record) (generation : ℕ) : Service Unit :=
  match launchRequest c.families env.isDir r project operationKey generation args.attachments
      args.injectPromptIntoTerminal args.promptOverride args.hostFacts.dsh with
  | none => throw (.unaddressable (project.id.getD ""))
  | some request => do
    askExecutor (.launch { request with terminalSize := args.hostFacts.terminalSize }) env.executor
    match env.executor with
    | none => pure ()
    | some failure => throw (← abandonLaunch c env r failure .start operationKey persist)

def startAs (project : Project) (taskId operationKey : String) (persistBeforeLaunch : Bool)
    (args : StartArgs) (persist : Persist) : Service Applied :=
  Call.serial (beginUnderLock c env project taskId operationKey .start persistBeforeLaunch
    args.attachments persist (launch c env project operationKey args persist))

/-- Hand the prepared row, with the session it continues, to the executor. -/
def relaunch (project : Project) (sessionId operationKey : String)
    (terminalSize : Option (ℕ × ℕ)) (persist : Persist) (r : Record) (generation : ℕ) :
    Service Unit :=
  let withSession := applyResolvedSession r (resolveSessionOwner c.families r) (some sessionId) none
  match resumeRequest c.families env.isDir withSession project operationKey generation sessionId with
  | none => throw (.unaddressable (project.id.getD ""))
  | some request => do
    askExecutor (.resume { request with terminalSize }) env.executor
    match env.executor with
    | none => pure ()
    | some failure => throw (← abandonLaunch c env withSession failure .resume operationKey persist)

/-- A discarded worktree, an unacknowledged cut-off run and a blank session each hold a
resume back. These checks are made before the lock is taken. -/
def resumeAs (project : Project) (taskId sessionId operationKey : String)
    (persistBeforeLaunch : Bool) (terminalSize : Option (ℕ × ℕ)) (persist : Persist) :
    Service Applied := do
  let snapshot ← load (env.read .prelude) (project.id.getD "")
  let blocked := (find snapshot.records taskId).bind fun row =>
    (row.get "worktreeDiscarded").bind Value.asBool
  if blocked = some true then throw (.worktreeDiscarded taskId)
  else do
    let pending ← onLedger fun l => (l.awaiting taskId, l)
    if pending.isSome then throw (.awaitingAcknowledgement taskId)
    else if isBlank sessionId then throw (.noSession taskId)
    else Call.serial (beginUnderLock c env project taskId operationKey .resume persistBeforeLaunch
      ⟨[], []⟩ persist (relaunch c env project sessionId operationKey terminalSize persist))

structure ConfigSwitch where
  agent : String
  permissionMode : String
  selectedModel : Option String
  reasoningEffort : Option String
  speed : Option String
  deriving DecidableEq

structure SwitchEvidence where
  nativeResumeSupported : Bool
  sessionId : Option String
  adoptedSessionId : Option String
  adoptedSessionPath : Option String
  handoffPrompt : Option String
  deriving DecidableEq

def release (answer : WriteAnswer) (taskId operationKey : String) (generation : ℕ) :
    Service Unit :=
  mirrorLedger answer fun l =>
    (l.settle taskId .start operationKey).releaseGeneration taskId generation

/-- The row a switch writes: the session it continues, the new configuration, pending. -/
def switchedRow (o : SessionOwner) (values : ConfigSwitch) (sessionId sessionPath : Option String)
    (r : Record) : Record :=
  let committed := applyResolvedSession r o sessionId sessionPath
  let text := fun (value : Option String) => value.map Value.string
  let configured := ((((committed.insert "agent" (.string values.agent)).write "selectedModel"
    (text values.selectedModel)).write "reasoningEffort" (text values.reasoningEffort)).write
    "speed" (text values.speed)).insert "permissionMode" (.string values.permissionMode)
  ((configured.insert "status" TaskStatus.pending.value).remove
    "attentionRequestedAt").remove "failureReason"

/-- What a switch decides from a row after the reset: how it continues, and the row it
writes, unless there is nothing to continue from. -/
def decideSwitch (values : ConfigSwitch) (observed : SwitchEvidence) (reset : ResetOutcome)
    (previous : Record) : ConfigSwitchStrategy × Option Record :=
  let attributed := mergeResetSession previous reset
  let strategy := resolveConfigSwitchStrategy c.families attributed values.agent
    observed.nativeResumeSupported
  let resuming := strategy = .resume || (strategy = .adopt && observed.adoptedSessionId.isSome)
  let sessionId := match strategy with
    | .resume => observed.sessionId
    | .adopt => observed.adoptedSessionId
    | .handoff => none
  if !resuming && isBlank (observed.handoffPrompt.getD "") &&
      isBlank ((attributed.strField "prompt").getD "") then (strategy, none)
  else (strategy, some (switchedRow (resolveSessionOwner c.families attributed) values sessionId
    observed.adoptedSessionPath attributed))

/-- Reset, decide, persist. Every way out that reaches no process gives the number back. -/
def switchConfig (project : Project) (taskId operationKey : String) (values : ConfigSwitch)
    (observed : SwitchEvidence) : Service (ConfigSwitchStrategy × Applied) :=
  let projectId := project.id.getD ""
  if !isAddressable project then throw (.unaddressable projectId)
  else do
    let snapshot ← load (env.read .main) projectId
    match find snapshot.records taskId with
    | none => throw (.notFound projectId taskId)
    | some previous =>
      match ← onLedger (takeAttempt taskId .start operationKey (env.clock .main)) with
      | .error existing => throw (.alreadyClaimed taskId existing.kind.asStr existing.claimedAtMs)
      | .ok generation =>
        match env.reset with
        | .error failure =>
          askExecutor (.reset taskId) (some failure)
          release (env.mirror .settle) taskId operationKey generation
          throw (.launch failure.text)
        | .ok reset =>
          askExecutor (.reset taskId) none
          match decideSwitch c values observed reset previous with
          | (_, none) =>
            release (env.mirror .settle) taskId operationKey generation
            throw (.noContinuationContext taskId)
          | (strategy, some row) =>
            let records := updateFirst taskId (fun _ => row) snapshot.records
            match ← Call.attempt (commit (env.publish .main) projectId records) with
            | .error e =>
              release (env.mirror .settle) taskId operationKey generation
              throw (refusedLaunch e)
            | .ok committed =>
              Call.onlyIf (strategy = .handoff) do
                let _ ← acknowledge (env.mirror .acknowledge) taskId
              mirrorLedger (env.mirror .settle) id
              return (strategy, { committed with generation := some generation })

inductive EventOutcome
  | applied (status : TaskStatus) (changed : Bool) (failureReason : Option String)
  | dropped (reason : String)
  deriving DecidableEq

/-- The status an event reports, when it reports one: its attention time, its reason, and
whether the late-observation guard applies to it. -/
def reportOf : TaskEvent → Option (TaskStatus × Option ℕ × Option String × Bool)
  | .status _ _ status attention reason origin => some (status, attention, reason, origin.isGuarded)
  | .exit _ _ code => some ((settledByExit code).1, none, (settledByExit code).2, false)
  | .terminalReady _ _ => none

def storeObserved (projectId : String) (persist : Persist) (records : List Record) :
    Service Applied :=
  match persist with
  | .commit => commit (env.publish .main) projectId records
  | .viaHost => saveViaHost c (env.publish .main) projectId records
  | .decideOnly => return ⟨records, none, true, none, none⟩

/-- An event of a run that is neither the newest nor still claimed. -/
def isStale (l : Ledger) (event : TaskEvent) : Bool :=
  event.generation < l.peekGeneration event.taskId && !l.isLive event.taskId event.generation

/-- Does the task have any run: a claim of ours, or one the host knows of? -/
def isTaskLive (l : Ledger) (taskId : String) : Bool :=
  !(l.openFor taskId).isEmpty || env.liveRun

/-- A finished run does not finish the task while another one is in flight. -/
def admittedStatus (l : Ledger) (event : TaskEvent) (reported : TaskStatus) : TaskStatus :=
  if reported.isTerminal && !(l.liveOtherThan event.taskId event.generation).isEmpty then .running
  else reported

/-- Where a hook or an exit lands: the only way an observation moves a task. -/
def applyObservationUnderLock (projectId : String) (event : TaskEvent) (persist : Persist) :
    Service (EventOutcome × Applied) := do
  let snapshot ← load (env.read .main) projectId
  let ledger ← onLedger fun l => (l, l)
  if isStale ledger event then return (.dropped "stale generation", unchanged snapshot)
  else if ledger.peekGeneration event.taskId < event.generation then
    throw (.futureGeneration event.taskId event.generation (ledger.peekGeneration event.taskId))
  else match reportOf event with
  | none =>
    settleByGeneration (env.mirror .settle) event.taskId event.generation
    return (.dropped "terminal ready moves no status", unchanged snapshot)
  | some (reported, attention, reason, guarded) =>
    if guarded && !reported.isTerminal && !isTaskLive env ledger event.taskId then
      return (.dropped "no live run for this task", unchanged snapshot)
    else do
      let status := admittedStatus ledger event reported
      let transition := applyStatusTransition snapshot.records event.taskId status attention reason
        (env.clock .main)
      Call.onlyIf reported.isTerminal
        (settleByGeneration (env.mirror .settle) event.taskId event.generation)
      if !transition.changed then
        return (.applied status false reason, unchanged snapshot)
      else
        let applied ← storeObserved c env projectId persist transition.records
        return (.applied status true reason, applied)

def applyObservation (projectId : String) (event : TaskEvent) (persist : Persist) :
    Service (EventOutcome × Applied) :=
  Call.serial (applyObservationUnderLock c env projectId event persist)

/-- A live process is stopped and its exit settles the row; without one the row moves now. -/
def complete (project : Project) (taskId : String) : Service (Completion × Option Applied) :=
  Call.serial do
    let projectId := project.id.getD ""
    let snapshot ← load (env.read .main) projectId
    match find snapshot.records taskId with
    | none => throw (.notFound projectId taskId)
    | some record =>
      match completionFor c.families record with
      | .nothing =>
        let transition := applyStatusTransition snapshot.records taskId .done none none
          (env.clock .main)
        let applied ← commit (env.publish .main) projectId transition.records
        return (.nothing, some applied)
      | kind =>
        askExecutor (.complete taskId (processPath record project)) env.executor
        match env.executor with
        | some failure => throw (.launch failure.text)
        | none => return (kind, none)

/-- Stop the process; the status is the exit's to write. -/
def cancel (project : Project) (taskId : String) : Service CancelTarget :=
  Call.serial do
    let projectId := project.id.getD ""
    let snapshot ← load (env.read .main) projectId
    match find snapshot.records taskId with
    | none => throw (.notFound projectId taskId)
    | some record =>
      let target := cancelTarget c.families record project
      askExecutor (.cancel taskId target) env.executor
      match env.executor with
      | some failure => throw (.launch failure.text)
      | none =>
        mirrorLedger (env.mirror .settle) (·.settleTask taskId)
        return target

end Aeroric.TaskService
