import Aeroric.TaskReducer

/-! The executor's side: what a row and its project turn into, and what comes back. -/
namespace Aeroric.TaskLaunch

open TaskRecord TaskSession

inductive ProjectTarget
  | localDir (path : String)
  | ssh (connectionId remotePath : String)
  | wsl (distribution linuxPath : String)
  deriving DecidableEq

/-- The `location` field of a project as this build reads it. -/
inductive Location
  | absent
  | unreadable
  | target (t : ProjectTarget)
  deriving DecidableEq

/-- The fields of a project record the task service reads. -/
structure Project where
  id : Option String
  path : Option String
  location : Location
  linkedFolders : List String
  deriving DecidableEq

def resolveLocation (project : Project) : ProjectTarget :=
  match project.location with
  | .target t => t
  | _ => .localDir (project.path.getD "")

def isAddressable (project : Project) : Bool :=
  match project.location with
  | .unreadable => false
  | _ => true

def ProjectTarget.isLocal : ProjectTarget → Bool
  | .localDir _ => true
  | _ => false

inductive WorkingDirectory
  | localDir (path : String)
  | ssh (connectionId remotePath : String)
  | wsl (distribution path : String)
  deriving DecidableEq

inductive PermissionMode
  | ask
  | autoEdit
  | fullAccess
  deriving DecidableEq

def permissionMode (r : Record) : PermissionMode :=
  match r.strField "permissionMode" with
  | some "auto_edit" => .autoEdit
  | some "full_access" => .fullAccess
  | _ => .ask

/-- A worktree is a local path and wins over the project's own. -/
def workingDirectory (r : Record) (project : Project) : Option WorkingDirectory :=
  if !isAddressable project then none
  else match resolveLocation project with
    | .ssh connectionId remotePath => some (.ssh connectionId remotePath)
    | .wsl distribution linuxPath => some (.wsl distribution linuxPath)
    | .localDir path => some (.localDir ((r.strField "worktreePath").getD path))

def processPath (r : Record) (project : Project) : String :=
  match workingDirectory r project with
  | some (.localDir path) | some (.ssh _ path) | some (.wsl _ path) => path
  | none => (r.strField "worktreePath").getD ""

inductive CancelTarget
  | ssh
  | wsl
  | dsh
  | localDir (projectPath : String)
  deriving DecidableEq

def cancelTarget (families : AgentFamilies) (r : Record) (project : Project) : CancelTarget :=
  if launchFamilyOf families r = .dsh then .dsh
  else if !isAddressable project then .localDir ""
  else match resolveLocation project with
    | .ssh _ _ => .ssh
    | .wsl _ _ => .wsl
    | .localDir _ => .localDir (processPath r project)

structure DshWindowFacts where
  workspaceId : Option String
  promptMode : Option String
  clientTimeZone : Option String
  deriving DecidableEq

structure HostWindowFacts where
  terminalSize : Option (ℕ × ℕ)
  dsh : Option DshWindowFacts
  deriving DecidableEq

structure Attachments where
  images : List String
  texts : List String
  deriving DecidableEq

structure LaunchRequest where
  taskId : String
  projectId : String
  operationKey : String
  generation : ℕ
  family : ProtocolFamily
  agent : String
  permissionMode : PermissionMode
  permissionModeWire : String
  prompt : String
  promptOverride : Option String
  images : List String
  texts : List String
  injectPromptIntoTerminal : Bool
  sessionId : Option String
  selectedModel : Option String
  reasoningEffort : Option String
  speed : Option String
  dshAgentPreset : Option String
  agentConfigId : Option String
  createdAtMs : ℕ
  dshWindow : Option DshWindowFacts
  workingDirectory : WorkingDirectory
  linkedFolders : List String
  terminalSize : Option (ℕ × ℕ)
  deriving DecidableEq

/-- The linked folders that exist; a remote project has none. -/
def linkedFolders (isDir : String → Bool) (directory : WorkingDirectory) (project : Project) :
    List String :=
  match directory with
  | .localDir _ => project.linkedFolders.filter isDir
  | _ => []

def createdAt (r : Record) : ℕ :=
  match r.get "createdAt" with
  | some (.number n) => n.asU64.getD 0
  | _ => 0

def launchRequest (families : AgentFamilies) (isDir : String → Bool) (r : Record)
    (project : Project) (operationKey : String) (generation : ℕ) (attachments : Attachments)
    (injectPromptIntoTerminal : Bool) (promptOverride : Option String)
    (dshWindow : Option DshWindowFacts) : Option LaunchRequest := do
  let directory ← workingDirectory r project
  let o := resolveSessionOwner families r
  let taskId ← r.id
  let projectId ← r.strField "projectId"
  return {
    taskId, projectId, operationKey, generation
    family := launchFamilyOf families r
    agent := (r.strField "agent").getD ""
    permissionMode := permissionMode r
    permissionModeWire := (r.strField "permissionMode").getD ""
    prompt := (r.strField "prompt").getD ""
    promptOverride
    images := attachments.images
    texts := attachments.texts
    injectPromptIntoTerminal
    sessionId := r.strField (sessionIdKey o.family)
    selectedModel := r.strField "selectedModel"
    reasoningEffort := r.strField "reasoningEffort"
    speed := r.strField "speed"
    dshAgentPreset := r.strField "dshAgentPreset"
    agentConfigId := r.strField "agentConfigId"
    createdAtMs := createdAt r
    dshWindow
    workingDirectory := directory
    linkedFolders := linkedFolders isDir directory project
    terminalSize := none }

structure ResumeRequest where
  taskId : String
  projectId : String
  operationKey : String
  generation : ℕ
  family : ProtocolFamily
  agent : String
  sessionId : String
  sessionPath : Option String
  permissionMode : PermissionMode
  permissionModeWire : String
  selectedModel : Option String
  reasoningEffort : Option String
  speed : Option String
  dshAgentPreset : Option String
  agentConfigId : Option String
  prompt : Option String
  workingDirectory : WorkingDirectory
  linkedFolders : List String
  terminalSize : Option (ℕ × ℕ)
  deriving DecidableEq

def resumeRequest (families : AgentFamilies) (isDir : String → Bool) (r : Record)
    (project : Project) (operationKey : String) (generation : ℕ) (sessionId : String) :
    Option ResumeRequest := do
  let directory ← workingDirectory r project
  let family := launchFamilyOf families r
  let taskId ← r.id
  let projectId ← r.strField "projectId"
  let takesPrompt := family ≠ .dsh && match directory with
    | .localDir _ => true
    | _ => false
  return {
    taskId, projectId, operationKey, generation, family, sessionId
    agent := (r.strField "agent").getD ""
    sessionPath := r.strField (sessionPathKey (resolveSessionOwner families r).family)
    permissionMode := permissionMode r
    permissionModeWire := (r.strField "permissionMode").getD ""
    selectedModel := r.strField "selectedModel"
    reasoningEffort := r.strField "reasoningEffort"
    speed := r.strField "speed"
    dshAgentPreset := r.strField "dshAgentPreset"
    agentConfigId := r.strField "agentConfigId"
    prompt := if takesPrompt then some ((r.strField "prompt").getD "") else none
    workingDirectory := directory
    linkedFolders := linkedFolders isDir directory project
    terminalSize := none }

lemma workingDirectory_of_addressable (r : Record) {project : Project}
    (h : isAddressable project = true) : ∃ directory, workingDirectory r project = some directory := by
  unfold workingDirectory
  simp only [h, Bool.not_true, Bool.false_eq_true, if_false]
  cases resolveLocation project <;> exact ⟨_, rfl⟩

/-- A row of an addressable project makes a request exactly when it names its project. -/
lemma launchRequest_cases (families : AgentFamilies) (isDir : String → Bool) {r : Record}
    {project : Project} {t : String} (hid : r.id = some t) (hp : isAddressable project = true)
    (key : String) (g : ℕ) (attachments : Attachments) (inject : Bool)
    (override : Option String) (dsh : Option DshWindowFacts) :
    (r.strField "projectId" = none ∧
      launchRequest families isDir r project key g attachments inject override dsh = none) ∨
    ∃ q request, r.strField "projectId" = some q ∧
      launchRequest families isDir r project key g attachments inject override dsh = some request ∧
      request.taskId = t ∧ request.operationKey = key ∧ request.generation = g := by
  obtain ⟨directory, hd⟩ := workingDirectory_of_addressable r hp
  cases hq : r.strField "projectId" with
  | none => exact .inl ⟨rfl, by simp [launchRequest, hd, hid, hq]⟩
  | some q =>
    simp only [launchRequest, hd, hid, hq, Option.bind_eq_bind, Option.bind_some]
    exact .inr ⟨q, _, rfl, rfl, rfl, rfl, rfl⟩

lemma resumeRequest_cases (families : AgentFamilies) (isDir : String → Bool) {r : Record}
    {project : Project} {t : String} (hid : r.id = some t) (hp : isAddressable project = true)
    (key : String) (g : ℕ) (sessionId : String) :
    (r.strField "projectId" = none ∧
      resumeRequest families isDir r project key g sessionId = none) ∨
    ∃ q request, r.strField "projectId" = some q ∧
      resumeRequest families isDir r project key g sessionId = some request ∧
      request.taskId = t ∧ request.operationKey = key ∧ request.generation = g := by
  obtain ⟨directory, hd⟩ := workingDirectory_of_addressable r hp
  cases hq : r.strField "projectId" with
  | none => exact .inl ⟨rfl, by simp [resumeRequest, hd, hid, hq]⟩
  | some q =>
    simp only [resumeRequest, hd, hid, hq, Option.bind_eq_bind, Option.bind_some]
    exact .inr ⟨q, _, rfl, rfl, rfl, rfl, rfl⟩

inductive Completion
  | dsh
  | stopProcess
  | nothing
  deriving DecidableEq

def completionFor (families : AgentFamilies) (r : Record) : Completion :=
  if launchFamilyOf families r = .dsh then .dsh
  else if (statusOf r).any TaskStatus.isActive then .stopProcess
  else .nothing

inductive ExecutorFailure
  | spawn (reason : String)
  | unsupported (reason : String)
  | worktree (reason : String)
  | stop (reason : String)
  deriving DecidableEq

def ExecutorFailure.text : ExecutorFailure → String
  | .spawn reason => "the process could not be started (" ++ reason ++ ")"
  | .unsupported reason => "this task cannot be continued here: " ++ reason
  | .worktree reason => "the worktree could not be prepared: " ++ reason
  | .stop reason => "the running task could not be stopped: " ++ reason

inductive ObservationOrigin
  | transcript
  | hook
  | runtime
  deriving DecidableEq

def ObservationOrigin.isGuarded : ObservationOrigin → Bool
  | .transcript | .hook => true
  | .runtime => false

inductive TaskEvent
  | status (taskId : String) (generation : ℕ) (status : TaskStatus)
      (attentionRequestedAtMs : Option ℕ) (failureReason : Option String)
      (origin : ObservationOrigin)
  | exit (taskId : String) (generation : ℕ) (code : Option ℤ)
  | terminalReady (taskId : String) (generation : ℕ)
  deriving DecidableEq

def TaskEvent.taskId : TaskEvent → String
  | .status t _ _ _ _ _ | .exit t _ _ | .terminalReady t _ => t

def TaskEvent.generation : TaskEvent → ℕ
  | .status _ g _ _ _ _ | .exit _ g _ | .terminalReady _ g => g

def settledByExit : Option ℤ → TaskStatus × Option String
  | none => (.done, none)
  | some code =>
    if code = 0 then (.done, none)
    else (.failed, some ("the process exited with code " ++ toString code))

lemma settledByExit_isTerminal (code : Option ℤ) : (settledByExit code).1.isTerminal = true := by
  unfold settledByExit
  split
  · rfl
  · split <;> rfl

end Aeroric.TaskLaunch
