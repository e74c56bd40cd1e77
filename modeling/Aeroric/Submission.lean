import Mathlib.Data.List.AList
import Aeroric.Interleaving
import Aeroric.TaskStorage

/-! Submission receipts: a task is created and started for a submission id after the id's pending
receipt is on disk, and what became of it is written over that receipt. -/
namespace Aeroric.Submission

open TaskRecord TaskStorage

inductive SubmissionState
  | pending
  | accepted
  | rejectedBeforeSideEffect
  | unknown
  deriving DecidableEq

structure SubmissionRequest where
  schemaVersion : ℕ
  submissionId : String
  projectId : String
  configurationId : String
  configurationVersion : String
  fingerprint : String
  agent : String
  prompt : String
  permissionMode : String
  permissionAgent : String
  selectedModel : Option String
  reasoningEffort : Option String
  attachments : List String
  worktree : Option String
  recipeId : Option String
  team : Bool
  review : Bool
  evolution : Bool
  clarify : Bool
  isolated : Bool

structure OptionConsumption where
  option : String
  applied : Bool
  deriving DecidableEq

structure SubmissionReceipt where
  schemaVersion : ℕ
  submissionId : String
  projectId : String
  configurationId : String
  configurationVersion : String
  fingerprint : String
  state : SubmissionState
  taskId : Option String
  reasons : List String
  agent : String
  selectedModel : Option String
  reasoningEffort : Option String
  permissionMode : String
  permissionAgent : String
  options : List OptionConsumption
  deriving DecidableEq

structure SubmissionLookup where
  schemaVersion : ℕ
  submissionId : String
  fingerprint : String
  receipt : Option SubmissionReceipt
  deriving DecidableEq

def submissionSchemaVersion : ℕ := 1

/-- What `task-submissions.json` holds. -/
structure Receipts where
  schemaVersion : ℕ
  receipts : AList fun _ : String => SubmissionReceipt

def Receipts.get (receipts : Receipts) (id : String) : Option SubmissionReceipt :=
  receipts.receipts.lookup id

def Receipts.insert (receipts : Receipts) (id : String) (r : SubmissionReceipt) : Receipts :=
  { receipts with receipts := receipts.receipts.insert id r }

lemma Receipts.get_insert (receipts : Receipts) (id q : String) (r : SubmissionReceipt) :
    (receipts.insert id r).get q = if q = id then some r else receipts.get q := by
  unfold Receipts.get Receipts.insert
  split
  · next h => rw [h, AList.lookup_insert]
  · next h => exact AList.lookup_insert_ne h

inductive ReceiptsFile
  | absent
  /-- Bytes that do not parse, with what the reader says of them. -/
  | broken (reason : String)
  | found (receipts : Receipts)

/-- What can go wrong with the file. -/
inductive ReceiptsError
  | read (fault : Fault)
  | write (fault : Fault)
  | corrupt (reason : String)
  | unsupportedSchema (found supported : ℕ)
  | writePermission
  deriving DecidableEq

inductive SubmissionError
  | storage (error : ReceiptsError)
  | invalid
  | conflict
  deriving DecidableEq

def toBeBytes (n : ℕ) : List UInt8 := (List.range 8).map fun i => UInt8.ofNat (n / 256 ^ (7 - i))

def bytes (value : String) : List UInt8 := value.toUTF8.toList

def text (value : String) : List UInt8 := toBeBytes value.utf8ByteSize ++ bytes value

def optional : Option String → List UInt8
  | none => [0]
  | some value => 1 :: text value

def flag (b : Bool) : UInt8 := if b then 1 else 0

/-- The bytes a fingerprint is taken of. The identity and the fingerprint are not among them. -/
def SubmissionRequest.fingerprintMaterial (r : SubmissionRequest) : List UInt8 :=
  bytes "aeroric.task-submission.v1\x00" ++
    ([r.projectId, r.configurationId, r.configurationVersion, r.agent, r.prompt, r.permissionMode,
      r.permissionAgent].map text).flatten ++
    optional r.selectedModel ++ optional r.reasoningEffort ++
    toBeBytes r.attachments.length ++ (r.attachments.map text).flatten ++
    optional r.worktree ++ optional r.recipeId ++
    [flag r.team, flag r.review, flag r.evolution] ++
    (if r.clarify then [1] else []) ++ if r.isolated then [2] else []

/-- `sha256` is the digest in lowercase hex. -/
def fingerprint (sha256 : List UInt8 → String) (request : SubmissionRequest) : String :=
  "sha256:" ++ sha256 request.fingerprintMaterial

def hexCharacter (ch : Char) : Bool := ch.isDigit || ('a' ≤ ch && ch ≤ 'f')

-- All characters are ASCII where this is true, so characters are counted for bytes.
def validIdentity (id fingerprint : String) : Bool :=
  id ≠ "" && id.toList.length ≤ 128 && id.toList.all idCharacter &&
    "sha256:".toList.isPrefixOf fingerprint.toList &&
    (fingerprint.toList.drop 7).length = 64 && (fingerprint.toList.drop 7).all hexCharacter

/-- An entry that the writer cannot have written. -/
def wrongEntry (id : String) (r : SubmissionReceipt) : Bool :=
  id ≠ r.submissionId || r.schemaVersion ≠ submissionSchemaVersion ||
    !validIdentity id r.fingerprint || (r.state = .accepted && r.taskId ≠ some id)

def load (read : Option Fault) (file : ReceiptsFile) : Except ReceiptsError Receipts :=
  match read, file with
  | some fault, _ => .error (.read fault)
  | none, .broken reason => .error (.corrupt reason)
  | none, .absent => .ok ⟨submissionSchemaVersion, ∅⟩
  | none, .found receipts =>
    if receipts.schemaVersion ≠ submissionSchemaVersion then
      .error (.unsupportedSchema receipts.schemaVersion submissionSchemaVersion)
    else if receipts.receipts.entries.any fun e => wrongEntry e.1 e.2 then
      .error (.corrupt "invalid submission receipt identity")
    else .ok receipts

/-- What can be seen of the calls from outside: the file was replaced, a task was created and
started. -/
inductive Event
  | wrote (receipts : Receipts)
  | executed (id : String)

/-- The file, and what has happened so far, the newest first. -/
structure Desk where
  file : ReceiptsFile
  log : List Event

def Desk.write (d : Desk) (receipts : Receipts) : Desk :=
  ⟨.found receipts, .wrote receipts :: d.log⟩

abbrev Submissions (α : Type) := Call Desk SubmissionError α

/-- Whether the lease is held, and what the file system says to replacing the file. -/
structure PersistAnswer where
  held : Bool
  fault : Option Fault

/-- What the outside answers to one submission. -/
structure SubmitAnswer where
  held : Bool
  read : Option Fault
  pending : PersistAnswer
  executes : Bool
  settled : PersistAnswer

def requireWriter (held : Bool) : Submissions Unit :=
  if held then pure () else throw (.storage .writePermission)

def loadReceipts (read : Option Fault) : Submissions Receipts :=
  Call.act fun d => ((load read d.file).mapError .storage, d)

def persist (answer : PersistAnswer) (receipts : Receipts) : Submissions Unit := do
  requireWriter answer.held
  Call.act fun d => match answer.fault with
    | some fault => (.error (.storage (.write fault)), d)
    | none => (.ok (), d.write receipts)

/-- The task is created and started. It counts from the moment it begins. -/
def execute (id : String) (succeeds : Bool) : Submissions Bool :=
  Call.modify fun d => (succeeds, { d with log := .executed id :: d.log })

def receipt (request : SubmissionRequest) (state : SubmissionState) (reasons : List String) :
    SubmissionReceipt where
  schemaVersion := submissionSchemaVersion
  submissionId := request.submissionId
  projectId := request.projectId
  configurationId := request.configurationId
  configurationVersion := request.configurationVersion
  fingerprint := request.fingerprint
  state := state
  taskId := none
  reasons := reasons
  agent := request.agent
  selectedModel := request.selectedModel
  reasoningEffort := request.reasoningEffort
  permissionMode := request.permissionMode
  permissionAgent := request.permissionAgent
  options := []

def SubmissionRequest.reasons (r : SubmissionRequest) : List String :=
  [(r.schemaVersion != submissionSchemaVersion, "不支持此提交契约版本。"),
    (isBlank r.prompt, "提示词不能为空。"),
    (r.permissionAgent != r.agent, "请为当前 Agent 明确重新选择权限；不会继承其他 Agent 的授权。"),
    (r.team, "团队协作尚未接通真实交办能力。"),
    (r.review, "独立审查尚未接通真实交办能力。"),
    (r.evolution, "任务工具进化尚未接通真实交办能力。"),
    (r.recipeId.isSome, "工作配方尚未接通真实交办能力。"),
    (!r.attachments.isEmpty, "附件尚无宿主消费支持；没有读取或上传。"),
    (r.worktree.isSome, "工作目录覆盖尚无宿主消费支持；没有创建 worktree。")].filterMap
      fun check => if check.1 then some check.2 else none

def SubmissionRequest.consumed (r : SubmissionRequest) : List OptionConsumption :=
  [⟨"configuration", true⟩, ⟨"model", r.selectedModel.isSome⟩, ⟨"effort", r.reasoningEffort.isSome⟩,
    ⟨"permission", true⟩, ⟨"attachments", false⟩, ⟨"worktree", false⟩, ⟨"recipe", false⟩,
    ⟨"team", false⟩, ⟨"review", false⟩, ⟨"evolution", false⟩, ⟨"clarify", r.clarify⟩] ++
    if r.isolated then [⟨"isolated", true⟩] else []

def settle (request : SubmissionRequest) (result : SubmissionReceipt) (succeeded : Bool) :
    SubmissionReceipt :=
  if succeeded then
    { result with
      state := .accepted
      taskId := some request.submissionId
      options := request.consumed }
  else
    { result with
      state := .unknown
      reasons := result.reasons ++ ["任务创建或启动未取得完整回执；保留原身份核对，不自动重发。"] }

def submitNew (answer : SubmitAnswer) (request : SubmissionRequest) (reasons : List String)
    (receipts : Receipts) : Submissions SubmissionReceipt := do
  let state : SubmissionState := if reasons.isEmpty then .pending else .rejectedBeforeSideEffect
  let result := receipt request state reasons
  let receipts := receipts.insert request.submissionId result
  persist answer.pending receipts
  if result.state = .rejectedBeforeSideEffect then pure result
  else do
    let succeeded ← execute request.submissionId answer.executes
    let result := settle request result succeeded
    persist answer.settled (receipts.insert request.submissionId result)
    pure result

def submit (sha256 : List UInt8 → String) (answer : SubmitAnswer) (request : SubmissionRequest)
    (reasons : List String) : Submissions SubmissionReceipt :=
  if !validIdentity request.submissionId request.fingerprint ||
      request.fingerprint ≠ fingerprint sha256 request then throw .invalid
  else Call.serial do
    requireWriter answer.held
    let receipts ← loadReceipts answer.read
    match receipts.get request.submissionId with
    | some previous =>
      if previous.fingerprint ≠ request.fingerprint then throw .conflict else pure previous
    | none => submitNew answer request (reasons ++ request.reasons) receipts

def lookup (read : Option Fault) (id fingerprint : String) : Submissions SubmissionLookup :=
  if !validIdentity id fingerprint then throw .invalid
  else Call.serial do
    let receipts ← loadReceipts read
    let receipt := receipts.get id
    if receipt.any (·.fingerprint ≠ fingerprint) then throw .conflict
    else pure ⟨submissionSchemaVersion, id, fingerprint, receipt⟩

end Aeroric.Submission
