import Aeroric.TaskEdit

/-! The operation ledger: which attempts are claimed, which run each task is on, and which
cut-off runs still wait to be acknowledged. -/
namespace Aeroric.TaskLedger

open TaskRecord TaskReducer TaskEdit

inductive OperationKind
  | start
  | resume
  | cancel
  | complete
  deriving DecidableEq, Repr

def OperationKind.asStr : OperationKind → String
  | .start => "start"
  | .resume => "resume"
  | .cancel => "cancel"
  | .complete => "complete"

/-- Only these can mean that a process was spawned. -/
def OperationKind.spawns : OperationKind → Bool
  | .start | .resume => true
  | _ => false

/-- What makes two submissions the same attempt. -/
def attemptKey (taskId : String) (kind : OperationKind) (operationKey : String) : String :=
  taskId ++ "|" ++ kind.asStr ++ "|" ++ operationKey

structure Claim where
  taskId : String
  kind : OperationKind
  operationKey : String
  generation : ℕ
  claimedAtMs : ℕ
  deriving DecidableEq

def Claim.key (c : Claim) : String := attemptKey c.taskId c.kind c.operationKey

structure Acknowledgement where
  taskId : String
  generation : ℕ
  sinceMs : ℕ
  deriving DecidableEq

/-- The ledger and, with the same three parts, the file that mirrors it. A task without a
counter of its own is at generation 0. -/
structure Ledger where
  claims : List Claim
  generations : String → ℕ
  awaitingAcknowledgement : List Acknowledgement

namespace Ledger

def empty : Ledger := ⟨[], fun _ => 0, []⟩

def dedupe : List String → List Claim → List Claim
  | _, [] => []
  | seen, c :: cs =>
    if c.key ∈ seen then dedupe seen cs else c :: dedupe (seen ++ [c.key]) cs

def new (state : Ledger) : Ledger := { state with claims := dedupe [] state.claims }

def peekGeneration (l : Ledger) (taskId : String) : ℕ := l.generations taskId

/-- The ledger with this task's counter one further; the new number is the counter. -/
def nextGeneration (l : Ledger) (taskId : String) : Ledger :=
  { l with generations := Function.update l.generations taskId (l.peekGeneration taskId + 1) }

def isLive (l : Ledger) (taskId : String) (generation : ℕ) : Bool :=
  l.claims.any fun c => c.taskId = taskId && c.generation = generation

def releaseGeneration (l : Ledger) (taskId : String) (generation : ℕ) : Ledger :=
  if l.isLive taskId generation || l.peekGeneration taskId ≠ generation then l
  else { l with generations := Function.update l.generations taskId (generation - 1) }

def awaiting (l : Ledger) (taskId : String) : Option Acknowledgement :=
  l.awaitingAcknowledgement.find? fun a => a.taskId = taskId

def acknowledge (l : Ledger) (taskId : String) : Ledger :=
  { l with awaitingAcknowledgement := l.awaitingAcknowledgement.filter (·.taskId ≠ taskId) }

def awaitAcknowledgement (l : Ledger) (item : Acknowledgement) : Ledger :=
  { l with awaitingAcknowledgement :=
      l.awaitingAcknowledgement.filter (·.taskId ≠ item.taskId) ++ [item] }

def openClaim (l : Ledger) (taskId : String) (kind : OperationKind) (operationKey : String) :
    Option Claim :=
  l.claims.find? fun c => c.key = attemptKey taskId kind operationKey

def liveOtherThan (l : Ledger) (taskId : String) (except' : ℕ) : List ℕ :=
  (l.claims.filter fun c =>
    c.taskId = taskId && c.generation ≠ except' && c.kind.spawns).map Claim.generation

def openFor (l : Ledger) (taskId : String) : List Claim := l.claims.filter (·.taskId = taskId)

def claim (l : Ledger) (taskId : String) (kind : OperationKind) (operationKey : String)
    (generation nowMs : ℕ) : Ledger :=
  match l.openClaim taskId kind operationKey with
  | some _ => l
  | none => { l with claims := l.claims ++ [⟨taskId, kind, operationKey, generation, nowMs⟩] }

def settle (l : Ledger) (taskId : String) (kind : OperationKind) (operationKey : String) :
    Ledger :=
  { l with claims := l.claims.filter (·.key ≠ attemptKey taskId kind operationKey) }

/-- Release what an event named by its run: the start and the resume of that number. -/
def settleByGeneration (l : Ledger) (taskId : String) (generation : ℕ) : Ledger :=
  { l with claims := l.claims.filter fun c =>
      !(c.taskId = taskId && c.kind.spawns && c.generation = generation) }

def settleTask (l : Ledger) (taskId : String) : Ledger :=
  { l with claims := l.claims.filter (·.taskId ≠ taskId) }

end Ledger

def keepsStatus (r : Record) : Bool :=
  match statusOf r with
  | some .detached | some .interrupted | some .done | some .failed => true
  | _ => false

def cutOffRow (r : Record) : Record :=
  (r.insert "status" TaskStatus.interrupted.value).remove "attentionRequestedAt"

/-- Reconcile the rows with one claim the last process left open. -/
def reconcileClaim (nowMs : ℕ) (state : List Record × List Acknowledgement) (c : Claim) :
    List Record × List Acknowledgement :=
  if !c.kind.spawns then state
  else match find state.1 c.taskId with
    | none => state
    | some r =>
      if keepsStatus r then state
      else (updateFirst c.taskId cutOffRow state.1, state.2 ++ [⟨c.taskId, c.generation, nowMs⟩])

def reconcile (claims : List Claim) (records : List Record) (nowMs : ℕ) :
    List Record × List Acknowledgement :=
  claims.foldl (reconcileClaim nowMs) (records, [])

end Aeroric.TaskLedger
