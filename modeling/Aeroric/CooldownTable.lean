import Aeroric.Sse
import Aeroric.Table
import Mathlib

/-! The tables in which the router keeps how long the connections and their models rest: one end and one
reason for each key. -/
namespace Aeroric.ConfigRoutes

inductive FailureClass
  | requestError
  | rateLimited
  | authFailed
  | paymentRequired
  | notFound
  | serverError
  | network
  | firstByteTimeout
  deriving DecidableEq

namespace FailureClass

def shouldFailover (failure : FailureClass) : Bool := failure ≠ .requestError

def coolsModel : FailureClass → Bool
  | .notFound | .firstByteTimeout => true
  | _ => false

def allowsRebind : FailureClass → Bool
  | .rateLimited | .authFailed | .paymentRequired | .notFound => true
  | _ => false

def clearedByEdit : FailureClass → Bool
  | .authFailed | .notFound | .paymentRequired => true
  | _ => false

def cooldownSeconds (retryAfter : Option ℕ) (consecutive : ℕ) : FailureClass → ℕ
  | .requestError => 0
  | .rateLimited =>
    match retryAfter with
    | some seconds => max seconds 10
    | none => min (10 <<< min consecutive 6) 600
  | .authFailed | .paymentRequired => 30 * 60
  | .notFound => 12 * 60 * 60
  | .serverError | .network => min (5 <<< min consecutive 5) 300
  | .firstByteTimeout =>
    match consecutive with
    | 0 => 0
    | n + 1 => min (60 <<< min n 5) (30 * 60)

end FailureClass

def modelKey (connectionId upstreamModel : String) : String :=
  connectionId ++ "\x1f" ++ upstreamModel

structure Candidate where
  connectionId : String
  upstreamModel : String

def coolingUntil (cooldowns : Table String ℕ) (candidate : Candidate) : ℕ :=
  let connection := (cooldowns.get candidate.connectionId).getD 0
  let model := (cooldowns.get (modelKey candidate.connectionId candidate.upstreamModel)).getD 0
  max connection model

structure EffortMap where
  table : List (String × String)
  accepted : List String
  keepUnknown : Bool

structure Fallback where
  requested : String
  served : String
  effort : EffortMap

structure State where
  cooldowns : Table String ℕ
  reasons : Table String FailureClass
  streaks : Table String ℕ
  /-- How many slow starts in the window, and when the last was. -/
  slow : Table String (UInt32 × ℕ)
  sticky : Table String (String × ℕ)
  stickyTtl : Table String (Option ℕ)
  rebind : Finset String
  noRestOnLimit : Finset String
  requests : Table String ℕ
  primaryFailure : Table String FailureClass
  downgrades : Table String (Fallback × Option FailureClass × ℕ)

def State.default : State where
  cooldowns := .empty
  reasons := .empty
  streaks := .empty
  slow := .empty
  sticky := .empty
  stickyTtl := .empty
  rebind := ∅
  noRestOnLimit := ∅
  requests := .empty
  primaryFailure := .empty
  downgrades := .empty

def slowWindowS : ℕ := 30 * 60

def connectionOf (targetId : String) : Option String :=
  ("conn:".toList.isPrefixOf? targetId.toList).map String.ofList

/-- A fallback answer marks the task downgraded; the requested model answering clears it. -/
def State.noteAnswer (now : ℕ) (taskId : String) (fallback : Option Fallback) (state : State) :
    State :=
  match fallback with
  | some fallback =>
    let reason := state.primaryFailure.get taskId
    let since := match state.downgrades.get taskId with
      | some (before, _, since) => if before.served = fallback.served then since else now
      | none => now
    { state with downgrades := state.downgrades.set taskId (fallback, reason, since) }
  | none =>
    { state with
      downgrades := state.downgrades.erase taskId
      primaryFailure := state.primaryFailure.erase taskId }

/-- The task stays with the connection that answered, if it was free to move or there already. -/
def State.stick (now : ℕ) (taskId connection : String) (state : State) : State :=
  let rebind := taskId ∈ state.rebind
  let state := { state with rebind := state.rebind.erase taskId }
  match state.stickyTtl.get taskId with
  | some (some ttl) =>
    let current := ((state.sticky.get taskId).filter fun (entry : String × ℕ) => now < entry.2).map Prod.fst
    if current = none ∨ rebind ∨ current = some connection then
      { state with sticky := state.sticky.set taskId (connection, (now + ttl) % 2 ^ 64) }
    else state
  | _ => state

def recordSuccess (now : ℕ) (taskId targetId : String) (fallback : Option Fallback)
    (state : State) : State :=
  match connectionOf targetId with
  | none => state
  | some connection =>
    let state := state.noteAnswer now taskId fallback
    let state := { state with
      streaks := state.streaks.erase connection
      cooldowns := state.cooldowns.erase connection
      reasons := state.reasons.erase connection
      requests := state.requests.set connection ((state.requests.get connection).getD 0 + 1) }
    if fallback.isSome then state else state.stick now taskId connection

/-- Counts a failure of the key, and gives the seconds that it rests for. -/
def State.countFailure (now : ℕ) (connection key : String) (failure : FailureClass)
    (retryAfter : Option ℕ) (state : State) : ℕ × State :=
  if failure = .firstByteTimeout then
    let entry := (state.slow.get key).getD (0, 0)
    let count := if now - entry.2 ≤ slowWindowS then entry.1 + 1 else 1
    (failure.cooldownSeconds none (count - 1).toNat,
      { state with slow := state.slow.set key (count, now) })
  else if failure = .rateLimited ∧ connection ∈ state.noRestOnLimit then (0, state)
  else
    let streak := (state.streaks.get key).getD 0
    (failure.cooldownSeconds retryAfter streak,
      { state with streaks := state.streaks.set key (min (streak + 1) (2 ^ 32 - 1)) })

/-- What a failure tells of the task: why it may be downgraded, and whether it may move. -/
def State.noteTask (taskId : String) (failure : FailureClass) (fallback : Bool) (state : State) :
    State :=
  let state := if fallback then state else
    { state with primaryFailure := state.primaryFailure.set taskId failure }
  if failure.allowsRebind then { state with rebind := insert taskId state.rebind } else state

/-- The end of a rest is a sum of 64 bits. -/
def recordFailure (now : ℕ) (taskId targetId upstreamModel : String) (failure : FailureClass)
    (retryAfter : Option ℕ) (fallback : Bool) (state : State) : Bool × State :=
  if failure.shouldFailover then
    match connectionOf targetId with
    | none => (true, state)
    | some connection =>
      let state := state.noteTask taskId failure fallback
      let key := if failure.coolsModel then modelKey connection upstreamModel else connection
      let counted := state.countFailure now connection key failure retryAfter
      let cooldown := counted.1
      let state := counted.2
      (true, if 0 < cooldown then
          { state with
            cooldowns := state.cooldowns.set key ((now + cooldown) % 2 ^ 64)
            reasons := state.reasons.set key failure }
        else state)
  else (false, state)

def concerns (connectionId key : String) : Bool :=
  key = connectionId || (modelKey connectionId "").toList.isPrefixOf key.toList

def clearCooldowns (connectionId : String) (state : State) : ℕ × State :=
  let lifted := fun key => concerns connectionId key && (state.cooldowns.get key).isSome
  ((state.cooldowns.support.dedup.filter lifted).length,
    { state with
      cooldowns := state.cooldowns.filter fun key _ => !lifted key
      reasons := state.reasons.filter fun key _ => !lifted key
      streaks := state.streaks.filter fun key _ => !lifted key
      slow := state.slow.filter fun key _ => !lifted key })

def connectionChanged (connectionId : String) (state : State) : State :=
  let cleared := fun key => concerns connectionId key &&
    (state.reasons.get key).any FailureClass.clearedByEdit
  { state with
    cooldowns := state.cooldowns.filter fun key _ => !cleared key
    reasons := state.reasons.filter fun key _ => !cleared key
    streaks := state.streaks.filter fun key _ => !cleared key }

def parseU64 (text : List Char) : Option ℕ :=
  let digits := if text.head? = some '+' then text.tail else text
  if digits ≠ [] ∧ digits.all Char.isDigit then
    let number := digits.foldl (fun n digit => 10 * n + (digit.toNat - '0'.toNat)) 0
    if number < 2 ^ 64 then some number else none
  else none

/-- The dates are read by another library. -/
def parseRetryAfter (parseFromRfc2822 : String → Option ℤ) (value : String) (now : ℕ) :
    Option ℕ :=
  let value := Sse.trim value.toList
  match parseU64 value with
  | some seconds => some seconds
  | none =>
    match parseFromRfc2822 (String.ofList value) with
    | some timestamp => if 0 ≤ timestamp then some (timestamp.toNat - now) else none
    | none => none

inductive Event
  | failure (taskId targetId upstreamModel : String) (failure : FailureClass)
      (retryAfter : Option String) (fallback : Bool)
  | success (taskId targetId upstreamModel : String) (fallback : Option Fallback)
  | changed (connectionId : String)
  | cleared (connectionId : String)

def Event.record (dates : String → Option ℤ) (now : ℕ) : Event → State → State
  | .failure taskId targetId upstreamModel kind retryAfter fallback, state =>
    let seconds := retryAfter.bind (parseRetryAfter dates · now)
    (recordFailure now taskId targetId upstreamModel kind seconds fallback state).2
  | .success taskId targetId _ fallback, state => recordSuccess now taskId targetId fallback state
  | .changed connectionId, state => connectionChanged connectionId state
  | .cleared connectionId, state => (clearCooldowns connectionId state).2

end Aeroric.ConfigRoutes
