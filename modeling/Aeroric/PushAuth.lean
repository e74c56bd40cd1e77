import Aeroric.Table
import Aeroric.Bytes
import Mathlib

/-! Who may use the push sender. A signed request is good for a span of time around its issue, and
its nonce is remembered so that it is good only once. -/
namespace Aeroric.Push

def maxTrackedNonces : ℕ := 4096
def maxRateEntries : ℕ := 1024

inductive PushErrorCode
  | unauthorized
  | badRequest
  | replay
  | rateLimited
  | tokenRejected
  | upstream
  | unavailable
  deriving DecidableEq

namespace PushErrorCode

def status : PushErrorCode → ℕ
  | unauthorized => 401
  | badRequest => 400
  | replay => 409
  | rateLimited => 429
  | tokenRejected => 410
  | upstream => 502
  | unavailable => 503

def retryable : PushErrorCode → Bool
  | rateLimited | upstream | unavailable => true
  | _ => false

end PushErrorCode

structure Response where
  status : ℕ
  code : PushErrorCode
  message : String
  retryable : Bool
  /-- The header, in seconds. -/
  retryAfter : Option ℕ
  deriving DecidableEq

def failure (code : PushErrorCode) (message : String) : Response :=
  ⟨code.status, code, message, code.retryable, none⟩

structure PushConfig where
  signatureWindowMs : ℤ
  rateLimitPerMinute : ℕ

/-! Instants are nanoseconds of the wall clock, which goes with the monotonic one. -/

def nanosPerMilli : ℕ := 1000000

def nowMs (now : ℕ) : ℤ := (now / nanosPerMilli : ℕ)

/-- A request reads the wall clock when it comes, the other one before it asks for the lock of the
nonces, and once more before it asks for the lock of the counters. -/
structure Readings where
  arrived : ℕ
  observed : ℕ
  limited : ℕ

/-- What a release build keeps of a signed number. -/
def wrap (x : ℤ) : ℤ := x.bmod (2 ^ 64)

def timestampInWindow (issuedAtMs nowMs windowMs : ℤ) : Bool :=
  let delta := wrap (wrap (nowMs - issuedAtMs)).natAbs
  delta ≤ windowMs

structure ReplayGuard where
  seen : Table String ℕ
  window : ℕ

namespace ReplayGuard

def new (window : ℕ) : ReplayGuard := ⟨.empty, window⟩

def live (now : ℕ) (guard : ReplayGuard) : Table String ℕ :=
  guard.seen.filter fun _ time => now - time < guard.window

def crowded (now : ℕ) (guard : ReplayGuard) : Bool := maxTrackedNonces ≤ (guard.live now).size

def newerHalf (seen : Table String ℕ) : Table String ℕ :=
  let ages := seen.values.insertionSort (· ≤ ·)
  let cutoff := ages.getD (ages.length / 2) 0
  seen.filter fun _ time => cutoff ≤ time

def kept (now : ℕ) (guard : ReplayGuard) : Table String ℕ :=
  if guard.crowded now then newerHalf (guard.live now) else guard.live now

def observe (now : ℕ) (nonce : String) (guard : ReplayGuard) : Bool × ReplayGuard :=
  let seen := guard.kept now
  if (seen.get nonce).isSome then (false, { guard with seen := seen })
  else (true, { guard with seen := seen.set nonce now })

end ReplayGuard

structure RateLimiter where
  limit : ℕ
  window : ℕ
  counters : Table String (ℕ × ℕ)

namespace RateLimiter

def new (limit window : ℕ) : RateLimiter := ⟨limit, window, .empty⟩

/-- The error says after how many milliseconds to come back. -/
def check (now : ℕ) (user : String) (rate : RateLimiter) : Except ℕ Unit × RateLimiter :=
  let counters := if maxRateEntries < rate.counters.size then
      rate.counters.filter fun _ entry => now - entry.1 < rate.window
    else rate.counters
  let entry := (counters.get user).getD (now, 0)
  let entry := if rate.window ≤ now - entry.1 then (now, 0) else entry
  let entry := (entry.1, (entry.2 + 1) % 2 ^ 32)
  let rate := { rate with counters := counters.set user entry }
  if rate.limit < entry.2 then
    let remaining := (rate.window - (now - entry.1)) / nanosPerMilli
    (.error (max remaining 1), rate)
  else (.ok (), rate)

end RateLimiter

def constantTimeEq (left right : List UInt8) : Bool := Bytes.constantTimeEq left right

structure AppState where
  config : PushConfig
  /-- The users, with the hash of the secret of each. -/
  credentials : Table String String
  replays : ReplayGuard
  rate : RateLimiter

def AppState.new (config : PushConfig) (credentials : Table String String) : AppState where
  config := config
  credentials := credentials
  replays := .new ((max config.signatureWindowMs 1).toNat * nanosPerMilli)
  rate := .new config.rateLimitPerMinute (60000 * nanosPerMilli)

/-- The arguments of a check. The message is what the body of the request signs. -/
structure Request where
  user : String
  issuedAtMs : ℤ
  nonce : String
  message : String
  signature : String
  deriving DecidableEq

section
-- the keyed hash of a message, in hexadecimal digits
variable (hmacHex : String → String → Option String)

def verify (credentials : Table String String) (user signatureHex message : String) : Bool :=
  match credentials.get user with
  | none => false
  | some secretHash =>
    match hmacHex secretHash message with
    | none => false
    | some expected => constantTimeEq (Bytes.ofText expected) (Bytes.ofText signatureHex)

def AppState.inWindow (state : AppState) (now : ℕ) (request : Request) : Bool :=
  timestampInWindow request.issuedAtMs (nowMs now) state.config.signatureWindowMs

def AppState.verified (state : AppState) (request : Request) : Bool :=
  verify hmacHex state.credentials request.user request.signature request.message

def authenticate (clock : Readings) (request : Request) (state : AppState) :
    Except Response String × AppState :=
  if !state.inWindow clock.arrived request then
    (.error (failure .replay "request timestamp is outside the accepted window"), state)
  else if !state.verified hmacHex request then
    (.error (failure .unauthorized "unknown user or bad signature"), state)
  else
    let observed := state.replays.observe clock.observed request.nonce
    let state := { state with replays := observed.2 }
    if !observed.1 then (.error (failure .replay "nonce already used"), state)
    else
      let checked := state.rate.check clock.limited request.user
      let state := { state with rate := checked.2 }
      match checked.1 with
      | .error retryAfterMs =>
        (.error { failure .rateLimited "per-user rate limit exceeded" with
          retryAfter := some (max (retryAfterMs / 1000) 1) }, state)
      | .ok () => (.ok request.user, state)

def AppState.signed (state : AppState) (now : ℕ) (request : Request) : Bool :=
  state.inWindow now request && state.verified hmacHex request

/-! A run of the sender. -/

structure Answer where
  clock : Readings
  request : Request
  signed : Bool
  result : Except Response String

namespace Answer

def passed (answer : Answer) : Prop := ∃ user, answer.result = .ok user

def refusedAsReplay (answer : Answer) : Prop :=
  ∃ response, answer.result = .error response ∧ response.code = .replay

end Answer

structure World where
  state : AppState
  /-- When the lock of the nonces was last taken. -/
  now : ℕ
  /-- The answers so far, the last one first. -/
  log : List Answer

/-- What a request waits for: for its signature to be verified, for the lock of the nonces, and,
when it has that, for the reading of the counters. Other requests go on meanwhile. -/
structure Waits where
  verified : ℕ
  locked : ℕ
  limited : ℕ

namespace Waits

def stall (waits : Waits) : ℕ := waits.verified + waits.locked

/-- The readings of a request that takes the lock of the nonces now. -/
def readings (waits : Waits) (now : ℕ) : Readings :=
  ⟨now - waits.stall, now - waits.locked, now + waits.limited⟩

end Waits

inductive Move
  /-- A request, which takes the lock of the nonces so many nanoseconds after the one before. -/
  | call (elapsed : ℕ) (waits : Waits) (request : Request)
  | enroll (user secretHash : String)
  | revokeUser (user : String)

namespace World

def start (config : PushConfig) (credentials : Table String String) (now : ℕ) : World :=
  ⟨.new config credentials, now, []⟩

def call (elapsed : ℕ) (waits : Waits) (request : Request) (world : World) : World :=
  let now := world.now + elapsed
  let clock := waits.readings now
  let answered := authenticate hmacHex clock request world.state
  ⟨answered.2, now,
    ⟨clock, request, world.state.signed hmacHex clock.arrived request, answered.1⟩ :: world.log⟩

def step (world : World) : Move → World
  | .call elapsed waits request => world.call hmacHex elapsed waits request
  | .enroll user secretHash =>
    { world with state := { world.state with
        credentials := world.state.credentials.set user secretHash } }
  | .revokeUser user =>
    { world with state := { world.state with
        credentials := world.state.credentials.erase user } }

def run (world : World) (moves : List Move) : World := moves.foldl (step hmacHex) world

end World
end

/-! What the sender promises. -/

def SameRequest (a b : Request) : Prop :=
  a.user = b.user ∧ a.nonce = b.nonce ∧ a.issuedAtMs = b.issuedAtMs ∧ a.signature = b.signature

structure Sound (log : List Answer) : Prop where
  once : log.Pairwise fun later earlier =>
    later.passed → earlier.passed → ¬ SameRequest later.request earlier.request
  replayed : ∀ later answer earlier, log = later ++ answer :: earlier → answer.signed = true →
    answer.refusedAsReplay → ∃ first ∈ earlier, first.signed = true ∧
      first.request.user = answer.request.user ∧ first.request.nonce = answer.request.nonce

/-- The request does not stall for longer than so many milliseconds, its issue is longer than that
before its arrival, the remembered nonces are not too many, and nobody else has taken the nonce. -/
structure Ordinary (stallMs : ℕ) (world : World) (waits : Waits) (clock : Readings)
    (request : Request) : Prop where
  prompt : waits.stall ≤ stallMs * nanosPerMilli
  fits : (nowMs clock.arrived - request.issuedAtMs).natAbs < 2 ^ 63
  issued : request.issuedAtMs + stallMs < nowMs clock.arrived ∨
    world.state.config.signatureWindowMs ≤ 0 ∧ stallMs = 0
  uncrowded : world.state.replays.crowded clock.observed = false
  own : ∀ earlier ∈ world.log, earlier.signed = true →
    earlier.request.nonce = request.nonce → earlier.request.user = request.user

def Meets (stallMs : ℕ) (hmacHex : String → String → Option String) (world : World) : Move → Prop
  | .call elapsed waits request =>
    let clock := waits.readings (world.now + elapsed)
    world.state.signed hmacHex clock.arrived request = true →
      Ordinary stallMs world waits clock request
  | .enroll .. | .revokeUser _ => True

/-! The clock. -/

lemma timestampInWindow_iff {issuedAtMs now windowMs : ℤ}
    (h : (now - issuedAtMs).natAbs < 2 ^ 63) :
    timestampInWindow issuedAtMs now windowMs = true ↔ (now - issuedAtMs).natAbs ≤ windowMs := by
  have hwrap : ∀ x : ℤ, x.natAbs < 2 ^ 63 → wrap x = x := by
    intro x hx
    unfold wrap
    exact Int.bmod_eq_of_le_mul_two (by omega) (by omega)
  unfold timestampInWindow
  rw [hwrap _ h, hwrap _ (by rwa [Int.natAbs_natCast]), decide_eq_true_iff]

lemma nowMs_add_le {earlier later span stallMs : ℕ}
    (h : earlier + span * nanosPerMilli ≤ later + stallMs * nanosPerMilli) :
    nowMs earlier + span ≤ nowMs later + stallMs := by
  unfold nowMs
  have hdiv : earlier / nanosPerMilli + span ≤ later / nanosPerMilli + stallMs := by
    rw [← Nat.add_mul_div_right _ _ (by decide : 0 < nanosPerMilli),
      ← Nat.add_mul_div_right _ _ (by decide : 0 < nanosPerMilli)]
    exact Nat.div_le_div_right h
  exact_mod_cast hdiv

lemma Waits.le_arrived_add (waits : Waits) (now : ℕ) :
    now ≤ (waits.readings now).arrived + waits.stall :=
  le_tsub_add

lemma Waits.arrived_le_observed (waits : Waits) (now : ℕ) :
    (waits.readings now).arrived ≤ (waits.readings now).observed :=
  Nat.sub_le_sub_left (Nat.le_add_left _ _) now

/-! The memory of nonces. -/

namespace ReplayGuard
variable {guard : ReplayGuard} {now : ℕ} {nonce : String}

lemma observe_cases (guard : ReplayGuard) (now : ℕ) (nonce : String) :
    (∃ time, (guard.kept now).get nonce = some time) ∧
        guard.observe now nonce = (false, { guard with seen := guard.kept now }) ∨
      (guard.kept now).get nonce = none ∧ guard.observe now nonce =
        (true, { guard with seen := (guard.kept now).set nonce now }) := by
  unfold observe
  dsimp only
  cases h : (guard.kept now).get nonce with
  | some time => exact .inl ⟨⟨time, rfl⟩, rfl⟩
  | none => exact .inr ⟨rfl, rfl⟩

@[simp] lemma observe_window (guard : ReplayGuard) (now : ℕ) (nonce : String) :
    (guard.observe now nonce).2.window = guard.window := by
  obtain ⟨-, heq⟩ | ⟨-, heq⟩ := guard.observe_cases now nonce <;> rw [heq]

lemma get_kept {time : ℕ} (h : (guard.kept now).get nonce = some time) :
    guard.seen.get nonce = some time := by
  have hlive : (guard.live now).get nonce = some time := by
    unfold kept at h
    split at h
    · rw [newerHalf, Table.get_filter, Option.filter_eq_some_iff] at h
      exact h.1
    · exact h
  rw [live, Table.get_filter, Option.filter_eq_some_iff] at hlive
  exact hlive.1

lemma get_kept_or_old (h : guard.crowded now = false) {time : ℕ}
    (hseen : guard.seen.get nonce = some time) :
    (guard.kept now).get nonce = some time ∨ guard.window ≤ now - time := by
  rcases Nat.lt_or_ge (now - time) guard.window with hage | hage
  · left
    rw [kept, if_neg (by rw [h]; exact Bool.false_ne_true), live, Table.get_filter,
      Option.filter_eq_some_iff]
    exact ⟨hseen, decide_eq_true hage⟩
  · exact .inr hage

lemma get_observe_or_old (h : guard.crowded now = false) {other : String} {time : ℕ}
    (hseen : guard.seen.get other = some time) :
    (guard.observe now nonce).2.seen.get other = some time ∨ guard.window ≤ now - time := by
  refine (get_kept_or_old h hseen).imp_left fun hkept => ?_
  obtain ⟨-, heq⟩ | ⟨hnone, heq⟩ := guard.observe_cases now nonce
  · rw [heq]
    exact hkept
  · rw [heq]
    have hother : other ≠ nonce := by
      rintro rfl
      cases hkept.symm.trans hnone
    exact (Table.get_set_of_ne hother).trans hkept

lemma get_observe {other : String} {time : ℕ}
    (h : (guard.observe now nonce).2.seen.get other = some time) :
    guard.seen.get other = some time ∨ other = nonce ∧ (guard.observe now nonce).1 = true := by
  obtain ⟨-, heq⟩ | ⟨-, heq⟩ := guard.observe_cases now nonce
  · rw [heq] at h
    exact .inl (get_kept h)
  · rw [heq] at h ⊢
    by_cases hother : other = nonce
    · exact .inr ⟨hother, rfl⟩
    · rw [Table.get_set_of_ne hother] at h
      exact .inl (get_kept h)

end ReplayGuard

/-! What a check does with the state. -/

section
variable {hmacHex : String → String → Option String} {clock : Readings} {request : Request}
  {state : AppState}

lemma authenticate_of_not_signed (h : state.signed hmacHex clock.arrived request = false) :
    (∃ response, (authenticate hmacHex clock request state).1 = .error response) ∧
      (authenticate hmacHex clock request state).2 = state := by
  unfold authenticate
  unfold AppState.signed at h
  cases hwindow : state.inWindow clock.arrived request with
  | false => exact ⟨⟨_, rfl⟩, rfl⟩
  | true =>
    rw [hwindow, Bool.true_and] at h
    rw [h]
    exact ⟨⟨_, rfl⟩, rfl⟩

lemma authenticate_of_signed (h : state.signed hmacHex clock.arrived request = true) :
    (authenticate hmacHex clock request state).2.config = state.config ∧
      (authenticate hmacHex clock request state).2.replays =
        (state.replays.observe clock.observed request.nonce).2 ∧
      ((∃ user, (authenticate hmacHex clock request state).1 = .ok user) →
        (state.replays.observe clock.observed request.nonce).1 = true) ∧
      ((∃ response, (authenticate hmacHex clock request state).1 = .error response ∧
          response.code = .replay) → (state.replays.observe clock.observed request.nonce).1 = false) := by
  unfold authenticate
  rw [AppState.signed, Bool.and_eq_true] at h
  rw [h.1, h.2]
  simp only [Bool.not_true, Bool.false_eq_true, if_false]
  cases hobserved : (state.replays.observe clock.observed request.nonce).1 with
  | false => exact ⟨rfl, rfl, fun ⟨_, hok⟩ => (nomatch hok), fun _ => rfl⟩
  | true =>
    simp only [Bool.not_true, Bool.false_eq_true, if_false]
    cases hchecked : (state.rate.check clock.limited request.user).1 with
    | error retryAfterMs =>
      refine ⟨rfl, rfl, fun _ => trivial, ?_⟩
      rintro ⟨response, hresponse, hcode⟩
      cases hresponse
      cases hcode
    | ok => exact ⟨rfl, rfl, fun _ => trivial, fun ⟨_, herror, _⟩ => (nomatch herror)⟩

end

/-! The invariant of a run. -/

/-- An answer that let its request pass, as the memory has to bear it in mind. -/
structure Timely (stallMs : ℕ) (world : World) (answer : Answer) : Prop where
  order : answer.clock.arrived ≤ answer.clock.observed
  fits : (nowMs answer.clock.arrived - answer.request.issuedAtMs).natAbs < 2 ^ 63
  inWindow : world.state.inWindow answer.clock.arrived answer.request = true
  issued : answer.request.issuedAtMs + stallMs < nowMs answer.clock.arrived ∨
    world.state.config.signatureWindowMs ≤ 0 ∧ stallMs = 0
  kept : (∃ time, world.state.replays.seen.get answer.request.nonce = some time ∧
      answer.clock.observed ≤ time) ∨
    world.state.replays.window ≤ world.now - answer.clock.observed

structure Remembers (stallMs : ℕ) (world : World) : Prop where
  sound : Sound world.log
  window : world.state.replays.window =
    (max world.state.config.signatureWindowMs 1).toNat * nanosPerMilli
  clock : ∀ answer ∈ world.log, answer.clock.observed ≤ world.now
  timely : ∀ answer ∈ world.log, answer.passed → Timely stallMs world answer
  known : ∀ nonce time, world.state.replays.seen.get nonce = some time →
    ∃ answer ∈ world.log, answer.signed = true ∧ answer.request.nonce = nonce

lemma remembers_start (stallMs : ℕ) (config : PushConfig) (credentials : Table String String)
    (now : ℕ) : Remembers stallMs (World.start config credentials now) where
  sound := ⟨List.Pairwise.nil, fun later _ _ h => by cases later <;> cases h⟩
  window := rfl
  clock := nofun
  timely := nofun
  known := nofun

variable {answer : Answer}

lemma Sound.cons {log : List Answer} (h : Sound log)
    (honce : answer.passed → ∀ earlier ∈ log, earlier.passed →
      ¬ SameRequest answer.request earlier.request)
    (hreplayed : answer.signed = true → answer.refusedAsReplay →
      ∃ first ∈ log, first.signed = true ∧ first.request.user = answer.request.user ∧
        first.request.nonce = answer.request.nonce) : Sound (answer :: log) where
  once := List.pairwise_cons.mpr ⟨fun earlier hmem hpassed => honce hpassed earlier hmem, h.once⟩
  replayed := by
    intro later refused earlier heq
    cases later with
    | nil =>
      cases heq
      exact hreplayed
    | cons _ later =>
      cases heq
      exact h.replayed later refused earlier rfl

section
variable {stallMs : ℕ} {hmacHex : String → String → Option String} {world : World}

lemma Timely.old (h : Timely stallMs world answer) {now observed : ℕ} (hnow : world.now ≤ now)
    (hobserved : observed ≤ now) (huncrowded : world.state.replays.crowded observed = false)
    (hnone : (world.state.replays.kept observed).get answer.request.nonce = none) :
    world.state.replays.window ≤ now - answer.clock.observed := by
  obtain ⟨time, hseen, hle⟩ | hold := h.kept
  · rcases ReplayGuard.get_kept_or_old huncrowded hseen with hkept | hage
    · cases hkept.symm.trans hnone
    · omega
  · omega

/-- When it is forgotten, the time for it is over, also on a clock that was read so much earlier. -/
lemma Timely.late (h : Timely stallMs world answer) (hwindow : world.state.replays.window =
      (max world.state.config.signatureWindowMs 1).toNat * nanosPerMilli)
    {now arrived : ℕ} (hle : answer.clock.observed ≤ now)
    (hold : world.state.replays.window ≤ now - answer.clock.observed)
    (hprompt : now ≤ arrived + stallMs * nanosPerMilli)
    {request : Request} (hissued : request.issuedAtMs = answer.request.issuedAtMs)
    (hfits : (nowMs arrived - request.issuedAtMs).natAbs < 2 ^ 63) :
    world.state.inWindow arrived request = false := by
  rw [hwindow] at hold
  have horder := h.order
  have hspan : answer.clock.arrived +
      (max world.state.config.signatureWindowMs 1).toNat * nanosPerMilli ≤
        arrived + stallMs * nanosPerMilli := by omega
  have hclock := nowMs_add_le hspan
  have hbefore := (timestampInWindow_iff h.fits).mp h.inWindow
  have hissue := h.issued
  rw [Bool.eq_false_iff]
  intro hin
  have hafter := (timestampInWindow_iff hfits).mp hin
  rw [hissued] at hafter
  rw [Int.toNat_of_nonneg (le_trans (by decide) (le_max_right _ _))] at hclock
  omega

lemma Timely.step {world' : World} (h : Timely stallMs world answer)
    (hconfig : world'.state.config = world.state.config)
    (hwindow : world'.state.replays.window = world.state.replays.window)
    (hnow : world.now ≤ world'.now)
    (hseen : ∀ time, world.state.replays.seen.get answer.request.nonce = some time →
      world'.state.replays.seen.get answer.request.nonce = some time ∨
        world.state.replays.window ≤ world'.now - time) : Timely stallMs world' answer where
  order := h.order
  fits := h.fits
  inWindow := by
    have := h.inWindow
    unfold AppState.inWindow at this ⊢
    rwa [hconfig]
  issued := by
    rw [hconfig]
    exact h.issued
  kept := by
    rw [hwindow]
    obtain ⟨time, hget, hle⟩ | hold := h.kept
    · rcases hseen time hget with hget | hage
      · exact .inl ⟨time, hget, hle⟩
      · right
        omega
    · right
      omega

section Call
variable {elapsed : ℕ} {waits : Waits} {request : Request}

lemma Remembers.call_clock (h : Remembers stallMs world) :
    ∀ answer ∈ (world.call hmacHex elapsed waits request).log,
      answer.clock.observed ≤ world.now + elapsed := by
  intro answer hmem
  rcases List.mem_cons.mp hmem with rfl | hmem
  · exact Nat.sub_le _ _
  · exact (h.clock answer hmem).trans (Nat.le_add_right _ _)

lemma Remembers.call_unsigned (h : Remembers stallMs world)
    (hsigned : world.state.signed hmacHex (waits.readings (world.now + elapsed)).arrived request =
      false) : Remembers stallMs (world.call hmacHex elapsed waits request) := by
  obtain ⟨⟨response, herror⟩, hstate⟩ := authenticate_of_not_signed hsigned
  refine ⟨h.sound.cons ?_ ?_, ?_, h.call_clock, ?_, ?_⟩
  · rintro ⟨user, hok⟩
    cases hok.symm.trans herror
  · exact fun htrue => absurd (hsigned.symm.trans htrue) Bool.false_ne_true
  · show (authenticate ..).2.replays.window = _
    rw [World.call, hstate]
    exact h.window
  · intro answer hmem hpassed
    rcases List.mem_cons.mp hmem with rfl | hmem
    · obtain ⟨user, hok⟩ := hpassed
      cases hok.symm.trans herror
    · refine (h.timely answer hmem hpassed).step ?_ ?_ (Nat.le_add_right _ _) ?_ <;>
        simp only [World.call, hstate]
      exact fun time hget => .inl hget
  · intro nonce time hget
    simp only [World.call, hstate] at hget
    obtain ⟨answer, hmem, hanswer⟩ := h.known nonce time hget
    exact ⟨answer, List.mem_cons_of_mem _ hmem, hanswer⟩

lemma Remembers.call_signed (h : Remembers stallMs world)
    (hsigned : world.state.signed hmacHex (waits.readings (world.now + elapsed)).arrived request =
      true)
    (hordinary : Ordinary stallMs world waits (waits.readings (world.now + elapsed)) request) :
    Remembers stallMs (world.call hmacHex elapsed waits request) := by
  obtain ⟨hconfig, hreplays, hok, hreplay⟩ := authenticate_of_signed hsigned
  have hin : world.state.inWindow (waits.readings (world.now + elapsed)).arrived
      request = true := (Bool.and_eq_true_iff.mp hsigned).1
  have hcases := world.state.replays.observe_cases
    (waits.readings (world.now + elapsed)).observed request.nonce
  refine ⟨h.sound.cons ?_ ?_, ?_, h.call_clock, ?_, ?_⟩
  · intro hpassed earlier hmem hearlier hsame
    have htimely := h.timely earlier hmem hearlier
    obtain ⟨-, heq⟩ | ⟨hnone, heq⟩ := hcases
    · have htrue := hok hpassed
      rw [heq] at htrue
      cases htrue
    · have hold := htimely.old (Nat.le_add_right _ elapsed) (Nat.sub_le _ _)
        hordinary.uncrowded (hsame.2.1 ▸ hnone)
      have hle := (h.clock earlier hmem).trans (Nat.le_add_right _ elapsed)
      have hprompt := (waits.le_arrived_add (world.now + elapsed)).trans
        (Nat.add_le_add_left hordinary.prompt _)
      have hlate := htimely.late h.window hle hold hprompt hsame.2.2.1 hordinary.fits
      cases hin.symm.trans hlate
  · intro _ hrefused
    obtain ⟨⟨time, hkept⟩, heq⟩ | ⟨hnone, heq⟩ := hcases
    · obtain ⟨first, hmem, hfirst, hnonce⟩ := h.known _ time (ReplayGuard.get_kept hkept)
      exact ⟨first, hmem, hfirst, hordinary.own first hmem hfirst hnonce, hnonce⟩
    · have hfalse := hreplay hrefused
      rw [heq] at hfalse
      cases hfalse
  · simp only [World.call, hreplays, hconfig, ReplayGuard.observe_window]
    exact h.window
  · intro answer hmem hpassed
    rcases List.mem_cons.mp hmem with rfl | hmem
    · obtain ⟨-, heq⟩ | ⟨hnone, heq⟩ := hcases
      · have htrue := hok hpassed
        rw [heq] at htrue
        cases htrue
      · refine ⟨waits.arrived_le_observed _, hordinary.fits, ?_, ?_,
          .inl ⟨(waits.readings (world.now + elapsed)).observed, ?_, le_rfl⟩⟩
        · simpa only [World.call, AppState.inWindow, hconfig] using hin
        · simpa only [World.call, hconfig] using hordinary.issued
        · simp only [World.call, hreplays, heq, Table.get_set_self]
    · refine (h.timely answer hmem hpassed).step ?_ ?_ (Nat.le_add_right _ _) ?_ <;>
        simp only [World.call, hconfig, hreplays, ReplayGuard.observe_window]
      intro time hget
      exact (ReplayGuard.get_observe_or_old hordinary.uncrowded hget).imp_right fun hage =>
        hage.trans (Nat.sub_le_sub_right (Nat.sub_le _ _) _)
  · intro nonce time hget
    simp only [World.call, hreplays] at hget
    rcases ReplayGuard.get_observe hget with hget | ⟨rfl, -⟩
    · obtain ⟨answer, hmem, hanswer⟩ := h.known nonce time hget
      exact ⟨answer, List.mem_cons_of_mem _ hmem, hanswer⟩
    · exact ⟨_, List.mem_cons_self, hsigned, rfl⟩

lemma Remembers.call (h : Remembers stallMs world)
    (hmeets : Meets stallMs hmacHex world (.call elapsed waits request)) :
    Remembers stallMs (world.call hmacHex elapsed waits request) := by
  cases hsigned : world.state.signed hmacHex (waits.readings (world.now + elapsed)).arrived
    request with
  | false => exact h.call_unsigned hsigned
  | true => exact h.call_signed hsigned (hmeets hsigned)

end Call

lemma Remembers.step (h : Remembers stallMs world) {move : Move} (hmeets : Meets stallMs hmacHex world move) :
    Remembers stallMs (world.step hmacHex move) := by
  cases move with
  | call elapsed waits request => exact h.call hmeets
  | enroll user secretHash =>
    exact ⟨h.sound, h.window, h.clock, fun answer hmem hpassed =>
      (h.timely answer hmem hpassed).step rfl rfl le_rfl fun _ hget => .inl hget, h.known⟩
  | revokeUser user =>
    exact ⟨h.sound, h.window, h.clock, fun answer hmem hpassed =>
      (h.timely answer hmem hpassed).step rfl rfl le_rfl fun _ hget => .inl hget, h.known⟩

lemma remembers_run (h : Remembers stallMs world) (moves : List Move)
    (hmeets : ∀ earlier move, earlier ++ [move] <+: moves →
      Meets stallMs hmacHex (world.run hmacHex earlier) move) : Remembers stallMs (world.run hmacHex moves) := by
  induction moves using List.reverseRecOn with
  | nil => exact h
  | append_singleton moves move ih =>
    have hbefore := ih fun earlier move' hpre =>
      hmeets earlier move' (hpre.trans (List.prefix_append _ _))
    rw [World.run, List.foldl_append]
    exact hbefore.step (hmeets moves move List.prefix_rfl)

end

/-- A run of requests that do not stall, that were issued longer before they came than they may
stall, that never fill the memory and that share no nonces between users lets each request pass once
and calls only replays so. -/
theorem requests_sound (stallMs : ℕ) (hmacHex : String → String → Option String)
    (config : PushConfig) (credentials : Table String String) (now : ℕ) (moves : List Move)
    (h : ∀ earlier move, earlier ++ [move] <+: moves →
      Meets stallMs hmacHex ((World.start config credentials now).run hmacHex earlier) move) :
    Sound ((World.start config credentials now).run hmacHex moves).log :=
  (remembers_run (remembers_start stallMs config credentials now) moves h).sound

/-- A sender with one user, and a keyed hash that can be computed by hand. -/
def oneUser : World := .start ⟨60000, 10⟩ (Table.empty.set "u" "k") (1000 * nanosPerMilli)

def joined (secretHash message : String) : Option String := some (secretHash ++ message)

/-- The request comes a second after its issue, and once more after another second. Its signature
takes a millisecond, and the lock another one. -/
def repeated : List Move :=
  [.call (1002 * nanosPerMilli) ⟨nanosPerMilli, nanosPerMilli, 5⟩ ⟨"u", 1000, "n", "m", "km"⟩,
    .call (1000 * nanosPerMilli) ⟨nanosPerMilli, nanosPerMilli, 5⟩ ⟨"u", 1000, "n", "m", "km"⟩]

theorem repeated_sound : Sound (oneUser.run joined repeated).log ∧
    (oneUser.run joined repeated).log.map (·.result) =
      [.error (failure .replay "nonce already used"), .ok "u"] := by
  refine ⟨requests_sound 2 joined _ _ _ repeated fun earlier move hpre => ?_, rfl⟩
  obtain ⟨rest, hrest⟩ := hpre
  rw [List.append_assoc, List.singleton_append] at hrest
  match earlier with
  | [] =>
    cases hrest
    exact fun _ => ⟨by decide, by decide, by decide, by decide +kernel, nofun⟩
  | [_] =>
    cases hrest
    refine fun _ => ⟨by decide, by decide, by decide, by decide +kernel, ?_⟩
    intro first hmem _ _
    exact congrArg (·.request.user) (List.mem_singleton.mp hmem)
  | _ :: _ :: earlier => simp [repeated] at hrest

/-- A request that is issued a minute ahead passes, and passes again when it is forgotten. -/
def ahead : List Move :=
  [.call 0 ⟨0, 0, 0⟩ ⟨"u", 61000, "n", "m", "km"⟩,
    .call (60000 * nanosPerMilli) ⟨0, 0, 0⟩ ⟨"u", 61000, "n", "m", "km"⟩]

theorem ahead_not_sound : ¬ Sound (oneUser.run joined ahead).log := by
  intro h
  have hfirst := (List.pairwise_cons.mp h.once).1 _ List.mem_cons_self
  exact hfirst ⟨"u", rfl⟩ ⟨"u", rfl⟩ ⟨rfl, rfl, rfl, rfl⟩

end Aeroric.Push
