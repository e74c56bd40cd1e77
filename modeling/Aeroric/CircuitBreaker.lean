import Aeroric.Sse
import Mathlib

/-! The circuit breaker of one upstream target, and the requests that pass it. Each of its methods is
one step; between two steps of a request anything can happen to the others. -/
namespace Aeroric.LocalRouter

inductive CircuitState
  | closed
  | open
  | halfOpen
  deriving DecidableEq

structure CircuitBreakerConfig where
  failureThreshold : ℕ
  successThreshold : ℕ
  timeoutSeconds : ℕ
  errorRatePercent : ℕ
  minRequests : ℕ

structure CircuitPermit where
  allowed : Bool
  usedHalfOpenPermit : Bool
  deriving DecidableEq

/-- An instant is a number of nanoseconds; the two dates are milliseconds of the wall clock. -/
structure CircuitInner where
  state : CircuitState
  config : CircuitBreakerConfig
  consecutiveFailures : ℕ
  consecutiveSuccesses : ℕ
  totalRequests : ℕ
  failedRequests : ℕ
  openedAt : Option ℕ
  halfOpenInFlight : Bool
  lastSuccessAt : Option ℤ
  lastFailureAt : Option ℤ
  lastError : Option String

/-- A count of 32 bits that stays at its largest value. -/
def increment (count : ℕ) : ℕ := min (count + 1) (2 ^ 32 - 1)

def maxErrorChars : ℕ := 512

def sanitizeSummary (message : String) : String :=
  let words := (message.toList.splitOnP Sse.isWhitespace).filter (· ≠ [])
  let collapsed := [' '].intercalate words
  let value := if collapsed = [] then "local router request failed".toList else collapsed
  String.ofList (value.take maxErrorChars)

namespace CircuitInner

def new (config : CircuitBreakerConfig) : CircuitInner where
  state := .closed
  config := config
  consecutiveFailures := 0
  consecutiveSuccesses := 0
  totalRequests := 0
  failedRequests := 0
  openedAt := none
  halfOpenInFlight := false
  lastSuccessAt := none
  lastFailureAt := none
  lastError := none

def transitionToOpen (now : ℕ) (inner : CircuitInner) : CircuitInner :=
  { inner with
    state := .open
    openedAt := some now
    consecutiveSuccesses := 0
    halfOpenInFlight := false }

def transitionToHalfOpen (inner : CircuitInner) : CircuitInner :=
  { inner with
    state := .halfOpen
    consecutiveSuccesses := 0
    halfOpenInFlight := false }

def transitionToClosed (inner : CircuitInner) : CircuitInner :=
  { inner with
    state := .closed
    consecutiveFailures := 0
    consecutiveSuccesses := 0
    totalRequests := 0
    failedRequests := 0
    openedAt := none
    halfOpenInFlight := false }

def rested (now : ℕ) (inner : CircuitInner) : Bool :=
  inner.state = .open &&
    inner.openedAt.any fun opened => inner.config.timeoutSeconds ≤ (now - opened) / 10 ^ 9

def allowRequest (config : CircuitBreakerConfig) (now : ℕ) (inner : CircuitInner) :
    CircuitPermit × CircuitInner :=
  let inner := { inner with config := config }
  let inner := if inner.rested now then inner.transitionToHalfOpen else inner
  match inner.state with
  | .closed => (⟨true, false⟩, inner)
  | .open => (⟨false, false⟩, inner)
  | .halfOpen =>
    if inner.halfOpenInFlight then (⟨false, false⟩, inner)
    else (⟨true, true⟩, { inner with halfOpenInFlight := true })

def recordSuccess (config : CircuitBreakerConfig) (date : ℤ) (usedHalfOpenPermit : Bool)
    (inner : CircuitInner) : CircuitInner :=
  let inner := { inner with
    config := config
    halfOpenInFlight := if usedHalfOpenPermit then false else inner.halfOpenInFlight
    lastSuccessAt := some date
    lastError := none
    consecutiveFailures := 0
    totalRequests := increment inner.totalRequests }
  if inner.state = .halfOpen then
    let inner := { inner with consecutiveSuccesses := increment inner.consecutiveSuccesses }
    if config.successThreshold ≤ inner.consecutiveSuccesses then inner.transitionToClosed else inner
  else inner

def recordFailure (config : CircuitBreakerConfig) (now : ℕ) (date : ℤ) (error : String)
    (usedHalfOpenPermit : Bool) (inner : CircuitInner) : CircuitInner :=
  let inner := { inner with
    config := config
    halfOpenInFlight := if usedHalfOpenPermit then false else inner.halfOpenInFlight
    lastFailureAt := some date
    lastError := some (sanitizeSummary error)
    consecutiveFailures := increment inner.consecutiveFailures
    consecutiveSuccesses := 0
    totalRequests := increment inner.totalRequests
    failedRequests := increment inner.failedRequests }
  match inner.state with
  | .halfOpen => inner.transitionToOpen now
  | .open => inner
  | .closed =>
    let failureThresholdReached := config.failureThreshold ≤ inner.consecutiveFailures
    let errorRateReached := config.minRequests ≤ inner.totalRequests ∧
      inner.totalRequests * config.errorRatePercent ≤ inner.failedRequests * 100
    if failureThresholdReached ∨ errorRateReached then inner.transitionToOpen now else inner

def releaseNeutral (usedHalfOpenPermit : Bool) (inner : CircuitInner) : CircuitInner :=
  if usedHalfOpenPermit then { inner with halfOpenInFlight := false } else inner

def reset (inner : CircuitInner) : CircuitInner := { inner.transitionToClosed with lastError := none }

end CircuitInner

/-- Where the handler of a request waits, or its stream. Only while it streams does anything give the
permit back for it. -/
inductive Stage
  /-- For the answer of the target, and then for the lock of the breaker. -/
  | attempting
  /-- Its answer is a stream that nobody reads yet, and the target is marked as the active one. -/
  | attached
  | streaming
  /-- The stream has ended and is noted as such, and waits for the lock of the breaker. -/
  | finalizing
  /-- The client went away, and a task has been spawned that gives the permit back. -/
  | dropped
  deriving DecidableEq

/-- A request that is on its way to the target. -/
structure Flight where
  id : ℕ
  usedHalfOpenPermit : Bool
  /-- In which of the half-open phases the breaker let it through. -/
  phase : ℕ
  stage : Stage
  deriving DecidableEq

structure Traffic where
  inner : CircuitInner
  flights : List Flight
  nextId : ℕ
  phases : ℕ

inductive Event
  /-- A request asks the breaker, and goes ahead if it is let through. -/
  | ask (config : CircuitBreakerConfig) (now : ℕ)
  /-- A request goes ahead without a permit: its target is pinned, or all targets refused it. -/
  | goAround
  | attachStream (id : ℕ)
  /-- The target is marked, and the response is handed on. -/
  | intoResponse (id : ℕ)
  /-- The stream is at its end, or has failed. -/
  | finalize (id : ℕ)
  | succeed (id : ℕ) (config : CircuitBreakerConfig) (date : ℤ)
  | fail (id : ℕ) (config : CircuitBreakerConfig) (now : ℕ) (date : ℤ) (error : String)
  | endNeutral (id : ℕ)
  /-- The client goes away, and the handler of its request is dropped where it waits. A task can be
  spawned only while there is a runtime. -/
  | disconnect (id : ℕ) (runtime : Bool)
  | reset

/-- Whether a request records its outcome from here. -/
def Stage.records : Stage → Bool
  | attempting | finalizing => true
  | attached | streaming | dropped => false

def Stage.releases : Stage → Bool
  | attempting | dropped => true
  | attached | streaming | finalizing => false

namespace Traffic

def new (config : CircuitBreakerConfig) : Traffic := ⟨.new config, [], 0, 0⟩

def launch (usedHalfOpenPermit : Bool) (s : Traffic) : Traffic :=
  { s with
    flights := s.flights ++ [⟨s.nextId, usedHalfOpenPermit, s.phases, .attempting⟩]
    nextId := s.nextId + 1 }

def find (id : ℕ) (s : Traffic) : Option Flight := s.flights.find? fun flight => flight.id = id

def advance (id : ℕ) (before after : Stage) (s : Traffic) : Traffic :=
  { s with flights := s.flights.map fun flight =>
      if flight.id = id ∧ flight.stage = before then { flight with stage := after } else flight }

def land (id : ℕ) (ready : Stage → Bool) (tell : Flight → CircuitInner → CircuitInner)
    (s : Traffic) : Traffic :=
  match s.find id with
  | none => s
  | some flight =>
    if ready flight.stage then
      { s with
        inner := tell flight s.inner
        flights := s.flights.erase flight }
    else s

def step (s : Traffic) : Event → Traffic
  | .ask config now =>
    let (permit, inner) := s.inner.allowRequest config now
    let halfOpened := s.inner.state = .open ∧ inner.state = .halfOpen
    let s := { s with inner := inner, phases := if halfOpened then s.phases + 1 else s.phases }
    if permit.allowed then s.launch permit.usedHalfOpenPermit else s
  | .goAround => s.launch false
  | .attachStream id => s.advance id .attempting .attached
  | .intoResponse id => s.advance id .attached .streaming
  | .finalize id => s.advance id .streaming .finalizing
  | .succeed id config date =>
    s.land id Stage.records fun flight => .recordSuccess config date flight.usedHalfOpenPermit
  | .fail id config now date error => s.land id Stage.records fun flight =>
      .recordFailure config now date error flight.usedHalfOpenPermit
  | .endNeutral id =>
    s.land id Stage.releases fun flight => .releaseNeutral flight.usedHalfOpenPermit
  | .disconnect id runtime =>
    let s := if runtime then s.advance id .streaming .dropped else s
    s.land id (fun stage => stage ≠ .dropped) fun _ inner => inner
  | .reset => { s with inner := s.inner.reset }

def run (config : CircuitBreakerConfig) (events : List Event) : Traffic :=
  events.foldl step (new config)

end Traffic

section Probes
variable {s : Traffic} {e : Event}

/-- At most one of the requests on their way was let through as a probe. -/
def OneProbe (s : Traffic) : Prop :=
  s.flights.Pairwise fun f g => ¬ (f.usedHalfOpenPermit = true ∧ g.usedHalfOpenPermit = true)

/-- Where no probe is on its way, the slot is free, and the next request gets it as soon as the
breaker has rested. -/
def SlotFree (s : Traffic) : Prop :=
  (∀ f ∈ s.flights, f.usedHalfOpenPermit = false) → s.inner.halfOpenInFlight = false ∧
    ∀ config now, s.inner.state = .halfOpen ∨ { s.inner with config := config }.rested now = true →
      (s.inner.allowRequest config now).1 = ⟨true, true⟩

def Event.outcomeOf : Event → Option ℕ
  | .succeed id _ _ => some id
  | .fail id _ _ _ _ => some id
  | .endNeutral id => some id
  | _ => none

/-- While the breaker is half-open, nothing but the outcome of a probe of this phase, or a reset,
changes its state or the count of successes. -/
def ProbeOnly (s : Traffic) (e : Event) : Prop :=
  s.inner.state = .halfOpen →
    (s.step e).inner.state = .halfOpen ∧
      (s.step e).inner.consecutiveSuccesses = s.inner.consecutiveSuccesses ∨
    e = .reset ∨ ∃ id f, e.outcomeOf = some id ∧ s.find id = some f ∧
      f.usedHalfOpenPermit = true ∧ f.phase = s.phases

/-- A success or failure that is recorded while the breaker is half-open is that of a request with a
half-open permit; such a request is dropped only while it streams, and in a runtime; and there is no
reset while it is on its way. -/
def Meets (s : Traffic) : Event → Prop
  | .succeed id _ _ | .fail id _ _ _ _ =>
    s.inner.state = .halfOpen → ∀ f, s.find id = some f → f.usedHalfOpenPermit = true
  | .disconnect id runtime => ∀ f, s.find id = some f → f.usedHalfOpenPermit = true →
      f.stage = .streaming ∧ runtime = true ∨ f.stage = .dropped
  | .reset => ∀ f ∈ s.flights, f.usedHalfOpenPermit = false
  | _ => True

inductive Reachable (config : CircuitBreakerConfig) : Traffic → Prop
  | new : Reachable config (.new config)
  | step {s : Traffic} {e : Event} (h : Reachable config s) (he : Meets s e) :
      Reachable config (s.step e)

/-- The slot is taken just as long as a probe of this phase is on its way. -/
structure Slot (s : Traffic) : Prop where
  one : OneProbe s
  probes : ∀ f ∈ s.flights, f.usedHalfOpenPermit = true →
    s.inner.state = .halfOpen ∧ s.inner.halfOpenInFlight = true ∧ f.phase = s.phases
  held : s.inner.halfOpenInFlight = true → ∃ f ∈ s.flights, f.usedHalfOpenPermit = true

lemma find_mem {id : ℕ} {f : Flight} (h : s.find id = some f) : f ∈ s.flights ∧ f.id = id :=
  ⟨List.mem_of_find?_eq_some h, by simpa using List.find?_some h⟩

/-- What asking the breaker comes to: the slot is given away, in this phase or in a new one; or nothing
changes. -/
lemma allowRequest_cases (config : CircuitBreakerConfig) (now : ℕ) (inner : CircuitInner) :
    inner.state = .halfOpen ∧ inner.halfOpenInFlight = false ∧
        inner.allowRequest config now =
          (⟨true, true⟩, { inner with config := config, halfOpenInFlight := true }) ∨
      { inner with config := config }.rested now = true ∧
        inner.allowRequest config now = (⟨true, true⟩,
          { { inner with config := config }.transitionToHalfOpen with halfOpenInFlight := true }) ∨
      { inner with config := config }.rested now = false ∧
        (inner.state = .halfOpen → inner.halfOpenInFlight = true) ∧
        inner.allowRequest config now =
          (⟨decide (inner.state = .closed), false⟩, { inner with config := config }) := by
  obtain ⟨state, _, cf, cs, total, failed, opened, flying, ls, lf, le⟩ := inner
  unfold CircuitInner.allowRequest
  dsimp only
  cases hrested : CircuitInner.rested now ⟨state, config, cf, cs, total, failed, opened, flying, ls, lf, le⟩ with
  | true => exact .inr (.inl ⟨rfl, rfl⟩)
  | false =>
    cases state with
    | closed => exact .inr (.inr ⟨rfl, nofun, rfl⟩)
    | «open» => exact .inr (.inr ⟨rfl, nofun, rfl⟩)
    | halfOpen =>
      cases flying with
      | false => exact .inl ⟨rfl, rfl, rfl⟩
      | true => exact .inr (.inr ⟨rfl, fun _ => rfl, rfl⟩)

lemma rested_open {now : ℕ} {inner : CircuitInner} (h : inner.rested now = true) :
    inner.state = .open := by
  unfold CircuitInner.rested at h
  simpa using (Bool.and_eq_true_iff.mp h).1

lemma Slot.slotFree (h : Slot s) : SlotFree s := by
  intro hnone
  have hfree : s.inner.halfOpenInFlight = false := by
    by_contra hheld
    obtain ⟨f, hf, hused⟩ := h.held (by simpa using hheld)
    rw [hnone f hf] at hused
    cases hused
  refine ⟨hfree, fun config now hready => ?_⟩
  rcases allowRequest_cases config now s.inner with ⟨-, -, heq⟩ | ⟨-, heq⟩ | ⟨hrested, hheld, -⟩
  · rw [heq]
  · rw [heq]
  · rcases hready with hready | hready
    · rw [hheld hready] at hfree
      cases hfree
    · rw [hrested] at hready
      cases hready

lemma Slot.launch_plain (h : Slot s) : Slot (s.launch false) where
  one := List.pairwise_append.mpr ⟨h.one, List.pairwise_singleton _ _, fun f _ g hg hand => by
    rw [List.mem_singleton.mp hg] at hand
    cases hand.2⟩
  probes := by
    intro f hf hused
    rcases List.mem_append.mp hf with hf | hf
    · exact h.probes f hf hused
    · rw [List.mem_singleton.mp hf] at hused
      cases hused
  held := fun hheld => by
    obtain ⟨f, hf, hused⟩ := h.held hheld
    exact ⟨f, List.mem_append_left _ hf, hused⟩

lemma Slot.launch_probe (hnone : ∀ f ∈ s.flights, f.usedHalfOpenPermit = false)
    (hstate : s.inner.state = .halfOpen) (hheld : s.inner.halfOpenInFlight = true) :
    Slot (s.launch true) where
  one := by
    have hfirst : ∀ f ∈ s.flights, ∀ g : Flight,
        ¬ (f.usedHalfOpenPermit = true ∧ g.usedHalfOpenPermit = true) := by
      rintro f hf g ⟨hused, -⟩
      rw [hnone f hf] at hused
      cases hused
    exact List.pairwise_append.mpr ⟨List.pairwise_of_forall_mem_list fun f hf g _ => hfirst f hf g,
      List.pairwise_singleton _ _, fun f hf g _ => hfirst f hf g⟩
  probes := by
    intro f hf hused
    rcases List.mem_append.mp hf with hf | hf
    · rw [hnone f hf] at hused
      cases hused
    · rw [List.mem_singleton.mp hf]
      exact ⟨hstate, hheld, rfl⟩
  held := fun _ => ⟨_, List.mem_append_right _ (List.mem_singleton.mpr rfl), rfl⟩

lemma slot_of_none (hnone : ∀ f ∈ s.flights, f.usedHalfOpenPermit = false)
    (hfree : s.inner.halfOpenInFlight = false) : Slot s where
  one := List.pairwise_of_forall_mem_list fun f hf _ _ hand => by
    rw [hnone f hf] at hand
    cases hand.1
  probes := by
    intro f hf hused
    rw [hnone f hf] at hused
    cases hused
  held := by
    intro hheld
    rw [hfree] at hheld
    cases hheld

lemma Slot.none_of_free (h : Slot s)
    (hstate : s.inner.state ≠ .halfOpen ∨ s.inner.halfOpenInFlight = false) :
    ∀ f ∈ s.flights, f.usedHalfOpenPermit = false := by
  intro f hf
  by_contra hused
  obtain ⟨hopen, hheld, -⟩ := h.probes f hf (by simpa using hused)
  rcases hstate with hstate | hstate
  · exact hstate hopen
  · rw [hstate] at hheld
    cases hheld

lemma Slot.others (h : Slot s) {f : Flight} (hf : f ∈ s.flights) (hused : f.usedHalfOpenPermit = true) :
    ∀ g ∈ s.flights.erase f, g.usedHalfOpenPermit = false := by
  have hperm := (List.perm_cons_erase hf).pairwise_iff
    (R := fun f g : Flight => ¬ (f.usedHalfOpenPermit = true ∧ g.usedHalfOpenPermit = true))
    fun {x y} hxy hyx => hxy hyx.symm
  obtain ⟨hfirst, -⟩ := List.pairwise_cons.mp (hperm.mp h.one)
  intro g hg
  by_contra hg'
  exact hfirst g hg ⟨hused, by simpa using hg'⟩

lemma Slot.land_plain (h : Slot s) {f : Flight} (hused : f.usedHalfOpenPermit = false) :
    Slot { s with flights := s.flights.erase f } where
  one := h.one.sublist List.erase_sublist
  probes := fun g hg => h.probes g (List.mem_of_mem_erase hg)
  held := fun hheld => by
    obtain ⟨g, hg, hgused⟩ := h.held hheld
    refine ⟨g, (List.mem_erase_of_ne ?_).mpr hg, hgused⟩
    rintro rfl
    rw [hused] at hgused
    cases hgused

variable {config : CircuitBreakerConfig}

lemma recordSuccess_free {date : ℤ} {used : Bool} {inner : CircuitInner}
    (h : used = true ∨ inner.halfOpenInFlight = false) :
    (inner.recordSuccess config date used).halfOpenInFlight = false := by
  have hflag : (if used = true then false else inner.halfOpenInFlight) = false := by
    rcases h with rfl | h
    · rfl
    · rw [h, ite_self]
  unfold CircuitInner.recordSuccess
  dsimp only
  split
  · split
    · rfl
    · exact hflag
  · exact hflag

lemma recordFailure_free {now : ℕ} {date : ℤ} {error : String}
    {used : Bool} {inner : CircuitInner} (h : used = true ∨ inner.halfOpenInFlight = false) :
    (inner.recordFailure config now date error used).halfOpenInFlight = false := by
  have hflag : (if used = true then false else inner.halfOpenInFlight) = false := by
    rcases h with rfl | h
    · rfl
    · rw [h, ite_self]
  unfold CircuitInner.recordFailure
  dsimp only
  split
  · rfl
  · exact hflag
  · split
    · rfl
    · exact hflag

/-- A success or failure that is the probe's, or comes while the breaker is not half-open. -/
lemma Slot.land_outcome (h : Slot s) (id : ℕ) {ready : Stage → Bool} {tell : Bool → CircuitInner → CircuitInner}
    (htell : ∀ {used inner}, used = true ∨ inner.halfOpenInFlight = false →
      (tell used inner).halfOpenInFlight = false)
    (hmeets : s.inner.state = .halfOpen → ∀ f, s.find id = some f → f.usedHalfOpenPermit = true) :
    Slot (s.land id ready fun flight => tell flight.usedHalfOpenPermit) := by
  unfold Traffic.land
  cases hfind : s.find id with
  | none => exact h
  | some f =>
    obtain ⟨hf, -⟩ := find_mem hfind
    dsimp only
    split
    case isFalse => exact h
    cases hused : f.usedHalfOpenPermit with
    | true => exact slot_of_none (h.others hf hused) (htell (.inl rfl))
    | false =>
      have hstate : s.inner.state ≠ .halfOpen := by
        intro hstate
        cases hused.symm.trans (hmeets hstate f hfind)
      have hnone := h.none_of_free (.inl hstate)
      exact slot_of_none (fun g hg => hnone g (List.mem_of_mem_erase hg))
        (htell (.inr (h.slotFree hnone).1))

variable {ready : Stage → Bool} {tell : Flight → CircuitInner → CircuitInner}

lemma Slot.land_neutral (h : Slot s) {id : ℕ}
    (htell : ∀ f, s.find id = some f → ready f.stage = true →
      tell f s.inner = s.inner.releaseNeutral f.usedHalfOpenPermit) :
    Slot (s.land id ready tell) := by
  unfold Traffic.land
  cases hfind : s.find id with
  | none => exact h
  | some f =>
    obtain ⟨hf, -⟩ := find_mem hfind
    dsimp only
    split
    case isFalse => exact h
    next hready =>
    rw [htell f hfind hready]
    cases hused : f.usedHalfOpenPermit with
    | true => exact slot_of_none (h.others hf hused) rfl
    | false => exact h.land_plain hused

lemma Slot.ask (h : Slot s) (config : CircuitBreakerConfig) (now : ℕ) : Slot (s.step (.ask config now)) := by
  unfold Traffic.step
  dsimp only
  rcases allowRequest_cases config now s.inner with
    ⟨hstate, hfree, heq⟩ | ⟨hrested, heq⟩ | ⟨-, -, heq⟩
  · rw [heq]
    exact .launch_probe (h.none_of_free (.inr hfree)) hstate rfl
  · rw [heq]
    have hopen := rested_open hrested
    have hopen : s.inner.state = .open := hopen
    exact .launch_probe (h.none_of_free (.inl (by rw [hopen]; nofun))) rfl rfl
  · rw [heq]
    have hphases : ¬ (s.inner.state = .open ∧ s.inner.state = .halfOpen) := by
      rintro ⟨hopen, hhalf⟩
      cases hopen.symm.trans hhalf
    dsimp only
    rw [if_neg hphases]
    have hsame : Slot { s with inner := { s.inner with config := config } } := ⟨h.one, h.probes, h.held⟩
    split
    · exact hsame.launch_plain
    · exact hsame

lemma Slot.advance (h : Slot s) (id : ℕ) (before after : Stage) :
    Slot (s.advance id before after) := by
  have hsame : ∀ f : Flight, ∀ g,
      g = (if f.id = id ∧ f.stage = before then { f with stage := after } else f) →
        g.usedHalfOpenPermit = f.usedHalfOpenPermit ∧ g.phase = f.phase := by
    rintro f g rfl
    split <;> exact ⟨rfl, rfl⟩
  refine ⟨?_, ?_, ?_⟩
  · refine List.pairwise_map.mpr (h.one.imp fun {f g} hne => ?_)
    rwa [(hsame f _ rfl).1, (hsame g _ rfl).1]
  · intro g hg hused
    obtain ⟨f, hf, heq⟩ := List.mem_map.mp hg
    obtain ⟨hflag, hphase⟩ := hsame f g heq.symm
    rw [hflag] at hused
    rw [hphase]
    exact h.probes f hf hused
  · intro hheld
    obtain ⟨f, hf, hused⟩ := h.held hheld
    exact ⟨_, List.mem_map_of_mem hf, (hsame f _ rfl).1.trans hused⟩

lemma find_advance {id : ℕ} {before after : Stage} {g : Flight}
    (h : (s.advance id before after).find id = some g) : ∃ f, s.find id = some f ∧
      g = if f.stage = before then { f with stage := after } else f := by
  unfold Traffic.find Traffic.advance at h
  rw [List.find?_map, Option.map_eq_some_iff] at h
  obtain ⟨f, hfind, rfl⟩ := h
  have hpred : ((fun flight : Flight => decide (flight.id = id)) ∘ fun flight =>
      if flight.id = id ∧ flight.stage = before then { flight with stage := after } else flight) =
      fun flight => decide (flight.id = id) := by
    funext flight
    dsimp only [Function.comp_apply]
    split <;> rfl
  rw [hpred] at hfind
  have hid : f.id = id := by simpa using List.find?_some hfind
  exact ⟨f, hfind, by simp only [hid, true_and]⟩

/-- A client goes away. A probe is not lost, for it streams and is dropped in a runtime. -/
lemma Slot.disconnect (h : Slot s) {id : ℕ} {runtime : Bool}
    (he : Meets s (.disconnect id runtime)) : Slot (s.step (.disconnect id runtime)) := by
  have hkept : ∀ f : Flight, f.usedHalfOpenPermit = false → s.inner = s.inner.releaseNeutral
      f.usedHalfOpenPermit := by
    intro f hused
    rw [hused]
    rfl
  cases runtime with
  | false =>
    dsimp only [Traffic.step, Bool.false_eq_true, if_false]
    refine h.land_neutral ?_
    intro f hf hready
    refine hkept f ?_
    by_contra hused
    rcases he f hf (by simpa using hused) with ⟨-, hruntime⟩ | hdropped
    · cases hruntime
    · exact of_decide_eq_true hready hdropped
  | true =>
    dsimp only [Traffic.step, if_true]
    refine (h.advance id .streaming .dropped).land_neutral ?_
    intro g hg hready
    refine hkept g ?_
    obtain ⟨f, hf, rfl⟩ := find_advance hg
    split at hready
    · cases hready
    · next hstage =>
      rw [if_neg hstage]
      by_contra hused
      rcases he f hf (by simpa using hused) with ⟨hstreaming, -⟩ | hdropped
      · exact hstage hstreaming
      · exact of_decide_eq_true hready hdropped

lemma Slot.step (h : Slot s) (he : Meets s e) : Slot (s.step e) := by
  cases e with
  | ask config now => exact h.ask config now
  | goAround => exact h.launch_plain
  | attachStream id | intoResponse id | finalize id => exact h.advance id _ _
  | succeed id config date => exact h.land_outcome id recordSuccess_free he
  | fail id config now date error => exact h.land_outcome id recordFailure_free he
  | endNeutral id => exact h.land_neutral fun f _ _ => rfl
  | disconnect id runtime => exact h.disconnect he
  | reset => exact slot_of_none he rfl

lemma Reachable.slot (h : Reachable config s) : Slot s := by
  induction h with
  | new => exact slot_of_none nofun rfl
  | step _ he ih => exact ih.step he

lemma releaseNeutral_same (used : Bool) (inner : CircuitInner) :
    (inner.releaseNeutral used).state = inner.state ∧
      (inner.releaseNeutral used).consecutiveSuccesses = inner.consecutiveSuccesses := by
  unfold CircuitInner.releaseNeutral
  split <;> exact ⟨rfl, rfl⟩

lemma land_same (s : Traffic) (id : ℕ) (htell : ∀ f inner, (tell f inner).state = inner.state ∧
      (tell f inner).consecutiveSuccesses = inner.consecutiveSuccesses) :
    (s.land id ready tell).inner.state = s.inner.state ∧
      (s.land id ready tell).inner.consecutiveSuccesses = s.inner.consecutiveSuccesses := by
  unfold Traffic.land
  split
  · exact ⟨rfl, rfl⟩
  · split
    · exact htell _ _
    · exact ⟨rfl, rfl⟩

lemma land_none {id : ℕ} (h : s.find id = none) : s.land id ready tell = s := by
  unfold Traffic.land
  rw [h]

lemma step_ask_inner (config : CircuitBreakerConfig) (now : ℕ) :
    (s.step (.ask config now)).inner = (s.inner.allowRequest config now).2 := by
  unfold Traffic.step
  dsimp only
  split <;> rfl

lemma Slot.probeOnly (h : Slot s) (he : Meets s e) : ProbeOnly s e := by
  intro hstate
  -- an outcome that counts is that of the probe
  have houtcome : ∀ id f, s.find id = some f → f.usedHalfOpenPermit = true → e.outcomeOf = some id →
      ∃ id f, e.outcomeOf = some id ∧ s.find id = some f ∧ f.usedHalfOpenPermit = true ∧
        f.phase = s.phases := fun id f hfind hused he =>
    ⟨id, f, he, hfind, hused, (h.probes f (find_mem hfind).1 hused).2.2⟩
  have hunknown : s.step e = s → (s.step e).inner.state = .halfOpen ∧
      (s.step e).inner.consecutiveSuccesses = s.inner.consecutiveSuccesses := by
    intro hsame
    rw [hsame]
    exact ⟨hstate, rfl⟩
  cases e with
  | ask config now =>
    left
    rw [step_ask_inner]
    rcases allowRequest_cases config now s.inner with ⟨-, -, heq⟩ | ⟨hrested, -⟩ | ⟨-, -, heq⟩
    · rw [heq]
      exact ⟨hstate, rfl⟩
    · have hopen := rested_open hrested
      cases hopen.symm.trans hstate
    · rw [heq]
      exact ⟨hstate, rfl⟩
  | goAround => exact .inl ⟨hstate, rfl⟩
  | attachStream id | intoResponse id | finalize id => exact .inl ⟨hstate, rfl⟩
  | succeed id config date =>
    cases hfind : s.find id with
    | none => exact .inl (hunknown (land_none hfind))
    | some f => exact .inr (.inr (houtcome id f hfind (he hstate f hfind) rfl))
  | fail id config now date error =>
    cases hfind : s.find id with
    | none => exact .inl (hunknown (land_none hfind))
    | some f => exact .inr (.inr (houtcome id f hfind (he hstate f hfind) rfl))
  | endNeutral id =>
    obtain ⟨hsame, hcount⟩ := land_same s id fun f => releaseNeutral_same f.usedHalfOpenPermit
    exact .inl ⟨hsame.trans hstate, hcount⟩
  | disconnect id runtime =>
    have hsame : (s.step (.disconnect id runtime)).inner.state = s.inner.state ∧
        (s.step (.disconnect id runtime)).inner.consecutiveSuccesses =
          s.inner.consecutiveSuccesses := by
      cases runtime <;> exact land_same _ id fun _ _ => ⟨rfl, rfl⟩
    exact .inl ⟨hsame.1.trans hstate, hsame.2⟩
  | reset => exact .inr (.inl rfl)

/-- In every state that such steps lead to, at most one probe is on its way, nothing but its outcome
moves a half-open breaker, and the slot is free when there is none. -/
theorem probe_slot_safe {config : CircuitBreakerConfig} (h : Reachable config s) :
    OneProbe s ∧ (∀ e, Meets s e → ProbeOnly s e) ∧ SlotFree s :=
  ⟨h.slot.one, fun _ he => h.slot.probeOnly he, h.slot.slotFree⟩

end Probes

/-- One failure opens the breaker, and it rests no time. -/
def touchy : CircuitBreakerConfig := ⟨1, 2, 0, 100, 100⟩

/-- A request fails, and the next one is let through as a probe. -/
def probed : List Event := [.ask touchy 0, .fail 0 touchy 0 0 "refused", .ask touchy 0]

theorem probed_safe :
    (Traffic.run touchy probed).flights = [⟨1, true, 1, .attempting⟩] ∧
      OneProbe (Traffic.run touchy probed) ∧
      (∀ e, Meets (Traffic.run touchy probed) e → ProbeOnly (Traffic.run touchy probed) e) ∧
      SlotFree (Traffic.run touchy probed) := by
  have hfirst : Reachable touchy (Traffic.run touchy [.ask touchy 0]) :=
    .step (e := .ask touchy 0) .new trivial
  have hfailed : Reachable touchy (Traffic.run touchy [.ask touchy 0, .fail 0 touchy 0 0 "refused"]) :=
    .step (e := .fail 0 touchy 0 0 "refused") hfirst fun h => nomatch h
  have hprobed : Reachable touchy (Traffic.run touchy probed) :=
    .step (e := .ask touchy 0) hfailed trivial
  exact ⟨rfl, probe_slot_safe hprobed⟩

/-- Two requests are let through. When the first has failed, and a probe is on its way, the second
fails as well. -/
def lateFailure : List Event :=
  [.ask touchy 0, .ask touchy 0, .fail 0 touchy 0 0 "refused", .ask touchy 0]

/-- The stream of the probe ends, and its client goes away while the end waits for the lock. -/
def endedUnheard : List Event :=
  [.attachStream 1, .intoResponse 1, .finalize 1, .disconnect 1 true]

/-- The late failure ends the phase of the probe, and the next request is a second probe; and a probe
whose client goes away keeps the slot. -/
theorem lateFailure_shares :
    (Traffic.run touchy lateFailure).inner.state = .halfOpen ∧
      ¬ ProbeOnly (Traffic.run touchy lateFailure) (.fail 1 touchy 0 0 "refused") ∧
      ¬ OneProbe (Traffic.run touchy
        (lateFailure ++ [.fail 1 touchy 0 0 "refused", .ask touchy 0])) ∧
      (Traffic.run touchy (probed ++ [.disconnect 1 true])).flights = [] ∧
      (Traffic.run touchy (probed ++ [.disconnect 1 true])).inner.halfOpenInFlight = true ∧
      ¬ SlotFree (Traffic.run touchy (probed ++ [.disconnect 1 true])) ∧
      ¬ SlotFree (Traffic.run touchy (probed ++ endedUnheard)) := by
  refine ⟨rfl, ?_, by unfold OneProbe; decide, rfl, rfl, ?_, ?_⟩
  · intro h
    rcases h rfl with ⟨h, -⟩ | h | ⟨id, f, hid, hfind, hused, -⟩
    · cases h
    · cases h
    · cases hid
      cases hfind
      cases hused
  · intro h
    cases (h nofun).1
  · intro h
    cases (h nofun).1

end Aeroric.LocalRouter
