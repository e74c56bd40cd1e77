import Aeroric.CooldownTable
import Aeroric.Search

/-! The rests of the connections and of their models, as the rules of the router speak of them: a set of
rests that runs beside its tables. -/
namespace Aeroric.ConfigRoutes

structure Scope where
  connection : String
  model : Option String
  deriving DecidableEq

def Scope.key : Scope → String
  | ⟨connection, none⟩ => connection
  | ⟨connection, some model⟩ => modelKey connection model

def FailureClass.scope (failure : FailureClass) (connection upstreamModel : String) : Scope :=
  ⟨connection, if failure.coolsModel then some upstreamModel else none⟩

structure Rest where
  scope : Scope
  failure : FailureClass
  ends : ℕ

/-! The earlier failures of a scope, as the history of events has them, the last event first. -/

/-- A failure that still counts, with the seconds that its scope rested for. -/
structure Counted where
  time : ℕ
  kind : FailureClass
  seconds : ℕ

def Counted.slow (failure : Counted) : Bool := failure.kind = .firstByteTimeout

def slowTimes (failures : List Counted) : List ℕ := (failures.filter Counted.slow).map Counted.time

/-- How many of the times are in a row up to now, each in the window after the one before. -/
def inRow (now : ℕ) : List ℕ → ℕ
  | [] => 0
  | time :: times => if now - time ≤ slowWindowS then inRow time times + 1 else 0

/-- For a slow start the slow starts count that lie in a row, for another failure the others. -/
def earlier (now : ℕ) (kind : FailureClass) (failures : List Counted) : ℕ :=
  if kind = .firstByteTimeout then inRow now (slowTimes failures)
  else (failures.filter fun failure => !failure.slow).length

def restedFor (failures : List Counted) : Option FailureClass :=
  (failures.find? fun failure => decide (0 < failure.seconds)).map Counted.kind

/-- After an edit the slow starts still count, but they rest nothing. -/
def edited (failures : List Counted) : List Counted :=
  (failures.filter Counted.slow).map fun failure => { failure with seconds := 0 }

section Dates
variable (dates : String → Option ℤ)

/-- What an event makes of the failures of a scope that count. An answer of the connection ends
them; so does the user, where there was a rest to end, and an edit that mends the last cause. -/
def Event.count (now : ℕ) (scope : Scope) : Event → List Counted → List Counted
  | .failure _ targetId upstreamModel kind retryAfter _, failures =>
    match connectionOf targetId with
    | none => failures
    | some connection =>
      if kind.shouldFailover ∧ kind.scope connection upstreamModel = scope then
        let seconds := retryAfter.bind (parseRetryAfter dates · now)
        ⟨now, kind, kind.cooldownSeconds seconds (earlier now kind failures)⟩ :: failures
      else failures
  | .success _ targetId _ _, failures =>
    match connectionOf targetId with
    | none => failures
    | some connection => if scope = ⟨connection, none⟩ then [] else failures
  | .changed connectionId, failures =>
    if scope.connection = connectionId ∧
        (restedFor failures).any FailureClass.clearedByEdit then edited failures
    else failures
  | .cleared connectionId, failures =>
    if scope.connection = connectionId ∧ (restedFor failures).isSome then [] else failures

def counted (scope : Scope) (history : List (ℕ × Event)) : List Counted :=
  history.foldr (fun entry => entry.2.count dates entry.1 scope) []

def restSeconds (now : ℕ) (scope : Scope) (kind : FailureClass) (retryAfter : Option String)
    (history : List (ℕ × Event)) : ℕ :=
  kind.cooldownSeconds (retryAfter.bind (parseRetryAfter dates · now))
    (earlier now kind (counted dates scope history))

def Event.rule (now : ℕ) (history : List (ℕ × Event)) : Event → List Rest → List Rest
  | .failure _ targetId upstreamModel kind retryAfter _, rests =>
    match connectionOf targetId with
    | none => rests
    | some connection =>
      let scope := kind.scope connection upstreamModel
      ⟨scope, kind, now + restSeconds dates now scope kind retryAfter history⟩ :: rests
  | .success _ targetId upstreamModel _, rests =>
    match connectionOf targetId with
    | none => rests
    | some connection => rests.filter fun rest =>
        rest.scope ≠ ⟨connection, none⟩ ∧ rest.scope ≠ ⟨connection, some upstreamModel⟩
  | .changed connectionId, rests => rests.filter fun rest =>
      ¬(rest.scope.connection = connectionId ∧ rest.failure.clearedByEdit)
  | .cleared connectionId, rests => rests.filter fun rest => rest.scope.connection ≠ connectionId

/-- The router's tables and the set of rests side by side, at the time of the last event. -/
structure Watch where
  state : State
  rests : List Rest
  history : List (ℕ × Event)
  clock : ℕ

def Watch.start : Watch := ⟨.default, [], [], 0⟩

def Watch.step (watch : Watch) (now : ℕ) (event : Event) : Watch :=
  ⟨event.record dates now watch.state, event.rule dates now watch.history watch.rests,
    (now, event) :: watch.history, now⟩

/-- No part of a connection's name is taken for the mark between it and a model. -/
def Plain (connection : String) : Prop := '\x1f' ∉ connection.toList

/-- The rest that the key is under ends no later than the new one, and is one that an edit lifts if
the new one is; the new one ends before the clock does. -/
def Outlasts (now : ℕ) (key : String) (failure : FailureClass) (cooldown : ℕ) (state : State) :
    Prop :=
  0 < cooldown → now + cooldown < 2 ^ 64 ∧
    ∀ ends earlier, state.cooldowns.get key = some ends → state.reasons.get key = some earlier →
      now < ends → ends ≤ now + cooldown ∧ (failure.clearedByEdit → earlier.clearedByEdit)

/-- The counter of slow starts does not run over. -/
def Countable (key : String) (failure : FailureClass) (state : State) : Prop :=
  failure = .firstByteTimeout → ∀ entry, state.slow.get key = some entry →
    entry.1.toNat + 1 < 2 ^ 32

def Event.Meets (now : ℕ) (watch : Watch) : Event → Prop
  | .failure _ targetId upstreamModel kind retryAfter _ =>
    ∀ connection, connectionOf targetId = some connection →
      let scope := kind.scope connection upstreamModel
      Plain connection ∧ Countable scope.key kind watch.state ∧ Outlasts now scope.key kind
        (restSeconds dates now scope kind retryAfter watch.history) watch.state
  | .success _ targetId upstreamModel _ =>
    ∀ connection, connectionOf targetId = some connection →
      Plain connection ∧ ∀ ends,
        watch.state.cooldowns.get (modelKey connection upstreamModel) = some ends → ends ≤ now
  | .changed connectionId => Plain connectionId
  | .cleared connectionId => Plain connectionId

inductive Reachable : Watch → Prop
  | start : Reachable .start
  | step {watch : Watch} {now : ℕ} {event : Event} : Reachable watch → watch.clock ≤ now →
      event.Meets dates now watch → Reachable (watch.step dates now event)

end Dates

/-! Keys tell the scopes apart. -/

lemma toList_modelKey (connection model : String) :
    (modelKey connection model).toList = connection.toList ++ '\x1f' :: model.toList := by
  simp [modelKey]

lemma modelKey_inj {c c' m m' : String} (hc : Plain c) (hc' : Plain c')
    (h : modelKey c m = modelKey c' m') : c = c' ∧ m = m' := by
  rw [← String.toList_inj, toList_modelKey, toList_modelKey] at h
  obtain ⟨hconnection, hmodel⟩ := Search.cut_unique hc hc' h
  exact ⟨String.toList_inj.mp hconnection, String.toList_inj.mp hmodel⟩

lemma modelKey_ne {c c' m : String} (hc' : Plain c') : modelKey c m ≠ c' := by
  rintro rfl
  exact hc' (by simp [toList_modelKey])

lemma Scope.key_inj {s s' : Scope} (hs : Plain s.connection) (hs' : Plain s'.connection)
    (h : s.key = s'.key) : s = s' := by
  obtain ⟨c, _ | m⟩ := s <;> obtain ⟨c', _ | m'⟩ := s'
  · exact congrArg (Scope.mk · none) h
  · exact absurd h.symm (modelKey_ne hs)
  · exact absurd h (modelKey_ne hs')
  · obtain ⟨rfl, rfl⟩ := modelKey_inj hs hs' h
    rfl

lemma concerns_key {s : Scope} {id : String} (hs : Plain s.connection) (hid : Plain id) :
    concerns id s.key = true ↔ s.connection = id := by
  unfold concerns
  rw [Bool.or_eq_true, decide_eq_true_iff, List.isPrefixOf_iff_prefix, toList_modelKey]
  obtain ⟨c, _ | m⟩ := s
  · refine or_iff_left ?_
    rintro ⟨tail, h⟩
    exact hs (by simp [Scope.key] at h; simp [← h])
  · constructor
    · rintro (h | ⟨tail, h⟩)
      · exact absurd h (modelKey_ne hid)
      · simp only [Scope.key, toList_modelKey, List.append_assoc, List.cons_append] at h
        exact (String.toList_inj.mp (Search.cut_unique hid hs h).1).symm
    · rintro rfl
      exact .inr ⟨m.toList, by simp [Scope.key, toList_modelKey]⟩

lemma get_filter_concerns {α : Type} (table : Table String α) (test : String → Bool) {id : String}
    {scope : Scope} (hid : Plain id) (hscope : Plain scope.connection) :
    (table.filter fun key _ => !(concerns id key && test key)).get scope.key =
      if scope.connection = id ∧ test scope.key then none else table.get scope.key := by
  rw [table.get_filter_key (fun key => concerns id key && test key) scope.key]
  refine if_congr ?_ rfl rfl
  rw [Bool.and_eq_true, concerns_key hscope hid]

/-! What the four functions do to the tables. -/

variable {state : State} {retryAfter : Option ℕ}

def State.earlier (now : ℕ) (key : String) (failure : FailureClass) (state : State) : ℕ :=
  if failure = .firstByteTimeout then
    let entry := (state.slow.get key).getD (0, 0)
    if now - entry.2 ≤ slowWindowS then entry.1.toNat else 0
  else (state.streaks.get key).getD 0

def State.slower (now : ℕ) (key : String) (state : State) : UInt32 × ℕ :=
  let entry := (state.slow.get key).getD (0, 0)
  (if now - entry.2 ≤ slowWindowS then entry.1 + 1 else 1, now)

lemma State.countFailure_rest {now : ℕ} {connection key : String} {failure : FailureClass}
    (hrest : state.noRestOnLimit = ∅) :
    (state.countFailure now connection key failure retryAfter).1 =
      failure.cooldownSeconds retryAfter (state.earlier now key failure) := by
  unfold countFailure earlier
  by_cases hslow : failure = .firstByteTimeout
  · subst hslow
    simp only [if_true]
    split
    · rw [UInt32.add_sub_cancel]
      rfl
    · rfl
  · simp [hslow, hrest]

lemma State.countFailure_tables {now : ℕ} {connection key : String} {failure : FailureClass}
    (hrest : state.noRestOnLimit = ∅) :
    (state.countFailure now connection key failure retryAfter).2 =
      if failure = .firstByteTimeout then
        { state with slow := state.slow.set key (state.slower now key) }
      else { state with streaks :=
        state.streaks.set key (min ((state.streaks.get key).getD 0 + 1) (2 ^ 32 - 1)) } := by
  unfold countFailure
  by_cases hslow : failure = .firstByteTimeout
  · rw [if_pos hslow, if_pos hslow]
    rfl
  · simp [hslow, hrest]

lemma State.noteTask_tables (taskId : String) (failure : FailureClass) (fallback : Bool)
    (state : State) : let noted := state.noteTask taskId failure fallback
    noted.cooldowns = state.cooldowns ∧ noted.reasons = state.reasons ∧
      noted.streaks = state.streaks ∧ noted.slow = state.slow ∧
      noted.noRestOnLimit = state.noRestOnLimit := by
  unfold noteTask
  cases fallback <;> cases failure.allowsRebind <;> exact ⟨rfl, rfl, rfl, rfl, rfl⟩

lemma FailureClass.scope_key (failure : FailureClass) (connection upstreamModel : String) :
    (if failure.coolsModel then modelKey connection upstreamModel else connection) =
      (failure.scope connection upstreamModel).key := by
  unfold FailureClass.scope
  cases failure.coolsModel <;> rfl

/-- What a failure of a key leaves in the tables that the rests and the counts are kept in. -/
structure Fails (now : ℕ) (key : String) (failure : FailureClass) (cooldown : ℕ)
    (state after : State) : Prop where
  limits : after.noRestOnLimit = ∅
  cooldowns : after.cooldowns = if 0 < cooldown then
    state.cooldowns.set key ((now + cooldown) % 2 ^ 64) else state.cooldowns
  reasons : after.reasons = if 0 < cooldown then state.reasons.set key failure else state.reasons
  streaks : after.streaks = if failure.shouldFailover ∧ failure ≠ .firstByteTimeout then
    state.streaks.set key (min ((state.streaks.get key).getD 0 + 1) (2 ^ 32 - 1))
    else state.streaks
  slow : after.slow = if failure = .firstByteTimeout then
    state.slow.set key (state.slower now key) else state.slow

lemma recordFailure_fails (now : ℕ) (taskId upstreamModel : String) (failure : FailureClass)
    (retryAfter : Option ℕ) (fallback : Bool) {targetId connection : String}
    (hrest : state.noRestOnLimit = ∅) (hc : connectionOf targetId = some connection) :
    let key := (failure.scope connection upstreamModel).key
    Fails now key failure (failure.cooldownSeconds retryAfter (state.earlier now key failure)) state
      (recordFailure now taskId targetId upstreamModel failure retryAfter fallback state).2 := by
  obtain ⟨key, hkey⟩ : ∃ key, (failure.scope connection upstreamModel).key = key := ⟨_, rfl⟩
  dsimp only
  rw [hkey]
  by_cases hover : failure.shouldFailover = true
  · obtain ⟨hcool, hreason, hstreak, hslow, hlimit⟩ := state.noteTask_tables taskId failure fallback
    have hearlier : (state.noteTask taskId failure fallback).earlier now key failure =
        state.earlier now key failure := by
      unfold State.earlier
      rw [hstreak, hslow]
    have hslower : (state.noteTask taskId failure fallback).slower now key =
        state.slower now key := by
      unfold State.slower
      rw [hslow]
    simp only [recordFailure, if_pos hover, hc, FailureClass.scope_key, hkey]
    rw [State.countFailure_rest (hlimit.trans hrest), State.countFailure_tables
      (hlimit.trans hrest), hearlier, hslower]
    constructor <;> split <;> split <;> simp_all
  · have hfailure : failure = .requestError := by simpa [FailureClass.shouldFailover] using hover
    subst hfailure
    simp only [recordFailure, if_neg hover]
    exact ⟨hrest, rfl, rfl, rfl, rfl⟩

lemma State.stick_tables (now : ℕ) (taskId connection : String) (state : State) :
    let after := state.stick now taskId connection
    after.noRestOnLimit = state.noRestOnLimit ∧ after.cooldowns = state.cooldowns ∧
      after.reasons = state.reasons ∧ after.streaks = state.streaks ∧ after.slow = state.slow := by
  dsimp only [State.stick]
  split
  · split <;> exact ⟨rfl, rfl, rfl, rfl, rfl⟩
  · exact ⟨rfl, rfl, rfl, rfl, rfl⟩

lemma recordSuccess_tables (now : ℕ) (taskId : String) {targetId connection : String}
    (fallback : Option Fallback) (state : State) (hc : connectionOf targetId = some connection) :
    let after := recordSuccess now taskId targetId fallback state
    after.noRestOnLimit = state.noRestOnLimit ∧
      after.cooldowns = state.cooldowns.erase connection ∧
      after.reasons = state.reasons.erase connection ∧
      after.streaks = state.streaks.erase connection ∧ after.slow = state.slow := by
  simp only [recordSuccess, hc]
  cases fallback with
  | some fallback => exact ⟨rfl, rfl, rfl, rfl, rfl⟩
  | none => exact State.stick_tables now taskId connection _

/-! The tables count as the history does. -/

lemma FailureClass.cooldownSeconds_min (kind : FailureClass) (n : ℕ) :
    kind.cooldownSeconds retryAfter (min n (2 ^ 32 - 1)) = kind.cooldownSeconds retryAfter n ∨
      kind = .firstByteTimeout := by
  cases kind <;> simp [FailureClass.cooldownSeconds]

def slowEntry : List ℕ → Option (ℕ × ℕ)
  | [] => none
  | time :: times => some (inRow time times + 1, time)

/-- The tables know of a scope what the failures that count tell. -/
structure Tallies (state : State) (scope : Scope) (failures : List Counted) : Prop where
  streak : (state.streaks.get scope.key).getD 0 =
    min (failures.filter fun failure => !failure.slow).length (2 ^ 32 - 1)
  slow : (state.slow.get scope.key).map (fun entry => (entry.1.toNat, entry.2)) =
    slowEntry (slowTimes failures)
  reason : state.reasons.get scope.key = restedFor failures
  rests : (state.cooldowns.get scope.key).isSome = (restedFor failures).isSome

section Tallies
variable {scope : Scope} {failures : List Counted}

lemma Tallies.earlier_slow (h : Tallies state scope failures) (now : ℕ) :
    state.earlier now scope.key .firstByteTimeout = inRow now (slowTimes failures) := by
  have hslow := h.slow
  unfold State.earlier
  rw [if_pos rfl]
  cases htimes : slowTimes failures with
  | nil =>
    rw [htimes, slowEntry, Option.map_eq_none_iff] at hslow
    simp [hslow, inRow]
  | cons time times =>
    rw [htimes, slowEntry, Option.map_eq_some_iff] at hslow
    obtain ⟨entry, hentry, heq⟩ := hslow
    obtain ⟨hcount, htime⟩ := Prod.mk.inj heq
    simp only [hentry, Option.getD_some, htime, hcount, inRow]

lemma Tallies.seconds (h : Tallies state scope failures) (now : ℕ) (kind : FailureClass) :
    kind.cooldownSeconds retryAfter (state.earlier now scope.key kind) =
      kind.cooldownSeconds retryAfter (earlier now kind failures) := by
  by_cases hslow : kind = .firstByteTimeout
  · subst hslow
    rw [h.earlier_slow, earlier, if_pos rfl]
  · rw [State.earlier, if_neg hslow, h.streak, earlier, if_neg hslow]
    exact (kind.cooldownSeconds_min _).resolve_right hslow

lemma Tallies.frame {state' : State} (h : Tallies state scope failures)
    (hcool : state'.cooldowns.get scope.key = state.cooldowns.get scope.key)
    (hreason : state'.reasons.get scope.key = state.reasons.get scope.key)
    (hstreak : state'.streaks.get scope.key = state.streaks.get scope.key)
    (hslow : state'.slow.get scope.key = state.slow.get scope.key) :
    Tallies state' scope failures := by
  constructor
  · rw [hstreak, h.streak]
  · rw [hslow, h.slow]
  · rw [hreason, h.reason]
  · rw [hcool, h.rests]

lemma Tallies.nothing (hcool : state.cooldowns.get scope.key = none)
    (hreason : state.reasons.get scope.key = none) (hstreak : state.streaks.get scope.key = none)
    (hslow : state.slow.get scope.key = none) : Tallies state scope [] := by
  constructor
  · rw [hstreak]
    rfl
  · rw [hslow]
    rfl
  · exact hreason
  · rw [hcool]
    rfl

lemma restedFor_cons (failure : Counted) (failures : List Counted) :
    restedFor (failure :: failures) =
      if 0 < failure.seconds then some failure.kind else restedFor failures := by
  unfold restedFor
  rw [List.find?_cons]
  by_cases hlasts : 0 < failure.seconds <;> simp [hlasts]

lemma Tallies.failed {after : State} {now cooldown : ℕ} {kind : FailureClass}
    (h : Tallies state scope failures) (hkind : kind.shouldFailover = true)
    (hcountable : Countable scope.key kind state)
    (hfails : Fails now scope.key kind cooldown state after) :
    Tallies after scope (⟨now, kind, cooldown⟩ :: failures) := by
  have hrested := restedFor_cons ⟨now, kind, cooldown⟩ failures
  constructor
  · rw [hfails.streaks]
    by_cases hslow : kind = .firstByteTimeout
    · rw [if_neg fun hboth => hboth.2 hslow, List.filter_cons_of_neg (by simp [Counted.slow, hslow])]
      exact h.streak
    · rw [if_pos ⟨hkind, hslow⟩, List.filter_cons_of_pos (by simp [Counted.slow, hslow]),
        Table.get_set_self, Option.getD_some, h.streak, List.length_cons]
      omega
  · rw [hfails.slow]
    by_cases hslow : kind = .firstByteTimeout
    · have htimes : slowTimes (⟨now, kind, cooldown⟩ :: failures) = now :: slowTimes failures := by
        simp [slowTimes, Counted.slow, hslow]
      rw [if_pos hslow, Table.get_set_self, htimes, slowEntry, ← h.earlier_slow]
      subst hslow
      simp only [Option.map_some, State.slower, State.earlier, if_true]
      cases hentry : state.slow.get scope.key with
      | none => simp
      | some entry =>
        have hroom := hcountable rfl entry hentry
        simp only [Option.getD_some]
        split
        · rw [UInt32.toNat_add]
          exact congrArg (fun count => some (count, now)) (Nat.mod_eq_of_lt hroom)
        · rfl
    · rw [if_neg hslow, h.slow]
      simp [slowTimes, Counted.slow, hslow]
  · rw [hfails.reasons, hrested]
    split
    · exact Table.get_set_self ..
    · exact h.reason
  · rw [hfails.cooldowns, hrested]
    split
    · rw [Table.get_set_self]
      rfl
    · exact h.rests

lemma Tallies.other {after : State} {now cooldown : ℕ} {key : String} {kind : FailureClass}
    (h : Tallies state scope failures) (hkey : scope.key ≠ key)
    (hfails : Fails now key kind cooldown state after) : Tallies after scope failures := by
  refine h.frame ?_ ?_ ?_ ?_
  · rw [hfails.cooldowns]
    split <;> simp [hkey]
  · rw [hfails.reasons]
    split <;> simp [hkey]
  · rw [hfails.streaks]
    split <;> simp [hkey]
  · rw [hfails.slow]
    split <;> simp [hkey]

lemma slowTimes_edited (failures : List Counted) : slowTimes (edited failures) =
    slowTimes failures := by
  have hslow : (Counted.slow ∘ fun failure => { failure with seconds := 0 }) = Counted.slow := rfl
  simp [slowTimes, edited, List.filter_map, hslow]

lemma restedFor_edited (failures : List Counted) : restedFor (edited failures) = none := by
  simp [restedFor, edited]

lemma model_of_slow {dates : String → Option ℤ} {history : List (ℕ × Event)} {failure : Counted}
    (h : failure ∈ counted dates scope history) (hslow : failure.slow = true) :
    scope.model ≠ none := by
  induction history generalizing failure with
  | nil => cases h
  | cons entry history ih =>
    obtain ⟨now, event⟩ := entry
    replace ih (failure : Counted) (hmem : failure ∈ counted dates scope history) :
        failure.slow = true → scope.model ≠ none := fun hslow => ih hmem hslow
    rw [counted, List.foldr_cons, ← counted] at h
    cases event with
    | failure taskId targetId upstreamModel kind retryAfter fallback =>
      simp only [Event.count] at h
      split at h
      · exact ih failure h hslow
      · split at h
        · rename_i hscope
          rcases List.mem_cons.mp h with rfl | h
          · have hkind : kind = .firstByteTimeout := of_decide_eq_true hslow
            rw [← hscope.2, hkind]
            exact Option.some_ne_none _
          · exact ih failure h hslow
        · exact ih failure h hslow
    | success taskId targetId upstreamModel fallback =>
      simp only [Event.count] at h
      split at h
      · exact ih failure h hslow
      · split at h
        · cases h
        · exact ih failure h hslow
    | changed connectionId =>
      simp only [Event.count] at h
      split at h
      · obtain ⟨before, hbefore, -⟩ := List.mem_map.mp h
        obtain ⟨hmem, hbeforeSlow⟩ := List.mem_filter.mp hbefore
        exact ih before hmem hbeforeSlow
      · exact ih failure h hslow
    | cleared connectionId =>
      simp only [Event.count] at h
      split at h
      · cases h
      · exact ih failure h hslow

end Tallies

/-! The table and the set of rests tell the same. -/

/-- Every rest of the scope still to end is covered by the table's entry, which an edit lifts only
if it lifts the rest; an entry still to end is one of the rests. -/
structure Tracks (now : ℕ) (state : State) (rests : List Rest) (scope : Scope) : Prop where
  covered : ∀ rest ∈ rests, rest.scope = scope → now < rest.ends → ∃ ends failure,
    state.cooldowns.get scope.key = some ends ∧ state.reasons.get scope.key = some failure ∧
      rest.ends ≤ ends ∧ (failure.clearedByEdit → rest.failure.clearedByEdit)
  backed : ∀ ends, state.cooldowns.get scope.key = some ends → now < ends → ∃ rest ∈ rests,
    rest.scope = scope ∧ rest.ends = ends ∧ state.reasons.get scope.key = some rest.failure

structure Agrees (dates : String → Option ℤ) (watch : Watch) : Prop where
  noRest : watch.state.noRestOnLimit = ∅
  tallies : ∀ scope : Scope, Plain scope.connection →
    Tallies watch.state scope (counted dates scope watch.history)
  tracks : ∀ scope : Scope, Plain scope.connection →
    Tracks watch.clock watch.state watch.rests scope

lemma agrees_start (dates : String → Option ℤ) : Agrees dates .start where
  noRest := rfl
  tallies := fun _ _ => .nothing rfl rfl rfl rfl
  tracks := fun _ _ => ⟨nofun, nofun⟩

variable {rests : List Rest}

lemma Tracks.later {t now : ℕ} {scope : Scope}
    (h : Tracks t state rests scope) (ht : t ≤ now) : Tracks now state rests scope where
  covered := fun rest hrest hscope hends => h.covered rest hrest hscope (ht.trans_lt hends)
  backed := fun ends hget hends => h.backed ends hget (ht.trans_lt hends)

lemma Tracks.frame {now : ℕ} {state state' : State} {rests rests' : List Rest} {scope : Scope}
    (h : Tracks now state rests scope)
    (hcool : state'.cooldowns.get scope.key = state.cooldowns.get scope.key)
    (hreason : state'.reasons.get scope.key = state.reasons.get scope.key)
    (hrests : ∀ rest : Rest, rest.scope = scope → now < rest.ends →
      (rest ∈ rests' ↔ rest ∈ rests)) : Tracks now state' rests' scope where
  covered := fun rest hrest hscope hends => by
    rw [hcool, hreason]
    exact h.covered rest ((hrests rest hscope hends).mp hrest) hscope hends
  backed := fun ends hget hends => by
    rw [hcool] at hget
    obtain ⟨rest, hrest, hscope, rfl, hfailure⟩ := h.backed ends hget hends
    exact ⟨rest, (hrests rest hscope hends).mpr hrest, hscope, rfl, hreason.trans hfailure⟩

lemma Tracks.free {now : ℕ} {scope : Scope}
    (hrests : ∀ rest ∈ rests, rest.scope = scope → rest.ends ≤ now)
    (hcool : ∀ ends, state.cooldowns.get scope.key = some ends → ends ≤ now) :
    Tracks now state rests scope where
  covered := fun rest hrest hscope hends => absurd (hrests rest hrest hscope) (by omega)
  backed := fun ends hget hends => absurd (hcool ends hget) (by omega)

/-- A failure that cools its key leaves the table true to the rests, if the new rest outlasts the
one that it takes the place of. -/
lemma Tracks.failed {now cooldown : ℕ} {state state' : State}
    {scope other : Scope} {kind : FailureClass} (h : Tracks now state rests other)
    (hscope : Plain scope.connection) (hother : Plain other.connection)
    (houtlasts : Outlasts now scope.key kind cooldown state)
    (hcool : state'.cooldowns = if 0 < cooldown then
      state.cooldowns.set scope.key ((now + cooldown) % 2 ^ 64) else state.cooldowns)
    (hreason : state'.reasons = if 0 < cooldown then state.reasons.set scope.key kind
      else state.reasons) :
    Tracks now state' (⟨scope, kind, now + cooldown⟩ :: rests) other := by
  by_cases hlasts : 0 < cooldown
  · rw [if_pos hlasts] at hcool hreason
    obtain ⟨hfits, houtlasts⟩ := houtlasts hlasts
    rw [Nat.mod_eq_of_lt hfits] at hcool
    by_cases heq : other = scope
    · subst heq
      have hcool' : state'.cooldowns.get other.key = some (now + cooldown) := by rw [hcool]; simp
      have hreason' : state'.reasons.get other.key = some kind := by rw [hreason]; simp
      constructor
      · intro rest hrest hrestScope hends
        refine ⟨now + cooldown, kind, hcool', hreason', ?_⟩
        rcases List.mem_cons.mp hrest with rfl | hrest
        · exact ⟨le_rfl, id⟩
        · obtain ⟨ends, failure, hget, hfailure, hle, hclear⟩ :=
            h.covered rest hrest hrestScope hends
          obtain ⟨hlonger, hkind⟩ := houtlasts ends failure hget hfailure (by omega)
          exact ⟨hle.trans hlonger, fun hcleared => hclear (hkind hcleared)⟩
      · intro ends hget _
        rw [hcool'] at hget
        cases hget
        exact ⟨_, List.mem_cons_self, rfl, rfl, hreason'⟩
    · have hkey : other.key ≠ scope.key := fun hkeys => heq (Scope.key_inj hother hscope hkeys)
      refine h.frame (by rw [hcool]; simp [hkey]) (by rw [hreason]; simp [hkey]) ?_
      intro rest hrestScope _
      refine List.mem_cons.trans (or_iff_right ?_)
      rintro rfl
      exact heq hrestScope.symm
  · rw [if_neg hlasts] at hcool hreason
    refine h.frame (by rw [hcool]) (by rw [hreason]) ?_
    intro rest _ hends
    refine List.mem_cons.trans (or_iff_right ?_)
    rintro rfl
    have : now < now + cooldown := hends
    omega

section Steps
variable {dates : String → Option ℤ} {watch : Watch} {now : ℕ}

lemma Agrees.later (h : Agrees dates watch) (hclock : watch.clock ≤ now) {event : Event}
    (hrecord : event.record dates now watch.state = watch.state)
    (hrule : event.rule dates now watch.history watch.rests = watch.rests)
    (hcount : ∀ scope failures, event.count dates now scope failures = failures) :
    Agrees dates (watch.step dates now event) := by
  unfold Watch.step
  rw [hrecord, hrule]
  refine ⟨h.noRest, fun scope hscope => ?_, fun scope hscope => (h.tracks scope hscope).later hclock⟩
  rw [counted, List.foldr_cons, hcount]
  exact h.tallies scope hscope

lemma Agrees.failure (h : Agrees dates watch) (hclock : watch.clock ≤ now)
    {taskId targetId upstreamModel : String} {kind : FailureClass} {retryAfter : Option String}
    {fallback : Bool}
    (hmeets : (Event.failure taskId targetId upstreamModel kind retryAfter fallback).Meets dates now
      watch) :
    Agrees dates (watch.step dates now
      (.failure taskId targetId upstreamModel kind retryAfter fallback)) := by
  cases hc : connectionOf targetId with
  | none =>
    refine h.later hclock ?_ ?_ ?_
    · simp only [Event.record, recordFailure, hc]
      split <;> rfl
    · simp only [Event.rule, hc]
    · simp only [Event.count, hc, implies_true]
  | some connection =>
    obtain ⟨hplain, hcountable, houtlasts⟩ := hmeets connection hc
    have hfails := recordFailure_fails now taskId upstreamModel kind
      (retryAfter.bind (parseRetryAfter dates · now)) fallback h.noRest hc
    have hscope := h.tallies (kind.scope connection upstreamModel) hplain
    dsimp only at hfails
    rw [hscope.seconds] at hfails
    refine ⟨hfails.limits, fun other hother => ?_, fun other hother => ?_⟩
    · rw [Watch.step, counted, List.foldr_cons, ← counted]
      simp only [Event.count, hc]
      by_cases hsame : kind.scope connection upstreamModel = other
      · subst hsame
        by_cases hover : kind.shouldFailover = true
        · rw [if_pos ⟨hover, rfl⟩]
          exact hscope.failed hover hcountable hfails
        · have hkind : kind = .requestError := by simpa [FailureClass.shouldFailover] using hover
          rw [if_neg fun hboth => hover hboth.1]
          subst hkind
          exact hscope.frame (congrArg (Table.get · _) hfails.cooldowns)
            (congrArg (Table.get · _) hfails.reasons) (congrArg (Table.get · _) hfails.streaks)
            (congrArg (Table.get · _) hfails.slow)
      · rw [if_neg fun hboth => hsame hboth.2]
        exact (h.tallies other hother).other
          (fun hkeys => hsame (Scope.key_inj hplain hother hkeys.symm)) hfails
    · simp only [Watch.step, Event.rule, hc]
      exact ((h.tracks other hother).later hclock).failed hplain hother houtlasts hfails.cooldowns
        hfails.reasons

lemma Agrees.success (h : Agrees dates watch) (hclock : watch.clock ≤ now)
    {taskId targetId upstreamModel : String} {fallback : Option Fallback}
    (hmeets : (Event.success taskId targetId upstreamModel fallback).Meets dates now watch) :
    Agrees dates (watch.step dates now (.success taskId targetId upstreamModel fallback)) := by
  cases hc : connectionOf targetId with
  | none =>
    refine h.later hclock ?_ ?_ ?_
    · simp only [Event.record, recordSuccess, hc]
    · simp only [Event.rule, hc]
    · simp only [Event.count, hc, implies_true]
  | some connection =>
    obtain ⟨hplain, hmodel⟩ := hmeets connection hc
    obtain ⟨hnone, hcool, hreason, hstreak, hslow⟩ :=
      recordSuccess_tables now taskId fallback watch.state hc
    have hkey {scope : Scope} (hscope : Plain scope.connection)
        (hconnection : scope ≠ ⟨connection, none⟩) :
        scope.key ≠ (⟨connection, none⟩ : Scope).key := fun hkeys =>
      hconnection (Scope.key_inj hscope hplain hkeys)
    refine ⟨hnone.trans h.noRest, fun scope hscope => ?_, fun scope hscope => ?_⟩
    · have htallies := h.tallies scope hscope
      rw [Watch.step, counted, List.foldr_cons, ← counted]
      simp only [Event.record, Event.count, hc]
      split
      · rename_i hconnection
        subst hconnection
        have htimes : slowTimes (counted dates ⟨connection, none⟩ watch.history) = [] := by
          rw [slowTimes, List.map_eq_nil_iff, List.filter_eq_nil_iff]
          exact fun failure hmem hfailure => model_of_slow hmem hfailure rfl
        have hunseen := htallies.slow
        rw [htimes, slowEntry, Option.map_eq_none_iff] at hunseen
        refine .nothing ?_ ?_ ?_ (by rw [hslow]; exact hunseen)
        · rw [hcool]
          exact Table.get_erase_self ..
        · rw [hreason]
          exact Table.get_erase_self ..
        · rw [hstreak]
          exact Table.get_erase_self ..
      · rename_i hconnection
        have hapart : scope.key ≠ connection := hkey hscope hconnection
        exact htallies.frame (by rw [hcool]; simp [hapart]) (by rw [hreason]; simp [hapart])
          (by rw [hstreak]; simp [hapart]) (by rw [hslow])
    · simp only [Watch.step, Event.record, Event.rule, hc]
      by_cases hconnection : scope = ⟨connection, none⟩
      · subst hconnection
        refine Tracks.free ?_ ?_
        · intro rest hrest hrestScope
          simp [hrestScope] at hrest
        · intro ends hget
          have hget' : (watch.state.cooldowns.erase connection).get connection = some ends := by
            rw [← hcool]
            exact hget
          simp at hget'
      · have hapart : scope.key ≠ connection := hkey hscope hconnection
        by_cases hanswered : scope = ⟨connection, some upstreamModel⟩
        · subst hanswered
          refine Tracks.free ?_ ?_
          · intro rest hrest hrestScope
            simp [hrestScope] at hrest
          · intro ends hget
            rw [hcool, Table.get_erase_of_ne hapart] at hget
            exact hmodel ends hget
        · refine ((h.tracks scope hscope).later hclock).frame (by rw [hcool]; simp [hapart])
            (by rw [hreason]; simp [hapart]) ?_
          rintro rest rfl _
          simp [hconnection, hanswered]

lemma Agrees.changed (h : Agrees dates watch) (hclock : watch.clock ≤ now) {connectionId : String}
    (hplain : Plain connectionId) :
    Agrees dates (watch.step dates now (.changed connectionId)) := by
  have hget {α : Type} (table : Table String α) {scope : Scope} (hscope : Plain scope.connection) :=
    get_filter_concerns table
      (fun key => (watch.state.reasons.get key).any FailureClass.clearedByEdit) hplain hscope
  refine ⟨h.noRest, fun scope hscope => ?_, fun scope hscope => ?_⟩
  · have htallies := h.tallies scope hscope
    have hcool := hget watch.state.cooldowns hscope
    have hreason := hget watch.state.reasons hscope
    have hstreak := hget watch.state.streaks hscope
    rw [Watch.step, counted, List.foldr_cons, ← counted]
    simp only [Event.count, ← htallies.reason]
    split
    · rename_i hcleared
      rw [if_pos hcleared] at hcool hreason hstreak
      constructor
      · refine (congrArg (Option.getD · 0) hstreak).trans ?_
        simp [edited, List.filter_map, Counted.slow]
      · rw [slowTimes_edited, ← htallies.slow]
        rfl
      · rw [restedFor_edited]
        exact hreason
      · rw [restedFor_edited]
        exact congrArg Option.isSome hcool
    · rename_i hkept
      rw [if_neg hkept] at hcool hreason hstreak
      exact htallies.frame hcool hreason hstreak rfl
  · have htracks := (h.tracks scope hscope).later hclock
    have hcool := hget watch.state.cooldowns hscope
    have hreason := hget watch.state.reasons hscope
    split at hcool
    · rename_i hcleared
      -- The entry goes; the rests still to end that it covers go with it.
      refine Tracks.free ?_ fun ends hends => nomatch hcool.symm.trans hends
      intro rest hrest hrestScope
      by_contra hends
      obtain ⟨hmem, hkept⟩ := List.mem_filter.mp hrest
      obtain ⟨ends, failure, -, hfailure, -, hclear⟩ :=
        htracks.covered rest hmem hrestScope (not_le.mp hends)
      rw [hfailure] at hcleared
      rw [decide_eq_true_iff, hrestScope] at hkept
      exact hkept ⟨hcleared.1, hclear hcleared.2⟩
    · rename_i hkept
      rw [if_neg hkept] at hreason
      constructor
      · intro rest hrest hrestScope hends
        obtain ⟨ends, failure, hends', hfailure, hcovers⟩ :=
          htracks.covered rest (List.mem_of_mem_filter hrest) hrestScope hends
        exact ⟨ends, failure, hcool.trans hends', hreason.trans hfailure, hcovers⟩
      · intro ends hends hlasts
        obtain ⟨rest, hrest, rfl, rfl, hfailure⟩ :=
          htracks.backed ends (hcool.symm.trans hends) hlasts
        rw [hfailure] at hkept
        exact ⟨rest, List.mem_filter.mpr ⟨hrest, decide_eq_true hkept⟩, rfl, rfl,
          hreason.trans hfailure⟩

lemma Agrees.cleared (h : Agrees dates watch) (hclock : watch.clock ≤ now) {connectionId : String}
    (hplain : Plain connectionId) :
    Agrees dates (watch.step dates now (.cleared connectionId)) := by
  have hget {α : Type} (table : Table String α) {scope : Scope} (hscope : Plain scope.connection) :=
    get_filter_concerns table (fun key => (watch.state.cooldowns.get key).isSome) hplain hscope
  refine ⟨h.noRest, fun scope hscope => ?_, fun scope hscope => ?_⟩
  · have htallies := h.tallies scope hscope
    have hcool := hget watch.state.cooldowns hscope
    have hreason := hget watch.state.reasons hscope
    have hstreak := hget watch.state.streaks hscope
    have hslow := hget watch.state.slow hscope
    rw [Watch.step, counted, List.foldr_cons, ← counted]
    simp only [Event.count, ← htallies.rests]
    split
    · rename_i hlifted
      rw [if_pos hlifted] at hcool hreason hstreak hslow
      exact .nothing hcool hreason hstreak hslow
    · rename_i hkept
      rw [if_neg hkept] at hcool hreason hstreak hslow
      exact htallies.frame hcool hreason hstreak hslow
  · have hcool := hget watch.state.cooldowns hscope
    have hreason := hget watch.state.reasons hscope
    by_cases hconnection : scope.connection = connectionId
    · refine Tracks.free ?_ ?_
      · intro rest hrest hrestScope
        obtain ⟨-, hkept⟩ := List.mem_filter.mp hrest
        rw [decide_eq_true_iff, hrestScope] at hkept
        exact absurd hconnection hkept
      · intro ends hends
        have hgone := hcool.symm.trans hends
        cases hentry : watch.state.cooldowns.get scope.key <;> simp [hentry, hconnection] at hgone
    · rw [if_neg fun hboth => hconnection hboth.1] at hcool hreason
      refine ((h.tracks scope hscope).later hclock).frame hcool hreason ?_
      rintro rest rfl _
      simp [Watch.step, Event.rule, hconnection]

lemma Reachable.agrees (h : Reachable dates watch) : Agrees dates watch := by
  induction h with
  | start => exact agrees_start dates
  | @step watch now event _ hclock hmeets ih =>
    cases event with
    | failure => exact ih.failure hclock hmeets
    | success => exact ih.success hclock hmeets
    | changed => exact ih.changed hclock hmeets
    | cleared => exact ih.cleared hclock hmeets

end Steps

/-- The rests that a candidate is held by: those of its connection and those of its model there. -/
def Candidate.held (candidate : Candidate) (rest : Rest) : Prop :=
  rest.scope = ⟨candidate.connectionId, none⟩ ∨
    rest.scope = ⟨candidate.connectionId, some candidate.upstreamModel⟩

instance (candidate : Candidate) (rest : Rest) : Decidable (candidate.held rest) :=
  inferInstanceAs (Decidable (_ ∨ _))

lemma Tracks.ends_iff {t now : ℕ} {scope : Scope} (h : Tracks t state rests scope) (ht : t ≤ now) :
    now < (state.cooldowns.get scope.key).getD 0 ↔
      ∃ rest ∈ rests, rest.scope = scope ∧ now < rest.ends := by
  constructor
  · intro hcooling
    cases hget : state.cooldowns.get scope.key with
    | none =>
      rw [hget] at hcooling
      exact absurd hcooling (Nat.not_lt_zero now)
    | some ends =>
      rw [hget] at hcooling
      obtain ⟨rest, hrest, hscope, hends, -⟩ := h.backed ends hget (ht.trans_lt hcooling)
      exact ⟨rest, hrest, hscope, hends ▸ hcooling⟩
  · rintro ⟨rest, hrest, hscope, hends⟩
    obtain ⟨ends, failure, hget, -, hle, -⟩ := h.covered rest hrest hscope (ht.trans_lt hends)
    rw [hget]
    exact hends.trans_le hle

/-- A candidate cools as long as one of the rests that hold it lasts. -/
theorem cooling_iff_held {dates : String → Option ℤ} {watch : Watch} (h : Reachable dates watch)
    {candidate : Candidate} (hplain : Plain candidate.connectionId) {now : ℕ}
    (hnow : watch.clock ≤ now) :
    now < coolingUntil watch.state.cooldowns candidate ↔
      ∃ rest ∈ watch.rests, candidate.held rest ∧ now < rest.ends := by
  have hconnection := (h.agrees.tracks ⟨candidate.connectionId, none⟩ hplain).ends_iff hnow
  have hmodel := (h.agrees.tracks ⟨candidate.connectionId, some candidate.upstreamModel⟩
    hplain).ends_iff hnow
  unfold coolingUntil Candidate.held
  rw [lt_max_iff]
  refine (or_congr hconnection hmodel).trans ?_
  rw [← exists_or]
  refine exists_congr fun rest => ?_
  rw [← and_or_left, ← or_and_right]

def Watch.run (dates : String → Option ℤ) (events : List (ℕ × Event)) : Watch :=
  events.foldl (fun watch event => watch.step dates event.1 event.2) .start

/-- A second server error right after the first, and an edit that mends neither. -/
def again : List (ℕ × Event) :=
  [(0, .failure "task" "conn:a" "m" .serverError none false),
    (6, .failure "task" "conn:a" "m" .serverError none false),
    (7, .changed "a")]

theorem again_cools :
    15 < coolingUntil (Watch.run (fun _ => none) again).state.cooldowns ⟨"a", "m"⟩ := by
  have hplain : Plain "a" := by unfold Plain; decide
  have hconnection : ∀ connection, connectionOf "conn:a" = some connection → connection = "a" := by
    intro connection h
    exact (Option.some.inj ((by decide : connectionOf "conn:a" = some "a").symm.trans h)).symm
  have hreachable : Reachable (fun _ => none) (Watch.run (fun _ => none) again) := by
    refine .step (.step (.step .start (by decide) ?_) (by decide) ?_) (by decide) hplain
    · intro connection h
      obtain rfl := hconnection connection h
      exact ⟨hplain, nofun, fun _ => ⟨by decide, nofun⟩⟩
    · intro connection h
      obtain rfl := hconnection connection h
      refine ⟨hplain, nofun, fun _ => ⟨by decide, fun ends earlier hends _ hlasts => ?_⟩⟩
      cases hends
      exact absurd hlasts (by decide)
  exact (cooling_iff_held hreachable hplain (by decide)).mpr (by decide)

/-- A server error while the connection rests from a limit. -/
def milder : List (ℕ × Event) :=
  [(0, .failure "task" "conn:a" "m" .rateLimited (some "3600") false),
    (1, .failure "task" "conn:a" "m" .serverError none false)]

/-- A refused key while the connection rests from a limit, and the edit that mends it. -/
def mended : List (ℕ × Event) :=
  [(0, .failure "task" "conn:a" "m" .rateLimited (some "3600") false),
    (1, .failure "task" "conn:a" "m" .authFailed none false),
    (2, .changed "a")]

def longest : List (ℕ × Event) :=
  [(1, .failure "task" "conn:a" "m" .rateLimited (some "18446744073709551615") false)]

/-- A model that was missing answers. -/
def answered : List (ℕ × Event) :=
  [(0, .failure "task" "conn:a" "m" .notFound none false),
    (1, .success "task" "conn:a" "m" none)]

def Watch.Disagrees (watch : Watch) (candidate : Candidate) (now : ℕ) : Prop :=
  watch.clock ≤ now ∧ ¬(now < coolingUntil watch.state.cooldowns candidate ↔
    ∃ rest ∈ watch.rests, candidate.held rest ∧ now < rest.ends)

theorem milder_disagrees :
    (Watch.run (fun _ => none) milder).Disagrees ⟨"a", "m"⟩ 100 ∧
    (Watch.run (fun _ => none) mended).Disagrees ⟨"a", "m"⟩ 100 ∧
    (Watch.run (fun _ => none) longest).Disagrees ⟨"a", "m"⟩ 100 ∧
    (Watch.run (fun _ => none) answered).Disagrees ⟨"a", "m"⟩ 100 := by
  unfold Watch.Disagrees
  decide

end Aeroric.ConfigRoutes
