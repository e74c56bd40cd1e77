import Aeroric.TaskLaunched

/-! The other calls, taken apart: every way an observation, a switch, a completion, a
cancellation, a delete, a settling or a reconciliation can end. -/
namespace Aeroric.TaskCalls

open TaskRecord TaskSession TaskReducer TaskLaunch TaskLedger TaskStorage TaskWorld TaskService
open TaskInterface TaskSpec TaskLaunched
open Call (exec)

variable {c : Context} {env : Env} {w w' : World} {p : String}

lemma exec_return {α β : Type} (f : α → β) (s : Service α) (w : World) :
    exec (do let a ← s; return f a) w = ((exec s w).1.map f, (exec s w).2) := by
  rw [Call.exec_bind]
  rcases exec s w with ⟨_ | _, _⟩ <;> rfl

/-- The event is of a run the ledger still knows, and the list can be read. -/
def Admits (env : Env) (p : String) (event : TaskEvent) (w : World) : Prop :=
  (loadStamped (env.read .main) w.disk p).isOk ∧ isStale w.ledger event = false ∧
    event.generation ≤ w.ledger.peekGeneration event.taskId

/-- The claims of the event's run let go. -/
def released (env : Env) (event : TaskEvent) (w : World) : World :=
  mirrored (env.mirror .settle) (·.settleByGeneration event.taskId event.generation) w

/-- A report of the end of a run lets its claims go. -/
def settledFor (env : Env) (event : TaskEvent) (reported : TaskStatus) (w : World) : World :=
  if reported.isTerminal then released env event w else w

def observedList (env : Env) (p : String) (event : TaskEvent) (reported : TaskStatus)
    (attention : Option ℕ) (reason : Option String) (w : World) : Transition :=
  applyStatusTransition (stored w p) event.taskId (admittedStatus w.ledger event reported) attention
    reason (env.clock .main)

/-- What an observation can come to. -/
inductive Observed (c : Context) (env : Env) (p : String) (event : TaskEvent) (persist : Persist)
    (w : World) : Except TaskError (EventOutcome × Applied) → World → Prop
  | unreadable (e : StorageError) (hl : loadStamped (env.read .main) w.disk p = .error e) :
      Observed c env p event persist w (.error (.storage e)) w
  | stale (a : Applied) (hl : (loadStamped (env.read .main) w.disk p).isOk)
      (hstale : isStale w.ledger event = true) :
      Observed c env p event persist w (.ok (.dropped "stale generation", a)) w
  | future (e : TaskError) (hl : (loadStamped (env.read .main) w.disk p).isOk)
      (hlt : w.ledger.peekGeneration event.taskId < event.generation) :
      Observed c env p event persist w (.error e) w
  | ready (a : Applied) (hadm : Admits env p event w) (hnone : reportOf event = none) :
      Observed c env p event persist w (.ok (.dropped "terminal ready moves no status", a))
        (released env event w)
  | unattended (a : Applied) (hadm : Admits env p event w) (reported : TaskStatus)
      (attention : Option ℕ) (reason : Option String)
      (hrep : reportOf event = some (reported, attention, reason, true))
      (hopen : reported.isTerminal = false) (hlive : isTaskLive env w.ledger event.taskId = false) :
      Observed c env p event persist w (.ok (.dropped "no live run for this task", a)) w
  | unmoved (a : Applied) (hadm : Admits env p event w) (reported : TaskStatus)
      (attention : Option ℕ) (reason : Option String) (guarded : Bool)
      (hrep : reportOf event = some (reported, attention, reason, guarded))
      (hmoved : (observedList env p event reported attention reason w).changed = false) :
      Observed c env p event persist w
        (.ok (.applied (admittedStatus w.ledger event reported) false reason, a))
        (settledFor env event reported w)
  | moved (hadm : Admits env p event w) (reported : TaskStatus) (attention : Option ℕ)
      (reason : Option String) (guarded : Bool)
      (hrep : reportOf event = some (reported, attention, reason, guarded))
      (hmoved : (observedList env p event reported attention reason w).changed = true)
      (r : Except TaskError Applied) (w' : World)
      (hstore : exec (storeObserved c env p persist
        (observedList env p event reported attention reason w).records)
        (settledFor env event reported w) = (r, w')) :
      Observed c env p event persist w (r.map fun applied =>
        (.applied (admittedStatus w.ledger event reported) true reason, applied)) w'

lemma applyObservation_observed (p : String) (event : TaskEvent) (persist : Persist) (w : World) :
    Observed c env p event persist w (exec (applyObservation c env p event persist) w).1
      (exec (applyObservation c env p event persist) w).2 := by
  unfold applyObservation applyObservationUnderLock
  rw [Call.exec_serial, Call.exec_bind, exec_load]
  cases hl : loadStamped (env.read .main) w.disk p with
  | error e => exact .unreadable e hl
  | ok snapshot =>
  have hrec := loadStamped_records hl
  have hok : (loadStamped (env.read .main) w.disk p).isOk := by rw [hl]; rfl
  rw [mapError_ok, Call.andThen_ok, Call.exec_bind, exec_onLedger, Call.andThen_ok]
  split
  · next h => exact .stale _ hok h
  next hstale =>
  split
  · next h => exact .future _ hok h
  next hfuture =>
  have hadm : Admits env p event w := ⟨hok, by simpa using hstale, by simpa using hfuture⟩
  cases hrep : reportOf event with
  | none => exact .ready _ hadm hrep
  | some report =>
  obtain ⟨reported, attention, reason, guarded⟩ := report
  dsimp only
  split
  · next h =>
    simp only [Bool.and_eq_true, Bool.not_eq_true'] at h
    obtain ⟨⟨rfl, hopen⟩, hlive⟩ := h
    exact .unattended _ hadm reported attention reason hrep hopen hlive
  · have hset : exec (Call.onlyIf reported.isTerminal
        (settleByGeneration (env.mirror .settle) event.taskId event.generation)) w =
        (.ok (), settledFor env event reported w) := by
      rw [Call.exec_onlyIf]
      unfold settledFor
      split <;> rfl
    rw [hrec, Call.exec_bind, hset, Call.andThen_ok]
    split
    · next h =>
      exact .unmoved _ hadm reported attention reason guarded hrep (by simpa [observedList] using h)
    · next h =>
      have hmoved : (observedList env p event reported attention reason w).changed = true := by
        simpa [observedList] using h
      rw [exec_return]
      exact .moved hadm reported attention reason guarded hrep hmoved _ _ rfl

/-- The attempt of a switch and its number given back. -/
def givenBack (env : Env) (t key : String) (g : ℕ) (w : World) : World :=
  mirrored (env.mirror .settle) (fun l => (l.settle t .start key).releaseGeneration t g) w

/-- The attempt of a switch taken out and the old process reset. -/
def resetting (env : Env) (t key : String) (w : World) : World :=
  asked (taken t .start key (env.clock .main) w) (.reset t) (match env.reset with
    | .error failure => some failure
    | .ok _ => none)

/-- The save of a switch: the row it decided on in the list it was read from. -/
def saveSwitch (env : Env) (project : Project) (t key : String) (row : Record) (w : World) :
    Except TaskError Applied × World :=
  exec (commit (env.publish .main) (project.id.getD "")
    (updateFirst t (fun _ => row) (stored w (project.id.getD "")))) (resetting env t key w)

/-- What a config switch can come to. -/
inductive Switched (c : Context) (env : Env) (project : Project) (t key : String)
    (values : ConfigSwitch) (observed : SwitchEvidence) (w : World) :
    Except TaskError (ConfigSwitchStrategy × Applied) → World → Prop
  | refused (e : TaskError) : Switched c env project t key values observed w (.error e) w
  | undone (hopen : w.ledger.openClaim t .start key = none) (e : TaskError)
      (hstorage : ∀ inner, e ≠ .storage inner ∧ e ≠ .persistFailed inner) :
      Switched c env project t key values observed w (.error e)
        (givenBack env t key (w.ledger.peekGeneration t + 1) (resetting env t key w))
  | unsaved (hopen : w.ledger.openClaim t .start key = none) (previous : Record)
      (hrow : find (stored w (project.id.getD "")) t = some previous) (reset : ResetOutcome)
      (hreset : env.reset = .ok reset) (strategy : ConfigSwitchStrategy) (row : Record)
      (hdecide : decideSwitch c values observed reset previous = (strategy, some row))
      (e : TaskError) (w1 : World) (hsave : saveSwitch env project t key row w = (.error e, w1)) :
      Switched c env project t key values observed w (.error (refusedLaunch e))
        (givenBack env t key (w.ledger.peekGeneration t + 1) w1)
  | saved (hopen : w.ledger.openClaim t .start key = none) (previous : Record)
      (hrow : find (stored w (project.id.getD "")) t = some previous) (reset : ResetOutcome)
      (hreset : env.reset = .ok reset) (strategy : ConfigSwitchStrategy) (row : Record)
      (hdecide : decideSwitch c values observed reset previous = (strategy, some row))
      (a : Applied) (w1 : World) (hsave : saveSwitch env project t key row w = (.ok a, w1)) :
      Switched c env project t key values observed w
        (.ok (strategy, { a with generation := some (w.ledger.peekGeneration t + 1) }))
        (mirrored (env.mirror .settle) id
          (if strategy = .handoff then (exec (acknowledge (env.mirror .acknowledge) t) w1).2 else w1))

lemma switchConfig_switched (project : Project) (t key : String) (values : ConfigSwitch)
    (observed : SwitchEvidence) (w : World) :
    Switched c env project t key values observed w
      (exec (switchConfig c env project t key values observed) w).1
      (exec (switchConfig c env project t key values observed) w).2 := by
  unfold switchConfig
  dsimp only
  split
  · exact .refused _
  cases hl : loadStamped (env.read .main) w.disk (project.id.getD "") with
  | error e =>
    simp only [Call.exec_bind, exec_load, hl, mapError_error, Call.andThen_error]
    exact .refused _
  | ok snapshot =>
  simp only [Call.exec_bind, exec_load, hl, mapError_ok, Call.andThen_ok]
  rw [loadStamped_records hl]
  cases hrow : find (stored w (project.id.getD "")) t with
  | none => exact .refused _
  | some previous =>
  simp only [Call.exec_bind, exec_onLedger, Call.andThen_ok]
  cases hopen : w.ledger.openClaim t .start key with
  | some existing =>
    simp only [takeAttempt, hopen]
    exact .refused _
  | none =>
  have htaken : ({ w with ledger := (takeAttempt t .start key (env.clock .main) w.ledger).2 } : World)
      = taken t .start key (env.clock .main) w := rfl
  rw [htaken, takeAttempt_new hopen]
  cases hreset : env.reset with
  | error failure =>
    have : Switched c env project t key values observed w _ _ :=
      .undone hopen (.launch failure.text) (fun inner => by simp)
    simpa [resetting, hreset, givenBack, release, mirrored, asked] using this
  | ok reset =>
    have hask : exec (askExecutor (.reset t) none) (taken t .start key (env.clock .main) w) =
        (.ok (), resetting env t key w) := by simp [resetting, hreset, asked]
    simp only [Call.exec_bind, hask, Call.andThen_ok]
    rcases hdecide : decideSwitch c values observed reset previous with ⟨strategy, _ | row⟩
    · exact .undone hopen (.noContinuationContext t) (fun inner => by simp)
    · simp only [Call.exec_bind, Call.exec_attempt, Call.andThen_ok]
      rcases hsave : saveSwitch env project t key row w with ⟨e | a, w1⟩ <;>
        unfold saveSwitch at hsave <;> simp only [hsave]
      · exact .unsaved hopen previous hrow reset hreset strategy row hdecide e w1 hsave
      · have := Switched.saved hopen previous hrow reset hreset strategy row hdecide a w1 hsave
        by_cases hs : strategy = .handoff
        · simpa [hs, acknowledge, mirrored] using this
        · simpa [hs, mirrored] using this

lemma complete_cases (c : Context) (env : Env) (project : Project) (t : String) (w : World) :
    (∃ r, exec (complete c env project t) w = (r, w)) ∨
    (∃ r path, exec (complete c env project t) w = (r, asked w (.complete t path) env.executor)) ∨
    ∃ record, find (stored w (project.id.getD "")) t = some record ∧
      completionFor c.families record = .nothing ∧
      exec (complete c env project t) w =
        ((exec (commit (env.publish .main) (project.id.getD "") (applyStatusTransition
          (stored w (project.id.getD "")) t .done none none (env.clock .main)).records) w).1.map
            fun applied => (.nothing, some applied),
        (exec (commit (env.publish .main) (project.id.getD "") (applyStatusTransition
          (stored w (project.id.getD "")) t .done none none (env.clock .main)).records) w).2) := by
  unfold complete
  rw [Call.exec_serial]
  cases hl : loadStamped (env.read .main) w.disk (project.id.getD "") with
  | error e => exact .inl ⟨.error (.storage e), by simp [hl]⟩
  | ok snapshot =>
    simp only [Call.exec_bind, exec_load, hl, mapError_ok, Call.andThen_ok]
    rw [loadStamped_records hl]
    cases hrow : find (stored w (project.id.getD "")) t with
    | none => exact .inl ⟨_, rfl⟩
    | some record =>
      dsimp only
      cases hk : completionFor c.families record with
      | nothing => exact .inr (.inr ⟨record, rfl, hk, exec_return _ _ w⟩)
      | dsh | stopProcess =>
        simp only [Call.exec_bind, exec_askExecutor, Call.andThen_ok]
        right
        left
        cases env.executor <;> exact ⟨_, processPath record project, rfl⟩

lemma cancel_cases (c : Context) (env : Env) (project : Project) (t : String) (w : World) :
    (∃ e, exec (cancel c env project t) w = (.error e, w)) ∨
    ∃ target, (env.executor.isSome ∧ ∃ e, exec (cancel c env project t) w =
        (.error e, asked w (.cancel t target) env.executor)) ∨
      (env.executor = none ∧ exec (cancel c env project t) w = (.ok target,
        mirrored (env.mirror .settle) (·.settleTask t) (asked w (.cancel t target) none))) := by
  unfold cancel
  rw [Call.exec_serial]
  cases hl : loadStamped (env.read .main) w.disk (project.id.getD "") with
  | error e => exact .inl ⟨.storage e, by simp [hl]⟩
  | ok snapshot =>
    simp only [Call.exec_bind, exec_load, hl, mapError_ok, Call.andThen_ok]
    rw [loadStamped_records hl]
    cases hrow : find (stored w (project.id.getD "")) t with
    | none => exact .inl ⟨_, rfl⟩
    | some record =>
      simp only [Call.exec_bind, exec_askExecutor, Call.andThen_ok]
      cases env.executor with
      | some failure => exact .inr ⟨_, .inl ⟨rfl, .launch failure.text, rfl⟩⟩
      | none => exact .inr ⟨_, .inr ⟨rfl, rfl⟩⟩

def requested (ids : List String) (rows : List Record) : List String :=
  ids.filter fun t => !isStarred rows t

def remaining (ids : List String) (rows : List Record) : List Record :=
  rows.filter fun r => !named (requested ids rows) r

lemma forgetTasks_eq (ids : List String) (l : Ledger) : forgetTasks ids l =
    ⟨l.claims.filter fun cl => decide (cl.taskId ∉ ids), l.generations,
      l.awaitingAcknowledgement.filter fun a => decide (a.taskId ∉ ids)⟩ := by
  unfold forgetTasks
  induction ids generalizing l with
  | nil => simp
  | cons id ids ih =>
    rw [List.foldl_cons, ih]
    simp only [Ledger.settleTask, Ledger.acknowledge, List.filter_filter, List.mem_cons, not_or,
      Bool.decide_and, Bool.and_comm, ne_eq]

lemma deleteWith_cases (c : Context) (env : Env) (p : String) (ids : List String)
    (persist : Persist) (w : World) :
    (∃ r, exec (deleteWith c env p ids persist) w = (r, w)) ∨
    ((requested ids (stored w p)).filter (isLiveRow (stored w p)) = [] ∧
      exec (deleteWith c env p ids persist) w = Call.andThen
        (exec (finishIntent c (env.publish .main) p persist (remaining ids (stored w p)))
          { w with ledger := forgetTasks (requested ids (stored w p)) w.ledger })
        fun applied w' => (.ok ⟨requested ids (stored w p), ids.filter (isStarred (stored w p)),
          applied⟩, w')) := by
  unfold deleteWith
  cases hl : loadStamped (env.read .main) w.disk p with
  | error e => exact .inl ⟨.error (.storage e), by simp [hl]⟩
  | ok snapshot =>
    simp only [Call.exec_bind, exec_load, hl, mapError_ok, Call.andThen_ok]
    rw [loadStamped_records hl]
    split
    · exact .inl ⟨_, rfl⟩
    split
    · exact .inl ⟨_, rfl⟩
    next hblocked =>
    exact .inr ⟨not_not.mp hblocked, by
      simp only [Call.exec_bind, exec_onLedger, Call.andThen_ok, Call.exec_pure]; rfl⟩

def settledList (env : Env) (p : String) (isOrphan : Record → Bool) (w : World) :
    List Record × List String :=
  settleOrphanedSessions (stored w p) isOrphan (env.clock .main)

lemma settleOrphaned_cases (env : Env) (p : String) (isOrphan : Record → Bool) (w : World) :
    (∃ r, exec (settleOrphaned env p isOrphan) w = (r, w)) ∨
    exec (settleOrphaned env p isOrphan) w =
      Call.andThen (exec (commit (env.publish .main) p (settledList env p isOrphan w).1) w)
        fun applied w' => (.ok ((settledList env p isOrphan w).2, applied),
          mirrored (env.mirror .settle)
            (fun l => (settledList env p isOrphan w).2.foldl Ledger.settleTask l) w') := by
  unfold settleOrphaned settledList
  rw [Call.exec_serial]
  cases hl : loadStamped (env.read .main) w.disk p with
  | error e => exact .inl ⟨.error (.storage e), by simp [hl]⟩
  | ok snapshot =>
    simp only [Call.exec_bind, exec_load, hl, mapError_ok, Call.andThen_ok]
    rw [loadStamped_records hl]
    split
    · exact .inl ⟨_, rfl⟩
    · exact .inr (by simp only [Call.exec_bind]; rfl)

def reconciledList (env : Env) (p : String) (w : World) : List Record × List Acknowledgement :=
  reconcile w.ledger.claims (stored w p) (env.clock .main)

lemma reconcileProject_cases (env : Env) (p : String) (w : World) :
    (¬ ((loadStamped (env.read .main) w.disk p).isOk ∧ (reconciledList env p w).2 ≠ []) ∧
      ∃ r, exec (reconcileProject env p) w = (r, w)) ∨
    (((loadStamped (env.read .main) w.disk p).isOk ∧ (reconciledList env p w).2 ≠ []) ∧
      exec (reconcileProject env p) w =
        Call.andThen (exec (commit (env.publish .main) p (reconciledList env p w).1) w)
          fun applied w' => (.ok ((reconciledList env p w).2.map Acknowledgement.taskId, applied),
            mirrored (env.mirror .settle)
              (fun l => (reconciledList env p w).2.foldl cutOff l) w')) := by
  unfold reconcileProject reconciledList
  cases hl : loadStamped (env.read .main) w.disk p with
  | error e => exact .inl ⟨by simp [Except.isOk, Except.toBool], .error (.storage e), by simp [hl]⟩
  | ok snapshot =>
    simp only [Call.exec_bind, exec_load, exec_onLedger, hl, mapError_ok, Call.andThen_ok]
    rw [loadStamped_records hl]
    split
    · next h => exact .inl ⟨by simp [h], _, rfl⟩
    · next h => exact .inr ⟨⟨rfl, h⟩, by simp only [Call.exec_bind]; rfl⟩

end Aeroric.TaskCalls
