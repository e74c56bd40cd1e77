import Aeroric.TaskSpec

/-! A start or a resume, taken apart: what holds it back, what it saves, what the executor is
asked, and what is undone when no process comes up. -/
namespace Aeroric.TaskLaunched

open TaskRecord TaskReducer TaskLaunch TaskLedger TaskStorage TaskWorld TaskService TaskSpec
open Call (exec)

variable {c : Context} {env : Env} {w w' : World}

lemma exec_settle (answer : WriteAnswer) (t : String) (kind : OperationKind) (key : String)
    (w : World) : exec (settle answer t kind key) w =
      (.ok (), mirrored answer (·.settle t kind key) w) := rfl

def taken (t : String) (kind : OperationKind) (key : String) (now : ℕ) (w : World) : World :=
  { w with ledger := (takeAttempt t kind key now w.ledger).2 }

/-- A fresh start acknowledges the run that was cut off. -/
def acknowledged (env : Env) (t : String) (kind : OperationKind) (w : World) : World :=
  if kind = .start then (exec (acknowledge (env.mirror .acknowledge) t) w).2 else w

/-- The project can take what the launch brings: a remote one takes neither attachments nor
a row with a worktree. -/
def FitsTarget (env : Env) (project : Project) (t : String) (attachments : Attachments)
    (w : World) : Prop :=
  (resolveLocation project).isLocal = true ∨
    (attachments.images = [] ∧ attachments.texts = []) ∧
    (loadStamped (env.read .shape) w.disk (project.id.getD "")).isOk ∧
    ((find (stored w (project.id.getD "")) t).any fun row =>
      (row.strField "worktreePath").any (· ≠ "")) = false

lemma checkTargetShape_cases (env : Env) (project : Project) (t : String)
    (attachments : Attachments) (w : World) :
    (FitsTarget env project t attachments w ∧
      exec (checkTargetShape env project t attachments) w = (.ok (), w)) ∨
    (¬ FitsTarget env project t attachments w ∧
      ∃ e, exec (checkTargetShape env project t attachments) w = (.error e, w)) := by
  unfold checkTargetShape FitsTarget
  dsimp only
  split
  · next h => exact .inl ⟨.inl h, rfl⟩
  next hlocal =>
  split
  · next h =>
    refine .inr ⟨?_, _, rfl⟩
    rintro (h' | ⟨h', -⟩)
    · exact hlocal h'
    · exact h.elim (· h'.1) (· h'.2)
  next hatt =>
  rw [not_or, not_not, not_not] at hatt
  rw [Call.exec_bind, exec_load]
  cases hl : loadStamped (env.read .shape) w.disk (project.id.getD "") with
  | error e => exact .inr ⟨by simp [hlocal, Except.isOk, Except.toBool], .storage e, rfl⟩
  | ok snapshot =>
    rw [mapError_ok, Call.andThen_ok, loadStamped_records hl]
    split
    · next h =>
      refine .inr ⟨?_, _, rfl⟩
      rintro (h' | ⟨-, -, h'⟩)
      · exact hlocal h'
      · exact Bool.false_ne_true (h'.symm.trans h)
    · next h => exact .inl ⟨.inr ⟨hatt, rfl, by simpa using h⟩, rfl⟩

variable {kind : OperationKind}

lemma takeAttempt_new {t : String} {key : String} {now : ℕ} {l : Ledger}
    (h : l.openClaim t kind key = none) : takeAttempt t kind key now l =
      (.ok (l.peekGeneration t + 1), ⟨l.claims ++ [⟨t, kind, key, l.peekGeneration t + 1, now⟩],
        Function.update l.generations t (l.peekGeneration t + 1), l.awaitingAcknowledgement⟩) := by
  have h' : (l.nextGeneration t).openClaim t kind key = none := h
  have hg : (l.nextGeneration t).peekGeneration t = l.peekGeneration t + 1 :=
    Function.update_self t _ l.generations
  unfold takeAttempt Ledger.claim
  rw [h]
  dsimp only
  rw [h', hg]
  rfl

def attemptOf : ExecutorRequest → Option (String × OperationKind × String × ℕ)
  | .launch r => some (r.taskId, .start, r.operationKey, r.generation)
  | .resume r => some (r.taskId, .resume, r.operationKey, r.generation)
  | _ => none

def asked (w : World) (request : ExecutorRequest) (failure : Option ExecutorFailure) :
    World :=
  { w with calls := w.calls ++ [⟨request, failure, w.disk.tasks⟩] }

lemma foldl_fixed {δ : Type} (m : Finmap fun _ : String => Value) (f : δ → String → Value → δ)
    (comm : ∀ d a b a' b', f (f d a b) a' b' = f (f d a' b') a b) (d : δ)
    (h : ∀ a b, f d a b = d) : m.foldl f comm d = d := by
  unfold Finmap.foldl
  induction m.entries using Multiset.induction with
  | empty => simp
  | cons e s ih => rw [Multiset.foldl_cons, h, ih]

lemma rollbackMutation_self (current r : Record) : rollbackMutation current r r = current := by
  have h : ∀ s a, rollbackField current r r s a = s := fun s a => by simp [rollbackField]
  unfold rollbackMutation
  dsimp only
  rw [foldl_fixed r.fields _ _ current fun a _ => h current a, foldl_fixed _ _ _ _ fun a _ => h _ a]

/-- The row is in the shape a launch writes, so preparing it again changes nothing. -/
def Prepared (kind : OperationKind) (r : Record) : Prop :=
  r.get "status" = some TaskStatus.pending.value ∧ r.get "attentionRequestedAt" = none ∧
    (kind = .resume → r.get "failureReason" = none)

lemma prepareForLaunch_prepared (r : Record) (kind : OperationKind) :
    Prepared kind (prepareForLaunch r kind) := by
  unfold Prepared prepareForLaunch
  dsimp only
  split <;> simp_all

variable {r : Record}

lemma Prepared.fixed (h : Prepared kind r) : prepareForLaunch r kind = r := by
  obtain ⟨hs, ha, hf⟩ := h
  apply Record.ext_get
  intro k
  unfold prepareForLaunch
  dsimp only
  split
  · next hk =>
    have hf' := hf hk
    simp only [Record.get_remove, Record.get_insert]
    split_ifs <;> simp_all
  · simp only [Record.get_remove, Record.get_insert]
    split_ifs <;> simp_all

lemma Prepared.agreesOff {r s : Record} (h : Prepared kind r)
    (hs : Record.AgreesOff TaskSession.sessionKeys r s) : Prepared kind s := by
  obtain ⟨h1, h2, h3⟩ := h
  exact ⟨(hs _ (by decide)).trans h1, (hs _ (by decide)).trans h2,
    fun hk => (hs _ (by decide)).trans (h3 hk)⟩

def failedList (env : Env) (failure : ExecutorFailure) (t : String) (current : Record) :
    List Record :=
  (applyStatusTransition [current] t .failed none (some failure.text) (env.clock .abandon)).records

/-- The world after the row of a failed spawn has been marked, as far as that went. -/
def marked (c : Context) (env : Env) (persist : Persist) (failure : ExecutorFailure)
    (q t : String) (w : World) : World :=
  match loadStamped (env.read .abandon) w.disk q, find (stored w q) t with
  | .ok _, some current =>
    (exec (persistLaunch c (env.publish .abandon) q persist (failedList env failure t current)) w).2
  | _, _ => w

lemma exec_markFailed (hr : Prepared kind r) {t q : String}
    (hid : r.id = some t) (hq : r.strField "projectId" = some q) (failure : ExecutorFailure)
    (persist : Persist) (w : World) :
    exec (markFailed c env r failure kind persist) w =
      (.ok (), marked c env persist failure q t w) := by
  unfold markFailed marked
  rw [hid, hq, Option.getD_some, Option.getD_some]
  cases hl : loadStamped (env.read .abandon) w.disk q with
  | error e =>
    simp only [Call.exec_bind, Call.exec_attempt, exec_load, hl, mapError_error, Call.andThen_ok]
    rfl
  | ok snapshot =>
    simp only [Call.exec_bind, Call.exec_attempt, exec_load, hl, mapError_ok, Call.andThen_ok]
    rw [loadStamped_records hl]
    cases find (stored w q) t with
    | none => rfl
    | some current =>
      simp only [hr.fixed, rollbackMutation_self, Call.exec_bind, Call.exec_attempt,
        Call.andThen_ok, Call.exec_pure, failedList]

lemma exec_abandonLaunch (hr : Prepared kind r) {t q : String}
    (hid : r.id = some t) (hq : r.strField "projectId" = some q) (failure : ExecutorFailure)
    (key : String) (persist : Persist) (w : World) :
    exec (abandonLaunch c env r failure kind key persist) w = (.ok (.launch failure.text),
      mirrored (env.mirror .abandon) (·.settle t kind key) (marked c env persist failure q t w)) := by
  unfold abandonLaunch
  simp only [Call.exec_bind, exec_markFailed hr hid hq, Call.andThen_ok, exec_settle, hid,
    Option.getD_some, Call.exec_pure]

/-- What handing a prepared row to the executor can come to: a row without a project is not
handed over, the process comes up, or the attempt is abandoned. -/
inductive SpawnStep (c : Context) (env : Env) (t : String) (kind : OperationKind) (key : String)
    (persist : Persist) (r : Record) (g : ℕ) (w : World) : Except TaskError Unit → World → Prop
  | unasked (e : TaskError) (hq : r.strField "projectId" = none) :
      SpawnStep c env t kind key persist r g w (.error e) w
  | up (request : ExecutorRequest) (hatt : attemptOf request = some (t, kind, key, g))
      (hexec : env.executor = none) :
      SpawnStep c env t kind key persist r g w (.ok ()) (asked w request none)
  | failed (request : ExecutorRequest) (hatt : attemptOf request = some (t, kind, key, g))
      (failure : ExecutorFailure) (hexec : env.executor = some failure) (q : String)
      (hq : r.strField "projectId" = some q) :
      SpawnStep c env t kind key persist r g w (.error (.launch failure.text))
        (mirrored (env.mirror .abandon) (·.settle t kind key)
          (marked c env persist failure q t (asked w request (some failure))))

lemma launch_spawnStep (project : Project) (key : String) (args : StartArgs)
    (persist : Persist) {t : String} (hr : Prepared .start r) (hid : r.id = some t)
    (hp : isAddressable project = true) (g : ℕ) (w : World) :
    SpawnStep c env t .start key persist r g w
      (exec (launch c env project key args persist r g) w).1
      (exec (launch c env project key args persist r g) w).2 := by
  unfold launch
  rcases launchRequest_cases c.families env.isDir hid hp key g args.attachments
    args.injectPromptIntoTerminal args.promptOverride args.hostFacts.dsh with
    ⟨hq, hreq⟩ | ⟨q, request, hq, hreq, rfl, rfl, rfl⟩
  · rw [hreq]
    exact .unasked _ hq
  · rw [hreq]
    simp only [Call.exec_bind, exec_askExecutor, Call.andThen_ok]
    cases hx : env.executor with
    | none => exact .up _ rfl hx
    | some failure =>
      simp only [Call.exec_bind, exec_abandonLaunch hr hid hq, Call.andThen_ok]
      exact .failed _ rfl failure hx q hq

lemma relaunch_spawnStep (project : Project) (sessionId key : String)
    (size : Option (ℕ × ℕ)) (persist : Persist) {t : String}
    (hr : Prepared .resume r) (hid : r.id = some t)
    (hp : isAddressable project = true) (g : ℕ) (w : World) :
    SpawnStep c env t .resume key persist r g w
      (exec (relaunch c env project sessionId key size persist r g) w).1
      (exec (relaunch c env project sessionId key size persist r g) w).2 := by
  unfold relaunch
  dsimp only
  have hagree := TaskSession.applyResolvedSession_agreesOff r
    (TaskSession.resolveSessionOwner c.families r) (some sessionId) none
  generalize TaskSession.applyResolvedSession r (TaskSession.resolveSessionOwner c.families r)
    (some sessionId) none = s at hagree ⊢
  have hids : s.id = some t := (hagree.id (by decide)).trans hid
  have hqs : s.strField "projectId" = r.strField "projectId" := hagree.strField (by decide)
  rcases resumeRequest_cases c.families env.isDir hids hp key g sessionId with
    ⟨hq, hreq⟩ | ⟨q, request, hq, hreq, rfl, rfl, rfl⟩
  · rw [hreq]
    exact .unasked _ (hqs ▸ hq)
  · rw [hreq]
    simp only [Call.exec_bind, exec_askExecutor, Call.andThen_ok]
    cases hx : env.executor with
    | none => exact .up _ rfl hx
    | some failure =>
      simp only [Call.exec_bind, exec_abandonLaunch (hr.agreesOff hagree) hids hq, Call.andThen_ok]
      exact .failed _ rfl failure hx q (hqs ▸ hq)

/-- The task can be launched at all: the project has an address, its list can be read and
holds the row, and the target takes what the launch brings. -/
def Launchable (env : Env) (project : Project) (t : String) (attachments : Attachments)
    (w : World) : Prop :=
  isAddressable project = true ∧ (loadStamped (env.read .main) w.disk (project.id.getD "")).isOk ∧
    (find (stored w (project.id.getD "")) t).isSome ∧ FitsTarget env project t attachments w

/-- Nothing holds a launch back before its attempt is taken. -/
def Begins (env : Env) (project : Project) (t : String) (kind : OperationKind) (key : String)
    (attachments : Attachments) (w : World) : Prop :=
  Launchable env project t attachments w ∧ w.ledger.openClaim t kind key = none

/-- The save of a launch: the prepared row in the list it was read from. -/
def saveLaunch (c : Context) (env : Env) (project : Project) (t : String) (kind : OperationKind)
    (key : String) (persist : Persist) (record : Record) (w : World) :
    Except TaskError Applied × World :=
  exec (persistLaunch c (env.publish .main) (project.id.getD "") persist
    (updateFirst t (fun _ => prepareForLaunch record kind) (stored w (project.id.getD ""))))
    (taken t kind key (env.clock .main) w)

/-- How a launch goes on once its attempt is taken: the row is saved or the attempt is given
up; then the process is asked for. -/
def afterAttempt (c : Context) (env : Env) (project : Project) (t : String) (kind : OperationKind)
    (key : String) (pbl : Bool) (persist : Persist) (spawn : Record → ℕ → Service Unit)
    (record : Record) (w : World) : Except TaskError Applied × World :=
  match saveLaunch c env project t kind key persist record w with
  | (.error e, w1) =>
    (.error (refusedLaunch e), mirrored (env.mirror .settle) (·.settle t kind key) w1)
  | (.ok applied, w1) =>
    match exec (spawn (prepareForLaunch record kind) (w.ledger.peekGeneration t + 1))
      (acknowledged env t kind w1) with
    | (.error e, w2) => (.error e, mirrored (env.mirror .settle) (·.settle t kind key) w2)
    | (.ok (), w2) => (.ok applied,
        if pbl then w2 else mirrored (env.mirror .settle) (·.settle t kind key) w2)

lemma exec_acknowledge_start (env : Env) (t : String) (kind : OperationKind) (w : World) :
    exec (Call.onlyIf (decide (kind = .start)) (do
      let _ ← acknowledge (env.mirror .acknowledge) t)) w =
      (.ok (), acknowledged env t kind w) := by
  unfold acknowledged
  by_cases hk : kind = .start
  · simp only [hk, decide_true, Call.exec_onlyIf, if_true]
    rfl
  · simp [hk]

lemma beginUnderLock_cases (project : Project) (t key : String) (kind : OperationKind)
    (pbl : Bool) (attachments : Attachments) (persist : Persist)
    (spawn : Record → ℕ → Service Unit) (w : World) :
    (¬ Begins env project t kind key attachments w ∧ ∃ e,
      exec (beginUnderLock c env project t key kind pbl attachments persist spawn) w =
        (.error e, w)) ∨
    (Begins env project t kind key attachments w ∧ ∃ record,
      find (stored w (project.id.getD "")) t = some record ∧
      exec (beginUnderLock c env project t key kind pbl attachments persist spawn) w =
        afterAttempt c env project t kind key pbl persist spawn record w) := by
  unfold beginUnderLock Begins Launchable
  dsimp only
  cases haddr : isAddressable project with
  | false => exact .inl ⟨by simp, .unaddressable _, rfl⟩
  | true =>
  simp only [Bool.not_true, Bool.false_eq_true, if_false]
  cases hl : loadStamped (env.read .main) w.disk (project.id.getD "") with
  | error e => exact .inl ⟨by simp [Except.isOk, Except.toBool], .storage e, by simp [hl]⟩
  | ok snapshot =>
  simp only [Call.exec_bind, exec_load, hl, mapError_ok, Call.andThen_ok]
  rw [loadStamped_records hl]
  cases hf : find (stored w (project.id.getD "")) t with
  | none => exact .inl ⟨by simp, .notFound _ _, rfl⟩
  | some record =>
  rcases checkTargetShape_cases env project t attachments w with ⟨hfits, hs⟩ | ⟨hfits, e, hs⟩
  swap
  · exact .inl ⟨by simp [hfits], e, by simp only [Call.exec_bind, hs, Call.andThen_error]⟩
  simp only [Call.exec_bind, hs, Call.andThen_ok, exec_onLedger]
  cases ho : w.ledger.openClaim t kind key with
  | some existing =>
    refine .inl ⟨by simp, .alreadyClaimed t kind.asStr existing.claimedAtMs, ?_⟩
    simp only [takeAttempt, ho]
    rfl
  | none =>
    refine .inr ⟨⟨⟨trivial, rfl, rfl, hfits⟩, rfl⟩, record, rfl, ?_⟩
    unfold afterAttempt saveLaunch
    simp only [takeAttempt_new ho, Call.exec_bind, Call.exec_attempt, Call.andThen_ok, taken]
    rcases exec (persistLaunch c (env.publish .main) (project.id.getD "") persist
      (updateFirst t (fun _ => prepareForLaunch record kind)
        (stored w (project.id.getD "")))) _ with ⟨e | applied, w1⟩
    · rfl
    · simp only [Call.exec_bind, Call.exec_attempt, Call.andThen_ok, exec_acknowledge_start]
      rcases exec (spawn (prepareForLaunch record kind) _) (acknowledged env t kind w1) with
        ⟨e | _, w2⟩
      · rfl
      · cases pbl <;> rfl

/-- What a start or a resume comes to. Nothing happens, and that is exactly when a guard
holds it back; or the attempt is taken and the row cannot be saved; or it is saved and no
process comes up; or one does. -/
inductive Launched (guard : Prop) (c : Context) (env : Env) (project : Project) (t : String)
    (kind : OperationKind) (key : String) (pbl : Bool) (persist : Persist) (w : World) :
    Except TaskError Applied → World → Prop
  | refused (hguard : ¬ guard) (e : TaskError) :
      Launched guard c env project t kind key pbl persist w (.error e) w
  | unsaved (hguard : guard) (hopen : w.ledger.openClaim t kind key = none) (record : Record)
      (hrow : find (stored w (project.id.getD "")) t = some record) (e : TaskError) (w1 : World)
      (hsave : saveLaunch c env project t kind key persist record w = (.error e, w1)) :
      Launched guard c env project t kind key pbl persist w (.error (refusedLaunch e))
        (mirrored (env.mirror .settle) (·.settle t kind key) w1)
  | unspawned (hguard : guard) (hopen : w.ledger.openClaim t kind key = none) (record : Record)
      (hrow : find (stored w (project.id.getD "")) t = some record) (applied : Applied)
      (w1 : World) (hsave : saveLaunch c env project t kind key persist record w = (.ok applied, w1))
      (e : TaskError) (w2 : World)
      (hspawn : SpawnStep c env t kind key persist (prepareForLaunch record kind)
        (w.ledger.peekGeneration t + 1) (acknowledged env t kind w1) (.error e) w2) :
      Launched guard c env project t kind key pbl persist w (.error e)
        (mirrored (env.mirror .settle) (·.settle t kind key) w2)
  | spawned (hguard : guard) (hopen : w.ledger.openClaim t kind key = none) (record : Record)
      (hrow : find (stored w (project.id.getD "")) t = some record) (applied : Applied)
      (w1 : World) (hsave : saveLaunch c env project t kind key persist record w = (.ok applied, w1))
      (w2 : World)
      (hspawn : SpawnStep c env t kind key persist (prepareForLaunch record kind)
        (w.ledger.peekGeneration t + 1) (acknowledged env t kind w1) (.ok ()) w2) :
      Launched guard c env project t kind key pbl persist w (.ok applied)
        (if pbl then w2 else mirrored (env.mirror .settle) (·.settle t kind key) w2)

lemma find_id {l : List Record} {t : String} (h : find l t = some r) : r.id = some t := by
  simpa using List.find?_some h

def launchKeys : List String := ["status", "attentionRequestedAt", "failureReason"]

lemma prepareForLaunch_agreesOff (r : Record) (kind : OperationKind) :
    Record.AgreesOff launchKeys r (prepareForLaunch r kind) := by
  have h := ((Record.AgreesOff.refl launchKeys r).insert TaskStatus.pending.value
    (by decide : "status" ∈ launchKeys)).remove (by decide : "attentionRequestedAt" ∈ launchKeys)
  unfold prepareForLaunch
  dsimp only
  split
  · exact h.remove (by decide)
  · exact h

lemma beginUnderLock_launched (project : Project) (t key : String) (kind : OperationKind)
    (pbl : Bool) (attachments : Attachments) (persist : Persist)
    (spawn : Record → ℕ → Service Unit)
    (hspawn : ∀ r g w, Prepared kind r → r.id = some t → isAddressable project = true →
      SpawnStep c env t kind key persist r g w (exec (spawn r g) w).1 (exec (spawn r g) w).2)
    (w : World) :
    Launched (Begins env project t kind key attachments w) c env project t kind key pbl persist w
      (exec (beginUnderLock c env project t key kind pbl attachments persist spawn) w).1
      (exec (beginUnderLock c env project t key kind pbl attachments persist spawn) w).2 := by
  rcases beginUnderLock_cases (c := c) project t key kind pbl attachments persist spawn w with
    ⟨hg, e, h⟩ | ⟨hg, record, hrow, h⟩
  · rw [h]
    exact .refused hg e
  rw [h]
  have hopen := hg.2
  unfold afterAttempt
  rcases hsave : saveLaunch c env project t kind key persist record w with ⟨e | applied, w1⟩
  · exact .unsaved hg hopen record hrow e w1 hsave
  · have hs := hspawn (prepareForLaunch record kind) (w.ledger.peekGeneration t + 1)
      (acknowledged env t kind w1) (prepareForLaunch_prepared record kind)
      (((prepareForLaunch_agreesOff record kind).id (by decide)).trans (find_id hrow)) hg.1.1
    dsimp only
    rcases hr : exec (spawn (prepareForLaunch record kind) (w.ledger.peekGeneration t + 1))
      (acknowledged env t kind w1) with ⟨e | _, w2⟩ <;> rw [hr] at hs
    · exact .unspawned hg hopen record hrow applied w1 hsave e w2 hs
    · exact .spawned hg hopen record hrow applied w1 hsave w2 hs

lemma startAs_launched (project : Project) (t key : String) (pbl : Bool) (args : StartArgs)
    (persist : Persist) (w : World) :
    Launched (Begins env project t .start key args.attachments w) c env project t .start key pbl
      persist w (exec (startAs c env project t key pbl args persist) w).1
      (exec (startAs c env project t key pbl args persist) w).2 := by
  unfold startAs
  rw [Call.exec_serial]
  exact beginUnderLock_launched project t key .start pbl _ persist _ (fun r g w hr hid hp =>
    launch_spawnStep project key args persist hr hid hp g w) w

/-- Nothing holds a resume back before it takes the lock. -/
def Resumable (env : Env) (project : Project) (t sessionId : String) (w : World) : Prop :=
  (loadStamped (env.read .prelude) w.disk (project.id.getD "")).isOk ∧
    ((find (stored w (project.id.getD "")) t).bind fun row =>
      (row.get "worktreeDiscarded").bind Value.asBool) ≠ some true ∧
    w.ledger.awaiting t = none ∧ isBlank sessionId = false

lemma Launched.imp {P Q : Prop} (h : P ↔ Q) {project : Project} {t key : String} {pbl : Bool}
    {persist : Persist} {r : Except TaskError Applied}
    (hl : Launched P c env project t kind key pbl persist w r w') :
    Launched Q c env project t kind key pbl persist w r w' := by
  rwa [← propext h]

lemma resumeAs_launched (project : Project) (t sessionId key : String) (pbl : Bool)
    (size : Option (ℕ × ℕ)) (persist : Persist) (w : World) :
    Launched (Resumable env project t sessionId w ∧ Begins env project t .resume key ⟨[], []⟩ w)
      c env project t .resume key pbl persist w
      (exec (resumeAs c env project t sessionId key pbl size persist) w).1
      (exec (resumeAs c env project t sessionId key pbl size persist) w).2 := by
  unfold resumeAs Resumable
  rw [Call.exec_bind, exec_load]
  cases hl : loadStamped (env.read .prelude) w.disk (project.id.getD "") with
  | error e => exact .refused (by simp [Except.isOk, Except.toBool]) _
  | ok snapshot =>
    rw [mapError_ok, Call.andThen_ok, loadStamped_records hl]
    dsimp only
    split
    · next h => exact .refused (by simp [h]) _
    next hdisc =>
    rw [Call.exec_bind, exec_onLedger, Call.andThen_ok]
    split
    · next h => exact .refused (by simp [Option.isSome_iff_ne_none.mp h]) _
    next hack =>
    split
    · next h => exact .refused (by simp [h]) _
    next hblank =>
    rw [Call.exec_serial]
    refine Launched.imp ?_ (beginUnderLock_launched project t key .resume pbl _ persist _
      (fun r g w hr hid hp => relaunch_spawnStep project sessionId key size persist hr hid hp g w) w)
    exact ⟨fun h => ⟨⟨rfl, hdisc, by simpa using hack, by simpa using hblank⟩, h⟩, And.right⟩

end Aeroric.TaskLaunched
