import Aeroric.Interleaving
import Aeroric.TaskAttempts

/-! The actions the calls are made of. What every action keeps, every call keeps; and the lock
is taken around a whole body or not at all. -/
namespace Aeroric.TaskActions

open TaskRecord TaskSession TaskReducer TaskEdit TaskLaunch TaskLedger TaskStorage TaskWorld
open TaskService TaskInterface TaskSpec TaskCommit TaskLaunched TaskCalls TaskFrame TaskRuns
open Call (exec)

variable {c : Context} {env : Env} {host : Bool}

/-- A body made of the service's actions, without the lock. Only where `host` says so is a list
handed to the host's saver. -/
inductive Built (host : Bool) : {α : Type} → Service α → Prop
  | pure {α : Type} (a : α) : Built host (Pure.pure a)
  | throw {α : Type} (e : TaskError) : Built host (throw e : Service α)
  | bind {α β : Type} {s : Service α} {f : α → Service β} (hs : Built host s)
      (hf : ∀ a, Built host (f a)) : Built host (s >>= f)
  | attempt {α : Type} {s : Service α} (hs : Built host s) : Built host (Call.attempt s)
  | onlyIf {s : Service Unit} (hs : Built host s) (b : Bool) : Built host (Call.onlyIf b s)
  | load (fault : Option Fault) (p : String) : Built host (load fault p)
  | onLedger {α : Type} (f : Ledger → α × Ledger) : Built host (onLedger f)
  | mirrorLedger (answer : WriteAnswer) (f : Ledger → Ledger) : Built host (mirrorLedger answer f)
  | askExecutor (request : ExecutorRequest) (failure : Option ExecutorFailure) :
      Built host (askExecutor request failure)
  | acknowledge (answer : WriteAnswer) (t : String) : Built host (acknowledge answer t)
  | commit (answer : PublishAnswer) (p : String) (l : List Record) : Built host (commit answer p l)
  | commitRemoval (answer : PublishAnswer) (p : String) : Built host (commitRemoval answer p)
  | saveViaHost (h : host = true) (c : Context) (answer : PublishAnswer) (p : String)
      (l : List Record) : Built host (saveViaHost c answer p l)

/-- A call that holds the lock for the whole of its actions, or makes none. -/
def Locks (host : Bool) {α : Type} (s : Service α) : Prop :=
  (∃ e, s = throw e) ∨ ∃ body : Service α, Built host body ∧ s = Call.serial body

def isHost : Persist → Bool
  | .viaHost => true
  | .commit | .decideOnly => false

lemma built_finishIntent (answer : PublishAnswer) (p : String) (persist : Persist)
    (l : List Record) : Built (isHost persist) (finishIntent c answer p persist l) := by
  cases persist with
  | commit =>
    unfold finishIntent
    dsimp only
    split
    · exact .commitRemoval answer p
    · exact .commit answer p l
  | viaHost => exact .saveViaHost rfl c answer p l
  | decideOnly => exact .pure _

lemma built_persistLaunch (answer : PublishAnswer) (p : String) (persist : Persist)
    (l : List Record) : Built (isHost persist) (persistLaunch c answer p persist l) := by
  cases persist with
  | commit => exact .commit answer p l
  | viaHost => exact .saveViaHost rfl c answer p l
  | decideOnly => exact .throw _

lemma built_checkTargetShape (project : Project) (t : String) (attachments : Attachments) :
    Built host (checkTargetShape env project t attachments) := by
  unfold checkTargetShape
  dsimp only
  split
  · exact .pure ()
  split
  · exact .throw _
  refine .bind (.load _ _) fun snapshot => ?_
  split
  · exact .throw _
  · exact .pure ()

lemma built_abandonLaunch (r : Record) (failure : ExecutorFailure) (kind : OperationKind)
    (key : String) (persist : Persist) :
    Built (isHost persist) (abandonLaunch c env r failure kind key persist) := by
  refine .bind ?_ fun _ => .bind (.mirrorLedger _ _) fun _ => .pure _
  refine .bind (.attempt (.load _ _)) fun found => ?_
  cases found with
  | error e => exact .pure ()
  | ok snapshot =>
    dsimp only
    split
    · exact .pure ()
    · exact .bind (.attempt (built_persistLaunch _ _ _ _)) fun _ => .pure ()

lemma built_spawn (request : ExecutorRequest) {recover : ExecutorFailure → Service TaskError}
    (h : ∀ failure, Built host (recover failure)) :
    Built host (do
      askExecutor request env.executor
      match env.executor with
      | none => pure ()
      | some failure => throw (← recover failure) : Service Unit) := by
  refine .bind (.askExecutor _ _) fun _ => ?_
  cases env.executor with
  | none => exact .pure ()
  | some failure => exact .bind (h failure) fun _ => .throw _

lemma built_launch (project : Project) (key : String) (args : StartArgs) (persist : Persist)
    (r : Record) (g : ℕ) : Built (isHost persist) (launch c env project key args persist r g) := by
  unfold launch
  split
  · exact .throw _
  · exact built_spawn _ fun _ => built_abandonLaunch _ _ _ _ _

lemma built_relaunch (project : Project) (sessionId key : String) (size : Option (ℕ × ℕ))
    (persist : Persist) (r : Record) (g : ℕ) :
    Built (isHost persist) (relaunch c env project sessionId key size persist r g) := by
  unfold relaunch
  dsimp only
  split
  · exact .throw _
  · exact built_spawn _ fun _ => built_abandonLaunch _ _ _ _ _

lemma built_beginUnderLock (project : Project) (t key : String) (kind : OperationKind)
    (pbl : Bool) (attachments : Attachments) (persist : Persist)
    {spawn : Record → ℕ → Service Unit} (hspawn : ∀ r g, Built (isHost persist) (spawn r g)) :
    Built (isHost persist) (beginUnderLock c env project t key kind pbl attachments persist spawn) := by
  unfold beginUnderLock
  dsimp only
  split
  · exact .throw _
  refine .bind (.load _ _) fun snapshot => ?_
  split
  · exact .throw _
  refine .bind (built_checkTargetShape _ _ _) fun _ => .bind (.onLedger _) fun taken => ?_
  split
  · exact .throw _
  refine .bind (.attempt (built_persistLaunch _ _ _ _)) fun saved => ?_
  split
  · exact .bind (.mirrorLedger _ _) fun _ => .throw _
  refine .bind (.onlyIf (.bind (.acknowledge _ _) fun _ => .pure ()) _) fun _ =>
    .bind (.attempt (hspawn _ _)) fun up => ?_
  split
  · exact .bind (.mirrorLedger _ _) fun _ => .throw _
  · exact .bind (.onlyIf (.mirrorLedger _ _) _) fun _ => .pure _

lemma locks_startAs (project : Project) (t key : String) (pbl : Bool) (args : StartArgs)
    (persist : Persist) : Locks (isHost persist) (startAs c env project t key pbl args persist) :=
  .inr ⟨_, built_beginUnderLock _ _ _ _ _ _ _ fun _ _ => built_launch _ _ _ _ _ _, rfl⟩

lemma built_switchConfig (project : Project) (t key : String) (values : ConfigSwitch)
    (observed : SwitchEvidence) :
    Built false (switchConfig c env project t key values observed) := by
  unfold switchConfig release
  dsimp only
  split
  · exact .throw _
  refine .bind (.load _ _) fun snapshot => ?_
  split
  · exact .throw _
  refine .bind (.onLedger _) fun taken => ?_
  split
  · exact .throw _
  split
  · exact .bind (.askExecutor _ _) fun _ => .bind (.mirrorLedger _ _) fun _ => .throw _
  refine .bind (.askExecutor _ _) fun _ => ?_
  split
  · exact .bind (.mirrorLedger _ _) fun _ => .throw _
  refine .bind (.attempt (.commit _ _ _)) fun saved => ?_
  split
  · exact .bind (.mirrorLedger _ _) fun _ => .throw _
  · exact .bind (.onlyIf (.bind (.acknowledge _ _) fun _ => .pure ()) _) fun _ =>
      .bind (.mirrorLedger _ _) fun _ => .pure _

lemma locks_applyObservation (p : String) (event : TaskEvent) (persist : Persist) :
    Locks (isHost persist) (applyObservation c env p event persist) := by
  refine .inr ⟨_, .bind (.load _ _) fun snapshot => .bind (.onLedger _) fun l => ?_, rfl⟩
  split
  · exact .pure _
  split
  · exact .throw _
  split
  · exact .bind (.mirrorLedger _ _) fun _ => .pure _
  split
  · exact .pure _
  refine .bind (.onlyIf (.mirrorLedger _ _) _) fun _ => ?_
  split
  · exact .pure _
  refine .bind ?_ fun _ => .pure _
  cases persist with
  | commit => exact .commit _ _ _
  | viaHost => exact .saveViaHost rfl _ _ _ _
  | decideOnly => exact .pure _

lemma locks_complete (project : Project) (t : String) :
    Locks false (complete c env project t) := by
  refine .inr ⟨_, .bind (.load _ _) fun snapshot => ?_, rfl⟩
  split
  · exact .throw _
  split
  · exact .bind (.commit _ _ _) fun _ => .pure _
  · refine .bind (.askExecutor _ _) fun _ => ?_
    split
    · exact .throw _
    · exact .pure _

lemma locks_cancel (project : Project) (t : String) :
    Locks false (cancel c env project t) := by
  refine .inr ⟨_, .bind (.load _ _) fun snapshot => ?_, rfl⟩
  split
  · exact .throw _
  refine .bind (.askExecutor _ _) fun _ => ?_
  split
  · exact .throw _
  · exact .bind (.mirrorLedger _ _) fun _ => .pure _

lemma built_readModifyWrite (p : String)
    (decision : List Record → Except TaskError (Option (List Record)))
    {store : List Record → Service Applied} (h : ∀ l, Built host (store l)) :
    Built host (readModifyWrite env p decision store) := by
  refine .bind (.load _ _) fun snapshot => ?_
  split
  · exact .throw _
  · exact .pure _
  · exact h _

lemma built_finish (p : String) (persist : Persist) (l : List Record) :
    Built (isHost persist) (finish c env p persist l) := built_finishIntent _ _ _ _

lemma built_deleteWith (p : String) (ids : List String) (persist : Persist) :
    Built (isHost persist) (deleteWith c env p ids persist) := by
  refine .bind (.load _ _) fun snapshot => ?_
  dsimp only
  split
  · exact .pure _
  split
  · exact .throw _
  · exact .bind (.onLedger _) fun _ => .bind (built_finishIntent _ _ _ _) fun _ => .pure _

lemma built_insertNewTask (p : String) (spec : NewTask) (persist : Persist) :
    Built (isHost persist) (insertNewTask c env p spec persist) :=
  .bind (built_readModifyWrite _ _ (built_finish _ _)) fun _ => .pure _

lemma locks_create (project : Project) (spec : NewTask) : Locks false (create c env project spec) := by
  unfold create
  dsimp only
  split
  · exact .inl ⟨_, rfl⟩
  split
  · exact .inl ⟨_, rfl⟩
  · exact .inr ⟨_, built_insertNewTask _ _ .commit, rfl⟩

lemma locks_mutate (p : String) (change : List Record → ℕ → List Record × Bool) :
    Locks false (mutate env p change) :=
  .inr ⟨_, built_readModifyWrite _ _ fun _ => .commit _ _ _, rfl⟩

lemma locks_metadataOne (p t : String) (change : List Record → List Record × Bool) :
    Locks false (Call.serial (metadataOne c env p t .commit change)) := by
  unfold metadataOne metadataBatch
  exact .inr ⟨_, built_readModifyWrite _ _ (built_finish _ .commit), rfl⟩

lemma locks_settleOrphaned (p : String) (isOrphan : Record → Bool) :
    Locks false (settleOrphaned env p isOrphan) := by
  refine .inr ⟨_, .bind (.load _ _) fun snapshot => ?_, rfl⟩
  dsimp only
  split
  · exact .pure _
  · exact .bind (.commit _ _ _) fun _ => .bind (.mirrorLedger _ _) fun _ => .pure _

lemma built_reconcileProject (p : String) : Built false (reconcileProject env p) := by
  refine .bind (.load _ _) fun snapshot => .bind (.onLedger _) fun claims => ?_
  dsimp only
  split
  · exact .pure _
  · exact .bind (.commit _ _ _) fun _ => .bind (.mirrorLedger _ _) fun _ => .pure _

lemma locks_runIntent (p : String) (intent : TaskIntent) (persist : Persist) :
    Locks (isHost persist) (runIntent c env p intent persist) := by
  refine .inr ⟨_, ?_, rfl⟩
  rcases intentUnderLock_cases c env p persist intent with ⟨spec, rfl⟩ | ⟨ids, rfl⟩ | ⟨-, _, h⟩
  · exact .bind (built_insertNewTask _ _ _) fun _ => .pure _
  · exact .bind (built_deleteWith _ _ _) fun _ => .pure _
  · rw [h]
    exact built_readModifyWrite _ _ (built_finish _ _)

def usesHost : Request → Bool
  | .start _ _ _ _ _ persist | .resume _ _ _ _ _ _ persist | .observe _ _ persist
  | .intent _ _ persist => isHost persist
  | _ => false

/-- What every body has, and putting bodies together and under the lock keeps, every call has. -/
lemma call_has {P : {α : Type} → Service α → Prop} {req : Request}
    (hbind : ∀ {α β : Type} {s : Service α} {f : α → Service β}, P s → (∀ a, P (f a)) → P (s >>= f))
    (hserial : ∀ {α : Type} {s : Service α}, P s → P (Call.serial s))
    (hbuilt : ∀ {α : Type} {s : Service α}, Built (usesHost req) s → P s) : P (call c env req) := by
  have hlocks : ∀ {α : Type} {s : Service α}, Locks (usesHost req) s → P s := by
    rintro α s (⟨e, rfl⟩ | ⟨body, hbody, rfl⟩)
    · exact hbuilt (.throw e)
    · exact hserial (hbuilt hbody)
  cases req with
  | create => exact hbind (hlocks (locks_create _ _)) fun _ => hbuilt (.pure _)
  | start => exact hbind (hlocks (locks_startAs _ _ _ _ _ _)) fun _ => hbuilt (.pure _)
  | resume =>
    refine hbind (hbind (hbuilt (.load _ _)) fun snapshot => ?_) fun _ => hbuilt (.pure _)
    dsimp only
    split
    · exact hbuilt (.throw _)
    refine hbind (hbuilt (.onLedger _)) fun pending => ?_
    split
    · exact hbuilt (.throw _)
    split
    · exact hbuilt (.throw _)
    · exact hserial (hbuilt
        (built_beginUnderLock _ _ _ _ _ _ _ fun _ _ => built_relaunch _ _ _ _ _ _ _))
  | switchConfig => exact hbind (hbuilt (built_switchConfig _ _ _ _ _)) fun _ => hbuilt (.pure _)
  | observe => exact hbind (hlocks (locks_applyObservation _ _ _)) fun _ => hbuilt (.pure _)
  | complete => exact hbind (hlocks (locks_complete _ _)) fun _ => hbuilt (.pure _)
  | cancel => exact hbind (hlocks (locks_cancel _ _)) fun _ => hbuilt (.pure _)
  | delete => exact hbind (hbuilt (built_deleteWith _ _ .commit)) fun _ => hbuilt (.pure _)
  | mutate => exact hbind (hlocks (locks_mutate _ _)) fun _ => hbuilt (.pure _)
  | detachSession => exact hbind (hlocks (locks_metadataOne _ _ _)) fun _ => hbuilt (.pure _)
  | settleOrphanedSessions =>
    exact hbind (hlocks (locks_settleOrphaned _ _)) fun _ => hbuilt (.pure _)
  | normalizeAfterBoot | resumeWithSession | switchConfigWrite =>
    exact hbind (hbuilt (built_readModifyWrite _ _ (built_finish _ .commit))) fun _ => hbuilt (.pure _)
  | intent => exact hbind (hlocks (locks_runIntent _ _ _)) fun _ => hbuilt (.pure _)
  | reconcile => exact hbind (hbuilt (built_reconcileProject _)) fun _ => hbuilt (.pure _)
  | acknowledge => exact hbind (hbuilt (.acknowledge _ _)) fun _ => hbuilt (.pure _)

end Aeroric.TaskActions
