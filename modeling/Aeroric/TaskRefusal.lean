import Aeroric.TaskActions

/-! A write that is refused: what it leaves behind, and whether the call can be made again as
if it had not been made. -/
namespace Aeroric.TaskRefusal

open TaskRecord TaskSession TaskReducer TaskEdit TaskLaunch TaskLedger TaskStorage TaskWorld
open TaskService TaskInterface TaskSpec TaskCommit TaskLaunched TaskCalls TaskFrame TaskRuns
open TaskActions
open Call (exec Respects)

variable {c : Context} {env : Env} {w w' : World} {p t key : String} {kind : OperationKind}
  {persist : Persist}

/-- The lists, the table and the ledger are the same: all that a later call can see. -/
structure Alike (w w' : World) : Prop where
  tasks : w'.disk.tasks = w.disk.tasks
  runtime : w'.disk.runtime = w.disk.runtime
  ledger : w'.ledger = w.ledger

lemma Alike.refl (w : World) : Alike w w := ⟨rfl, rfl, rfl⟩

lemma respects_load (f : Option Fault) (p : String) : Respects Alike (load f p) :=
  .act fun s s' h => ⟨by rw [loadStamped_congr (congrFun h.tasks p).symm], h⟩

lemma respects_onLedger {α : Type} (f : Ledger → α × Ledger) : Respects Alike (onLedger f) :=
  .modify fun s s' h => by
    rw [h.ledger]
    exact ⟨rfl, h.tasks, h.runtime, rfl⟩

lemma respects_mirrorLedger (answer : WriteAnswer) (f : Ledger → Ledger) :
    Respects Alike (mirrorLedger answer f) :=
  .modify fun s s' h => by
    rw [h.ledger]
    exact ⟨rfl, by simpa using h.tasks, by simpa using h.runtime, rfl⟩

lemma respects_askExecutor (request : ExecutorRequest) (failure : Option ExecutorFailure) :
    Respects Alike (askExecutor request failure) :=
  .modify fun _ _ h => ⟨rfl, h.tasks, h.runtime, h.ledger⟩

lemma respects_acknowledge (answer : WriteAnswer) (t : String) :
    Respects Alike (acknowledge answer t) :=
  .modify fun s s' h => by
    dsimp only
    rw [h.ledger]
    split
    · exact ⟨rfl, by simpa using h.tasks, by simpa using h.runtime, rfl⟩
    · exact ⟨rfl, h.tasks, h.runtime, h.ledger⟩

/-- A change of the files that looks at the lists and the table only. -/
def Plain {α : Type} (f : Disk → Except StorageError α × Disk) : Prop :=
  ∀ d d' : Disk, d'.tasks = d.tasks → d'.runtime = d.runtime → (f d).1 = (f d').1 ∧
    (f d').2.tasks = (f d).2.tasks ∧ (f d').2.runtime = (f d).2.runtime

lemma respects_writeList {α : Type} (p : String) (put : Option Document)
    {f : Disk → Except StorageError α × Disk} (hf : Plain f) :
    Respects Alike (writeList p put f) :=
  .act fun s s' h => by
    obtain ⟨h1, h2, h3⟩ := hf s.disk s'.disk h.tasks h.runtime
    exact ⟨by rw [h1], h2, h3, h.ledger⟩

lemma saveRefusal_congr {answer : WriteAnswer} {d e : Disk} (ht : e.tasks = d.tasks)
    (hr : e.runtime = d.runtime) (p : String) :
    saveRefusal answer p e = saveRefusal answer p d ∧
      removeRefusal answer p e = removeRefusal answer p d := by
  unfold saveRefusal removeRefusal checkWriter checkCover recordedCover
  rw [ht, hr]
  exact ⟨rfl, rfl⟩

lemma plain_saveCovering (answer : WriteAnswer) (p : String) (l : List Record) :
    Plain (saveCovering answer p l) := by
  intro d d' ht hr
  unfold saveCovering
  rw [(saveRefusal_congr ht hr p).1]
  split
  · exact ⟨rfl, ht, hr⟩
  · exact ⟨rfl, by rw [Disk.setTasks, Disk.setTasks, ht], hr⟩

lemma plain_removeCovering (answer : WriteAnswer) (p : String) : Plain (removeCovering answer p) := by
  intro d d' ht hr
  unfold removeCovering
  rw [(saveRefusal_congr ht hr p).2]
  split
  · exact ⟨rfl, ht, hr⟩
  · exact ⟨rfl, by rw [Disk.setTasks, Disk.setTasks, ht], hr⟩

lemma plain_hostSave (answer : Option String) (p : String) (l : List Record) :
    Plain (hostSave c answer p l) := by
  intro d d' ht hr
  unfold hostSave
  split
  · exact ⟨rfl, ht, hr⟩
  · exact ⟨rfl, by rw [Disk.setTasks, Disk.setTasks, ht], hr⟩

lemma respects_bumpTable (answer : WriteAnswer) (p : String) (cover : Option Fingerprint) :
    Respects Alike (bumpTable answer p cover) :=
  .act fun s s' h => by
    dsimp only
    have hb := bumpFrom_runtime answer h.runtime
    unfold bumpCovering
    rw [hb]
    split
    · exact ⟨rfl, h⟩
    · exact ⟨rfl, h.tasks, rfl, h.ledger⟩

lemma respects_persistLedger (answer : WriteAnswer) : Respects Alike (persistLedger answer) :=
  .act fun s s' h => by
    dsimp only
    rw [h.ledger]
    unfold storeLedger
    split
    · exact ⟨rfl, h.tasks, h.runtime, rfl⟩
    · split <;> exact ⟨rfl, h.tasks, h.runtime, rfl⟩

lemma respects_stamp (l : List Record) : Respects Alike
    (Call.modify fun w => (stampGenerationCopies w.ledger l, w) : Service (List Record)) :=
  .modify fun _ _ h => ⟨by rw [h.ledger], h⟩

lemma respects_publishCover (answer : PublishAnswer) (p : String) (cover : Option Fingerprint) :
    Respects Alike (publishCover answer p cover) :=
  .bind (respects_bumpTable _ _ _) fun _ => .bind (respects_persistLedger _) fun _ => .pure _

lemma respects_built {host : Bool} {α : Type} {s : Service α} (h : Built host s) :
    Respects Alike s := by
  induction h with
  | pure a => exact .pure a
  | throw e => exact .throw e
  | bind _ _ ihs ihf => exact .bind ihs ihf
  | attempt _ ih => exact .attempt ih
  | onlyIf _ b ih => exact .onlyIf ih b
  | load => exact respects_load _ _
  | onLedger => exact respects_onLedger _
  | mirrorLedger => exact respects_mirrorLedger _ _
  | askExecutor => exact respects_askExecutor _ _
  | acknowledge => exact respects_acknowledge _ _
  | commit =>
    exact .bind (respects_stamp _) fun _ => .bind (respects_writeList _ _ (plain_saveCovering _ _ _))
      fun _ => .bind (respects_publishCover _ _ _) fun _ => .pure _
  | commitRemoval =>
    exact .bind (respects_writeList _ _ (plain_removeCovering _ _)) fun _ =>
      .bind (respects_publishCover _ _ _) fun _ => .pure _
  | saveViaHost =>
    exact .bind (respects_stamp _) fun _ => .bind (respects_writeList _ _ (plain_hostSave _ _ _))
      fun _ => .pure _

/-- No call can tell worlds apart that hold the same lists, the same table and the same
ledger. -/
lemma respects_call (req : Request) : Respects Alike (call c env req) :=
  call_has (P := Respects Alike) .bind .serial respects_built

/-- One list was to be replaced in between, and that was refused. -/
def WriteRefused (e : StorageError) (w w' : World) : Prop :=
  ∃ entry, w'.writes = w.writes ++ [entry] ∧ entry.refused = some e

def ListRefused {α : Type} (w : World) (answer : Except TaskError α × World) : Prop :=
  ∃ e, WriteRefused e w answer.2 ∧
    (answer.1 = .error (.storage e) ∨ answer.1 = .error (.persistFailed e))

/-- The call left nothing behind, and from what it left every later try of the same call goes
as it would have gone from the start. -/
structure LeftNoTrace (c : Context) (req : Request) (w w' : World) : Prop where
  alike : Alike w w'
  again : ∀ env, (exec (call c env req) w').1 = (exec (call c env req) w).1 ∧
    Alike (exec (call c env req) w).2 (exec (call c env req) w').2

lemma leftNoTrace_iff {req : Request} : LeftNoTrace c req w w' ↔ Alike w w' :=
  ⟨LeftNoTrace.alike, fun h => ⟨h, fun _ =>
    ⟨((respects_call req) w w' h).1.symm, ((respects_call req) w w' h).2⟩⟩⟩

/-- The ledger keeps nothing of this task but its counter. -/
def Forgotten (l : Ledger) (t : String) : Prop :=
  (∀ cl ∈ l.claims, cl.taskId ≠ t) ∧ ∀ a ∈ l.awaitingAcknowledgement, a.taskId ≠ t

/-- When a refused write leaves no trace. A launch has used up a number by then; a delete has
forgotten its tasks, the report of an end has released its run, a switch gives its number back
only if no claim carries it. -/
def Traceless (w : World) : Request → Prop
  | .start _ _ _ _ _ _ => False
  | .resume _ _ _ _ _ _ _ => False
  | .switchConfig _ t _ _ _ => w.ledger.isLive t (w.ledger.peekGeneration t + 1) = false
  | .observe _ event _ => ∀ report, reportOf event = some report → report.1.isTerminal = true →
      ∀ cl ∈ w.ledger.claims, ¬ (cl.taskId = event.taskId ∧ cl.kind.spawns = true ∧
        cl.generation = event.generation)
  | .delete p ids | .intent p (.delete ids) _ =>
      ∀ t ∈ ids, isStarred (stored w p) t = false → Forgotten w.ledger t
  | _ => True

lemma listRefused_map {α β : Type} {f : α → β} {r : Except TaskError α} :
    ListRefused w (r.map f, w') ↔ ListRefused w (r, w') := by
  cases r <;> simp [ListRefused, Except.map]

lemma not_listRefused {α : Type} {r : Except TaskError α} (h : w'.writes = w.writes) :
    ¬ ListRefused w (r, w') := by
  rintro ⟨e, ⟨entry, hw, -⟩, -⟩
  have hlen := congrArg List.length (h.symm.trans hw)
  simp at hlen

lemma published_alike {rows : List Record} {refusal : Option StorageError}
    {r : Except TaskError Applied} {e : StorageError}
    (h : Published persist refusal p rows w r w') (hr : WriteRefused e w w') : Alike w w' := by
  obtain ⟨entry, hwrites, hrefused⟩ := hr
  cases h with
  | unwritten => exact .refl w
  | refused => exact ⟨rfl, rfl, rfl⟩
  | written put disk r _ _ _ _ =>
    have hentry := List.append_cancel_left hwrites
    simp only [List.cons.injEq, and_true] at hentry
    rw [← hentry] at hrefused
    cases hrefused

lemma launched_not_alike {guard : Prop} {pbl : Bool} {project : Project}
    {r : Except TaskError Applied} (h : Launched guard c env project t kind key pbl persist w r w')
    (hr : ListRefused w (r, w')) : ¬ Alike w w' := by
  intro hsame
  have moved : w'.ledger.generations ≠
      Function.update w.ledger.generations t (w.ledger.peekGeneration t + 1) := fun hg => by
    have := congrFun (hg.symm.trans (congrArg Ledger.generations hsame.ledger)) t
    simp [Ledger.peekGeneration] at this
  cases launched_effect h with
  | nothing _ hw => exact not_listRefused (by rw [hw]) hr
  | attempt _ hgen => exact moved hgen
  | process _ hgen => exact moved hgen

/-- A refused write of this call leaves nothing behind. -/
def Harmless {α : Type} (s : Service α) : Prop :=
  ∀ w, ListRefused w (exec s w) → Alike w (exec s w).2

lemma Harmless.map {α β : Type} {s : Service α} (h : Harmless s) (f : α → β) :
    Harmless (do let a ← s; return f a) := by
  intro w hr
  rw [exec_return] at hr ⊢
  exact h w (listRefused_map.mp hr)

lemma Harmless.serial {α : Type} {s : Service α} (h : Harmless s) : Harmless (Call.serial s) := by
  intro w hr
  rw [Call.exec_serial] at hr ⊢
  exact h w hr

lemma harmless_readModifyWrite (p : String)
    (decision : List Record → Except TaskError (Option (List Record)))
    {store : List Record → Service Applied} (hstore : ∀ w l, ∃ persist refusal rows,
      Published persist refusal p rows w (exec (store l) w).1 (exec (store l) w).2) :
    Harmless (readModifyWrite env p decision store) := by
  intro w hr
  rcases readModifyWrite_cases env p decision store w with ⟨r, h⟩ | ⟨l, -, h⟩ <;> rw [h] at hr ⊢
  · exact .refl w
  · obtain ⟨persist, refusal, rows, hpub⟩ := hstore w l
    exact published_alike hpub hr.choose_spec.1

lemma harmless_edit (p : String) (persist : Persist)
    (decision : List Record → Except TaskError (Option (List Record))) :
    Harmless (readModifyWrite env p decision (finish c env p persist)) :=
  harmless_readModifyWrite p decision fun w l => ⟨_, _, _, finishIntent_published _ p persist l w⟩

lemma andThen_alike {α : Type} {rows : List Record} {refusal : Option StorageError}
    {s : Service Applied} {f : Applied → World → Except TaskError α × World}
    (hpub : Published persist refusal p rows w (exec s w).1 (exec s w).2)
    (hf : ∀ a w', ∃ b, (f a w').1 = .ok b) (hr : ListRefused w (Call.andThen (exec s w) f)) :
    Alike w (Call.andThen (exec s w) f).2 := by
  rcases hs : exec s w with ⟨e | a, w'⟩ <;> rw [hs] at hpub hr
  · exact published_alike hpub hr.choose_spec.1
  · obtain ⟨b, hb⟩ := hf a w'
    obtain ⟨e, -, h⟩ := hr
    rw [Call.andThen_ok, hb] at h
    rcases h with h | h <;> cases h

lemma forgetTasks_eq_self {ids : List String} {l : Ledger} :
    forgetTasks ids l = l ↔ ∀ t ∈ ids, Forgotten l t := by
  obtain ⟨claims, generations, awaiting⟩ := l
  simp only [forgetTasks_eq, Ledger.mk.injEq, List.filter_eq_self, decide_eq_true_eq, true_and,
    Forgotten]
  constructor
  · rintro ⟨h1, h2⟩ t ht
    exact ⟨fun cl hcl heq => h1 cl hcl (heq ▸ ht), fun a ha heq => h2 a ha (heq ▸ ht)⟩
  · exact fun h => ⟨fun cl hcl hmem => (h _ hmem).1 cl hcl rfl, fun a ha hmem => (h _ hmem).2 a ha rfl⟩

lemma deleteWith_alike_iff {ids : List String} (hr : ListRefused w (exec (deleteWith c env p ids persist) w)) :
    Alike w (exec (deleteWith c env p ids persist) w).2 ↔
      ∀ t ∈ ids, isStarred (stored w p) t = false → Forgotten w.ledger t := by
  have hids : (∀ t ∈ requested ids (stored w p), Forgotten w.ledger t) ↔
      ∀ t ∈ ids, isStarred (stored w p) t = false → Forgotten w.ledger t := by
    simp [requested]
  rcases deleteWith_cases c env p ids persist w with ⟨r, h⟩ | ⟨-, h⟩ <;> rw [h] at hr ⊢
  · exact absurd hr (not_listRefused rfl)
  · have hpub := finishIntent_published (c := c) (env.publish .main) p persist
      (remaining ids (stored w p))
      { w with ledger := forgetTasks (requested ids (stored w p)) w.ledger }
    have hsame := andThen_alike hpub (fun a w' => ⟨_, rfl⟩) hr
    rw [← hids, ← forgetTasks_eq_self]
    exact ⟨fun halike => hsame.ledger.symm.trans halike.ledger,
      fun hforget => ⟨hsame.tasks, hsame.runtime, hsame.ledger.trans hforget⟩⟩

lemma settleByGeneration_eq_self {l : Ledger} {g : ℕ} : l.settleByGeneration t g = l ↔
    ∀ cl ∈ l.claims, ¬ (cl.taskId = t ∧ cl.kind.spawns = true ∧ cl.generation = g) := by
  obtain ⟨claims, generations, awaiting⟩ := l
  simp [Ledger.settleByGeneration, List.filter_eq_self, or_assoc, imp_iff_not_or]

lemma runtime_settledFor (event : TaskEvent) (reported : TaskStatus) (w : World) :
    (settledFor env event reported w).disk.runtime = w.disk.runtime := by
  unfold settledFor
  split
  · exact storeLedger_runtime _ _ _
  · rfl

lemma observe_alike_iff {event : TaskEvent}
    (hr : ListRefused w (exec (applyObservation c env p event persist) w)) :
    Alike w (exec (applyObservation c env p event persist) w).2 ↔
      ∀ report, reportOf event = some report → report.1.isTerminal = true →
        ∀ cl ∈ w.ledger.claims, ¬ (cl.taskId = event.taskId ∧ cl.kind.spawns = true ∧
          cl.generation = event.generation) := by
  have hobs : Observed c env p event persist w _ _ := applyObservation_observed p event persist w
  generalize exec (applyObservation c env p event persist) w = answer at hr hobs ⊢
  obtain ⟨r, w'⟩ := answer
  dsimp only at hobs ⊢
  have quiet : ∀ reported, (settledFor env event reported w).writes = w.writes := fun reported => by
    unfold settledFor
    split <;> rfl
  cases hobs with
  | unreadable | stale | future | ready | unattended => exact absurd hr (not_listRefused rfl)
  | unmoved _ _ reported => exact absurd hr (not_listRefused (quiet reported))
  | moved _ reported attention reason guarded hrep _ r w' hstore =>
    have hpub := storeObserved_published c env p persist
      (observedList env p event reported attention reason w).records
      (settledFor env event reported w)
    rw [hstore] at hpub
    obtain ⟨e, ⟨entry, hwrites, hrefused⟩, -⟩ := hr
    have hsame := published_alike hpub ⟨entry, hwrites.trans (by rw [quiet]), hrefused⟩
    rw [hrep]
    simp only [Option.some.injEq, forall_eq']
    have hkept : Alike w w' ↔ (settledFor env event reported w).ledger = w.ledger :=
      ⟨fun h => hsame.ledger.symm.trans h.ledger, fun h => ⟨hsame.tasks.trans (tasks_settledFor event reported w),
        hsame.runtime.trans (runtime_settledFor event reported w), hsame.ledger.trans h⟩⟩
    rw [hkept, (settledFor_ledger env event reported w).1]
    split
    · next hterm => simp [settleByGeneration_eq_self, hterm]
    · next hterm => simp [hterm]

/-- Giving an attempt back restores the ledger unless a claim carries its number already. -/
lemma giveBack_eq_self (env : Env) (hopen : w.ledger.openClaim t .start key = none) :
    (Ledger.settle ⟨w.ledger.claims ++ [newClaim env t .start key w],
        Function.update w.ledger.generations t (w.ledger.peekGeneration t + 1),
        w.ledger.awaitingAcknowledgement⟩ t .start key).releaseGeneration t
          (w.ledger.peekGeneration t + 1) = w.ledger ↔
      w.ledger.isLive t (w.ledger.peekGeneration t + 1) = false := by
  simp only [Ledger.settle, settle_newClaim hopen]
  have hlive : ∀ g a, Ledger.isLive ⟨w.ledger.claims, g, a⟩ t (w.ledger.peekGeneration t + 1) =
      w.ledger.isLive t (w.ledger.peekGeneration t + 1) := fun _ _ => rfl
  unfold Ledger.releaseGeneration
  rw [hlive]
  cases w.ledger.isLive t (w.ledger.peekGeneration t + 1) with
  | true =>
    simp only [Bool.true_or, if_true, Bool.true_eq_false, iff_false]
    intro h
    have := congrFun (congrArg Ledger.generations h) t
    simp [Ledger.peekGeneration] at this
  | false => simp [Ledger.peekGeneration]

lemma switchConfig_alike_iff {project : Project} {values : ConfigSwitch} {observed : SwitchEvidence}
    (hr : ListRefused w (exec (switchConfig c env project t key values observed) w)) :
    Alike w (exec (switchConfig c env project t key values observed) w).2 ↔
      w.ledger.isLive t (w.ledger.peekGeneration t + 1) = false := by
  have hsw : Switched c env project t key values observed w _ _ :=
    switchConfig_switched project t key values observed w
  generalize exec (switchConfig c env project t key values observed) w = answer at hr hsw ⊢
  obtain ⟨r, w'⟩ := answer
  dsimp only at hsw ⊢
  cases hsw with
  | refused => exact absurd hr (not_listRefused rfl)
  | undone => exact absurd hr (not_listRefused rfl)
  | saved =>
    obtain ⟨_, -, h | h⟩ := hr <;> cases h
  | unsaved hopen previous hrow reset hreset strategy row hdecide e w1 hsave =>
    have hpub := commit_published (env.publish .main) (project.id.getD "")
      (updateFirst t (fun _ => row) (stored w (project.id.getD ""))) (resetting env t key w)
    unfold saveSwitch at hsave
    rw [hsave] at hpub
    have hsame : Alike (resetting env t key w) w1 := published_alike hpub hr.choose_spec.1
    have hledger : w1.ledger = ⟨w.ledger.claims ++ [newClaim env t .start key w],
        Function.update w.ledger.generations t (w.ledger.peekGeneration t + 1),
        w.ledger.awaitingAcknowledgement⟩ :=
      hsame.ledger.trans (by simp only [resetting, asked, taken, takeAttempt_new hopen]; rfl)
    have hback : (givenBack env t key (w.ledger.peekGeneration t + 1) w1).ledger = w.ledger ↔
        w.ledger.isLive t (w.ledger.peekGeneration t + 1) = false := by
      rw [← giveBack_eq_self env hopen, ← hledger]
      rfl
    rw [← hback]
    exact ⟨Alike.ledger, fun h => ⟨(tasks_mirrored _ _ w1).trans hsame.tasks,
      (storeLedger_runtime _ _ _).trans hsame.runtime, h⟩⟩

lemma harmless_create (project : Project) (spec : NewTask) : Harmless (create c env project spec) := by
  unfold create
  dsimp only
  split
  · exact fun w hr => absurd hr (not_listRefused rfl)
  split
  · exact fun w hr => absurd hr (not_listRefused rfl)
  · exact ((harmless_edit _ _ _).map _).serial

lemma harmless_complete (project : Project) (t : String) : Harmless (complete c env project t) := by
  intro w hr
  rcases complete_cases c env project t w with ⟨r, h⟩ | ⟨r, path, h⟩ | ⟨record, -, -, h⟩ <;>
    rw [h] at hr ⊢
  · exact .refl w
  · exact ⟨rfl, rfl, rfl⟩
  · exact published_alike (commit_published _ _ _ w) (listRefused_map.mp hr).choose_spec.1

lemma harmless_cancel (project : Project) (t : String) : Harmless (cancel c env project t) := by
  intro w hr
  rcases cancel_cases c env project t w with ⟨e, h⟩ | ⟨target, ⟨-, e, h⟩ | ⟨-, h⟩⟩ <;>
    rw [h] at hr <;> exact absurd hr (not_listRefused rfl)

lemma harmless_settleOrphaned (p : String) (isOrphan : Record → Bool) :
    Harmless (settleOrphaned env p isOrphan) := by
  intro w hr
  rcases settleOrphaned_cases env p isOrphan w with ⟨r, h⟩ | h <;> rw [h] at hr ⊢
  · exact .refl w
  · exact andThen_alike (commit_published _ _ _ w) (fun _ _ => ⟨_, rfl⟩) hr

lemma harmless_reconcileProject (p : String) : Harmless (reconcileProject env p) := by
  intro w hr
  rcases reconcileProject_cases env p w with ⟨-, r, h⟩ | ⟨-, h⟩ <;> rw [h] at hr ⊢
  · exact .refl w
  · exact andThen_alike (commit_published _ _ _ w) (fun _ _ => ⟨_, rfl⟩) hr

lemma harmless_acknowledge (answer : WriteAnswer) (t : String) :
    Harmless (acknowledge answer t) := by
  intro w hr
  have hwrites : (exec (acknowledge answer t) w).2.writes = w.writes := by
    simp only [acknowledge, Call.exec_modify]
    split <;> rfl
  exact absurd hr (not_listRefused hwrites)

/-- A call whose list could not be written leaves no trace exactly when it is traceless. -/
theorem refused_leftNoTrace_iff (c : Context) (env : Env) (req : Request) (w : World)
    (hr : ListRefused w (exec (call c env req) w)) :
    LeftNoTrace c req w (exec (call c env req) w).2 ↔ Traceless w req := by
  rw [leftNoTrace_iff]
  have harmless : Harmless (call c env req) →
      (Alike w (exec (call c env req) w).2 ↔ True) := fun h => iff_true_intro (h w hr)
  cases req with
  | start project t key pbl args persist =>
    simp only [call, exec_return] at hr ⊢
    exact iff_false_intro (launched_not_alike
      (startAs_launched project t key pbl args persist w) (listRefused_map.mp hr))
  | resume project t sessionId key pbl size persist =>
    simp only [call, exec_return] at hr ⊢
    exact iff_false_intro (launched_not_alike
      (resumeAs_launched project t sessionId key pbl size persist w) (listRefused_map.mp hr))
  | switchConfig project t key values observed =>
    simp only [call, exec_return] at hr ⊢
    exact switchConfig_alike_iff (listRefused_map.mp hr)
  | observe p event persist =>
    simp only [call, exec_return] at hr ⊢
    exact observe_alike_iff (listRefused_map.mp hr)
  | delete p ids =>
    simp only [call, exec_return] at hr ⊢
    exact deleteWith_alike_iff (listRefused_map.mp hr)
  | intent p intent persist =>
    rcases intentUnderLock_cases c env p persist intent with ⟨spec, rfl⟩ | ⟨ids, rfl⟩ | ⟨hno, _, h⟩
    · exact harmless ((((harmless_edit _ _ _).map _).map _).serial.map _)
    · simp only [call, runIntent, intentUnderLock, Call.exec_serial, exec_return] at hr ⊢
      exact deleteWith_alike_iff (listRefused_map.mp (listRefused_map.mp hr))
    · have hall : Traceless w (.intent p intent persist) := by
        cases intent with
        | delete ids => exact absurd rfl (hno ids)
        | _ => trivial
      refine (harmless ?_).trans (iff_true_intro hall).symm
      simp only [call, runIntent, h]
      exact (harmless_edit _ _ _).serial.map _
  | create => exact harmless ((harmless_create _ _).map _)
  | complete => exact harmless ((harmless_complete _ _).map _)
  | cancel => exact harmless ((harmless_cancel _ _).map _)
  | mutate =>
    exact harmless ((harmless_readModifyWrite _ _ fun w l =>
      ⟨_, _, _, commit_published _ _ l w⟩).serial.map _)
  | detachSession =>
    refine harmless ?_
    unfold call metadataOne metadataBatch
    exact (harmless_edit _ _ _).serial.map _
  | settleOrphanedSessions => exact harmless ((harmless_settleOrphaned _ _).map _)
  | normalizeAfterBoot | resumeWithSession | switchConfigWrite =>
    exact harmless ((harmless_edit _ _ _).map _)
  | reconcile => exact harmless ((harmless_reconcileProject _).map _)
  | acknowledge => exact harmless ((harmless_acknowledge _ _).map _)

/-- A healthy outside whose disk takes no more lists. -/
def fullDisk (now : ℕ) : Env :=
  { Env.quiet now with publish := fun _ => { PublishAnswer.yes with
      list := { WriteAnswer.yes with fault := some (.failed "full") } } }

/-- Two tasks, a run of the first cut off by a restart and not yet acknowledged. -/
def cutOffTask : World :=
  (exec (call .plain (.quiet 2) (.reconcile "p"))
    (.new (exec (call .plain (.quiet 1) (startOf "a" "k")) twoTasks).2.disk)).2

set_option maxRecDepth 8000 in
/-- A rename that a full disk refuses can be made again. -/
theorem refused_rename_leftNoTrace :
    ListRefused cutOffTask (exec (call .plain (fullDisk 3)
      (.intent "p" (.rename "a" "new" none) .commit)) cutOffTask) ∧
    LeftNoTrace .plain (.intent "p" (.rename "a" "new" none) .commit) cutOffTask
      (exec (call .plain (fullDisk 3) (.intent "p" (.rename "a" "new" none) .commit))
        cutOffTask).2 := by
  have hr : ListRefused cutOffTask (exec (call .plain (fullDisk 3)
      (.intent "p" (.rename "a" "new" none) .commit)) cutOffTask) :=
    ⟨_, ⟨_, rfl, rfl⟩, .inl rfl⟩
  exact ⟨hr, (refused_leftNoTrace_iff _ _ _ _ hr).mpr trivial⟩

set_option maxRecDepth 8000 in
/-- A start that a full disk refuses has used up a number, and a refused delete has forgotten
that a run of the task is still to be acknowledged. -/
theorem refused_calls_leave_traces :
    ListRefused twoTasks (exec (call .plain (fullDisk 3) (startOf "a" "k")) twoTasks) ∧
    twoTasks.ledger.peekGeneration "a" = 0 ∧
    (exec (call .plain (fullDisk 3) (startOf "a" "k")) twoTasks).2.ledger.peekGeneration "a" = 1 ∧
    ListRefused cutOffTask (exec (call .plain (fullDisk 3) (.delete "p" ["a"])) cutOffTask) ∧
    (cutOffTask.ledger.awaiting "a").isSome ∧
    (exec (call .plain (fullDisk 3) (.delete "p" ["a"])) cutOffTask).2.ledger.awaiting "a" = none := by
  exact ⟨⟨_, ⟨_, rfl, rfl⟩, .inl rfl⟩, by decide, by decide, ⟨_, ⟨_, rfl, rfl⟩, .inl rfl⟩, by decide,
    by decide⟩

end Aeroric.TaskRefusal
