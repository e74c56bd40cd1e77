import Aeroric.TaskRuns

/-! The exit of a run: when it settles its task, and when it leaves the task open. -/
namespace Aeroric.TaskExit

open TaskRecord TaskReducer TaskEdit TaskLaunch TaskLedger TaskStorage TaskWorld TaskService
open TaskInterface TaskSpec TaskCommit TaskLaunched TaskCalls TaskFrame TaskRuns
open Call (exec)

variable {c : Context} {env : Env} {w w' : World} {p t : String} {g : ℕ} {code : Option ℤ}
  {persist : Persist}

/-- The list can be read, and the run is the task's newest attempt or still holds a claim. -/
def Heard (env : Env) (p t : String) (g : ℕ) (w : World) : Prop :=
  (loadStamped (env.read .main) w.disk p).isOk ∧
    (g = w.ledger.peekGeneration t ∨ w.ledger.isLive t g = true)

def exitList (env : Env) (p t : String) (status : TaskStatus) (reason : Option String)
    (w : World) : Transition :=
  applyStatusTransition (stored w p) t status none reason (env.clock .main)

/-- The status an exit is taken as: its own, or that of a run that goes on. -/
def exitStatus (t : String) (g : ℕ) (code : Option ℤ) (l : Ledger) : TaskStatus :=
  if l.liveOtherThan t g = [] then (settledByExit code).1 else .running

lemma heard_iff_admits (hle : g ≤ w.ledger.peekGeneration t) :
    Admits env p (.exit t g code) w ↔ Heard env p t g w := by
  unfold Admits Heard isStale
  simp only [TaskEvent.taskId, TaskEvent.generation, Bool.and_eq_false_iff, Bool.not_eq_false',
    and_congr_right_iff]
  refine fun _ => ⟨fun h => h.1.imp (fun hlt => ?_) id, fun h => ⟨h.imp (fun heq => ?_) id, hle⟩⟩
  · exact le_antisymm hle (not_lt.mp (of_decide_eq_false hlt))
  · exact decide_eq_false (by omega)

lemma admittedStatus_exit (l : Ledger) : admittedStatus l (.exit t g code) (settledByExit code).1 =
    exitStatus t g code l := by
  unfold admittedStatus exitStatus
  rw [settledByExit_isTerminal]
  simp only [TaskEvent.taskId, TaskEvent.generation, Bool.true_and]
  cases l.liveOtherThan t g <;> simp

variable {r : Except TaskError (EventOutcome × Applied)}

/-- The three ways an exit of a known run ends: it is not heard, it is no news, or it is stored. -/
lemma exit_cases (hle : g ≤ w.ledger.peekGeneration t)
    (h : Observed c env p (.exit t g code) persist w r w') :
    (¬ Heard env p t g w ∧ w' = w ∧ ∀ status changed reason a,
      r ≠ .ok (.applied status changed reason, a)) ∨
    (Heard env p t g w ∧
      (exitList env p t (exitStatus t g code w.ledger) (settledByExit code).2 w).changed = false ∧
      w'.disk.tasks = w.disk.tasks ∧
      ∃ a, r = .ok (.applied (exitStatus t g code w.ledger) false (settledByExit code).2, a)) ∨
    (Heard env p t g w ∧
      (exitList env p t (exitStatus t g code w.ledger) (settledByExit code).2 w).changed = true ∧
      ∃ w1 r1, w1.disk.tasks = w.disk.tasks ∧ w1.disk.runtime = w.disk.runtime ∧
        exec (storeObserved c env p persist
          (exitList env p t (exitStatus t g code w.ledger) (settledByExit code).2 w).records) w1 =
          (r1, w') ∧
        r = r1.map fun a => (.applied (exitStatus t g code w.ledger) true (settledByExit code).2, a)) := by
  have hruntime : (settledFor env (.exit t g code) (settledByExit code).1 w).disk.runtime =
      w.disk.runtime := by
    unfold settledFor
    split
    · exact storeLedger_runtime _ _ _
    · rfl
  cases h with
  | unreadable e hl =>
    refine .inl ⟨fun hh => ?_, rfl, fun _ _ _ _ => by simp⟩
    simp [Heard, hl, Except.isOk, Except.toBool] at hh
  | stale a hl hstale =>
    refine .inl ⟨fun hh => ?_, rfl, fun _ _ _ _ => by simp⟩
    exact Bool.false_ne_true (((heard_iff_admits hle).mpr hh).2.1.symm.trans hstale)
  | future e hl hlt => exact absurd hlt (not_lt.mpr hle)
  | ready a hadm hnone => cases hnone
  | unattended a hadm reported attention reason hrep => cases hrep
  | unmoved a hadm reported attention reason guarded hrep hmoved =>
    cases hrep
    unfold observedList at hmoved
    rw [admittedStatus_exit] at hmoved ⊢
    exact .inr (.inl ⟨(heard_iff_admits hle).mp hadm, hmoved, tasks_settledFor _ _ w, a, rfl⟩)
  | moved hadm reported attention reason guarded hrep hmoved r1 w' hstore =>
    cases hrep
    unfold observedList at hmoved hstore
    rw [admittedStatus_exit] at hmoved hstore ⊢
    exact .inr (.inr ⟨(heard_iff_admits hle).mp hadm, hmoved, _, r1, tasks_settledFor _ _ w, hruntime,
      hstore, rfl⟩)

lemma exitList_ended (env : Env) {status : TaskStatus} (hs : status.isTerminal = true) {r : Record}
    (hrow : find (stored w p) t = some r) (reason : Option String) :
    (find (exitList env p t status reason w).records t).bind statusOf = some status := by
  unfold exitList
  rw [find_applyStatusTransition, hrow, Option.map_some, Option.bind_some]
  cases he : statusEdit status none reason (env.clock .main) r with
  | none => exact ((statusEdit_eq_none_iff hs none reason _ r).mp he).1
  | some s => exact statusEdit_statusOf he

lemma exitList_running (env : Env) (w : World) (p t : String) (reason : Option String) :
    (find (exitList env p t .running reason w).records t).any ended = false := by
  unfold exitList
  rw [find_applyStatusTransition]
  cases find (stored w p) t with
  | none => rfl
  | some r =>
    simp only [Option.map_some, Option.any_some]
    cases he : statusEdit .running none reason (env.clock .main) r with
    | none => exact statusEdit_running_none he
    | some s => simp [ended, statusEdit_statusOf he, TaskStatus.isTerminal]

lemma exitList_changed (env : Env) {status : TaskStatus} (hs : status.isTerminal = true)
    (reason : Option String) : (exitList env p t status reason w).changed = false ↔
      ∀ r ∈ stored w p, r.id = some t → EndedAs status r := by
  unfold exitList
  rw [applyStatusTransition_changed]
  exact forall₂_congr fun r _ => by rw [statusEdit_eq_none_iff hs]

lemma stores_congr {answer : PublishAnswer} {d e : Disk} (ht : d.tasks = e.tasks)
    (hr : d.runtime = e.runtime) :
    Stores c answer p d persist ↔ Stores c answer p e persist := by
  cases persist with
  | commit =>
    have hsave : listRefusal c answer p d .commit = listRefusal c answer p e .commit :=
      listRefusal_congr ht hr p .commit
    simp only [listRefusal] at hsave
    simp only [Stores, Grants, hsave, bumpFrom_runtime answer.table hr]
  | viaHost | decideOnly => exact Iff.rfl

/-- The exit is taken as the end of the task, and the row says so. -/
def Settles (c : Context) (env : Env) (p t : String) (g : ℕ) (code : Option ℤ) (persist : Persist)
    (w : World) : Prop :=
  (∃ changed reason a, (exec (applyObservation c env p (.exit t g code) persist) w).1 =
    .ok (.applied (settledByExit code).1 changed reason, a)) ∧
  (find (stored (exec (applyObservation c env p (.exit t g code) persist) w).2 p) t).bind statusOf =
    some (settledByExit code).1

/-- The end has nothing to store, or can be stored; a call that only decides leaves the row to
its host. -/
def Storable (c : Context) (env : Env) (p t : String) (status : TaskStatus) (persist : Persist)
    (w : World) : Prop :=
  (∀ r ∈ stored w p, r.id = some t → EndedAs status r) ∨
    if persist = .decideOnly then (find (stored w p) t).bind statusOf = some status
    else Stores c (env.publish .main) p w.disk persist

lemma settles_iff (hle : g ≤ w.ledger.peekGeneration t) (hlast : w.ledger.liveOtherThan t g = []) :
    Settles c env p t g code persist w ↔ Heard env p t g w ∧ (find (stored w p) t).isSome ∧
      Storable c env p t (settledByExit code).1 persist w := by
  have hstatus : exitStatus t g code w.ledger = (settledByExit code).1 := if_pos hlast
  have hterm := settledByExit_isTerminal code
  have hobs : Observed c env p (.exit t g code) persist w _ _ :=
    applyObservation_observed p (.exit t g code) persist w
  unfold Settles
  generalize (exec (applyObservation c env p (.exit t g code) persist) w).1 = r at hobs ⊢
  generalize (exec (applyObservation c env p (.exit t g code) persist) w).2 = w' at hobs ⊢
  rcases exit_cases hle hobs with ⟨hno, -, hr⟩ | ⟨hheard, hsame, htasks, a, rfl⟩ |
    ⟨hheard, hmoved, w1, r1, ht1, hr1, hstore, rfl⟩
  · refine iff_of_false ?_ fun h => hno h.1
    rintro ⟨⟨_, _, _, h⟩, -⟩
    exact hr _ _ _ _ h
  · rw [hstatus] at hsame ⊢
    rw [exitList_changed env hterm] at hsame
    have hstored : stored w' p = stored w p := by rw [stored, htasks, stored]
    rw [hstored]
    cases hrow : find (stored w p) t with
    | none => simp
    | some row =>
      have hended := hsame row (List.mem_of_find?_eq_some hrow) (find_id hrow)
      exact iff_of_true ⟨⟨false, _, a, rfl⟩, hended.1⟩ ⟨hheard, rfl, .inl hsame⟩
  · rw [hstatus] at hmoved hstore ⊢
    have hnot : ¬ ∀ r ∈ stored w p, r.id = some t → EndedAs (settledByExit code).1 r := by
      rw [← exitList_changed env hterm (settledByExit code).2, hmoved]
      exact Bool.noConfusion
    have hsome : (find (stored w p) t).isSome := by
      by_contra hnone
      refine hnot fun r hr hid => absurd ?_ hnone
      exact List.find?_isSome.mpr ⟨r, hr, by simpa using hid⟩
    obtain ⟨row, hrow⟩ := Option.isSome_iff_exists.mp hsome
    have hrecords := exitList_ended env hterm hrow (settledByExit code).2
    simp only [Storable, hnot, hsome, hheard, true_and, false_or]
    split
    · next hmode =>
      -- only decided: the answer is the end, and the row is still the one that was there
      subst hmode
      obtain ⟨rfl, rfl⟩ := Prod.mk.inj hstore
      have hstored : stored w1 p = stored w p := by rw [stored, ht1, stored]
      rw [hstored]
      exact ⟨And.right, fun h => ⟨⟨true, _, _, rfl⟩, h⟩⟩
    · next hmode =>
      have hpersist : storeObserved c env p persist
          (exitList env p t (settledByExit code).1 (settledByExit code).2 w).records =
          persistLaunch c (env.publish .main) p persist
          (exitList env p t (settledByExit code).1 (settledByExit code).2 w).records := by
        cases persist with
        | commit | viaHost => rfl
        | decideOnly => exact absurd rfl hmode
      rw [hpersist] at hstore
      rw [← stores_congr ht1 hr1]
      rcases persistLaunch_cases c (env.publish .main) p persist
        (l := (exitList env p t (settledByExit code).1 (settledByExit code).2 w).records)
        (by rintro hnil; simp [hnil, find] at hrecords) w1 with
        ⟨hs, a, w2, hexec, hstored⟩ | ⟨hs, e, w2, hexec⟩
      · obtain ⟨rfl, rfl⟩ := Prod.mk.inj (hexec.symm.trans hstore)
        refine iff_of_true ⟨⟨true, _, a, rfl⟩, ?_⟩ hs
        rw [hstored, status_stamped]
        exact hrecords
      · obtain ⟨rfl, rfl⟩ := Prod.mk.inj (hexec.symm.trans hstore)
        refine iff_of_false ?_ hs
        rintro ⟨⟨_, _, _, h⟩, -⟩
        cases h

lemma liveOtherThan_eq_nil_iff {s : Tracked} (hs : Known s) :
    s.world.ledger.liveOtherThan t g = [] ↔ ¬ ∃ run ∈ s.live, run.taskId = t ∧
      run.generation ≠ g ∧ s.world.ledger.isLive t run.generation = true := by
  unfold Ledger.liveOtherThan Ledger.isLive
  rw [List.map_eq_nil_iff, List.filter_eq_nil_iff]
  constructor
  · rintro hnone ⟨run, -, rfl, hne, hclaim⟩
    obtain ⟨cl, hcl, hmatch⟩ := List.any_eq_true.mp hclaim
    simp only [Bool.and_eq_true, decide_eq_true_eq] at hmatch
    exact hnone cl hcl (by simp [hmatch.1, hmatch.2, hne, (hs.claims cl hcl).1])
  · intro hno cl hcl hmatch
    simp only [Bool.and_eq_true, decide_eq_true_eq, ne_eq] at hmatch
    obtain ⟨⟨rfl, hne⟩, -⟩ := hmatch
    exact hno ⟨⟨cl.taskId, cl.generation⟩, (hs.claims cl hcl).2, rfl, hne,
      List.any_eq_true.mpr ⟨cl, hcl, by simp⟩⟩

/-- In every history the exit of the last run that is up settles its task exactly when it is
heard (the list can be read, and the run is the newest attempt or still holds its claim), the
row is there, and the end can be stored. -/
theorem exit_settles_iff {w0 : World} (h0 : w0.ledger.claims = []) {s : Tracked}
    (h : Relation.ReflTransGen (RunStep c) ⟨w0, []⟩ s) (hlive : ⟨t, g⟩ ∈ s.live)
    (hlast : ∀ run ∈ s.live, run.taskId = t → run.generation = g) (env : Env) (p : String)
    (code : Option ℤ) (persist : Persist) :
    Settles c env p t g code persist s.world ↔ Heard env p t g s.world ∧
      (find (stored s.world p) t).isSome ∧
      Storable c env p t (settledByExit code).1 persist s.world := by
  have hs := Known.of_history h0 h
  refine settles_iff (hs.bound _ hlive) ((liveOtherThan_eq_nil_iff hs).mpr ?_)
  rintro ⟨run, hrun, ht, hne, -⟩
  exact hne (hlast run hrun ht)

/-- One task of a local project, nothing started. -/
def oneTask : World := .new (Disk.holding "p" [plainRow "p" "a" .todo])

/-- The task started under a key, with this answer of the executor. -/
def started (key : String) (executor : Option ExecutorFailure) (s : Tracked) : Tracked :=
  s.launched (exec (startAs .plain { Env.quiet 5 with executor } localProject "a" key true .plain
    .commit) s.world).2

/-- The terminal of a run reported as ready. -/
def ready (g : ℕ) (s : Tracked) : Tracked :=
  ⟨(exec (applyObservation .plain (.quiet 5) "p" (.terminalReady "a" g) .commit) s.world).2, s.live⟩

lemma started_step (key : String) (executor : Option ExecutorFailure) (s : Tracked) :
    RunStep .plain s (started key executor s) := .start s _ _ _ _ _ _ _

lemma ready_step (g : ℕ) (s : Tracked) : RunStep .plain s (ready g s) :=
  .report s _ _ _ _ fun _ _ _ => nofun

set_option maxRecDepth 8000 in
theorem single_run_settles : ⟨"a", 1⟩ ∈ (started "k1" none ⟨oneTask, []⟩).live ∧
    Settles .plain (.quiet 9) "p" "a" 1 (some 0) .commit (started "k1" none ⟨oneTask, []⟩).world := by
  refine ⟨by decide, (exit_settles_iff rfl (.single (started_step "k1" none ⟨oneTask, []⟩))
    (by decide) (by decide) (.quiet 9) "p" (some 0) .commit).mpr ⟨⟨by decide, by decide⟩, by decide,
    .inr ?_⟩⟩
  exact ⟨by decide, by decide, rfl, rfl⟩

/-- A run is up and its terminal is ready; a second launch fails. -/
def overtaken : Tracked := started "k2" (some (.spawn "no")) (ready 1 (started "k1" none ⟨oneTask, []⟩))

set_option maxRecDepth 8000 in
/-- The exit of the only run that is up is dropped as stale, and the row does not end as it. -/
theorem overtaken_exit_dropped : oneTask.ledger.claims = [] ∧
    Relation.ReflTransGen (RunStep .plain) ⟨oneTask, []⟩ overtaken ∧
    overtaken.live = [⟨"a", 1⟩] ∧
    (exec (applyObservation .plain (.quiet 9) "p" (.exit "a" 1 (some 0)) .commit)
      overtaken.world).1.toOption.map Prod.fst = some (.dropped "stale generation") ∧
    ¬ Settles .plain (.quiet 9) "p" "a" 1 (some 0) .commit overtaken.world := by
  refine ⟨rfl, ?_, by decide, by decide, fun h => ?_⟩
  · exact ((Relation.ReflTransGen.single (started_step _ _ _)).tail (ready_step _ _)).tail
      (started_step _ _ _)
  · have hstatus := h.2
    revert hstatus
    decide

def Lands (c : Context) (env : Env) (p t : String) (g : ℕ) (persist : Persist) (w : World) : Prop :=
  Heard env p t g w ∧ (find (stored w p) t).isSome ∧ persist ≠ .decideOnly ∧
    listRefusal c (env.publish .main) p w.disk persist = none

lemma ended_of_status {r : Record} {status : TaskStatus} (h : statusOf r = some status) :
    ended r = status.isTerminal := by
  simp [ended, h]

/-- The row after an exit that lands has ended exactly when no other run held the task open. -/
lemma exit_lands (hle : g ≤ w.ledger.peekGeneration t) (hlands : Lands c env p t g persist w)
    (h : Observed c env p (.exit t g code) persist w r w') :
    (find (stored w' p) t).any ended = false ↔ w.ledger.liveOtherThan t g ≠ [] := by
  have hterm := settledByExit_isTerminal code
  obtain ⟨hheard, hsome, hmode, haccept⟩ := hlands
  obtain ⟨row, hrow⟩ := Option.isSome_iff_exists.mp hsome
  have hrecords : (find (exitList env p t (exitStatus t g code w.ledger) (settledByExit code).2
      w).records t).any ended = false ↔ w.ledger.liveOtherThan t g ≠ [] := by
    unfold exitStatus
    split
    · next hnil =>
      have hend := exitList_ended env hterm hrow (settledByExit code).2
      obtain ⟨row', hrow', hstatus⟩ := Option.bind_eq_some_iff.mp hend
      simp [hrow', ended_of_status hstatus, hterm, hnil]
    · next hne => exact iff_of_true (exitList_running env w p t _) hne
  rcases exit_cases hle h with ⟨hno, -, -⟩ | ⟨-, hsame, htasks, -⟩ |
    ⟨-, hmoved, w1, r1, ht1, hr1, hstore, -⟩
  · exact absurd hheard hno
  · -- no news: the transition is the list that was there
    have hlist : (exitList env p t (exitStatus t g code w.ledger) (settledByExit code).2 w).records =
        stored w p := by
      unfold exitList applyStatusTransition at hsame ⊢
      simp only [mapRows] at hsame ⊢
      rw [hsame]
      rfl
    rw [stored, htasks, ← stored, ← hlist]
    exact hrecords
  · have hpub := storeObserved_published c env p persist
      (exitList env p t (exitStatus t g code w.ledger) (settledByExit code).2 w).records w1
    rw [hstore, listRefusal_congr ht1 hr1, haccept] at hpub
    rw [hpub.stored_of_accepted hmode, ← hrecords]
    rcases (stampGenerationCopies_edit w1.ledger (exitList env p t (exitStatus t g code w.ledger)
      (settledByExit code).2 w).records).find (by decide) t with ⟨h1, h2⟩ | ⟨r1, r2, h1, h2, he⟩
    · rw [h1, h2]
    · simp only [h1, h2, Option.any_some, ended, he.1.statusOf (by decide : "status" ∉ ["generation"])]

lemma exit_not_lands (hle : g ≤ w.ledger.peekGeneration t) (hlands : ¬ Lands c env p t g persist w)
    (h : Observed c env p (.exit t g code) persist w r w') : stored w' p = stored w p := by
  rcases exit_cases hle h with ⟨-, rfl, -⟩ | ⟨-, -, htasks, -⟩ |
    ⟨hheard, hmoved, w1, r1, ht1, hr1, hstore, -⟩
  · rfl
  · rw [stored, htasks, stored]
  · have hsome : (find (stored w p) t).isSome := by
      by_contra hnone
      have hsame : (exitList env p t (exitStatus t g code w.ledger) (settledByExit code).2 w).changed
          = false := by
        unfold exitList
        rw [applyStatusTransition_changed]
        exact fun r hr hid => absurd (List.find?_isSome.mpr ⟨r, hr, by simpa using hid⟩) hnone
      exact Bool.false_ne_true (hsame.symm.trans hmoved)
    have hpub := storeObserved_published c env p persist
      (exitList env p t (exitStatus t g code w.ledger) (settledByExit code).2 w).records w1
    rw [hstore, listRefusal_congr ht1 hr1] at hpub
    have htasks : w'.disk.tasks = w1.disk.tasks := by
      by_cases hmode : persist = .decideOnly
      · subst hmode
        exact congrArg (fun x => x.2.disk.tasks) hstore.symm
      · cases hrefusal : listRefusal c (env.publish .main) p w.disk persist with
        | none => exact absurd ⟨hheard, hsome, hmode, hrefusal⟩ hlands
        | some e =>
          rw [hrefusal] at hpub
          exact hpub.tasks_of_refused
    rw [stored, htasks, ht1, stored]

/-- In every history an exit leaves its task open exactly when it lands while another run that
is up still holds its claim, or does not land and the task was open before. -/
theorem exit_leaves_open_iff {w0 : World} (h0 : w0.ledger.claims = []) {s : Tracked}
    (h : Relation.ReflTransGen (RunStep c) ⟨w0, []⟩ s) (hlive : ⟨t, g⟩ ∈ s.live) (env : Env)
    (p : String) (code : Option ℤ) (persist : Persist) :
    (find (stored (exec (applyObservation c env p (.exit t g code) persist) s.world).2 p) t).any
        ended = false ↔
      (Lands c env p t g persist s.world → ∃ run ∈ s.live, run.taskId = t ∧ run.generation ≠ g ∧
        s.world.ledger.isLive t run.generation = true) ∧
      (¬ Lands c env p t g persist s.world → (find (stored s.world p) t).any ended = false) := by
  have hs := Known.of_history h0 h
  have hle := hs.bound _ hlive
  have hobs : Observed c env p (.exit t g code) persist s.world _ _ :=
    applyObservation_observed p (.exit t g code) persist s.world
  by_cases hlands : Lands c env p t g persist s.world
  · rw [exit_lands hle hlands hobs, ne_eq, liveOtherThan_eq_nil_iff hs, not_not]
    simp [hlands]
  · simp only [hlands, false_implies, true_and, not_false_eq_true, true_implies]
    rw [exit_not_lands hle hlands hobs]

/-- Two runs are up, the terminal of the first is ready. -/
def overlapping : Tracked := started "k2" none (ready 1 (started "k1" none ⟨oneTask, []⟩))

set_option maxRecDepth 8000 in
/-- The exit of the second run ends the task while the first is up. -/
theorem overlapping_exit_ends_task : oneTask.ledger.claims = [] ∧
    Relation.ReflTransGen (RunStep .plain) ⟨oneTask, []⟩ overlapping ∧
    overlapping.live = [⟨"a", 1⟩, ⟨"a", 2⟩] ∧
    (find (stored (exec (applyObservation .plain (.quiet 9) "p" (.exit "a" 2 (some 0)) .commit)
      overlapping.world).2 "p") "a").any ended = true := by
  refine ⟨rfl, ?_, by decide, by decide⟩
  exact ((Relation.ReflTransGen.single (started_step _ _ _)).tail (ready_step _ _)).tail
    (started_step _ _ _)

/-- Two runs are up and both hold their claims. -/
def bothClaimed : Tracked := started "k2" none (started "k1" none ⟨oneTask, []⟩)

set_option maxRecDepth 8000 in
theorem claimed_exit_leaves_open : bothClaimed.live = [⟨"a", 1⟩, ⟨"a", 2⟩] ∧
    (find (stored (exec (applyObservation .plain (.quiet 9) "p" (.exit "a" 2 (some 0)) .commit)
      bothClaimed.world).2 "p") "a").any ended = false := by
  refine ⟨by decide, (exit_leaves_open_iff (s := bothClaimed) rfl
    ((Relation.ReflTransGen.single (started_step _ _ _)).tail (started_step _ _ _)) (by decide)
    (.quiet 9) "p" (some 0) .commit).mpr ⟨fun _ => ?_, fun hno => absurd ?_ hno⟩⟩
  · exact ⟨⟨"a", 1⟩, by decide, rfl, by decide, by decide⟩
  · exact ⟨⟨by decide, by decide⟩, by decide, by decide, by decide⟩

end Aeroric.TaskExit
