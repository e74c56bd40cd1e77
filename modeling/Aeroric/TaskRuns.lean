import Aeroric.TaskCommit
import Aeroric.TaskCalls
import Aeroric.TaskFrame

/-! Runs of a task: the processes that came up and whose exit has not been applied yet, beside
the claims the ledger keeps of them. -/
namespace Aeroric.TaskRuns

open TaskRecord TaskReducer TaskEdit TaskLaunch TaskLedger TaskStorage TaskWorld TaskService
open TaskInterface TaskSpec TaskCommit TaskLaunched TaskCalls TaskFrame
open Call (exec)

variable {c : Context} {env : Env} {w w' : World} {p t key : String} {kind : OperationKind}
  {pbl : Bool} {persist : Persist} {project : Project}

lemma filter_unclaimed {l : Ledger} (h : l.openClaim t kind key = none) :
    l.claims.filter (fun cl => decide (cl.key ≠ attemptKey t kind key)) = l.claims := by
  unfold Ledger.openClaim at h
  rw [List.find?_eq_none] at h
  exact List.filter_eq_self.mpr fun cl hcl => by simpa using h cl hcl

def newClaim (env : Env) (t : String) (kind : OperationKind) (key : String) (w : World) : Claim :=
  ⟨t, kind, key, w.ledger.peekGeneration t + 1, env.clock .main⟩

/-- The call is for this attempt, and when it was made the row stood as pending on disk. -/
structure CallFor (p t : String) (kind : OperationKind) (key : String) (g : ℕ)
    (call : ExecutorCall) : Prop where
  attempt : attemptOf call.request = some (t, kind, key, g)
  pending : (find (rowsOf (call.tasks p)) t).bind statusOf = some .pending

/-- What a launch does to the ledger and the executor: nothing; or the counter moves on and no
process comes up, the executor asked in vain or not at all; or a process comes up, and its
claim stays when the launch is to be acknowledged by the terminal. -/
inductive LaunchEffect (guard : Prop) (env : Env) (p t : String) (kind : OperationKind)
    (key : String) (pbl : Bool) (w w' : World) : Prop
  | nothing (hguard : ¬ guard) (hw : w' = w)
  | attempt (hopen : w.ledger.openClaim t kind key = none)
      (hgen : w'.ledger.generations =
        Function.update w.ledger.generations t (w.ledger.peekGeneration t + 1))
      (hclaims : w'.ledger.claims = w.ledger.claims)
      (hcalls : w'.calls = w.calls ∨ ∃ call, call.failure.isSome ∧
        CallFor p t kind key (w.ledger.peekGeneration t + 1) call ∧ w'.calls = w.calls ++ [call])
  | process (hopen : w.ledger.openClaim t kind key = none)
      (hgen : w'.ledger.generations =
        Function.update w.ledger.generations t (w.ledger.peekGeneration t + 1))
      (hclaims : w'.ledger.claims =
        if pbl then w.ledger.claims ++ [newClaim env t kind key w] else w.ledger.claims)
      (call : ExecutorCall) (hcall : call.failure = none)
      (hfor : CallFor p t kind key (w.ledger.peekGeneration t + 1) call)
      (hcalls : w'.calls = w.calls ++ [call])

lemma acknowledge_ledger (answer : WriteAnswer) (t : String) (w : World) :
    (exec (acknowledge answer t) w).2.ledger = w.ledger.acknowledge t := by
  simp only [acknowledge, Call.exec_modify]
  split
  · rfl
  · next h =>
    have hnone : w.ledger.awaiting t = none := by simpa using h
    unfold Ledger.awaiting at hnone
    rw [List.find?_eq_none] at hnone
    unfold Ledger.acknowledge
    rw [List.filter_eq_self.mpr fun a ha => by simpa using hnone a ha]

lemma acknowledge_calls (answer : WriteAnswer) (t : String) (w : World) :
    (exec (acknowledge answer t) w).2.calls = w.calls := by
  simp only [acknowledge, Call.exec_modify]
  split <;> rfl

lemma acknowledged_ledger (env : Env) (t : String) (kind : OperationKind) (w : World) :
    (acknowledged env t kind w).ledger.claims = w.ledger.claims ∧
      (acknowledged env t kind w).ledger.generations = w.ledger.generations ∧
      (acknowledged env t kind w).calls = w.calls := by
  unfold acknowledged
  split
  · rw [acknowledge_ledger, acknowledge_calls]
    exact ⟨rfl, rfl, rfl⟩
  · exact ⟨rfl, rfl, rfl⟩

lemma marked_ledger (c : Context) (env : Env) (persist : Persist) (failure : ExecutorFailure)
    (q t : String) (w : World) : (marked c env persist failure q t w).ledger = w.ledger ∧
      (marked c env persist failure q t w).calls = w.calls := by
  unfold marked
  split
  · exact ⟨(persistLaunch_published _ _ _ _ w).ledger, (persistLaunch_published _ _ _ _ w).calls⟩
  · exact ⟨rfl, rfl⟩

lemma saveLaunch_ledger {record : Record} {r : Except TaskError Applied} {w1 : World}
    (hopen : w.ledger.openClaim t kind key = none)
    (hsave : saveLaunch c env project t kind key persist record w = (r, w1)) :
    w1.ledger = ⟨w.ledger.claims ++ [newClaim env t kind key w],
      Function.update w.ledger.generations t (w.ledger.peekGeneration t + 1),
      w.ledger.awaitingAcknowledgement⟩ ∧ w1.calls = w.calls := by
  have hpub := persistLaunch_published (c := c) (env.publish .main) (project.id.getD "") persist
    (updateFirst t (fun _ => prepareForLaunch record kind) (stored w (project.id.getD "")))
    (taken t kind key (env.clock .main) w)
  unfold saveLaunch at hsave
  rw [hsave] at hpub
  refine ⟨hpub.ledger.trans ?_, hpub.calls⟩
  unfold taken
  rw [takeAttempt_new hopen]
  rfl

lemma settle_newClaim (hopen : w.ledger.openClaim t kind key = none) :
    (w.ledger.claims ++ [newClaim env t kind key w]).filter
      (fun cl => decide (cl.key ≠ attemptKey t kind key)) = w.ledger.claims := by
  rw [List.filter_append, filter_unclaimed hopen]
  simp [newClaim, Claim.key]

lemma find_updateFirst {l : List Record} {f : Record → Record} {r : Record}
    (hf : ∀ r, (f r).id = some t) (h : find l t = some r) :
    find (updateFirst t f l) t = some (f r) := by
  induction l with
  | nil => simp [find] at h
  | cons x xs ih =>
    unfold TaskReducer.updateFirst
    split
    · next hx =>
      obtain rfl : x = r := by simpa [find, hx] using h
      simp [find, hf]
    · next hx => simpa [find, hx] using ih (by simpa [find, hx] using h)

lemma status_stamped (ledger : Ledger) (l : List Record) (t : String) :
    (find (stampGenerationCopies ledger l) t).bind statusOf = (find l t).bind statusOf := by
  rcases (stampGenerationCopies_edit ledger l).find (by decide) t with ⟨h, h'⟩ | ⟨r, s, h, h', hrow⟩
  · rw [h, h']
  · rw [h, h']
    exact hrow.1.statusOf (by decide)

lemma saved_pending {record : Record} {a : Applied} {w1 : World}
    (hrow : find (stored w (project.id.getD "")) t = some record)
    (hsave : saveLaunch c env project t kind key persist record w = (.ok a, w1)) :
    (find (stored w1 (project.id.getD "")) t).bind statusOf = some .pending := by
  have hprep : (prepareForLaunch record kind).id = some t :=
    ((prepareForLaunch_agreesOff record kind).id (by decide)).trans (find_id hrow)
  have hstatus : statusOf (prepareForLaunch record kind) = some .pending := by
    simp [statusOf, Record.strField, (prepareForLaunch_prepared record kind).1, TaskStatus.value,
      Value.asStr]
  unfold saveLaunch at hsave
  rcases persistLaunch_cases c (env.publish .main) (project.id.getD "") persist
    (prepared_ne_nil hrow fun _ => prepareForLaunch record kind)
    (taken t kind key (env.clock .main) w) with ⟨-, a', w', hexec, hstored⟩ | ⟨-, e, w', hexec⟩
  swap
  · cases hexec.symm.trans hsave
  obtain rfl : w' = w1 := congrArg Prod.snd (hexec.symm.trans hsave)
  rw [hstored, status_stamped, find_updateFirst (fun _ => hprep) hrow]
  exact hstatus

lemma launched_effect {guard : Prop} {r : Except TaskError Applied}
    (h : Launched guard c env project t kind key pbl persist w r w') :
    LaunchEffect guard env (project.id.getD "") t kind key pbl w w' := by
  cases h with
  | refused hno => exact .nothing hno rfl
  | unsaved _ hopen record hrow e w1 hsave =>
    obtain ⟨hl, hc⟩ := saveLaunch_ledger hopen hsave
    refine .attempt hopen ?_ ?_ (.inl hc)
    · simp only [mirrored, hl, Ledger.settle]
    · simp only [mirrored, hl, Ledger.settle, settle_newClaim hopen]
  | unspawned _ hopen record hrow applied w1 hsave e w2 hspawn =>
    obtain ⟨hl, hc⟩ := saveLaunch_ledger hopen hsave
    obtain ⟨hack, hackg, hackc⟩ := acknowledged_ledger env t kind w1
    have hpending := saved_pending hrow hsave
    rw [stored, ← acknowledged_tasks env t kind w1] at hpending
    cases hspawn with
    | unasked _ hq =>
      refine .attempt hopen ?_ ?_ (.inl (hackc.trans hc))
      · simp only [mirrored, Ledger.settle, hackg, hl]
      · simp only [mirrored, Ledger.settle, hack, hl, settle_newClaim hopen]
    | failed request hatt failure hexec q hq =>
      obtain ⟨hm, hmc⟩ := marked_ledger c env persist failure q t
        (asked (acknowledged env t kind w1) request (some failure))
      refine .attempt hopen ?_ ?_ (.inr
        ⟨⟨request, some failure, (acknowledged env t kind w1).disk.tasks⟩, rfl, ⟨hatt, hpending⟩, ?_⟩)
      · simp only [mirrored, Ledger.settle, hm]
        simp only [asked, hackg, hl]
      · simp only [mirrored, Ledger.settle, hm]
        simp only [asked, hack, hl, settle_newClaim hopen, filter_unclaimed hopen]
      · simp only [mirrored, hmc]
        simp only [asked, hackc, hc]
  | spawned _ hopen record hrow applied w1 hsave w2 hspawn =>
    obtain ⟨hl, hc⟩ := saveLaunch_ledger hopen hsave
    obtain ⟨hack, hackg, hackc⟩ := acknowledged_ledger env t kind w1
    have hpending := saved_pending hrow hsave
    rw [stored, ← acknowledged_tasks env t kind w1] at hpending
    cases hspawn with
    | up request hatt hexec =>
      refine .process hopen ?_ ?_ ⟨request, none, (acknowledged env t kind w1).disk.tasks⟩ rfl
        ⟨hatt, hpending⟩ ?_
      · cases pbl <;> simp only [mirrored, Ledger.settle, asked, hackg, hl, if_true,
          Bool.false_eq_true, if_false]
      · cases pbl <;> simp only [mirrored, Ledger.settle, asked, hack, hl, if_true,
          Bool.false_eq_true, if_false, settle_newClaim hopen]
      · cases pbl <;> simp only [mirrored, asked, hackc, hc, if_true, Bool.false_eq_true, if_false]

lemma settledFor_ledger (env : Env) (event : TaskEvent) (reported : TaskStatus) (w : World) :
    (settledFor env event reported w).ledger = (if reported.isTerminal then
      w.ledger.settleByGeneration event.taskId event.generation else w.ledger) ∧
    (settledFor env event reported w).calls = w.calls := by
  unfold settledFor
  split <;> exact ⟨rfl, rfl⟩

variable {r : Except TaskError (EventOutcome × Applied)}

lemma observed_effect {event : TaskEvent}
    (h : Observed c env p event persist w r w') : w'.calls = w.calls ∧
      (w'.ledger = w.ledger ∨
        w'.ledger = w.ledger.settleByGeneration event.taskId event.generation) := by
  have settled : ∀ reported, (settledFor env event reported w).calls = w.calls ∧
      ((settledFor env event reported w).ledger = w.ledger ∨
        (settledFor env event reported w).ledger =
          w.ledger.settleByGeneration event.taskId event.generation) := fun reported => by
    obtain ⟨hl, hc⟩ := settledFor_ledger env event reported w
    refine ⟨hc, ?_⟩
    rw [hl]
    split
    · exact .inr rfl
    · exact .inl rfl
  cases h with
  | unreadable | stale | future | unattended => exact ⟨rfl, .inl rfl⟩
  | ready => exact ⟨rfl, .inr rfl⟩
  | unmoved _ _ reported => exact settled reported
  | moved _ reported attention reason _ _ _ r w' hstore =>
    have hpub := storeObserved_published c env p persist
      (observedList env p event reported attention reason w).records
      (settledFor env event reported w)
    rw [hstore] at hpub
    rw [hpub.calls, hpub.ledger]
    exact settled reported

lemma observed_exit_claims {g : ℕ} {code : Option ℤ}
    (h : Observed c env p (.exit t g code) persist w r w')
    (hread : (loadStamped (env.read .main) w.disk p).isOk) (hle : g ≤ w.ledger.peekGeneration t) :
    ∀ cl ∈ w'.ledger.claims, cl ∈ w.ledger.claims ∧
      ¬ (cl.taskId = t ∧ cl.kind.spawns = true ∧ cl.generation = g) := by
  have settled : ∀ cl ∈ (w.ledger.settleByGeneration t g).claims, cl ∈ w.ledger.claims ∧
      ¬ (cl.taskId = t ∧ cl.kind.spawns = true ∧ cl.generation = g) := by
    intro cl hcl
    obtain ⟨hmem, hno⟩ := List.mem_filter.mp hcl
    exact ⟨hmem, fun ⟨h1, h2, h3⟩ => by simp [h1, h2, h3] at hno⟩
  cases h with
  | unreadable e hl => simp [hl, Except.isOk, Except.toBool] at hread
  | stale a hl hstale =>
    intro cl hcl
    refine ⟨hcl, fun ⟨h1, h2, h3⟩ => ?_⟩
    simp only [isStale, Bool.and_eq_true, Bool.not_eq_true', Ledger.isLive, List.any_eq_false] at hstale
    exact hstale.2 cl hcl (by simp [h1, h3, TaskEvent.taskId, TaskEvent.generation])
  | future e hl hlt => exact absurd hlt (not_lt.mpr hle)
  | ready a hadm hnone => cases hnone
  | unattended a hadm reported attention reason hrep => cases hrep
  | unmoved a hadm reported attention reason guarded hrep hmoved =>
    cases hrep
    rw [(settledFor_ledger env _ _ w).1, settledByExit_isTerminal]
    exact settled
  | moved hadm reported attention reason guarded hrep hmoved r w' hstore =>
    cases hrep
    have hpub := storeObserved_published c env p persist
      (observedList env p (.exit t g code) (settledByExit code).1 none (settledByExit code).2 w).records
      (settledFor env (.exit t g code) (settledByExit code).1 w)
    rw [hstore] at hpub
    rw [hpub.ledger, (settledFor_ledger env _ _ w).1, settledByExit_isTerminal]
    exact settled

/-- A process that came up for a task. -/
structure Run where
  taskId : String
  generation : ℕ
  deriving DecidableEq

def runOf (call : ExecutorCall) : Option Run :=
  if call.failure.isSome then none else (attemptOf call.request).map fun a => ⟨a.1, a.2.2.2⟩

def cameUp (w w' : World) : List Run := (w'.calls.drop w.calls.length).filterMap runOf

/-- The service beside the runs that are up: those whose exit has not been applied. -/
structure Tracked where
  world : World
  live : List Run

/-- After a launch: what came up is up. -/
def Tracked.launched (s : Tracked) (w' : World) : Tracked := ⟨w', s.live ++ cameUp s.world w'⟩

/-- One call of a history of launches and events. A run exits once; an exit that meets a list
it cannot read is not applied, and its run stays up. -/
inductive RunStep (c : Context) : Tracked → Tracked → Prop
  | start (s : Tracked) (env : Env) (project : Project) (t key : String) (pbl : Bool)
      (args : StartArgs) (persist : Persist) :
      RunStep c s (s.launched (exec (startAs c env project t key pbl args persist) s.world).2)
  | resume (s : Tracked) (env : Env) (project : Project) (t sessionId key : String) (pbl : Bool)
      (size : Option (ℕ × ℕ)) (persist : Persist) :
      RunStep c s
        (s.launched (exec (resumeAs c env project t sessionId key pbl size persist) s.world).2)
  | report (s : Tracked) (env : Env) (p : String) (event : TaskEvent) (persist : Persist)
      (hreport : ∀ t g code, event ≠ .exit t g code) :
      RunStep c s ⟨(exec (applyObservation c env p event persist) s.world).2, s.live⟩
  | exit (s : Tracked) (env : Env) (p t : String) (g : ℕ) (code : Option ℤ) (persist : Persist)
      (hlive : ⟨t, g⟩ ∈ s.live) :
      RunStep c s ⟨(exec (applyObservation c env p (.exit t g code) persist) s.world).2,
        if (loadStamped (env.read .main) s.world.disk p).isOk then
          s.live.filter (· ≠ ⟨t, g⟩) else s.live⟩

/-- What the ledger knows of the runs: every claim is of a run that is up, and no run is ahead
of its task's counter. -/
structure Known (s : Tracked) : Prop where
  claims : ∀ cl ∈ s.world.ledger.claims,
    cl.kind.spawns = true ∧ ⟨cl.taskId, cl.generation⟩ ∈ s.live
  bound : ∀ run ∈ s.live, run.generation ≤ s.world.ledger.peekGeneration run.taskId

lemma Known.init {w : World} (h : w.ledger.claims = []) : Known ⟨w, []⟩ :=
  ⟨fun _ hcl => absurd (h ▸ hcl) List.not_mem_nil, fun _ hrun => absurd hrun List.not_mem_nil⟩

lemma cameUp_append {call : ExecutorCall} (h : w'.calls = w.calls ++ [call]) :
    cameUp w w' = (runOf call).toList := by
  unfold cameUp
  rw [h, List.drop_left]
  cases hr : runOf call <;> simp [hr]

lemma cameUp_self (h : w'.calls = w.calls) : cameUp w w' = [] := by
  unfold cameUp
  rw [h, List.drop_length]
  rfl

lemma peekGeneration_le {l l' : Ledger} {n : ℕ}
    (h : l'.generations = Function.update l.generations t n) (hn : l.peekGeneration t ≤ n)
    (u : String) : l.peekGeneration u ≤ l'.peekGeneration u := by
  unfold Ledger.peekGeneration at *
  rw [h]
  by_cases hu : u = t
  · subst hu
    rwa [Function.update_self]
  · rw [Function.update_of_ne hu]

lemma Known.launched {s : Tracked} {guard : Prop} (hs : Known s) (hkind : kind.spawns = true)
    (h : LaunchEffect guard env p t kind key pbl s.world w') : Known (s.launched w') := by
  cases h with
  | nothing _ hw =>
    subst hw
    simpa [Tracked.launched, cameUp_self rfl] using hs
  | attempt hopen hgen hclaims hcalls =>
    have hnone : cameUp s.world w' = [] := by
      rcases hcalls with h | ⟨call, hfail, -, h⟩
      · exact cameUp_self h
      · rw [cameUp_append h, runOf, if_pos hfail]
        rfl
    simp only [Tracked.launched, hnone, List.append_nil]
    refine ⟨?_, fun run hrun => (hs.bound run hrun).trans
      (peekGeneration_le hgen (Nat.le_succ _) _)⟩
    rw [hclaims]
    exact hs.claims
  | process hopen hgen hclaims call hcall hfor hcalls =>
    have hrun : cameUp s.world w' = [⟨t, s.world.ledger.peekGeneration t + 1⟩] := by
      rw [cameUp_append hcalls, runOf, hcall, hfor.attempt]
      rfl
    simp only [Tracked.launched, hrun]
    constructor
    · intro cl hcl
      rw [hclaims] at hcl
      have hcases : cl ∈ s.world.ledger.claims ∨ cl = newClaim env t kind key s.world := by
        cases pbl
        · exact .inl (by simpa using hcl)
        · simpa using hcl
      rcases hcases with hold | rfl
      · exact ⟨(hs.claims cl hold).1, List.mem_append_left _ (hs.claims cl hold).2⟩
      · exact ⟨hkind, List.mem_append_right _ (List.mem_singleton_self _)⟩
    · intro run hrun
      rcases List.mem_append.mp hrun with hold | hnew
      · exact (hs.bound run hold).trans (peekGeneration_le hgen (Nat.le_succ _) _)
      · obtain rfl := List.mem_singleton.mp hnew
        simp [Ledger.peekGeneration, hgen]

lemma observed_generations {event : TaskEvent} (h : Observed c env p event persist w r w') :
    w'.ledger.generations = w.ledger.generations := by
  rcases (observed_effect h).2 with h' | h' <;> rw [h']
  rfl

lemma Known.step {s s' : Tracked} (hs : Known s) (h : RunStep c s s') : Known s' := by
  cases h with
  | start env project t key pbl args persist =>
    exact hs.launched rfl (launched_effect (startAs_launched project t key pbl args persist s.world))
  | resume env project t sessionId key pbl size persist =>
    exact hs.launched rfl
      (launched_effect (resumeAs_launched project t sessionId key pbl size persist s.world))
  | report env p event persist hreport =>
    have hobs : Observed c env p event persist s.world _ _ :=
      applyObservation_observed p event persist s.world
    refine ⟨fun cl hcl => hs.claims cl ?_, fun run hrun => ?_⟩
    · rcases (observed_effect hobs).2 with h' | h' <;> rw [h'] at hcl
      · exact hcl
      · exact List.mem_of_mem_filter hcl
    · rw [Ledger.peekGeneration, observed_generations hobs]
      exact hs.bound run hrun
  | exit env p t g code persist hlive =>
    have hobs : Observed c env p (.exit t g code) persist s.world _ _ :=
      applyObservation_observed p (.exit t g code) persist s.world
    constructor
    · intro cl hcl
      split
      · next hread =>
        obtain ⟨hmem, hno⟩ := observed_exit_claims hobs hread (hs.bound _ hlive) cl hcl
        obtain ⟨hspawns, hrun⟩ := hs.claims cl hmem
        refine ⟨hspawns, List.mem_filter.mpr ⟨hrun, ?_⟩⟩
        simp only [ne_eq, Run.mk.injEq, decide_eq_true_eq]
        exact fun ⟨h1, h2⟩ => hno ⟨h1, hspawns, h2⟩
      · rcases (observed_effect hobs).2 with h' | h' <;> rw [h'] at hcl
        · exact hs.claims cl hcl
        · exact hs.claims cl (List.mem_of_mem_filter hcl)
    · intro run hrun
      rw [Ledger.peekGeneration, observed_generations hobs]
      split at hrun
      · exact hs.bound run (List.mem_of_mem_filter hrun)
      · exact hs.bound run hrun

/-- In every history from a service without open attempts the ledger knows the runs. -/
lemma Known.of_history {w : World} (h0 : w.ledger.claims = []) {s : Tracked}
    (h : Relation.ReflTransGen (RunStep c) ⟨w, []⟩ s) : Known s := by
  induction h with
  | refl => exact .init h0
  | tail _ hstep ih => exact ih.step hstep

end Aeroric.TaskRuns
