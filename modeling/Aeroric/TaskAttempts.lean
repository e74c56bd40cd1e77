import Aeroric.Search
import Aeroric.TaskExit

/-! Attempts: which executor calls are still unsettled, what the claims know of them, and when
one attempt can stand in the way of another. -/
namespace Aeroric.TaskAttempts

open TaskRecord TaskReducer TaskEdit TaskLaunch TaskLedger TaskStorage TaskWorld TaskService
open TaskInterface TaskSpec TaskCommit TaskLaunched TaskCalls TaskFrame TaskRuns
open Call (exec)

variable {c : Context} {env : Env} {w w' : World} {p t key : String} {kind : OperationKind}
  {persist : Persist}

lemma asStr_injective {k l : OperationKind} (h : k.asStr = l.asStr) : k = l := by
  revert h
  cases k <;> cases l <;> decide

lemma asStr_noBar (k : OperationKind) : '|' ∉ k.asStr.toList := by
  cases k <;> decide

/-- A task id without the separator makes the joined key speak of one attempt only. -/
lemma attemptKey_injective {t u : String} {k l : OperationKind} {x y : String}
    (ht : '|' ∉ t.toList) (hu : '|' ∉ u.toList) (h : attemptKey t k x = attemptKey u l y) :
    t = u ∧ k = l ∧ x = y := by
  have h' : t.toList ++ '|' :: (k.asStr.toList ++ '|' :: x.toList) =
      u.toList ++ '|' :: (l.asStr.toList ++ '|' :: y.toList) := by
    simpa [attemptKey] using congrArg String.toList h
  obtain ⟨htu, h''⟩ := Search.cut_unique ht hu h'
  obtain ⟨hkl, hxy⟩ := Search.cut_unique (asStr_noBar k) (asStr_noBar l) h''
  exact ⟨String.toList_inj.mp htu, asStr_injective (String.toList_inj.mp hkl),
    String.toList_inj.mp hxy⟩

lemma foldl_cutOff_claims (items : List Acknowledgement) (l : Ledger) :
    (items.foldl cutOff l).claims =
        l.claims.filter (fun cl => decide (cl.taskId ∉ items.map Acknowledgement.taskId)) ∧
      (items.foldl cutOff l).generations = l.generations := by
  induction items generalizing l with
  | nil => simp
  | cons item items ih =>
    rw [List.foldl_cons, (ih _).1, (ih _).2]
    refine ⟨?_, rfl⟩
    simp only [cutOff, Ledger.settleTask, Ledger.awaitAcknowledgement, List.filter_filter]
    refine List.filter_congr fun cl _ => ?_
    by_cases h : cl.taskId = item.taskId <;> simp [h]

/-- An executor call that brought a process up, and whether the launch left its claim open. -/
structure Attempt where
  taskId : String
  kind : OperationKind
  operationKey : String
  generation : ℕ
  claimed : Bool
  deriving DecidableEq

/-- The service beside the executor calls that are not settled. -/
structure Attempts where
  world : World
  unsettled : List Attempt

def spawnedAttempts (claimed : Bool) (w w' : World) : List Attempt :=
  (w'.calls.drop w.calls.length).filterMap fun call =>
    if call.failure.isSome then none
    else (attemptOf call.request).map fun a => ⟨a.1, a.2.1, a.2.2.1, a.2.2.2, claimed⟩

/-- An event of a known run that reports its terminal ready or its end. -/
def endsLaunch (env : Env) (p : String) (event : TaskEvent) (w : World) : Bool :=
  (loadStamped (env.read .main) w.disk p).isOk && !isStale w.ledger event &&
    decide (event.generation ≤ w.ledger.peekGeneration event.taskId) &&
    match reportOf event with
    | none => true
    | some report => report.1.isTerminal

/-- What settles an executor call that did not fail: an event of its run, a cancel or a delete
of its task that succeeds, or a reconciliation that cuts its task off. -/
def settledBy (c : Context) (env : Env) (req : Request) (w : World) (a : Attempt) : Bool :=
  match req with
  | .observe p event _ =>
    endsLaunch env p event w && a.taskId = event.taskId && a.generation = event.generation
  | .cancel project t => (exec (cancel c env project t) w).1.isOk && a.taskId = t
  | .delete p ids => (exec (deleteWith c env p ids .commit) w).1.isOk &&
      decide (a.taskId ∈ requested ids (stored w p))
  | .reconcile p =>
    match (exec (reconcileProject env p) w).1 with
    | .ok (ids, _) => decide (a.taskId ∈ ids)
    | .error _ => false
  | _ => false

def launchOf : Request → Option (String × String × OperationKind × String × Bool)
  | .start project t key pbl _ _ => some (project.id.getD "", t, .start, key, pbl)
  | .resume project t _ key pbl _ _ => some (project.id.getD "", t, .resume, key, pbl)
  | _ => none

def advance (c : Context) (env : Env) (req : Request) (s : Attempts) : Attempts :=
  let w' := (exec (call c env req) s.world).2
  ⟨w', s.unsettled.filter (fun a => !settledBy c env req s.world a) ++
    spawnedAttempts ((launchOf req).any (·.2.2.2.2)) s.world w'⟩

/-- The calls under which attempts stay apart: a launch names a task without the separator of
the keys and does not repeat an unsettled attempt whose claim was let go at once; a delete of
tasks with unsettled attempts is not cut short by the storage. -/
def Careful (env : Env) (req : Request) (s : Attempts) : Prop :=
  match req with
  | .observe _ _ _ | .cancel _ _ | .reconcile _ => True
  | .delete p ids =>
    (∀ a ∈ s.unsettled, a.taskId ∉ requested ids (stored s.world p)) ∨
      FinishGrants (env.publish .main) p s.world.disk (remaining ids (stored s.world p))
  | .start _ t key _ _ _ => '|' ∉ t.toList ∧ ∀ a ∈ s.unsettled,
      a.taskId = t → a.kind = .start → a.operationKey = key → a.claimed = true
  | .resume _ t _ key _ _ _ => '|' ∉ t.toList ∧ ∀ a ∈ s.unsettled,
      a.taskId = t → a.kind = .resume → a.operationKey = key → a.claimed = true
  | _ => False

def Attempt.IsClaim (a : Attempt) (cl : Claim) : Prop :=
  cl.taskId = a.taskId ∧ cl.kind = a.kind ∧ cl.operationKey = a.operationKey ∧
    cl.generation = a.generation

def LaterRun (x y : ExecutorCall) : Prop :=
  ∀ a b, attemptOf x.request = some a → attemptOf y.request = some b → a.1 = b.1 →
    a.2.2.2 < b.2.2.2

/-- What holds between the calls: the claims that were not let go are open, and no claim and
no executor call is ahead of its task's counter. -/
structure Sound (s : Attempts) : Prop where
  held : ∀ a ∈ s.unsettled, a.claimed = true → ∃ cl ∈ s.world.ledger.claims, a.IsClaim cl
  noBar : ∀ cl ∈ s.world.ledger.claims, '|' ∉ cl.taskId.toList
  bound : ∀ cl ∈ s.world.ledger.claims, cl.generation ≤ s.world.ledger.peekGeneration cl.taskId
  distinct : s.world.ledger.claims.Pairwise fun x y =>
    x.taskId = y.taskId → x.generation ≠ y.generation
  callsBound : ∀ call ∈ s.world.calls, ∀ a, attemptOf call.request = some a →
    a.2.2.2 ≤ s.world.ledger.peekGeneration a.1
  increasing : s.world.calls.Pairwise LaterRun

lemma spawnedAttempts_self {b : Bool} (h : w'.calls = w.calls) : spawnedAttempts b w w' = [] := by
  unfold spawnedAttempts
  rw [h, List.drop_length]
  rfl

lemma spawnedAttempts_other {b : Bool} {call : ExecutorCall} (h : w'.calls = w.calls ++ [call])
    (hcall : attemptOf call.request = none ∨ call.failure.isSome) : spawnedAttempts b w w' = [] := by
  unfold spawnedAttempts
  rw [h, List.drop_left]
  rcases hcall with hcall | hcall <;> simp [hcall]

variable {s : Attempts}

/-- Letting claims go keeps what is sound, as long as the attempts they are of are settled. -/
lemma Sound.shrink (hs : Sound s) {unsettled : List Attempt} (keep : Claim → Bool)
    (hgen : w'.ledger.generations = s.world.ledger.generations)
    (hclaims : w'.ledger.claims = s.world.ledger.claims.filter keep)
    (hcalls : w'.calls = s.world.calls ∨
      ∃ call, attemptOf call.request = none ∧ w'.calls = s.world.calls ++ [call])
    (hleft : ∀ a ∈ unsettled, a ∈ s.unsettled ∧ ∀ cl, a.IsClaim cl → keep cl = true) :
    Sound ⟨w', unsettled⟩ := by
  have hsub : ∀ cl ∈ w'.ledger.claims, cl ∈ s.world.ledger.claims := fun cl hcl =>
    List.mem_of_mem_filter (hclaims ▸ hcl)
  have hpeek : w'.ledger.peekGeneration = s.world.ledger.peekGeneration := hgen
  refine ⟨fun a ha hclaimed => ?_, fun cl hcl => hs.noBar cl (hsub cl hcl), fun cl hcl => ?_, ?_,
    fun call hcall a ha => ?_, ?_⟩
  · obtain ⟨hmem, hkeep⟩ := hleft a ha
    obtain ⟨cl, hcl, hmatch⟩ := hs.held a hmem hclaimed
    exact ⟨cl, hclaims ▸ List.mem_filter.mpr ⟨hcl, hkeep cl hmatch⟩, hmatch⟩
  · rw [hpeek]
    exact hs.bound cl (hsub cl hcl)
  · show w'.ledger.claims.Pairwise _
    rw [hclaims]
    exact hs.distinct.filter _
  · rw [hpeek]
    rcases hcalls with h | ⟨new, hnone, h⟩
    · exact hs.callsBound call (h ▸ hcall) a ha
    · rcases List.mem_append.mp (h ▸ hcall) with hold | hnew
      · exact hs.callsBound call hold a ha
      · obtain rfl := List.mem_singleton.mp hnew
        cases hnone.symm.trans ha
  · rcases hcalls with h | ⟨new, hnone, h⟩
    · exact h ▸ hs.increasing
    · show w'.calls.Pairwise _
      rw [h]
      refine List.pairwise_append.mpr ⟨hs.increasing, List.pairwise_singleton _ _, ?_⟩
      rintro x - y hy a b - hb
      obtain rfl := List.mem_singleton.mp hy
      cases hnone.symm.trans hb

lemma Sound.launched {pbl : Bool} {guard : Prop} (hs : Sound s)
    (hbar : '|' ∉ t.toList) (h : LaunchEffect guard env p t kind key pbl s.world w') :
    Sound ⟨w', s.unsettled ++ spawnedAttempts pbl s.world w'⟩ := by
  have fresh : ∀ {call : ExecutorCall}, w'.ledger.generations = Function.update
      s.world.ledger.generations t (s.world.ledger.peekGeneration t + 1) →
      CallFor p t kind key (s.world.ledger.peekGeneration t + 1) call →
      w'.calls = s.world.calls ++ [call] →
      (∀ call ∈ w'.calls, ∀ a, attemptOf call.request = some a →
        a.2.2.2 ≤ w'.ledger.peekGeneration a.1) ∧ w'.calls.Pairwise LaterRun := by
    intro call hgen hfor hcalls
    have hle := peekGeneration_le hgen (Nat.le_succ _)
    rw [hcalls]
    refine ⟨fun x hx a ha => ?_, List.pairwise_append.mpr
      ⟨hs.increasing, List.pairwise_singleton _ _, fun x hx y hy a b ha hb hab => ?_⟩⟩
    · rcases List.mem_append.mp hx with hold | hnew
      · exact (hs.callsBound x hold a ha).trans (hle _)
      · obtain rfl := List.mem_singleton.mp hnew
        obtain rfl := Option.some.inj (hfor.attempt.symm.trans ha)
        simp [Ledger.peekGeneration, hgen]
    · obtain rfl := List.mem_singleton.mp hy
      obtain rfl := Option.some.inj (hfor.attempt.symm.trans hb)
      have := hs.callsBound x hx a ha
      rw [hab] at this
      exact Nat.lt_succ_of_le this
  cases h with
  | nothing _ hw =>
    subst hw
    rw [spawnedAttempts_self rfl, List.append_nil]
    exact hs
  | attempt hopen hgen hclaims hcalls =>
    have hle := peekGeneration_le hgen (Nat.le_succ _)
    have hnone : spawnedAttempts pbl s.world w' = [] := by
      rcases hcalls with h | ⟨call, hfail, -, h⟩
      · exact spawnedAttempts_self h
      · exact spawnedAttempts_other h (.inr hfail)
    have hcalls' : (∀ call ∈ w'.calls, ∀ a, attemptOf call.request = some a →
        a.2.2.2 ≤ w'.ledger.peekGeneration a.1) ∧ w'.calls.Pairwise LaterRun := by
      rcases hcalls with h | ⟨call, -, hfor, h⟩
      · rw [h]
        exact ⟨fun x hx a ha => (hs.callsBound x hx a ha).trans (hle _), hs.increasing⟩
      · exact fresh hgen hfor h
    rw [hnone, List.append_nil]
    refine ⟨?_, ?_, ?_, ?_, hcalls'.1, hcalls'.2⟩ <;> dsimp only <;> rw [hclaims]
    · exact hs.held
    · exact hs.noBar
    · exact fun cl hcl => (hs.bound cl hcl).trans (hle _)
    · exact hs.distinct
  | process hopen hgen hclaims call hcall hfor hcalls =>
    have hle := peekGeneration_le hgen (Nat.le_succ _)
    have hcalls' := fresh hgen hfor hcalls
    have hspawned : spawnedAttempts pbl s.world w' =
        [⟨t, kind, key, s.world.ledger.peekGeneration t + 1, pbl⟩] := by
      unfold spawnedAttempts
      rw [hcalls, List.drop_left]
      simp [hcall, hfor.attempt]
    have hold : ∀ cl ∈ s.world.ledger.claims, cl ∈ w'.ledger.claims := by
      intro cl hcl
      rw [hclaims]
      split
      · exact List.mem_append_left _ hcl
      · exact hcl
    have hcases : ∀ cl ∈ w'.ledger.claims, cl ∈ s.world.ledger.claims ∨
        cl = newClaim env t kind key s.world := by
      intro cl hcl
      rw [hclaims] at hcl
      split at hcl
      · simpa using hcl
      · exact .inl hcl
    rw [hspawned]
    refine ⟨fun a ha hclaimed => ?_, fun cl hcl => ?_, fun cl hcl => ?_, ?_, hcalls'.1, hcalls'.2⟩
    · rcases List.mem_append.mp ha with h | h
      · obtain ⟨cl, hcl, hmatch⟩ := hs.held a h hclaimed
        exact ⟨cl, hold cl hcl, hmatch⟩
      · obtain rfl := List.mem_singleton.mp h
        obtain rfl : pbl = true := hclaimed
        refine ⟨newClaim env t kind key s.world, ?_, rfl, rfl, rfl, rfl⟩
        show _ ∈ w'.ledger.claims
        rw [hclaims]
        simp
    · rcases hcases cl hcl with h | rfl
      · exact hs.noBar cl h
      · exact hbar
    · rcases hcases cl hcl with h | rfl
      · exact (hs.bound cl h).trans (hle _)
      · simp [newClaim, Ledger.peekGeneration, hgen]
    · show w'.ledger.claims.Pairwise _
      rw [hclaims]
      split
      · refine List.pairwise_append.mpr ⟨hs.distinct, List.pairwise_singleton _ _, ?_⟩
        intro x hx y hy hxy
        obtain rfl := List.mem_singleton.mp hy
        have hb := hs.bound x hx
        rw [hxy] at hb
        exact Nat.ne_of_lt (Nat.lt_succ_of_le hb)
      · exact hs.distinct

lemma endsLaunch_eq {event : TaskEvent} (h : Admits env p event w) :
    endsLaunch env p event w = match reportOf event with
      | none => true
      | some report => report.1.isTerminal := by
  unfold endsLaunch
  rw [h.1, h.2.1, decide_eq_true h.2.2]
  rfl

lemma observed_ledger {event : TaskEvent} {r : Except TaskError (EventOutcome × Applied)}
    (h : Observed c env p event persist w r w') : w'.calls = w.calls ∧
      w'.ledger = if endsLaunch env p event w then
        w.ledger.settleByGeneration event.taskId event.generation else w.ledger := by
  refine ⟨(observed_effect h).1, ?_⟩
  cases h with
  | unreadable e hl => simp [endsLaunch, hl, Except.isOk, Except.toBool]
  | stale a hl hstale => simp [endsLaunch, hstale]
  | future e hl hlt => simp [endsLaunch, Nat.not_le.mpr hlt]
  | ready a hadm hnone => simp [endsLaunch_eq hadm, hnone, released, mirrored]
  | unattended a hadm reported attention reason hrep hopen =>
    simp [endsLaunch_eq hadm, hrep, hopen]
  | unmoved a hadm reported attention reason guarded hrep hmoved =>
    rw [(settledFor_ledger env event reported w).1, endsLaunch_eq hadm, hrep]
  | moved hadm reported attention reason guarded hrep hmoved r w' hstore =>
    have hpub := storeObserved_published c env p persist
      (observedList env p event reported attention reason w).records
      (settledFor env event reported w)
    rw [hstore] at hpub
    rw [hpub.ledger, (settledFor_ledger env event reported w).1, endsLaunch_eq hadm, hrep]

lemma Sound.observed (hs : Sound s) (event : TaskEvent) (persist : Persist) :
    Sound (advance c env (.observe p event persist) s) := by
  have hobs : Observed c env p event persist s.world _ _ :=
    applyObservation_observed p event persist s.world
  unfold advance
  simp only [call, exec_return]
  generalize (exec (applyObservation c env p event persist) s.world).2 = w' at hobs ⊢
  obtain ⟨hcalls, hledger⟩ := observed_ledger hobs
  rw [spawnedAttempts_self hcalls, List.append_nil]
  refine hs.shrink (fun cl => !(endsLaunch env p event s.world && (cl.taskId = event.taskId &&
    cl.kind.spawns && cl.generation = event.generation))) ?_ ?_ (.inl hcalls) fun a ha => ?_
  · rw [hledger]
    split <;> rfl
  · rw [hledger]
    split
    · next h => simp [Ledger.settleByGeneration, h]
    · next h => simp [h]
  · obtain ⟨hmem, hnot⟩ := List.mem_filter.mp ha
    refine ⟨hmem, fun cl hcl => ?_⟩
    obtain ⟨h1, -, -, h4⟩ := hcl
    simp only [settledBy, Bool.not_eq_true', Bool.and_eq_false_iff, decide_eq_false_iff_not] at hnot
    simp only [Bool.not_eq_true', Bool.and_eq_false_iff, decide_eq_false_iff_not, h1, h4]
    tauto

lemma Sound.cancelled (hs : Sound s) (project : Project) (t : String) :
    Sound (advance c env (.cancel project t) s) := by
  unfold advance
  simp only [call, exec_return]
  rcases cancel_cases c env project t s.world with ⟨e, h⟩ | ⟨target, ⟨-, e, h⟩ | ⟨-, h⟩⟩
  · simp only [h, settledBy, spawnedAttempts_self rfl, List.append_nil]
    refine hs.shrink (fun _ => true) rfl (by simp) (.inl rfl) fun a ha =>
      ⟨List.mem_of_mem_filter ha, fun _ _ => rfl⟩
  · have hcalls : (asked s.world (.cancel t target) env.executor).calls = s.world.calls ++
        [⟨.cancel t target, env.executor, s.world.disk.tasks⟩] := rfl
    simp only [h, settledBy, spawnedAttempts_other hcalls (.inl rfl), List.append_nil]
    refine hs.shrink (fun _ => true) rfl (by simp [asked]) (.inr ⟨_, rfl, hcalls⟩) fun a ha =>
      ⟨List.mem_of_mem_filter ha, fun _ _ => rfl⟩
  · generalize hw' : mirrored (env.mirror .settle) (·.settleTask t)
      (asked s.world (.cancel t target) none) = w' at h
    have hcalls : w'.calls = s.world.calls ++ [⟨.cancel t target, none, s.world.disk.tasks⟩] := by
      rw [← hw']
      rfl
    simp only [h, settledBy, spawnedAttempts_other hcalls (.inl rfl), List.append_nil]
    refine hs.shrink (fun cl => decide (cl.taskId ≠ t)) (by rw [← hw']; rfl) (by rw [← hw']; rfl)
      (.inr ⟨_, rfl, hcalls⟩) fun a ha => ?_
    obtain ⟨hmem, hnot⟩ := List.mem_filter.mp ha
    refine ⟨hmem, fun cl hcl => ?_⟩
    rw [hcl.1]
    simpa [Except.isOk, Except.toBool] using hnot

lemma Sound.deleted (hs : Sound s) {ids : List String}
    (hcareful : Careful env (.delete p ids) s) : Sound (advance c env (.delete p ids) s) := by
  unfold advance
  simp only [call, exec_return]
  rcases deleteWith_cases c env p ids .commit s.world with ⟨r, h⟩ | ⟨-, h⟩
  · simp only [h, settledBy, spawnedAttempts_self rfl, List.append_nil]
    exact hs.shrink (fun _ => true) rfl (by simp) (.inl rfl) fun a ha =>
      ⟨List.mem_of_mem_filter ha, fun _ _ => rfl⟩
  · have hpub := finishIntent_published (c := c) (env.publish .main) p .commit
      (remaining ids (stored s.world p))
      { s.world with ledger := forgetTasks (requested ids (stored s.world p)) s.world.ledger }
    have hforget := forgetTasks_eq (requested ids (stored s.world p)) s.world.ledger
    generalize hw0 : ({ s.world with
      ledger := forgetTasks (requested ids (stored s.world p)) s.world.ledger } : World) = w0
      at hpub h
    rcases hf : exec (finishIntent c (env.publish .main) p .commit (remaining ids (stored s.world p)))
      w0 with ⟨e | a, w'⟩ <;> rw [hf] at hpub h
    all_goals
      have hcalls : w'.calls = s.world.calls := hpub.calls.trans (by rw [← hw0])
      have hledger : w'.ledger = forgetTasks (requested ids (stored s.world p)) s.world.ledger :=
        hpub.ledger.trans (by rw [← hw0])
      simp only [h, Call.andThen_ok, Call.andThen_error, settledBy, spawnedAttempts_self hcalls,
        List.append_nil]
      refine hs.shrink (fun cl => decide (cl.taskId ∉ requested ids (stored s.world p)))
        (by rw [hledger, hforget]) (by rw [hledger, hforget]) (.inl hcalls)
        fun a ha => ⟨List.mem_of_mem_filter ha, fun cl hcl => ?_⟩
    · -- refused: then no unsettled attempt is of a task that was to go
      rcases hcareful with hnone | hgrant
      · exact decide_eq_true (hcl.1 ▸ hnone a (List.mem_of_mem_filter ha))
      · have hgrant0 : FinishGrants (env.publish .main) p w0.disk
            (remaining ids (stored s.world p)) := hw0 ▸ hgrant
        obtain ⟨_, _, hok⟩ := finishIntent_granted hgrant0
        cases hok.symm.trans hf
    · have hnot := (List.mem_filter.mp ha).2
      rw [hcl.1]
      simpa [Except.isOk, Except.toBool] using hnot

lemma Sound.reconciled (hs : Sound s) (p : String) : Sound (advance c env (.reconcile p) s) := by
  unfold advance
  simp only [call, exec_return]
  rcases reconcileProject_cases env p s.world with ⟨-, r, h⟩ | ⟨-, h⟩
  · simp only [h, settledBy, spawnedAttempts_self rfl, List.append_nil]
    exact hs.shrink (fun _ => true) rfl (by simp) (.inl rfl) fun a ha =>
      ⟨List.mem_of_mem_filter ha, fun _ _ => rfl⟩
  · have hpub := commit_published (env.publish .main) p (reconciledList env p s.world).1 s.world
    rcases hf : exec (commit (env.publish .main) p (reconciledList env p s.world).1) s.world with
      ⟨e | a, w'⟩ <;> rw [hf] at hpub h
    · have hcalls : w'.calls = s.world.calls := hpub.calls
      have hledger : w'.ledger = s.world.ledger := hpub.ledger
      simp only [h, Call.andThen_error, settledBy, spawnedAttempts_self hcalls, List.append_nil]
      exact hs.shrink (fun _ => true) (by rw [hledger]) (by rw [hledger]; simp)
        (.inl hcalls) fun a ha => ⟨List.mem_of_mem_filter ha, fun _ _ => rfl⟩
    · have hledger : w'.ledger = s.world.ledger := hpub.ledger
      have hcalls : (mirrored (env.mirror .settle)
          (fun l => (reconciledList env p s.world).2.foldl cutOff l) w').calls = s.world.calls :=
        hpub.calls
      obtain ⟨hclaims, hgen⟩ := foldl_cutOff_claims (reconciledList env p s.world).2 s.world.ledger
      simp only [h, Call.andThen_ok, settledBy, spawnedAttempts_self hcalls, List.append_nil]
      refine hs.shrink (fun cl => decide (cl.taskId ∉ (reconciledList env p s.world).2.map
        Acknowledgement.taskId)) ?_ ?_ (.inl hcalls) fun a ha =>
          ⟨List.mem_of_mem_filter ha, fun cl hcl => ?_⟩
      · simp only [mirrored, hledger, hgen]
      · simp only [mirrored, hledger, hclaims]
      · have hnot := (List.mem_filter.mp ha).2
        rw [hcl.1]
        simpa using hnot

/-- A history of careful calls. -/
inductive AttemptStep (c : Context) : Attempts → Attempts → Prop
  | call (s : Attempts) (env : Env) (req : Request) (h : Careful env req s) :
      AttemptStep c s (advance c env req s)

lemma advance_launch {req : Request} {launch : String × String × OperationKind × String × Bool}
    (hreq : launchOf req = some launch) (s : Attempts) :
    advance c env req s = ⟨(exec (call c env req) s.world).2, s.unsettled ++
      spawnedAttempts launch.2.2.2.2 s.world (exec (call c env req) s.world).2⟩ := by
  have hnone : s.unsettled.filter (fun a => !settledBy c env req s.world a) = s.unsettled :=
    List.filter_eq_self.mpr fun a _ => by cases req <;> first | rfl | cases hreq
  unfold advance
  rw [hnone, hreq]
  rfl

/-- Nothing but an open claim can hold the launch back. -/
def Ready (env : Env) (w : World) : Request → Prop
  | .start project t _ _ args _ => Launchable env project t args.attachments w
  | .resume project t sessionId _ _ _ _ =>
    Resumable env project t sessionId w ∧ Launchable env project t ⟨[], []⟩ w
  | _ => False

lemma launch_effect {req : Request} {p t : String} {kind : OperationKind} {key : String}
    {pbl : Bool} (hreq : launchOf req = some (p, t, kind, key, pbl)) (c : Context) (env : Env)
    (w : World) : LaunchEffect (Ready env w req ∧ w.ledger.openClaim t kind key = none) env p t kind
      key pbl w (exec (call c env req) w).2 := by
  cases req with
  | start project t key pbl args persist =>
    cases hreq
    simp only [call, exec_return]
    exact launched_effect (startAs_launched project t key pbl args persist w)
  | resume project t sessionId key pbl size persist =>
    cases hreq
    simp only [call, exec_return]
    exact launched_effect ((resumeAs_launched project t sessionId key pbl size persist w).imp
      and_assoc.symm)
  | _ => cases hreq

lemma Sound.step {s s' : Attempts} (hs : Sound s) (h : AttemptStep c s s') : Sound s' := by
  obtain ⟨env, req, h⟩ := h
  cases req with
  | start project t key pbl args persist =>
    rw [advance_launch rfl]
    exact hs.launched h.1 (launch_effect rfl c env s.world)
  | resume project t sessionId key pbl size persist =>
    rw [advance_launch rfl]
    exact hs.launched h.1 (launch_effect rfl c env s.world)
  | observe p event persist => exact hs.observed event persist
  | cancel project t => exact hs.cancelled project t
  | delete p ids => exact hs.deleted h
  | reconcile p => exact hs.reconciled p
  | _ => exact h.elim

lemma Sound.of_history {w : World} (h0 : w.ledger.claims = []) (hcalls : w.calls = [])
    (h : Relation.ReflTransGen (AttemptStep c) ⟨w, []⟩ s) : Sound s := by
  induction h with
  | refl => constructor <;> simp [h0, hcalls]
  | tail _ hstep ih => exact ih.step hstep

/-- What holds at a launch of an attempt: the executor is asked for this attempt only, with a
larger run number than before, with the row saved as pending, and with no unsettled call for the
same attempt; and an attempt that nothing but claims could hold back is taken unless one of the
claims is its own. -/
structure Exclusive (c : Context) (env : Env) (req : Request) (p t : String) (kind : OperationKind)
    (key : String) (s : Attempts) : Prop where
  asked : ∀ x ∈ (exec (call c env req) s.world).2.calls.drop s.world.calls.length,
    CallFor p t kind key (s.world.ledger.peekGeneration t + 1) x ∧
    (∀ earlier ∈ s.world.calls, LaterRun earlier x) ∧
    ∀ a ∈ s.unsettled, ¬ (a.taskId = t ∧ a.kind = kind ∧ a.operationKey = key)
  unblocked : Ready env s.world req →
    (∀ cl ∈ s.world.ledger.claims, ¬ (cl.taskId = t ∧ cl.kind = kind ∧ cl.operationKey = key)) →
    (exec (call c env req) s.world).2.ledger.peekGeneration t = s.world.ledger.peekGeneration t + 1

lemma openClaim_eq_none (hs : Sound s) (hbar : '|' ∉ t.toList) (h : ∀ cl ∈ s.world.ledger.claims,
      ¬ (cl.taskId = t ∧ cl.kind = kind ∧ cl.operationKey = key)) :
    s.world.ledger.openClaim t kind key = none := by
  refine List.find?_eq_none.mpr fun cl hcl hkey => h cl hcl ?_
  exact attemptKey_injective (hs.noBar cl hcl) hbar (of_decide_eq_true hkey)

lemma careful_launch {req : Request} {pbl : Bool}
    (hreq : launchOf req = some (p, t, kind, key, pbl)) (h : Careful env req s) :
    '|' ∉ t.toList ∧ ∀ a ∈ s.unsettled,
      a.taskId = t → a.kind = kind → a.operationKey = key → a.claimed = true := by
  cases req with
  | start | resume => cases hreq; exact h
  | _ => cases hreq

lemma Sound.exclusive (hs : Sound s) {req : Request} {pbl : Bool}
    (hreq : launchOf req = some (p, t, kind, key, pbl)) (hcareful : Careful env req s) :
    Exclusive c env req p t kind key s := by
  obtain ⟨hbar, hclaimed⟩ := careful_launch hreq hcareful
  have heffect := launch_effect hreq c env s.world
  have hasked : ∀ made, s.world.ledger.openClaim t kind key = none →
      CallFor p t kind key (s.world.ledger.peekGeneration t + 1) made →
      (exec (call c env req) s.world).2.calls = s.world.calls ++ [made] →
      ∀ x ∈ (exec (call c env req) s.world).2.calls.drop s.world.calls.length,
        CallFor p t kind key (s.world.ledger.peekGeneration t + 1) x ∧
        (∀ earlier ∈ s.world.calls, LaterRun earlier x) ∧
        ∀ a ∈ s.unsettled, ¬ (a.taskId = t ∧ a.kind = kind ∧ a.operationKey = key) := by
    intro made hopen hfor hcalls x hx
    rw [hcalls, List.drop_left] at hx
    obtain rfl := List.mem_singleton.mp hx
    refine ⟨hfor, fun earlier he a b ha hb hab => ?_, fun a ha ⟨h1, h2, h3⟩ => ?_⟩
    · obtain rfl := Option.some.inj (hfor.attempt.symm.trans hb)
      have hle := hs.callsBound earlier he a ha
      rw [hab] at hle
      exact Nat.lt_succ_of_le hle
    · -- an unsettled call for the same attempt kept its claim, and the claim would have been found
      obtain ⟨cl, hcl, hc1, hc2, hc3, -⟩ := hs.held a ha (hclaimed a ha h1 h2 h3)
      exact List.find?_eq_none.mp hopen cl hcl
        (by simp [Claim.key, hc1, hc2, hc3, h1, h2, h3])
  constructor
  · cases heffect with
    | nothing _ hw => simp [hw]
    | attempt hopen hgen hclaims hcalls =>
      rcases hcalls with h | ⟨call, -, hfor, h⟩
      · simp [h]
      · exact hasked call hopen hfor h
    | process hopen hgen hclaims call hcall hfor hcalls => exact hasked call hopen hfor hcalls
  · intro hready hfree
    have hopen := openClaim_eq_none hs hbar hfree
    cases heffect with
    | nothing hno _ => exact absurd ⟨hready, hopen⟩ hno
    | attempt _ hgen _ _ => simp [Ledger.peekGeneration, hgen]
    | process _ hgen _ _ _ _ _ => simp [Ledger.peekGeneration, hgen]

/-- In every history of careful calls: one process at most for an unsettled attempt, saved
first and under a larger number, other attempts do not block it, and open claims of one task
have different numbers. -/
theorem careful_attempts_exclusive {w0 : World} (h0 : w0.ledger.claims = []) (hcalls : w0.calls = [])
    {s : Attempts} (h : Relation.ReflTransGen (AttemptStep c) ⟨w0, []⟩ s) :
    (∀ env req p t kind key pbl, launchOf req = some (p, t, kind, key, pbl) → Careful env req s →
      Exclusive c env req p t kind key s) ∧
    s.world.calls.Pairwise LaterRun ∧
    s.world.ledger.claims.Pairwise fun x y => x.taskId = y.taskId → x.generation ≠ y.generation := by
  have hs := Sound.of_history h0 hcalls h
  exact ⟨fun env req p t kind key pbl hreq hcareful => hs.exclusive hreq hcareful, hs.increasing,
    hs.distinct⟩

/-- A start of the task, with or without waiting for its terminal. -/
def startWith (taskId operationKey : String) (persistBeforeLaunch : Bool) : Request :=
  .start localProject taskId operationKey persistBeforeLaunch .plain .commit

/-- One start of task `a` that came up. -/
def startedOnce (persistBeforeLaunch : Bool) : Attempts :=
  advance .plain (.quiet 5) (startWith "a" "k" persistBeforeLaunch) ⟨TaskExit.oneTask, []⟩

set_option maxRecDepth 8000 in
theorem startedOnce_exclusive : (startedOnce true).unsettled = [⟨"a", .start, "k", 1, true⟩] ∧
    Exclusive .plain (.quiet 6) (startWith "a" "k" true) "p" "a" .start "k" (startedOnce true) := by
  have hstep : AttemptStep .plain ⟨TaskExit.oneTask, []⟩ (startedOnce true) :=
    .call _ (.quiet 5) (startWith "a" "k" true) ⟨by decide, fun _ ha => nomatch ha⟩
  refine ⟨by decide, (careful_attempts_exclusive rfl rfl (.single hstep)).1 _ _ _ _ _ _ true rfl ?_⟩
  exact ⟨by decide, by decide⟩

/-- Two tasks whose ids and keys join to one text. -/
def barred : Attempts :=
  advance .plain (.quiet 5) (startWith "a" "start|k" true)
    ⟨.new (Disk.holding "p" [plainRow "p" "a" .todo, plainRow "p" "a|start" .todo]), []⟩

set_option maxRecDepth 8000 in
/-- A start that lets its claim go is repeated while its process is unsettled, and spawns again;
and a start is held back by the claim of another task. -/
theorem attempts_repeat_and_block :
    (startedOnce false).unsettled = [⟨"a", .start, "k", 1, false⟩] ∧
    (exec (call .plain (.quiet 6) (startWith "a" "k" false)) (startedOnce false).world).2.calls.map
      (fun x => attemptOf x.request) = [some ("a", .start, "k", 1), some ("a", .start, "k", 2)] ∧
    barred.world.ledger.claims.map (fun cl => (cl.taskId, cl.operationKey)) = [("a", "start|k")] ∧
    (exec (startAs .plain (.quiet 6) localProject "a|start" "k" true .plain .commit)
      barred.world).1.toOption = none ∧
    (exec (startAs .plain (.quiet 6) localProject "a|start" "k" true .plain .commit)
      barred.world).2.ledger.peekGeneration "a|start" = 0 := by
  decide

end Aeroric.TaskAttempts
