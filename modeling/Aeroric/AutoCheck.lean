import Aeroric.Runs
import Aeroric.Table
import Mathlib.Algebra.GroupWithZero.Nat

/-! The checks that run after a turn, and the list of the tasks whose last check failed. A run goes on
for a while after it was cancelled, and what it reports then is taken as any other report. -/
namespace Aeroric.AutoCheck

inductive CheckKind
  | tests
  | diagnostics
  deriving DecidableEq

inductive ItemState
  | passed
  | failed
  | error
  | timedOut
  | cancelled
  deriving DecidableEq

structure AutoCheckItem where
  kind : CheckKind
  state : ItemState
  failures : List String

inductive RunState
  | skipped
  | running
  | cancelled
  | passed
  | failed
  deriving DecidableEq

def overall (items : List AutoCheckItem) : RunState :=
  if items.any (·.state = .cancelled) then .cancelled
  else if items.all (·.state = .passed) then .passed
  else .failed

def failedCount (items : List AutoCheckItem) (kind : CheckKind) : Option ℕ :=
  let failed := items.filter fun i => i.kind = kind ∧ i.state = .failed
  if failed.isEmpty then none else some (failed.map fun i => max i.failures.length 1).sum

def failureSummary (items : List AutoCheckItem) : String :=
  let tests := (failedCount items .tests).map fun n => "测试 " ++ toString n ++ " 项失败"
  let diagnostics := (failedCount items .diagnostics).map fun n => "诊断 " ++ toString n ++ " 个错误"
  let unfinished := if items.any fun i => i.state = .error ∨ i.state = .timedOut then
    some "检查没跑完" else none
  let parts := [tests, diagnostics, unfinished].reduceOption
  if parts.isEmpty then "检查没通过" else "，".intercalate parts

structure CheckFailure where
  taskId : String
  turnId : String
  summary : String
  atMs : ℕ
  deriving DecidableEq

/-- An update of the session's log. -/
structure Update where
  turnId : String
  state : RunState
  items : List AutoCheckItem
  atMs : ℕ

def Update.failure (taskId : String) (u : Update) : Option CheckFailure :=
  if u.state = .failed then some ⟨taskId, u.turnId, failureSummary u.items, u.atMs⟩ else none

def remember (failures : Table String CheckFailure) (taskId : String) (u : Update) :
    Table String CheckFailure :=
  match u.failure taskId with
  | some failure => failures.set taskId failure
  | none => failures.erase taskId

inductive Stage
  | spawned
  | checking
  | reported
  | finished
  deriving DecidableEq

/-- The thread of a run. -/
structure Run where
  taskId : String
  turnId : String
  stage : Stage
  /-- What it reported last. -/
  last : Option Update

structure Checker where
  /-- The generation of the run that is in progress, for each task. -/
  running : Table String ℕ
  next : ℕ
  failures : Table String CheckFailure
  /-- All threads, by their generation. -/
  runs : Table ℕ Run
  /-- The run that was started last and not cancelled since. -/
  latest : Table String ℕ

namespace Checker

def new : Checker := ⟨.empty, 1, .empty, .empty, .empty⟩

def cancel (taskId : String) (c : Checker) : Checker :=
  { c with
    running := c.running.erase taskId
    failures := c.failures.erase taskId
    latest := c.latest.erase taskId }

def spawn (taskId turnId : String) (c : Checker) : Checker :=
  { c with
    running := c.running.set taskId c.next
    next := c.next + 1
    runs := c.runs.set c.next ⟨taskId, turnId, .spawned, none⟩
    latest := c.latest.set taskId c.next }

/-- `chosen` tells whether the project or the task asks for a check at all. -/
def start (taskId turnId : String) (chosen : Bool) (c : Checker) : Checker :=
  if chosen then (c.cancel taskId).spawn taskId turnId else c

/-- A thread goes on from one stage to another and reports. -/
def report (generation : ℕ) (stage stage' : Stage) (state : RunState) (items : List AutoCheckItem)
    (atMs : ℕ) (c : Checker) : Checker :=
  match c.runs.get generation with
  | some run =>
    if run.stage = stage then
      let u : Update := ⟨run.turnId, state, items, atMs⟩
      { c with
        failures := remember c.failures run.taskId u
        runs := c.runs.set generation { run with stage := stage', last := some u } }
    else c
  | none => c

def finish (generation : ℕ) (c : Checker) : Checker :=
  match c.runs.get generation with
  | some run =>
    if run.stage = .reported then
      { c with
        running := if c.running.get run.taskId = some generation then c.running.erase run.taskId
          else c.running
        runs := c.runs.set generation { run with stage := .finished } }
    else c
  | none => c

def Before (a b : CheckFailure) : Prop := a.atMs < b.atMs ∨ a.atMs = b.atMs ∧ a.taskId ≤ b.taskId

instance : DecidableRel Before := fun _ _ => inferInstanceAs (Decidable (_ ∨ _))

/-- Tasks whose latest check run failed, oldest first. -/
def listed (c : Checker) : List CheckFailure := c.failures.values.insertionSort Before

/-- What the run of a generation said last, if that was a failure. -/
def verdict (c : Checker) (generation : ℕ) : Option CheckFailure :=
  (c.runs.get generation).bind fun run => run.last.bind (·.failure run.taskId)

end Checker

inductive Move
  | start (taskId turnId : String) (chosen : Bool)
  | cancel (taskId : String)
  /-- There is nothing to check. -/
  | skip (generation atMs : ℕ)
  | begin_ (generation atMs : ℕ)
  /-- The checks are done, or one of them was cancelled. -/
  | conclude (generation : ℕ) (items : List AutoCheckItem) (atMs : ℕ)
  | finish (generation : ℕ)

def step (c : Checker) : Move → Checker
  | .start taskId turnId chosen => c.start taskId turnId chosen
  | .cancel taskId => c.cancel taskId
  | .skip generation atMs => c.report generation .spawned .reported .skipped [] atMs
  | .begin_ generation atMs => c.report generation .spawned .checking .running [] atMs
  | .conclude generation items atMs =>
    c.report generation .checking .reported (overall items) items atMs
  | .finish generation => c.finish generation

def run (moves : List Move) : Checker := moves.foldl step .new

/-- The list tells of the runs that count. -/
structure Truthful (c : Checker) : Prop where
  idle : ∀ taskId, c.running.get taskId = none → ∀ failure,
    (failure ∈ c.listed ∧ failure.taskId = taskId) ↔
      (c.latest.get taskId).bind c.verdict = some failure
  busy : ∀ taskId generation, c.running.get taskId = some generation → ∀ failure ∈ c.listed,
    failure.taskId = taskId → c.verdict generation = some failure

def InProgress (c : Checker) (generation : ℕ) : Prop :=
  ∀ run ∈ c.runs.get generation, c.running.get run.taskId = some generation

instance (c : Checker) (generation : ℕ) : Decidable (InProgress c generation) :=
  inferInstanceAs (Decidable (∀ run ∈ c.runs.get generation, _))

def Move.Timely (c : Checker) : Move → Prop
  | .skip generation _ | .begin_ generation _ | .conclude generation _ _ => InProgress c generation
  | _ => True

instance (c : Checker) : (m : Move) → Decidable (m.Timely c)
  | .skip generation _ | .begin_ generation _ | .conclude generation _ _ =>
    inferInstanceAs (Decidable (InProgress c generation))
  | .start .. | .cancel _ | .finish _ => .isTrue trivial

variable {c : Checker} {taskId : String} {generation : ℕ}

structure Sound (c : Checker) : Prop where
  progress : ∀ {taskId generation}, c.running.get taskId = some generation →
    c.latest.get taskId = some generation
  owner : ∀ {taskId generation}, c.latest.get taskId = some generation →
    ∃ run, c.runs.get generation = some run ∧ run.taskId = taskId
  fresh : ∀ {generation run}, c.runs.get generation = some run → generation < c.next
  kept : ∀ taskId, c.failures.get taskId = (c.latest.get taskId).bind c.verdict

lemma failure_taskId {u : Update} {failure : CheckFailure} (h : u.failure taskId = some failure) :
    failure.taskId = taskId := by
  unfold Update.failure at h
  split at h
  · cases h
    rfl
  · cases h

lemma get_remember_self (failures : Table String CheckFailure) (taskId : String) (u : Update) :
    (remember failures taskId u).get taskId = u.failure taskId := by
  unfold remember
  cases h : u.failure taskId <;> simp

lemma get_remember_of_ne {failures : Table String CheckFailure} {other : String} (u : Update)
    (h : other ≠ taskId) : (remember failures taskId u).get other = failures.get other := by
  unfold remember
  cases u.failure taskId <;> simp [h]

lemma sound_new : Sound .new := ⟨nofun, nofun, nofun, fun _ => rfl⟩

lemma Sound.cancel (h : Sound c) (taskId : String) : Sound (c.cancel taskId) where
  progress {other generation} hrunning := by
    by_cases hother : other = taskId
    · subst hother
      simp [Checker.cancel] at hrunning
    · simp only [Checker.cancel, Table.get_erase_of_ne hother] at hrunning ⊢
      exact h.progress hrunning
  owner {other generation} hlatest := by
    by_cases hother : other = taskId
    · subst hother
      simp [Checker.cancel] at hlatest
    · rw [Checker.cancel, Table.get_erase_of_ne hother] at hlatest
      exact h.owner hlatest
  fresh := h.fresh
  kept other := by
    by_cases hother : other = taskId
    · subst hother
      simp [Checker.cancel]
    · simp only [Checker.cancel, Table.get_erase_of_ne hother]
      exact h.kept other

lemma Sound.spawn (h : Sound c) {taskId : String} (turnId : String)
    (hcleared : c.failures.get taskId = none) : Sound (c.spawn taskId turnId) := by
  have hold : ∀ {other generation}, c.latest.get other = some generation → generation ≠ c.next :=
    fun hlatest heq => by
      obtain ⟨run, hrun, -⟩ := h.owner hlatest
      exact (heq ▸ h.fresh hrun).ne rfl
  refine ⟨fun {other generation} hrunning => ?_, fun {other generation} hlatest => ?_,
    fun {generation run} hrun => ?_, fun other => ?_⟩
  · by_cases hother : other = taskId
    · subst hother
      rwa [Checker.spawn, Table.get_set_self] at hrunning ⊢
    · rw [Checker.spawn, Table.get_set_of_ne hother] at hrunning ⊢
      exact h.progress hrunning
  · by_cases hother : other = taskId
    · subst hother
      rw [Checker.spawn, Table.get_set_self] at hlatest
      cases hlatest
      exact ⟨_, Table.get_set_self .., rfl⟩
    · rw [Checker.spawn, Table.get_set_of_ne hother] at hlatest
      rw [Checker.spawn, Table.get_set_of_ne (hold hlatest)]
      exact h.owner hlatest
  · by_cases hnew : generation = c.next
    · exact hnew ▸ Nat.lt_succ_self _
    · rw [Checker.spawn, Table.get_set_of_ne hnew] at hrun
      exact (h.fresh hrun).trans (Nat.lt_succ_self _)
  · by_cases hother : other = taskId
    · subst hother
      simp [Checker.spawn, Checker.verdict, hcleared]
    · simp only [Checker.spawn, Table.get_set_of_ne hother]
      rw [h.kept other]
      cases hlatest : c.latest.get other with
      | none => rfl
      | some generation =>
        simp only [Option.bind_some, Checker.verdict, Table.get_set_of_ne (hold hlatest)]

lemma Sound.start (h : Sound c) (taskId turnId : String) (chosen : Bool) :
    Sound (c.start taskId turnId chosen) := by
  cases chosen with
  | false => exact h
  | true => exact (h.cancel taskId).spawn turnId (Table.get_erase_self ..)

/-- A thread goes on. Only its own task is concerned, and only if the thread is the one that counts. -/
lemma Sound.advance (h : Sound c) {run run' : Run} {running : Table String ℕ}
    {failures : Table String CheckFailure} (hrun : c.runs.get generation = some run)
    (htask : run'.taskId = run.taskId)
    (hrunning : ∀ {taskId generation}, running.get taskId = some generation →
      c.running.get taskId = some generation)
    (hself : failures.get run.taskId = if c.latest.get run.taskId = some generation then
      run'.last.bind (·.failure run.taskId) else c.failures.get run.taskId)
    (hother : ∀ other ≠ run.taskId, failures.get other = c.failures.get other) :
    Sound { c with running := running, failures := failures, runs := c.runs.set generation run' } := by
  refine ⟨fun hget => h.progress (hrunning hget), fun {other generation'} hget => ?_,
    fun {generation' run'} hget => ?_, fun other => ?_⟩
  · obtain ⟨owner, howner, htaskId⟩ := h.owner hget
    by_cases heq : generation' = generation
    · subst heq
      cases hrun.symm.trans howner
      exact ⟨run', Table.get_set_self .., htask.trans htaskId⟩
    · exact ⟨owner, (Table.get_set_of_ne heq).trans howner, htaskId⟩
  · by_cases heq : generation' = generation
    · subst heq
      exact h.fresh hrun
    · exact h.fresh ((Table.get_set_of_ne heq).symm.trans hget)
  · have hkept := h.kept other
    dsimp only
    cases hlatest : c.latest.get other with
    | none =>
      rw [hlatest] at hkept
      by_cases hne : other = run.taskId
      · subst hne
        rw [hself, hlatest, if_neg nofun, hkept]
        rfl
      · rw [hother other hne, hkept]
        rfl
    | some generation' =>
      rw [hlatest, Option.bind_some] at hkept
      obtain ⟨owner, howner, htaskId⟩ := h.owner hlatest
      rw [Option.bind_some, Checker.verdict]
      by_cases heq : generation' = generation
      · subst heq
        cases hrun.symm.trans howner
        rw [Table.get_set_self, Option.bind_some, ← htaskId, hself, htaskId, if_pos hlatest, htask,
          htaskId]
      · rw [Table.get_set_of_ne heq, ← Checker.verdict, ← hkept]
        by_cases hne : other = run.taskId
        · subst hne
          rw [hself, hlatest, if_neg (by simpa using heq)]
        · exact hother other hne

lemma Sound.report (h : Sound c) (hprogress : InProgress c generation) (stage stage' : Stage)
    (state : RunState) (items : List AutoCheckItem) (atMs : ℕ) :
    Sound (c.report generation stage stage' state items atMs) := by
  unfold Checker.report
  split
  · next run hrun =>
    split
    · refine h.advance hrun rfl id ?_ fun other hne => get_remember_of_ne _ hne
      rw [get_remember_self, if_pos (h.progress (hprogress run hrun))]
      rfl
    · exact h
  · exact h

lemma Sound.finish (h : Sound c) (generation : ℕ) : Sound (c.finish generation) := by
  unfold Checker.finish
  split
  · next run hrun =>
    split
    · refine h.advance hrun rfl (fun {other generation'} hget => ?_) ?_ fun _ _ => rfl
      · split at hget
        · by_cases hne : other = run.taskId
          · rw [hne, Table.get_erase_self] at hget
            cases hget
          · rwa [Table.get_erase_of_ne hne] at hget
        · exact hget
      · split
        · next hlatest => rw [h.kept, hlatest, Option.bind_some, Checker.verdict, hrun, Option.bind_some]
        · rfl
    · exact h
  · exact h

lemma Sound.step {m : Move} (h : Sound c) (htimely : m.Timely c) : Sound (step c m) := by
  cases m with
  | start taskId turnId chosen => exact h.start taskId turnId chosen
  | cancel taskId => exact h.cancel taskId
  | skip | begin_ | conclude => exact h.report htimely ..
  | finish generation => exact h.finish generation

lemma Sound.taskId_eq (h : Sound c) {failure : CheckFailure}
    (hget : c.failures.get taskId = some failure) : failure.taskId = taskId := by
  rw [h.kept] at hget
  obtain ⟨generation, hlatest, hverdict⟩ := Option.bind_eq_some_iff.mp hget
  obtain ⟨run, hrun, howner⟩ := h.owner hlatest
  rw [Checker.verdict, hrun, Option.bind_some] at hverdict
  obtain ⟨u, -, hfailure⟩ := Option.bind_eq_some_iff.mp hverdict
  exact (failure_taskId hfailure).trans howner

lemma Sound.mem_listed (h : Sound c) {failure : CheckFailure} :
    failure ∈ c.listed ∧ failure.taskId = taskId ↔
      (c.latest.get taskId).bind c.verdict = some failure := by
  rw [← h.kept, Checker.listed, List.mem_insertionSort, Table.mem_values]
  constructor
  · rintro ⟨⟨other, hget⟩, htask⟩
    rwa [← htask, h.taskId_eq hget]
  · exact fun hget => ⟨⟨taskId, hget⟩, h.taskId_eq hget⟩

lemma Sound.truthful (h : Sound c) : Truthful c where
  idle _ _ _ := h.mem_listed
  busy taskId generation hrunning failure hmem htask := by
    have hverdict := h.mem_listed.mp ⟨hmem, htask⟩
    rwa [h.progress hrunning] at hverdict

/-- No run reports after it was cancelled or another one was started. -/
theorem truthful_of_timely (moves : List Move)
    (h : Along step (fun c m => m.Timely c) .new moves) : Truthful (run moves) :=
  (Along.invariant (Along.iff.mp h) sound_new (fun _ _ => Sound.step) List.prefix_rfl).truthful

def failedTests : List AutoCheckItem := [⟨.tests, .failed, ["it_works"]⟩]

/-- The first run is cancelled by the second turn and reports nothing more. -/
def rerun : List Move :=
  [.start "t" "turn-1" true, .begin_ 1 10, .cancel "t", .start "t" "turn-2" true, .begin_ 2 20,
    .conclude 2 failedTests 30, .finish 2]

theorem truthful_rerun : Along step (fun c m => m.Timely c) .new rerun ∧ Truthful (run rerun) ∧
    (run rerun).listed = [⟨"t", "turn-2", "测试 1 项失败", 30⟩] :=
  ⟨by decide, truthful_of_timely rerun (by decide), by decide⟩

/-- The first run notices only after the second one has failed that it was cancelled. -/
def lateReport : List Move :=
  [.start "t" "turn-1" true, .begin_ 1 10, .start "t" "turn-2" true, .begin_ 2 20,
    .conclude 2 failedTests 30, .finish 2, .conclude 1 [⟨.tests, .cancelled, []⟩] 40, .finish 1]

theorem not_truthful_of_lateReport : ¬ Truthful (run lateReport) := by
  intro h
  have hlisted : (run lateReport).listed = [] := by decide
  have hmem := (h.idle "t" (by decide) ⟨"t", "turn-2", "测试 1 项失败", 30⟩).mpr (by decide)
  rw [hlisted] at hmem
  exact List.not_mem_nil hmem.1

end Aeroric.AutoCheck
