import Aeroric.TaskCommit
import Aeroric.TaskCalls

/-! The frame of a call addressed to one task: the ids of every stored list stay, in their
order, and no other row changes beyond its copy of the generation. Every call keeps it but
one: a launch whose process does not come up writes the row it marks as the whole list. -/
namespace Aeroric.TaskFrame

open TaskRecord TaskSession TaskReducer TaskEdit TaskLaunch TaskLedger TaskStorage TaskWorld
open TaskService TaskInterface TaskSpec TaskCommit TaskLaunched TaskCalls
open Call (exec)

variable {c : Context} {env : Env} {w w' : World} {p t : String} {l l' l'' : List Record}

/-- The same id; and the same row up to its generation copy, unless it is the task's. -/
def RowFrame (t : String) (r s : Record) : Prop :=
  s.id = r.id ∧ (r.id ≠ some t → Record.AgreesOff ["generation"] r s)

def Frame (t : String) (l l' : List Record) : Prop := List.Forall₂ (RowFrame t) l l'

def FrameKept (t : String) (w w' : World) : Prop := ∀ p, Frame t (stored w p) (stored w' p)

lemma RowFrame.refl (t : String) (r : Record) : RowFrame t r r := ⟨rfl, fun _ => .refl _ r⟩

lemma RowFrame.trans {r s u : Record} (h : RowFrame t r s) (g : RowFrame t s u) :
    RowFrame t r u :=
  ⟨g.1.trans h.1, fun hr => (h.2 hr).trans (g.2 (h.1 ▸ hr))⟩

lemma RowFrame.of_task {r s : Record} (hr : r.id = some t) (hs : s.id = some t) :
    RowFrame t r s := ⟨hs.trans hr.symm, fun h => absurd hr h⟩

lemma Frame.refl (t : String) (l : List Record) : Frame t l l :=
  List.forall₂_same.mpr fun r _ => .refl t r

lemma Frame.trans (h : Frame t l l') (g : Frame t l' l'') : Frame t l l'' := by
  induction h generalizing l'' with
  | nil => exact g
  | cons hr _ ih =>
    cases g with
    | cons gr gs => exact .cons (hr.trans gr) (ih gs)

lemma Frame.of_edit {keys : List String} {touched : Record → Prop}
    (h : ListEdit keys touched l l') (ht : ∀ r, touched r → r.id = some t) (hid : "id" ∉ keys) :
    Frame t l l' := by
  refine List.Forall₂.imp (fun r s hr => ?_) h
  refine ⟨hr.1.id hid, fun hne => ?_⟩
  rw [hr.2 fun htouched => hne (ht r htouched)]
  exact .refl _ r

lemma Frame.updateFirst {f : Record → Record} (h : ∀ r, (f r).id = some t) (l : List Record) :
    Frame t l (updateFirst t f l) := by
  induction l with
  | nil => exact .nil
  | cons r rs ih =>
    unfold TaskReducer.updateFirst
    split
    · next hr => exact .cons (.of_task hr (h r)) (Frame.refl t rs)
    · exact .cons (.refl t r) ih

lemma stampGenerationCopies_edit (ledger : Ledger) (l : List Record) :
    ListEdit ["generation"] (fun _ => True) l (stampGenerationCopies ledger l) := by
  refine ListEdit.map (fun r => ?_) l
  split
  · exact .refl r
  · dsimp only
    split
    · exact .refl r
    · exact .of_touched ((Record.AgreesOff.refl _ r).insert _ (by decide)) trivial

lemma Frame.stamped (h : Frame t l l') (ledger : Ledger) :
    Frame t l (stampGenerationCopies ledger l') :=
  h.trans <| List.Forall₂.imp (fun _ _ hr => ⟨hr.1.id (by decide), fun _ => hr.1⟩)
    (stampGenerationCopies_edit ledger l')

lemma FrameKept.trans {w'' : World} (h : FrameKept t w w') (g : FrameKept t w' w'') :
    FrameKept t w w'' := fun p => (h p).trans (g p)

lemma FrameKept.of_tasks (h : w'.disk.tasks = w.disk.tasks) : FrameKept t w w' := by
  intro p
  rw [stored, stored, h]
  exact .refl t _

variable {persist : Persist}

lemma FrameKept.of_published {refusal : Option StorageError}
    {rows : List Record} {r : Except TaskError Applied}
    (h : Published persist refusal p rows w r w') (hrows : Frame t (stored w p) rows) :
    FrameKept t w w' := by
  intro q
  by_cases hq : q = p
  · subst hq
    rcases h.stored_self with h' | h' <;> rw [h']
    · exact .refl t _
    · exact hrows
  · rw [h.stored_other hq]
    exact .refl t _

lemma FrameKept.of_readModifyWrite {decision : List Record → Except TaskError (Option (List Record))}
    (h : ∀ l l', decision l = .ok (some l') → Frame t l l') (w : World) :
    FrameKept t w (exec (readModifyWrite env p decision (finish c env p persist)) w).2 := by
  rcases readModifyWrite_cases env p decision (finish c env p persist) w with
    ⟨r, hr⟩ | ⟨l, hl, hr⟩ <;> rw [hr]
  · exact .of_tasks rfl
  · exact .of_published (finishIntent_published _ p persist l w) ((h _ _ hl).stamped _)

lemma onRow_some {q t : String} {decision : Record → List Record → Option (List Record)}
    (h : onRow q t decision l = .ok (some l')) :
    ∃ r, find l t = some r ∧ decision r l = some l' := by
  unfold onRow at h
  split at h
  · next r hr => exact ⟨r, hr, Except.ok.inj h⟩
  · cases h

lemma ifListMoved_some {next : List Record × Bool} (h : ifListMoved l next = some l') :
    l' = next.1 := by
  unfold ifListMoved at h
  split at h
  · cases h
  · exact (Option.some.inj h).symm

lemma metadataEdit_frame {change : List Record → List Record} (h : ∀ l, Frame t l (change l))
    (q : String) (persist : Persist) (w : World) :
    FrameKept t w (exec (metadataEdit c env p q persist change) w).2 := by
  refine FrameKept.of_readModifyWrite (fun l l' hl => ?_) w
  obtain ⟨r, -, hr⟩ := onRow_some hl
  rw [ifListMoved_some hr]
  exact h l

lemma metadataBatch_frame {change : List Record → List Record × Bool}
    (h : ∀ l, Frame t l (change l).1) (ids : List String) (persist : Persist) (w : World) :
    FrameKept t w (exec (metadataBatch c env p ids persist change) w).2 := by
  refine FrameKept.of_readModifyWrite (fun l l' hl => ?_) w
  split at hl
  · cases hl
  · rw [ifListMoved_some (Except.ok.inj hl)]
    exact h l

lemma runRename_frame (name : String) (expect : Option RenameExpect) (persist : Persist)
    (w : World) : FrameKept t w (exec (runRename c env p t name expect persist) w).2 := by
  refine FrameKept.of_readModifyWrite (fun l l' hl => ?_) w
  obtain ⟨r, -, hr⟩ := onRow_some hl
  split at hr
  · cases hr
  · rw [ifListMoved_some hr]
    exact .of_edit (rename_edit l t name) (fun _ h => h) (by decide)

def resumeKeys : List String := sessionKeys ++ ["agent", "status", "attentionRequestedAt",
  "failureReason"]

lemma resumedRow_agreesOff (agent : String) (family : ProtocolFamily) (sid path : Option String)
    (r : Record) : Record.AgreesOff resumeKeys r (resumedRow agent family sid path r) :=
  ((((applyResolvedSession_agreesOff r _ sid path).mono (List.subset_append_left _ _)).insert _
    (by decide)).insert _ (by decide)).remove (by decide) |>.remove (by decide)

lemma resumeWithSessionWith_frame (agent : String) (family : ProtocolFamily)
    (sid path : Option String) (persist : Persist) (w : World) :
    FrameKept t w (exec (resumeWithSessionWith c env p t agent family sid path persist) w).2 := by
  refine FrameKept.of_readModifyWrite (fun l l' hl => ?_) w
  obtain ⟨r, hfound, hr⟩ := onRow_some hl
  dsimp only at hr
  split at hr
  · cases hr
  · obtain rfl := Option.some.inj hr
    exact Frame.updateFirst (fun _ =>
      ((resumedRow_agreesOff agent family sid path r).id (by decide)).trans (find_id hfound)) l

def switchKeys : List String := sessionKeys ++ ["agent", "selectedModel", "reasoningEffort",
  "speed", "permissionMode", "status", "attentionRequestedAt", "failureReason"]

lemma switchDelta_keys (values : ConfigSwitch) (previous resolved : SessionSnapshot) :
    (switchDelta values previous resolved).map Prod.fst ⊆ switchKeys := by
  unfold switchDelta
  rw [List.map_append]
  refine List.append_subset.mpr ⟨fun k hk => ?_, by simp only [List.map_cons, List.map_nil]; decide⟩
  obtain ⟨_, hmoved, rfl⟩ := List.mem_map.mp hk
  obtain ⟨⟨before, after⟩, hpair, rfl⟩ := List.mem_map.mp hmoved
  have hmem := (List.mem_filter.mp hpair).1
  have hentries : ∀ s : SessionSnapshot, s.entries.map Prod.fst ⊆ switchKeys := fun s => by
    intro k hk
    simp [SessionSnapshot.entries, ProtocolFamily.all, sessionIdKey, sessionPathKey, familyPrefix,
      ProtocolFamily.wire] at hk
    rcases hk with rfl | rfl | rfl | rfl | rfl | rfl | rfl | rfl | rfl | rfl | rfl <;> decide
  exact hentries resolved (List.mem_map_of_mem (List.of_mem_zip hmem).2)

lemma switchConfigWriteWith_frame (values : ConfigSwitch) (previous resolved : SessionSnapshot)
    (persist : Persist) (w : World) :
    FrameKept t w (exec (switchConfigWriteWith c env p t values previous resolved persist) w).2 := by
  refine FrameKept.of_readModifyWrite (fun l l' hl => ?_) w
  obtain ⟨r, -, hr⟩ := onRow_some hl
  dsimp only at hr
  split at hr
  · obtain rfl := Option.some.inj hr
    exact .of_edit (applyFieldDelta_edit l t _ (switchDelta_keys values previous resolved))
      (fun _ h => h) (by decide)
  · cases hr

lemma switchedRow_agreesOff (o : SessionOwner) (values : ConfigSwitch) (sid path : Option String)
    (r : Record) : Record.AgreesOff switchKeys r (switchedRow o values sid path r) := by
  have h := (applyResolvedSession_agreesOff r o sid path).mono
    (List.subset_append_left _ _ : sessionKeys ⊆ switchKeys)
  exact ((((((((h.insert _ (by decide)).write _ (by decide)).write _ (by decide)).write _
    (by decide)).insert _ (by decide)).insert _ (by decide)).remove (by decide)).remove (by decide))

lemma decideSwitch_agreesOff {values : ConfigSwitch} {observed : SwitchEvidence}
    {reset : ResetOutcome} {previous row : Record} {strategy : ConfigSwitchStrategy}
    (h : decideSwitch c values observed reset previous = (strategy, some row)) :
    Record.AgreesOff switchKeys previous row := by
  unfold decideSwitch at h
  dsimp only at h
  split at h
  · cases h
  · obtain ⟨-, rfl⟩ := Prod.mk.inj h |>.imp_right Option.some.inj
    exact ((mergeResetSession_agreesOff previous reset).mono (List.subset_append_left _ _)).trans
      (switchedRow_agreesOff _ values _ _ _)

lemma tasks_mirrored (answer : WriteAnswer) (f : Ledger → Ledger) (w : World) :
    (mirrored answer f w).disk.tasks = w.disk.tasks := storeLedger_tasks _ _ _

lemma tasks_acknowledge (answer : WriteAnswer) (t : String) (w : World) :
    (exec (acknowledge answer t) w).2.disk.tasks = w.disk.tasks := by
  simp only [acknowledge, Call.exec_modify]
  split
  · exact storeLedger_tasks _ _ _
  · rfl

lemma tasks_settledFor (event : TaskEvent) (reported : TaskStatus) (w : World) :
    (settledFor env event reported w).disk.tasks = w.disk.tasks := by
  unfold settledFor
  split
  · exact tasks_mirrored _ _ w
  · rfl

lemma FrameKept.of_observed {event : TaskEvent}
    {r : Except TaskError (EventOutcome × Applied)} (h : Observed c env p event persist w r w') :
    FrameKept event.taskId w w' := by
  cases h with
  | unreadable | stale | future | unattended => exact .of_tasks rfl
  | ready => exact .of_tasks (tasks_mirrored _ _ w)
  | unmoved => exact .of_tasks (tasks_settledFor _ _ w)
  | moved hadm reported attention reason guarded hrep hmoved r w' hstore =>
    have hkept : FrameKept event.taskId w (settledFor env event reported w) :=
      .of_tasks (tasks_settledFor event reported w)
    have hpub := storeObserved_published c env p persist
      (observedList env p event reported attention reason w).records
      (settledFor env event reported w)
    rw [hstore] at hpub
    refine hkept.trans (.of_published hpub (Frame.stamped ?_ _))
    rw [stored, tasks_settledFor, ← stored]
    exact .of_edit (applyStatusTransition_edit _ _ _ _ _ _) (fun _ h => h) (by decide)

lemma FrameKept.of_switched {project : Project} {key : String} {values : ConfigSwitch}
    {observed : SwitchEvidence} {r : Except TaskError (ConfigSwitchStrategy × Applied)}
    (h : Switched c env project t key values observed w r w') : FrameKept t w w' := by
  have saved : ∀ {previous row : Record} {reset : ResetOutcome} {strategy : ConfigSwitchStrategy},
      find (stored w (project.id.getD "")) t = some previous →
      decideSwitch c values observed reset previous = (strategy, some row) →
      FrameKept t w (saveSwitch env project t key row w).2 := by
    intro previous row reset strategy hrow hdecide
    have hkept : FrameKept t w (resetting env t key w) := .of_tasks rfl
    refine hkept.trans (.of_published (commit_published _ _ _ _) (Frame.stamped ?_ _))
    exact Frame.updateFirst (fun _ =>
      ((decideSwitch_agreesOff hdecide).id (by decide)).trans (find_id hrow)) _
  cases h with
  | refused => exact .of_tasks rfl
  | undone => exact .of_tasks (tasks_mirrored _ _ _)
  | unsaved _ previous hrow reset _ strategy row hdecide e w1 hsave =>
    have h1 := saved hrow hdecide
    rw [hsave] at h1
    exact h1.trans (.of_tasks (tasks_mirrored _ _ _))
  | saved _ previous hrow reset _ strategy row hdecide a w1 hsave =>
    have h1 := saved hrow hdecide
    rw [hsave] at h1
    refine h1.trans (.of_tasks ((tasks_mirrored _ _ _).trans ?_))
    split
    · exact tasks_acknowledge _ _ _
    · rfl

lemma complete_frame (project : Project) (w : World) :
    FrameKept t w (exec (complete c env project t) w).2 := by
  rcases complete_cases c env project t w with
    ⟨r, h⟩ | ⟨r, path, h⟩ | ⟨record, -, -, h⟩ <;> rw [h]
  · exact .of_tasks rfl
  · exact .of_tasks rfl
  · exact .of_published (commit_published _ _ _ w) (Frame.stamped
      (.of_edit (applyStatusTransition_edit _ _ _ _ _ _) (fun _ h => h) (by decide)) _)

lemma cancel_frame (project : Project) (w : World) :
    FrameKept t w (exec (cancel c env project t) w).2 := by
  rcases cancel_cases c env project t w with
    ⟨e, h⟩ | ⟨target, ⟨-, e, h⟩ | ⟨-, h⟩⟩ <;> rw [h]
  · exact .of_tasks rfl
  · exact .of_tasks rfl
  · exact .of_tasks (tasks_mirrored _ _ _)

/-- The row of a failed spawn gets marked: its project's list can be read and replaced, and
the row is in it. -/
def MarksRow (c : Context) (env : Env) (persist : Persist) (q t : String) (w : World) : Prop :=
  (loadStamped (env.read .abandon) w.disk q).isOk ∧ (find (stored w q) t).isSome ∧
    persist ≠ .decideOnly ∧ listRefusal c (env.publish .abandon) q w.disk persist = none

lemma marked_cases (c : Context) (env : Env) (persist : Persist) (failure : ExecutorFailure)
    (q t : String) (w : World) :
    (¬ MarksRow c env persist q t w ∧
      (marked c env persist failure q t w).disk.tasks = w.disk.tasks) ∨
    (MarksRow c env persist q t w ∧
      (∃ s, s.id = some t ∧ stored (marked c env persist failure q t w) q = [s]) ∧
      ∀ x ≠ q, stored (marked c env persist failure q t w) x = stored w x) := by
  unfold MarksRow marked
  cases hl : loadStamped (env.read .abandon) w.disk q with
  | error e => exact .inl ⟨by simp [Except.isOk, Except.toBool], rfl⟩
  | ok snapshot =>
  cases hf : find (stored w q) t with
  | none => exact .inl ⟨by simp, rfl⟩
  | some current =>
  have hpub := persistLaunch_published (c := c) (env.publish .abandon) q persist
    (failedList env failure t current) w
  by_cases hd : persist = .decideOnly
  · subst hd
    exact .inl ⟨by simp, rfl⟩
  cases hr : listRefusal c (env.publish .abandon) q w.disk persist with
  | some e =>
    rw [hr] at hpub
    exact .inl ⟨by simp, hpub.tasks_of_refused⟩
  | none =>
    rw [hr] at hpub
    refine .inr ⟨⟨rfl, rfl, hd, rfl⟩, ?_, fun x hx => hpub.stored_other hx⟩
    have hframe : Frame t [current]
        (stampGenerationCopies w.ledger (failedList env failure t current)) :=
      Frame.stamped (.of_edit (applyStatusTransition_edit _ _ _ _ _ _) (fun _ h => h) (by decide)) _
    cases hs : stampGenerationCopies w.ledger (failedList env failure t current) with
    | nil => rw [hs] at hframe; cases hframe
    | cons s rest =>
      rw [hs] at hframe
      cases hframe with
      | cons hrow hrest =>
        cases hrest
        exact ⟨s, hrow.1.trans (find_id hf), (hpub.stored_of_accepted hd).trans hs⟩

/-- Marking keeps the frame exactly when the list it writes back was no longer than it. -/
lemma marked_frame {failure : ExecutorFailure} {q : String}
    (h : FrameKept t w w') : FrameKept t w (marked c env persist failure q t w') ↔
      ¬ (MarksRow c env persist q t w' ∧ (stored w q).length ≠ 1) := by
  rcases marked_cases c env persist failure q t w' with ⟨hno, htasks⟩ | ⟨hyes, ⟨s, hs, hq⟩, hx⟩
  · exact iff_of_true (h.trans (.of_tasks htasks)) fun hm => hno hm.1
  · constructor
    · rintro hkept ⟨-, hlen⟩
      have := (hkept q).length_eq
      rw [hq] at this
      exact hlen this
    · intro hlen x
      by_cases hxq : x = q
      · subst hxq
        obtain ⟨r, hr⟩ := List.length_eq_one_iff.mp (not_not.mp fun hne => hlen ⟨hyes, hne⟩)
        have hr' := h x
        rw [hq]
        rw [hr] at hr' ⊢
        generalize hw' : stored w' x = l' at hr'
        cases hr' with
        | @cons _ kept _ _ hrow hrest =>
          cases hrest
          obtain ⟨found, hfound⟩ := Option.isSome_iff_exists.mp hyes.2.1
          rw [hw'] at hfound
          have hid := find_id hfound
          obtain rfl : found = kept := List.mem_singleton.mp (List.mem_of_find?_eq_some hfound)
          exact .cons (.of_task (hrow.1.symm.trans hid) hs) .nil
      · rw [hx x hxq]
        exact h x

/-- A launch that is saved and fails to spawn gets to write the list of project `q` once
more: the list it has just saved, where only the outside can hold it up, or another one. -/
def WritesBack (c : Context) (env : Env) (p : String) (persist : Persist) (q t : String)
    (w : World) : Prop :=
  (if q = p then env.read .abandon = none
    else (loadStamped (env.read .abandon) w.disk q).isOk ∧ (find (stored w q) t).isSome) ∧
  if persist = .commit ∧ q = p then (env.publish .abandon).list = .yes
  else listRefusal c (env.publish .abandon) q w.disk persist = none

/-- The save goes through, the executor fails, and the project the row names has a list that
is written back with another number of rows. -/
def LosesRows (c : Context) (env : Env) (p t : String) (persist : Persist) (w : World) : Prop :=
  Stores c (env.publish .main) p w.disk persist ∧ env.executor.isSome ∧
    ∃ q, (find (stored w p) t).bind (·.strField "projectId") = some q ∧
      WritesBack c env p persist q t w ∧ (stored w q).length ≠ 1

lemma loadStamped_isOk {f : Option Fault} {d : Disk} {spelling : ℕ} {rows : List Record}
    (hid : validateId p "project" = .ok ()) (h : d.tasks p = some ⟨spelling, .rows rows⟩) :
    (loadStamped f d p).isOk ↔ f = none := by
  unfold loadStamped
  rw [hid, h]
  cases f <;> simp [Except.isOk, Except.toBool]

lemma validateId_of_load {f : Option Fault} {d : Disk} (h : (loadStamped f d p).isOk) :
    validateId p "project" = .ok () := by
  unfold loadStamped at h
  cases hv : validateId p "project" with
  | ok => rfl
  | error e => simp [hv, Except.isOk, Except.toBool] at h

lemma loadStamped_congr {f : Option Fault} {d e : Disk} (h : d.tasks p = e.tasks p) :
    loadStamped f d p = loadStamped f e p := by
  unfold loadStamped
  rw [h]

lemma find_isSome_updateFirst {f : Record → Record} (hf : ∀ r, (f r).id = some t)
    (h : (find l t).isSome) : (find (updateFirst t f l) t).isSome := by
  induction l with
  | nil => simp [find] at h
  | cons r rs ih =>
    unfold TaskReducer.updateFirst
    split
    · simp [find, hf]
    · next hr => simpa [find, hr] using ih (by simpa [find, hr] using h)

lemma find_isSome_stamped (ledger : Ledger) (h : (find l t).isSome) :
    (find (stampGenerationCopies ledger l) t).isSome := by
  rcases (stampGenerationCopies_edit ledger l).find (by decide) t with ⟨h', -⟩ | ⟨r, s, -, hs, -⟩
  · simp [h'] at h
  · simp [hs]

lemma listRefusal_congr {answer : PublishAnswer} {d e : Disk} (ht : d.tasks = e.tasks)
    (hr : d.runtime = e.runtime) (q : String) (persist : Persist) :
    listRefusal c answer q d persist = listRefusal c answer q e persist := by
  unfold listRefusal saveRefusal checkWriter checkCover recordedCover
  rw [ht, hr]

lemma acknowledged_tasks (env : Env) (t : String) (kind : OperationKind) (w : World) :
    (acknowledged env t kind w).disk.tasks = w.disk.tasks := by
  unfold acknowledged
  split
  · exact tasks_acknowledge _ _ w
  · rfl

lemma acknowledged_runtime (env : Env) (t : String) (kind : OperationKind) (w : World) :
    (acknowledged env t kind w).disk.runtime = w.disk.runtime := by
  unfold acknowledged
  split
  · simp only [acknowledge, Call.exec_modify]
    split
    · exact storeLedger_runtime _ _ _
    · rfl
  · rfl

section Launch

variable {project : Project} {kind : OperationKind} {key : String} {persist : Persist}
  {record : Record}

lemma saveLaunch_frame (c : Context) (env : Env) (kind : OperationKind) (key : String)
    (persist : Persist) (hrow : find (stored w (project.id.getD "")) t = some record) :
    FrameKept t w (saveLaunch c env project t kind key persist record w).2 := by
  have hkept : FrameKept t w (taken t kind key (env.clock .main) w) := .of_tasks rfl
  refine hkept.trans (.of_published (persistLaunch_published _ _ _ _ _) (Frame.stamped ?_ _))
  exact Frame.updateFirst (fun _ =>
    ((prepareForLaunch_agreesOff record kind).id (by decide)).trans (find_id hrow)) _

lemma prepared_ne_nil (hrow : find (stored w (project.id.getD "")) t = some record)
    (f : Record → Record) : updateFirst t f (stored w (project.id.getD "")) ≠ [] := by
  cases hs : stored w (project.id.getD "") with
  | nil => simp [hs, find] at hrow
  | cons r rs =>
    unfold TaskReducer.updateFirst
    split <;> exact List.cons_ne_nil _ _

/-- Once the save went through, the marking of a failed spawn goes as the state before the
call says. -/
lemma marksRow_saved (hid : validateId (project.id.getD "") "project" = .ok ())
    (hrow : find (stored w (project.id.getD "")) t = some record)
    (hstores : Stores c (env.publish .main) (project.id.getD "") w.disk persist)
    {a : Applied} {w1 : World}
    (hsave : saveLaunch c env project t kind key persist record w = (.ok a, w1))
    (request : ExecutorRequest) (failure : Option ExecutorFailure) (q : String) :
    MarksRow c env persist q t (asked (acknowledged env t kind w1) request failure) ↔
      WritesBack c env (project.id.getD "") persist q t w := by
  have hprep : (prepareForLaunch record kind).id = some t :=
    ((prepareForLaunch_agreesOff record kind).id (by decide)).trans (find_id hrow)
  have hfound := find_isSome_updateFirst (fun _ => hprep) (Option.isSome_of_eq_some hrow)
  obtain ⟨a', spelling, disk, htasks, hexec, hagain⟩ := persistLaunch_stores
    (w := taken t kind key (env.clock .main) w) hstores
    (prepared_ne_nil hrow fun _ => prepareForLaunch record kind)
  obtain rfl : { attempted _ _ _ _ with disk := disk } = w1 :=
    congrArg Prod.snd (hexec.symm.trans hsave)
  generalize hw2 : asked (acknowledged env t kind _) request failure = w2
  have ht2 : w2.disk.tasks = disk.tasks := by
    rw [← hw2]
    exact acknowledged_tasks env t kind _
  have hr2 : w2.disk.runtime = disk.runtime := by
    rw [← hw2]
    exact acknowledged_runtime env t kind _
  unfold MarksRow WritesBack
  rw [listRefusal_congr ht2 hr2, hagain]
  have hmode : persist ≠ .decideOnly := by rintro rfl; exact hstores
  by_cases hq : q = project.id.getD ""
  · subst hq
    have hself : w2.disk.tasks (project.id.getD "") = some ⟨spelling, .rows (stampGenerationCopies
        (taken t kind key (env.clock .main) w).ledger (updateFirst t
          (fun _ => prepareForLaunch record kind) (stored w (project.id.getD ""))))⟩ := by
      rw [ht2, htasks, Function.update_self]
    have hstored : (find (stored w2 (project.id.getD "")) t).isSome := by
      rw [stored, hself]
      exact find_isSome_stamped _ hfound
    simp only [loadStamped_isOk hid hself, hstored, hmode, if_true, and_true, true_and, ne_eq,
      not_false_eq_true]
    rfl
  · have hother : w2.disk.tasks q = w.disk.tasks q := by
      rw [ht2, htasks, Function.update_of_ne hq]
      rfl
    have hstored : stored w2 q = stored w q := by rw [stored, hother, stored]
    simp only [loadStamped_congr hother, hstored, hmode, hq, if_false, and_false, true_and, ne_eq,
      not_false_eq_true, and_assoc]
    rfl

lemma launched_frame {guard : Prop} {attachments : Attachments} {pbl : Bool}
    {r : Except TaskError Applied} (hguard : guard → Begins env project t kind key attachments w)
    (h : Launched guard c env project t kind key pbl persist w r w') :
    FrameKept t w w' ↔ ¬ (guard ∧ LosesRows c env (project.id.getD "") t persist w) := by
  have settled : ∀ answer f u, FrameKept t w (mirrored answer f u) ↔ FrameKept t w u :=
    fun answer f u => forall_congr' fun x => by rw [stored_mirrored]
  have saved : ∀ {record a w1}, find (stored w (project.id.getD "")) t = some record →
      saveLaunch c env project t kind key persist record w = (.ok a, w1) →
      FrameKept t w (acknowledged env t kind w1) := fun hrow hsave => by
    have h1 := saveLaunch_frame c env kind key persist hrow
    rw [hsave] at h1
    exact h1.trans (.of_tasks (acknowledged_tasks env t kind _))
  cases h with
  | refused hno => exact iff_of_true (.of_tasks rfl) fun hl => hno hl.1
  | unsaved _ _ record hrow e w1 hsave =>
    refine iff_of_true ?_ fun hl => ?_
    · have h1 := saveLaunch_frame c env kind key persist hrow
      rw [hsave] at h1
      exact (settled _ _ _).mpr h1
    · obtain ⟨a, spelling, disk, -, hexec, -⟩ := persistLaunch_stores
        (w := taken t kind key (env.clock .main) w) hl.2.1
        (prepared_ne_nil hrow fun _ => prepareForLaunch record kind)
      cases hexec.symm.trans hsave
  | unspawned hg _ record hrow applied w1 hsave e w2 hspawn =>
    rw [settled]
    cases hspawn with
    | unasked _ hq =>
      refine iff_of_true (saved hrow hsave) ?_
      rintro ⟨-, -, -, q, hq', -⟩
      have : record.strField "projectId" = none :=
        ((prepareForLaunch_agreesOff record kind).strField (by decide)).symm.trans hq
      simp [hrow, this] at hq'
    | failed request hatt failure hexec q hq =>
      have hstores : Stores c (env.publish .main) (project.id.getD "") w.disk persist := by
        by_contra hno
        obtain ⟨e, he⟩ := persistLaunch_not_stores
          (w := taken t kind key (env.clock .main) w) hno
          (updateFirst t (fun _ => prepareForLaunch record kind) (stored w (project.id.getD "")))
        cases he.symm.trans (congrArg Prod.fst hsave)
      have hproject : (find (stored w (project.id.getD "")) t).bind (·.strField "projectId") =
          some q := by
        rw [hrow]
        exact ((prepareForLaunch_agreesOff record kind).strField (by decide)).symm.trans hq
      have hkept : FrameKept t w (asked (acknowledged env t kind w1) request (some failure)) :=
        (saved hrow hsave).trans (.of_tasks rfl)
      rw [settled, marked_frame hkept, marksRow_saved (validateId_of_load (hguard hg).1.2.1) hrow
        hstores hsave, not_iff_not]
      constructor
      · rintro ⟨hback, hlen⟩
        exact ⟨hg, hstores, by simp [hexec], q, hproject, hback, hlen⟩
      · rintro ⟨-, -, -, q', hq', hback, hlen⟩
        obtain rfl : q = q' := Option.some.inj (hproject.symm.trans hq')
        exact ⟨hback, hlen⟩
  | spawned _ _ record hrow applied w1 hsave w2 hspawn =>
    cases hspawn with
    | up request hatt hexec =>
      refine iff_of_true ?_ fun hl => by simpa [hexec] using hl.2.2.1
      have hkept : FrameKept t w (asked (acknowledged env t kind w1) request none) :=
        (saved hrow hsave).trans (.of_tasks rfl)
      split
      · exact hkept
      · exact (settled _ _ _).mpr hkept

end Launch

def AddressedTo (t : String) : Request → Prop
  | .start _ taskId _ _ _ _ => taskId = t
  | .resume _ taskId _ _ _ _ _ => taskId = t
  | .switchConfig _ taskId _ _ _ => taskId = t
  | .observe _ event _ => event.taskId = t
  | .complete _ taskId => taskId = t
  | .cancel _ taskId => taskId = t
  | .detachSession _ taskId => taskId = t
  | .resumeWithSession _ taskId _ _ _ _ => taskId = t
  | .switchConfigWrite _ taskId _ _ _ => taskId = t
  | .acknowledge taskId => taskId = t
  | .intent _ (.rename taskId _ _) _ => taskId = t
  | .intent _ (.toggleStar taskId) _ => taskId = t
  | .intent _ (.archive taskIds) _ => taskIds = [t]
  | .intent _ (.unarchive taskIds) _ => taskIds = [t]
  | .intent _ (.attachSession taskId _ _ _ _) _ => taskId = t
  | .intent _ (.setWorktree taskId _ _ _) _ => taskId = t
  | .intent _ (.discardWorktree taskId) _ => taskId = t
  | .intent _ (.recordDiffStats taskId _ _) _ => taskId = t
  | .intent _ (.switchConfig taskId _ _ _) _ => taskId = t
  | .intent _ (.resumeWithSession taskId _ _ _ _) _ => taskId = t
  | .intent _ (.editTodo taskId _ _ _) _ => taskId = t
  | _ => False

/-- The call is a launch that begins and then loses rows. -/
def LosesOn (c : Context) (env : Env) (w : World) : Request → Prop
  | .start project t key _ args persist =>
    Begins env project t .start key args.attachments w ∧
      LosesRows c env (project.id.getD "") t persist w
  | .resume project t sessionId key _ _ persist =>
    (Resumable env project t sessionId w ∧ Begins env project t .resume key ⟨[], []⟩ w) ∧
      LosesRows c env (project.id.getD "") t persist w
  | _ => False

lemma intent_frame (intent : TaskIntent) (persist : Persist) (w : World)
    (h : AddressedTo t (.intent p intent persist)) :
    FrameKept t w (exec (runIntent c env p intent persist) w).2 := by
  have hnamed : ∀ r : Record, named [t] r = true → r.id = some t := fun r hr => by
    cases hid : r.id <;> simp_all [named]
  unfold runIntent
  rw [Call.exec_serial]
  cases intent with
  | rename => cases h; exact runRename_frame _ _ _ w
  | toggleStar =>
    cases h
    exact metadataEdit_frame (fun l => .of_edit (toggleStar_edit l t) (fun _ h => h) (by decide)) _ _ w
  | archive =>
    cases h
    exact metadataBatch_frame (fun l => .of_edit (archive_edit l [t] _) hnamed (by decide)) _ _ w
  | unarchive =>
    cases h
    exact metadataBatch_frame (fun l => .of_edit (unarchive_edit l [t]) hnamed (by decide)) _ _ w
  | attachSession =>
    cases h
    exact metadataBatch_frame (fun l =>
      .of_edit (attachSession_edit l t _ _ _ _) (fun _ h => h) (by decide)) _ _ w
  | setWorktree =>
    cases h
    exact metadataBatch_frame (fun l =>
      .of_edit (setWorktree_edit l t _ _ _) (fun _ h => h) (by decide)) _ _ w
  | discardWorktree =>
    cases h
    exact metadataBatch_frame (fun l =>
      .of_edit (discardWorktree_edit l t) (fun _ h => h) (by decide)) _ _ w
  | recordDiffStats =>
    cases h
    exact metadataBatch_frame (fun l =>
      .of_edit (recordDiffStats_edit l t _ _) (fun _ h => h) (by decide)) _ _ w
  | switchConfig => cases h; exact switchConfigWriteWith_frame _ _ _ _ w
  | resumeWithSession => cases h; exact resumeWithSessionWith_frame _ _ _ _ _ w
  | editTodo =>
    cases h
    exact metadataBatch_frame (fun l =>
      .of_edit (editTodo_edit l t _ _ _) (fun _ h => h) (by decide)) _ _ w
  | create | delete | normalizeAfterBoot => exact h.elim

/-- A call about one task keeps the frame of every stored list, whatever the executor answers
and whatever the call returns, exactly when it is not a launch that loses rows. -/
theorem frameKept_iff_not_losesOn (c : Context) (env : Env) (req : Request) (t : String)
    (w : World) (h : AddressedTo t req) :
    FrameKept t w (exec (call c env req) w).2 ↔ ¬ LosesOn c env w req := by
  cases req with
  | start project taskId key pbl args persist =>
    obtain rfl : taskId = t := h
    simp only [call, exec_return]
    exact launched_frame (fun hg => hg) (startAs_launched project taskId key pbl args persist w)
  | resume project taskId sessionId key pbl size persist =>
    obtain rfl : taskId = t := h
    simp only [call, exec_return]
    exact launched_frame And.right (resumeAs_launched project taskId sessionId key pbl size persist w)
  | switchConfig project taskId key values observed =>
    obtain rfl : taskId = t := h
    simp only [call, exec_return]
    exact iff_of_true (.of_switched (switchConfig_switched project taskId key values observed w)) id
  | observe q event persist =>
    obtain rfl : event.taskId = t := h
    simp only [call, exec_return]
    exact iff_of_true (.of_observed (applyObservation_observed q event persist w)) id
  | complete project taskId =>
    obtain rfl : taskId = t := h
    simp only [call, exec_return]
    exact iff_of_true (complete_frame project w) id
  | cancel project taskId =>
    obtain rfl : taskId = t := h
    simp only [call, exec_return]
    exact iff_of_true (cancel_frame project w) id
  | detachSession q taskId =>
    obtain rfl : taskId = t := h
    simp only [call, exec_return, Call.exec_serial]
    exact iff_of_true (metadataBatch_frame (fun l =>
      .of_edit (detachSession_edit l taskId) (fun _ h => h) (by decide)) _ _ w) id
  | resumeWithSession q taskId agent family sid path =>
    obtain rfl : taskId = t := h
    simp only [call, exec_return]
    exact iff_of_true (resumeWithSessionWith_frame _ _ _ _ _ w) id
  | switchConfigWrite q taskId values previous resolved =>
    obtain rfl : taskId = t := h
    simp only [call, exec_return]
    exact iff_of_true (switchConfigWriteWith_frame _ _ _ _ w) id
  | intent q intent persist =>
    simp only [call, exec_return]
    exact iff_of_true (intent_frame intent persist w h) id
  | acknowledge taskId =>
    simp only [call, exec_return]
    exact iff_of_true (.of_tasks (tasks_acknowledge _ _ w)) id
  | create | delete | mutate | normalizeAfterBoot | settleOrphanedSessions | reconcile =>
    exact h.elim

/-- Two tasks of one local project, neither started. -/
def twoTasks : World :=
  .new (Disk.holding "p" [plainRow "p" "a" .todo, plainRow "p" "b" .todo])

def localProject : Project := ⟨some "p", some "/work", .absent, []⟩

def startOf (taskId operationKey : String) : Request :=
  .start localProject taskId operationKey true .plain .commit

theorem quiet_start_keepsFrame : AddressedTo "a" (startOf "a" "k") ∧
    FrameKept "a" twoTasks (exec (call .plain (.quiet 5) (startOf "a" "k")) twoTasks).2 := by
  refine ⟨rfl, (frameKept_iff_not_losesOn .plain (.quiet 5) (startOf "a" "k") "a" twoTasks rfl).mpr ?_⟩
  rintro ⟨-, -, hexec, -⟩
  cases hexec

set_option maxRecDepth 4000 in
/-- The start of one of two tasks fails at the executor and takes the other task's row with it. -/
theorem failed_start_breaks_frame : ((stored twoTasks "p").map Record.id).Nodup ∧
    AddressedTo "a" (startOf "a" "k") ∧
    ¬ FrameKept "a" twoTasks (exec (call .plain
      { Env.quiet 5 with executor := some (.spawn "no") } (startOf "a" "k")) twoTasks).2 := by
  refine ⟨by decide, rfl, fun hkept => ?_⟩
  have hlen := (hkept "p").length_eq
  revert hlen
  decide

end Aeroric.TaskFrame
