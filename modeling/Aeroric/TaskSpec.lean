import Aeroric.TaskInterface

/-! What each part of a call can do to the world, said once. A publish leaves the list as it
was or puts the new rows there; everything a call changes beside the lists is its ledger. -/
namespace Aeroric.TaskSpec

open TaskRecord TaskReducer TaskLedger TaskStorage TaskWorld TaskService TaskInterface
open Call (exec)

variable {c : Context} {env : Env} {w w' : World} {p : String}

@[simp] lemma mapError_ok {ε δ α : Type} (f : ε → δ) (a : α) :
    (Except.ok a : Except ε α).mapError f = .ok a := rfl

@[simp] lemma mapError_error {ε δ α : Type} (f : ε → δ) (e : ε) :
    (Except.error e : Except ε α).mapError f = .error (f e) := rfl

@[simp] lemma exec_load (f : Option Fault) (p : String) (w : World) :
    exec (load f p) w = ((loadStamped f w.disk p).mapError .storage, w) := rfl

@[simp] lemma exec_onLedger {α : Type} (f : Ledger → α × Ledger) (w : World) :
    exec (onLedger f) w = (.ok (f w.ledger).1, { w with ledger := (f w.ledger).2 }) := rfl

@[simp] lemma exec_mirrorLedger (answer : WriteAnswer) (f : Ledger → Ledger) (w : World) :
    exec (mirrorLedger answer f) w = (.ok (), { w with
      ledger := f w.ledger
      disk := (storeLedger answer (f w.ledger) w.disk).2 }) := rfl

@[simp] lemma exec_askExecutor (request : ExecutorRequest)
    (failure : Option TaskLaunch.ExecutorFailure) (w : World) :
    exec (askExecutor request failure) w =
      (.ok (), { w with calls := w.calls ++ [⟨request, failure, w.disk.tasks⟩] }) := rfl

lemma loadStamped_records {f : Option Fault} {snapshot : StampedTasks}
    (h : loadStamped f w.disk p = .ok snapshot) : snapshot.records = stored w p := by
  unfold loadStamped at h
  unfold stored rowsOf
  split at h <;> simp_all
  all_goals subst h; rfl

lemma bumpCovering_cases (answer : WriteAnswer) (key : String) (cover : Option Fingerprint)
    (d : Disk) : (∃ e, bumpCovering answer key cover d = (.error e, d)) ∨
      ∃ n file, bumpCovering answer key cover d = (.ok n, { d with runtime := file }) := by
  unfold bumpCovering
  split
  · exact .inl ⟨_, rfl⟩
  · exact .inr ⟨_, _, rfl⟩

lemma storeLedger_cases (answer : WriteAnswer) (l : Ledger) (d : Disk) :
    (∃ e, storeLedger answer l d = (.error e, d)) ∨
      storeLedger answer l d = (.ok (), { d with operations := some l }) := by
  unfold storeLedger
  split
  · exact .inl ⟨_, rfl⟩
  · split
    · exact .inl ⟨_, rfl⟩
    · exact .inr rfl

@[simp] lemma storeLedger_tasks (answer : WriteAnswer) (l : Ledger) (d : Disk) :
    (storeLedger answer l d).2.tasks = d.tasks := by
  obtain ⟨e, h⟩ | h := storeLedger_cases answer l d <;> rw [h]

@[simp] lemma storeLedger_runtime (answer : WriteAnswer) (l : Ledger) (d : Disk) :
    (storeLedger answer l d).2.runtime = d.runtime := by
  obtain ⟨e, h⟩ | h := storeLedger_cases answer l d <;> rw [h]

lemma exec_publishCover (answer : PublishAnswer) (p : String) (cover : Option Fingerprint)
    (w : World) : ∃ r disk, disk.tasks = w.disk.tasks ∧
      exec (publishCover answer p cover) w = (r, { w with disk := disk }) := by
  unfold publishCover bumpTable persistLedger
  rcases bumpCovering_cases answer.table (tableKey p) cover w.disk with ⟨e, hb⟩ | ⟨n, file, hb⟩
  · exact ⟨.error (.storage e), w.disk, rfl, by simp [hb]⟩
  · rcases storeLedger_cases answer.ledger w.ledger ⟨w.disk.tasks, file, w.disk.operations⟩ with
      ⟨e, hs⟩ | hs
    · exact ⟨.error (.storage e), ⟨w.disk.tasks, file, w.disk.operations⟩, rfl, by simp [hb, hs]⟩
    · exact ⟨.ok n, ⟨w.disk.tasks, file, some w.ledger⟩, rfl, by simp [hb, hs]⟩

def attempted (w : World) (p : String) (put : Option Document) (refused : Option StorageError) :
    World :=
  { w with writes := w.writes ++ [⟨p, w.disk.tasks p, put, refused⟩] }

/-- What publishing rows comes to: a refusal leaves the list, otherwise the rows are there,
whether or not the rest of the publish succeeds. A mode that stores nothing stores nothing. -/
inductive Published (persist : Persist) (refusal : Option StorageError) (p : String)
    (rows : List Record) (w : World) : Except TaskError Applied → World → Prop
  | unwritten (r : Except TaskError Applied) (h : persist = .decideOnly) :
      Published persist refusal p rows w r w
  | refused (put : Option Document) (e : StorageError) (h : persist ≠ .decideOnly)
      (hrefusal : refusal = some e) :
      Published persist refusal p rows w (.error (.storage e)) (attempted w p put (some e))
  | written (put : Option Document) (disk : Disk) (r : Except TaskError Applied)
      (h : persist ≠ .decideOnly) (hrefusal : refusal = none) (hrows : rowsOf put = rows)
      (htasks : disk.tasks = Function.update w.disk.tasks p put) :
      Published persist refusal p rows w r { attempted w p put none with disk := disk }

lemma written_published {rows : List Record} {put : Option Document} (hrows : rowsOf put = rows)
    (answer : PublishAnswer) (p : String) (cover : Option Fingerprint) (w : World) (d : Disk)
    (hd : d.tasks = Function.update w.disk.tasks p put) (g : ℕ → Applied) :
    Published .commit none p rows w
      (Call.andThen (exec (publishCover answer p cover) { attempted w p put none with disk := d })
        fun n w' => (.ok (g n), w')).1
      (Call.andThen (exec (publishCover answer p cover) { attempted w p put none with disk := d })
        fun n w' => (.ok (g n), w')).2 := by
  obtain ⟨r, disk, htasks, hr⟩ := exec_publishCover answer p cover
    { attempted w p put none with disk := d }
  rw [hr]
  cases r <;> exact .written put disk _ (by decide) rfl hrows (htasks.trans hd)

lemma commit_published (answer : PublishAnswer) (p : String) (l : List Record) (w : World) :
    Published .commit (saveRefusal answer.list p w.disk) p (stampGenerationCopies w.ledger l) w
      (exec (commit answer p l) w).1 (exec (commit answer p l) w).2 := by
  unfold commit writeList saveCovering
  cases h : saveRefusal answer.list p w.disk with
  | some e =>
    simp only [Call.exec_bind, Call.exec_modify, Call.exec_act, Call.andThen_ok, h]
    exact .refused _ e (by decide) rfl
  | none =>
    simp only [Call.exec_bind, Call.exec_modify, Call.exec_act, Call.andThen_ok, Call.exec_pure,
      mapError_ok, h]
    exact written_published rfl answer p _ w
      (w.disk.setTasks p (some (.pretty (stampGenerationCopies w.ledger l)))) rfl _

lemma commitRemoval_published (answer : PublishAnswer) (p : String) (w : World) :
    Published .commit (removeRefusal answer.list p w.disk) p [] w
      (exec (commitRemoval answer p) w).1 (exec (commitRemoval answer p) w).2 := by
  unfold commitRemoval writeList removeCovering
  cases h : removeRefusal answer.list p w.disk with
  | some e =>
    simp only [Call.exec_bind, Call.exec_act, h]
    exact .refused _ e (by decide) rfl
  | none =>
    simp only [Call.exec_bind, Call.exec_act, Call.andThen_ok, Call.exec_pure, mapError_ok, h]
    exact written_published rfl answer p _ w (w.disk.setTasks p none) rfl _

lemma saveViaHost_published (answer : PublishAnswer) (p : String) (l : List Record) (w : World) :
    Published .viaHost (hostRefusal c answer.host p) p (stampGenerationCopies w.ledger l) w
      (exec (saveViaHost c answer p l) w).1 (exec (saveViaHost c answer p l) w).2 := by
  unfold saveViaHost writeList hostSave
  cases h : hostRefusal c answer.host p with
  | some e =>
    simp only [Call.exec_bind, Call.exec_modify, Call.exec_act, Call.andThen_ok]
    exact .refused _ e (by decide) rfl
  | none =>
    simp only [Call.exec_bind, Call.exec_modify, Call.exec_act, Call.andThen_ok, mapError_ok,
      Call.exec_pure]
    refine .written (hostDocument c _) _ _ (by decide) rfl ?_ rfl
    unfold hostDocument
    split
    · next hnil => exact hnil.symm
    · rfl

def listRefusal (c : Context) (answer : PublishAnswer) (p : String) (disk : Disk) :
    Persist → Option StorageError
  | .commit => saveRefusal answer.list p disk
  | .viaHost => hostRefusal c answer.host p
  | .decideOnly => none

/-- The same for the end of an intent, where a list without rows is a file to take away. -/
def finishRefusal (c : Context) (answer : PublishAnswer) (p : String) (disk : Disk)
    (persist : Persist) (rows : List Record) : Option StorageError :=
  if persist = .commit ∧ rows = [] then removeRefusal answer.list p disk
  else listRefusal c answer p disk persist

lemma persistLaunch_published (answer : PublishAnswer) (p : String) (persist : Persist)
    (l : List Record) (w : World) :
    Published persist (listRefusal c answer p w.disk persist) p
      (stampGenerationCopies w.ledger l) w (exec (persistLaunch c answer p persist l) w).1
      (exec (persistLaunch c answer p persist l) w).2 := by
  cases persist with
  | commit => exact commit_published answer p l w
  | viaHost => exact saveViaHost_published answer p l w
  | decideOnly => exact .unwritten _ rfl

lemma storeObserved_published (c : Context) (env : Env) (p : String) (persist : Persist)
    (l : List Record) (w : World) :
    Published persist (listRefusal c (env.publish .main) p w.disk persist) p
      (stampGenerationCopies w.ledger l) w (exec (storeObserved c env p persist l) w).1
      (exec (storeObserved c env p persist l) w).2 := by
  cases persist with
  | commit => exact commit_published _ p l w
  | viaHost => exact saveViaHost_published _ p l w
  | decideOnly => exact .unwritten _ rfl

lemma finishIntent_published (answer : PublishAnswer) (p : String) (persist : Persist)
    (l : List Record) (w : World) :
    Published persist (finishRefusal c answer p w.disk persist l) p
      (stampGenerationCopies w.ledger l) w (exec (finishIntent c answer p persist l) w).1
      (exec (finishIntent c answer p persist l) w).2 := by
  unfold finishRefusal
  cases persist with
  | commit =>
    unfold finishIntent
    by_cases h : l = []
    · simp only [h, and_self, if_true]
      exact commitRemoval_published answer p w
    · simp only [h, and_false, if_false]
      exact commit_published answer p l w
  | viaHost => exact saveViaHost_published answer p l w
  | decideOnly => exact .unwritten _ rfl

section Published

variable {persist : Persist} {refusal : Option StorageError} {rows : List Record}
  {r : Except TaskError Applied}

lemma Published.ledger (h : Published persist refusal p rows w r w') : w'.ledger = w.ledger := by
  cases h <;> rfl

lemma Published.calls (h : Published persist refusal p rows w r w') : w'.calls = w.calls := by
  cases h <;> rfl

lemma Published.tasks (h : Published persist refusal p rows w r w') :
    w'.disk.tasks = w.disk.tasks ∨
      ∃ put, rowsOf put = rows ∧ w'.disk.tasks = Function.update w.disk.tasks p put := by
  cases h with
  | unwritten => exact .inl rfl
  | refused => exact .inl rfl
  | written put disk r _ _ hrows htasks => exact .inr ⟨put, hrows, htasks⟩

lemma Published.stored_other (h : Published persist refusal p rows w r w') {q : String}
    (hq : q ≠ p) : stored w' q = stored w q := by
  obtain ht | ⟨put, -, ht⟩ := h.tasks
  · rw [stored, ht, stored]
  · rw [stored, ht, Function.update_of_ne hq, stored]

lemma Published.stored_self (h : Published persist refusal p rows w r w') :
    stored w' p = stored w p ∨ stored w' p = rows := by
  obtain ht | ⟨put, hrows, ht⟩ := h.tasks
  · exact .inl (by rw [stored, ht, stored])
  · exact .inr (by rw [stored, ht, Function.update_self, hrows])

lemma Published.stored_of_accepted (h : Published persist none p rows w r w')
    (hp : persist ≠ .decideOnly) : stored w' p = rows := by
  cases h with
  | unwritten _ hd => exact absurd hd hp
  | refused _ _ _ hr => cases hr
  | written put disk r _ _ hrows htasks =>
    show rowsOf (disk.tasks p) = rows
    rw [htasks, Function.update_self, hrows]

lemma Published.tasks_of_refused {e : StorageError}
    (h : Published persist (some e) p rows w r w') : w'.disk.tasks = w.disk.tasks := by
  cases h with
  | unwritten => rfl
  | refused => rfl
  | written _ _ _ _ hr => cases hr

end Published

lemma readModifyWrite_cases (env : Env) (p : String)
    (decision : List Record → Except TaskError (Option (List Record)))
    (store : List Record → Service Applied) (w : World) :
    (∃ r, exec (readModifyWrite env p decision store) w = (r, w)) ∨
      ∃ l, decision (stored w p) = .ok (some l) ∧
        exec (readModifyWrite env p decision store) w = exec (store l) w := by
  unfold readModifyWrite
  cases hl : loadStamped (env.read .main) w.disk p with
  | error e => exact .inl ⟨.error (.storage e), by simp [hl]⟩
  | ok snapshot =>
    have hrec := loadStamped_records hl
    simp only [Call.exec_bind, exec_load, hl, mapError_ok, Call.andThen_ok]
    rw [hrec]
    rcases hd : decision (stored w p) with e | (_ | l)
    · exact .inl ⟨.error e, rfl⟩
    · exact .inl ⟨.ok (unchanged snapshot), rfl⟩
    · exact .inr ⟨l, rfl, rfl⟩

/-- An intent that neither creates nor deletes reads the list, decides, and stores. -/
lemma intentUnderLock_cases (c : Context) (env : Env) (p : String) (persist : Persist)
    (intent : TaskIntent) : (∃ spec, intent = .create spec) ∨ (∃ ids, intent = .delete ids) ∨
      (∀ ids, intent ≠ .delete ids) ∧ ∃ decision, intentUnderLock c env p persist intent =
        readModifyWrite env p decision (finish c env p persist) := by
  cases intent with
  | create spec => exact .inl ⟨spec, rfl⟩
  | delete ids => exact .inr (.inl ⟨ids, rfl⟩)
  | _ =>
    refine .inr (.inr ⟨nofun, ?_⟩)
    simp only [intentUnderLock, metadataOne, metadataBatch, metadataEdit, runRename,
      normalizeAfterBootWith, switchConfigWriteWith, resumeWithSessionWith]
    exact ⟨_, rfl⟩

/-- The ledger changed and, as far as that went, mirrored. -/
def mirrored (answer : WriteAnswer) (f : Ledger → Ledger) (w : World) : World :=
  { w with ledger := f w.ledger, disk := (storeLedger answer (f w.ledger) w.disk).2 }

@[simp] lemma stored_mirrored (answer : WriteAnswer) (f : Ledger → Ledger) (w : World)
    (p : String) : stored (mirrored answer f w) p = stored w p := by
  rw [stored, mirrored, storeLedger_tasks, stored]

end Aeroric.TaskSpec
