import Aeroric.TaskSpec

/-! A commit to the end: when it goes through, what it leaves on disk, and what the next
writer then meets. -/
namespace Aeroric.TaskCommit

open TaskRecord TaskLedger TaskStorage TaskWorld TaskSpec
open Call (exec)

variable {c : Context} {w : World} {p : String}

/-- Everything a commit asks for is granted: the list, the table, the mirror of the ledger. -/
def Grants (answer : PublishAnswer) (p : String) (d : Disk) : Prop :=
  saveRefusal answer.list p d = none ∧ (bumpFrom answer.table d).isOk ∧
    answer.ledger.held = true ∧ answer.ledger.fault = none

def committed (answer : PublishAnswer) (p : String) (rows : List Record) (l : Ledger) (d : Disk) :
    Disk where
  tasks := Function.update d.tasks p (some (.pretty rows))
  runtime := match bumpFrom answer.table d with
    | .ok (m, next) => .found (m.advance next (tableKey p) (some (.of (.pretty rows))))
    | .error _ => d.runtime
  operations := some l

lemma bumpFrom_runtime (answer : WriteAnswer) {d e : Disk} (h : d.runtime = e.runtime) :
    bumpFrom answer d = bumpFrom answer e := by
  unfold bumpFrom
  rw [h]

variable {answer : PublishAnswer}

lemma commit_granted (h : Grants answer p w.disk) (l : List Record) :
    ∃ a, exec (commit answer p l) w = (.ok a, { attempted w p
      (some (.pretty (stampGenerationCopies w.ledger l))) none with
      disk := committed answer p (stampGenerationCopies w.ledger l) w.ledger w.disk }) := by
  obtain ⟨hs, hb, hheld, hfault⟩ := h
  cases hb' : bumpFrom answer.table w.disk with
  | error e => simp [hb', Except.isOk, Except.toBool] at hb
  | ok found =>
    obtain ⟨m, next⟩ := found
    have hb'' : bumpFrom answer.table (w.disk.setTasks p
        (some (.pretty (stampGenerationCopies w.ledger l)))) = .ok (m, next) :=
      (bumpFrom_runtime _ rfl).trans hb'
    refine ⟨⟨stampGenerationCopies w.ledger l, some next, true,
      some (.of (.pretty (stampGenerationCopies w.ledger l))), none⟩, ?_⟩
    unfold commit writeList saveCovering publishCover bumpTable persistLedger bumpCovering
      storeLedger committed
    simp only [Call.exec_bind, Call.exec_modify, Call.exec_act, Call.andThen_ok, Call.exec_pure,
      mapError_ok, hs, hb', hb'', hheld, hfault, Bool.not_true, Bool.false_eq_true, if_false]
    rfl

lemma commit_not_granted (h : ¬ Grants answer p w.disk)
    (l : List Record) : ∃ e, (exec (commit answer p l) w).1 = .error e := by
  unfold commit writeList saveCovering publishCover bumpTable persistLedger bumpCovering
  cases hs : saveRefusal answer.list p w.disk with
  | some e => exact ⟨.storage e, by simp [hs]⟩
  | none =>
    have hb' : bumpFrom answer.table (w.disk.setTasks p
        (some (.pretty (stampGenerationCopies w.ledger l)))) = bumpFrom answer.table w.disk :=
      bumpFrom_runtime _ rfl
    cases hb : bumpFrom answer.table w.disk with
    | error e => exact ⟨.storage e, by simp [hs, hb', hb]⟩
    | ok found =>
      obtain ⟨e, he⟩ : ∃ e, ∀ (l : Ledger) (d : Disk), storeLedger answer.ledger l d = (.error e, d) := by
        unfold storeLedger
        cases hheld : answer.ledger.held with
        | false => exact ⟨.writePermission, fun l d => by simp⟩
        | true =>
          cases hf : answer.ledger.fault with
          | none => exact absurd ⟨hs, by simp [hb, Except.isOk, Except.toBool], hheld, hf⟩ h
          | some fault => exact ⟨fault.onWrite .operations, fun l d => by simp⟩
      exact ⟨.storage e, by simp [hs, hb', hb, he]⟩

lemma loadRuntime_ok {read : Option Fault} {file : RuntimeFile} {found : Option RuntimeMetadata}
    (h : loadRuntime read file = .ok found) :
    read = none ∧ (found.getD .fresh).schemaVersion = runtimeSchemaVersion := by
  unfold loadRuntime at h
  split at h
  · cases h
  · obtain rfl := (Except.ok.inj h).symm
    exact ⟨rfl, rfl⟩
  · cases h
  · split at h
    · cases h
    · split at h
      · cases h
      · obtain rfl := (Except.ok.inj h).symm
        exact ⟨rfl, rfl⟩

lemma bumpFrom_ok {answer : WriteAnswer} {d : Disk} {m : RuntimeMetadata} {next : ℕ}
    (h : bumpFrom answer d = .ok (m, next)) : ∃ found, loadRuntime none d.runtime = .ok found ∧
      m = found.getD .fresh ∧ m.schemaVersion = runtimeSchemaVersion := by
  unfold bumpFrom at h
  cases hl : loadRuntime answer.readTable d.runtime with
  | error e => cases hh : answer.held <;> simp [hl, hh] at h
  | ok found =>
    obtain ⟨hread, hschema⟩ := loadRuntime_ok hl
    cases hh : answer.held with
    | false => simp [hh] at h
    | true =>
      simp only [hh, hl] at h
      split at h
      · cases h
      · split at h
        · cases h
        · obtain ⟨rfl, rfl⟩ : found.getD .fresh = m ∧ _ = next := by simpa using h
          exact ⟨found, hread ▸ hl, rfl, hschema⟩

lemma loadRuntime_advance {m : RuntimeMetadata} (hm : m.schemaVersion = runtimeSchemaVersion)
    (next : ℕ) (key : String) (cover : Option Fingerprint) :
    loadRuntime none (.found (m.advance next key cover)) = .ok (some (m.advance next key cover)) := by
  simp [loadRuntime, RuntimeMetadata.advance, hm]

/-- After a commit the recorded cover is the list that was written, and no other list's
cover has moved. -/
lemma recordedCover_committed {d : Disk} (h : Grants answer p d)
    (rows : List Record) (l : Ledger) (read : Option Fault) (q : String) :
    recordedCover read (committed answer p rows l d) (tableKey q) =
      if q = p ∧ read = none then .ok (some (some (.of (.pretty rows))))
      else recordedCover read d (tableKey q) := by
  cases read with
  | some fault => simp [recordedCover, loadRuntime]
  | none =>
    cases hb : bumpFrom answer.table d with
    | error e => simp [Grants, hb, Except.isOk, Except.toBool] at h
    | ok found =>
      obtain ⟨m, next⟩ := found
      obtain ⟨found, hl, rfl, hm⟩ := bumpFrom_ok hb
      simp only [recordedCover, committed, hb, loadRuntime_advance hm, hl]
      by_cases hq : q = p
      · subst hq
        simp [Except.map, RuntimeMetadata.advance]
      · have hk : tableKey q ≠ tableKey p := fun hk => hq (tableKey_injective hk)
        cases found <;> simp [Except.map, RuntimeMetadata.advance, hq, hk, RuntimeMetadata.fresh]

lemma saveRefusal_committed_other {d : Disk} (h : Grants answer p d)
    (rows : List Record) (l : Ledger) (again : WriteAnswer) {q : String} (hq : q ≠ p) :
    saveRefusal again q (committed answer p rows l d) = saveRefusal again q d := by
  have htasks : (committed answer p rows l d).tasks q = d.tasks q := Function.update_of_ne hq _ _
  unfold saveRefusal checkWriter checkCover
  rw [htasks, recordedCover_committed h, if_neg fun hq' => hq hq'.1]

/-- The next writer of the same list is granted exactly when nothing outside holds it up. -/
lemma saveRefusal_committed_self {d : Disk} (h : Grants answer p d)
    (rows : List Record) (l : Ledger) (again : WriteAnswer) :
    saveRefusal again p (committed answer p rows l d) = none ↔ again = .yes := by
  have htasks : (committed answer p rows l d).tasks p = some (.pretty rows) :=
    Function.update_self p _ _
  have hid : validateId p "project" = .ok () := by
    have hs := h.1
    unfold saveRefusal checkWriter at hs
    cases hv : validateId p "project" with
    | ok => rfl
    | error e => cases hh : answer.list.held <;> simp [hv, hh] at hs
  obtain ⟨held, readList, readTable, fault⟩ := again
  unfold saveRefusal checkWriter checkCover
  rw [htasks, hid, recordedCover_committed h]
  cases held <;> cases readList <;> cases readTable <;> cases fault <;>
    simp [WriteAnswer.yes, Document.pretty, recordedCover, loadRuntime, Except.map]

def RemovalGrants (answer : PublishAnswer) (p : String) (d : Disk) : Prop :=
  removeRefusal answer.list p d = none ∧ (bumpFrom answer.table d).isOk ∧
    answer.ledger.held = true ∧ answer.ledger.fault = none

lemma commitRemoval_granted (h : RemovalGrants answer p w.disk) :
    ∃ a w', exec (commitRemoval answer p) w = (.ok a, w') := by
  obtain ⟨hs, hb, hheld, hfault⟩ := h
  cases hb' : bumpFrom answer.table w.disk with
  | error e => simp [hb', Except.isOk, Except.toBool] at hb
  | ok found =>
    have hb'' : bumpFrom answer.table (w.disk.setTasks p none) = .ok found :=
      (bumpFrom_runtime _ rfl).trans hb'
    unfold commitRemoval writeList removeCovering publishCover bumpTable persistLedger bumpCovering
      storeLedger
    simp only [Call.exec_bind, Call.exec_act, Call.andThen_ok, Call.exec_pure, mapError_ok, hs, hb'',
      hheld, hfault, Bool.not_true, Bool.false_eq_true, if_false]
    exact ⟨_, _, rfl⟩

/-- The commit that ends an intent is granted: a list without rows is a file to take away. -/
def FinishGrants (answer : PublishAnswer) (p : String) (d : Disk) (rows : List Record) : Prop :=
  if rows = [] then RemovalGrants answer p d else Grants answer p d

lemma finishIntent_granted {l : List Record} (h : FinishGrants answer p w.disk l) :
    ∃ a w', exec (finishIntent c answer p .commit l) w = (.ok a, w') := by
  unfold FinishGrants at h
  unfold finishIntent
  split at h
  · next hl =>
    simp only [hl, if_true]
    exact commitRemoval_granted h
  · next hl =>
    simp only [hl, if_false]
    obtain ⟨a, ha⟩ := commit_granted (w := w) h l
    exact ⟨a, _, ha⟩

def Stores (c : Context) (answer : PublishAnswer) (p : String) (d : Disk) : Persist → Prop
  | .commit => Grants answer p d
  | .viaHost => hostRefusal c answer.host p = none
  | .decideOnly => False

lemma persistLaunch_not_stores {persist : Persist}
    (h : ¬ Stores c answer p w.disk persist) (l : List Record) :
    ∃ e, (exec (persistLaunch c answer p persist l) w).1 = .error e := by
  cases persist with
  | commit => exact commit_not_granted h l
  | decideOnly => exact ⟨_, rfl⟩
  | viaHost =>
    obtain ⟨e, he⟩ := Option.ne_none_iff_exists'.mp h
    exact ⟨.storage e, by simp [persistLaunch, saveViaHost, writeList, hostSave, he]⟩

/-- A store that goes through puts the rows there, and the ones that follow it in the same
mode are granted as said by `again`: for the list just written the core has its own cover,
every other list is as it was. -/
lemma persistLaunch_stores {persist : Persist}
    (h : Stores c answer p w.disk persist) {l : List Record} (hl : l ≠ []) :
    ∃ a spelling disk, disk.tasks = Function.update w.disk.tasks p
        (some ⟨spelling, .rows (stampGenerationCopies w.ledger l)⟩) ∧
      exec (persistLaunch c answer p persist l) w = (.ok a, { attempted w p
        (some ⟨spelling, .rows (stampGenerationCopies w.ledger l)⟩) none with disk := disk }) ∧
      ∀ again q, listRefusal c again q disk persist = none ↔
        if persist = .commit ∧ q = p then again.list = .yes
        else listRefusal c again q w.disk persist = none := by
  cases persist with
  | commit =>
    obtain ⟨a, ha⟩ := commit_granted (w := w) h l
    refine ⟨a, 0, _, rfl, ha, fun again q => ?_⟩
    by_cases hq : q = p
    · subst hq
      simpa [listRefusal] using saveRefusal_committed_self h _ _ again.list
    · simp [listRefusal, hq, saveRefusal_committed_other h _ _ again.list hq]
  | decideOnly => exact h.elim
  | viaHost =>
    have hs : stampGenerationCopies w.ledger l ≠ [] := by simpa [stampGenerationCopies] using hl
    refine ⟨⟨stampGenerationCopies w.ledger l, none, true, none, none⟩, c.taskSaver.getD 0,
      w.disk.setTasks p (some ⟨c.taskSaver.getD 0, .rows (stampGenerationCopies w.ledger l)⟩), rfl,
      ?_, fun again q => by simp [listRefusal]⟩
    have hr : hostRefusal c answer.host p = none := h
    simp [persistLaunch, saveViaHost, writeList, hostSave, hr, hostDocument, hs, attempted]

/-- A store goes through and the rows are there, or it is refused or cut short and the call
fails. -/
lemma persistLaunch_cases (c : Context) (answer : PublishAnswer) (p : String) (persist : Persist)
    {l : List Record} (hl : l ≠ []) (w : World) :
    (Stores c answer p w.disk persist ∧ ∃ a w', exec (persistLaunch c answer p persist l) w =
      (.ok a, w') ∧ stored w' p = stampGenerationCopies w.ledger l) ∨
    (¬ Stores c answer p w.disk persist ∧ ∃ e w', exec (persistLaunch c answer p persist l) w =
      (.error e, w')) := by
  by_cases hs : Stores c answer p w.disk persist
  · obtain ⟨a, spelling, disk, htasks, hexec, -⟩ := persistLaunch_stores hs hl
    refine .inl ⟨hs, a, _, hexec, ?_⟩
    show rowsOf (disk.tasks p) = _
    rw [htasks, Function.update_self]
    rfl
  · obtain ⟨e, he⟩ := persistLaunch_not_stores hs l
    exact .inr ⟨hs, e, _, Prod.ext he rfl⟩

end Aeroric.TaskCommit
