import Aeroric.TaskRefusal

/-! What the core may write over: the list its last completed publish recorded, or one it never
published. And where a crash inside a commit leaves a list that cannot be written any more. -/
namespace Aeroric.TaskCover

open TaskRecord TaskLaunch TaskLedger TaskStorage TaskWorld TaskService TaskInterface TaskSpec TaskCommit
open TaskLaunched TaskCalls TaskFrame TaskActions
open Call (exec Steps Visits)

variable {c : Context} {env : Env} {w w' : World} {p q : String} {answer : PublishAnswer}
  {l : List Record}

/-- An outside that grants every read and every write. -/
structure Healthy (env : Env) : Prop where
  read : ∀ site, env.read site = none
  publish : ∀ site, env.publish site = .yes
  mirror : ∀ site, env.mirror site = .yes

/-- The list of a project can be read and replaced. -/
def Writable (p : String) (d : Disk) : Prop := (loadStamped none d p).isOk ∧ Grants .yes p d

lemma healthy_quiet (now : ℕ) : Healthy (.quiet now) := ⟨fun _ => rfl, fun _ => rfl, fun _ => rfl⟩

/-- The entry of the list in `runtime.json`: none before its first publish. -/
def recorded (d : Disk) (q : String) : Except StorageError (Option (Option Fingerprint)) :=
  recordedCover none d (tableKey q)

def onDisk (d : Disk) (q : String) : Option Fingerprint := (d.tasks q).map .of

/-- One action keeps to the cover: a list that it replaces was the recorded one or had no
record, and an entry that it moves records what is on disk. -/
structure CoverStep (w w' : World) : Prop where
  replaces : ∀ q, w'.disk.tasks q ≠ w.disk.tasks q →
    recorded w.disk q = .ok none ∨ recorded w.disk q = .ok (some (onDisk w.disk q))
  records : ∀ q, recorded w'.disk q ≠ recorded w.disk q →
    recorded w'.disk q = .ok (some (onDisk w'.disk q))

lemma CoverStep.of_same (ht : w'.disk.tasks = w.disk.tasks) (hr : w'.disk.runtime = w.disk.runtime) :
    CoverStep w w' := by
  refine ⟨fun q h => absurd (by rw [ht]) h, fun q h => absurd ?_ h⟩
  unfold recorded recordedCover
  rw [hr]

variable {d : Disk}

lemma recordedCover_ok {read : Option Fault} {entry : Option (Option Fingerprint)}
    (h : recordedCover read d (tableKey p) = .ok entry) : recorded d p = .ok entry := by
  have hread : read = none := by
    unfold recordedCover at h
    cases hl : loadRuntime read d.runtime with
    | error e => simp [hl, Except.map] at h
    | ok found => exact (loadRuntime_ok hl).1
  rwa [hread] at h

variable {a : WriteAnswer}

/-- A writer that is let through found what the table says, or nothing in it. -/
lemma checkWriter_none (h : checkWriter a d p = none) :
    recorded d p = .ok none ∨ recorded d p = .ok (some (onDisk d p)) := by
  unfold checkWriter at h
  split at h
  · cases h
  · cases h
  unfold checkCover at h
  dsimp only at h
  split at h
  · cases h
  · cases h
  · next hcover => exact .inl (recordedCover_ok hcover)
  · next baseline hcover =>
    split at h
    · next hsame =>
      refine .inr ((recordedCover_ok hcover).trans ?_)
      rw [← hsame]
      rfl
    · cases h

lemma saveRefusal_none (h : saveRefusal a p d = none) : checkWriter a d p = none := by
  unfold saveRefusal at h
  split at h
  · cases h
  · assumption

lemma removeRefusal_none (h : removeRefusal a p d = none) : checkWriter a d p = none := by
  unfold removeRefusal at h
  split at h
  · cases h
  · assumption

lemma CoverStep.of_replaced {document : Option Document} (hcheck : checkWriter a w.disk p = none)
    (ht : w'.disk.tasks = Function.update w.disk.tasks p document)
    (hr : w'.disk.runtime = w.disk.runtime) : CoverStep w w' := by
  refine ⟨fun q h => ?_, fun q h => absurd ?_ h⟩
  · by_cases hq : q = p
    · subst hq
      exact checkWriter_none hcheck
    · rw [ht, Function.update_of_ne hq] at h
      exact absurd rfl h
  · unfold recorded recordedCover
    rw [hr]

variable {m : RuntimeMetadata} {next : ℕ}

lemma recorded_bumped (hb : bumpFrom a d = .ok (m, next)) (cover : Option Fingerprint) (q : String) :
    recorded { d with runtime := .found (m.advance next (tableKey p) cover) } q =
      if q = p then .ok (some cover) else recorded d q := by
  obtain ⟨found, hl, rfl, hm⟩ := bumpFrom_ok hb
  unfold recorded recordedCover
  rw [loadRuntime_advance hm, hl]
  by_cases hq : q = p
  · simp [hq, Except.map, RuntimeMetadata.advance]
  · have hk : tableKey q ≠ tableKey p := fun hk => hq (tableKey_injective hk)
    cases found <;> simp [hq, hk, Except.map, RuntimeMetadata.advance, RuntimeMetadata.fresh]

variable {cover : Option Fingerprint}

lemma CoverStep.of_bump (hcover : onDisk w.disk p = cover) :
    CoverStep w { w with disk := (bumpCovering a (tableKey p) cover w.disk).2 } := by
  unfold bumpCovering
  cases hb : bumpFrom a w.disk with
  | error e => exact .of_same rfl rfl
  | ok found =>
    obtain ⟨m, next⟩ := found
    refine ⟨fun q h => absurd rfl h, fun q h => ?_⟩
    dsimp only at h ⊢
    rw [recorded_bumped hb] at h ⊢
    split at h
    · next hq =>
      subst hq
      rw [if_pos rfl, ← hcover]
      rfl
    · exact absurd rfl h

lemma onDisk_setTasks (d : Disk) (p : String) (document : Option Document) :
    onDisk (d.setTasks p document) p = document.map .of := by
  simp [onDisk, Disk.setTasks]

lemma same_storeLedger (a : WriteAnswer) (state : Ledger) (d : Disk) :
    (storeLedger a state d).2.tasks = d.tasks ∧ (storeLedger a state d).2.runtime = d.runtime := by
  unfold storeLedger
  split
  · exact ⟨rfl, rfl⟩
  · split <;> exact ⟨rfl, rfl⟩

/-- The rest of a publish: the table records what is on disk, the ledger is mirrored. -/
lemma publishCover_steps (hcover : onDisk w.disk p = cover) :
    Program.Steps CoverStep (publishCover answer p cover).run w := by
  refine Call.steps_bind_from ⟨.of_bump hcover, trivial⟩ fun _ w1 _ => ?_
  refine Call.steps_bind_from ⟨?_, trivial⟩ fun _ _ _ => trivial
  exact .of_same (same_storeLedger _ _ _).1 (same_storeLedger _ _ _).2

lemma commit_steps (answer : PublishAnswer) (p : String) (l : List Record) :
    Steps CoverStep (commit answer p l) := by
  intro w
  refine Call.steps_bind_from ⟨.of_same rfl rfl, trivial⟩ fun stamped w1 h1 => ?_
  obtain ⟨-, rfl⟩ := Prod.mk.inj h1
  unfold writeList saveCovering
  cases hs : saveRefusal answer.list p w.disk with
  | some e =>
    refine Call.steps_bind_from ⟨.of_same (by simp [hs]) (by simp [hs]), trivial⟩ fun _ w2 h2 => ?_
    simp [hs] at h2
  | none =>
    refine Call.steps_bind_from ⟨.of_replaced (saveRefusal_none hs) (by simp [hs]; rfl)
      (by simp [hs]; rfl), trivial⟩ fun _ w2 h2 => ?_
    simp only [Call.exec_act, hs, mapError_ok, Prod.mk.injEq, Except.ok.injEq] at h2
    obtain ⟨rfl, rfl⟩ := h2
    refine Call.steps_bind_from (publishCover_steps ?_) fun _ _ _ => trivial
    exact onDisk_setTasks _ _ _

lemma commitRemoval_steps (answer : PublishAnswer) (p : String) :
    Steps CoverStep (commitRemoval answer p) := by
  intro w
  unfold commitRemoval writeList removeCovering
  cases hs : removeRefusal answer.list p w.disk with
  | some e =>
    refine Call.steps_bind_from ⟨.of_same (by simp [hs]) (by simp [hs]), trivial⟩ fun _ w2 h2 => ?_
    simp [hs] at h2
  | none =>
    refine Call.steps_bind_from ⟨.of_replaced (removeRefusal_none hs) (by simp [hs]; rfl)
      (by simp [hs]; rfl), trivial⟩ fun _ w2 h2 => ?_
    simp only [Call.exec_act, hs, mapError_ok, Prod.mk.injEq, Except.ok.injEq] at h2
    obtain ⟨rfl, rfl⟩ := h2
    refine Call.steps_bind_from (publishCover_steps ?_) fun _ _ _ => trivial
    exact onDisk_setTasks _ _ _

lemma built_steps {α : Type} {s : Service α} (h : Built false s) : Steps CoverStep s := by
  generalize hhost : false = host at h
  induction h with
  | pure a => exact .pure a
  | throw e => exact .throw e
  | bind _ _ ihs ihf => exact .bind ihs ihf
  | attempt _ ih => exact .attempt ih
  | onlyIf _ b ih => exact .onlyIf ih b
  | load => exact .act fun _ => .of_same rfl rfl
  | onLedger => exact .modify fun _ => .of_same rfl rfl
  | mirrorLedger =>
    exact .modify fun _ => .of_same (same_storeLedger _ _ _).1 (same_storeLedger _ _ _).2
  | askExecutor => exact .modify fun _ => .of_same rfl rfl
  | acknowledge =>
    refine .modify fun w => ?_
    dsimp only
    split
    · exact .of_same (same_storeLedger _ _ _).1 (same_storeLedger _ _ _).2
    · exact .of_same rfl rfl
  | commit answer p l => exact commit_steps answer p l
  | commitRemoval answer p => exact commitRemoval_steps answer p
  | saveViaHost h => cases hhost.trans h

lemma call_steps {req : Request} (h : usesHost req = false) : Steps CoverStep (call c env req) :=
  call_has (P := Steps CoverStep) .bind .serial fun hbuilt => built_steps (h ▸ hbuilt)

/-- A restarted service can change the list: whatever the change is, it is read and stored. -/
def Recovers (p : String) (d : Disk) : Prop :=
  ∀ env, Healthy env → ∀ change, (exec (mutate env p change) (.new d)).1.isOk

/-- The process died between the two files: the list has other bytes than the table says. -/
def Torn (p : String) (w w' : World) : Prop :=
  recorded w.disk p ≠ .ok none ∧ w'.disk.tasks p ≠ w.disk.tasks p ∧
    w'.disk.runtime = w.disk.runtime

/-- The revision counter has room for one publish and one more. -/
def HasRoom (d : Disk) : Prop := ∀ m next, bumpFrom .yes d = .ok (m, next) → next + 1 < 2 ^ 64

/-- The disks a commit passes through. -/
inductive CommitDisk (answer : PublishAnswer) (p : String) (l : List Record) (w : World) :
    Disk → Prop
  | before : CommitDisk answer p l w w.disk
  | written (hs : saveRefusal answer.list p w.disk = none) : CommitDisk answer p l w
      (w.disk.setTasks p (some (.pretty (stampGenerationCopies w.ledger l))))
  | bumped (hs : saveRefusal answer.list p w.disk = none) (m : RuntimeMetadata) (next : ℕ)
      (hb : bumpFrom answer.table w.disk = .ok (m, next)) (operations : Option Ledger) :
      CommitDisk answer p l w ⟨Function.update w.disk.tasks p
        (some (.pretty (stampGenerationCopies w.ledger l))), .found (m.advance next (tableKey p)
          (some (.of (.pretty (stampGenerationCopies w.ledger l))))), operations⟩

lemma publishCover_visits_disk (h : Visits (publishCover answer p cover) w w') : w'.disk = w.disk ∨
      ∃ m next operations, bumpFrom answer.table w.disk = .ok (m, next) ∧
        w'.disk = ⟨w.disk.tasks, .found (m.advance next (tableKey p) cover), operations⟩ := by
  unfold publishCover bumpTable persistLedger bumpCovering at h
  rcases (Call.visits_bind _ _ w w').mp h with h | ⟨revision, hok, h⟩
  · rcases (Call.visits_act _ w w').mp h with rfl | rfl
    · exact .inl rfl
    · cases hb : bumpFrom answer.table w.disk with
      | error e => exact .inl rfl
      | ok found => exact .inr ⟨found.1, found.2, w.disk.operations, rfl, rfl⟩
  · cases hb : bumpFrom answer.table w.disk with
    | error e => simp [hb] at hok
    | ok found =>
      simp only [Call.visits_bind, Call.visits_act, Call.visits_pure, Call.exec_act, hb] at h
      have hledger : ∀ d : Disk, d.tasks = w.disk.tasks →
          d.runtime = .found (found.1.advance found.2 (tableKey p) cover) →
          (storeLedger answer.ledger w.ledger d).2 = ⟨w.disk.tasks,
            .found (found.1.advance found.2 (tableKey p) cover),
            (storeLedger answer.ledger w.ledger d).2.operations⟩ := by
        intro d ht hr
        obtain ⟨h1, h2⟩ := same_storeLedger answer.ledger w.ledger d
        rw [← ht, ← hr, ← h1, ← h2]
      refine .inr ⟨found.1, found.2, w'.disk.operations, rfl, ?_⟩
      rcases h with (rfl | rfl) | ⟨_, -, rfl⟩
      · rfl
      · exact hledger _ rfl rfl
      · exact hledger _ rfl rfl

lemma commit_visits_disk (h : Visits (commit answer p l) w w') :
    CommitDisk answer p l w w'.disk := by
  -- once the list is there, only the table and the mirror can move
  have visited : saveRefusal answer.list p w.disk = none → ∀ {w1 w2 : World} {cover},
      w1.disk = w.disk.setTasks p (some (.pretty (stampGenerationCopies w.ledger l))) →
      cover = some (.of (.pretty (stampGenerationCopies w.ledger l))) →
      Visits (publishCover answer p cover) w1 w2 → CommitDisk answer p l w w2.disk := by
    intro hs w1 w2 cover h1 hcover hv
    subst hcover
    rcases publishCover_visits_disk hv with hd | ⟨m, next, operations, hb, hd⟩ <;> rw [hd, h1]
    · exact .written hs
    · rw [h1] at hb
      exact .bumped hs m next hb operations
  unfold commit at h
  rcases (Call.visits_bind _ _ w w').mp h with h | ⟨stamped, hstamp, h⟩
  · rcases (Call.visits_modify _ w w').mp h with rfl | rfl <;> exact .before
  obtain rfl := Except.ok.inj hstamp
  simp only [Call.exec_modify] at h
  unfold writeList saveCovering at h
  rcases (Call.visits_bind _ _ w w').mp h with h | ⟨fingerprint, hok, h⟩
  · rcases (Call.visits_act _ w w').mp h with rfl | rfl
    · exact .before
    · cases hs : saveRefusal answer.list p w.disk with
      | some e => exact .before
      | none => exact .written hs
  · cases hs : saveRefusal answer.list p w.disk with
    | some e => simp [hs] at hok
    | none =>
      simp only [Call.exec_act, hs, mapError_ok, Except.ok.injEq] at hok h
      subst hok
      rcases (Call.visits_bind _ _ _ w').mp h with hv | ⟨revision, -, hv⟩
      · exact visited hs rfl rfl hv
      · rw [(Call.visits_pure _ _ w').mp hv]
        exact visited hs rfl rfl (Call.visits_exec _ _)

lemma exec_mutate (henv : Healthy env) (change : List Record → ℕ → List Record × Bool)
    (w : World) : exec (mutate env p change) w = Call.andThen
      ((loadStamped none w.disk p).mapError .storage, w) fun snapshot w' =>
        match ifListMoved snapshot.records (change snapshot.records (env.clock .main)) with
        | none => (.ok (unchanged snapshot), w')
        | some rows => exec (commit .yes p rows) w' := by
  unfold mutate readModifyWrite
  rw [Call.exec_serial, Call.exec_bind, exec_load, henv.read, henv.publish]
  cases loadStamped none w.disk p with
  | error e => rfl
  | ok snapshot =>
    rw [mapError_ok, Call.andThen_ok, Call.andThen_ok]
    dsimp only
    cases ifListMoved snapshot.records (change snapshot.records (env.clock .main)) <;> rfl

lemma recovers_iff_writable : Recovers p d ↔ Writable p d := by
  constructor
  · intro h
    have hnew := h (.quiet 0) (healthy_quiet 0) fun rows _ => (plainRow "p" "x" .todo :: rows, true)
    rw [exec_mutate (healthy_quiet 0)] at hnew
    cases hl : loadStamped none d p with
    | error e => simp [World.new, hl, Except.isOk, Except.toBool] at hnew
    | ok snapshot =>
      refine ⟨by simp [hl, Except.isOk, Except.toBool], ?_⟩
      by_contra hno
      obtain ⟨e, he⟩ := commit_not_granted (w := .new d) hno
        (plainRow "p" "x" .todo :: snapshot.records)
      have hmoved : ifListMoved snapshot.records (plainRow "p" "x" .todo :: snapshot.records, true) =
          some (plainRow "p" "x" .todo :: snapshot.records) := by
        simp [ifListMoved]
      have hload : loadStamped none (World.new d).disk p = .ok snapshot := hl
      rw [hload, mapError_ok, Call.andThen_ok] at hnew
      simp only [hmoved, he] at hnew
      cases hnew
  · rintro ⟨hread, hgrants⟩ env henv change
    rw [exec_mutate henv]
    cases hl : loadStamped none d p with
    | error e => simp [hl, Except.isOk, Except.toBool] at hread
    | ok snapshot =>
      have hload : loadStamped none (World.new d).disk p = .ok snapshot := hl
      rw [hload, mapError_ok, Call.andThen_ok]
      split
      · rfl
      · next rows _ =>
        obtain ⟨a, ha⟩ := commit_granted (w := .new d) hgrants rows
        rw [ha]
        rfl

lemma validateId_of_grants (h : Grants answer p d) : validateId p "project" = .ok () := by
  have hcheck := saveRefusal_none h.1
  unfold checkWriter at hcheck
  split at hcheck
  · cases hcheck
  · cases hcheck
  · assumption

lemma writable_iff (hid : validateId p "project" = .ok ()) {rows : List Record}
    (hrows : d.tasks p = some (.pretty rows)) : Writable p d ↔
      (recorded d p = .ok none ∨ recorded d p = .ok (some (some (.of (.pretty rows))))) ∧
        (bumpFrom .yes d).isOk := by
  have hload : (loadStamped none d p).isOk = true := by
    unfold loadStamped
    rw [hid, hrows]
    rfl
  have hsave : saveRefusal .yes p d = checkWriter .yes d p := by
    unfold saveRefusal
    rw [hrows]
    cases checkWriter .yes d p <;> rfl
  have hcheck : checkWriter .yes d p = none ↔
      recorded d p = .ok none ∨ recorded d p = .ok (some (some (.of (.pretty rows)))) := by
    unfold checkWriter checkCover recorded
    rw [hid, hrows]
    simp only [WriteAnswer.yes]
    cases recordedCover none d (tableKey p) with
    | error e => simp
    | ok entry =>
      cases entry with
      | none => simp
      | some baseline => simp [eq_comm]
  rw [← hcheck, ← hsave]
  exact ⟨fun h => ⟨h.2.1, h.2.2.1⟩, fun h => ⟨hload, h.1, h.2, rfl, rfl⟩⟩

lemma writable_written (hw : Writable p d) (rows : List Record) :
    Writable p (d.setTasks p (some (.pretty rows))) ↔
      recorded d p = .ok none ∨ some (.pretty rows) = d.tasks p := by
  have hbump : (bumpFrom .yes (d.setTasks p (some (.pretty rows)))).isOk = true := hw.2.2.1
  rw [writable_iff (validateId_of_grants hw.2) (Function.update_self p _ _), and_iff_left hbump]
  refine or_congr_right' fun hsome => ?_
  have hentry := (checkWriter_none (saveRefusal_none hw.2.1)).resolve_left hsome
  show recorded d p = _ ↔ _
  rw [hentry, Except.ok.injEq, Option.some.injEq, onDisk]
  cases d.tasks p <;> simp [eq_comm]

/-- A bump that goes through starts from the table on disk and takes the next revision. -/
lemma bumpFrom_next (h : bumpFrom a d = .ok (m, next)) :
    next = m.revision.getD 0 + 1 ∧ bumpFrom .yes d = .ok (m, next) := by
  unfold bumpFrom at h ⊢
  cases hl : loadRuntime a.readTable d.runtime with
  | error e => cases hh : a.held <;> simp [hl, hh] at h
  | ok found =>
    have hnone := (loadRuntime_ok hl).1
    cases hh : a.held with
    | false => simp [hh] at h
    | true =>
      rw [hh, hl] at h
      rw [hnone] at hl
      simp only [WriteAnswer.yes, hl] at h ⊢
      split at h
      · cases h
      next hroom =>
      rw [if_neg hroom]
      cases hf : a.fault with
      | some fault => simp [hf] at h
      | none =>
        rw [hf] at h
        obtain ⟨rfl, rfl⟩ := Prod.mk.inj (Except.ok.inj h)
        exact ⟨rfl, rfl⟩

lemma bumpFrom_again {d d' : Disk} {key : String} (hb : bumpFrom a d = .ok (m, next))
    (hd : d'.runtime = .found (m.advance next key cover)) :
    (bumpFrom .yes d').isOk ↔ next + 1 < 2 ^ 64 := by
  obtain ⟨found, hl, rfl, hm⟩ := bumpFrom_ok hb
  have hload : loadRuntime WriteAnswer.yes.readTable d'.runtime =
      .ok (some ((found.getD .fresh).advance next key cover)) := by
    rw [hd]
    exact loadRuntime_advance hm _ _ _
  unfold bumpFrom
  rw [hload]
  show (if 2 ^ 64 ≤ next + 1 then (.error (.corrupt .runtime) : Except StorageError _)
    else .ok ((found.getD .fresh).advance next key cover, next + 1)).isOk = true ↔ _
  split
  · next hfull => exact iff_of_false (by simp [Except.isOk, Except.toBool]) (not_lt.mpr hfull)
  · next hroom => exact iff_of_true rfl (not_le.mp hroom)

lemma writable_bumped (hid : validateId p "project" = .ok ()) (hb : bumpFrom a d = .ok (m, next))
    (rows : List Record) (operations : Option Ledger) :
    Writable p ⟨Function.update d.tasks p (some (.pretty rows)),
      .found (m.advance next (tableKey p) (some (.of (.pretty rows)))), operations⟩ ↔
      next + 1 < 2 ^ 64 := by
  rw [writable_iff hid (Function.update_self p _ _), bumpFrom_again hb rfl]
  refine and_iff_right (.inr ?_)
  have hentry := recorded_bumped (p := p) hb (some (.of (.pretty rows))) p
  rwa [if_pos rfl] at hentry

/-- Whether a list is writable depends on its bytes, its entry and the counter. -/
lemma writable_congr {d d' : Disk} (ht : d'.tasks q = d.tasks q) (hr : recorded d' q = recorded d q)
    (hb : (bumpFrom .yes d').isOk) (hw : Writable q d) : Writable q d' := by
  unfold recorded at hr
  obtain ⟨hload, hsave, -, hrest⟩ := hw
  refine ⟨?_, ?_, hb, hrest⟩
  · unfold loadStamped at hload ⊢
    rwa [ht]
  · unfold saveRefusal checkWriter checkCover at hsave ⊢
    simp only [PublishAnswer.yes, WriteAnswer.yes] at hsave ⊢
    rwa [ht, hr]

lemma bumped_ne (hb : bumpFrom a d = .ok (m, next)) (key : String) (cover : Option Fingerprint) :
    RuntimeFile.found (m.advance next key cover) ≠ d.runtime := by
  intro h
  obtain ⟨found, hl, hfound, hm⟩ := bumpFrom_ok hb
  rw [← h, loadRuntime_advance hm] at hl
  obtain rfl := Except.ok.inj hl
  have hnext := (bumpFrom_next hb).1
  rw [hfound] at hnext
  simp [RuntimeMetadata.advance] at hnext

lemma hasRoom_iff (hb : bumpFrom a d = .ok (m, next)) : HasRoom d ↔ next + 1 < 2 ^ 64 := by
  have hyes := (bumpFrom_next hb).2
  refine ⟨fun h => h m next hyes, fun h m' next' hb' => ?_⟩
  obtain ⟨rfl, rfl⟩ := Prod.mk.inj (Except.ok.inj (hyes.symm.trans hb'))
  exact h

/-- A commit, run to its end or cut short, that was not cut between the two files and left the
counter room. The service goes on, or is started again, over the files it left. -/
def Untorn (w w' : World) : Prop := ∃ answer p l v, Visits (commit answer p l) w v ∧
  w'.disk = v.disk ∧ ¬ Torn p w v ∧ (v.disk.runtime = w.disk.runtime ∨ HasRoom w.disk)

/-- Where a commit of `p` was cut, the list of another project is as writable as before. -/
lemma writable_other (hq : q ≠ p) (hdisk : CommitDisk answer p l w d)
    (hroom : d.runtime = w.disk.runtime ∨ HasRoom w.disk) (hw : Writable q w.disk) :
    Writable q d := by
  cases hdisk with
  | before => exact hw
  | written => exact writable_congr (Function.update_of_ne hq _ _) rfl hw.2.2.1 hw
  | bumped _ m next hb operations =>
    have hfree := hroom.resolve_left (bumped_ne hb _ _)
    refine writable_congr (Function.update_of_ne hq _ _) ?_ ?_ hw
    · exact (recorded_bumped hb _ q).trans (if_neg hq)
    · exact (bumpFrom_again hb rfl).mpr ((hasRoom_iff hb).mp hfree)

/-- Where a commit of `p` was cut, its own list is writable unless it was torn. -/
lemma writable_own_iff (hdisk : CommitDisk answer p l w d) (hw : Writable p w.disk) :
    Writable p d ↔ ¬ (recorded w.disk p ≠ .ok none ∧ d.tasks p ≠ w.disk.tasks p ∧
      d.runtime = w.disk.runtime) ∧ (d.runtime = w.disk.runtime ∨ HasRoom w.disk) := by
  cases hdisk with
  | before => exact iff_of_true hw ⟨fun h => h.2.1 rfl, .inl rfl⟩
  | written =>
    rw [writable_written hw]
    have hsame : (w.disk.setTasks p (some (.pretty (stampGenerationCopies w.ledger l)))).tasks p =
        some (.pretty (stampGenerationCopies w.ledger l)) := Function.update_self p _ _
    rw [hsame, and_iff_left (.inl rfl), not_and_or, not_and_or, not_not, not_not]
    exact or_congr_right ⟨.inl, fun h => h.resolve_right fun hno => hno rfl⟩
  | bumped _ m next hb operations =>
    rw [writable_bumped (validateId_of_grants hw.2) hb, ← hasRoom_iff hb]
    have hne := bumped_ne hb (tableKey p) (some (.of (.pretty (stampGenerationCopies w.ledger l))))
    exact ⟨fun h => ⟨fun ht => hne ht.2.2, .inr h⟩, fun h => h.2.resolve_left hne⟩

lemma untorn_writable (h : Untorn w w') (hw : Writable q w.disk) : Writable q w'.disk := by
  obtain ⟨answer, p, l, v, hv, hd, htorn, hroom⟩ := h
  rw [hd]
  by_cases hq : q = p
  · subst hq
    exact (writable_own_iff (commit_visits_disk hv) hw).mpr ⟨htorn, hroom⟩
  · exact writable_other hq (commit_visits_disk hv) hroom hw

/-- Every action of a call that does not go through the host keeps to the cover, in any state. A
list that could be changed still can after any number of commits, finished or cut short, none of them
between the list and the table while the revision counter has room; and for the last one that is the
exact condition. -/
theorem cover_safe_and_recovers_iff (w0 w : World) :
    (∀ c env req, usesHost req = false → Program.Steps CoverStep (call c env req).run w) ∧
    ∀ p, Writable p w0.disk → Relation.ReflTransGen Untorn w0 w → Recovers p w.disk ∧
      ∀ answer l w', Visits (commit answer p l) w w' →
        (Recovers p w'.disk ↔
          ¬ Torn p w w' ∧ (w'.disk.runtime = w.disk.runtime ∨ HasRoom w.disk)) := by
  refine ⟨fun c env req h => call_steps h w, fun p hw0 hrun => ?_⟩
  have hw : Writable p w.disk := by
    induction hrun with
    | refl => exact hw0
    | tail _ hstep ih => exact untorn_writable hstep ih
  refine ⟨recovers_iff_writable.mpr hw, fun answer l w' hv => ?_⟩
  rw [recovers_iff_writable]
  exact writable_own_iff (commit_visits_disk hv) hw

/-- A list the core has published once. -/
def publishedOnce : World := (exec (commit .yes "p" [plainRow "p" "a" .todo]) twoTasks).2

lemma twoTasks_writable : Writable "p" twoTasks.disk := by
  refine ⟨by decide, by decide, by decide, rfl, rfl⟩

lemma publishedOnce_untorn : Untorn twoTasks publishedOnce := by
  refine ⟨.yes, "p", [plainRow "p" "a" .todo], _, Call.visits_exec _ _, rfl, ?_, .inr ?_⟩
  · exact fun h => h.1 (by decide)
  · intro m next h
    obtain ⟨-, rfl⟩ := Prod.mk.inj (Except.ok.inj h)
    decide

set_option maxRecDepth 8000 in
/-- A published list can be changed, by a call that keeps to the cover. -/
theorem publishedOnce_recovers :
    (∀ change, Program.Steps CoverStep (call .plain (.quiet 1) (.mutate "p" change)).run
      publishedOnce) ∧
    Recovers "p" publishedOnce.disk :=
  ⟨fun _ => (cover_safe_and_recovers_iff publishedOnce _).1 _ _ _ rfl,
    ((cover_safe_and_recovers_iff _ _).2 _ twoTasks_writable (.single publishedOnce_untorn)).1⟩

/-- A second commit that is cut once its list is on disk. -/
def cutInSecond : World := (Program.upTo 2 (commit .yes "p" []).run publishedOnce).2

set_option maxRecDepth 8000 in
/-- No other program has touched the list, and it is refused, after every restart. -/
theorem cutInSecond_refused : Visits (commit .yes "p" []) publishedOnce cutInSecond ∧
    (exec (mutate (.quiet 1) "p" fun rows _ => (plainRow "p" "c" .todo :: rows, true))
      (.new cutInSecond.disk)).1 = .error (.storage (.contentDiverged (.tasks "p")
        (onDisk publishedOnce.disk "p") (onDisk cutInSecond.disk "p"))) ∧
    ¬ Recovers "p" cutInSecond.disk := by
  have hrefused : (exec (mutate (.quiet 1) "p" fun rows _ => (plainRow "p" "c" .todo :: rows, true))
      (.new cutInSecond.disk)).1 = .error (.storage (.contentDiverged (.tasks "p")
        (onDisk publishedOnce.disk "p") (onDisk cutInSecond.disk "p"))) := by decide
  refine ⟨⟨2, rfl⟩, hrefused, fun h => ?_⟩
  have hok := h (.quiet 1) (healthy_quiet 1) fun rows _ => (plainRow "p" "c" .todo :: rows, true)
  rw [hrefused] at hok
  cases hok

end Aeroric.TaskCover
