import Aeroric.TaskReducer

/-! What a rule leaves alone: every reducer rewrites a known set of keys, in rows it is
addressed to, and keeps the rows in place. -/
namespace Aeroric.TaskEdit

open TaskRecord TaskSession TaskReducer

/-- Only the listed keys change, and nothing at all in a row that is not touched. -/
def RowEdit (keys : List String) (touched : Record → Prop) (r s : Record) : Prop :=
  Record.AgreesOff keys r s ∧ (¬ touched r → s = r)

/-- The same rows in the same places, each rewritten by a `RowEdit`. -/
def ListEdit (keys : List String) (touched : Record → Prop) (l l' : List Record) : Prop :=
  List.Forall₂ (RowEdit keys touched) l l'

def isTask (taskId : String) (r : Record) : Prop := r.id = some taskId

instance (taskId : String) : DecidablePred (isTask taskId) := fun _ => decEq _ _

variable {keys more : List String} {touched wider : Record → Prop} {l l' l'' : List Record}
  {r s : Record} {taskId : String}

lemma RowEdit.refl (r : Record) : RowEdit keys touched r r := ⟨.refl _ _, fun _ => rfl⟩

lemma RowEdit.of_touched (h : Record.AgreesOff keys r s) (ht : touched r) :
    RowEdit keys touched r s := ⟨h, fun hn => absurd ht hn⟩

lemma ListEdit.refl (l : List Record) : ListEdit keys touched l l :=
  List.forall₂_same.mpr fun r _ => RowEdit.refl r

lemma ListEdit.map {f : Record → Record} (h : ∀ r, RowEdit keys touched r (f r))
    (l : List Record) : ListEdit keys touched l (l.map f) := by
  induction l with
  | nil => exact .nil
  | cons r rs ih => exact .cons (h r) ih

lemma mapRows_fst (edit : Record → Option Record) (l : List Record) :
    (mapRows edit l).1 = l.map fun r => (edit r).getD r := by
  unfold mapRows
  dsimp only
  split
  · rfl
  · next h =>
    have hnone : ∀ r ∈ l, edit r = none := by simpa using h
    exact ((List.map_congr_left fun r hr => by rw [hnone r hr]; rfl).trans (List.map_id l)).symm

lemma ListEdit.mapRows {edit : Record → Option Record}
    (h : ∀ r s, edit r = some s → Record.AgreesOff keys r s ∧ touched r) (l : List Record) :
    ListEdit keys touched l (mapRows edit l).1 := by
  rw [mapRows_fst]
  refine ListEdit.map (fun r => ?_) l
  cases hr : edit r with
  | none => exact .refl r
  | some s => exact .of_touched (h r s hr).1 (h r s hr).2

lemma ListEdit.onTask {edit : Record → Option Record}
    (h : ∀ r s, edit r = some s → Record.AgreesOff keys r s) (l : List Record) :
    ListEdit keys (isTask taskId) l (TaskReducer.mapRows (onTask taskId edit) l).1 := by
  refine ListEdit.mapRows (fun r s hs => ?_) l
  unfold TaskReducer.onTask at hs
  split at hs
  · next hr => exact ⟨h r s hs, hr⟩
  · cases hs

lemma ListEdit.mapTask {f : Record → Record} (h : ∀ r, Record.AgreesOff keys r (f r))
    (l : List Record) : ListEdit keys (isTask taskId) l (mapTask taskId f l) := by
  refine ListEdit.map (fun r => ?_) l
  split
  · next hr => exact .of_touched (h r) hr
  · exact .refl r

section Rows
variable {P Q R : Record → Record → Prop}

lemma forall₂_find (h : List.Forall₂ P l l') (hid : ∀ r s, P r s → s.id = r.id) (taskId : String) :
    (find l taskId = none ∧ find l' taskId = none) ∨
      ∃ r s, find l taskId = some r ∧ find l' taskId = some s ∧ P r s := by
  induction h with
  | nil => exact .inl ⟨rfl, rfl⟩
  | @cons r s rs ss hr _ ih =>
    have hids : s.id = r.id := hid r s hr
    by_cases hr' : r.id = some taskId
    · exact .inr ⟨r, s, by simp [find, hr'], by simp [find, hids, hr'], hr⟩
    · simpa [find, hids, hr'] using ih

end Rows

lemma ListEdit.find (h : ListEdit keys touched l l') (hid : "id" ∉ keys) (taskId : String) :
    (find l taskId = none ∧ find l' taskId = none) ∨
      ∃ r s, find l taskId = some r ∧ find l' taskId = some s ∧ RowEdit keys touched r s :=
  forall₂_find h (fun _ _ hr => hr.1.id hid) taskId

lemma ifMoved_eq_some {f : Record → Record} (h : ifMoved f r = some s) : s = f r := by
  unfold ifMoved at h
  split at h
  · cases h
  · exact (Option.some.inj h).symm

def statusKeys : List String := ["status", "attentionRequestedAt", "completedAt", "failureReason"]

lemma writeField_agreesOff {k : String} (h : Record.AgreesOff keys r s) (hk : k ∈ keys)
    (f : Field) : Record.AgreesOff keys r (writeField s k f) := by
  cases f
  · exact h.insert _ hk
  · exact h.remove hk

variable {reason : Option String} {attention : Option ℕ}

lemma statusEdit_agreesOff {status : TaskStatus}
    {now : ℕ} (h : statusEdit status attention reason now r = some s) :
    Record.AgreesOff statusKeys r s := by
  unfold statusEdit at h
  dsimp only at h
  split at h
  · cases h
  split at h
  · cases h
  have hmoved : ∀ a c, Record.AgreesOff statusKeys r (writeField (writeField
      (r.insert "status" status.value) "attentionRequestedAt" a) "completedAt" c) := fun a c =>
    writeField_agreesOff (writeField_agreesOff ((Record.AgreesOff.refl _ r).insert _ (by decide))
      (by decide) a) (by decide) c
  obtain rfl := Option.some.inj h
  split
  · exact insertText_agreesOff (hmoved _ _) (by decide) _
  · exact hmoved _ _

lemma applyStatusTransition_edit (l : List Record) (taskId : String) (status : TaskStatus)
    (attention : Option ℕ) (reason : Option String) (now : ℕ) :
    ListEdit statusKeys (isTask taskId) l
      (applyStatusTransition l taskId status attention reason now).records :=
  ListEdit.onTask (fun _ _ h => statusEdit_agreesOff h) l

lemma writeField_get_ne {k j : String} (h : j ≠ k) (f : Field) (r : Record) :
    (writeField r k f).get j = r.get j := by
  cases f <;> simp [writeField, h]

lemma statusEdit_statusOf {status : TaskStatus}
    {now : ℕ} (h : statusEdit status attention reason now r = some s) :
    statusOf s = some status := by
  unfold statusEdit at h
  dsimp only at h
  split at h
  · cases h
  split at h
  · cases h
  obtain rfl := Option.some.inj h
  have hmoved : ∀ a c, (writeField (writeField (r.insert "status" status.value)
      "attentionRequestedAt" a) "completedAt" c).get "status" = some status.value := fun a c => by
    rw [writeField_get_ne (by decide), writeField_get_ne (by decide), Record.get_insert, if_pos rfl]
  have hget : ∀ u : Record, u.get "status" = some status.value → statusOf u = some status :=
    fun u hu => by simp [statusOf, Record.strField, hu, TaskStatus.value, Value.asStr]
  split
  · refine hget _ ?_
    cases reason
    · exact hmoved _ _
    · simp [insertText, hmoved]
  · exact hget _ (hmoved _ _)

/-- The row has ended with this status: it has an end time and nobody has to look at it. -/
def EndedAs (status : TaskStatus) (r : Record) : Prop :=
  statusOf r = some status ∧ r.get "attentionRequestedAt" = none ∧
    ∃ n, r.get "completedAt" = some (.ofNat n)

lemma statusEdit_eq_none_iff {status : TaskStatus} (h : status.isTerminal = true)
    (attention : Option ℕ) (reason : Option String) (now : ℕ) (r : Record) :
    statusEdit status attention reason now r = none ↔ EndedAs status r := by
  have hignore : shouldIgnoreTransition (statusOf r) status = false := by
    cases status <;> simp_all [shouldIgnoreTransition, TaskStatus.isTerminal]
  have hatt : attentionField status attention now = .clear := by
    cases status <;> simp_all [attentionField, TaskStatus.isTerminal]
  have hcleared : fieldMatches r "attentionRequestedAt" .clear = true ↔
      r.get "attentionRequestedAt" = none := by
    unfold fieldMatches
    cases hg : r.get "attentionRequestedAt" with
    | none => simp
    | some v => cases v <;> simp
  have hdone : fieldMatches r "completedAt" (completedField r status now) = true ↔
      ∃ n, r.get "completedAt" = some (.ofNat n) := by
    unfold fieldMatches completedField Value.ofNat
    rw [if_pos h]
    cases hg : r.get "completedAt" with
    | none => simp
    | some v =>
      cases v with
      | number n => cases n <;> simp [Number.asU64]
      | null | bool | string | nested => simp
  unfold statusEdit EndedAs
  simp only [hignore, hatt, Bool.false_eq_true, if_false]
  rw [← hcleared, ← hdone]
  split
  · next hc => simpa [and_assoc] using hc
  · next hc => simpa [and_assoc] using hc

/-- A run that goes on is not news for a row that runs, nor for a detached one. -/
lemma statusEdit_running_none {now : ℕ}
    (h : statusEdit .running attention reason now r = none) : ended r = false := by
  unfold statusEdit at h
  dsimp only at h
  split at h
  · next hignore =>
    have : statusOf r = some .detached := by simpa [shouldIgnoreTransition] using hignore
    simp [ended, this, TaskStatus.isTerminal]
  · split at h
    · next hsame =>
      have : statusOf r = some .running := by
        simp only [Bool.and_eq_true, decide_eq_true_eq] at hsame
        exact hsame.1.1
      simp [ended, this, TaskStatus.isTerminal]
    · cases h

lemma find_applyStatusTransition (l : List Record) (t : String) (status : TaskStatus)
    (attention : Option ℕ) (reason : Option String) (now : ℕ) :
    find (applyStatusTransition l t status attention reason now).records t =
      (find l t).map fun r => (statusEdit status attention reason now r).getD r := by
  unfold applyStatusTransition
  dsimp only
  rw [mapRows_fst]
  have hid : ∀ r, ((onTask t (statusEdit status attention reason now) r).getD r).id = r.id := by
    intro r
    unfold onTask
    split
    · cases hs : statusEdit status attention reason now r with
      | none => rfl
      | some s => exact (statusEdit_agreesOff hs).id (by decide)
    · rfl
  induction l with
  | nil => rfl
  | cons r rs ih =>
    by_cases hr : r.id = some t
    · have hedit := hid r
      simp only [onTask, hr, if_true] at hedit
      simp [find, hedit, hr, onTask]
    · simpa [find, hid, hr] using ih

lemma applyStatusTransition_changed (l : List Record) (t : String) (status : TaskStatus)
    (attention : Option ℕ) (reason : Option String) (now : ℕ) :
    (applyStatusTransition l t status attention reason now).changed = false ↔
      ∀ r ∈ l, r.id = some t → statusEdit status attention reason now r = none := by
  simp only [applyStatusTransition, mapRows, List.any_eq_false, onTask]
  refine forall₂_congr fun r _ => ?_
  by_cases hr : r.id = some t <;> simp [hr]

lemma archive_edit (l : List Record) (ids : List String) (now : ℕ) :
    ListEdit ["archivedAt"] (fun r => named ids r = true) l (archive l ids now).1 := by
  refine ListEdit.mapRows (fun r s h => ?_) l
  split at h
  · next hr =>
    obtain rfl := Option.some.inj h
    simp only [Bool.and_eq_true] at hr
    exact ⟨(Record.AgreesOff.refl _ r).insert _ (by decide), hr.1.1⟩
  · cases h

lemma unarchive_edit (l : List Record) (ids : List String) :
    ListEdit ["archivedAt"] (fun r => named ids r = true) l (unarchive l ids).1 := by
  refine ListEdit.mapRows (fun r s h => ?_) l
  split at h
  · next hr =>
    obtain rfl := Option.some.inj h
    simp only [Bool.and_eq_true] at hr
    exact ⟨(Record.AgreesOff.refl _ r).remove (by decide), hr.1⟩
  · cases h

lemma toggleStar_edit (l : List Record) (taskId : String) :
    ListEdit ["starred"] (isTask taskId) l (toggleStar l taskId) :=
  ListEdit.mapTask (fun r => (Record.AgreesOff.refl _ r).insert _ (by decide)) l

lemma rename_edit (l : List Record) (taskId name : String) :
    ListEdit ["name"] (isTask taskId) l (rename l taskId name) := by
  refine ListEdit.mapTask (fun r => ?_) l
  split
  · exact (Record.AgreesOff.refl _ r).remove (by decide)
  · exact (Record.AgreesOff.refl _ r).insert _ (by decide)

lemma attachSession_edit (l : List Record) (taskId : String) (family : ProtocolFamily)
    (agent : String) (sid path : Option String) :
    ListEdit sessionKeys (isTask taskId) l (attachSession l taskId family agent sid path).1 := by
  unfold attachSession
  dsimp only
  split
  · exact .refl l
  · refine ListEdit.onTask (fun r s h => ?_) l
    rw [ifMoved_eq_some h]
    exact applyResolvedSession_agreesOff _ _ _ _

lemma foldl_remove_agreesOff (ks : List String) (h : Record.AgreesOff keys r s) (hk : ks ⊆ keys) :
    Record.AgreesOff keys r (ks.foldl Record.remove s) := by
  induction ks generalizing s with
  | nil => exact h
  | cons k ks ih =>
    exact ih (h.remove (hk List.mem_cons_self)) fun j hj => hk (List.mem_cons_of_mem _ hj)

lemma detachSession_edit (l : List Record) (taskId : String) :
    ListEdit detachKeys (isTask taskId) l (detachSession l taskId).1 := by
  refine ListEdit.onTask (fun r s h => ?_) l
  split at h
  · obtain rfl := Option.some.inj h
    exact foldl_remove_agreesOff _ (.refl _ r) (List.Subset.refl _)
  · cases h

def worktreeKeys : List String :=
  ["worktreePath", "worktreeBranch", "baseBranch", "worktreeDiscarded"]

lemma setWorktree_edit (l : List Record) (taskId path branch base : String) :
    ListEdit worktreeKeys (isTask taskId) l (setWorktree l taskId path branch base).1 := by
  refine ListEdit.onTask (fun r s h => ?_) l
  rw [ifMoved_eq_some h]
  exact ((((Record.AgreesOff.refl _ r).insert _ (by decide)).insert _ (by decide)).insert _
    (by decide)).remove (by decide)

lemma discardWorktree_edit (l : List Record) (taskId : String) :
    ListEdit worktreeKeys (isTask taskId) l (discardWorktree l taskId).1 := by
  refine ListEdit.onTask (fun r s h => ?_) l
  split at h
  · cases h
  · obtain rfl := Option.some.inj h
    exact (Record.AgreesOff.refl _ r).insert _ (by decide)

lemma recordDiffStats_edit (l : List Record) (taskId : String) (additions deletions : ℕ) :
    ListEdit ["additions", "deletions"] (isTask taskId) l
      (recordDiffStats l taskId additions deletions).1 := by
  refine ListEdit.onTask (fun r s h => ?_) l
  rw [ifMoved_eq_some h]
  exact ((Record.AgreesOff.refl _ r).insert _ (by decide)).insert _ (by decide)

lemma editTodo_edit (l : List Record) (taskId prompt agent mode : String) :
    ListEdit ["prompt", "agent", "permissionMode"] (isTask taskId) l
      (editTodo l taskId prompt agent mode).1 := by
  refine ListEdit.onTask (fun r s h => ?_) l
  split at h
  · cases h
  · rw [ifMoved_eq_some h]
    exact (((Record.AgreesOff.refl _ r).insert _ (by decide)).insert _ (by decide)).insert _
      (by decide)

lemma foldl_write_agreesOff (delta : List (String × Option Value)) (h : Record.AgreesOff keys r s)
    (hk : delta.map Prod.fst ⊆ keys) :
    Record.AgreesOff keys r (delta.foldl (fun r d => r.write d.1 d.2) s) := by
  induction delta generalizing s with
  | nil => exact h
  | cons d ds ih =>
    exact ih (h.write _ (hk List.mem_cons_self)) fun j hj => hk (List.mem_cons_of_mem _ hj)

lemma applyFieldDelta_edit (l : List Record) (taskId : String)
    (delta : List (String × Option Value)) (hk : delta.map Prod.fst ⊆ keys) :
    ListEdit keys (isTask taskId) l (applyFieldDelta l taskId delta).1 := by
  refine ListEdit.onTask (fun r s h => ?_) l
  rw [ifMoved_eq_some h]
  exact foldl_write_agreesOff _ (.refl _ r) hk

end Aeroric.TaskEdit
