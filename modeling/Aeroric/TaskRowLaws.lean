import Aeroric.Runs
import Aeroric.TaskEdit

/-! Two laws of the row rules. An undone change leaves the row as if only the later writes had
been made, and the session a row names comes from the family that was attached last. -/
namespace Aeroric.TaskReducer

open TaskRecord TaskSession TaskEdit

/-! Undoing a change. -/

section Rollback
variable {current previous applied : Record}

def undone (current previous applied : Record) (key : String) : Option Value :=
  if previous.get key = applied.get key ∨ current.get key ≠ applied.get key then current.get key
  else previous.get key

lemma get_rollbackField (restored : Record) (key j : String) :
    (rollbackField current previous applied restored key).get j =
      if j = key ∧ ¬(previous.get key = applied.get key ∨ current.get key ≠ applied.get key) then
        previous.get key
      else restored.get j := by
  unfold rollbackField
  split
  · next h => simp [h]
  · next h => simp [h]

instance : RightCommutative fun restored (e : Sigma fun _ : String => Value) =>
    rollbackField current previous applied restored e.1 :=
  ⟨fun restored e e' => rollbackField_comm current previous applied restored e.1 e'.1⟩

variable (current previous applied) in
lemma get_foldl_rollbackField (m : Multiset (Sigma fun _ : String => Value)) (restored : Record)
    (j : String)
    (hj : restored.get j = current.get j ∨ restored.get j = undone current previous applied j) :
    (m.foldl (fun restored e => rollbackField current previous applied restored e.1)
      restored).get j =
      if j ∈ m.map Sigma.fst then undone current previous applied j else restored.get j := by
  induction m using Multiset.induction generalizing restored with
  | empty => simp
  | cons e m ih =>
    have hfield : (rollbackField current previous applied restored e.1).get j =
        if j = e.1 then undone current previous applied j else restored.get j := by
      rw [get_rollbackField]
      by_cases hje : j = e.1
      · subst hje
        unfold undone at hj ⊢
        by_cases hkept : previous.get e.1 = applied.get e.1 ∨ current.get e.1 ≠ applied.get e.1
        · simpa [hkept] using hj
        · simp [hkept]
      · simp [hje]
    rw [Multiset.foldl_cons, ih _ (by rw [hfield]; split <;> simp_all), hfield,
      Multiset.map_cons]
    by_cases hje : j = e.1
    · rw [if_pos hje, ite_self, if_pos (Multiset.mem_cons.mpr (.inl hje))]
    · simp only [hje, Multiset.mem_cons, false_or, if_false]

lemma get_rollbackMutation (current previous applied : Record) (j : String) :
    (rollbackMutation current previous applied).get j = undone current previous applied j := by
  have hkeys : ∀ r : Record, j ∈ r.fields.entries.map Sigma.fst ↔ (r.get j).isSome := by
    intro r
    unfold Record.get
    rw [Finmap.lookup_isSome]
    exact Finmap.mem_def.symm
  unfold rollbackMutation Finmap.foldl
  dsimp only
  have hfirst := get_foldl_rollbackField current previous applied previous.fields.entries current j
    (.inl rfl)
  simp only [hkeys] at hfirst
  rw [get_foldl_rollbackField, hfirst]
  · simp only [hkeys]
    by_cases hprevious : (previous.get j).isSome
    · simp [hprevious]
    · by_cases happlied : (applied.get j).isSome
      · simp [happlied]
      · have hsame : previous.get j = applied.get j := by simp_all
        simp [happlied, undone, hsame]
  · rw [hfirst]
    split
    · exact .inr rfl
    · exact .inl rfl

/-- A write of one field: a value, or the key is taken away. -/
structure FieldWrite where
  key : String
  value : Option Value
  deriving DecidableEq

def FieldWrite.apply (r : Record) (w : FieldWrite) : Record := r.write w.key w.value

/-- Under a key stands what was written last, or what the row began with. -/
lemma get_writes (late : List FieldWrite) (j : String) :
    (∃ w ∈ late, w.key = j ∧ ∀ r : Record, (late.foldl FieldWrite.apply r).get j = w.value) ∨
      (∀ r : Record, (late.foldl FieldWrite.apply r).get j = r.get j) := by
  induction late using List.reverseRecOn with
  | nil => exact .inr fun _ => rfl
  | append_singleton late w ih =>
    by_cases hj : j = w.key
    · refine .inl ⟨w, by simp, hj.symm, fun r => ?_⟩
      simp [FieldWrite.apply, hj]
    · have hstep : ∀ r : Record, ((late ++ [w]).foldl FieldWrite.apply r).get j =
          (late.foldl FieldWrite.apply r).get j := by
        intro r
        simp [FieldWrite.apply, hj]
      simp only [hstep]
      rcases ih with ⟨u, hu, hkey, hvalue⟩ | hrest
      · exact .inl ⟨u, by simp [hu], hkey, hvalue⟩
      · exact .inr hrest

/-- Undoing a change after late writes, each to something the change did not write, is making
these writes on the row as it was. -/
theorem rollbackMutation_late (previous applied : Record) :
    (∀ late : List FieldWrite, (∀ w ∈ late, w.value ≠ applied.get w.key) →
      rollbackMutation (late.foldl FieldWrite.apply applied) previous applied =
        late.foldl FieldWrite.apply previous) ∧
    rollbackMutation applied previous applied = previous := by
  have hlate : ∀ late : List FieldWrite, (∀ w ∈ late, w.value ≠ applied.get w.key) →
      rollbackMutation (late.foldl FieldWrite.apply applied) previous applied =
        late.foldl FieldWrite.apply previous := by
    intro late hdiffer
    apply Record.ext_get
    intro j
    rw [get_rollbackMutation]
    unfold undone
    rcases get_writes late j with ⟨w, hw, rfl, hvalue⟩ | hrest
    · rw [hvalue, hvalue, if_pos (.inr (hdiffer w hw))]
    · rw [hrest, hrest]
      split
      · next h => exact (h.resolve_right fun hne => hne rfl).symm
      · rfl
  exact ⟨hlate, hlate [] nofun⟩

/-- A launch that is given up after a hook has renamed the row. -/
theorem rollbackMutation_late_rename :
    let previous := (Record.empty.insert "id" (.string "t")).insert "status" (.string "todo")
    let applied := previous.insert "status" (.string "pending")
    rollbackMutation ([⟨"name", some (.string "n")⟩].foldl FieldWrite.apply applied) previous
      applied = [⟨"name", some (.string "n")⟩].foldl FieldWrite.apply previous :=
  (rollbackMutation_late _ _).1 [⟨"name", some (.string "n")⟩] (by decide +kernel)

end Rollback

/-! Whose session a row names. -/

structure Attach where
  family : ProtocolFamily
  sessionAgent : String
  sessionId : Option String
  sessionPath : Option String
  deriving DecidableEq

inductive SessionCall
  | attach (a : Attach)
  | detach
  deriving DecidableEq

def SessionCall.run (taskId : String) (records : List Record) : SessionCall → List Record
  | .attach a => (attachSession records taskId a.family a.sessionAgent a.sessionId a.sessionPath).1
  | .detach => (detachSession records taskId).1

def Attach.effective (a : Attach) : Bool := a.sessionId.any (· ≠ "") || a.sessionPath.any (· ≠ "")

/-- The effective attaches since the last detach. -/
def attachedSince (calls : List SessionCall) : List Attach :=
  calls.foldl (fun attached call => match call with
    | .attach a => if a.effective then attached ++ [a] else attached
    | .detach => []) []

/-- Each half of the session that the row `r` now names was brought by an attach of the family
attached last, or was that family's own in the row `first` that the calls began with; so the two
halves are never of two families. After a detach there is no session. -/
def Attributed (first : Record) (calls : List SessionCall) (r : Record) : Prop :=
  match (attachedSince calls).getLast? with
  | some last =>
    (∀ id, (currentSession r).1 = some id →
      (∃ a ∈ attachedSince calls, a.family = last.family ∧ a.sessionId = some id) ∨
        first.strField (sessionIdKey last.family) = some id) ∧
    ∀ path, (currentSession r).2 = some path →
      (∃ a ∈ attachedSince calls, a.family = last.family ∧ a.sessionPath = some path) ∨
        first.strField (sessionPathKey last.family) = some path
  | none => .detach ∈ calls → currentSession r = (none, none)

def SessionCall.row (r : Record) : SessionCall → Record
  | .attach a =>
    if a.effective then
      applyResolvedSession r (owner a.sessionAgent a.family)
        (a.sessionId.or (r.strField (sessionIdKey a.family)))
        (a.sessionPath.or (r.strField (sessionPathKey a.family)))
    else r
  | .detach => detachKeys.foldl Record.remove r

/-- An attach that leaves a half of the session open meets a row whose oldest field for that half
is empty. -/
def Closes (r : Record) : SessionCall → Prop
  | .attach a => a.effective →
    ((a.sessionId.or (r.strField (sessionIdKey a.family))).any (· ≠ "") ∨
      (r.strField "sessionId").all (· = "")) ∧
    ((a.sessionPath.or (r.strField (sessionPathKey a.family))).any (· ≠ "") ∨
      (r.strField "sessionPath").all (· = ""))
  | .detach => True

instance (r : Record) : (call : SessionCall) → Decidable (Closes r call)
  | .attach a => inferInstanceAs (Decidable (a.effective = true → _))
  | .detach => .isTrue trivial

section Session
variable {taskId : String} {first r : Record} {calls : List SessionCall} {f g : ProtocolFamily}

lemma sessionIdKey_inj : sessionIdKey g = sessionIdKey f ↔ g = f := by
  cases g <;> cases f <;> decide

lemma sessionPathKey_inj : sessionPathKey g = sessionPathKey f ↔ g = f := by
  cases g <;> cases f <;> decide

lemma sessionIdKey_ne_sessionPathKey : sessionIdKey g ≠ sessionPathKey f := by
  cases g <;> cases f <;> decide

lemma sessionIdKey_notMem_brand :
    sessionIdKey g ∉ ["sessionAgent", "sessionCodexLike", "sessionFamily"] := by
  cases g <;> decide

lemma sessionPathKey_notMem_brand :
    sessionPathKey g ∉ ["sessionAgent", "sessionCodexLike", "sessionFamily"] := by
  cases g <;> decide

lemma get_clearSessions (families : List ProtocolFamily) (r : Record) (k : String) :
    (clearSessions families r).get k =
      if ∃ f ∈ families, k = sessionIdKey f ∨ k = sessionPathKey f then none else r.get k := by
  induction families generalizing r with
  | nil => simp [clearSessions]
  | cons f fs ih =>
    have hcons : clearSessions (f :: fs) r =
        clearSessions fs ((r.remove (sessionIdKey f)).remove (sessionPathKey f)) := rfl
    rw [hcons, ih]
    by_cases hrest : ∃ g ∈ fs, k = sessionIdKey g ∨ k = sessionPathKey g
    · have hsome : ∃ g ∈ f :: fs, k = sessionIdKey g ∨ k = sessionPathKey g := by
        obtain ⟨g, hg, hk⟩ := hrest
        exact ⟨g, .tail _ hg, hk⟩
      rw [if_pos hrest, if_pos hsome]
    · rw [if_neg hrest]
      simp only [List.mem_cons, exists_eq_or_imp, hrest, or_false, Record.get_remove]
      by_cases hid : k = sessionIdKey f <;> by_cases hpath : k = sessionPathKey f <;>
        simp [hid, hpath]

lemma mem_families (f : ProtocolFamily) : f ∈ ProtocolFamily.all := by
  cases f <;> decide

lemma get_brand (agent : String) {k : String}
    (hk : k ∉ ["sessionAgent", "sessionCodexLike", "sessionFamily"]) :
    (brand r agent f).get k = r.get k := by
  simp only [List.mem_cons, List.not_mem_nil, or_false, not_or] at hk
  simp [brand, hk]

lemma get_insertText (r : Record) (key k : String) (text : Option String) :
    (insertText r key text).get k =
      if k = key then (text.map Value.string).or (r.get k) else r.get k := by
  cases text <;> simp [insertText]

section Applied
variable {agent : String} {sid path : Option String}
  (hsome : ¬(sid.isNone && path.isNone) = true)
include hsome

lemma strField_applied_sessionId :
    (applyResolvedSession r (owner agent f) sid path).strField (sessionIdKey g) =
      if g = f then sid else none := by
  have hcleared : (clearSessions ProtocolFamily.all r).get (sessionIdKey g) = none := by
    rw [get_clearSessions, if_pos ⟨g, mem_families g, .inl rfl⟩]
  unfold applyResolvedSession Record.strField owner
  rw [if_neg hsome]
  dsimp only
  rw [get_insertText, if_neg sessionIdKey_ne_sessionPathKey, get_insertText,
    get_brand _ sessionIdKey_notMem_brand, hcleared]
  simp only [sessionIdKey_inj]
  split
  · cases sid <;> rfl
  · rfl

lemma strField_applied_sessionPath :
    (applyResolvedSession r (owner agent f) sid path).strField (sessionPathKey g) =
      if g = f then path else none := by
  have hcleared : (clearSessions ProtocolFamily.all r).get (sessionPathKey g) = none := by
    rw [get_clearSessions, if_pos ⟨g, mem_families g, .inr rfl⟩]
  unfold applyResolvedSession Record.strField owner
  rw [if_neg hsome]
  dsimp only
  rw [get_insertText, get_insertText, if_neg sessionIdKey_ne_sessionPathKey.symm,
    get_brand _ sessionPathKey_notMem_brand, hcleared]
  simp only [sessionPathKey_inj]
  split
  · cases path <;> rfl
  · rfl

lemma strField_applied_sessionFamily :
    (applyResolvedSession r (owner agent f) sid path).strField "sessionFamily" = some f.wire := by
  have hid : "sessionFamily" ≠ sessionIdKey f := by cases f <;> decide
  have hpath : "sessionFamily" ≠ sessionPathKey f := by cases f <;> decide
  unfold applyResolvedSession Record.strField owner
  rw [if_neg hsome]
  dsimp only
  rw [get_insertText, if_neg hpath, get_insertText, if_neg hid]
  simp [brand, ProtocolFamily.value, Value.asStr]

/-- With a half in its own fields a row names no other family's session. -/
lemma currentSession_applied (hany : sid.any (· ≠ "") ∨ path.any (· ≠ "")) :
    currentSession (applyResolvedSession r (owner agent f) sid path) =
      ((sid.filter (· ≠ "")).or ((r.strField "sessionId").filter (· ≠ "")),
        (path.filter (· ≠ "")).or ((r.strField "sessionPath").filter (· ≠ ""))) := by
  have hkept := applyResolvedSession_agreesOff r (owner agent f) sid path
  have hid : (applyResolvedSession r (owner agent f) sid path).strField (sessionIdKey f) = sid := by
    rw [strField_applied_sessionId hsome, if_pos rfl]
  have hpath : (applyResolvedSession r (owner agent f) sid path).strField (sessionPathKey f) =
      path := by
    rw [strField_applied_sessionPath hsome, if_pos rfl]
  have hfound : ∀ value : Option String, value.any (· ≠ "") → value.filter (· ≠ "") ≠ none := by
    intro value hvalue
    cases value <;> simp_all
  unfold currentSession
  rw [strField_applied_sessionFamily hsome, hkept.strField (by decide), hkept.strField (by decide)]
  simp only [Option.bind_some, ProtocolFamily.parse_wire, Option.getD_some, sessionFields, hid,
    hpath]
  split
  · next hnoId hnoPath =>
    exact (hany.elim (fun h => hfound _ h hnoId) fun h => hfound _ h hnoPath).elim
  · rfl

end Applied

lemma get_foldl_remove (keys : List String) (r : Record) (k : String) :
    (keys.foldl Record.remove r).get k = if k ∈ keys then none else r.get k := by
  induction keys generalizing r with
  | nil => simp
  | cons j keys ih =>
    rw [List.foldl_cons, ih, Record.get_remove]
    by_cases hk : k ∈ keys <;> by_cases hj : k = j <;> simp [hk, hj]

lemma strField_detached {k : String} (hk : k ∈ detachKeys) :
    (SessionCall.detach.row r).strField k = none := by
  unfold SessionCall.row Record.strField
  rw [get_foldl_remove, if_pos hk]
  rfl

lemma sessionIdKey_mem_detachKeys : sessionIdKey g ∈ detachKeys := by cases g <;> decide

lemma sessionPathKey_mem_detachKeys : sessionPathKey g ∈ detachKeys := by cases g <;> decide

lemma currentSession_detached : currentSession (SessionCall.detach.row r) = (none, none) := by
  have hid : ∀ g, (SessionCall.detach.row r).strField (sessionIdKey g) = none := fun _ =>
    strField_detached sessionIdKey_mem_detachKeys
  have hpath : ∀ g, (SessionCall.detach.row r).strField (sessionPathKey g) = none := fun _ =>
    strField_detached sessionPathKey_mem_detachKeys
  have hlegacy : ∀ families : List ProtocolFamily,
      (families.map fun _ => ((none, none) : Option String × Option String)).find?
        (fun p => p.1.any (· ≠ "") || p.2.any (· ≠ "")) = none := by
    intro families
    simp
  unfold currentSession
  rw [strField_detached (k := "sessionId") (by decide),
    strField_detached (k := "sessionPath") (by decide)]
  simp only [sessionFields, hid, hpath, hlegacy, Option.bind_none, Option.filter_none,
    Option.or_none]

/-! The calls on a list of rows are calls on each row of the task. -/

lemma id_row (r : Record) (call : SessionCall) : (call.row r).id = r.id := by
  cases call with
  | attach a =>
    unfold SessionCall.row
    dsimp only
    split
    · exact (applyResolvedSession_agreesOff r _ _ _).id (by decide)
    · rfl
  | detach =>
    unfold SessionCall.row Record.id Record.strField
    rw [get_foldl_remove, if_neg (by decide)]

lemma getD_ifMoved (h : Record → Record) (r : Record) : (ifMoved h r).getD r = h r := by
  unfold ifMoved
  split
  · next heq => exact heq.symm
  · rfl

lemma run_eq (call : SessionCall) (records : List Record) :
    call.run taskId records =
      records.map fun r => if r.id = some taskId then call.row r else r := by
  cases call with
  | attach a =>
    have hblank : (a.sessionId.all (· = "") && a.sessionPath.all (· = "")) = !a.effective := by
      unfold Attach.effective
      cases a.sessionId <;> cases a.sessionPath <;> simp
    unfold SessionCall.run attachSession SessionCall.row
    dsimp only
    rw [hblank]
    by_cases heffective : a.effective = true
    · simp only [heffective, Bool.not_true, Bool.false_eq_true, if_false, if_true, mapRows_fst,
        onTask]
      refine List.map_congr_left fun r _ => ?_
      split
      · exact getD_ifMoved _ r
      · rfl
    · simp [heffective]
  | detach =>
    unfold SessionCall.run detachSession SessionCall.row
    rw [mapRows_fst]
    refine List.map_congr_left fun r _ => ?_
    unfold onTask
    dsimp only
    split
    · split
      · rfl
      · next hnone =>
        -- none of the keys is there: taking them away changes nothing
        refine Record.ext_get fun k => ?_
        rw [get_foldl_remove]
        split
        · next hk =>
          simp only [List.any_eq_true, not_exists, not_and, Record.contains,
            Option.isSome_iff_ne_none, ne_eq, not_not] at hnone
          exact hnone k hk
        · rfl
    · rfl

lemma runs_eq (calls : List SessionCall) (records : List Record) :
    calls.foldl (SessionCall.run taskId) records =
      records.map fun r => if r.id = some taskId then calls.foldl SessionCall.row r else r := by
  induction calls generalizing records with
  | nil => simp
  | cons call calls ih =>
    rw [List.foldl_cons, ih, run_eq, List.map_map]
    refine List.map_congr_left fun r _ => ?_
    by_cases hr : r.id = some taskId
    · simp [hr, id_row]
    · simp [hr]

/-! The run. -/

@[simp] lemma attachedSince_attach (calls : List SessionCall) (a : Attach) :
    attachedSince (calls ++ [.attach a]) =
      if a.effective then attachedSince calls ++ [a] else attachedSince calls := by
  simp [attachedSince]

@[simp] lemma attachedSince_detach (calls : List SessionCall) :
    attachedSince (calls ++ [.detach]) = [] := by
  simp [attachedSince]

/-- Every family's own fields come from attaches of the family, or from the first row. -/
structure Sourced (first : Record) (calls : List SessionCall) (r : Record) : Prop where
  id : ∀ f id, r.strField (sessionIdKey f) = some id →
    (∃ a ∈ attachedSince calls, a.family = f ∧ a.sessionId = some id) ∨
      first.strField (sessionIdKey f) = some id
  path : ∀ f path, r.strField (sessionPathKey f) = some path →
    (∃ a ∈ attachedSince calls, a.family = f ∧ a.sessionPath = some path) ∨
      first.strField (sessionPathKey f) = some path

/-- A half that a family has after an attach was brought by it or was the family's before. -/
lemma sourced_or {since : List Attach} {a : Attach} {half : Attach → Option String}
    {own begun : Option String} {value : String} (hvalue : (half a).or own = some value)
    (hown : own = some value → (∃ b ∈ since, b.family = a.family ∧ half b = some value) ∨
      begun = some value) :
    (∃ b ∈ since ++ [a], b.family = a.family ∧ half b = some value) ∨ begun = some value := by
  rcases Option.or_eq_some_iff.mp hvalue with hbrought | ⟨-, hbefore⟩
  · exact .inl ⟨a, by simp, rfl, hbrought⟩
  · rcases hown hbefore with ⟨b, hb, hfamily, hhalf⟩ | hbegun
    · exact .inl ⟨b, by simp [hb], hfamily, hhalf⟩
    · exact .inr hbegun

lemma Attach.brings {a : Attach} (heffective : a.effective = true) (id path : Option String) :
    ((a.sessionId.or id).any (· ≠ "") ∨ (a.sessionPath.or path).any (· ≠ "")) ∧
      ¬((a.sessionId.or id).isNone && (a.sessionPath.or path).isNone) = true := by
  unfold Attach.effective at heffective
  cases hid : a.sessionId <;> cases hpath : a.sessionPath <;> simp_all

lemma Sourced.row (h : Sourced first calls r) (call : SessionCall) :
    Sourced first (calls ++ [call]) (call.row r) := by
  cases call with
  | detach =>
    refine ⟨fun f id hid => ?_, fun f path hpath => ?_⟩
    · rw [strField_detached sessionIdKey_mem_detachKeys] at hid
      cases hid
    · rw [strField_detached sessionPathKey_mem_detachKeys] at hpath
      cases hpath
  | attach a =>
    unfold SessionCall.row
    dsimp only
    by_cases heffective : a.effective = true
    · rw [if_pos heffective]
      have hsome := (a.brings heffective (r.strField (sessionIdKey a.family))
        (r.strField (sessionPathKey a.family))).2
      refine ⟨fun f id hid => ?_, fun f path hpath => ?_⟩
      · rw [strField_applied_sessionId hsome] at hid
        split at hid
        · next hf =>
          subst hf
          rw [attachedSince_attach, if_pos heffective]
          exact sourced_or hid (h.id a.family id)
        · cases hid
      · rw [strField_applied_sessionPath hsome] at hpath
        split at hpath
        · next hf =>
          subst hf
          rw [attachedSince_attach, if_pos heffective]
          exact sourced_or hpath (h.path a.family path)
        · cases hpath
    · rw [if_neg heffective]
      refine ⟨fun f id hid => ?_, fun f path hpath => ?_⟩
      · rw [attachedSince_attach, if_neg heffective]
        exact h.id f id hid
      · rw [attachedSince_attach, if_neg heffective]
        exact h.path f path hpath

/-- A half that is filled is not looked for in the oldest fields, and one that is open finds
nothing there. -/
lemma eq_some_of_closed {own oldest : Option String} {value : String}
    (hclosed : own.any (· ≠ "") ∨ oldest.all (· = ""))
    (h : (own.filter (· ≠ "")).or (oldest.filter (· ≠ "")) = some value) : own = some value := by
  cases own <;> cases oldest <;> simp_all [Option.filter]
  all_goals grind

lemma Attributed.row (h : Attributed first calls r) (hsourced : Sourced first calls r)
    (call : SessionCall) (hcloses : Closes r call) :
    Attributed first (calls ++ [call]) (call.row r) := by
  have hrow := hsourced.row call
  unfold Attributed at h ⊢
  cases call with
  | detach => simp [currentSession_detached]
  | attach a =>
    by_cases heffective : a.effective = true
    · obtain ⟨hany, hsome⟩ := a.brings heffective (r.strField (sessionIdKey a.family))
        (r.strField (sessionPathKey a.family))
      obtain ⟨hid, hpath⟩ := hcloses heffective
      have hlast : (attachedSince (calls ++ [.attach a])).getLast? = some a := by
        rw [attachedSince_attach, if_pos heffective, List.getLast?_concat]
      unfold SessionCall.row at hrow ⊢
      simp only [heffective, if_true] at hrow
      simp only [hlast, heffective, if_true]
      rw [currentSession_applied hsome hany]
      refine ⟨fun id hcurrent => hrow.id a.family id ?_, fun path hcurrent =>
        hrow.path a.family path ?_⟩
      · rw [strField_applied_sessionId hsome, if_pos rfl]
        exact eq_some_of_closed hid hcurrent
      · rw [strField_applied_sessionPath hsome, if_pos rfl]
        exact eq_some_of_closed hpath hcurrent
    · unfold SessionCall.row
      simp only [heffective, Bool.false_eq_true, if_false, attachedSince_attach]
      simpa using h

lemma attributed_run (r : Record) (h : Along SessionCall.row Closes r calls) :
    Attributed r calls (calls.foldl SessionCall.row r) := by
  have hrun : ∀ earlier, earlier <+: calls → Sourced r earlier (earlier.foldl SessionCall.row r) ∧
      Attributed r earlier (earlier.foldl SessionCall.row r) := by
    intro earlier
    induction earlier using List.reverseRecOn with
    | nil =>
      intro _
      exact ⟨⟨fun _ _ => .inr, fun _ _ => .inr⟩, by simp [Attributed, attachedSince]⟩
    | append_singleton earlier call ih =>
      intro hpre
      obtain ⟨hsourced, hattributed⟩ := ih ((List.prefix_append _ _).trans hpre)
      rw [List.foldl_concat]
      exact ⟨hsourced.row call, hattributed.row hsourced call (Along.iff.mp h earlier call hpre)⟩
  exact (hrun calls (List.prefix_refl _)).2

/-- In every run of attaches and detaches on a list of rows, a row of the task on which no attach
leaves a half open that the row's oldest fields fill names a session of the family attached last,
and none after a detach. -/
theorem sessions_attributed (taskId : String) (records : List Record) (calls : List SessionCall)
    (hcloses : ∀ r ∈ records, r.id = some taskId → Along SessionCall.row Closes r calls) :
    ∀ earlier, earlier <+: calls → List.Forall₂
      (fun r now => r.id = some taskId → Attributed r earlier now) records
      (earlier.foldl (SessionCall.run taskId) records) := by
  intro earlier hpre
  rw [runs_eq, List.forall₂_map_right_iff, List.forall₂_same]
  intro r hr hid
  rw [if_pos hid]
  refine attributed_run r (Along.iff.mpr fun before call hbefore => ?_)
  exact Along.iff.mp (hcloses r hr hid) before call (hbefore.trans hpre)

/-- A row as a very old client wrote it. -/
def oldRow : Record :=
  (Record.empty.insert "id" (.string "t")).insert "sessionId" (.string "old")

/-- A session with both halves, another family's with both, and no session any more. -/
theorem sessions_attributed_oldRow :
    let calls : List SessionCall := [.attach ⟨.claude, "claude", some "a", some "p"⟩,
      .attach ⟨.codex, "codex", some "b", some "q"⟩, .detach]
    (∀ r ∈ [oldRow], r.id = some "t" → Along SessionCall.row Closes r calls) ∧
    ∀ earlier, earlier <+: calls → List.Forall₂
      (fun r now => r.id = some "t" → Attributed r earlier now) [oldRow]
      (earlier.foldl (SessionCall.run "t") [oldRow]) := by
  have hcloses : ∀ r ∈ [oldRow], r.id = some "t" → Along SessionCall.row Closes r
      [.attach ⟨.claude, "claude", some "a", some "p"⟩,
        .attach ⟨.codex, "codex", some "b", some "q"⟩, .detach] := by
    decide +kernel
  exact ⟨hcloses, sessions_attributed "t" [oldRow] _ hcloses⟩

/-- The session that was attached has a path and no id: the row names it with the id that it had
from before every family. -/
theorem sessions_not_attributed :
    let calls : List SessionCall := [.attach ⟨.claude, "claude", none, some "p"⟩]
    (calls.foldl SessionCall.row oldRow).id = some "t" ∧
    calls.foldl (SessionCall.run "t") [oldRow] = [calls.foldl SessionCall.row oldRow] ∧
    currentSession (calls.foldl SessionCall.row oldRow) = (some "old", some "p") ∧
    ¬Attributed oldRow calls (calls.foldl SessionCall.row oldRow) := by
  have hcurrent : currentSession (([.attach ⟨.claude, "claude", none, some "p"⟩] :
      List SessionCall).foldl SessionCall.row oldRow) = (some "old", some "p") := by
    decide +kernel
  refine ⟨by decide +kernel, by decide +kernel, hcurrent, fun h => ?_⟩
  rcases h.1 "old" (congrArg Prod.fst hcurrent) with ⟨a, ha, -, hid⟩ | hfirst
  · simp [attachedSince, Attach.effective] at ha
    subst ha
    cases hid
  · revert hfirst
    decide +kernel

end Session

end Aeroric.TaskReducer
