import Aeroric.TurnLedger

/-! Undoing turns and taking that back. -/
namespace Aeroric.Turns

/-- Do an action and take it back, on a turn it covered and with nothing in between. -/
def takenBack (snapshots : Snapshots) (now later : ℕ) (w : Workspace) (turnId : String)
    (action : TurnAction) (m : String) : Except String Workspace :=
  match apply snapshots fineDisk now w turnId action false with
  | (.error e, _) => .error e
  | (.ok _, w) =>
    match apply snapshots fineDisk later w m .restore false with
    | (.error e, _) => .error e
    | (.ok _, w) => .ok w

def mark (action : TurnAction) (ms : List TurnRecord) (now : ℕ) (r : TurnRecord) : TurnRecord :=
  if r.turnId ∈ ms.map (·.turnId) then r.marked action (groupOf (ms.map (·.turnId))) now else r

section
variable {snapshots : Snapshots} {w : Workspace} {turnId : String} {action : TurnAction}
  {ms : List TurnRecord} {now later : ℕ} {r m : TurnRecord}

@[simp] lemma mark_id : (mark action ms now r).turnId = r.turnId := by
  unfold mark
  split
  · exact marked_id _ _
  · rfl

lemma mark_mem (h : r.turnId ∈ ms.map (·.turnId)) :
    mark action ms now r = r.marked action (groupOf (ms.map (·.turnId))) now := if_pos h

lemma mark_notMem (h : r.turnId ∉ ms.map (·.turnId)) : mark action ms now r = r := if_neg h

lemma mark_covered (haction : action ≠ .restore) (hr : r ∈ ms) :
    (mark action ms now r).state = .undone ∧
      (mark action ms now r).undoGroup = groupOf (ms.map (·.turnId)) := by
  rw [mark_mem (List.mem_map_of_mem hr)]
  unfold TurnRecord.marked
  rw [if_neg haction]
  exact ⟨rfl, rfl⟩

lemma mark_same : (mark action ms now r).startedMs = r.startedMs ∧
    (mark action ms now r).before = r.before ∧ (mark action ms now r).after = r.after ∧
      (mark action ms now r).headBefore = r.headBefore ∧
        (mark action ms now r).headAfter = r.headAfter := by
  unfold mark TurnRecord.marked
  split
  · split <;> exact ⟨rfl, rfl, rfl, rfl, rfl⟩
  · exact ⟨rfl, rfl, rfl, rfl, rfl⟩

lemma sort_mark (turns : List TurnRecord) :
    (turns.map (mark action ms now)).insertionSort (fun r s => r.startedMs ≤ s.startedMs) =
      (turns.insertionSort fun r s => r.startedMs ≤ s.startedMs).map (mark action ms now) := by
  refine (List.map_insertionSort _ _ _ _ fun r _ s _ => ?_).symm
  rw [mark_same.1, mark_same.1]

lemma changes_mark (l : List TurnRecord) (path : String) :
    changes snapshots (l.map (mark action ms now)) path = changes snapshots l path := by
  have hsides : ∀ r, sides snapshots path (mark action ms now r) = sides snapshots path r := by
    intro r
    unfold sides
    rw [mark_same.2.1, mark_same.2.2.1]
  have hchanger : (·.changed snapshots path) ∘ mark action ms now = (·.changed snapshots path) := by
    funext r
    unfold TurnRecord.changed
    rw [Function.comp_apply, mark_same.2.1, mark_same.2.2.1]
  unfold changes changers
  rw [List.filter_map, List.map_map, hchanger]
  exact List.map_congr_left fun r _ => hsides r

lemma members_filter {turns : List TurnRecord} (h : members turns r action = .ok ms)
    (haction : action ≠ .restore) (hms : 1 < ms.length) :
    ∃ p : TurnRecord → Bool,
      ms = (turns.insertionSort fun r s => r.startedMs ≤ s.startedMs).filter p := by
  unfold members at h
  cases action with
  | undo =>
    dsimp only at h
    split at h
    · cases h
    · cases h
      exact absurd hms (lt_irrefl 1)
  | undoFrom =>
    dsimp only at h
    split at h
    · cases h
    · cases h
      exact ⟨_, rfl⟩
  | restore => exact absurd rfl haction

lemma Covers.mem (h : Covers snapshots w turnId action ms) (hm : m ∈ ms) :
    m ∈ w.turns ∧ (action ≠ .restore → m.state ≠ .undone) := by
  obtain ⟨r, hr, hms⟩ := h.covered
  exact members_mem hms (List.mem_of_find?_eq_some hr) m hm

lemma Covers.mem_of_id (h : Covers snapshots w turnId action ms) (hturns : Recorded w.turns)
    (hr : r ∈ w.turns) (hid : r.turnId ∈ ms.map (·.turnId)) : r ∈ ms := by
  obtain ⟨m, hm, hid⟩ := List.mem_map.mp hid
  rwa [← hturns.eq_of_id (h.mem hm).1 hr hid]

/-- No other turn is undone with the group of the batch. -/
def Clean (turns : List TurnRecord) (ids : List String) : Prop :=
  ∀ r ∈ turns, ∀ g ∈ groupOf ids, r.undoGroup ≠ some g

lemma members_restore (h : Covers snapshots w turnId action ms) (hturns : Recorded w.turns)
    (haction : action ≠ .restore) (hclean : Clean w.turns (ms.map (·.turnId))) (hm : m ∈ ms) :
    members (w.turns.map (mark action ms now)) (mark action ms now m) .restore =
      .ok (ms.map (mark action ms now)) := by
  unfold members
  dsimp only
  rw [(mark_covered haction hm).1, (mark_covered haction hm).2, if_neg (fun h => h rfl)]
  cases hgroup : groupOf (ms.map (·.turnId)) with
  | none =>
    unfold groupOf at hgroup
    split at hgroup
    · next hlen =>
      rw [List.length_map] at hlen
      cases ms with
      | nil => cases hlen
      | cons k ms => cases hgroup
    · next hlen =>
      rw [List.length_map] at hlen
      obtain ⟨k, rfl⟩ := List.length_eq_one_iff.mp
        (Nat.le_antisymm (Nat.le_of_not_lt hlen) (List.length_pos_of_mem hm))
      rw [List.mem_singleton.mp hm]
      rfl
  | some g =>
    dsimp only
    have hlen : 1 < ms.length := by
      unfold groupOf at hgroup
      split at hgroup
      · next hlen => rwa [List.length_map] at hlen
      · cases hgroup
    obtain ⟨k, -, hms⟩ := h.covered
    obtain ⟨p, hp⟩ := members_filter hms haction hlen
    rw [sort_mark, List.filter_map]
    congr 2
    conv_rhs => rw [hp]
    refine List.filter_congr fun r hr => ?_
    rw [List.mem_insertionSort] at hr
    have hin : p r = true ↔ r ∈ ms := by
      rw [hp, List.mem_filter, List.mem_insertionSort]
      exact (and_iff_right hr).symm
    rw [Bool.eq_iff_iff, hin, Function.comp_apply, decide_eq_true_eq]
    by_cases hrm : r ∈ ms
    · simp [hrm, (mark_covered haction hrm).2, hgroup]
    · rw [mark_notMem fun hid => hrm (h.mem_of_id hturns hr hid)]
      exact iff_of_false (hclean r hr g hgroup) hrm

def written (snapshots : Snapshots) (action : TurnAction) (ms : List TurnRecord) (files : Files) :
    Files := fun path => (result snapshots action ms files path).toFile

lemma apply_mark (now : ℕ) (h : Covers snapshots w turnId action ms)
    (hwritable : Writable snapshots action ms w.files) :
    ∃ p, apply snapshots fineDisk now w turnId action false =
      (.ok p, ⟨written snapshots action ms w.files, w.turns.map (mark action ms now)⟩) := by
  obtain ⟨hok, hafter⟩ := apply_covers now h
  obtain ⟨p, hp⟩ := hok.mpr hwritable
  exact ⟨p, Prod.ext hp (hafter hwritable)⟩

lemma find_mark (h : Covers snapshots w turnId action ms) (hturns : Recorded w.turns) (hm : m ∈ ms) :
    (w.turns.map (mark action ms now)).find? (·.turnId = m.turnId) =
      some (mark action ms now m) := by
  have hmarked : Recorded (w.turns.map (mark action ms now)) := by
    refine hturns.map (fun _ => mark_id) fun r hr => ?_
    by_cases hid : r.turnId ∈ ms.map (·.turnId)
    · rw [mark_mem hid]
      exact marked_sound (hturns.sound r hr) (h.mem (h.mem_of_id hturns hr hid)).2 _ _
    · rw [mark_notMem hid]
      exact hturns.sound r hr
  have hfind := hmarked.find (List.mem_map_of_mem (f := mark action ms now) (h.mem hm).1)
  rwa [mark_id] at hfind

lemma covers_restore (now : ℕ) (h : Covers snapshots w turnId action ms) (hturns : Recorded w.turns)
    (haction : action ≠ .restore) (hclean : Clean w.turns (ms.map (·.turnId))) (hm : m ∈ ms)
    (files : Files) :
    Covers snapshots ⟨files, w.turns.map (mark action ms now)⟩ m.turnId .restore
      (ms.map (mark action ms now)) := by
  refine ⟨⟨mark action ms now m, find_mark h hturns hm,
    members_restore h hturns haction hclean hm⟩, ?_, ?_⟩
  · intro k hk
    obtain ⟨r, hr, rfl⟩ := List.mem_map.mp hk
    rw [mark_same.2.2.2.1, mark_same.2.2.2.2, h.uncommitted r hr]
  · intro k hk
    obtain ⟨r, hr, rfl⟩ := List.mem_map.mp hk
    unfold TurnRecord.IsPinned
    rw [mark_same.2.1, mark_same.2.2.1]
    exact h.pinned r hr

lemma marked_restore (h : r.Sound) (hr : r.state ≠ .undone) (haction : action ≠ .restore)
    (group group' : Option String) :
    (r.marked action group now).marked .restore group' later = r := by
  obtain ⟨hbefore, hms, hgroup⟩ := h.kept hr
  unfold TurnRecord.marked
  rw [if_neg haction, if_pos rfl]
  cases r
  simp_all

def backAndForth (snapshots : Snapshots) (ms : List TurnRecord) (files : Files) (path : String) : Node :=
  Patch.forthTo Node.object (changes snapshots ms path)
    (Patch.backTo Node.object (changes snapshots ms path) (.ofFile (files path)))

lemma result_undo {files : Files} {path : String} (haction : action ≠ .restore) :
    result snapshots action ms files path =
      Patch.backTo Node.object (changes snapshots ms path) (.ofFile (files path)) := if_neg haction

lemma result_restore {files : Files} {path : String} (haction : action ≠ .restore)
    (hwritable : Writable snapshots action ms files) :
    result snapshots .restore (ms.map (mark action ms now)) (written snapshots action ms files) path =
      backAndForth snapshots ms files path := by
  have hnode : Node.ofFile (written snapshots action ms files path) =
      result snapshots action ms files path := ofFile_toFile (hwritable path)
  rw [result, if_pos rfl, changes_mark, hnode, result_undo haction]
  rfl

lemma takenBack_of_clean (now later : ℕ) (h : Covers snapshots w turnId action ms) (hturns : Recorded w.turns)
    (haction : action ≠ .restore) (hclean : Clean w.turns (ms.map (·.turnId))) (hm : m ∈ ms)
    (hwritable : Writable snapshots action ms w.files) :
    ((∃ w', takenBack snapshots now later w turnId action m.turnId = .ok w') ↔
        ∀ path, backAndForth snapshots ms w.files path ≠ .directory) ∧
      ∀ w', takenBack snapshots now later w turnId action m.turnId = .ok w' →
        w' = ⟨fun path => (backAndForth snapshots ms w.files path).toFile, w.turns⟩ := by
  obtain ⟨p, hfirst⟩ := apply_mark now h hwritable
  obtain ⟨hok, hsecond⟩ := apply_covers later
    (covers_restore now h hturns haction hclean hm (written snapshots action ms w.files))
  have hrestore : Writable snapshots .restore (ms.map (mark action ms now))
      (written snapshots action ms w.files) ↔
        ∀ path, backAndForth snapshots ms w.files path ≠ .directory :=
    forall_congr' fun path => by rw [result_restore haction hwritable]
  unfold takenBack
  rw [hfirst]
  dsimp only
  generalize happly : apply snapshots fineDisk later _ m.turnId .restore false = applied at hok hsecond
  obtain ⟨answer, w'⟩ := applied
  dsimp only at hok hsecond
  rw [hrestore] at hok hsecond
  cases answer with
  | error e => exact ⟨by simpa using hok, nofun⟩
  | ok p =>
    have hall := hok.mp ⟨p, rfl⟩
    refine ⟨iff_of_true ⟨w', rfl⟩ hall, fun w'' heq => ?_⟩
    cases heq
    rw [hsecond hall]
    congr 1
    · funext path
      rw [result_restore haction hwritable]
    · rw [List.map_map]
      conv_rhs => rw [← List.map_id w.turns]
      refine List.map_congr_left fun r hr => ?_
      have hids : (ms.map (mark action ms now)).map (·.turnId) = ms.map (·.turnId) := by
        rw [List.map_map]
        exact List.map_congr_left fun _ _ => mark_id
      rw [Function.comp_apply, id_eq, hids, mark_id]
      by_cases hid : r.turnId ∈ ms.map (·.turnId)
      · rw [if_pos hid, mark_mem hid]
        have hstate := (h.mem (h.mem_of_id hturns hr hid)).2 haction
        exact marked_restore (hturns.sound r hr) hstate haction _ _
      · rw [if_neg hid, mark_notMem hid]

lemma covers_of_apply {p : TurnPlan} (h : (apply snapshots fineDisk now w turnId action false).1 = .ok p) :
    ∃ ms, Covers snapshots w turnId action ms ∧ Writable snapshots action ms w.files := by
  have hplan : (plan snapshots w turnId action false).blocked = none := by
    unfold apply at h
    unfold plan
    cases hplanned : planned snapshots w turnId action false with
    | error reason => simp [hplanned] at h
    | ok p => exact (planned_members hplanned).1
  obtain ⟨-, ms, hcovers, -⟩ := covers_of_plan hplan
  exact ⟨ms, hcovers, (apply_covers _ hcovers).1.mp ⟨p, h⟩⟩

lemma mem_restore {turns : List TurnRecord} (h : members turns m .restore = .ok ms)
    (hr : r ∈ turns) {g : String} (hm : m.undoGroup = some g) (hg : r.undoGroup = some g) :
    r ∈ ms := by
  unfold members at h
  dsimp only at h
  split at h
  · cases h
  · rw [hm] at h
    cases h
    exact List.mem_filter.mpr ⟨(List.mem_insertionSort _).mpr hr, decide_eq_true hg⟩

lemma takenBack_of_unclean (h : Covers snapshots w turnId action ms) (hturns : Recorded w.turns)
    (haction : action ≠ .restore) (hm : m ∈ ms) (hwritable : Writable snapshots action ms w.files)
    {g : String} (hgroup : groupOf (ms.map (·.turnId)) = some g) (hr : r ∈ w.turns)
    (hrg : r.undoGroup = some g) {w' : Workspace}
    (hback : takenBack snapshots now later w turnId action m.turnId = .ok w') :
    w'.turns.map (·.state) ≠ w.turns.map (·.state) := by
  have hundone : r.state = .undone := by
    by_contra hstate
    rw [((hturns.sound r hr).kept hstate).2.2] at hrg
    cases hrg
  have hout : r.turnId ∉ ms.map (·.turnId) := fun hid =>
    (h.mem (h.mem_of_id hturns hr hid)).2 haction hundone
  have hmarkm := @mark_covered action ms now m haction hm
  rw [hgroup] at hmarkm
  obtain ⟨p, hfirst⟩ := apply_mark now h hwritable
  unfold takenBack at hback
  rw [hfirst] at hback
  dsimp only at hback
  split at hback
  · cases hback
  next p' after happly =>
  cases hback
  -- the other turn is covered, and so it is no longer undone
  obtain ⟨ms', h', hwritable'⟩ := covers_of_apply (congrArg Prod.fst happly)
  have hafter := (apply_covers later h').2 hwritable'
  rw [happly] at hafter
  dsimp only at hafter
  rw [hafter, List.map_map, List.map_map]
  intro hstates
  have hstate := List.map_inj_left.mp hstates r hr
  have hin : r ∈ ms' := by
    obtain ⟨k, hk, hms'⟩ := h'.covered
    dsimp only at hk hms'
    rw [find_mark h hturns hm, Option.some.injEq] at hk
    subst hk
    have hkept : r ∈ w.turns.map (mark action ms now) :=
      List.mem_map.mpr ⟨r, hr, mark_notMem hout⟩
    exact mem_restore hms' hkept hmarkm.2 hrg
  rw [Function.comp_apply, Function.comp_apply, mark_notMem hout, if_pos (List.mem_map_of_mem hin),
    hundone] at hstate
  exact restored_state (hturns.sound r hr) hstate

end

lemma content_eq_iff {n : Node} (hn : n ≠ .directory) (file : Option File) :
    n.toFile.map (·.content) = file.map (·.content) ↔ n.object = (Node.ofFile file).object := by
  cases n with
  | absent => cases file <;> simp [Node.toFile, Node.ofFile, Node.object]
  | file f => cases file <;> simp [Node.toFile, Node.ofFile, Node.object]
  | directory => exact absurd rfl hn

/-- What can be written, of what the first turn found where the last one's content still is. -/
lemma writable_iff {snapshots : Snapshots} {ms : List TurnRecord} {action : TurnAction} {files : Files}
    (haction : action ≠ .restore) : Writable snapshots action ms files ↔
      ∀ path, ∀ first ∈ (changes snapshots ms path).head?,
        ∀ last ∈ (changes snapshots ms path).getLast?,
          current files path = last.2.object → first.1 ≠ .directory := by
  refine forall_congr' fun path => ?_
  rw [result_undo haction]
  cases changes snapshots ms path with
  | nil => simp [ofFile_ne_directory]
  | cons c cs =>
    rw [Patch.backTo_cons, List.head?_cons,
      List.getLast?_eq_getLast_of_ne_nil (List.cons_ne_nil _ _)]
    simp only [Option.mem_def, Option.some.injEq, forall_eq', current]
    split
    · next hfit => exact ⟨fun h _ => h, fun h => h hfit⟩
    · next hfit => exact iff_of_true (ofFile_ne_directory _) fun h => absurd h hfit

/-- Undoing and taking that back goes through and leaves the contents of all files and the states of
the turns as they were, exactly if no file that was changed since is again as the first turn found it,
that turn found no directory where a file is to be set back, and no other turn is undone with the
group of these. -/
theorem undo_restore_inverse {snapshots : Snapshots} {w : Workspace} {turnId m : String}
    {action : TurnAction} {running : Bool} (hw : Reached w) (haction : action ≠ .restore)
    (hplan : (plan snapshots w turnId action running).blocked = none)
    (hm : m ∈ (plan snapshots w turnId action running).turns) (now later : ℕ) :
    (∃ w', takenBack snapshots now later w turnId action m = .ok w' ∧
      (∀ path, (w'.files path).map (·.content) = (w.files path).map (·.content)) ∧
      w'.turns.map (·.state) = w.turns.map (·.state)) ↔
    (∀ path, ∀ first ∈ (changes snapshots (covered w turnId action) path).head?,
      ∀ last ∈ (changes snapshots (covered w turnId action) path).getLast?,
        (current w.files path = last.2.object ∨ current w.files path ≠ first.1.object) ∧
        (current w.files path = last.2.object → first.1 ≠ .directory)) ∧
      Clean w.turns (plan snapshots w turnId action running).turns := by
  obtain ⟨-, ms, h, hids⟩ := covers_of_plan hplan
  rw [hids] at hm ⊢
  obtain ⟨k, hk, rfl⟩ := List.mem_map.mp hm
  rw [h.covered_eq]
  have hturns := hw.recorded
  simp only [imp_and, forall_and]
  rw [← writable_iff haction]
  by_cases hwritable : Writable snapshots action ms w.files
  · by_cases hclean : Clean w.turns (ms.map (·.turnId))
    · obtain ⟨hok, heq⟩ := takenBack_of_clean now later h hturns haction hclean hk
        hwritable
      rw [and_iff_left hclean, and_iff_left hwritable]
      have hpaths : (∀ path, (backAndForth snapshots ms w.files path).object = current w.files path) ↔
          ∀ path, ∀ first ∈ (changes snapshots ms path).head?,
            ∀ last ∈ (changes snapshots ms path).getLast?,
              current w.files path = last.2.object ∨ current w.files path ≠ first.1.object :=
        forall_congr' fun path => Patch.forthTo_backTo_iff _ _ _
      rw [← hpaths]
      constructor
      · rintro ⟨w', hback, hcontents, -⟩ path
        have hfiles := hcontents path
        rw [heq w' hback] at hfiles
        exact (content_eq_iff (hok.mp ⟨w', hback⟩ path) _).mp hfiles
      · intro hall
        have hfile : ∀ path, backAndForth snapshots ms w.files path ≠ .directory := by
          intro path hdir
          have hpath := hall path
          rw [hdir, current] at hpath
          cases hfile : w.files path <;> simp [hfile, Node.ofFile, Node.object] at hpath
        obtain ⟨w', hback⟩ := hok.mpr hfile
        refine ⟨w', hback, fun path => ?_, by rw [heq w' hback]⟩
        rw [heq w' hback]
        exact (content_eq_iff (hfile path) _).mpr (hall path)
    · refine iff_of_false ?_ fun hcond => hclean hcond.2
      rintro ⟨w', hback, -, hstates⟩
      unfold Clean at hclean
      push Not at hclean
      obtain ⟨r, hr, g, hg, hrg⟩ := hclean
      exact takenBack_of_unclean h hturns haction hk hwritable hg hr hrg hback hstates
  · refine iff_of_false ?_ fun hcond => hwritable hcond.1.2
    rintro ⟨w', hback, -⟩
    unfold takenBack at hback
    split at hback
    · cases hback
    · next p after happly =>
      exact hwritable ((apply_covers _ h).1.mp ⟨p, congrArg Prod.fst happly⟩)

def plainFile (content : String) : File := ⟨.regular, content⟩

/-- A working tree of one file. -/
def Tree.single (path content : String) : Tree where
  files := fun p => if p = path then some (plainFile content) else none
  paths := [path]
  covers := fun p hp => by
    by_cases h : p = path
    · exact List.mem_singleton.mpr h
    · exact absurd (if_neg h) hp

/-- Snapshots of a file that reads as they are called. -/
def drafts : Snapshots := fun tree =>
  if tree ∈ ["one", "two", "three", "four"] then some (Tree.single "notes.md" tree) else none

/-- A turn that changed one draft to another. -/
def turnOf (turnId : String) (startedMs : ℕ) (before after : String) : TurnRecord :=
  { turnId, startedMs, before, after, headBefore := none, headAfter := none
    state := .pending, undoneMs := none, undoGroup := none, stateBeforeUndo := none }

def onlyTurn (content : String) : Workspace :=
  ⟨(Tree.single "notes.md" content).files, record [] (turnOf "t1" 1 "one" "two")⟩

lemma onlyTurn_reached (content : String) : Reached (onlyTurn content) :=
  ⟨(Tree.single "notes.md" content).files,
    Relation.ReflTransGen.single (.record (turnOf "t1" 1 "one" "two") ⟨rfl, rfl, rfl, rfl⟩)⟩

lemma changes_drafts {path : String} (h : path ≠ "notes.md") (ms : List TurnRecord) :
    changes drafts ms path = [] := by
  have hnone : ∀ tree, (nodeAt drafts tree path).toFile = none := by
    intro tree
    unfold nodeAt drafts
    split
    · simp [Tree.single, h]
    · rfl
  simp [changes, changers, TurnRecord.changed, hnone]

set_option maxRecDepth 8000 in
theorem untouched_taken_back : ∃ w', takenBack drafts 2 3 (onlyTurn "two") "t1" .undo "t1" = .ok w' ∧
    (∀ path, (w'.files path).map (·.content) = ((onlyTurn "two").files path).map (·.content)) ∧
      w'.turns.map (·.state) = (onlyTurn "two").turns.map (·.state) := by
  have hplan : (plan drafts (onlyTurn "two") "t1" .undo false).blocked = none := by decide +kernel
  refine (undo_restore_inverse (onlyTurn_reached "two") (by decide) hplan (by decide +kernel) 2 3).mpr
    ⟨fun path first hfirst last hlast => ?_, fun r _ g hg => nomatch hg⟩
  by_cases hpath : path = "notes.md"
  · subst hpath
    have hchanges : changes drafts (covered (onlyTurn "two") "t1" .undo) "notes.md" =
        [(.file (plainFile "one"), .file (plainFile "two"))] := by decide +kernel
    rw [hchanges] at hfirst hlast
    cases hfirst
    cases hlast
    exact ⟨.inl rfl, fun _ => nofun⟩
  · rw [changes_drafts hpath] at hlast
    cases hlast

/-- The file is as it was before the turn: undoing skips it, taking that back writes it. -/
theorem setBack_not_taken_back : Reached (onlyTurn "one") ∧
    (plan drafts (onlyTurn "one") "t1" .undo false).blocked = none ∧
      "t1" ∈ (plan drafts (onlyTurn "one") "t1" .undo false).turns ∧
        (onlyTurn "one").files "notes.md" = some (plainFile "one") ∧
          (takenBack drafts 2 3 (onlyTurn "one") "t1" .undo "t1").toOption.map
            (·.files "notes.md") = some (some (plainFile "two")) :=
  ⟨onlyTurn_reached "one", by decide +kernel, by decide +kernel, by decide +kernel, by decide +kernel⟩

section Retried
variable {snapshots : Snapshots} {disk : Disk} {w w' : Workspace} {turnId path : String}
  {action : TurnAction} {running : Bool} {p : TurnPlan}

/-- A write that is refused leaves the file as it was. -/
def Disk.LeavesFiles (disk : Disk) : Prop :=
  ∀ path file e left, disk path file = some (e, left) → left = file

lemma writeBack_outside {writes : List Write} (h : path ∉ writes.map (·.path)) (files : Files) :
    (writeBack snapshots disk writes files).2 path = files path := by
  induction writes generalizing files with
  | nil => rfl
  | cons v writes ih =>
    obtain ⟨hv, hwrites⟩ := not_or.mp (mt List.mem_cons.mpr h)
    unfold writeBack
    split
    · rfl
    · split
      · exact Function.update_of_ne hv ..
      · rw [ih hwrites, Function.update_of_ne hv]

/-- A disk that refuses a write leaves each path as it was or as a disk that refuses none. -/
lemma writeBack_between (snapshots : Snapshots) (hdisk : disk.LeavesFiles) (path : String)
    {writes : List Write} (h : (writes.map (·.path)).Nodup) (files : Files) :
    (writeBack snapshots disk writes files).2 path = files path ∨
      (writeBack snapshots disk writes files).2 path =
        (writeBack snapshots fineDisk writes files).2 path := by
  induction writes generalizing files with
  | nil => exact .inl rfl
  | cons v writes ih =>
    obtain ⟨hv, hwrites⟩ := List.nodup_cons.mp h
    unfold writeBack
    split
    · exact .inl rfl
    next target htarget =>
    have hfine : fineDisk v.path (files v.path) = none := rfl
    rw [hfine]
    dsimp only
    split
    · next e left hleft =>
      rw [hdisk _ _ _ _ hleft, Function.update_eq_self]
      exact .inl rfl
    · by_cases hpath : path = v.path
      · subst hpath
        exact .inr ((writeBack_outside hv _).trans (writeBack_outside hv _).symm)
      · have hkept := ih hwrites (Function.update files v.path target)
        rwa [Function.update_of_ne hpath] at hkept

lemma result_between {ms : List TurnRecord} {files files' : Files}
    (hwritable : Writable snapshots action ms files)
    (h : files' path = files path ∨ files' path = written snapshots action ms files path) :
    result snapshots action ms files' path = result snapshots action ms files path := by
  have hnode : Node.ofFile (files' path) = .ofFile (files path) ∨
      Node.ofFile (files' path) = result snapshots action ms files path := by
    rcases h with h | h
    · exact .inl (by rw [h])
    · refine .inr ?_
      rw [h]
      exact ofFile_toFile (hwritable path)
  unfold result at hnode ⊢
  generalize Node.ofFile (files' path) = now at hnode ⊢
  generalize Node.ofFile (files path) = before at hnode ⊢
  cases hchanges : changes snapshots ms path with
  | nil => simpa [hchanges] using hnode
  | cons c cs =>
    rw [hchanges] at hnode
    simp only [Patch.forthTo_cons, Patch.backTo_cons] at hnode ⊢
    generalize ((c :: cs).getLast (List.cons_ne_nil _ _)).2 = left at hnode ⊢
    grind

lemma apply_between {ms : List TurnRecord} {now : ℕ} {e : String} (hdisk : disk.LeavesFiles)
    (h : Covers snapshots w turnId action ms) (hwritable : Writable snapshots action ms w.files)
    (hfailed : apply snapshots disk now w turnId action false = (.error e, w')) :
    w'.turns = w.turns ∧ ∀ path, w'.files path = w.files path ∨
      w'.files path = written snapshots action ms w.files path := by
  obtain ⟨touched, htouched, hplanned⟩ := planned_of_covers h
  have hnodup := (touchedBy_spec htouched).2.1 List.nodup_nil
  have hpaths : ((writesOf snapshots w.files action touched).map (·.path)).Nodup := by
    unfold writesOf
    rw [List.map_map]
    exact hnodup.sublist (List.filter_sublist.map _)
  unfold apply at hfailed
  rw [hplanned] at hfailed
  dsimp only at hfailed
  split at hfailed
  · next hback =>
    cases hfailed
    refine ⟨rfl, fun path => ?_⟩
    have hpath := writeBack_between snapshots hdisk path hpaths w.files
    rwa [hback, (writeBack_covers _ _ htouched).2 hwritable] at hpath
  · cases hfailed

/-- Nothing may be written for now. -/
def locked : Disk := fun _ file => some ("Permission denied (os error 13)", file)

end Retried

end Aeroric.Turns
