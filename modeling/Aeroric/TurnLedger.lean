import Mathlib.Data.List.Dedup
import Mathlib.Data.List.Sort
import Mathlib.Data.String.Basic
import Mathlib.Logic.Relation
import Aeroric.Patch

/-! The turns of a task that changed files, with the snapshots of the working tree before and after
each, and what undoing them or taking an undo back writes. -/
namespace Aeroric.Turns

inductive Mode
  | regular
  | executable
  deriving DecidableEq

structure File where
  mode : Mode
  content : String
  deriving DecidableEq

/-- The file at each path. -/
abbrev Files := String → Option File

/-- A snapshot: no file outside its paths. -/
structure Tree where
  files : Files
  paths : List String
  covers : ∀ path, files path ≠ none → path ∈ paths

/-- What stands at a path. -/
inductive Node
  | absent
  | file (f : File)
  | directory
  deriving DecidableEq

/-- What git knows the content of a path by. Directories are not told apart. -/
inductive Object
  | blob (content : String)
  | tree
  deriving DecidableEq

def Node.object : Node → Option Object
  | .absent => none
  | .file f => some (.blob f.content)
  | .directory => some .tree

def Node.ofFile : Option File → Node
  | none => .absent
  | some f => .file f

def Node.toFile : Node → Option File
  | .file f => some f
  | _ => none

/-- A directory is there if a file is below it. -/
def Tree.node (t : Tree) (path : String) : Node :=
  match t.files path with
  | some f => .file f
  | none => if t.paths.any fun q => (t.files q).isSome && (path.toList ++ ['/']).isPrefixOf q.toList
      then .directory else .absent

/-- The snapshots the repository has, by the ids of their trees. -/
abbrev Snapshots := String → Option Tree

inductive TurnState
  | pending
  | accepted
  | undone
  deriving DecidableEq

inductive TurnAction
  /-- Back to how the turn found the files. -/
  | undo
  /-- Take an undo back. -/
  | restore
  /-- This turn and every later one not undone yet, in one go. -/
  | undoFrom
  deriving DecidableEq

structure TurnRecord where
  turnId : String
  startedMs : ℕ
  before : String
  after : String
  headBefore : Option String
  headAfter : Option String
  state : TurnState
  undoneMs : Option ℕ
  /-- Turns undone together share this, the earliest one's id. -/
  undoGroup : Option String
  stateBeforeUndo : Option TurnState
  deriving DecidableEq

structure PlannedFile where
  path : String
  delete : Bool
  deriving DecidableEq

structure SkippedFile where
  path : String
  reason : String
  deriving DecidableEq

structure TurnPlan where
  files : List PlannedFile
  skipped : List SkippedFile
  blocked : Option String
  turns : List String
  deriving DecidableEq

/-- A path, and the first and the last member that changed it. -/
structure Touched where
  path : String
  first : TurnRecord
  last : TurnRecord

structure Write where
  path : String
  tree : String
  delete : Bool

structure Planned where
  plan : TurnPlan
  writes : List Write
  members : List String

def skipChanged : String := "这一轮之后又改过"

/-- A path in a snapshot. -/
def nodeAt (snapshots : Snapshots) (tree path : String) : Node :=
  ((snapshots tree).map (·.node path)).getD .absent

/-- `git rev-parse tree:path`, which also knows directories. -/
def blob (snapshots : Snapshots) (tree path : String) : Option Object :=
  (nodeAt snapshots tree path).object

/-- `git hash-object`, which does not know them. -/
def current (files : Files) (path : String) : Option Object := (Node.ofFile (files path)).object

/-- `git diff --name-only`: files with another content or another mode. -/
def changedPaths (before after : Tree) : List String :=
  ((before.paths ++ after.paths).insertionSort (· ≤ ·)).dedup.filter fun path =>
    before.files path ≠ after.files path

def members (turns : List TurnRecord) (record : TurnRecord) (action : TurnAction) :
    Except String (List TurnRecord) :=
  let list := turns.insertionSort fun r s => r.startedMs ≤ s.startedMs
  match action with
  | .undo => if record.state = .undone then .error "这一轮已经撤销了" else .ok [record]
  | .undoFrom =>
    if record.state = .undone then .error "这一轮已经撤销了"
    else .ok (list.filter fun r => record.startedMs ≤ r.startedMs && r.state ≠ .undone)
  | .restore =>
    if record.state ≠ .undone then .error "这一轮没有撤销过"
    else match record.undoGroup with
      | some group => .ok (list.filter (·.undoGroup = some group))
      | none => .ok [record]

/-- Why a turn that made a commit is not undone. -/
def committed (batch : Bool) (m : TurnRecord) : String :=
  (if batch then "其中一轮" else "这一轮") ++ "提交了 " ++
    String.ofList ((m.headAfter.getD "").toList.take 7) ++ "，撤销会改写历史，请自己处理"

def touch (m : TurnRecord) (touched : List Touched) (path : String) : List Touched :=
  if touched.any (·.path = path) then
    touched.map fun e => if e.path = path then { e with last := m } else e
  else touched ++ [⟨path, m, m⟩]

def touchedBy (snapshots : Snapshots) (touched : List Touched) :
    List TurnRecord → Except String (List Touched)
  | [] => .ok touched
  | m :: members =>
    match snapshots m.before, snapshots m.after with
    | some before, some after =>
      touchedBy snapshots ((changedPaths before after).foldl (touch m) touched) members
    | _, _ => .error "快照已经被清理，无法撤销"

/-- What an action expects to find at a path, and what it writes there. -/
def Touched.expected (action : TurnAction) (e : Touched) : String :=
  if action = .restore then e.first.before else e.last.after

def Touched.target (action : TurnAction) (e : Touched) : String :=
  if action = .restore then e.last.after else e.first.before

/-- The task's turns and the working tree. -/
structure Workspace where
  files : Files
  turns : List TurnRecord

def fits (snapshots : Snapshots) (files : Files) (action : TurnAction) (e : Touched) : Bool :=
  current files e.path = blob snapshots (e.expected action) e.path

def deletes (snapshots : Snapshots) (action : TurnAction) (e : Touched) : Bool :=
  (blob snapshots (e.target action) e.path).isNone

/-- The files that are as expected are written. -/
def writesOf (snapshots : Snapshots) (files : Files) (action : TurnAction)
    (touched : List Touched) : List Write :=
  (touched.filter (fits snapshots files action)).map fun e =>
    ⟨e.path, e.target action, deletes snapshots action e⟩

def planned (snapshots : Snapshots) (w : Workspace) (turnId : String) (action : TurnAction)
    (running : Bool) : Except String Planned :=
  match w.turns.find? (·.turnId = turnId) with
  | none => .error "没有这一轮的快照"
  | some record =>
    if running then .error "这一轮结束后可撤销"
    else match members w.turns record action with
      | .error reason => .error reason
      | .ok members =>
        match members.find? fun m => m.headBefore ≠ m.headAfter with
        | some m => .error (committed (1 < members.length) m)
        | none =>
          match touchedBy snapshots [] members with
          | .error reason => .error reason
          | .ok touched =>
            .ok {
              plan := {
                files := (touched.filter (fits snapshots w.files action)).map
                  fun e => ⟨e.path, deletes snapshots action e⟩
                skipped := (touched.filter fun e => !fits snapshots w.files action e).map
                  fun e => ⟨e.path, skipChanged⟩
                blocked := none
                turns := members.map (·.turnId) }
              writes := writesOf snapshots w.files action touched
              members := members.map (·.turnId) }

def plan (snapshots : Snapshots) (w : Workspace) (turnId : String) (action : TurnAction)
    (running : Bool) : TurnPlan :=
  match planned snapshots w turnId action running with
  | .error reason => ⟨[], [], some reason, []⟩
  | .ok p => p.plan

/-- What the disk answers to a write at a path with the file there: nothing, or an error and what it
leaves of the file. -/
abbrev Disk := String → Option File → Option (String × Option File)

/-- The writes one after another, up to one that cannot be read from its snapshot or that the disk
refuses. -/
def writeBack (snapshots : Snapshots) (disk : Disk) :
    List Write → Files → Except String Unit × Files
  | [], files => (.ok (), files)
  | w :: writes, files =>
    match if w.delete then some none else (nodeAt snapshots w.tree w.path).toFile.map some with
    | none => (.error (w.path ++ "：" ++ "读不到快照里的内容"), files)
    | some target =>
      match disk w.path (files w.path) with
      | some (e, left) => (.error (w.path ++ "：" ++ e), Function.update files w.path left)
      | none => writeBack snapshots disk writes (Function.update files w.path target)

def TurnRecord.marked (action : TurnAction) (group : Option String) (now : ℕ) (r : TurnRecord) :
    TurnRecord :=
  if action = .restore then
    { r with
      state := r.stateBeforeUndo.getD .pending
      stateBeforeUndo := none
      undoneMs := none
      undoGroup := none }
  else
    { r with
      stateBeforeUndo := some r.state
      state := .undone
      undoneMs := some now
      undoGroup := group }

/-- Undone together, turns get the earliest one's id. -/
def groupOf (members : List String) : Option String :=
  if 1 < members.length then members.head? else none

def apply (snapshots : Snapshots) (disk : Disk) (now : ℕ) (w : Workspace)
    (turnId : String) (action : TurnAction) (running : Bool) : Except String TurnPlan × Workspace :=
  match planned snapshots w turnId action running with
  | .error reason => (.error reason, w)
  | .ok p =>
    match writeBack snapshots disk p.writes w.files with
    | (.error e, files) => (.error e, { w with files := files })
    | (.ok (), files) => (.ok p.plan, ⟨files, w.turns.map fun r =>
        if r.turnId ∈ p.members then r.marked action (groupOf p.members) now else r⟩)

/-- `record`: a turn that changed files, over one with its id. -/
def record (turns : List TurnRecord) (r : TurnRecord) : List TurnRecord :=
  turns.filter (·.turnId ≠ r.turnId) ++ [r]

def accept (turns : List TurnRecord) (turnId : String) :
    Except String TurnRecord × List TurnRecord :=
  match turns.find? (·.turnId = turnId) with
  | none => (.error "没有这一轮的快照", turns)
  | some r =>
    if r.state = .pending then (.ok { r with state := .accepted },
      turns.map fun s => if s.turnId = turnId then { s with state := .accepted } else s)
    else (.error "这一轮不是待验收", turns)

section Touched
variable {snapshots : Snapshots} {m : TurnRecord} {touched : List Touched} {path q : String}

@[simp] lemma toFile_node (t : Tree) (path : String) : (t.node path).toFile = t.files path := by
  unfold Tree.node
  split
  · next f hf => exact hf.symm
  · next hnone =>
    split <;> exact hnone.symm

lemma mem_changedPaths {before after : Tree} :
    path ∈ changedPaths before after ↔ before.files path ≠ after.files path := by
  unfold changedPaths
  rw [List.mem_filter, List.mem_dedup, List.mem_insertionSort, List.mem_append, decide_eq_true_eq]
  refine and_iff_right_of_imp fun hne => ?_
  by_cases hb : before.files path = none
  · exact .inr (after.covers path fun ha => hne (hb.trans ha.symm))
  · exact .inl (before.covers path hb)

def entryOf (touched : List Touched) (path : String) : Option Touched :=
  touched.find? (·.path = path)

/-- The entry of a path after one more member that changed it. -/
def extend (path : String) (e : Option Touched) (m : TurnRecord) : Option Touched :=
  match e with
  | some e => some { e with last := m }
  | none => some ⟨path, m, m⟩

@[simp] lemma extend_none : extend path none m = some ⟨path, m, m⟩ := rfl

@[simp] lemma extend_some (e : Touched) : extend path (some e) m = some { e with last := m } := rfl

lemma entryOf_touch : entryOf (touch m touched q) path =
    if path = q then extend path (entryOf touched path) m else entryOf touched path := by
  unfold touch entryOf
  split
  · next hany =>
    rw [List.find?_map]
    have hpath : ((fun e : Touched => decide (e.path = path)) ∘
        fun e => if e.path = q then { e with last := m } else e) = fun e => decide (e.path = path) := by
      funext e
      by_cases h : e.path = q <;> simp [h]
    rw [hpath]
    cases hfind : touched.find? (·.path = path) with
    | none =>
      split
      · next hq =>
        obtain ⟨e, he, hep⟩ := List.any_eq_true.mp hany
        have hno := List.find?_eq_none.mp hfind e he
        rw [hq] at hno
        exact absurd hep hno
      · rfl
    | some e =>
      have he : e.path = path := by simpa using List.find?_some hfind
      by_cases hq : path = q <;> simp [he, hq]
  · next hany =>
    have hnone : ∀ e ∈ touched, ¬ e.path = q := by
      intro e he hep
      exact hany (List.any_eq_true.mpr ⟨e, he, decide_eq_true hep⟩)
    rw [List.find?_append]
    by_cases hq : path = q
    · have hfind : touched.find? (·.path = path) = none :=
        List.find?_eq_none.mpr fun e he h => hnone e he ((of_decide_eq_true h).trans hq)
      rw [hfind, if_pos hq, extend_none, Option.none_or]
      simp [hq]
    · have hne : ¬ q = path := fun h => hq h.symm
      simp [hq, hne]

lemma entryOf_touchAll (paths : List String) : entryOf (paths.foldl (touch m) touched) path =
    if path ∈ paths then extend path (entryOf touched path) m else entryOf touched path := by
  induction paths generalizing touched with
  | nil => rfl
  | cons q paths ih =>
    rw [List.foldl_cons, ih, entryOf_touch]
    by_cases hq : path = q
    · subst hq
      cases entryOf touched path <;> simp
    · simp [hq]

lemma nodup_touch (h : (touched.map (·.path)).Nodup) : ((touch m touched q).map (·.path)).Nodup := by
  unfold touch
  split
  · rw [List.map_map]
    have hpath : ((·.path) ∘ fun e : Touched => if e.path = q then { e with last := m } else e) =
        (·.path) := by
      funext e
      by_cases hq : e.path = q <;> simp [hq]
    rwa [hpath]
  · next hany =>
    rw [List.map_append]
    refine List.Nodup.append h (List.nodup_singleton _) fun p hp hpq => ?_
    obtain ⟨e, he, rfl⟩ := List.mem_map.mp hp
    exact hany (List.any_eq_true.mpr ⟨e, he, decide_eq_true (List.mem_singleton.mp hpq)⟩)

lemma nodup_touchAll (paths : List String) (h : (touched.map (·.path)).Nodup) :
    ((paths.foldl (touch m) touched).map (·.path)).Nodup := by
  induction paths generalizing touched with
  | nil => exact h
  | cons q paths ih => exact ih (nodup_touch h)

/-- The turn changed the file at a path, made one or removed it. -/
def TurnRecord.changed (snapshots : Snapshots) (path : String) (m : TurnRecord) : Bool :=
  (nodeAt snapshots m.before path).toFile ≠ (nodeAt snapshots m.after path).toFile

def changers (snapshots : Snapshots) (members : List TurnRecord) (path : String) :
    List TurnRecord := members.filter (·.changed snapshots path)

def sides (snapshots : Snapshots) (path : String) (m : TurnRecord) : Node × Node :=
  (nodeAt snapshots m.before path, nodeAt snapshots m.after path)

def changes (snapshots : Snapshots) (members : List TurnRecord) (path : String) :
    List (Node × Node) := (changers snapshots members path).map (sides snapshots path)

def TurnRecord.IsPinned (snapshots : Snapshots) (m : TurnRecord) : Prop :=
  (snapshots m.before).isSome = true ∧ (snapshots m.after).isSome = true

variable {members : List TurnRecord}

lemma touchedBy_spec {touched' : List Touched}
    (h : touchedBy snapshots touched members = .ok touched') :
    (∀ m ∈ members, m.IsPinned snapshots) ∧
      ((touched.map (·.path)).Nodup → (touched'.map (·.path)).Nodup) ∧
      ∀ path, entryOf touched' path =
        (changers snapshots members path).foldl (extend path) (entryOf touched path) := by
  induction members generalizing touched with
  | nil =>
    cases h
    exact ⟨fun _ h => (nomatch h), fun h => h, fun _ => rfl⟩
  | cons m members ih =>
    unfold touchedBy at h
    cases hb : snapshots m.before with
    | none => simp [hb] at h
    | some before =>
      cases ha : snapshots m.after with
      | none => simp [hb, ha] at h
      | some after =>
        simp only [hb, ha] at h
        obtain ⟨hpinned, hnodup, hentry⟩ := ih h
        refine ⟨?_, fun hn => hnodup (nodup_touchAll _ hn), fun path => ?_⟩
        · rintro k (_ | ⟨_, hk⟩)
          · exact ⟨by rw [hb]; rfl, by rw [ha]; rfl⟩
          · exact hpinned k hk
        · rw [hentry, entryOf_touchAll]
          have hchanged : m.changed snapshots path = true ↔ path ∈ changedPaths before after := by
            rw [mem_changedPaths]
            simp [TurnRecord.changed, nodeAt, hb, ha]
          unfold changers
          rw [List.filter_cons]
          by_cases hpath : path ∈ changedPaths before after
          · rw [if_pos hpath, if_pos (hchanged.mpr hpath), List.foldl_cons]
          · rw [if_neg hpath, if_neg (mt hchanged.mp hpath)]

lemma touchedBy_ok (touched : List Touched) (h : ∀ m ∈ members, m.IsPinned snapshots) :
    ∃ touched', touchedBy snapshots touched members = .ok touched' := by
  induction members generalizing touched with
  | nil => exact ⟨touched, rfl⟩
  | cons m members ih =>
    obtain ⟨hb, ha⟩ := h m List.mem_cons_self
    obtain ⟨before, hb⟩ := Option.isSome_iff_exists.mp hb
    obtain ⟨after, ha⟩ := Option.isSome_iff_exists.mp ha
    unfold touchedBy
    rw [hb, ha]
    exact ih _ fun k hk => h k (List.mem_cons_of_mem _ hk)

lemma foldl_extend_some (members : List TurnRecord) (e : Touched) :
    members.foldl (extend path) (some e) = some { e with last := members.getLast?.getD e.last } := by
  induction members generalizing e with
  | nil => rfl
  | cons m members ih =>
    rw [List.foldl_cons, extend_some, ih]
    cases members with
    | nil => rfl
    | cons k members =>
      rw [List.getLast?_cons_cons, List.getLast?_eq_getLast_of_ne_nil (List.cons_ne_nil _ _)]
      rfl

lemma entry_of_touchedBy (h : touchedBy snapshots [] members = .ok touched) (path : String) :
    entryOf touched path = match changers snapshots members path with
      | [] => none
      | c :: cs => some ⟨path, c, (c :: cs).getLast (List.cons_ne_nil _ _)⟩ := by
  rw [(touchedBy_spec h).2.2 path]
  cases changers snapshots members path with
  | nil => rfl
  | cons c cs =>
    have hnone : entryOf [] path = none := rfl
    rw [List.foldl_cons, hnone, extend_none, foldl_extend_some]
    cases cs with
    | nil => rfl
    | cons k cs => rw [List.getLast?_eq_getLast_of_ne_nil (List.cons_ne_nil _ _)]; rfl

end Touched

section Apply
variable {snapshots : Snapshots} {w : Workspace} {turnId path : String} {action : TurnAction}
  {running : Bool} {ms : List TurnRecord} {now : ℕ}

/-- No write is refused. -/
def fineDisk : Disk := fun _ _ => none

/-- What a write leaves, if it can be read. -/
def Write.target (snapshots : Snapshots) (w : Write) : Node :=
  if w.delete then .absent else nodeAt snapshots w.tree w.path

/-- The writes go through exactly if each can be read, and then each path is as its write leaves it. -/
lemma writeBack_fine (snapshots : Snapshots) (writes : List Write) (files : Files)
    (hwrites : ∀ w ∈ writes, w.delete = false → nodeAt snapshots w.tree w.path ≠ .absent) :
    ((writeBack snapshots fineDisk writes files).1 = .ok () ↔
        ∀ w ∈ writes, w.target snapshots ≠ .directory) ∧
      ((writeBack snapshots fineDisk writes files).1 = .ok () → (writes.map (·.path)).Nodup →
        ∀ path, (writeBack snapshots fineDisk writes files).2 path =
          match writes.find? (·.path = path) with
          | some w => (w.target snapshots).toFile
          | none => files path) := by
  induction writes generalizing files with
  | nil => exact ⟨by simp [writeBack], fun _ _ _ => rfl⟩
  | cons w writes ih =>
    obtain ⟨hw, hwrites⟩ := List.forall_mem_cons.mp hwrites
    by_cases hdir : w.target snapshots = .directory
    · -- a directory is not read as a file
      have herror : (writeBack snapshots fineDisk (w :: writes) files).1 ≠ .ok () := by
        unfold Write.target at hdir
        unfold writeBack
        split at hdir
        · cases hdir
        · next hdelete => simp [hdelete, hdir, Node.toFile]
      exact ⟨iff_of_false herror fun h => h w List.mem_cons_self hdir, fun h => absurd h herror⟩
    · have hstep : writeBack snapshots fineDisk (w :: writes) files =
          writeBack snapshots fineDisk writes
            (Function.update files w.path (w.target snapshots).toFile) := by
        have htarget : (if w.delete then some none else
            (nodeAt snapshots w.tree w.path).toFile.map some) = some (w.target snapshots).toFile := by
          unfold Write.target at hdir ⊢
          cases hdelete : w.delete with
          | true => rfl
          | false =>
            rw [hdelete] at hdir
            have := hw hdelete
            cases hnode : nodeAt snapshots w.tree w.path <;> simp_all [Node.toFile]
        rw [writeBack, htarget]
        rfl
      obtain ⟨hok, hfiles⟩ := ih (Function.update files w.path (w.target snapshots).toFile) hwrites
      rw [hstep, List.forall_mem_cons]
      refine ⟨hok.trans (and_iff_right hdir).symm, fun hfine hnodup path => ?_⟩
      obtain ⟨hout, hnodup⟩ := List.nodup_cons.mp hnodup
      rw [hfiles hfine hnodup path]
      by_cases hp : w.path = path
      · have hlater : writes.find? (·.path = path) = none := by
          refine List.find?_eq_none.mpr fun v hv hvp => hout ?_
          exact List.mem_map.mpr ⟨v, hv, (of_decide_eq_true hvp).trans hp.symm⟩
        subst hp
        rw [hlater, List.find?_cons_of_pos (by simp)]
        simp
      · rw [List.find?_cons_of_neg (by simpa using hp)]
        cases writes.find? (·.path = path) with
        | none => exact Function.update_of_ne (Ne.symm hp) ..
        | some v => rfl

/-- The action is not blocked, and these are the turns it covers. -/
structure Covers (snapshots : Snapshots) (w : Workspace) (turnId : String) (action : TurnAction)
    (ms : List TurnRecord) : Prop where
  covered : ∃ r, w.turns.find? (·.turnId = turnId) = some r ∧ members w.turns r action = .ok ms
  uncommitted : ∀ m ∈ ms, m.headBefore = m.headAfter
  pinned : ∀ m ∈ ms, m.IsPinned snapshots

lemma planned_of_covers (h : Covers snapshots w turnId action ms) :
    ∃ touched, touchedBy snapshots [] ms = .ok touched ∧
      planned snapshots w turnId action false = .ok {
        plan := {
          files := (touched.filter (fits snapshots w.files action)).map
            fun e => ⟨e.path, deletes snapshots action e⟩
          skipped := (touched.filter fun e => !fits snapshots w.files action e).map
            fun e => ⟨e.path, skipChanged⟩
          blocked := none
          turns := ms.map (·.turnId) }
        writes := writesOf snapshots w.files action touched
        members := ms.map (·.turnId) } := by
  obtain ⟨r, hr, hms⟩ := h.covered
  obtain ⟨touched, htouched⟩ := touchedBy_ok [] h.pinned
  refine ⟨touched, htouched, ?_⟩
  have hheads : ms.find? (fun m => m.headBefore ≠ m.headAfter) = none :=
    List.find?_eq_none.mpr fun m hm => by simp [h.uncommitted m hm]
  unfold planned
  rw [hr]
  simp only [Bool.false_eq_true, if_false, hms, hheads, htouched]

lemma covers_of_plan (h : (plan snapshots w turnId action running).blocked = none) :
    running = false ∧ ∃ ms, Covers snapshots w turnId action ms ∧
      (plan snapshots w turnId action running).turns = ms.map (·.turnId) := by
  unfold plan at h ⊢
  unfold planned at h ⊢
  cases hr : w.turns.find? (·.turnId = turnId) with
  | none => simp [hr] at h
  | some r =>
    cases running with
    | true => simp [hr] at h
    | false =>
      cases hms : members w.turns r action with
      | error reason => simp [hr, hms] at h
      | ok ms =>
        cases hheads : ms.find? fun m => m.headBefore ≠ m.headAfter with
        | some m => simp only [hr, hms, hheads, Bool.false_eq_true, if_false, reduceCtorEq] at h
        | none =>
          cases htouched : touchedBy snapshots [] ms with
          | error reason =>
            simp only [hr, hms, hheads, htouched, Bool.false_eq_true, if_false, reduceCtorEq] at h
          | ok touched =>
            refine ⟨rfl, ms, ⟨⟨r, hr, hms⟩, fun m hm => ?_, (touchedBy_spec htouched).1⟩, ?_⟩
            · simpa using List.find?_eq_none.mp hheads m hm
            · simp only [hms, hheads, htouched, Bool.false_eq_true, if_false]

variable {touched : List Touched}

lemma find_filter (h : (touched.map (·.path)).Nodup) (p : Touched → Bool) :
    (touched.filter p).find? (·.path = path) = (entryOf touched path).filter p := by
  unfold entryOf
  induction touched with
  | nil => rfl
  | cons e touched ih =>
    obtain ⟨he, hnodup⟩ := List.nodup_cons.mp h
    by_cases hp : e.path = path
    · have hlater : touched.find? (·.path = path) = none := by
        refine List.find?_eq_none.mpr fun v hv hvp => he ?_
        exact List.mem_map.mpr ⟨v, hv, (of_decide_eq_true hvp).trans hp.symm⟩
      have hrest := ih hnodup
      rw [hlater] at hrest
      rw [List.filter_cons, List.find?_cons_of_pos (by simpa using hp)]
      split
      · next hpe =>
        rw [List.find?_cons_of_pos (by simpa using hp)]
        simp [Option.filter, hpe]
      · next hpe =>
        rw [hrest]
        simp [Option.filter, hpe]
    · rw [List.find?_cons_of_neg (by simpa using hp), ← ih hnodup, List.filter_cons]
      split
      · rw [List.find?_cons_of_neg (by simpa using hp)]
      · rfl

/-- What a path comes to be by an action that covers these turns. A directory cannot be written. -/
def result (snapshots : Snapshots) (action : TurnAction) (ms : List TurnRecord) (files : Files)
    (path : String) : Node :=
  if action = .restore then
    Patch.forthTo Node.object (changes snapshots ms path) (.ofFile (files path))
  else Patch.backTo Node.object (changes snapshots ms path) (.ofFile (files path))

/-- No path would have to become a directory. -/
def Writable (snapshots : Snapshots) (action : TurnAction) (ms : List TurnRecord) (files : Files) :
    Prop := ∀ path, result snapshots action ms files path ≠ .directory

lemma find_writesOf {files : Files} (h : (touched.map (·.path)).Nodup) :
    (writesOf snapshots files action touched).find? (·.path = path) =
      ((entryOf touched path).filter (fits snapshots files action)).map fun e =>
        ⟨e.path, e.target action, deletes snapshots action e⟩ := by
  unfold writesOf
  rw [List.find?_map, ← find_filter h]
  rfl

lemma entryOf_mem {e : Touched} (h : (touched.map (·.path)).Nodup) (he : e ∈ touched) :
    entryOf touched e.path = some e := by
  cases hfind : entryOf touched e.path with
  | none => simpa using List.find?_eq_none.mp hfind e he
  | some f =>
    have hpath : f.path = e.path := by simpa using List.find?_some hfind
    rw [List.inj_on_of_nodup_map h (List.mem_of_find?_eq_some hfind) he hpath]

/-- A path by its entry: it is as expected and becomes the target, or stays. -/
lemma result_eq {files : Files} (h : touchedBy snapshots [] ms = .ok touched) (path : String) :
    result snapshots action ms files path =
      match (entryOf touched path).filter (fits snapshots files action) with
      | some e => nodeAt snapshots (e.target action) path
      | none => .ofFile (files path) := by
  rw [entry_of_touchedBy h path]
  unfold result changes
  cases changers snapshots ms path with
  | nil => simp
  | cons c cs =>
    have hlast : (sides snapshots path c :: cs.map (sides snapshots path)).getLast
        (List.cons_ne_nil _ _) =
        sides snapshots path ((c :: cs).getLast (List.cons_ne_nil _ _)) :=
      List.getLast_map (f := sides snapshots path) (l := c :: cs) (List.cons_ne_nil _ _)
    dsimp only
    rw [List.map_cons, Patch.forthTo_cons, Patch.backTo_cons, hlast]
    generalize (c :: cs).getLast (List.cons_ne_nil _ _) = last
    by_cases haction : action = .restore
    · by_cases hfit : current files path = blob snapshots c.before path
      · simp_all [fits, Touched.expected, Touched.target, Option.filter, sides, current, blob]
      · simp_all [fits, Touched.expected, Option.filter, sides, current, blob]
    · by_cases hfit : current files path = blob snapshots last.after path
      · simp_all [fits, Touched.expected, Touched.target, Option.filter, sides, current, blob]
      · simp_all [fits, Touched.expected, Option.filter, sides, current, blob]

lemma object_eq_none {n : Node} : n.object = none ↔ n = .absent := by
  cases n <;> simp [Node.object]

lemma toFile_ofFile (file : Option File) : (Node.ofFile file).toFile = file := by
  cases file <;> rfl

lemma ofFile_ne_directory (file : Option File) : Node.ofFile file ≠ .directory := by
  cases file <;> exact nofun

lemma ofFile_toFile {n : Node} (h : n ≠ .directory) : Node.ofFile n.toFile = n := by
  cases n with
  | absent => rfl
  | file f => rfl
  | directory => exact absurd rfl h

lemma target_write (action : TurnAction) (e : Touched) :
    Write.target snapshots ⟨e.path, e.target action, deletes snapshots action e⟩ =
      nodeAt snapshots (e.target action) e.path := by
  unfold Write.target deletes blob
  cases nodeAt snapshots (e.target action) e.path <;> simp [Node.object]

lemma writeBack_covers (action : TurnAction) (files : Files) (h : touchedBy snapshots [] ms = .ok touched) :
    ((writeBack snapshots fineDisk (writesOf snapshots files action touched) files).1 = .ok () ↔
        Writable snapshots action ms files) ∧
      (Writable snapshots action ms files →
        writeBack snapshots fineDisk (writesOf snapshots files action touched) files =
          (.ok (), fun path => (result snapshots action ms files path).toFile)) := by
  have hnodup : (touched.map (·.path)).Nodup := (touchedBy_spec h).2.1 List.nodup_nil
  have hpaths : ((writesOf snapshots files action touched).map (·.path)).Nodup := by
    unfold writesOf
    rw [List.map_map]
    exact hnodup.sublist (List.filter_sublist.map _)
  obtain ⟨hok, hfiles⟩ := writeBack_fine snapshots (writesOf snapshots files action touched) files <| by
    intro w hw hdelete
    obtain ⟨e, -, rfl⟩ := List.mem_map.mp hw
    intro hnone
    simp [deletes, blob, object_eq_none.mpr hnone] at hdelete
  have hwritable : (∀ w ∈ writesOf snapshots files action touched, w.target snapshots ≠ .directory) ↔
      Writable snapshots action ms files := by
    constructor
    · intro hall path
      rw [result_eq h path]
      split
      · next e he =>
        obtain ⟨hentry, hfit⟩ := Option.filter_eq_some_iff.mp he
        obtain rfl : e.path = path := by simpa using List.find?_some hentry
        have := hall _ (List.mem_map_of_mem
          (List.mem_filter.mpr ⟨List.mem_of_find?_eq_some hentry, hfit⟩))
        rwa [target_write] at this
      · exact ofFile_ne_directory _
    · intro hall w hw
      obtain ⟨e, he, rfl⟩ := List.mem_map.mp hw
      obtain ⟨hmem, hfit⟩ := List.mem_filter.mp he
      have := hall e.path
      rw [result_eq h e.path, entryOf_mem hnodup hmem, Option.filter_some_pos hfit] at this
      rwa [target_write]
  refine ⟨hok.trans hwritable, fun hall => ?_⟩
  have hfine := (hok.trans hwritable).mpr hall
  refine Prod.ext hfine (funext fun path => ?_)
  dsimp only
  rw [hfiles hfine hpaths path, find_writesOf hnodup, result_eq h path]
  cases hentry : (entryOf touched path).filter (fits snapshots files action) with
  | none => simp [toFile_ofFile]
  | some e =>
    obtain rfl : e.path = path := by
      simpa using List.find?_some (Option.filter_eq_some_iff.mp hentry).1
    simp [target_write]

/-- An action that is not blocked: it goes through exactly if no path would have to become a
directory. -/
lemma apply_covers (now : ℕ) (h : Covers snapshots w turnId action ms) :
    ((∃ p, (apply snapshots fineDisk now w turnId action false).1 = .ok p) ↔
        Writable snapshots action ms w.files) ∧
      (Writable snapshots action ms w.files →
        (apply snapshots fineDisk now w turnId action false).2 =
          ⟨fun path => (result snapshots action ms w.files path).toFile, w.turns.map fun r =>
            if r.turnId ∈ ms.map (·.turnId) then r.marked action (groupOf (ms.map (·.turnId))) now
            else r⟩) := by
  obtain ⟨touched, htouched, hplanned⟩ := planned_of_covers h
  obtain ⟨hok, hfiles⟩ := writeBack_covers action w.files htouched
  unfold apply
  rw [hplanned]
  dsimp only
  constructor
  · rw [← hok]
    split <;> simp_all
  · intro hall
    rw [hfiles hall]

end Apply

/-- What a record says of its undo. -/
structure TurnRecord.Sound (r : TurnRecord) : Prop where
  undone : r.state = .undone → ∃ s, r.stateBeforeUndo = some s ∧ s ≠ .undone
  kept : r.state ≠ .undone → r.stateBeforeUndo = none ∧ r.undoneMs = none ∧ r.undoGroup = none

/-- The turns of a task as they are recorded. -/
structure Recorded (turns : List TurnRecord) : Prop where
  ids : (turns.map (·.turnId)).Nodup
  sound : ∀ r ∈ turns, r.Sound

section Recorded
variable {turns : List TurnRecord} {r : TurnRecord} {action : TurnAction} {ms : List TurnRecord}

lemma members_mem (h : members turns r action = .ok ms) (hr : r ∈ turns) :
    ∀ m ∈ ms, m ∈ turns ∧ (action ≠ .restore → m.state ≠ .undone) := by
  unfold members at h
  cases action with
  | undo =>
    dsimp only at h
    split at h
    · cases h
    · next hstate =>
      cases h
      intro m hm
      rw [List.mem_singleton.mp hm]
      exact ⟨hr, fun _ => hstate⟩
  | undoFrom =>
    dsimp only at h
    split at h
    · cases h
    · cases h
      intro m hm
      obtain ⟨hmem, hm⟩ := List.mem_filter.mp hm
      rw [Bool.and_eq_true, decide_eq_true_eq, decide_eq_true_eq] at hm
      exact ⟨List.mem_insertionSort _ |>.mp hmem, fun _ => hm.2⟩
  | restore =>
    dsimp only at h
    split at h
    · cases h
    split at h <;> cases h <;> intro m hm
    · exact ⟨List.mem_insertionSort _ |>.mp (List.mem_of_mem_filter hm), fun h => absurd rfl h⟩
    · rw [List.mem_singleton.mp hm]
      exact ⟨hr, fun h => absurd rfl h⟩

lemma Recorded.eq_of_id (h : Recorded turns) {s : TurnRecord} (hr : r ∈ turns) (hs : s ∈ turns)
    (hid : r.turnId = s.turnId) : r = s := List.inj_on_of_nodup_map h.ids hr hs hid

lemma Recorded.find (h : Recorded turns) (hr : r ∈ turns) :
    turns.find? (·.turnId = r.turnId) = some r := by
  cases hfind : turns.find? (·.turnId = r.turnId) with
  | none => simpa using List.find?_eq_none.mp hfind r hr
  | some s =>
    have hid : s.turnId = r.turnId := by simpa using List.find?_some hfind
    rw [h.eq_of_id (List.mem_of_find?_eq_some hfind) hr hid]

lemma marked_id (group : Option String) (now : ℕ) :
    (r.marked action group now).turnId = r.turnId := by
  unfold TurnRecord.marked
  split <;> rfl

lemma restored_state (h : r.Sound) : r.stateBeforeUndo.getD .pending ≠ .undone := by
  by_cases hundone : r.state = .undone
  · obtain ⟨s, hs, hne⟩ := h.undone hundone
    rw [hs]
    exact hne
  · rw [(h.kept hundone).1]
    decide

lemma marked_sound (h : r.Sound) (hr : action ≠ .restore → r.state ≠ .undone)
    (group : Option String) (now : ℕ) : (r.marked action group now).Sound := by
  unfold TurnRecord.marked
  split
  · exact ⟨fun hstate => absurd hstate (restored_state h), fun _ => ⟨rfl, rfl, rfl⟩⟩
  · next haction => exact ⟨fun _ => ⟨r.state, rfl, hr haction⟩, fun hstate => absurd rfl hstate⟩

lemma Recorded.record (h : Recorded turns) (hr : r.Sound) : Recorded (record turns r) := by
  refine ⟨?_, fun s hs => ?_⟩
  · unfold Turns.record
    rw [List.map_append]
    refine List.Nodup.append (h.ids.sublist (List.filter_sublist.map _)) (List.nodup_singleton _) ?_
    intro id hid hnew
    obtain ⟨s, hs, rfl⟩ := List.mem_map.mp hid
    have hne : s.turnId ≠ r.turnId := by simpa using (List.mem_filter.mp hs).2
    exact hne (List.mem_singleton.mp hnew)
  · rcases List.mem_append.mp hs with hs | hs
    · exact h.sound s (List.mem_of_mem_filter hs)
    · rw [List.mem_singleton.mp hs]
      exact hr

lemma Recorded.map (h : Recorded turns) {f : TurnRecord → TurnRecord}
    (hid : ∀ r, (f r).turnId = r.turnId) (hsound : ∀ r ∈ turns, (f r).Sound) :
    Recorded (turns.map f) := by
  refine ⟨?_, fun s hs => ?_⟩
  · have hids : (·.turnId) ∘ f = (·.turnId) := funext hid
    rw [List.map_map, hids]
    exact h.ids
  · obtain ⟨r, hr, rfl⟩ := List.mem_map.mp hs
    exact hsound r hr

lemma Recorded.accept (h : Recorded turns) (turnId : String) : Recorded (accept turns turnId).2 := by
  unfold Turns.accept
  split
  · exact h
  next r hfind =>
  split
  · next hstate =>
    refine h.map (fun s => by split <;> rfl) fun s hs => ?_
    split
    · next hid =>
      have hr : r.turnId = turnId := by simpa using List.find?_some hfind
      obtain rfl := h.eq_of_id hs (List.mem_of_find?_eq_some hfind) (hid.trans hr.symm)
      have hpending : s.state ≠ .undone := by rw [hstate]; decide
      exact ⟨fun hundone => (nomatch hundone), fun _ => (h.sound s hs).kept hpending⟩
    · exact h.sound s hs
  · exact h

lemma planned_members {snapshots : Snapshots} {w : Workspace} {turnId : String} {running : Bool}
    {p : Planned} (hplanned : planned snapshots w turnId action running = .ok p) :
    p.plan.blocked = none ∧ ∃ r ms, r ∈ w.turns ∧ members w.turns r action = .ok ms ∧
      p.members = ms.map (·.turnId) := by
  unfold planned at hplanned
  split at hplanned
  · cases hplanned
  next r hr =>
  split at hplanned
  · cases hplanned
  split at hplanned
  · cases hplanned
  next ms hms =>
  split at hplanned
  · cases hplanned
  split at hplanned
  · cases hplanned
  · cases hplanned
    exact ⟨rfl, r, ms, List.mem_of_find?_eq_some hr, hms, rfl⟩

lemma Recorded.apply {snapshots : Snapshots} {disk : Disk} {now : ℕ}
    {w : Workspace} (h : Recorded w.turns) (turnId : String) (running : Bool) :
    Recorded (apply snapshots disk now w turnId action running).2.turns := by
  unfold Turns.apply
  split
  · exact h
  next p hplanned =>
  split
  · exact h
  obtain ⟨-, r, ms, hr, hms, hmembers⟩ := planned_members hplanned
  refine h.map (fun s => by split <;> simp [marked_id]) fun s hs => ?_
  split
  · next hin =>
    rw [hmembers] at hin
    obtain ⟨m, hm, hid⟩ := List.mem_map.mp hin
    obtain ⟨hmem, hstate⟩ := members_mem hms hr m hm
    rw [h.eq_of_id hmem hs hid] at hstate
    exact marked_sound (h.sound s hs) hstate _ _
  · exact h.sound s hs

lemma Recorded.filter (h : Recorded turns) (p : TurnRecord → Bool) : Recorded (turns.filter p) :=
  ⟨h.ids.sublist (List.filter_sublist.map _), fun s hs => h.sound s (List.mem_of_mem_filter hs)⟩

end Recorded

/-- A turn as it is recorded when it ends. -/
def TurnRecord.IsNew (r : TurnRecord) : Prop :=
  r.state = .pending ∧ r.stateBeforeUndo = none ∧ r.undoneMs = none ∧ r.undoGroup = none

lemma TurnRecord.IsNew.sound {r : TurnRecord} (h : r.IsNew) : r.Sound := by
  obtain ⟨hstate, hkept⟩ := h
  refine ⟨fun hundone => ?_, fun _ => hkept⟩
  rw [hstate] at hundone
  cases hundone

/-- What happens to a task's turns and the working tree. Anyone may edit files at any time, and old
turns are dropped. -/
inductive Step : Workspace → Workspace → Prop
  | record {w : Workspace} (r : TurnRecord) (hr : r.IsNew) :
      Step w { w with turns := record w.turns r }
  | accept {w : Workspace} (turnId : String) : Step w { w with turns := (accept w.turns turnId).2 }
  | apply {w : Workspace} (snapshots : Snapshots) (disk : Disk) (now : ℕ)
      (turnId : String) (action : TurnAction) (running : Bool) :
      Step w (apply snapshots disk now w turnId action running).2
  | edit {w : Workspace} (files : Files) : Step w { w with files := files }
  | prune {w : Workspace} (keep : TurnRecord → Bool) :
      Step w { w with turns := w.turns.filter keep }

/-- A task's turns and the working tree, at some time since the task has begun. -/
def Reached (w : Workspace) : Prop := ∃ files, Relation.ReflTransGen Step ⟨files, []⟩ w

lemma Recorded.step {w w' : Workspace} (h : Recorded w.turns) (hstep : Step w w') :
    Recorded w'.turns := by
  cases hstep with
  | record r hr => exact h.record hr.sound
  | accept turnId => exact h.accept turnId
  | apply snapshots disk now turnId action running => exact h.apply turnId running
  | edit files => exact h
  | prune keep => exact h.filter keep

lemma Reached.recorded {w : Workspace} (h : Reached w) : Recorded w.turns := by
  obtain ⟨files, hsteps⟩ := h
  induction hsteps with
  | refl => exact ⟨List.nodup_nil, fun r hr => (nomatch hr)⟩
  | tail _ hstep ih => exact ih.step hstep

/-- The turns that an action on a turn covers; none if it is blocked. -/
def covered (w : Workspace) (turnId : String) (action : TurnAction) : List TurnRecord :=
  match w.turns.find? (·.turnId = turnId) with
  | none => []
  | some r => (members w.turns r action).toOption.getD []

lemma Covers.covered_eq {snapshots : Snapshots} {w : Workspace} {turnId : String}
    {action : TurnAction} {ms : List TurnRecord} (h : Covers snapshots w turnId action ms) :
    Turns.covered w turnId action = ms := by
  obtain ⟨r, hr, hms⟩ := h.covered
  unfold Turns.covered
  rw [hr]
  simp [hms, Except.toOption]

end Aeroric.Turns
