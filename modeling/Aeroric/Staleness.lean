import Aeroric.Runs
import Aeroric.Table
import Aeroric.TurnRestore

/-! Conclusions whose files have changed since they were drawn: the changes of a turn, a criterion
that was passed, the result of a branch. -/
namespace Aeroric.Staleness
open Turns

structure Record extends TurnRecord where
  endedMs : ℕ
  files : List String

inductive EvidenceKind
  | userMessage
  | toolResult
  | turnChanges
  | autoCheck
  | commit
  | permission
  deriving DecidableEq

structure EvidenceRef where
  kind : EvidenceKind
  detail : String

structure Effect where
  kind : String
  evidence : List EvidenceRef

inductive ObligationState
  | open
  | passed
  | failed
  | unknown
  deriving DecidableEq

structure Obligation where
  id : String
  state : ObligationState
  passedMs : Option ℕ

structure BranchResult where
  taskId : String
  returnedMs : ℕ
  /-- The snapshot of the parent's files when the branch came back. -/
  basis : Option String

structure Checkpoint where
  effects : List Effect
  obligations : List Obligation
  branches : List BranchResult

inductive Kind
  | effect
  | obligation
  | branch
  deriving DecidableEq

structure StaleFile where
  path : String
  sinceTurn : Option String
  deriving DecidableEq

structure StaleConclusion where
  kind : Kind
  key : String
  files : List StaleFile
  deriving DecidableEq

structure Basis where
  kind : Kind
  key : String
  /-- Each file with the tree that has it as it was. -/
  pairs : List (String × String)
  sinceMs : ℕ
  own : Option Record

/-- The working tree, the paths that the index tracks, and the turns of each task. -/
structure World where
  files : Files
  /-- Something stands there that cannot be hashed: a directory, or a file that may not be read. -/
  unreadable : String → Bool
  tracked : List String
  ledger : String → List Record

/-- What `hash-object` and `cat-file` know a file by. -/
def contentOf (file : Option File) : Option String := file.map (·.content)

def blobId (snapshots : Snapshots) (tree path : String) : Option String :=
  contentOf (nodeAt snapshots tree path).toFile

def sorted (records : List Record) : List Record :=
  records.insertionSort fun r s => r.startedMs ≤ s.startedMs

/-- Each path changed by a turn that ended by then, with the tree of the last such turn. -/
def latestByPath (records : List Record) (ms : ℕ) : List (String × String) :=
  let byPath := (records.filter (·.endedMs ≤ ms)).foldl (fun table r =>
    r.files.foldl (fun table path => table.set path r.after) table) (Table.empty : Table String String)
  byPath.keys.filterMap fun path => (byPath.get path).map (·, path)

/-- The first later turn that changed the path; else the conclusion's own turn if it was undone. -/
def since (records : List Record) (basis : Basis) (path : String) : Option String :=
  match records.find? fun r => basis.sinceMs ≤ r.startedMs && r.state ≠ .undone &&
      basis.own.all (·.turnId ≠ r.turnId) && path ∈ r.files with
  | some r => some r.turnId
  | none => (basis.own.filter (·.state = .undone)).map (·.turnId)

inductive Conclusion
  | effect (turnId : String)
  | obligation (id : String) (passedMs : ℕ)
  | branch (result : BranchResult)

def Checkpoint.conclusions (cp : Checkpoint) : List Conclusion :=
  (cp.effects.filter (·.kind = "changes")).filterMap (fun e =>
    (e.evidence.find? fun r => r.kind = .turnChanges && r.detail ≠ "").map (.effect ·.detail)) ++
  cp.obligations.filterMap (fun o =>
    if o.state = .passed then o.passedMs.map (.obligation o.id) else none) ++
  cp.branches.map .branch

/-- What a conclusion without a recorded basis rests on is not judged. -/
def Basis.ofLatest (kind : Kind) (key : String) (records : List Record) (ms : ℕ) : Option Basis :=
  match latestByPath records ms with
  | [] => none
  | pairs => some ⟨kind, key, pairs, ms, none⟩

def Conclusion.basis (w : World) (task : String) : Conclusion → Option Basis
  | .effect turnId => ((sorted (w.ledger task)).find? (·.turnId = turnId)).map fun r =>
      ⟨.effect, turnId, r.files.map (r.after, ·), r.endedMs, some r⟩
  | .obligation id passedMs => Basis.ofLatest .obligation id (sorted (w.ledger task)) passedMs
  | .branch b => Basis.ofLatest .branch b.taskId (sorted (w.ledger b.taskId)) b.returnedMs

def report (kind : Kind) (key : String) (files : List StaleFile) : Option StaleConclusion :=
  if files = [] then none else some ⟨kind, key, files⟩

/-- `hash-object` takes the paths in their order, and ends at the first that it cannot hash. -/
def World.currentIds (w : World) (paths : List String) (path : String) : Option String :=
  if paths.any fun q => w.unreadable q && q ≤ path then none else contentOf (w.files path)

def World.judge (snapshots : Snapshots) (w : World) (task : String) (ids : String → Option String)
    (basis : Basis) : Option StaleConclusion :=
  report basis.kind basis.key ((basis.pairs.filter fun pair =>
    ids pair.2 ≠ blobId snapshots pair.1 pair.2).map fun pair =>
      ⟨pair.2, since (sorted (w.ledger task)) basis pair.2⟩)

/-- `git diff --name-only` of the working tree against a snapshot: a file of the snapshot that is not
tracked counts as deleted, whatever stands at its path. -/
def World.diff (w : World) (tree : Tree) : List String :=
  ((tree.paths ++ w.tracked).insertionSort (· ≤ ·)).dedup.filter fun path =>
    if path ∈ w.tracked then w.files path ≠ tree.files path else (tree.files path).isSome

/-- A branch that rests on a snapshot because it changed no file of its own. -/
def World.branchOnly (snapshots : Snapshots) (w : World) (b : BranchResult) :
    Option StaleConclusion :=
  match b.basis.bind snapshots with
  | none => none
  | some tree =>
    if (w.ledger b.taskId).isEmpty then report .branch b.taskId ((w.diff tree).map (⟨·, none⟩))
    else none

def World.wanted (w : World) (task : String) (cp : Checkpoint) : List String :=
  (cp.conclusions.filterMap (·.basis w task)).flatMap fun basis => basis.pairs.map (·.2)

def stale (snapshots : Snapshots) (w : World) (task : String) (cp : Checkpoint) :
    List StaleConclusion :=
  (if (w.ledger task).isEmpty then []
    else cp.conclusions.filterMap fun c => (c.basis w task).bind
      (w.judge snapshots task (w.currentIds (w.wanted task cp)))) ++
  cp.branches.filterMap (w.branchOnly snapshots)

/-! What happens to the files and the turns. -/

inductive Event
  /-- By the agent, another session or the user. -/
  | edit (path : String) (file : Option File)
  /-- Directories come and go, permissions change. -/
  | shape (unreadable : String → Bool)
  /-- Any git command that changes which paths are tracked. -/
  | stage (tracked : List String)
  | record (task : String) (r : Record)
  | accept (task turnId : String)
  | apply (task turnId : String) (action : TurnAction) (running : Bool) (disk : Disk) (now : ℕ)

/-- The turns of a task after a change of their states. -/
def World.mark (w : World) (task : String) (turns : List TurnRecord) : World :=
  { w with
    ledger := Function.update w.ledger task
      ((w.ledger task).zipWith (fun r t => { r with toTurnRecord := t }) turns) }

def World.step (snapshots : Snapshots) (w : World) : Event → World
  | .edit path file => { w with files := Function.update w.files path file }
  | .shape unreadable => { w with unreadable := unreadable }
  | .stage tracked => { w with tracked := tracked }
  | .record task r =>
    { w with
      ledger := Function.update w.ledger task
        ((w.ledger task).filter (·.turnId ≠ r.turnId) ++ [r]) }
  | .accept task turnId =>
    w.mark task (Turns.accept ((w.ledger task).map (·.toTurnRecord)) turnId).2
  | .apply task turnId action running disk now =>
    let after := (Turns.apply snapshots disk now ⟨w.files, (w.ledger task).map (·.toTurnRecord)⟩
      turnId action running).2
    { w.mark task after.turns with files := after.files }

def World.run (snapshots : Snapshots) (w : World) (events : List Event) : World :=
  events.foldl (World.step snapshots) w

/-- What a conclusion of the checkpoint is reported with. -/
def Conclusion.reports (snapshots : Snapshots) (w : World) (task : String) (cp : Checkpoint)
    (c : Conclusion) : List StaleConclusion :=
  (if (w.ledger task).isEmpty then none else (c.basis w task).bind
    (w.judge snapshots task (w.currentIds (w.wanted task cp)))).toList ++
  match c with
  | .branch b => (w.branchOnly snapshots b).toList
  | _ => []

/-- The files a conclusion rests on, with the trees that are taken to have them. -/
def Conclusion.pairs (w : World) (task : String) (c : Conclusion) : List (String × String) :=
  ((c.basis w task).map (·.pairs)).getD []

/-- The snapshot that a branch without turns of its own rests on. -/
def Conclusion.tree (snapshots : Snapshots) (w : World) : Conclusion → Option Tree
  | .branch b => if (w.ledger b.taskId).isEmpty then b.basis.bind snapshots else none
  | _ => none

/-- All paths whose files a conclusion rests on. -/
def Conclusion.RestsOn (snapshots : Snapshots) (w : World) (task : String) (c : Conclusion)
    (path : String) : Prop :=
  path ∈ (c.pairs w task).map (·.2) ∨ ∃ tree ∈ c.tree snapshots w, path ∈ tree.paths ++ w.tracked

/-- As the conclusion is drawn, its files are as the last of those turns has left them, or as the
snapshot has them; and all files of the snapshot are tracked. -/
structure Conclusion.Undisturbed (snapshots : Snapshots) (w : World) (task : String) (c : Conclusion) :
    Prop where
  turns : ∀ pair ∈ c.pairs w task, contentOf (w.files pair.2) = blobId snapshots pair.1 pair.2
  snapshot : ∀ tree ∈ c.tree snapshots w, ∀ path ∈ tree.paths ++ w.tracked,
    w.files path = tree.files path
  tracked : ∀ tree ∈ c.tree snapshots w, ∀ path, tree.files path ≠ none → path ∈ w.tracked

/-- A turn recorded since the conclusion is a new one, and ended in a later millisecond; and the index
goes on tracking the files of the snapshot, and takes up no path beyond those and what it tracked. -/
def Conclusion.Later (snapshots : Snapshots) (c : Conclusion) (w : World) : Event → Prop
  | .record task r => (∀ s ∈ w.ledger task, s.turnId ≠ r.turnId) ∧
    match c with
    | .effect turnId => r.turnId ≠ turnId
    | .obligation _ passedMs => passedMs < r.endedMs
    | .branch b => b.returnedMs < r.endedMs
  | .stage tracked => ∀ tree ∈ c.tree snapshots w,
      (∀ path, tree.files path ≠ none → path ∈ tracked) ∧ tracked ⊆ tree.paths ++ w.tracked
  | _ => True

/-! What of a turn stays as it is recorded. -/

lemma filter_orderedInsert {p : Record → Bool} (r : Record) {l : List Record}
    (hl : l.Pairwise fun r s => r.startedMs ≤ s.startedMs) :
    (l.orderedInsert (fun r s => r.startedMs ≤ s.startedMs) r).filter p =
      if p r then (l.filter p).orderedInsert (fun r s => r.startedMs ≤ s.startedMs) r
      else l.filter p := by
  induction l with
  | nil => by_cases hp : p r <;> simp [hp]
  | cons s l ih =>
    obtain ⟨hs, hl⟩ := List.pairwise_cons.mp hl
    by_cases hle : r.startedMs ≤ s.startedMs
    · -- all that follow come after it as well
      have hhead : ∀ l' : List Record, (∀ t ∈ l', r.startedMs ≤ t.startedMs) →
          l'.orderedInsert (fun r s => r.startedMs ≤ s.startedMs) r = r :: l' := by
        intro l' h
        cases l' with
        | nil => rfl
        | cons t l' => simp [h t List.mem_cons_self]
      rw [List.orderedInsert_cons, if_pos hle, List.filter_cons]
      split
      · rw [hhead]
        intro t ht
        rcases List.mem_cons.mp (List.mem_of_mem_filter ht) with rfl | ht
        · exact hle
        · exact hle.trans (hs t ht)
      · rfl
    · rw [List.orderedInsert_cons, if_neg hle, List.filter_cons, ih hl, List.filter_cons]
      by_cases hp : p r <;> by_cases hps : p s <;> simp [hp, hps, hle]

lemma sorted_filter (p : Record → Bool) (l : List Record) :
    (sorted l).filter p = sorted (l.filter p) := by
  have : Std.Total fun r s : Record => r.startedMs ≤ s.startedMs := ⟨fun r s => le_total _ _⟩
  have : IsTrans Record fun r s => r.startedMs ≤ s.startedMs := ⟨fun _ _ _ => le_trans⟩
  unfold sorted
  induction l with
  | nil => rfl
  | cons r l ih =>
    rw [List.insertionSort_cons, filter_orderedInsert r (List.pairwise_insertionSort _ l), ih,
      List.filter_cons]
    split <;> simp

/-- Another state at most. -/
def Kept (f : Record → Record) : Prop := ∀ r, (f r).turnId = r.turnId ∧ (f r).startedMs = r.startedMs ∧
  (f r).after = r.after ∧ (f r).endedMs = r.endedMs ∧ (f r).files = r.files

section Grown
variable {f : Record → Record} (hf : Kept f) {news : List Record} (l : List Record)
include hf

lemma filter_grown {p : Record → Bool} (hp : ∀ r, p (f r) = p r) (hnews : ∀ r ∈ news, p r = false) :
    (sorted (l.map f ++ news)).filter p = ((sorted l).filter p).map f := by
  have hnone : news.filter p = [] := List.filter_eq_nil_iff.mpr fun r hr => by simp [hnews r hr]
  rw [sorted_filter, sorted_filter, List.filter_append, hnone, List.append_nil, List.filter_map]
  have hcomp : p ∘ f = p := funext hp
  rw [hcomp]
  exact (List.map_insertionSort _ _ f _ fun a _ b _ => by rw [(hf a).2.1, (hf b).2.1]).symm

lemma latestByPath_grown {ms : ℕ} (hnews : ∀ r ∈ news, ms < r.endedMs) :
    latestByPath (sorted (l.map f ++ news)) ms = latestByPath (sorted l) ms := by
  unfold latestByPath
  rw [filter_grown hf l (fun r => by rw [(hf r).2.2.2.1]) fun r hr => by simpa using hnews r hr,
    List.foldl_map]
  simp only [(hf _).2.2.1, (hf _).2.2.2.2]

lemma find_grown {turnId : String} (hnews : ∀ r ∈ news, r.turnId ≠ turnId) :
    (sorted (l.map f ++ news)).find? (·.turnId = turnId) =
      ((sorted l).find? (·.turnId = turnId)).map f := by
  rw [← List.head?_filter, ← List.head?_filter,
    filter_grown hf l (fun r => by rw [(hf r).1]) fun r hr => by simpa using hnews r hr, List.head?_map]

end Grown

lemma kept_mark {turns : List TurnRecord} {l : List Record} {g : TurnRecord → TurnRecord}
    (hg : ∀ t, (g t).turnId = t.turnId ∧ (g t).startedMs = t.startedMs ∧ (g t).after = t.after)
    (hturns : turns = (l.map (·.toTurnRecord)).map g) :
    ∃ f, Kept f ∧ l.zipWith (fun r t => { r with toTurnRecord := t }) turns = l.map f := by
  refine ⟨fun r => { r with toTurnRecord := g r.toTurnRecord }, fun r => ?_, ?_⟩
  · exact ⟨(hg _).1, (hg _).2.1, (hg _).2.2, rfl, rfl⟩
  · rw [hturns, List.map_map, List.zipWith_map_right, List.zipWith_self]
    rfl

lemma ledger_step (snapshots : Snapshots) (w : World) (e : Event) {c : Conclusion}
    (h : c.Later snapshots w e)
    (task : String) : ∃ f news, Kept f ∧ (w.step snapshots e).ledger task = (w.ledger task).map f ++ news ∧
      ∀ r ∈ news, e = .record task r := by
  have hid : Kept id := fun r => ⟨rfl, rfl, rfl, rfl, rfl⟩
  have hsame : (w.step snapshots e).ledger task = w.ledger task → ∃ f news, Kept f ∧
      (w.step snapshots e).ledger task = (w.ledger task).map f ++ news ∧ ∀ r ∈ news, e = .record task r :=
    fun hsame => ⟨id, [], hid, by simpa using hsame, by simp⟩
  have hmark : ∀ other turns, (∃ g : TurnRecord → TurnRecord, (∀ t, (g t).turnId = t.turnId ∧
      (g t).startedMs = t.startedMs ∧ (g t).after = t.after) ∧
      turns = ((w.ledger other).map (·.toTurnRecord)).map g) →
      (w.step snapshots e).ledger = (w.mark other turns).ledger → ∃ f news, Kept f ∧
      (w.step snapshots e).ledger task = (w.ledger task).map f ++ news ∧ ∀ r ∈ news, e = .record task r := by
    rintro other turns ⟨g, hg, hturns⟩ hstep
    by_cases htask : task = other
    · subst htask
      obtain ⟨f, hf, hmap⟩ := kept_mark hg hturns
      refine ⟨f, [], hf, ?_, by simp⟩
      rw [hstep, List.append_nil, ← hmap]
      exact Function.update_self ..
    · refine hsame ?_
      rw [hstep]
      exact Function.update_of_ne htask ..
  cases e with
  | edit path file => exact hsame rfl
  | shape unreadable => exact hsame rfl
  | stage tracked => exact hsame rfl
  | record other r =>
    by_cases htask : task = other
    · subst htask
      refine ⟨id, [r], hid, ?_, by simp⟩
      have hfresh : (w.ledger task).filter (·.turnId ≠ r.turnId) = w.ledger task :=
        List.filter_eq_self.mpr fun s hs => by simpa using h.1 s hs
      rw [List.map_id, ← hfresh]
      exact (Function.update_self ..).trans (by rw [hfresh])
    · exact hsame (Function.update_of_ne htask ..)
  | accept other turnId =>
    refine hmark other _ ?_ rfl
    unfold Turns.accept
    split
    · exact ⟨id, fun _ => ⟨rfl, rfl, rfl⟩, (List.map_id _).symm⟩
    · split
      · refine ⟨_, fun t => ?_, rfl⟩
        split <;> exact ⟨rfl, rfl, rfl⟩
      · exact ⟨id, fun _ => ⟨rfl, rfl, rfl⟩, (List.map_id _).symm⟩
  | apply other turnId action running disk now =>
    refine hmark other _ ?_ rfl
    unfold Turns.apply
    split
    · exact ⟨id, fun _ => ⟨rfl, rfl, rfl⟩, (List.map_id _).symm⟩
    · split
      · exact ⟨id, fun _ => ⟨rfl, rfl, rfl⟩, (List.map_id _).symm⟩
      · refine ⟨_, fun t => ?_, rfl⟩
        unfold TurnRecord.marked
        split
        · split <;> exact ⟨rfl, rfl, rfl⟩
        · exact ⟨rfl, rfl, rfl⟩

section Pairs
variable {snapshots : Snapshots} {w : World} {task : String} {c : Conclusion}

lemma basis_step {e : Event} (h : c.Later snapshots w e) :
    (c.basis (w.step snapshots e) task).map (·.pairs) = (c.basis w task).map (·.pairs) := by
  have hlatest : ∀ (kind key) {other : String} {ms : ℕ},
      (∀ r, e = .record other r → ms < r.endedMs) →
      Basis.ofLatest kind key (sorted ((w.step snapshots e).ledger other)) ms =
        Basis.ofLatest kind key (sorted (w.ledger other)) ms := by
    intro kind key other ms hlater
    obtain ⟨f, news, hf, hledger, hnews⟩ := ledger_step snapshots w e h other
    unfold Basis.ofLatest
    rw [hledger, latestByPath_grown hf _ fun r hr => hlater r (hnews r hr)]
  cases c with
  | effect turnId =>
    obtain ⟨f, news, hf, hledger, hnews⟩ := ledger_step snapshots w e h task
    have hother : ∀ r ∈ news, r.turnId ≠ turnId := fun r hr => by
      have hr := hnews r hr
      subst hr
      exact h.2
    simp only [Conclusion.basis, hledger, find_grown hf _ hother, Option.map_map]
    congr 1
    funext r
    simp [(hf r).2.2.1, (hf r).2.2.2.2]
  | obligation id passedMs =>
    exact congrArg _ (hlatest _ _ fun r hr => by subst hr; exact h.2)
  | branch b =>
    exact congrArg _ (hlatest _ _ fun r hr => by subst hr; exact h.2)

lemma tree_step {e : Event} (h : c.Later snapshots w e) {tree : Tree}
    (htree : c.tree snapshots (w.step snapshots e) = some tree) : c.tree snapshots w = some tree := by
  cases c with
  | effect | obligation => cases htree
  | branch b =>
    obtain ⟨f, news, -, hledger, -⟩ := ledger_step snapshots w e h b.taskId
    unfold Conclusion.tree at htree ⊢
    dsimp only at htree ⊢
    rw [hledger] at htree
    split at htree
    · next hempty =>
      rw [if_pos (by simp_all)]
      exact htree
    · cases htree

lemma tracked_step (snapshots : Snapshots) (w : World) (e : Event) :
    (w.step snapshots e).tracked = w.tracked ∨ e = .stage (w.step snapshots e).tracked := by
  cases e with
  | stage tracked => exact .inr rfl
  | edit | shape | record | accept | apply => exact .inl rfl

/-- What a conclusion rests on, some time after it was drawn. -/
structure Within (snapshots : Snapshots) (task : String) (c : Conclusion) (w v : World) : Prop where
  pairs : c.pairs v task = c.pairs w task
  tree : ∀ tree ∈ c.tree snapshots v, tree ∈ c.tree snapshots w ∧
    (∀ path, tree.files path ≠ none → path ∈ v.tracked) ∧ v.tracked ⊆ tree.paths ++ w.tracked

lemma Within.step {v : World} (hv : Within snapshots task c w v) {e : Event}
    (h : c.Later snapshots v e) : Within snapshots task c w (v.step snapshots e) where
  pairs := by
    rw [← hv.pairs, Conclusion.pairs, basis_step h]
    rfl
  tree := by
    intro tree htree
    have hbefore := tree_step h htree
    obtain ⟨hdrawn, htracked, honly⟩ := hv.tree tree hbefore
    rcases tracked_step snapshots v e with hsame | hstage
    · rw [hsame]
      exact ⟨hdrawn, htracked, honly⟩
    · rw [hstage] at h
      obtain ⟨htracked', honly'⟩ := h tree hbefore
      refine ⟨hdrawn, htracked', List.Subset.trans honly' ?_⟩
      exact List.append_subset.mpr ⟨List.subset_append_left _ _, honly⟩

lemma within_run {events : List Event}
    (h : Along (World.step snapshots) (c.Later snapshots) w events)
    (hw : c.Undisturbed snapshots w task) : Within snapshots task c w (w.run snapshots events) :=
  Along.invariant (I := Within snapshots task c w) (Along.iff.mp h)
    ⟨rfl, fun tree htree => ⟨htree, hw.tracked tree htree, List.subset_append_right _ _⟩⟩
    (fun _ _ hv he => hv.step he) List.prefix_rfl

lemma reports_eq_nil {cp : Checkpoint}
    (hreadable : ∀ path ∈ w.wanted task cp, w.unreadable path = false)
    (hpairs : ∀ pair ∈ c.pairs w task, contentOf (w.files pair.2) = blobId snapshots pair.1 pair.2)
    (htree : ∀ tree ∈ c.tree snapshots w, w.diff tree = []) :
    c.reports snapshots w task cp = [] := by
  have hids : w.currentIds (w.wanted task cp) = fun path => contentOf (w.files path) := by
    refine funext fun path => if_neg ?_
    simp only [List.any_eq_true, not_exists, not_and]
    intro q hq
    simp [hreadable q hq]
  have hbasis : ∀ basis, c.basis w task = some basis →
      w.judge snapshots task (w.currentIds (w.wanted task cp)) basis = none := by
    intro basis hb
    have hsame : basis.pairs.filter (fun pair =>
        contentOf (w.files pair.2) ≠ blobId snapshots pair.1 pair.2) = [] := by
      refine List.filter_eq_nil_iff.mpr fun pair hpair => ?_
      have hmem : pair ∈ c.pairs w task := by
        rw [Conclusion.pairs, hb]
        exact hpair
      simpa using hpairs pair hmem
    rw [World.judge, hids, hsame]
    rfl
  have hbind : (c.basis w task).bind
      (w.judge snapshots task (w.currentIds (w.wanted task cp))) = none := by
    cases hb : c.basis w task with
    | none => rfl
    | some basis => exact hbasis basis hb
  unfold Conclusion.reports
  rw [hbind, ite_self, Option.toList_none, List.nil_append]
  cases c with
  | effect | obligation => rfl
  | branch b =>
    suffices w.branchOnly snapshots b = none by
      dsimp only
      rw [this]
      rfl
    unfold World.branchOnly
    split
    · rfl
    · next tree hbasis =>
      split
      · next hempty =>
        rw [htree tree (by rw [Conclusion.tree, if_pos hempty, hbasis]; rfl)]
        rfl
      · rfl

lemma diff_eq_nil {tree : Tree} (htracked : ∀ path, tree.files path ≠ none → path ∈ w.tracked)
    (hsame : ∀ path ∈ tree.paths ++ w.tracked, w.files path = tree.files path) :
    w.diff tree = [] := by
  refine List.filter_eq_nil_iff.mpr fun path hpath => ?_
  rw [List.mem_dedup, List.mem_insertionSort] at hpath
  by_cases hin : path ∈ w.tracked
  · simp [hin, hsame path hpath]
  · have hnone : tree.files path = none := by
      by_contra hfile
      exact hin (htracked path hfile)
    simp [hin, hnone]

lemma undisturbed_record {v : World} {r : Record} (hfresh : ∀ s ∈ v.ledger task, s.turnId ≠ r.turnId)
    (hafter : ∀ path, (nodeAt snapshots r.after path).toFile = v.files path) :
    (Conclusion.effect r.turnId).Undisturbed snapshots (v.step snapshots (.record task r)) task := by
  have hkeep : (v.ledger task).filter (·.turnId ≠ r.turnId) = v.ledger task :=
    List.filter_eq_self.mpr fun s hs => by simpa using hfresh s hs
  have hledger : (v.step snapshots (.record task r)).ledger task = v.ledger task ++ [r] :=
    (Function.update_self ..).trans (by rw [hkeep])
  have hnone : (v.ledger task).filter (·.turnId = r.turnId) = [] :=
    List.filter_eq_nil_iff.mpr fun s hs => by simpa using hfresh s hs
  have hfind : (sorted (v.ledger task ++ [r])).find? (·.turnId = r.turnId) = some r := by
    rw [← List.head?_filter, sorted_filter, List.filter_append, hnone]
    simp [sorted]
  refine ⟨fun pair hpair => ?_, nofun, nofun⟩
  simp only [Conclusion.pairs, Conclusion.basis, hledger, hfind, Option.map_some, Option.getD_some,
    List.mem_map] at hpair
  obtain ⟨path, -, rfl⟩ := hpair
  exact congrArg contentOf (hafter path).symm

lemma file_eq {file file' : Option File} (hcontent : contentOf file = contentOf file')
    (hmode : file.map (·.mode) = file'.map (·.mode)) : file = file' := by
  cases file with
  | none => cases file' <;> simp_all [contentOf]
  | some f =>
    cases file' with
    | none => simp [contentOf] at hcontent
    | some g =>
      cases f
      cases g
      simp_all [contentOf]

end Pairs

/-- A turn has written the second draft over the first. -/
def written : World := World.run drafts
  ⟨(Tree.single "notes.md" "one").files, fun _ => false, ["notes.md"], fun _ => []⟩
  [.edit "notes.md" (some (plainFile "two")),
    .record "task" ⟨turnOf "t1" 1 "one" "two", 2, ["notes.md"]⟩]

/-- A branch that changed nothing, come back when the second draft was written. -/
def readOnly : Conclusion := .branch ⟨"branch", 5, some "two"⟩

lemma tree_readOnly : readOnly.tree drafts written = some (Tree.single "notes.md" "two") := rfl

end Aeroric.Staleness
