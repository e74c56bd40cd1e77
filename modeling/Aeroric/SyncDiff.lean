import Aeroric.Decimal
import Aeroric.SyncPlan

/-! The plan of a round of notebook sync as a function of lists: of the scan, the remote, the
baselines, the tombstones and the user's decisions, with paths and hashes as texts. It looks at each
path on its own. -/
namespace Aeroric.SyncDiff

open NotebookSync (Resolution ConflictStrategy Reason)

structure FileSig where
  path : String
  hash : String
  deriving DecidableEq

structure RemoteEntry where
  path : String
  hash : String
  deriving DecidableEq

structure Baseline where
  path : String
  localHash : String
  remoteHash : String
  deriving DecidableEq

structure Tombstone where
  path : String
  remoteHash : String
  deriving DecidableEq

structure StoredResolution where
  path : String
  resolution : Resolution
  localHash : String
  remoteHash : String
  deriving DecidableEq

inductive Action
  | upload
  | download
  | deleteRemote
  | deleteLocal
  | conflict (resolution : Option Resolution) (localHash remoteHash : String)
  deriving DecidableEq

def Action.isConflict : Action → Bool
  | .conflict .. => true
  | _ => false

structure PlannedAction where
  path : String
  action : Action
  reason : Reason
  deriving DecidableEq

def oversizePrefix : String := "oversize:"

def isOversize (hash : String) : Bool := oversizePrefix.toList.isPrefixOf hash.toList

structure DiffOpts where
  strategy : ConflictStrategy
  decided : List StoredResolution

def decidedFor (decided : List StoredResolution) (path localHash remoteHash : String) :
    Option Resolution :=
  ((decided.find? fun d => d.path = path).filter fun d =>
    d.localHash = localHash && d.remoteHash = remoteHash).map (·.resolution)

def conflict (opts : DiffOpts) (path localHash remoteHash : String) : Action :=
  .conflict ((decidedFor opts.decided path localHash remoteHash).or
    (match opts.strategy with
      | .ask => none
      | .local => some .keepLocal
      | .remote => some .keepRemote)) localHash remoteHash

def planLocal (opts : DiffOpts) (path : String) (file : FileSig) (remote : Option RemoteEntry)
    (base : Option Baseline) : Option (Action × Reason) :=
  if isOversize file.hash then none
  else if remote.any fun entry => isOversize entry.hash then none
  else match remote, base with
    | none, none => some (.upload, .newLocal)
    | none, some base =>
      if file.hash = base.localHash then some (.deleteLocal, .remoteDeletedLocalUnchanged)
      else some (conflict opts path file.hash "", .remoteDeletedLocalModified)
    | some entry, none =>
      if entry.hash = file.hash then some (.upload, .sameContentNoBaseline)
      else some (conflict opts path file.hash entry.hash, .bothPresentNoBaseline)
    | some entry, some base =>
      match decide (file.hash ≠ base.localHash), decide (entry.hash ≠ base.remoteHash) with
      | false, false => none
      | true, false => some (.upload, .localModified)
      | false, true => some (.download, .remoteModified)
      | true, true => some (conflict opts path file.hash entry.hash, .bothModified)

def planRemote (opts : DiffOpts) (path : String) (entry : RemoteEntry) (base : Option Baseline)
    (tomb : Option Tombstone) : Option (Action × Reason) :=
  if isOversize entry.hash then none
  else match base, tomb with
    | _, some tomb =>
      if entry.hash = tomb.remoteHash then some (.deleteRemote, .localTombstoneRemoteUnchanged)
      else some (conflict opts path "" entry.hash, .localTombstoneRemoteModified)
    | some base, none =>
      if entry.hash = base.remoteHash then some (.deleteRemote, .localMissingRemoteUnchanged)
      else some (.download, .localMissingRemoteModified)
    | none, none => some (.download, .newRemote)

def one (path : String) (todo : Action × Reason) : PlannedAction := ⟨path, todo.1, todo.2⟩

def plan (scanned : List FileSig) (remote : List RemoteEntry) (baseline : List Baseline)
    (tombstones : List Tombstone) (opts : DiffOpts) : List PlannedAction :=
  let localMap := Table.collect FileSig.path scanned
  let remoteMap := Table.collect RemoteEntry.path remote
  let baseMap := Table.collect Baseline.path baseline
  let tombMap := Table.collect Tombstone.path tombstones
  let first := localMap.keys.filterMap fun path => ((localMap.get path).bind fun file =>
    planLocal opts path file (remoteMap.get path) (baseMap.get path)).map (one path)
  let second := remoteMap.keys.filterMap fun path =>
    if (localMap.get path).isSome then none
    else ((remoteMap.get path).bind fun entry =>
      planRemote opts path entry (baseMap.get path) (tombMap.get path)).map (one path)
  (first ++ second).insertionSort fun a b => a.path ≤ b.path

/-- What a round knows; of each kind at most one entry for a path. -/
structure Snapshot where
  scanned : List FileSig
  remote : List RemoteEntry
  baseline : List Baseline
  tombstones : List Tombstone
  decided : List StoredResolution
  strategy : ConflictStrategy
  uniqueScanned : (scanned.map FileSig.path).Nodup
  uniqueRemote : (remote.map RemoteEntry.path).Nodup
  uniqueBaseline : (baseline.map Baseline.path).Nodup
  uniqueTombstones : (tombstones.map Tombstone.path).Nodup
  uniqueDecided : (decided.map StoredResolution.path).Nodup

namespace Snapshot
variable {s t : Snapshot} {p : String}

def actions (s : Snapshot) : List PlannedAction :=
  plan s.scanned s.remote s.baseline s.tombstones ⟨s.strategy, s.decided⟩

def todoAt (s : Snapshot) (path : String) : Option (Action × Reason) :=
  match Table.look FileSig.path s.scanned path with
  | some file => planLocal ⟨s.strategy, s.decided⟩ path file
      (Table.look RemoteEntry.path s.remote path) (Table.look Baseline.path s.baseline path)
  | none => (Table.look RemoteEntry.path s.remote path).bind fun entry =>
      planRemote ⟨s.strategy, s.decided⟩ path entry (Table.look Baseline.path s.baseline path)
        (Table.look Tombstone.path s.tombstones path)

lemma one_eq_iff {todo : Option (Action × Reason)} {a : PlannedAction} :
    todo.map (one p) = some a ↔ p = a.path ∧ todo = some (a.action, a.reason) := by
  cases todo with
  | none => simp
  | some todo =>
    obtain ⟨_, action, reason⟩ := a
    obtain ⟨action', reason'⟩ := todo
    simp [one]

lemma path_one {todo : Option (Action × Reason)} {p : String} {a : PlannedAction}
    (h : todo.map (one p) = some a) : a.path = p := (one_eq_iff.mp h).1.symm

lemma actions_increasing (s : Snapshot) : s.actions.Pairwise fun a b => a.path < b.path :=
  Table.twoPass_increasing (fun _ _ => path_one) fun _ _ => path_one

lemma mem_actions {a : PlannedAction} :
    a ∈ s.actions ↔ s.todoAt a.path = some (a.action, a.reason) := by
  refine (Table.mem_twoPass (fun _ _ => path_one) fun _ _ => path_one).trans ?_
  simp only [Table.get_collect s.uniqueScanned, Table.get_collect s.uniqueRemote,
    Table.get_collect s.uniqueBaseline, Table.get_collect s.uniqueTombstones]
  unfold todoAt
  cases Table.look FileSig.path s.scanned a.path with
  | some file => simp only [Option.isSome_some, if_true, Option.bind_some, one_eq_iff, true_and]
  | none =>
    cases Table.look RemoteEntry.path s.remote a.path with
    | some entry =>
      simp only [Option.isSome_none, Option.isSome_some, Bool.false_eq_true, if_false,
        Option.bind_some, one_eq_iff, true_and]
    | none => simp

/-! One path on its own. -/

/-- The rows for a path are the same. -/
structure SameAt (s t : Snapshot) (p : String) : Prop where
  strategy : s.strategy = t.strategy
  scanned : Table.look FileSig.path s.scanned p = Table.look FileSig.path t.scanned p
  remote : Table.look RemoteEntry.path s.remote p = Table.look RemoteEntry.path t.remote p
  baseline : Table.look Baseline.path s.baseline p = Table.look Baseline.path t.baseline p
  tombstones : Table.look Tombstone.path s.tombstones p = Table.look Tombstone.path t.tombstones p
  decided : Table.look StoredResolution.path s.decided p =
    Table.look StoredResolution.path t.decided p

lemma SameAt.conflict (h : SameAt s t p) (l r : String) :
    conflict ⟨s.strategy, s.decided⟩ p l r = conflict ⟨t.strategy, t.decided⟩ p l r := by
  have hdecided : s.decided.find? (fun d => d.path = p) = t.decided.find? fun d => d.path = p :=
    h.decided
  unfold SyncDiff.conflict decidedFor
  rw [h.strategy, hdecided]

lemma SameAt.todoAt (h : SameAt s t p) : s.todoAt p = t.todoAt p := by
  unfold Snapshot.todoAt planLocal planRemote
  simp only [h.scanned, h.remote, h.baseline, h.tombstones, h.conflict]

/-- The lists have the same rows, in some order. -/
structure Permuted (s t : Snapshot) : Prop where
  strategy : s.strategy = t.strategy
  scanned : s.scanned.Perm t.scanned
  remote : s.remote.Perm t.remote
  baseline : s.baseline.Perm t.baseline
  tombstones : s.tombstones.Perm t.tombstones
  decided : s.decided.Perm t.decided

lemma Permuted.sameAt (h : Permuted s t) (p : String) : SameAt s t p where
  strategy := h.strategy
  scanned := Table.look_perm h.scanned s.uniqueScanned p
  remote := Table.look_perm h.remote s.uniqueRemote p
  baseline := Table.look_perm h.baseline s.uniqueBaseline p
  tombstones := Table.look_perm h.tombstones s.uniqueTombstones p
  decided := Table.look_perm h.decided s.uniqueDecided p

/-- The lists differ in rows of the path `q` only. -/
structure AgreeOff (s t : Snapshot) (q : String) : Prop where
  strategy : s.strategy = t.strategy
  scanned : s.scanned.filter (fun f => f.path ≠ q) = t.scanned.filter fun f => f.path ≠ q
  remote : s.remote.filter (fun e => e.path ≠ q) = t.remote.filter fun e => e.path ≠ q
  baseline : s.baseline.filter (fun b => b.path ≠ q) = t.baseline.filter fun b => b.path ≠ q
  tombstones : s.tombstones.filter (fun d => d.path ≠ q) =
    t.tombstones.filter fun d => d.path ≠ q
  decided : s.decided.filter (fun d => d.path ≠ q) = t.decided.filter fun d => d.path ≠ q

lemma look_agreeOff {α : Type} {key : α → String} {l m : List α} {q : String}
    (h : l.filter (fun a => key a ≠ q) = m.filter fun a => key a ≠ q) (hp : p ≠ q) :
    Table.look key l p = Table.look key m p := by
  have hfilter : ∀ l : List α, (l.filter fun a => key a = p) =
      (l.filter fun a => key a ≠ q).filter fun a => key a = p := by
    intro l
    rw [List.filter_filter]
    refine List.filter_congr fun a _ => ?_
    by_cases ha : key a = p
    · simp [ha, hp]
    · simp [ha]
  rw [Table.look_filter, Table.look_filter, hfilter l, hfilter m, h]

lemma AgreeOff.sameAt {q : String} (h : AgreeOff s t q) (hp : p ≠ q) : SameAt s t p where
  strategy := h.strategy
  scanned := look_agreeOff h.scanned hp
  remote := look_agreeOff h.remote hp
  baseline := look_agreeOff h.baseline hp
  tombstones := look_agreeOff h.tombstones hp
  decided := look_agreeOff h.decided hp

lemma SameAt.actions (h : SameAt s t p) :
    (s.actions.filter fun a => a.path = p) = t.actions.filter fun a => a.path = p := by
  refine eq_of_increasing (s.actions_increasing.sublist List.filter_sublist)
    (t.actions_increasing.sublist List.filter_sublist) fun a => ?_
  rw [List.mem_filter, List.mem_filter, mem_actions, mem_actions]
  refine and_congr_left fun ha => ?_
  rw [of_decide_eq_true ha, h.todoAt]

/-- The plan looks at each path on its own, and plans no conflict where the two sides are equal. -/
structure PathLocal (s : Snapshot) : Prop where
  increasing : s.actions.Pairwise fun a b => a.path < b.path
  permuted : ∀ t, Permuted s t → t.actions = s.actions
  apart : ∀ t q, AgreeOff s t q → ∀ p ≠ q,
    (t.actions.filter fun a => a.path = p) = s.actions.filter fun a => a.path = p
  agreed : ∀ a ∈ s.actions, a.action.isConflict = true →
    ∀ file ∈ s.scanned, ∀ entry ∈ s.remote, file.path = a.path → entry.path = a.path →
      file.hash ≠ entry.hash

/-- Where both sides have come to the same content it is that of the baseline on one side. -/
def Settled (s : Snapshot) : Prop :=
  ∀ file ∈ s.scanned, ∀ entry ∈ s.remote, ∀ base ∈ s.baseline, entry.path = file.path →
    base.path = file.path → isOversize file.hash = false → file.hash = entry.hash →
      file.hash = base.localHash ∨ entry.hash = base.remoteHash

instance (s : Snapshot) : Decidable s.Settled :=
  inferInstanceAs (Decidable (∀ file ∈ s.scanned, ∀ entry ∈ s.remote, ∀ base ∈ s.baseline,
    _ → _ → _ → _ → _ ∨ _))

/-- A conflict about a path that both sides have equal is one of two changes. -/
lemma isConflict_planLocal {opts : DiffOpts} {path : String} {file : FileSig} {entry : RemoteEntry}
    {base : Option Baseline} (heq : file.hash = entry.hash) :
    ((planLocal opts path file (some entry) base).any fun todo => todo.1.isConflict) = true ↔
      isOversize file.hash = false ∧
        ∃ b, base = some b ∧ file.hash ≠ b.localHash ∧ entry.hash ≠ b.remoteHash := by
  unfold planLocal
  rw [Option.any_some, ← heq]
  by_cases hsize : isOversize file.hash = true
  · simp [hsize]
  · rw [if_neg hsize, if_neg hsize]
    cases base with
    | none => simp [← heq, Action.isConflict]
    | some b =>
      dsimp only
      rw [← heq]
      by_cases hfile : file.hash = b.localHash <;> by_cases hentry : file.hash = b.remoteHash <;>
        simp_all [conflict, Action.isConflict]

/-- The plan is a function of each path's own rows, whatever the lists are; and it plans no conflict
between equal contents if and only if no path has come to the same content on both sides away from
both sides of its baseline. -/
theorem pathLocal_iff (s : Snapshot) : s.PathLocal ↔ s.Settled := by
  constructor
  · intro h file hfile entry hentry base hbase hentryPath hbasePath hsize heq
    by_contra hmoved
    rw [not_or] at hmoved
    have hlookFile := (Table.look_eq_some s.uniqueScanned).mpr ⟨hfile, rfl⟩
    have hlookEntry := (Table.look_eq_some s.uniqueRemote).mpr ⟨hentry, hentryPath⟩
    have hlookBase := (Table.look_eq_some s.uniqueBaseline).mpr ⟨hbase, hbasePath⟩
    have hany : ((s.todoAt file.path).any fun todo => todo.1.isConflict) = true := by
      unfold todoAt
      simp only [hlookFile, hlookEntry, hlookBase]
      exact (isConflict_planLocal heq).mpr ⟨hsize, base, rfl, hmoved⟩
    obtain ⟨todo, htodo, hconflict⟩ := (Option.any_eq_true _ _).mp hany
    have ha : one file.path todo ∈ s.actions := mem_actions.mpr htodo
    exact h.agreed _ ha hconflict file hfile entry hentry rfl hentryPath heq
  · intro h
    refine ⟨s.actions_increasing, fun t ht => ?_, fun t q ht p hp => (ht.sameAt hp).actions.symm,
      fun a ha hconflict file hfile entry hentry hfilePath hentryPath heq => ?_⟩
    · refine eq_of_increasing t.actions_increasing s.actions_increasing fun a => ?_
      rw [mem_actions, mem_actions, (ht.sameAt a.path).todoAt]
    · have hlookFile := (Table.look_eq_some s.uniqueScanned).mpr ⟨hfile, hfilePath⟩
      have hlookEntry := (Table.look_eq_some s.uniqueRemote).mpr ⟨hentry, hentryPath⟩
      have htodo := mem_actions.mp ha
      unfold todoAt at htodo
      simp only [hlookFile, hlookEntry] at htodo
      have hany : ((planLocal ⟨s.strategy, s.decided⟩ a.path file (some entry)
          (Table.look Baseline.path s.baseline a.path)).any fun todo => todo.1.isConflict) =
            true := by
        rw [htodo]
        exact hconflict
      obtain ⟨hsize, base, hbase, hfile', hentry'⟩ := (isConflict_planLocal heq).mp hany
      obtain ⟨hbase, hbasePath⟩ := (Table.look_eq_some s.uniqueBaseline).mp hbase
      rcases h file hfile entry hentry base hbase (hentryPath.trans hfilePath.symm)
        (hbasePath.trans hfilePath.symm) hsize heq with hsame | hsame
      · exact hfile' hsame
      · exact hentry' hsame

/-- A note on both sides, and two baselines. -/
def twoNotes (localHash remoteHash : String) : Snapshot where
  scanned := [⟨"b.md", "2"⟩, ⟨"a.md", "1"⟩]
  remote := [⟨"a.md", "1"⟩]
  baseline := [⟨"a.md", localHash, remoteHash⟩, ⟨"b.md", "2", "2"⟩]
  tombstones := []
  decided := []
  strategy := .ask
  uniqueScanned := by decide
  uniqueRemote := by decide
  uniqueBaseline := by simp
  uniqueTombstones := by decide
  uniqueDecided := by decide

/-- Both sides have been changed to the same text: a conflict. -/
theorem not_pathLocal_twoNotes :
    (twoNotes "0" "0").actions = [⟨"a.md", .conflict none "1" "1", .bothModified⟩,
      ⟨"b.md", .deleteLocal, .remoteDeletedLocalUnchanged⟩] ∧
    ¬(twoNotes "0" "0").PathLocal := by
  have hactions : (twoNotes "0" "0").actions = [⟨"a.md", .conflict none "1" "1", .bothModified⟩,
      ⟨"b.md", .deleteLocal, .remoteDeletedLocalUnchanged⟩] := by
    decide +kernel
  refine ⟨hactions, fun h => ?_⟩
  exact h.agreed ⟨"a.md", .conflict none "1" "1", .bothModified⟩ (by rw [hactions]; simp) rfl
    ⟨"a.md", "1"⟩ (by simp [twoNotes]) ⟨"a.md", "1"⟩ (by simp [twoNotes]) rfl rfl rfl

end Snapshot

end Aeroric.SyncDiff
