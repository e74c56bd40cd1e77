import Aeroric.Table
import Mathlib.Data.String.Basic

/-! A session's own copy of the project's directory. What the directory has changed since the copy's
base is merged into the copy, file by file, and then the base moves on. -/
namespace Aeroric.IsolatedCopy

abbrev Content := List UInt8

abbrev Tree := Table String Content

structure Copy where
  base : Tree
  files : String → Option Content

structure Resolved where
  synced : List String
  conflicted : List String

/-- The merge of whole files: mine, the base's, theirs. It says whether it is clean. -/
structure Merger where
  mergeFile : Content → Content → Content → Content × Bool
  mergeFile_self : ∀ x base, mergeFile x base x = (x, true)

/-- What a call meets: the original directory, and what fails in it. -/
structure Env extends Merger where
  origin : Tree
  /-- The record, the directory or its changes cannot be read. -/
  unreadable : Option String
  mergeError : String → Option String
  /-- A write that fails may leave anything behind. -/
  writeError : String → Option (String × Option Content)
  removes : String → Bool
  saves : Bool

def diff (a b : Tree) : List String :=
  ((a.keys ++ b.keys).dedup.insertionSort (· ≤ ·)).filter fun path => a.get path ≠ b.get path

variable {path : String}

lemma mem_diff {a b : Tree} : path ∈ diff a b ↔ a.get path ≠ b.get path := by
  unfold diff
  rw [List.mem_filter, List.mem_insertionSort, List.mem_dedup, List.mem_append, Table.mem_keys,
    Table.mem_keys, decide_eq_true_iff]
  refine and_iff_right_of_imp fun hne => ?_
  cases ha : a.get path with
  | some => exact .inl rfl
  | none =>
    cases hb : b.get path with
    | some => exact .inr rfl
    | none => exact absurd (ha.trans hb.symm) hne

lemma nodup_diff (a b : Tree) : (diff a b).Nodup :=
  ((List.perm_insertionSort ..).nodup_iff.mpr (List.nodup_dedup _)).filter _

inductive Next where
  | leave
  | put (content : Option Content) (clean : Bool)

namespace Env
variable (env : Env)

/-- A missing file is an empty one here. -/
def merge (mine base theirs : Option Content) : Content × Bool :=
  env.mergeFile (mine.getD []) (base.getD []) (theirs.getD [])

def next (base : Tree) (path : String) (mine : Option Content) : Except String Next :=
  if mine = base.get path then .ok (.put (env.origin.get path) true)
  else if env.origin.get path = base.get path then .ok .leave
  else
    match env.mergeError path with
    | some error => .error error
    | none =>
      let result := env.merge mine (base.get path) (env.origin.get path)
      .ok (.put (some result.1) result.2)

/-- A removal that fails is passed over. -/
def store (path : String) (mine : Option Content) :
    Option Content → Except String Unit × Option Content
  | some bytes =>
    match env.writeError path with
    | some (error, left) => (.error (path ++ "：" ++ error), left)
    | none => (.ok (), some bytes)
  | none => (.ok (), if env.removes path then none else mine)

def resolveAll (base : Tree) :
    List String → Resolved → (String → Option Content) →
      Except String Resolved × (String → Option Content)
  | [], out, files => (.ok out, files)
  | path :: rest, out, files =>
    match env.next base path (files path) with
    | .error error => (.error error, files)
    | .ok .leave => resolveAll base rest out files
    | .ok (.put content clean) =>
      let conflicted := if clean then out.conflicted else out.conflicted ++ [path]
      match env.store path (files path) content with
      | (.error error, left) => (.error error, Function.update files path left)
      | (.ok (), stored) =>
        resolveAll base rest ⟨out.synced ++ [path], conflicted⟩ (Function.update files path stored)

def resolve (copy : Copy) : Except String Resolved × Copy :=
  match env.unreadable with
  | some error => (.error error, copy)
  | none =>
    match env.resolveAll copy.base (diff copy.base env.origin) ⟨[], []⟩ copy.files with
    | (.error error, files) => (.error error, { copy with files })
    | (.ok out, files) =>
      (.ok out, { base := if env.saves then env.origin else copy.base, files })

/-! What becomes of one path. -/

/-- The error at a path, if there is one, and what the path has afterwards. -/
def ends (base : Tree) (path : String) (mine : Option Content) : Option String × Option Content :=
  match env.next base path mine with
  | .error error => (some error, mine)
  | .ok .leave => (none, mine)
  | .ok (.put content _) =>
    match env.store path mine content with
    | (.error error, left) => (some error, left)
    | (.ok (), stored) => (none, stored)

def reached (base : Tree) (files : String → Option Content) : List String → List String
  | [] => []
  | path :: rest =>
    if (env.ends base path (files path)).1.isSome then [path] else path :: reached base files rest

/-- The directory and the merge as they are, with nothing that fails. -/
def mended : Env :=
  { env with
    unreadable := none
    mergeError := fun _ => none
    writeError := fun _ => none
    removes := fun _ => true
    saves := true }

end Env

namespace Env
variable {env : Env} {base : Tree} {files : String → Option Content} {paths : List String}

lemma reached_subset (h : path ∈ env.reached base files paths) : path ∈ paths := by
  induction paths with
  | nil => exact h
  | cons first rest ih =>
    unfold reached at h
    split at h
    · exact List.mem_cons.mpr (.inl (List.mem_singleton.mp h))
    · rcases List.mem_cons.mp h with rfl | h
      · exact List.mem_cons_self
      · exact List.mem_cons_of_mem _ (ih h)

lemma reached_of_passing (h : ∀ path ∈ paths, (env.ends base path (files path)).1 = none) :
    env.reached base files paths = paths := by
  induction paths with
  | nil => rfl
  | cons first rest ih =>
    unfold reached
    rw [h first List.mem_cons_self, ih fun path hpath => h path (List.mem_cons_of_mem _ hpath)]
    rfl

lemma reached_update {content : Option Content} (hpath : path ∉ paths) :
    env.reached base (Function.update files path content) paths = env.reached base files paths := by
  induction paths with
  | nil => rfl
  | cons first rest ih =>
    rw [List.mem_cons, not_or] at hpath
    unfold reached
    rw [Function.update_of_ne (Ne.symm hpath.1), ih hpath.2]

lemma resolveAll_failing {rest : List String} {out : Resolved} {error : String}
    (h : (env.ends base path (files path)).1 = some error) :
    env.resolveAll base (path :: rest) out files =
      (.error error, Function.update files path (env.ends base path (files path)).2) := by
  unfold ends at h ⊢
  unfold resolveAll
  cases hnext : env.next base path (files path) with
  | error error' =>
    rw [hnext] at h
    rw [Function.update_eq_self, Option.some.inj h]
  | ok next =>
    rw [hnext] at h
    cases next with
    | leave => cases h
    | put content clean =>
      dsimp only at h ⊢
      rcases hstore : env.store path (files path) content with ⟨_ | _, left⟩
      · rw [hstore] at h
        rw [Option.some.inj h]
      · rw [hstore] at h
        cases h

lemma resolveAll_passing (rest : List String) (out : Resolved)
    (h : (env.ends base path (files path)).1 = none) :
    ∃ out', env.resolveAll base (path :: rest) out files =
      env.resolveAll base rest out'
        (Function.update files path (env.ends base path (files path)).2) := by
  unfold ends at h ⊢
  cases hnext : env.next base path (files path) with
  | error =>
    rw [hnext] at h
    cases h
  | ok next =>
    rw [hnext] at h
    cases next with
    | leave => exact ⟨out, by simp [resolveAll, hnext]⟩
    | put content clean =>
      dsimp only at h ⊢
      rcases hstore : env.store path (files path) content with ⟨_ | _, stored⟩
      · rw [hstore] at h
        cases h
      · exact ⟨⟨out.synced ++ [path], if clean then out.conflicted else out.conflicted ++ [path]⟩,
          by simp [resolveAll, hnext, hstore]⟩

variable (env base files) in
/-- The loop is what its paths make of themselves: it fails when one of them does, and the files
afterwards differ at the paths it has reached. -/
lemma resolveAll_files (hnodup : paths.Nodup) (out : Resolved) :
    (env.resolveAll base paths out files).2 = fun path =>
      if path ∈ env.reached base files paths then (env.ends base path (files path)).2
      else files path := by
  induction paths generalizing out files with
  | nil => rfl
  | cons first rest ih =>
    obtain ⟨hfirst, hrest⟩ := List.nodup_cons.mp hnodup
    cases hends : (env.ends base first (files first)).1 with
    | some error =>
      rw [resolveAll_failing hends]
      funext path
      by_cases hpath : path = first
      · subst hpath
        simp [reached, hends]
      · simp [reached, hends, hpath]
    | none =>
      obtain ⟨out', hstep⟩ := resolveAll_passing rest out hends
      rw [hstep, ih _ hrest, reached_update hfirst]
      funext path
      by_cases hpath : path = first
      · subst hpath
        have hnot : path ∉ env.reached base files rest := fun h => hfirst (reached_subset h)
        simp [reached, hends, hnot]
      · simp [reached, hends, hpath]

variable (env base files) in
lemma resolveAll_result (hnodup : paths.Nodup) (out : Resolved) :
    (∃ error, (env.resolveAll base paths out files).1 = .error error) ↔
      ∃ path ∈ paths, (env.ends base path (files path)).1 ≠ none := by
  induction paths generalizing out files with
  | nil => exact ⟨fun ⟨_, h⟩ => (nomatch h), fun ⟨_, h, _⟩ => (nomatch h)⟩
  | cons first rest ih =>
    obtain ⟨hfirst, hrest⟩ := List.nodup_cons.mp hnodup
    cases hends : (env.ends base first (files first)).1 with
    | some error =>
      rw [resolveAll_failing hends]
      exact ⟨fun _ => ⟨first, List.mem_cons_self, by rw [hends]; exact nofun⟩, fun _ => ⟨_, rfl⟩⟩
    | none =>
      obtain ⟨out', hstep⟩ := resolveAll_passing rest out hends
      rw [hstep, ih _ hrest]
      have hsame : ∀ path ∈ rest, Function.update files first
          (env.ends base first (files first)).2 path = files path := fun path hpath =>
        Function.update_of_ne (ne_of_mem_of_not_mem hpath hfirst) ..
      simp only [List.mem_cons, exists_eq_or_imp, hends, ne_eq, not_true_eq_false, false_or]
      refine exists_congr fun path => and_congr_right fun hpath => ?_
      rw [hsame path hpath]

def settled (env : Env) (base : Tree) (path : String) (mine : Option Content) : Option Content :=
  if mine = base.get path then env.origin.get path
  else if env.origin.get path = base.get path then mine
  else some (env.merge mine (base.get path) (env.origin.get path)).1

lemma ends_mended (env : Env) (base : Tree) (path : String) (mine : Option Content) :
    env.mended.ends base path mine = (none, env.settled base path mine) := by
  have horigin : env.mended.origin = env.origin := rfl
  unfold ends next settled
  rw [horigin]
  split_ifs with hmine htheirs
  · cases htheirs : env.origin.get path <;> simp [mended, store]
  · rfl
  · rfl

/-- A path whose turn does not fail is settled, or a file that was to go is still there. -/
lemma ends_passing {mine : Option Content} (h : (env.ends base path mine).1 = none) :
    (env.ends base path mine).2 =
      if mine = base.get path ∧ env.origin.get path = none ∧ env.removes path = false then mine
      else env.settled base path mine := by
  unfold ends next at h ⊢
  unfold settled
  by_cases hmine : mine = base.get path
  · simp only [hmine, if_true, true_and] at h ⊢
    cases htheirs : env.origin.get path with
    | none => cases hremoves : env.removes path <;> simp [store, hremoves]
    | some bytes =>
      rw [htheirs] at h
      cases hwrite : env.writeError path with
      | none => simp [store, hwrite]
      | some failure => simp [store, hwrite] at h
  · simp only [hmine, if_false, false_and] at h ⊢
    by_cases htheirs : env.origin.get path = base.get path
    · simp [htheirs]
    · simp only [htheirs, if_false] at h ⊢
      cases hmerge : env.mergeError path with
      | some error => rw [hmerge] at h; cases h
      | none =>
        rw [hmerge] at h
        cases hwrite : env.writeError path with
        | none => simp [store, hwrite]
        | some failure => simp [store, hwrite] at h

lemma resolve_mended (env : Env) (copy : Copy) :
    (env.mended.resolve copy).2 = ⟨env.origin, fun path =>
      if path ∈ diff copy.base env.origin then env.settled copy.base path (copy.files path)
      else copy.files path⟩ := by
  have hpassing : ∀ path ∈ diff copy.base env.origin,
      (env.mended.ends copy.base path (copy.files path)).1 = none := fun path _ => by
    rw [ends_mended]
  have hnodup := nodup_diff copy.base env.origin
  have hfiles := env.mended.resolveAll_files copy.base copy.files hnodup ⟨[], []⟩
  have hresult := (env.mended.resolveAll_result copy.base copy.files hnodup ⟨[], []⟩).not.mpr
    fun ⟨path, hpath, hne⟩ => hne (hpassing path hpath)
  rw [reached_of_passing hpassing] at hfiles
  simp only [ends_mended] at hfiles
  change (match env.mended.resolveAll copy.base (diff copy.base env.origin) ⟨[], []⟩ copy.files with
    | (.error error, files) => (Except.error error, { copy with files })
    | (.ok out, files) => (Except.ok out, ⟨env.origin, files⟩)).2 = _
  rcases hall : env.mended.resolveAll copy.base (diff copy.base env.origin) ⟨[], []⟩ copy.files with
    ⟨error | out, files⟩
  · exact absurd ⟨error, by rw [hall]⟩ hresult
  · rw [hall] at hfiles
    dsimp only at hfiles ⊢
    rw [hfiles]

end Env

/-! What a merge owes. -/

/-- After a merge that succeeds the base is the directory, and the copy has what it should at every
path: the directory's file where the agent changed nothing, its own where the directory changed
nothing or the same. Only the agent's own work is left. -/
structure Merged (env : Env) (copy after : Copy) : Prop where
  base : ∀ path, after.base.get path = env.origin.get path
  followed : ∀ path, copy.files path = copy.base.get path →
    after.files path = env.origin.get path
  kept : ∀ path, env.origin.get path = copy.base.get path → after.files path = copy.files path
  agreed : ∀ path, copy.files path = env.origin.get path → after.files path = copy.files path
  own : ∀ path, after.files path ≠ after.base.get path →
    copy.files path ≠ copy.base.get path ∧ copy.files path ≠ env.origin.get path

/-- A merge that fails may be tried again as if it had not been tried. -/
def Retried (env : Env) (copy after : Copy) : Prop :=
  (env.mended.resolve after).2 = (env.mended.resolve copy).2

namespace Env
variable {env : Env} {copy : Copy}

/-- The merged content is merged to itself again. -/
def Repeats (env : Env) (base : Tree) (path : String) (mine : Option Content) : Prop :=
  if mine = base.get path then env.origin.get path ≠ none ∨ env.removes path = false
  else env.origin.get path = base.get path ∨
    let merged := (env.merge mine (base.get path) (env.origin.get path)).1
    some merged ≠ base.get path ∧
      (env.merge (some merged) (base.get path) (env.origin.get path)).1 = merged

lemma merge_self (env : Env) (x : Option Content) (base : Option Content) :
    (env.merge x base x).1 = x.getD [] := by
  unfold merge
  rw [env.mergeFile_self]

lemma settled_base (env : Env) (base : Tree) (path : String) :
    env.settled base path (base.get path) = env.origin.get path := if_pos rfl

lemma settled_of_ne {base : Tree} {mine : Option Content}
    (hchanged : base.get path ≠ env.origin.get path) (hmine : mine ≠ base.get path) :
    env.settled base path mine =
      some (env.merge mine (base.get path) (env.origin.get path)).1 := by
  unfold settled
  rw [if_neg hmine, if_neg (Ne.symm hchanged)]

lemma settled_origin {base : Tree} (hchanged : base.get path ≠ env.origin.get path) :
    env.settled base path (env.origin.get path) = some ((env.origin.get path).getD []) := by
  rw [settled_of_ne hchanged (Ne.symm hchanged), merge_self]

lemma settled_ends_iff {base : Tree} {mine : Option Content}
    (hchanged : base.get path ≠ env.origin.get path)
    (hpassing : (env.ends base path mine).1 = none) :
    env.settled base path (env.ends base path mine).2 = env.settled base path mine ↔
      env.Repeats base path mine := by
  rw [ends_passing hpassing]
  unfold Repeats
  by_cases hmine : mine = base.get path
  · subst hmine
    simp only [true_and, if_true, settled_base]
    have horigin := settled_origin hchanged
    cases htheirs : env.origin.get path with
    | none =>
      rw [htheirs] at horigin
      cases hremoves : env.removes path with
      | false => simp [settled_base, htheirs]
      | true => simp [horigin]
    | some bytes =>
      rw [htheirs] at horigin
      simp [horigin]
  · simp only [hmine, false_and, if_false, Ne.symm hchanged, false_or]
    rw [settled_of_ne hchanged hmine]
    by_cases hmerged : some (env.merge mine (base.get path) (env.origin.get path)).1 = base.get path
    · rw [hmerged, settled_base]
      simp [Ne.symm hchanged]
    · rw [settled_of_ne hchanged hmerged]
      simp [hmerged]

/-- When nothing stops the merge: the base is saved or need not be, no file is gone on both sides,
and each file that has to go can go. When something stops it: what was merged before is merged to
itself again, and what a failed write left behind is merged to the same. -/
def Smooth (env : Env) (copy : Copy) : Prop :=
  let changed := diff copy.base env.origin
  if env.unreadable ≠ none then True
  else if ∃ path ∈ changed, (env.ends copy.base path (copy.files path)).1 ≠ none then
    ∀ path ∈ env.reached copy.base copy.files changed,
      if (env.ends copy.base path (copy.files path)).1 = none then
        env.Repeats copy.base path (copy.files path)
      else env.settled copy.base path (env.ends copy.base path (copy.files path)).2 =
        env.settled copy.base path (copy.files path)
  else (env.saves = true ∨ changed = []) ∧ ∀ path ∈ changed, env.origin.get path = none →
    copy.files path ≠ none ∧ (copy.files path = copy.base.get path → env.removes path = true)

def Correct (env : Env) (copy : Copy) : Prop :=
  match env.resolve copy with
  | (.ok _, after) => Merged env copy after
  | (.error _, after) => Retried env copy after

lemma retried_iff {files : String → Option Content}
    (hfiles : files = fun path => if path ∈ env.reached copy.base copy.files
        (diff copy.base env.origin) then (env.ends copy.base path (copy.files path)).2
      else copy.files path) :
    Retried env copy { copy with files } ↔
      ∀ path ∈ env.reached copy.base copy.files (diff copy.base env.origin),
        env.settled copy.base path (env.ends copy.base path (copy.files path)).2 =
          env.settled copy.base path (copy.files path) := by
  unfold Retried
  rw [resolve_mended, resolve_mended]
  simp only [Copy.mk.injEq, true_and, funext_iff]
  refine forall_congr' fun path => ?_
  by_cases hreached : path ∈ env.reached copy.base copy.files (diff copy.base env.origin)
  · simp [hfiles, hreached, reached_subset hreached]
  · simp [hfiles, hreached]

/-- A merge that succeeds has done what it owes when each path has what it should. -/
lemma merged_of_paths {after : Copy} (hbase : ∀ path, after.base.get path = env.origin.get path)
    (hfollowed : ∀ path, copy.files path = copy.base.get path →
      after.files path = env.origin.get path)
    (hkept : ∀ path, env.origin.get path = copy.base.get path →
      after.files path = copy.files path)
    (hagreed : ∀ path, copy.files path = env.origin.get path →
      after.files path = copy.files path) : Merged env copy after where
  base := hbase
  followed := hfollowed
  kept := hkept
  agreed := hagreed
  own := fun path hne => by
    rw [hbase] at hne
    exact ⟨fun h => hne (hfollowed path h), fun h => hne ((hagreed path h).trans h)⟩

section Success
variable {after : Copy}
  (hpassing : ∀ path ∈ diff copy.base env.origin,
    (env.ends copy.base path (copy.files path)).1 = none)
  (hfiles : after.files = fun path => if path ∈ diff copy.base env.origin
    then (env.ends copy.base path (copy.files path)).2 else copy.files path)
  (hbase : after.base = if env.saves then env.origin else copy.base)
include hpassing hfiles hbase

lemma merged_of_smooth (hsaved : env.saves = true ∨ diff copy.base env.origin = [])
    (hgone : ∀ path ∈ diff copy.base env.origin, env.origin.get path = none →
      copy.files path ≠ none ∧ (copy.files path = copy.base.get path → env.removes path = true)) :
    Merged env copy after := by
  have hsame : ∀ path, path ∉ diff copy.base env.origin →
      copy.base.get path = env.origin.get path ∧ after.files path = copy.files path := by
    intro path hpath
    exact ⟨not_not.mp (mem_diff.not.mp hpath), by simp [hfiles, hpath]⟩
  have hsettled : ∀ path ∈ diff copy.base env.origin,
      after.files path = env.settled copy.base path (copy.files path) := by
    intro path hpath
    have hends := ends_passing (hpassing path hpath)
    rw [if_neg fun h => by simpa [h.2.2] using (hgone path hpath h.2.1).2 h.1] at hends
    simp [hfiles, hpath, hends]
  refine merged_of_paths (fun path => ?_) (fun path hcopy => ?_) (fun path horigin => ?_)
    fun path hcopy => ?_
  · rcases hsaved with hsaved | hnone
    · rw [hbase, if_pos hsaved]
    · rw [hbase]
      split
      · rfl
      · exact (hsame path (by rw [hnone]; exact List.not_mem_nil)).1
  · by_cases hpath : path ∈ diff copy.base env.origin
    · rw [hsettled path hpath, hcopy, settled_base]
    · rw [(hsame path hpath).2, hcopy, (hsame path hpath).1]
  · exact (hsame path (mem_diff.not.mpr (not_not.mpr horigin.symm))).2
  · by_cases hpath : path ∈ diff copy.base env.origin
    · rw [hsettled path hpath, hcopy, settled_origin (mem_diff.mp hpath)]
      cases horigin : env.origin.get path with
      | none => exact absurd (hcopy.trans horigin) (hgone path hpath horigin).1
      | some => rfl
    · exact (hsame path hpath).2

lemma smooth_of_merged (h : Merged env copy after) :
    (env.saves = true ∨ diff copy.base env.origin = []) ∧
      ∀ path ∈ diff copy.base env.origin, env.origin.get path = none →
        copy.files path ≠ none ∧
          (copy.files path = copy.base.get path → env.removes path = true) := by
  constructor
  · by_cases hsaves : env.saves = true
    · exact .inl hsaves
    · refine .inr (List.eq_nil_iff_forall_not_mem.mpr fun path hpath => mem_diff.mp hpath ?_)
      rw [← h.base path, hbase, if_neg hsaves]
  · intro path hpath horigin
    have hafter : after.files path = (env.ends copy.base path (copy.files path)).2 := by
      simp [hfiles, hpath]
    rw [ends_passing (hpassing path hpath)] at hafter
    have hchanged := mem_diff.mp hpath
    constructor
    · -- A file gone on both sides comes back empty.
      intro hcopy
      have hboth : copy.files path = env.origin.get path := hcopy.trans horigin.symm
      have hmine : copy.files path ≠ copy.base.get path := hboth ▸ Ne.symm hchanged
      have hagreed := h.agreed path hboth
      rw [hafter, if_neg (not_and_of_not_left _ hmine), hboth, settled_origin hchanged,
        horigin] at hagreed
      cases hagreed
    · intro hcopy
      by_contra hremoves
      have hfollowed := h.followed path hcopy
      rw [hafter, if_pos ⟨hcopy, horigin, by simpa using hremoves⟩, hcopy] at hfollowed
      exact hchanged hfollowed

end Success

/-- A call does what it owes exactly when it is smooth. -/
theorem resolve_correct_iff (env : Env) (copy : Copy) : env.Correct copy ↔ env.Smooth copy := by
  have hnodup := nodup_diff copy.base env.origin
  have hfiles := env.resolveAll_files copy.base copy.files hnodup ⟨[], []⟩
  have hresult := env.resolveAll_result copy.base copy.files hnodup ⟨[], []⟩
  unfold Correct Smooth resolve
  cases hunreadable : env.unreadable with
  | some error =>
    simp only [ne_eq, reduceCtorEq, not_false_eq_true, if_true, iff_true]
    exact rfl
  | none =>
    simp only [ne_eq, not_true_eq_false, if_false]
    rcases hall : env.resolveAll copy.base (diff copy.base env.origin) ⟨[], []⟩ copy.files with
      ⟨error | out, files⟩
    · rw [hall] at hfiles hresult
      rw [if_pos (hresult.mp ⟨error, rfl⟩)]
      refine (retried_iff hfiles).trans (forall₂_congr fun path hreached => ?_)
      by_cases hpassing : (env.ends copy.base path (copy.files path)).1 = none
      · rw [if_pos hpassing]
        exact settled_ends_iff (mem_diff.mp (reached_subset hreached)) hpassing
      · rw [if_neg hpassing]
    · rw [hall] at hfiles hresult
      have hnone : ¬∃ path ∈ diff copy.base env.origin,
          ¬(env.ends copy.base path (copy.files path)).1 = none :=
        fun h => (nomatch (hresult.mpr h).choose_spec)
      have hpassing : ∀ path ∈ diff copy.base env.origin,
          (env.ends copy.base path (copy.files path)).1 = none := by
        simpa only [not_exists, not_and, not_not] using hnone
      rw [reached_of_passing hpassing] at hfiles
      rw [if_neg hnone]
      exact ⟨smooth_of_merged hpassing hfiles rfl,
        fun h => merged_of_smooth hpassing hfiles rfl h.1 h.2⟩

/-- Two files that differ are put one after the other. -/
def joining (origin : Tree) : Env where
  mergeFile := fun mine _ theirs => if mine = theirs then (mine, true) else (mine ++ theirs, false)
  mergeFile_self := fun _ _ => if_pos rfl
  origin := origin
  unreadable := none
  mergeError := fun _ => none
  writeError := fun _ => none
  removes := fun _ => true
  saves := true

/-- A file of the base that is gone from the copy. -/
def goneCopy : Copy := ⟨Table.empty.set "a" [1], fun _ => none⟩

/-- It is gone from the directory too, and comes back. -/
theorem not_correct_goneCopy : ¬(joining .empty).Correct goneCopy := by
  intro h
  have hok : ((joining .empty).resolve goneCopy).1.isOk = true := by decide +kernel
  have hback : ((joining .empty).resolve goneCopy).2.files "a" = some [] := by decide +kernel
  unfold Correct at h
  rcases hresolve : (joining .empty).resolve goneCopy with ⟨error | out, after⟩
  · rw [hresolve] at hok
    cases hok
  · rw [hresolve] at h hback
    cases hback.symm.trans (h.agreed "a" rfl)

end Env

end Aeroric.IsolatedCopy
