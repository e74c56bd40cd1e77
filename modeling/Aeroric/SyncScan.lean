import Aeroric.SyncPaths

/-! The scan of a vault for notebook sync: a walk over the directory tree, against the scope that
the remote listing and the writes check on the path alone. -/
namespace Aeroric.SyncScan

open NotebookSync

/-- A name as a file system has it. -/
abbrev FileName :=
  { name : List Char // name ≠ [] ∧ name ≠ ['.'] ∧ name ≠ ['.', '.'] ∧ '/' ∉ name }

structure Content where
  mtimeMs : ℤ
  size : ℕ
  hash64 : ℕ
  deriving DecidableEq

/-- A directory, entry by entry. A name that is not valid UTF-8 is `none`; `fault` is an entry that
the file system fails on. -/
inductive Listing
  | nil
  | file (name : Option FileName) (content : Content) (rest : Listing)
  | dir (name : Option FileName) (inside rest : Listing)
  | symlink (rest : Listing)
  | other (rest : Listing)
  | fault (error : String) (rest : Listing)

structure FileSig where
  path : String
  mtimeMs : ℤ
  size : ℕ
  hash : Hash
  deriving DecidableEq

inductive ScanError
  | io (error : String)
  | notUtf8
  | notDirectory
  | depthLimit (maxDepth : ℕ)
  | fileLimit (maxFiles : ℕ)
  deriving DecidableEq

def maxHashBytes : ℕ := 64 * 1024 * 1024

def maxFiles : ℕ := 20000

def maxDepth : ℕ := 12

def joinPath (names : List FileName) : String :=
  String.ofList (['/'].intercalate (names.map Subtype.val))

def signatureOf (names : List FileName) (content : Content) : FileSig where
  path := joinPath names
  mtimeMs := content.mtimeMs
  size := content.size
  hash := if maxHashBytes < content.size then .oversize content.size else .content content.hash64

/-- The walk over a directory of the vault, with the number of files and the signatures so far. -/
def walk (maxFiles maxDepth : ℕ) : Listing → List FileName → ℕ → ℕ × List FileSig →
    Except ScanError (ℕ × List FileSig)
  | .nil, _, _, found => .ok found
  | .fault error _, _, _, _ => .error (.io error)
  | .symlink rest, dir, depth, found => walk maxFiles maxDepth rest dir depth found
  | .other rest, dir, depth, found => walk maxFiles maxDepth rest dir depth found
  | .dir none _ _, _, _, _ => .error .notUtf8
  | .dir (some name) inside rest, dir, depth, found =>
    if isScanSkipDir name then walk maxFiles maxDepth rest dir depth found
    else if maxDepth ≤ depth then .error (.depthLimit maxDepth)
    else do
      let found ← walk maxFiles maxDepth inside (dir ++ [name]) (depth + 1) found
      walk maxFiles maxDepth rest dir depth found
  | .file name content rest, dir, depth, found =>
    if maxFiles ≤ found.1 then .error (.fileLimit maxFiles)
    else match name with
      | none => .error .notUtf8
      | some name => walk maxFiles maxDepth rest dir depth
          (found.1 + 1, found.2 ++ [signatureOf (dir ++ [name]) content])

/-- What stands where the vault should be. -/
inductive Vault
  | fault (error : String)
  | file
  | directory (listing : Listing)

def scanVaultWithLimits (maxFiles maxDepth : ℕ) : Vault → Except ScanError (List FileSig)
  | .fault error => .error (.io error)
  | .file => .error .notDirectory
  | .directory listing => do
    let found ← walk maxFiles maxDepth listing [] 0 (0, [])
    pure (found.2.insertionSort fun a b => a.path ≤ b.path)

def scanVault (vault : Vault) : Except ScanError (List FileSig) :=
  scanVaultWithLimits maxFiles maxDepth vault

def isManifestPath (rel : String) : Bool :=
  rel = syncPrivateDir || (syncPrivateDir ++ "/").toList.isPrefixOf rel.toList

/-- What the remote listing makes of a path that the backend reports. -/
def listedAs (root path : String) : Option String :=
  (relativeTo root path).filter fun rel => !isManifestPath rel && !isOutOfScope rel

/-! What the tree holds, and what the walk reaches of it. -/

namespace Listing

/-- The regular files that are reached without passing through a symlink. -/
def regular : Listing → List (List FileName)
  | nil => []
  | file name _ rest => (name.map fun name => [name]).toList ++ regular rest
  | dir name inside rest =>
    (match name with
      | none => []
      | some name => (regular inside).map (name :: ·)) ++ regular rest
  | symlink rest | other rest | fault _ rest => regular rest

/-- Those of them that no skipped directory is passed on the way to. -/
def reached : Listing → List (List FileName)
  | nil => []
  | file name _ rest => (name.map fun name => [name]).toList ++ reached rest
  | dir name inside rest =>
    (match name with
      | none => []
      | some name => if isScanSkipDir name then [] else (reached inside).map (name :: ·)) ++
      reached rest
  | symlink rest | other rest | fault _ rest => reached rest

/-- Nothing that the walk meets fails, and its directories are not nested too deep. -/
def Scannable (maxDepth : ℕ) : Listing → ℕ → Prop
  | nil, _ => True
  | file name _ rest, depth => name.isSome ∧ Scannable maxDepth rest depth
  | dir name inside rest, depth =>
    (match name with
      | none => False
      | some name => isScanSkipDir name = false →
          depth < maxDepth ∧ Scannable maxDepth inside (depth + 1)) ∧ Scannable maxDepth rest depth
  | symlink rest, depth | other rest, depth => Scannable maxDepth rest depth
  | fault _ _, _ => False

instance decidableScannable (maxDepth : ℕ) :
    (listing : Listing) → (depth : ℕ) → Decidable (listing.Scannable maxDepth depth)
  | nil, _ => .isTrue trivial
  | file _ _ rest, depth =>
    @instDecidableAnd _ _ inferInstance (decidableScannable maxDepth rest depth)
  | dir none _ _, _ => .isFalse fun h => h.1
  | dir (some _) inside rest, depth =>
    @instDecidableAnd _ _
      (@instDecidableForall _ _ inferInstance
        (@instDecidableAnd _ _ inferInstance (decidableScannable maxDepth inside (depth + 1))))
      (decidableScannable maxDepth rest depth)
  | symlink rest, depth => decidableScannable maxDepth rest depth
  | other rest, depth => decidableScannable maxDepth rest depth
  | fault _ _, _ => .isFalse id

/-- No file that is reached is called like a skipped directory, and no name on the way to one has a
backslash. -/
def Plain (listing : Listing) : Prop :=
  ∀ names ∈ listing.reached, (∀ name ∈ names.getLast?, isScanSkipDir name = false) ∧
    ∀ name ∈ names, '\\' ∉ name.val

instance (listing : Listing) : Decidable listing.Plain :=
  inferInstanceAs (Decidable (∀ names ∈ listing.reached, _ ∧ _))

lemma ne_nil_of_mem_regular {listing : Listing} {names : List FileName}
    (h : names ∈ listing.regular) : names ≠ [] := by
  induction listing generalizing names with
  | nil => cases h
  | file name content rest ih =>
    rcases List.mem_append.mp h with h | h
    · obtain ⟨name, -, rfl⟩ := Option.map_eq_some_iff.mp (Option.mem_toList.mp h)
      exact List.cons_ne_nil _ _
    · exact ih h
  | dir name inside rest ihinside ih =>
    rcases List.mem_append.mp h with h | h
    · cases name with
      | none => cases h
      | some name =>
        obtain ⟨_, -, rfl⟩ := List.mem_map.mp h
        exact List.cons_ne_nil _ _
    · exact ih h
  | symlink rest ih => exact ih h
  | other rest ih => exact ih h
  | fault error rest ih => exact ih h

lemma mem_reached {listing : Listing} {names : List FileName} :
    names ∈ listing.reached ↔
      names ∈ listing.regular ∧ ∀ name ∈ names.dropLast, isScanSkipDir name = false := by
  induction listing generalizing names with
  | nil => simp [reached, regular]
  | file name content rest ih =>
    unfold reached regular
    rw [List.mem_append, List.mem_append, ih, or_and_right]
    refine or_congr_left (iff_self_and.mpr fun h => ?_)
    obtain ⟨name, -, rfl⟩ := Option.map_eq_some_iff.mp (Option.mem_toList.mp h)
    simp
  | dir name inside rest ihinside ih =>
    unfold reached regular
    rw [List.mem_append, List.mem_append, ih, or_and_right]
    refine or_congr_left ?_
    cases name with
    | none => simp
    | some name =>
      have hcons : ∀ below ∈ inside.regular,
          (name :: below).dropLast = name :: below.dropLast := fun below hbelow =>
        List.dropLast_cons_of_ne_nil (ne_nil_of_mem_regular hbelow)
      dsimp only
      constructor
      · intro h
        split at h
        · cases h
        · next hskip =>
          obtain ⟨below, hbelow, rfl⟩ := List.mem_map.mp h
          obtain ⟨hregular, hdirs⟩ := ihinside.mp hbelow
          refine ⟨List.mem_map_of_mem hregular, ?_⟩
          rw [hcons below hregular]
          exact List.forall_mem_cons.mpr ⟨by simpa using hskip, hdirs⟩
      · rintro ⟨h, hdirs⟩
        obtain ⟨below, hbelow, rfl⟩ := List.mem_map.mp h
        rw [hcons below hbelow] at hdirs
        obtain ⟨hname, hrest⟩ := List.forall_mem_cons.mp hdirs
        rw [if_neg (by simp [hname])]
        exact List.mem_map_of_mem (ihinside.mpr ⟨hbelow, hrest⟩)
  | symlink rest ih => exact ih
  | other rest ih => exact ih
  | fault error rest ih => exact ih

end Listing

open Listing

section Scan
variable {limit deepest : ℕ} {listing : Listing} {names : List FileName}

/-- Within the limits the walk adds the files it reaches, and nothing else. -/
lemma walk_ok {dir : List FileName} {depth : ℕ} {found : ℕ × List FileSig}
    (h : listing.Scannable deepest depth) (hfiles : found.1 + listing.reached.length ≤ limit) :
    ∃ sigs, walk limit deepest listing dir depth found =
        .ok (found.1 + listing.reached.length, found.2 ++ sigs) ∧
      sigs.map FileSig.path = listing.reached.map fun names => joinPath (dir ++ names) := by
  induction listing generalizing dir depth found with
  | nil => exact ⟨[], by simp [walk, reached], rfl⟩
  | symlink rest ih => exact ih h hfiles
  | other rest ih => exact ih h hfiles
  | fault error rest => exact h.elim
  | file name content rest ih =>
    obtain ⟨hsome, hrest⟩ := h
    obtain ⟨name, rfl⟩ := Option.isSome_iff_exists.mp hsome
    have hcount : (file (some name) content rest).reached.length = rest.reached.length + 1 := by
      simp [reached, Nat.add_comm]
    rw [hcount] at hfiles ⊢
    obtain ⟨sigs, hwalk, hpaths⟩ := @ih dir depth
      (found.1 + 1, found.2 ++ [signatureOf (dir ++ [name]) content]) hrest (by dsimp only; omega)
    refine ⟨signatureOf (dir ++ [name]) content :: sigs, ?_, ?_⟩
    · rw [walk, if_neg (by omega), hwalk, List.append_assoc]
      simp [Nat.add_assoc, Nat.add_comm 1]
    · rw [List.map_cons, hpaths]
      rfl
  | dir name inside rest ihinside ih =>
    obtain ⟨hdir, hrest⟩ := h
    cases name with
    | none => exact hdir.elim
    | some name =>
      by_cases hskip : isScanSkipDir name.val = true
      · have hreached : (Listing.dir (some name) inside rest).reached = rest.reached := by
          simp [reached, hskip]
        rw [hreached] at hfiles ⊢
        rw [walk, if_pos hskip]
        exact ih hrest hfiles
      · obtain ⟨hdepth, hinside⟩ := hdir (by simpa using hskip)
        have hreached : (Listing.dir (some name) inside rest).reached =
            inside.reached.map (name :: ·) ++ rest.reached := by
          simp [reached, hskip]
        rw [hreached, List.length_append, List.length_map] at hfiles ⊢
        obtain ⟨first, hfirst, hfirstPaths⟩ := @ihinside (dir ++ [name]) (depth + 1) found
          hinside (by omega)
        obtain ⟨second, hsecond, hsecondPaths⟩ := @ih dir depth
          (found.1 + inside.reached.length, found.2 ++ first) hrest (by dsimp only; omega)
        refine ⟨first ++ second, ?_, ?_⟩
        · rw [walk, if_neg hskip, if_neg (by omega), hfirst]
          show walk limit deepest rest dir depth _ = _
          rw [hsecond, List.append_assoc, Nat.add_assoc]
        · rw [List.map_append, List.map_append, hfirstPaths, hsecondPaths, List.map_map]
          simp

lemma scan_ok (h : listing.Scannable deepest 0) (hfiles : listing.reached.length ≤ limit) :
    ∃ sigs, scanVaultWithLimits limit deepest (.directory listing) = .ok sigs ∧
      ∀ path, path ∈ sigs.map FileSig.path ↔ ∃ names ∈ listing.reached, path = joinPath names := by
  obtain ⟨sigs, hwalk, hpaths⟩ := @walk_ok limit deepest listing [] 0 (0, []) h
    (by simpa using hfiles)
  refine ⟨_, by rw [scanVaultWithLimits, hwalk]; rfl, fun path => ?_⟩
  have hperm := (List.perm_insertionSort (fun a b : FileSig => a.path ≤ b.path) sigs).map
    FileSig.path
  rw [List.nil_append, hperm.mem_iff, hpaths, List.mem_map]
  simp only [List.nil_append, eq_comm]

/-! The path of a file on its own. -/

lemma parts_joinPath (hne : names ≠ []) : parts (joinPath names) = names.map Subtype.val := by
  refine parts_join (List.map_eq_nil_iff.not.mpr hne) fun name hname => ?_
  obtain ⟨name, -, rfl⟩ := List.mem_map.mp hname
  exact name.2.2.2.2

lemma isOutOfScope_joinPath (hne : names ≠ []) :
    isOutOfScope (joinPath names) = names.any fun name => isScanSkipDir name.val := by
  rw [isOutOfScope, parts_joinPath hne, List.any_map]
  rfl

lemma checkRel_joinPath (hne : names ≠ []) :
    checkRel (joinPath names) = .ok () ↔ ∀ name ∈ names, '\\' ∉ name.val := by
  rw [checkRel_eq_ok, parts_joinPath hne, List.forall_mem_map]
  refine forall₂_congr fun name _ => ?_
  obtain ⟨hempty, hdot, hdots, -⟩ := name.2
  simp [isUnsafePart, hempty, hdot, hdots]

lemma isOutOfScope_of_manifest {rel : String} (h : isManifestPath rel = true) :
    isOutOfScope rel = true := by
  have hskip : isScanSkipDir syncPrivateDir.toList = true := by decide
  have hparts : syncPrivateDir.toList ∈ parts rel := by
    rcases Bool.or_eq_true_iff.mp h with h | h
    · rw [decide_eq_true_iff.mp h]
      decide
    · obtain ⟨rest, hrest⟩ := List.isPrefixOf_iff_prefix.mp h
      have hrel : rel = syncPrivateDir ++ "/" ++ String.ofList rest := by
        refine String.toList_inj.mp (hrest.symm.trans ?_)
        simp only [String.toList_append, String.toList_ofList]
      rw [hrel, parts_append]
      exact List.mem_append_left _ (by decide)
  exact List.any_eq_true.mpr ⟨_, hparts, hskip⟩

lemma listedAs_joinUnder (root : String) {rel : String} (hsafe : checkRel rel = .ok ()) :
    listedAs root (joinUnder root rel) = some rel ↔ isOutOfScope rel = false := by
  unfold listedAs
  rw [relativeTo_joinUnder root hsafe, Option.filter_some]
  cases hscope : isOutOfScope rel with
  | true => simp
  | false =>
    have hmanifest : isManifestPath rel = false := by
      by_contra h
      rw [isOutOfScope_of_manifest (by simpa using h)] at hscope
      cases hscope
    simp [hmanifest]

lemma ofString_ok {rel : String} : (∃ p, RelPath.ofString rel = .ok p) ↔
    isOutOfScope rel = false ∧ checkRel rel = .ok () := by
  have hsafe : isSafe rel = true ↔ (parts rel).any isUnsafePart = false := by
    simp [isSafe]
  unfold RelPath.ofString checkRel
  by_cases hscope : isOutOfScope rel = true
  · simp [hscope]
  · by_cases hempty : rel = ""
    · subst hempty
      simp [hscope]
    · by_cases hparts : (parts rel).any isUnsafePart = true
      · simp [hempty, hsafe, hparts, hscope]
      · simp [hempty, hsafe, hparts, hscope]

/-- One scope on both sides: the scan gives the regular files that are in scope, and each of their
paths is kept by the remote listing and accepted for reads and writes. -/
structure OneScope (root : String) (listing : Listing) (sigs : List FileSig) : Prop where
  exact : ∀ path, path ∈ sigs.map FileSig.path ↔
    ∃ names ∈ listing.regular, path = joinPath names ∧ isOutOfScope path = false
  listed : ∀ path ∈ sigs.map FileSig.path,
    listedAs (normalizeRoot root) (joinUnder (normalizeRoot root) path) = some path
  accepted : ∀ path ∈ sigs.map FileSig.path, ∃ rel, RelPath.ofString path = .ok rel

/-- Of a path the names before the last are directories, and the last is the file. -/
lemma any_skip_eq (hdirs : ∀ name ∈ names.dropLast, isScanSkipDir name.val = false) :
    (names.any fun name => isScanSkipDir name.val) = false ↔
      ∀ name ∈ names.getLast?, isScanSkipDir name.val = false := by
  cases names using List.reverseRecOn with
  | nil => simp
  | append_singleton dirs file =>
    rw [List.dropLast_concat] at hdirs
    rw [List.any_append, List.any_eq_false.mpr fun name hname => by simp [hdirs name hname]]
    simp

/-- Within the limits the scan succeeds, and its scope is that of the other side if and only if no
file it reaches is called like a skipped directory and no name on the way has a backslash. -/
theorem scan_oneScope_iff (root : String) (listing : Listing) (limit deepest : ℕ)
    (h : listing.Scannable deepest 0) (hfiles : listing.reached.length ≤ limit) :
    ∃ sigs, scanVaultWithLimits limit deepest (.directory listing) = .ok sigs ∧
      (OneScope root listing sigs ↔ listing.Plain) := by
  obtain ⟨sigs, hscan, hpaths⟩ := scan_ok h hfiles
  have hnames : ∀ names ∈ listing.reached, names ≠ [] ∧
      (isOutOfScope (joinPath names) = false ↔
        ∀ name ∈ names.getLast?, isScanSkipDir name.val = false) := by
    intro names hnames
    obtain ⟨hregular, hdirs⟩ := mem_reached.mp hnames
    have hne := ne_nil_of_mem_regular hregular
    rw [isOutOfScope_joinPath hne, any_skip_eq hdirs]
    exact ⟨hne, Iff.rfl⟩
  refine ⟨sigs, hscan, fun hscope names hreached => ?_, fun hplain => ⟨fun path => ?_, ?_, ?_⟩⟩
  · have hpath := (hpaths (joinPath names)).mpr ⟨names, hreached, rfl⟩
    obtain ⟨hin, hsafe⟩ := ofString_ok.mp (hscope.accepted _ hpath)
    obtain ⟨hne, hlast⟩ := hnames names hreached
    exact ⟨hlast.mp hin, (checkRel_joinPath hne).mp hsafe⟩
  · rw [hpaths]
    constructor
    · rintro ⟨names, hreached, rfl⟩
      exact ⟨names, (mem_reached.mp hreached).1, rfl,
        (hnames names hreached).2.mpr (hplain names hreached).1⟩
    · -- what is in scope has no skipped directory on its way
      rintro ⟨names, hregular, rfl, hin⟩
      refine ⟨names, mem_reached.mpr ⟨hregular, fun name hname => ?_⟩, rfl⟩
      rw [isOutOfScope_joinPath (ne_nil_of_mem_regular hregular), List.any_eq_false] at hin
      simpa using hin name (List.dropLast_subset names hname)
  · intro path hpath
    obtain ⟨names, hreached, rfl⟩ := (hpaths path).mp hpath
    obtain ⟨hne, hlast⟩ := hnames names hreached
    obtain ⟨hfile, hsafe⟩ := hplain names hreached
    exact (listedAs_joinUnder _ ((checkRel_joinPath hne).mpr hsafe)).mpr (hlast.mpr hfile)
  · intro path hpath
    obtain ⟨names, hreached, rfl⟩ := (hpaths path).mp hpath
    obtain ⟨hne, hlast⟩ := hnames names hreached
    obtain ⟨hfile, hsafe⟩ := hplain names hreached
    exact ofString_ok.mpr ⟨hlast.mpr hfile, (checkRel_joinPath hne).mpr hsafe⟩

end Scan

def nameOf (text : String) : Option FileName :=
  if h : text.toList ≠ [] ∧ text.toList ≠ ['.'] ∧ text.toList ≠ ['.', '.'] ∧ '/' ∉ text.toList then
    some ⟨text.toList, h⟩
  else none

/-- A vault with notes, a repository and a link. -/
def plainVault : Listing :=
  .file (nameOf "a.md") ⟨0, 3, 1⟩ (.dir (nameOf ".git") (.file (nameOf "HEAD") ⟨0, 3, 2⟩ .nil)
    (.symlink (.dir (nameOf "b") (.file (nameOf "c.md") ⟨0, 3, 3⟩ .nil) .nil)))

theorem scan_oneScope_plainVault :
    ∃ sigs, scanVaultWithLimits maxFiles maxDepth (.directory plainVault) = .ok sigs ∧
      OneScope "/notes" plainVault sigs := by
  obtain ⟨sigs, hscan, hscope⟩ := scan_oneScope_iff "/notes" plainVault maxFiles maxDepth
    (by decide +kernel) (by decide +kernel)
  exact ⟨sigs, hscan, hscope.mpr (by decide +kernel)⟩

/-- A note without an ending that is called `build`. -/
def buildVault : Listing := .file (nameOf "build") ⟨0, 3, 1⟩ .nil

/-- It is scanned, and out of scope for the remote listing and for every write. -/
theorem scan_not_oneScope :
    scanVault (.directory buildVault) = .ok [⟨"build", 0, 3, .content 1⟩] ∧
    listedAs (normalizeRoot "/notes") (joinUnder (normalizeRoot "/notes") "build") = none ∧
    ¬OneScope "/notes" buildVault [⟨"build", 0, 3, .content 1⟩] := by
  have hlisted : listedAs (normalizeRoot "/notes") (joinUnder (normalizeRoot "/notes") "build") =
      none := by
    decide +kernel
  refine ⟨by decide +kernel, hlisted, fun h => ?_⟩
  cases hlisted.symm.trans (h.listed "build" (by decide))

end Aeroric.SyncScan
