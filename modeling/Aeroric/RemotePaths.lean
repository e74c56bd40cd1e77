import Aeroric.Sse

/-! The path of a file that is to be changed on another machine. -/
namespace Aeroric.FileSearch
open Sse (trim)

def isAbsolute (path : List Char) : Bool := ['/'].isPrefixOf path

def hasDots (path : List Char) : Bool :=
  (path.splitOn '/').any fun component => component = ['.'] || component = ['.', '.']

def trimEndSlashes (path : List Char) : List Char := path.rdropWhile (· = '/')

def normalizeRemoteRoot (remoteProjectPath : List Char) : Except String (List Char) :=
  let trimmed := trim remoteProjectPath
  if !isAbsolute trimmed || trimmed.contains '\x00' then
    .error "Remote project path must be absolute"
  else if hasDots trimmed then
    .error "Remote project path cannot contain . or .. components"
  else if trimmed = ['/'] then .ok ['/']
  else .ok (trimEndSlashes trimmed)

def isProtected (component : List Char) : Bool :=
  component = ".git".toList || component = ".aeroric".toList

def validateRemoteReplacementPath (remoteRoot remotePath : List Char) : Except String (List Char) :=
  if !isAbsolute remotePath then .error "Remote replacement path must be absolute"
  else if remotePath.contains '\x00' || hasDots remotePath then
    .error "Remote replacement path must stay inside the project root"
  else
    match normalizeRemoteRoot remoteRoot with
    | .error message => .error message
    | .ok root =>
      let path := if remotePath = ['/'] then ['/'] else trimEndSlashes remotePath
      if path = root then .error "Cannot replace the remote project root"
      else
        let rootPrefix := trimEndSlashes root ++ ['/']
        if !rootPrefix.isPrefixOf path then
          .error "Remote replacement path is outside the project root"
        else
          let first := ((path.drop rootPrefix.length).splitOn '/').head?.getD []
          if isProtected first then
            .error ("Cannot modify protected remote directory: " ++ String.ofList first)
          else .ok path

/-! What a path names: each component is a step from the directory before it. -/

def walk (here : List (List Char)) (component : List Char) : List (List Char) :=
  if component = [] ∨ component = ['.'] then here
  else if component = ['.', '.'] then here.dropLast
  else here ++ [component]

/-- The file that a path names, as the steps that lead to it from the top. -/
def fileOf (path : List Char) : List (List Char) := (path.splitOn '/').foldl walk []

lemma fileOf_append_slash (path relative : List Char) :
    fileOf (path ++ '/' :: relative) = (relative.splitOn '/').foldl walk (fileOf path) := by
  unfold fileOf
  rw [List.splitOn_append_cons_self, List.foldl_append]

lemma fileOf_trimEndSlashes (path : List Char) : fileOf (trimEndSlashes path) = fileOf path := by
  induction path using List.reverseRecOn with
  | nil => rfl
  | append_singleton path c ih =>
    unfold trimEndSlashes at ih ⊢
    by_cases hc : c = '/'
    · subst hc
      rw [List.rdropWhile_concat_pos _ _ _ (by simp), ih, fileOf_append_slash]
      simp [walk]
    · rw [List.rdropWhile_concat_neg _ _ _ (by simpa using hc)]

lemma walk_plain {components : List (List Char)}
    (h : ∀ c ∈ components, c ≠ ['.'] ∧ c ≠ ['.', '.']) (here : List (List Char)) :
    components.foldl walk here = here ++ components.filter (· ≠ []) := by
  induction components generalizing here with
  | nil => simp
  | cons c components ih =>
    obtain ⟨⟨hdot, hdots⟩, h⟩ := List.forall_mem_cons.mp h
    rw [List.foldl_cons, ih h]
    by_cases hc : c = []
    · simp [walk, hc]
    · simp [walk, hc, hdot, hdots]

lemma mem_splitOn_append {path relative component : List Char}
    (h : component ∈ relative.splitOn '/') : component ∈ (path ++ '/' :: relative).splitOn '/' := by
  rw [List.splitOn_append_cons_self]
  exact List.mem_append_right _ h

lemma plain_of_hasDots {path : List Char} (h : hasDots path = false) :
    ∀ c ∈ path.splitOn '/', c ≠ ['.'] ∧ c ≠ ['.', '.'] := by
  intro c hc
  have := List.any_eq_false.mp h c hc
  simpa using this

lemma mem_splitOn_trimEndSlashes {path component : List Char}
    (h : component ∈ (trimEndSlashes path).splitOn '/') : component ∈ path.splitOn '/' := by
  induction path using List.reverseRecOn with
  | nil => exact h
  | append_singleton path c ih =>
    unfold trimEndSlashes at ih h
    by_cases hc : c = '/'
    · subst hc
      rw [List.rdropWhile_concat_pos _ _ _ (by simp)] at h
      rw [List.splitOn_append_cons_self]
      exact List.mem_append_left _ (ih h)
    · rwa [List.rdropWhile_concat_neg _ _ _ (by simpa using hc)] at h

lemma trimEndSlashes_idem (path : List Char) :
    trimEndSlashes (trimEndSlashes path) = trimEndSlashes path :=
  List.rdropWhile_idempotent _ _

/-- What both validators ask of a path before they look at its place. -/
def wellFormed (path : List Char) : Bool :=
  isAbsolute path && !path.contains '\x00' && !hasDots path

def steps (path : List Char) : List (List Char) := (path.splitOn '/').filter (· ≠ [])

lemma steps_slash (path : List Char) : steps ('/' :: path) = steps path := by
  simp [steps, List.splitOn_cons_eq_if_modifyHead]

lemma steps_ne_nil {path : List Char} (hne : path ≠ []) (hend : trimEndSlashes path = path) :
    steps path ≠ [] := by
  induction path with
  | nil => exact absurd rfl hne
  | cons c path ih =>
    by_cases hc : c = '/'
    · subst hc
      rw [steps_slash]
      refine ih ?_ ?_
      · rintro rfl
        simp [trimEndSlashes] at hend
      · rw [trimEndSlashes, List.rdropWhile_eq_self_iff] at hend ⊢
        intro hpath
        simpa [List.getLast_cons hpath] using hend (by simp)
    · obtain ⟨head, rest, hrest⟩ := List.exists_cons_of_ne_nil (List.splitOn_ne_nil '/' path)
      simp [steps, List.splitOn_cons_eq_if_modifyHead, hc, hrest]

lemma steps_head {path first : List Char} {rest : List (List Char)} (hsteps : steps path = first :: rest)
    (hpath : path.head? ≠ some '/') : (path.splitOn '/').head?.getD [] = first := by
  cases path with
  | nil => simp [steps] at hsteps
  | cons c path =>
    have hc : c ≠ '/' := by simpa using hpath
    obtain ⟨head, more, hmore⟩ := List.exists_cons_of_ne_nil (List.splitOn_ne_nil '/' path)
    rw [steps] at hsteps
    rw [List.splitOn_cons_eq_if_modifyHead, if_neg (by simpa using hc), hmore] at hsteps ⊢
    simpa using (List.cons.inj hsteps).1

lemma normalizeRemoteRoot_eq (remoteRoot : List Char) :
    (wellFormed (trim remoteRoot) = true ∧ normalizeRemoteRoot remoteRoot =
        .ok (if trim remoteRoot = ['/'] then ['/'] else trimEndSlashes (trim remoteRoot))) ∨
      wellFormed (trim remoteRoot) = false ∧
        ∃ message, normalizeRemoteRoot remoteRoot = .error message := by
  unfold normalizeRemoteRoot wellFormed
  dsimp only
  cases isAbsolute (trim remoteRoot) <;> cases (trim remoteRoot).contains '\x00' <;>
    cases hasDots (trim remoteRoot) <;> simp
  split <;> rfl

/-- The validator accepts a well formed path that is not the root as written, that begins with the
root and a slash, and that does not go on with a protected name. -/
lemma validate_eq_ok {remoteRoot remotePath path : List Char} :
    validateRemoteReplacementPath remoteRoot remotePath = .ok path ↔
      wellFormed (trim remoteRoot) = true ∧ wellFormed remotePath = true ∧
      path = (if remotePath = ['/'] then ['/'] else trimEndSlashes remotePath) ∧
      path ≠ (if trim remoteRoot = ['/'] then ['/'] else trimEndSlashes (trim remoteRoot)) ∧
      ∃ relative, path = trimEndSlashes (trim remoteRoot) ++ '/' :: relative ∧
        isProtected ((relative.splitOn '/').head?.getD []) = false := by
  have hcut : trimEndSlashes (if trim remoteRoot = ['/'] then ['/'] else
      trimEndSlashes (trim remoteRoot)) = trimEndSlashes (trim remoteRoot) := by
    split
    · next htop => rw [htop]
    · exact trimEndSlashes_idem _
  have hplace : ∀ shown : List Char, (∃ relative,
      shown = trimEndSlashes (trim remoteRoot) ++ '/' :: relative ∧
      isProtected ((relative.splitOn '/').head?.getD []) = false) ↔
      (trimEndSlashes (trim remoteRoot) ++ ['/']).isPrefixOf shown = true ∧
        isProtected (((shown.drop (trimEndSlashes (trim remoteRoot) ++ ['/']).length).splitOn
          '/').head?.getD []) = false := by
    intro shown
    rw [List.isPrefixOf_iff_prefix]
    constructor
    · rintro ⟨relative, rfl, hfirst⟩
      rw [List.append_cons _ '/' relative, List.drop_left]
      exact ⟨List.prefix_append _ _, hfirst⟩
    · rintro ⟨⟨relative, rfl⟩, hfirst⟩
      rw [List.drop_left] at hfirst
      exact ⟨relative, (List.append_cons _ _ _).symm, hfirst⟩
  unfold validateRemoteReplacementPath
  obtain ⟨hroot, hroot'⟩ | ⟨hroot, message, hroot'⟩ := normalizeRemoteRoot_eq remoteRoot
  · rw [hroot', hroot]
    dsimp only
    rw [hcut]
    generalize (if remotePath = ['/'] then ['/'] else trimEndSlashes remotePath) = shown
    generalize (if trim remoteRoot = ['/'] then ['/'] else trimEndSlashes (trim remoteRoot)) = root
    constructor
    · intro h
      split_ifs at h with habsolute hplain hsame hbelow hfirst
      cases h
      refine ⟨rfl, ?_, rfl, hsame, (hplace _).mpr ⟨by simpa using hbelow, by simpa using hfirst⟩⟩
      simpa [wellFormed, and_assoc] using And.intro habsolute hplain
    · rintro ⟨-, hpath, rfl, hsame, hplaced⟩
      obtain ⟨hbelow, hfirst⟩ := (hplace _).mp hplaced
      simp only [wellFormed, Bool.and_eq_true, Bool.not_eq_true'] at hpath
      rw [hpath.1.1, hpath.1.2, hpath.2, hbelow, hfirst, if_neg hsame]
      rfl
  · rw [hroot', hroot]
    constructor
    · intro h
      split_ifs at h
    · rintro ⟨h, -⟩
      cases h

/-- What acceptance promises: the path and the one given back name one file below the root, with a
first step below it that is not protected. -/
def Kept (remoteRoot remotePath path : List Char) : Prop :=
  isAbsolute (trim remoteRoot) = true ∧ isAbsolute remotePath = true ∧ isAbsolute path = true ∧
    fileOf path = fileOf remotePath ∧
    ∃ first rest, fileOf remotePath = fileOf (trim remoteRoot) ++ first :: rest ∧
      isProtected first = false

/-- The paths that slip through: the top itself under a root of several slashes, and a protected name
behind two or more slashes. -/
def SlipsThrough (remoteRoot remotePath : List Char) : Prop :=
  wellFormed (trim remoteRoot) = true ∧ wellFormed remotePath = true ∧
    (remotePath = ['/'] ∧ trimEndSlashes (trim remoteRoot) = [] ∧ trim remoteRoot ≠ ['/'] ∨
      ∃ relative first rest,
        trimEndSlashes remotePath = trimEndSlashes (trim remoteRoot) ++ '/' :: '/' :: relative ∧
        steps relative = first :: rest ∧ isProtected first = true)

lemma isAbsolute_append_slash {root : List Char} (h : isAbsolute root = true) (relative : List Char) :
    isAbsolute (trimEndSlashes root ++ '/' :: relative) = true := by
  cases hroot : trimEndSlashes root with
  | nil => rfl
  | cons d text =>
    obtain ⟨more, hmore⟩ : d :: text <+: root := hroot ▸ List.rdropWhile_prefix _ _
    rw [← hmore] at h
    simpa [isAbsolute] using h

lemma fileOf_below {root relative : List Char}
    (h : hasDots (trimEndSlashes root ++ '/' :: relative) = false) :
    fileOf (trimEndSlashes root ++ '/' :: relative) = fileOf root ++ steps relative := by
  rw [fileOf_append_slash, fileOf_trimEndSlashes,
    walk_plain fun c hc => plain_of_hasDots h c (mem_splitOn_append hc)]
  rfl

lemma hasDots_trimEndSlashes {path : List Char} (h : hasDots path = false) :
    hasDots (trimEndSlashes path) = false := by
  rw [hasDots, List.any_eq_false] at h ⊢
  exact fun c hc => h c (mem_splitOn_trimEndSlashes hc)

/-- A path without slashes at its end goes on below the root, and does not end in a slash there. -/
lemma below_of_trimmed {root path relative : List Char} (hend : trimEndSlashes path = path)
    (hbelow : path = trimEndSlashes root ++ '/' :: relative) :
    relative ≠ [] ∧ trimEndSlashes relative = relative := by
  constructor
  · rintro rfl
    rw [hbelow, trimEndSlashes, List.rdropWhile_concat_pos _ _ _ (by simp), ← trimEndSlashes,
      trimEndSlashes_idem] at hend
    simp at hend
  · rw [trimEndSlashes, List.rdropWhile_eq_self_iff] at hend ⊢
    intro hne
    have := hend (by simp [hbelow])
    simp only [hbelow] at this
    rwa [List.getLast_append_of_ne_nil _ (by simp), List.getLast_cons hne] at this

/-- The top, where the root is written with several slashes, and what hides behind two slashes are
accepted all the same. -/
lemma SlipsThrough.not_kept {remoteRoot remotePath : List Char} (h : SlipsThrough remoteRoot remotePath) :
    ∃ path, validateRemoteReplacementPath remoteRoot remotePath = .ok path ∧
      ¬Kept remoteRoot remotePath path := by
  obtain ⟨hroot, hpath, ⟨rfl, htop, hone⟩ | ⟨relative, first, rest, hshown, hsteps, hfirst⟩⟩ := h
  · refine ⟨['/'], validate_eq_ok.mpr
      ⟨hroot, hpath, rfl, by simp [hone, htop], [], by simp [htop], rfl⟩, ?_⟩
    -- no step leads to the top
    rintro ⟨-, -, -, -, first, rest, hfile, -⟩
    rw [show fileOf ['/'] = [] from rfl] at hfile
    simp at hfile
  · have hnotTop : remotePath ≠ ['/'] := by
      rintro rfl
      rw [show trimEndSlashes ['/'] = [] from rfl] at hshown
      simp at hshown
    have hdots : hasDots remotePath = false := by
      simp only [wellFormed, Bool.and_eq_true, Bool.not_eq_true'] at hpath
      exact hpath.2
    refine ⟨trimEndSlashes remotePath, validate_eq_ok.mpr
      ⟨hroot, hpath, (if_neg hnotTop).symm, ?_, '/' :: relative, hshown, ?_⟩, ?_⟩
    · rw [hshown]
      intro heq
      have := congrArg List.length heq
      split at this <;> simp only [List.length_append, List.length_cons, List.length_nil] at this <;>
        omega
    · -- the component between the two slashes is empty, so nothing is found to be protected
      simp [List.splitOn_cons_eq_if_modifyHead]
      rfl
    · rintro ⟨-, -, -, hsame, other, more, hfile, hother⟩
      rw [← hsame, hshown, fileOf_below (hshown ▸ hasDots_trimEndSlashes hdots), steps_slash,
        hsteps, List.append_cancel_left_eq] at hfile
      rw [← (List.cons.inj hfile).1, hfirst] at hother
      cases hother

lemma kept_of_accepted {remoteRoot remotePath path : List Char}
    (hslips : ¬SlipsThrough remoteRoot remotePath)
    (h : validateRemoteReplacementPath remoteRoot remotePath = .ok path) :
    Kept remoteRoot remotePath path := by
  obtain ⟨hroot, hpath, hshown, hother, relative, hbelow, hprotected⟩ := validate_eq_ok.mp h
  have hforms := And.intro hroot hpath
  simp only [wellFormed, Bool.and_eq_true, Bool.not_eq_true'] at hforms
  obtain ⟨⟨⟨habsolute, -⟩, -⟩, ⟨habsolute', -⟩, hdots⟩ := hforms
  have hnotTop : remotePath ≠ ['/'] := by
    rintro rfl
    rw [if_pos rfl] at hshown
    rw [hshown, eq_comm, List.append_eq_singleton_iff] at hbelow
    obtain ⟨htop, -⟩ | ⟨-, h⟩ := hbelow
    · refine hslips ⟨hroot, hpath, .inl ⟨rfl, htop, fun hone => hother ?_⟩⟩
      rw [hshown, if_pos hone]
    · cases h
  rw [if_neg hnotTop] at hshown
  have hend : trimEndSlashes path = path := by rw [hshown, trimEndSlashes_idem]
  obtain ⟨hrelative, hlast⟩ := below_of_trimmed hend hbelow
  obtain ⟨first, rest, hsteps⟩ := List.exists_cons_of_ne_nil (steps_ne_nil hrelative hlast)
  have hsame : fileOf path = fileOf remotePath := hshown ▸ fileOf_trimEndSlashes remotePath
  have hfile : fileOf remotePath = fileOf (trim remoteRoot) ++ first :: rest := by
    rw [← hsame, hbelow, fileOf_below (hbelow ▸ hshown ▸ hasDots_trimEndSlashes hdots), hsteps]
  refine ⟨habsolute, habsolute', hbelow ▸ isAbsolute_append_slash habsolute relative, hsame,
    first, rest, hfile, ?_⟩
  by_cases hslash : relative.head? = some '/'
  · obtain ⟨more, rfl⟩ := List.head?_eq_some_iff.mp hslash
    rw [steps_slash] at hsteps
    by_contra hfirst
    exact hslips ⟨hroot, hpath, .inr
      ⟨more, first, rest, hshown ▸ hbelow, hsteps, by simpa using hfirst⟩⟩
  · rwa [steps_head hsteps hslash] at hprotected

/-- A path that is accepted names a file below the root whose first step below it is not protected,
and so does the path that is given back; only what slips through breaks this. -/
theorem accepted_below_iff (remoteRoot remotePath : List Char) :
    (∀ path, validateRemoteReplacementPath remoteRoot remotePath = .ok path →
      Kept remoteRoot remotePath path) ↔ ¬SlipsThrough remoteRoot remotePath := by
  constructor
  · intro hkept hslips
    obtain ⟨path, haccepted, hnot⟩ := hslips.not_kept
    exact hnot (hkept path haccepted)
  · exact fun hslips _ h => kept_of_accepted hslips h

/-- Two slashes after the root hide a protected directory, and a root that is written with several
slashes may be replaced itself. -/
theorem slashes_pass :
    validateRemoteReplacementPath "/r".toList "/r//.git/config".toList =
        .ok "/r//.git/config".toList ∧
      fileOf "/r//.git/config".toList = fileOf "/r".toList ++ [".git".toList, "config".toList] ∧
      validateRemoteReplacementPath "//".toList "/".toList = .ok "/".toList ∧
      fileOf "/".toList = fileOf "//".toList := by
  decide

end Aeroric.FileSearch
