import Aeroric.Sse
import Aeroric.SyncPlan

/-! Paths on the remote side of notebook sync: a relative path is joined to the configured root, and
what the backend lists is made relative to it again. -/
namespace Aeroric.NotebookSync

/-- The root as the user wrote it, without white space and slashes at its end and with one at its
front. -/
def normalizeRoot (root : String) : String :=
  let trimmed := (Sse.trim root.toList).rdropWhile (· = '/')
  if trimmed = [] then "/"
  else if trimmed.head? = some '/' then String.ofList trimmed
  else "/" ++ String.ofList trimmed

def joinUnder (root relPath : String) : String :=
  if root = "/" then "/" ++ relPath else root ++ "/" ++ relPath

def checkRel (relPath : String) : Except String Unit :=
  if relPath = "" then .error "Empty remote path"
  else if (parts relPath).any isUnsafePart then .error ("Unsafe remote path: " ++ relPath)
  else .ok ()

def resolveRemote (root relPath : String) : Except String String := do
  checkRel relPath
  pure (joinUnder root relPath)

def segments (path : String) : List (List Char) := (parts path).filter (· ≠ [])

def isUnsafeSegment (segment : List Char) : Bool :=
  segment = ['.'] || segment = ['.', '.'] || '\\' ∈ segment

/-- The path relative to the root; nothing for a path that is not below it or not safe. -/
def relativeTo (root path : String) : Option String :=
  let collapsed := segments path
  let rootParts := segments root
  if collapsed.length ≤ rootParts.length ∨ collapsed.take rootParts.length ≠ rootParts then none
  else
    let rest := collapsed.drop rootParts.length
    if rest.any isUnsafeSegment then none else some (String.ofList (['/'].intercalate rest))

/-! The parts of a path that is put together. -/

variable {root path rel : String}

lemma parts_append (a b : String) : parts (a ++ "/" ++ b) = parts a ++ parts b := by
  have hlist : (a ++ "/" ++ b).toList = a.toList ++ '/' :: b.toList := by
    simp [String.toList_append]
  unfold parts
  rw [hlist, List.splitOn_append_cons_self]

lemma parts_join {names : List (List Char)} (hne : names ≠ [])
    (hslash : ∀ name ∈ names, '/' ∉ name) :
    parts (String.ofList (['/'].intercalate names)) = names := by
  unfold parts
  rw [String.toList_ofList, List.splitOn_intercalate '/' hslash hne]

lemma join_parts (rel : String) : String.ofList (['/'].intercalate (parts rel)) = rel := by
  unfold parts
  rw [List.intercalate_splitOn, String.ofList_toList]

lemma slash_notMem_parts {part : List Char} (h : part ∈ parts rel) : '/' ∉ part :=
  Sse.notMem_splitOn '/' _ part h

lemma segments_joinUnder (root rel : String) :
    segments (joinUnder root rel) = segments root ++ segments rel := by
  unfold joinUnder segments
  split
  · next hroot =>
    have hslash : parts ("/" ++ rel) = [] :: parts rel := by
      exact (congrArg (fun front => parts (front ++ rel)) String.empty_append.symm).trans
        (parts_append "" rel)
    rw [hslash, hroot]
    rfl
  · rw [parts_append, List.filter_append]

/-! Safe paths. -/

lemma checkRel_eq_ok : checkRel rel = .ok () ↔ ∀ part ∈ parts rel, isUnsafePart part = false := by
  unfold checkRel
  split
  · next h =>
    subst h
    simp only [reduceCtorEq, false_iff, not_forall]
    exact ⟨[], by decide, by decide⟩
  · split
    · next h =>
      simp only [reduceCtorEq, false_iff, not_forall]
      obtain ⟨part, hpart, hrisky⟩ := List.any_eq_true.mp h
      exact ⟨part, hpart, by simp [hrisky]⟩
    · next h => simpa using h

lemma isUnsafePart_eq (part : List Char) :
    isUnsafePart part = (decide (part = []) || isUnsafeSegment part) := by
  simp [isUnsafePart, isUnsafeSegment, Bool.or_assoc]

lemma segments_of_safe (h : ∀ part ∈ parts rel, isUnsafePart part = false) :
    segments rel = parts rel := by
  refine List.filter_eq_self.mpr fun part hpart => ?_
  have hsafe := h part hpart
  rw [isUnsafePart_eq, Bool.or_eq_false_iff] at hsafe
  simpa using hsafe.1

lemma relativeTo_joinUnder (root : String) (h : checkRel rel = .ok ()) :
    relativeTo root (joinUnder root rel) = some rel := by
  have hsafe := checkRel_eq_ok.mp h
  have hparts := segments_of_safe hsafe
  have hpos : 0 < (parts rel).length := List.length_pos_iff.mpr (List.splitOn_ne_nil '/' _)
  have hnone : (parts rel).any isUnsafeSegment = false := by
    refine List.any_eq_false.mpr fun part hpart => ?_
    have := hsafe part hpart
    rw [isUnsafePart_eq, Bool.or_eq_false_iff] at this
    simp [this.2]
  unfold relativeTo
  rw [segments_joinUnder, hparts]
  dsimp only
  have hbelow : ¬((segments root ++ parts rel).length ≤ (segments root).length ∨
      (segments root ++ parts rel).take (segments root).length ≠ segments root) := by
    rw [List.take_left, List.length_append]
    simp only [ne_eq, not_true, or_false]
    omega
  rw [if_neg hbelow, List.drop_left, hnone]
  simp [join_parts]

lemma relativeTo_eq_some (h : relativeTo root path = some rel) :
    segments path = segments root ++ parts rel ∧ checkRel rel = .ok () := by
  unfold relativeTo at h
  dsimp only at h
  split at h
  · cases h
  next hbelow =>
  rw [not_or, not_le, not_not] at hbelow
  split at h
  · cases h
  next hsafe =>
  generalize hrest : (segments path).drop (segments root).length = rest at h hsafe
  have hsplit : segments path = segments root ++ rest := by
    rw [← hrest, ← hbelow.2, List.length_take_of_le hbelow.1.le, List.take_append_drop]
  have hne : rest ≠ [] := by
    rw [← hrest]
    simpa using hbelow.1
  have hmem : ∀ name ∈ rest, name ∈ segments path := fun name hname => by
    rw [hsplit]
    exact List.mem_append_right _ hname
  have hparts : parts rel = rest := by
    rw [← Option.some.inj h]
    refine parts_join hne fun name hname => ?_
    exact slash_notMem_parts (List.mem_of_mem_filter (hmem name hname))
  rw [hparts]
  refine ⟨hsplit, checkRel_eq_ok.mpr ?_⟩
  rw [hparts]
  intro name hname
  have hempty : name ≠ [] := by simpa using List.of_mem_filter (hmem name hname)
  have hsegment : isUnsafeSegment name = false := by
    simpa using List.any_eq_false.mp (by simpa using hsafe) name hname
  simp [isUnsafePart_eq, hempty, hsegment]

/-- A safe relative path comes back from the remote as it was. A path that the backend lists below
the root has a safe relative path, which leads to the same segments again: those of the root and
after them none that leads up. -/
theorem remote_paths_round_trip :
    (∀ root rel, checkRel rel = .ok () →
      ∃ path, resolveRemote (normalizeRoot root) rel = .ok path ∧
        relativeTo (normalizeRoot root) path = some rel) ∧
    ∀ root path rel, relativeTo root path = some rel →
      checkRel rel = .ok () ∧
      ∃ again, resolveRemote root rel = .ok again ∧ segments again = segments path ∧
        segments again = segments root ++ parts rel ∧
        ∀ part ∈ parts rel, part ≠ ['.'] ∧ part ≠ ['.', '.'] ∧ '\\' ∉ part := by
  refine ⟨fun root rel h => ?_, fun root path rel h => ?_⟩
  · refine ⟨joinUnder (normalizeRoot root) rel, ?_, relativeTo_joinUnder _ h⟩
    rw [resolveRemote, h]
    rfl
  · obtain ⟨hpath, hcheck⟩ := relativeTo_eq_some h
    have hsafe := checkRel_eq_ok.mp hcheck
    have hjoined : segments (joinUnder root rel) = segments root ++ parts rel := by
      rw [segments_joinUnder, segments_of_safe hsafe]
    refine ⟨hcheck, joinUnder root rel, ?_, hjoined.trans hpath.symm, hjoined, fun part hpart => ?_⟩
    · rw [resolveRemote, hcheck]
      rfl
    · have hpart := hsafe part hpart
      simp only [isUnsafePart, Bool.or_eq_false_iff, decide_eq_false_iff_not] at hpart
      exact ⟨hpart.1.1.2, hpart.1.2, hpart.2⟩

/-- A root written without its slash, and a path the server wrote with too many. -/
theorem remote_paths_round_trip_notes :
    (∃ path, resolveRemote (normalizeRoot " notes/ ") "a/b.md" = .ok path ∧
      relativeTo (normalizeRoot " notes/ ") path = some "a/b.md") ∧
    relativeTo "/notes" "//notes//a/b.md" = some "a/b.md" ∧ checkRel "a/b.md" = .ok () := by
  have hlisted : relativeTo "/notes" "//notes//a/b.md" = some "a/b.md" := by decide +kernel
  exact ⟨remote_paths_round_trip.1 _ _ (by decide +kernel), hlisted,
    (remote_paths_round_trip.2 _ _ _ hlisted).1⟩

end Aeroric.NotebookSync
