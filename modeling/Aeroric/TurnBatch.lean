import Aeroric.TurnRestore

/-! Undoing several turns in one go, and one at a time. -/
namespace Aeroric.Turns

/-- Undo each of these turns by itself, the newest first. They are listed the oldest first. -/
def undoEach (snapshots : Snapshots) (now : ℕ) (w : Workspace) (ids : List String) : Workspace :=
  ids.foldr (fun turnId w => (apply snapshots fineDisk now w turnId .undo false).2) w

/-- None of the turns found a directory where it left a file. -/
def FilesOnly (snapshots : Snapshots) (ms : List TurnRecord) : Prop :=
  ∀ path, ∀ c ∈ changes snapshots ms path, c.1 ≠ .directory

/-- In one go, a path comes to be what it comes to be one at a time. -/
def Agrees (snapshots : Snapshots) (now : ℕ) (w : Workspace) (turnId path : String) : Prop :=
  (apply snapshots fineDisk now w turnId .undoFrom false).2.files path =
    (undoEach snapshots now w ((covered w turnId .undoFrom).map (·.turnId))).files path

section
variable {snapshots : Snapshots} {w : Workspace} {turnId path : String} {ms s : List TurnRecord}
  {now : ℕ} {r m : TurnRecord}

lemma recorded_undoEach (h : Recorded w.turns) (ids : List String) :
    Recorded (undoEach snapshots now w ids).turns := by
  induction ids with
  | nil => exact h
  | cons turnId ids ih => exact ih.apply turnId false

lemma changes_cons : changes snapshots (m :: s) path =
    if m.changed snapshots path then sides snapshots path m :: changes snapshots s path
    else changes snapshots s path := by
  unfold changes changers
  rw [List.filter_cons]
  split <;> rfl

lemma backEach_changes (x : Node) : Patch.backEach Node.object (changes snapshots (m :: s) path) x =
    Patch.backTo Node.object (changes snapshots [m] path)
      (Patch.backEach Node.object (changes snapshots s path) x) := by
  have hnil : changes snapshots [] path = [] := rfl
  rw [changes_cons, changes_cons, hnil]
  split
  · rw [Patch.backEach_cons, Patch.backTo_cons]
    rfl
  · rw [Patch.backTo_nil]

lemma Covers.eq_filter (h : Covers snapshots w turnId .undoFrom ms) :
    ∃ r ∈ w.turns, r.turnId = turnId ∧
      ms = (w.turns.insertionSort fun r s => r.startedMs ≤ s.startedMs).filter fun s =>
        r.startedMs ≤ s.startedMs && s.state ≠ .undone := by
  obtain ⟨r, hr, hms⟩ := h.covered
  refine ⟨r, List.mem_of_find?_eq_some hr, by simpa using List.find?_some hr, ?_⟩
  unfold members at hms
  dsimp only at hms
  split at hms
  · cases hms
  · cases hms
    rfl

lemma Covers.nodup (h : Covers snapshots w turnId .undoFrom ms) (hturns : Recorded w.turns) :
    (ms.map (·.turnId)).Nodup := by
  obtain ⟨r, -, -, rfl⟩ := h.eq_filter
  refine List.Nodup.sublist (List.filter_sublist.map _) ?_
  exact ((List.perm_insertionSort _ _).map _).nodup_iff.mpr hturns.ids

lemma FilesOnly.subset (h : FilesOnly snapshots ms) (hs : s ⊆ ms) : FilesOnly snapshots s := by
  intro path c hc
  obtain ⟨m, hm, rfl⟩ := List.mem_map.mp hc
  obtain ⟨hm, hchanged⟩ := List.mem_filter.mp hm
  exact h path _ (List.mem_map_of_mem (List.mem_filter.mpr ⟨hs hm, hchanged⟩))

lemma FilesOnly.writable (h : FilesOnly snapshots ms) {action : TurnAction} (haction : action ≠ .restore)
    (files : Files) : Writable snapshots action ms files :=
  (writable_iff haction).mpr fun path first hfirst _ _ _ => h path first (List.mem_of_mem_head? hfirst)

lemma FilesOnly.backEach (h : FilesOnly snapshots ms) (files : Files) (path : String) :
    Patch.backEach Node.object (changes snapshots ms path) (.ofFile (files path)) ≠ .directory := by
  have hall := h path
  generalize changes snapshots ms path = cs at hall ⊢
  induction cs with
  | nil => exact ofFile_ne_directory _
  | cons c cs ih =>
    obtain ⟨hc, hcs⟩ := List.forall_mem_cons.mp hall
    rw [Patch.backEach_cons, Patch.back]
    split
    · exact hc
    · exact ih hcs

lemma undoEach_suffix (h : Covers snapshots w turnId .undoFrom ms) (hturns : Recorded w.turns)
    (hfiles : FilesOnly snapshots ms) (hs : s <:+ ms) :
    undoEach snapshots now w (s.map (·.turnId)) =
      ⟨fun path => (Patch.backEach Node.object (changes snapshots s path)
          (.ofFile (w.files path))).toFile,
        w.turns.map fun r => if r.turnId ∈ s.map (·.turnId) then r.marked .undo none now else r⟩ := by
  induction s with
  | nil =>
    have hid : (fun r : TurnRecord => if r.turnId ∈ ([] : List TurnRecord).map (·.turnId) then
        r.marked .undo none now else r) = id := funext fun r => if_neg (List.not_mem_nil)
    rw [hid, List.map_id]
    exact congrArg (Workspace.mk · w.turns) (funext fun path => (toFile_ofFile _).symm)
  | cons m s ih =>
    have hlater := ih ((List.suffix_cons m s).trans hs)
    have hm : m ∈ ms := hs.subset List.mem_cons_self
    have hout : m.turnId ∉ s.map (·.turnId) :=
      (List.nodup_cons.mp ((h.nodup hturns).sublist (hs.sublist.map _))).1
    have hcovers : Covers snapshots (undoEach snapshots now w (s.map (·.turnId))) m.turnId .undo
        [m] := by
      refine ⟨⟨m, ?_, ?_⟩, ?_, ?_⟩
      · refine (recorded_undoEach hturns _).find ?_
        rw [hlater]
        exact List.mem_map.mpr ⟨m, (h.mem hm).1, if_neg hout⟩
      · exact if_neg ((h.mem hm).2 (by decide))
      · rintro k hk
        rw [List.mem_singleton.mp hk]
        exact h.uncommitted m hm
      · rintro k hk
        rw [List.mem_singleton.mp hk]
        exact h.pinned m hm
    have happly : undoEach snapshots now w ((m :: s).map (·.turnId)) =
        (apply snapshots fineDisk now (undoEach snapshots now w (s.map (·.turnId))) m.turnId
          .undo false).2 := rfl
    have hone : FilesOnly snapshots [m] := hfiles.subset (by simpa using hm)
    obtain ⟨p, hundone⟩ := apply_mark now hcovers (hone.writable (by decide) _)
    rw [happly, hundone, hlater]
    dsimp only
    congr 1
    · funext path
      have hrest := (hfiles.subset ((List.suffix_cons m s).trans hs).subset).backEach w.files path
      rw [backEach_changes, written, result_undo (by decide), ofFile_toFile hrest]
    · rw [List.map_map]
      refine List.map_congr_left fun r hr => ?_
      rw [Function.comp_apply, List.map_cons]
      by_cases hid : r.turnId = m.turnId
      · rw [if_neg (hid ▸ hout), mark_mem (by simp [hid]), if_pos (by simp [hid])]
        rfl
      · have hinner : (if r.turnId ∈ s.map (·.turnId) then r.marked .undo none now else r).turnId =
            r.turnId := by
          split
          · exact marked_id _ _
          · rfl
        rw [mark_notMem (by rw [hinner]; simpa using hid)]
        simp only [List.mem_cons, hid, false_or]

lemma toFile_inj {n k : Node} (hn : n ≠ .directory) (hk : k ≠ .directory) :
    n.toFile = k.toFile ↔ n = k :=
  ⟨fun h => by rw [← ofFile_toFile hn, h, ofFile_toFile hk], congrArg _⟩

lemma agrees_iff (h : Covers snapshots w turnId .undoFrom ms) (hturns : Recorded w.turns)
    (hfiles : FilesOnly snapshots ms) :
    Agrees snapshots now w turnId path ↔
      Patch.backTo Node.object (changes snapshots ms path) (.ofFile (w.files path)) =
        Patch.backEach Node.object (changes snapshots ms path) (.ofFile (w.files path)) := by
  have hwritable : Writable snapshots .undoFrom ms w.files := hfiles.writable (by decide) w.files
  obtain ⟨p, happly⟩ := apply_mark now h hwritable
  have hpath := hwritable path
  rw [result_undo (by decide)] at hpath
  unfold Agrees
  rw [h.covered_eq, undoEach_suffix h hturns hfiles List.suffix_rfl, happly, ← toFile_inj hpath
    (hfiles.backEach w.files path)]
  dsimp only
  rw [written, result_undo (by decide)]

lemma suffix_changes {cs : List (Node × Node)}
    (hcs : cs <:+ changes snapshots ms path) (hne : cs ≠ []) :
    ∃ earlier m later, ms = earlier ++ m :: later ∧ cs = changes snapshots (m :: later) path := by
  induction ms with
  | nil => exact absurd (List.suffix_nil.mp hcs) hne
  | cons k ms ih =>
    by_cases hall : cs = changes snapshots (k :: ms) path
    · exact ⟨[], k, ms, rfl, hall⟩
    · have hlater : cs <:+ changes snapshots ms path := by
        rw [changes_cons] at hcs hall
        split at hcs
        · next hk =>
          rw [if_pos hk] at hall
          exact (List.suffix_cons_iff.mp hcs).resolve_left hall
        · exact hcs
      obtain ⟨earlier, m, later, rfl, hchanges⟩ := ih hlater
      exact ⟨k :: earlier, m, later, rfl, hchanges⟩

instance : Std.Total fun r s : TurnRecord => r.startedMs ≤ s.startedMs :=
  ⟨fun _ _ => Nat.le_total _ _⟩

instance : IsTrans TurnRecord fun r s => r.startedMs ≤ s.startedMs :=
  ⟨fun _ _ _ => Nat.le_trans⟩

lemma changes_append (earlier later : List TurnRecord) :
    changes snapshots (earlier ++ later) path =
      changes snapshots earlier path ++ changes snapshots later path := by
  unfold changes changers
  rw [List.filter_append, List.map_append]

/-- Where no two turns began at once, each covered turn began before the next. -/
lemma Covers.sorted (h : Covers snapshots w turnId .undoFrom ms)
    (hstarted : (w.turns.map (·.startedMs)).Nodup) :
    ms.Pairwise fun r s => r.startedMs < s.startedMs := by
  obtain ⟨r, -, -, rfl⟩ := h.eq_filter
  refine List.Pairwise.sublist List.filter_sublist ?_
  have hle := List.pairwise_insertionSort (fun r s : TurnRecord => r.startedMs ≤ s.startedMs) w.turns
  have hne : ((w.turns.insertionSort fun r s => r.startedMs ≤ s.startedMs).map (·.startedMs)).Nodup :=
    ((List.perm_insertionSort _ _).map _).nodup_iff.mpr hstarted
  exact (hle.and (List.pairwise_map.mp hne)).imp fun h => Nat.lt_of_le_of_ne h.1 h.2

lemma covers_later (h : Covers snapshots w turnId .undoFrom ms) (hturns : Recorded w.turns)
    (hstarted : (w.turns.map (·.startedMs)).Nodup) {earlier later : List TurnRecord}
    (hms : ms = earlier ++ m :: later) :
    Covers snapshots w m.turnId .undoFrom (m :: later) := by
  obtain ⟨r, -, -, hfilter⟩ := h.eq_filter
  have hm : m ∈ ms := by simp [hms]
  have hlater : ∀ k ∈ m :: later, k ∈ ms := fun k hk => hms ▸ List.mem_append_right _ hk
  refine ⟨⟨m, hturns.find (h.mem hm).1, ?_⟩, fun k hk => h.uncommitted k (hlater k hk),
    fun k hk => h.pinned k (hlater k hk)⟩
  have hstart : r.startedMs ≤ m.startedMs := by
    rw [hfilter] at hm
    have hm := (List.mem_filter.mp hm).2
    rw [Bool.and_eq_true, decide_eq_true_eq] at hm
    exact hm.1
  -- of the turns covered already, those that did not begin before this one
  have hpart : (w.turns.insertionSort fun r s => r.startedMs ≤ s.startedMs).filter
      (fun s => m.startedMs ≤ s.startedMs && s.state ≠ .undone) =
        ms.filter fun s => m.startedMs ≤ s.startedMs := by
    rw [hfilter, List.filter_filter]
    refine List.filter_congr fun s _ => ?_
    rw [Bool.eq_iff_iff]
    simp only [Bool.and_eq_true, decide_eq_true_eq]
    constructor
    · intro hs
      exact ⟨hs.1, hstart.trans hs.1, hs.2⟩
    · intro hs
      exact ⟨hs.1, hs.2.2⟩
  obtain ⟨-, hrest, hbefore⟩ := List.pairwise_append.mp (hms ▸ h.sorted hstarted)
  unfold members
  dsimp only
  rw [if_neg ((h.mem hm).2 (by decide)), hpart, hms, List.filter_append]
  congr 1
  rw [List.filter_eq_nil_iff.mpr, List.filter_eq_self.mpr, List.nil_append]
  · intro k hk
    rcases List.mem_cons.mp hk with rfl | hk
    · exact decide_eq_true le_rfl
    · exact decide_eq_true (List.rel_of_pairwise_cons hrest hk).le
  · intro k hk
    rw [decide_eq_true_eq, not_le]
    exact hbefore k hk m List.mem_cons_self

end

/-- Two turns that changed a file, with what it was when the second began. -/
def twoTurns (between : String) : Workspace :=
  ⟨(Tree.single "notes.md" "four").files,
    record (record [] (turnOf "t1" 1 "one" "two")) (turnOf "t2" 2 between "four")⟩

lemma twoTurns_reached (between : String) : Reached (twoTurns between) :=
  ⟨(Tree.single "notes.md" "four").files, .tail
    (.single (.record (turnOf "t1" 1 "one" "two") ⟨rfl, rfl, rfl, rfl⟩))
    (.record (turnOf "t2" 2 between "four") ⟨rfl, rfl, rfl, rfl⟩)⟩

end Aeroric.Turns
