import Aeroric.WikiPages

/-! The pages of a project's Wiki in the editor. What the user saves is cut into sections, which are
matched with the blocks of the page by their headings. -/
namespace Aeroric.WikiEdits

open Sse (trim trimEnd lines stripPrefix isWhitespace solid solid_append solid_trim)

structure Note where
  path : Text
  title : Text
  status : Option Text
  category : Option Text
  sections : List (Text × Text)

/-- The first section of a heading, and the sections without it. -/
def takeSection (heading : Option Text) : List Section → Option (Text × List Section)
  | [] => none
  | s :: rest =>
    if s.1 = heading then some (s.2, rest)
    else (takeSection heading rest).map fun found => (found.1, s :: found.2)

def Block.edited (old : Block) (text : Text) : Block :=
  if text ≠ trim old.text then { old with text := text, userEdited := true } else old

/-- Each block takes the first section of its heading that no block before it has taken; also the
sections that are left. -/
def takeSections : List Block → List Section → List Block × List Section
  | [], left => ([], left)
  | old :: olds, left =>
    match takeSection old.heading left with
    | some (text, rest) =>
      (old.edited text :: (takeSections olds rest).1, (takeSections olds rest).2)
    | none =>
      ({ old with text := [], userEdited := true } :: (takeSections olds left).1,
        (takeSections olds left).2)

section Editing

-- The hash of a text.
variable (hash : Text → Text)

/-- The sections that are left become the user's own blocks. -/
def addSections (n : ℕ) : List Section → List Block
  | [] => []
  | s :: rest =>
    ⟨"user:".toList ++ Nat.toDigits 10 (n + 1), s.1, s.2, none, true, hash s.2⟩ ::
      addSections (n + 1) rest

def titleOf (markdown : Text) : Option Text :=
  (((((lines markdown).map trim).find? (· ≠ [])).bind (stripPrefix ['#', ' '])).map trim).filter
    (· ≠ [])

def retitle (page : Page) (markdown : Text) : Page :=
  match titleOf markdown with
  | none => page
  | some title =>
    if title ≠ page.title then
      { page with
        compiledTitle := if page.titleEdited then page.compiledTitle else some page.title
        title := title
        titleEdited := true }
    else page

def userCount (page : Page) : ℕ := page.blocks.countP fun b => "user:".toList.isPrefixOf b.key

def applyEdit (page : Page) (markdown : Text) : Page :=
  let taken := takeSections page.blocks (sections markdown)
  { retitle page markdown with blocks := taken.1 ++ addSections hash (userCount page) taken.2 }

/-- The page that a note is compiled to. -/
def decisionPage (note : Note) (slug : Text) : Page :=
  let file := ((note.path.splitOn '/').getLast?).getD note.path
  let blocks := note.sections.map fun s =>
    ⟨"note:".toList ++ note.path ++ ['#'] ++ s.1, some s.1, s.2,
      some ⟨.note, note.path ++ ['#'] ++ s.1, file ++ ['#'] ++ s.1⟩, false, hash s.2⟩
  ⟨slug, .decision, note.title, note.status, note.category, blocks, 0, 0, false, none⟩

end Editing

/-! When an edit is kept. -/

/-- The page is read as it is shown, and no block that is hidden stands before one of its heading
that is shown. -/
structure Settled (page : Page) : Prop where
  title : '\n' ∉ page.title ∧ (trim page.title = page.title ∨ trim page.title = [])
  reads : Reads (visible page.blocks)
  apart : page.blocks.Pairwise fun b c =>
    b.hidden = true → c.hidden = false → c.heading ≠ b.heading

/-- Each section with the first block of its heading that no section before it has. -/
def homes (blocks : List Block) : List Section → List (Section × Option Block)
  | [] => []
  | s :: rest =>
    (s, blocks.find? fun b => b.heading = s.1) ::
      homes (blocks.eraseP fun b => b.heading = s.1) rest

/-- An empty section needs a block that is blank already and shown all the same. -/
def landed (p : Section × Option Block) : Bool :=
  p.1.2 ≠ [] || p.2.any fun b => !b.hidden && trim b.text = []

/-- A block keeps its own white space around a text that is not changed. -/
def keptText (p : Section × Option Block) : Text :=
  match p.2 with
  | some b => if trim b.text = p.1.2 then b.text else p.1.2
  | none => p.1.2

/-- What is typed can be kept: no section is lost or splits, and an introduction does not come to
stand behind a block of the page. -/
structure Fits (page : Page) (markdown : Text) : Prop where
  title : titleOf markdown = none → '\n' ∉ page.title
  full : ∀ p ∈ homes page.blocks (sections markdown), landed p = true
  texts : ∀ p ∈ homes page.blocks (sections markdown), PlainText (keptText p)
  intro : (∃ s ∈ sections markdown, s.1 = none) →
    ∀ b ∈ page.blocks.takeWhile (·.heading.isSome), ∀ s ∈ sections markdown, s.1 ≠ b.heading

/-! Saving what is shown. -/

lemma takeSection_eq_none_iff {heading : Option Text} {left : List Section} :
    takeSection heading left = none ↔ ∀ s ∈ left, s.1 ≠ heading := by
  induction left with
  | nil => simp [takeSection]
  | cons s left ih =>
    rw [takeSection, List.forall_mem_cons, ← ih]
    split
    · next hs => simp [hs]
    · next hs => simp [hs]

lemma takeSection_perm {heading : Option Text} {left rest : List Section} {text : Text}
    (h : takeSection heading left = some (text, rest)) : left.Perm ((heading, text) :: rest) := by
  induction left generalizing text rest with
  | nil => exact absurd h nofun
  | cons s left ih =>
    rw [takeSection] at h
    split at h
    · next hs =>
      obtain ⟨rfl, rfl⟩ := Prod.mk.inj (Option.some.inj h)
      rw [← hs]
    · obtain ⟨found, hfound, heq⟩ := Option.map_eq_some_iff.mp h
      obtain ⟨rfl, rfl⟩ := Prod.mk.inj heq
      exact ((ih hfound).cons s).trans (List.Perm.swap _ _ _)

lemma emptied_eq_self_iff {b : Block} :
    { b with text := [], userEdited := true } = b ↔ b.hidden = true := by
  rw [Block.hidden, Bool.and_eq_true, decide_eq_true_eq]
  constructor
  · intro h
    exact ⟨(congrArg Block.text h).symm, (congrArg Block.userEdited h).symm⟩
  · rintro ⟨htext, hedited⟩
    rw [← htext, ← hedited]

lemma takeSections_self {blocks : List Block}
    (hapart : blocks.Pairwise fun b c =>
      b.hidden = true → c.hidden = false → c.heading ≠ b.heading) :
    takeSections blocks ((visible blocks).map Block.section) = (blocks, []) := by
  induction blocks with
  | nil => rfl
  | cons b blocks ih =>
    obtain ⟨hb, hapart⟩ := List.pairwise_cons.mp hapart
    cases hcase : b.hidden with
    | false =>
      rw [visible_cons_shown hcase, List.map_cons, takeSections, takeSection, if_pos (by rfl)]
      simp only [Block.section, Block.edited, ne_eq, not_true_eq_false, if_false]
      rw [ih hapart]
    | true =>
      have hnone : takeSection b.heading ((visible blocks).map Block.section) = none := by
        refine takeSection_eq_none_iff.mpr (List.forall_mem_map.mpr fun c hc => ?_)
        exact hb c (List.mem_of_mem_filter hc) hcase (hidden_of_visible hc)
      rw [visible_cons_hidden hcase, takeSections, hnone, ih hapart]
      simp only [emptied_eq_self_iff.mpr hcase]

/-- Where all stays as it is, the first block has taken its own text, or it is hidden and there was
nothing for it. -/
lemma taken_cons {b : Block} {blocks : List Block} {left : List Section}
    (htrim : ∀ s ∈ left, trim s.2 = s.2)
    (h : takeSections (b :: blocks) left = (b :: blocks, [])) :
    (∃ rest, takeSection b.heading left = some (trim b.text, rest) ∧
      takeSections blocks rest = (blocks, [])) ∨
    takeSection b.heading left = none ∧ b.hidden = true ∧ takeSections blocks left = (blocks, []) := by
  rw [takeSections] at h
  split at h
  · next text rest hfound =>
    obtain ⟨hblocks, hleft⟩ := Prod.mk.inj h
    obtain ⟨hb, hblocks⟩ := List.cons.inj hblocks
    have htext : text = trim b.text := by
      by_contra hne
      rw [Block.edited, if_pos hne] at hb
      have hmem := (takeSection_perm hfound).mem_iff.mpr List.mem_cons_self
      exact hne ((htrim _ hmem).symm.trans (congrArg trim (congrArg Block.text hb)))
    exact .inl ⟨rest, htext ▸ hfound, Prod.ext hblocks hleft⟩
  · next hnone =>
    obtain ⟨hblocks, hleft⟩ := Prod.mk.inj h
    obtain ⟨hb, hblocks⟩ := List.cons.inj hblocks
    exact .inr ⟨hnone, emptied_eq_self_iff.mp hb, Prod.ext hblocks hleft⟩

/-! The title. -/

lemma trim_chop (line : Text) : trim (chop line) = trim line := by
  unfold chop
  split
  · next hlast =>
    obtain ⟨front, rfl⟩ := List.getLast?_eq_some_iff.mp hlast
    rw [List.dropLast_concat, Sse.trim_concat rfl]
  · rfl

lemma trim_title (title : Text) : trim (['#', ' '] ++ title) =
    if trim title = [] then ['#'] else ['#', ' '] ++ trimEnd title := by
  induction title using List.reverseRecOn with
  | nil => rfl
  | append_singleton title c ih =>
    rw [← List.append_assoc]
    by_cases hc : isWhitespace c = true
    · rw [Sse.trim_concat hc, Sse.trim_concat hc, ih, trimEnd, trimEnd,
        List.rdropWhile_concat_pos _ _ _ hc]
    · have hne : trim (title ++ [c]) ≠ [] := by
        intro hnil
        have hink := solid_trim (title ++ [c])
        rw [hnil, solid_append] at hink
        simp [solid, hc] at hink
      have hstart : Sse.trimStart (['#', ' '] ++ title ++ [c]) = ['#', ' '] ++ title ++ [c] :=
        List.dropWhile_cons_of_neg (by decide)
      rw [if_neg hne, trim, hstart, List.rdropWhile_concat_neg _ _ _ hc, trimEnd,
        List.rdropWhile_concat_neg _ _ _ hc, List.append_assoc]

lemma titleOf_render {page : Page} (htitle : '\n' ∉ page.title) :
    titleOf (render page) = if trim page.title = [] then none else some (trim page.title) := by
  unfold titleOf
  rw [lines_render htitle, List.map_cons, trim_chop, trim_title]
  split
  · rfl
  · next hne =>
    rw [List.find?_cons_of_pos (by simp)]
    simp [stripPrefix, Sse.trim_trimEnd, hne]

lemma retitle_title (page : Page) (markdown : Text) :
    (retitle page markdown).title = (titleOf markdown).getD page.title := by
  unfold retitle
  split
  · next hnone => rw [hnone, Option.getD_none]
  · next title hsome =>
    rw [hsome, Option.getD_some]
    split
    · rfl
    · next heq => exact (not_not.mp heq).symm

lemma titleOf_notMem {markdown title : Text} (h : titleOf markdown = some title) : '\n' ∉ title := by
  obtain ⟨found, hfound, rfl⟩ := Option.map_eq_some_iff.mp (Option.filter_eq_some_iff.mp h).1
  obtain ⟨line, hline, hstrip⟩ := Option.bind_eq_some_iff.mp hfound
  obtain ⟨part, hpart, rfl⟩ := List.mem_map.mp (List.mem_of_find?_eq_some hline)
  unfold stripPrefix at hstrip
  split at hstrip
  · obtain rfl := Option.some.inj hstrip
    exact fun hmem => notMem_lines hpart ((trim_sublist _).subset
      (List.mem_of_mem_drop ((trim_sublist _).subset hmem)))
  · exact absurd hstrip nofun

lemma takeSections_length (blocks : List Block) (left : List Section) :
    (takeSections blocks left).1.length = blocks.length := by
  induction blocks generalizing left with
  | nil => rfl
  | cons b blocks ih =>
    rw [takeSections]
    split <;> rw [List.length_cons, List.length_cons, ih]

section Keeping

variable (hash : Text → Text) {page : Page}

lemma Settled.applyEdit_render (h : Settled page) : applyEdit hash page (render page) = page := by
  have hsame : retitle page (render page) = page := by
    unfold retitle
    rw [titleOf_render h.title.1]
    rcases h.title.2 with heq | hblank
    · split
      · rfl
      · next title hsome =>
        split at hsome
        · exact absurd hsome nofun
        · rw [← Option.some.inj hsome, if_neg (not_not.mpr heq)]
    · rw [if_pos hblank]
  unfold applyEdit
  rw [sections_render h.title.1 h.reads, hsame, takeSections_self h.apart]
  simp [addSections]

/-! Saving anything. -/

lemma homes_fst (blocks : List Block) (left : List Section) :
    (homes blocks left).map Prod.fst = left := by
  induction left generalizing blocks with
  | nil => rfl
  | cons s left ih => rw [homes, List.map_cons, ih]

lemma homes_nil (left : List Section) : homes [] left = left.map fun s => (s, none) := by
  induction left with
  | nil => rfl
  | cons s left ih => rw [homes, List.map_cons, List.find?_nil, List.eraseP_nil, ih]

lemma homes_cons_none {b : Block} {left : List Section} (h : takeSection b.heading left = none)
    (blocks : List Block) : homes (b :: blocks) left = homes blocks left := by
  induction left generalizing blocks with
  | nil => rfl
  | cons s left ih =>
    obtain ⟨hs, hleft⟩ := List.forall_mem_cons.mp (takeSection_eq_none_iff.mp h)
    rw [homes, homes, List.find?_cons_of_neg (by simpa using Ne.symm hs),
      List.eraseP_cons_of_neg (by simpa using Ne.symm hs), ih (takeSection_eq_none_iff.mpr hleft)]

lemma homes_cons_some {b : Block} {left rest : List Section} {text : Text}
    (h : takeSection b.heading left = some (text, rest)) (blocks : List Block) :
    (homes (b :: blocks) left).Perm (((b.heading, text), some b) :: homes blocks rest) := by
  induction left generalizing blocks text rest with
  | nil => exact absurd h nofun
  | cons s left ih =>
    rw [takeSection] at h
    split at h
    · next hs =>
      obtain ⟨rfl, rfl⟩ := Prod.mk.inj (Option.some.inj h)
      rw [homes, List.find?_cons_of_pos (by simpa using hs.symm),
        List.eraseP_cons_of_pos (by simpa using hs.symm), ← hs]
    · next hs =>
      obtain ⟨found, hfound, heq⟩ := Option.map_eq_some_iff.mp h
      obtain ⟨rfl, rfl⟩ := Prod.mk.inj heq
      rw [homes, List.find?_cons_of_neg (by simpa using Ne.symm hs),
        List.eraseP_cons_of_neg (by simpa using Ne.symm hs), homes]
      exact ((ih hfound _).cons _).trans (List.Perm.swap _ _ _)

lemma edited_shown {old : Block} {text : Text} (htrim : trim text = text) :
    (old.edited text).hidden = !landed ((old.heading, text), some old) ∧
      (old.edited text).section = (old.heading, text) ∧
      (old.edited text).text = keptText ((old.heading, text), some old) := by
  by_cases hsame : text = trim old.text
  · have hfull : trim old.text ≠ [] → old.text ≠ [] := fun hne hnil => hne (by rw [hnil]; rfl)
    have hedited : old.edited text = old := if_neg (not_not.mpr hsame)
    rw [hedited]
    refine ⟨?_, by rw [Block.section, hsame], by simp [keptText, hsame]⟩
    by_cases hblank : trim old.text = []
    · simp [landed, hsame, hblank]
    · simp [landed, hsame, hblank, Block.hidden, hfull hblank]
  · have hedited : old.edited text = { old with text := text, userEdited := true } := if_pos hsame
    rw [hedited]
    refine ⟨?_, by simp [Block.section, htrim], by simp [keptText, Ne.symm hsame]⟩
    by_cases hblank : text = []
    · have hne : trim old.text ≠ [] := fun hnil => hsame (hblank.trans hnil.symm)
      simp [landed, Block.hidden, hblank, hne]
    · simp [landed, Block.hidden, hblank]

/-- The page shows the sections that land, each with the text that is kept of it. -/
lemma shown_perm (n : ℕ) {blocks : List Block} {left : List Section}
    (htrim : ∀ s ∈ left, trim s.2 = s.2) :
    ((visible ((takeSections blocks left).1 ++ addSections hash n (takeSections blocks left).2)).map
      fun b => (b.section, b.text)).Perm
        (((homes blocks left).filter landed).map fun p => (p.1, keptText p)) := by
  induction blocks generalizing left with
  | nil =>
    rw [homes_nil, takeSections, List.nil_append]
    refine .of_eq ?_
    induction left generalizing n with
    | nil => rfl
    | cons s left ih =>
      obtain ⟨hs, hleft⟩ := List.forall_mem_cons.mp htrim
      rw [addSections, List.map_cons]
      by_cases hempty : s.2 = []
      · rw [visible_cons_hidden (by simp [Block.hidden, hempty]), ih _ hleft,
          List.filter_cons_of_neg (by simp [landed, hempty])]
      · rw [visible_cons_shown (by simp [Block.hidden, hempty]), List.map_cons, ih _ hleft,
          List.filter_cons_of_pos (by simp [landed, hempty]), List.map_cons, Block.section, hs]
        rfl
  | cons old blocks ih =>
    rw [takeSections]
    split
    · next text rest hfound =>
      have hperm := takeSection_perm hfound
      have hrest : ∀ s ∈ rest, trim s.2 = s.2 := fun s hs =>
        htrim s (hperm.mem_iff.mpr (List.mem_cons_of_mem _ hs))
      have htext : trim text = text := htrim _ (hperm.mem_iff.mpr List.mem_cons_self)
      obtain ⟨hhidden, hsection, hkept⟩ := @edited_shown old text htext
      refine .trans ?_ (((homes_cons_some hfound blocks).filter landed).map _).symm
      rw [List.cons_append]
      cases hland : landed ((old.heading, text), some old) with
      | true =>
        rw [visible_cons_shown (by rw [hhidden, hland]; rfl), List.filter_cons_of_pos hland,
          List.map_cons, List.map_cons, hsection, hkept]
        exact (ih hrest).cons _
      | false =>
        rw [visible_cons_hidden (by rw [hhidden, hland]; rfl),
          List.filter_cons_of_neg (by simp [hland])]
        exact ih hrest
    · next hnone =>
      rw [homes_cons_none hnone, List.cons_append, visible_cons_hidden (by simp [Block.hidden])]
      exact ih htrim

lemma visible_length_le {blocks : List Block} {left : List Section}
    (htrim : ∀ s ∈ left, trim s.2 = s.2) (h : takeSections blocks left = (blocks, [])) :
    (visible blocks).length ≤ left.length := by
  have hlength := (@shown_perm id 0 blocks left htrim).length_eq
  rw [h, addSections, List.append_nil, List.length_map, List.length_map] at hlength
  have hall := congrArg List.length (homes_fst blocks left)
  rw [List.length_map] at hall
  rw [hlength, ← hall]
  exact List.length_filter_le _ _

lemma apart_of_taken {blocks : List Block}
    (h : takeSections blocks ((visible blocks).map Block.section) = (blocks, [])) :
    blocks.Pairwise fun b c => b.hidden = true → c.hidden = false → c.heading ≠ b.heading := by
  have htrim : ∀ blocks : List Block, ∀ s ∈ (visible blocks).map Block.section, trim s.2 = s.2 :=
    fun blocks => List.forall_mem_map.mpr fun b _ => Sse.trim_trim b.text
  induction blocks with
  | nil => exact .nil
  | cons b blocks ih =>
    cases hcase : b.hidden with
    | false =>
      rw [visible_cons_shown hcase] at h
      have hown : takeSection b.heading ((b :: visible blocks).map Block.section) =
          some (trim b.text, (visible blocks).map Block.section) := if_pos rfl
      rcases taken_cons (by rw [← visible_cons_shown hcase]; exact htrim _) h with
        ⟨rest, hfound, hrest⟩ | ⟨hnone, -⟩
      · obtain ⟨-, rfl⟩ := Prod.mk.inj (Option.some.inj (hown.symm.trans hfound))
        exact List.pairwise_cons.mpr ⟨fun c _ hb => absurd (hcase.symm.trans hb) nofun, ih hrest⟩
      · exact absurd (hown.symm.trans hnone) nofun
    | true =>
      rw [visible_cons_hidden hcase] at h
      rcases taken_cons (htrim _) h with ⟨rest, hfound, hrest⟩ | ⟨hnone, -, hrest⟩
      · -- The hidden block has taken what a block behind it would need.
        have hperm := takeSection_perm hfound
        have hle := visible_length_le
          (fun s hs => htrim _ s (hperm.mem_iff.mpr (List.mem_cons_of_mem _ hs))) hrest
        have hlength := hperm.length_eq
        rw [List.length_cons, List.length_map] at hlength
        omega
      · refine List.pairwise_cons.mpr ⟨fun c hc _ hshown => ?_, ih hrest⟩
        refine takeSection_eq_none_iff.mp hnone c.section (List.mem_map_of_mem ?_)
        exact List.mem_filter.mpr ⟨hc, by simp [hshown]⟩

lemma front_hidden {front : List Block} (back : List Block) {left : List Section}
    (h : ∀ b ∈ front, ∀ s ∈ left, s.1 ≠ b.heading) :
    visible (takeSections (front ++ back) left).1 = visible (takeSections back left).1 ∧
      (takeSections (front ++ back) left).2 = (takeSections back left).2 := by
  induction front with
  | nil => exact ⟨rfl, rfl⟩
  | cons b front ih =>
    obtain ⟨hb, hfront⟩ := List.forall_mem_cons.mp h
    rw [List.cons_append, takeSections, takeSection_eq_none_iff.mpr hb]
    rw [visible_cons_hidden (by simp [Block.hidden])]
    exact ih hfront

/-- Where every section lands, the first of them that one of the blocks takes stands in front. -/
lemma front_shown {front back : List Block} {left : List Section}
    (htrim : ∀ s ∈ left, trim s.2 = s.2)
    (hfull : ∀ p ∈ homes (front ++ back) left, landed p = true)
    (hheaded : ∀ b ∈ front, b.heading ≠ none) {b : Block} (hb : b ∈ front) {s : Section}
    (hs : s ∈ left) (hmatch : s.1 = b.heading) :
    ∃ c rest, visible (takeSections (front ++ back) left).1 = c :: rest ∧ c.heading ≠ none := by
  induction front with
  | nil => exact absurd hb List.not_mem_nil
  | cons old front ih =>
    obtain ⟨hold, hheaded⟩ := List.forall_mem_cons.mp hheaded
    rw [List.cons_append] at hfull
    rw [List.cons_append, takeSections]
    split
    · next text rest hfound =>
      have hmem := (takeSection_perm hfound).mem_iff.mpr List.mem_cons_self
      obtain ⟨hhidden, hsection, -⟩ := @edited_shown old text (htrim _ hmem)
      have hland := hfull _ ((homes_cons_some hfound _).mem_iff.mpr List.mem_cons_self)
      rw [visible_cons_shown (by rw [hhidden, hland]; rfl)]
      exact ⟨_, _, rfl, fun hnone => hold ((congrArg Prod.fst hsection).symm.trans hnone)⟩
    · next hnone =>
      rw [visible_cons_hidden (by simp [Block.hidden])]
      rw [homes_cons_none hnone] at hfull
      rcases List.mem_cons.mp hb with rfl | hb
      · exact absurd hmatch (takeSection_eq_none_iff.mp hnone s hs)
      · exact ih hfull hheaded hb

section Typed

variable {markdown : Text}

lemma shown_sections (hfull : ∀ p ∈ homes page.blocks (sections markdown), landed p = true) :
    (sections markdown).Perm
      ((visible (applyEdit hash page markdown).blocks).map Block.section) := by
  have hshown := (@shown_perm hash (userCount page) page.blocks (sections markdown)
    fun s hs => sections_trimmed hs).map Prod.fst
  rw [List.filter_eq_self.mpr hfull, List.map_map, List.map_map] at hshown
  have hfst := homes_fst page.blocks (sections markdown)
  exact (hshown.trans (.of_eq hfst)).symm

lemma first_of_intro (hfull : ∀ p ∈ homes page.blocks (sections markdown), landed p = true)
    (hintro : (∃ s ∈ sections markdown, s.1 = none) →
      ∀ b ∈ page.blocks.takeWhile (·.heading.isSome), ∀ s ∈ sections markdown, s.1 ≠ b.heading) :
    ∀ b ∈ (visible (applyEdit hash page markdown).blocks).tail, b.heading ≠ none := by
  intro b hb hnone
  have hperm := shown_sections hash hfull
  have hsection : b.section ∈ sections markdown :=
    hperm.mem_iff.mpr (List.mem_map_of_mem (List.mem_of_mem_tail hb))
  have hfront := hintro ⟨_, hsection, hnone⟩
  have hsplit := List.takeWhile_append_dropWhile (p := fun b : Block => b.heading.isSome)
    (l := page.blocks)
  have hhidden := front_hidden (page.blocks.dropWhile (·.heading.isSome)) hfront
  rw [hsplit] at hhidden
  -- The text before the first heading is the first of the sections, and the first block shown.
  obtain ⟨s, rest, hs, hfirst⟩ : ∃ s rest, sections markdown = s :: rest ∧ s.1 = none := by
    cases hs : sections markdown with
    | nil => simp [hs] at hsection
    | cons s rest =>
      rcases List.mem_cons.mp (hs ▸ hsection) with heq | hmem
      · exact ⟨s, rest, rfl, heq ▸ hnone⟩
      · exact absurd hnone (@sections_tail markdown _ (by rw [hs]; exact hmem))
  have htext : s.2 ≠ [] := sections_intro (hs ▸ List.mem_cons_self) hfirst
  obtain ⟨c, more, hshown, hc⟩ : ∃ c more,
      visible (applyEdit hash page markdown).blocks = c :: more ∧ c.heading = none := by
    simp only [applyEdit]
    rw [visible, List.filter_append, ← visible, ← visible, hhidden.1, hhidden.2, hs]
    cases hback : page.blocks.dropWhile (·.heading.isSome) with
    | nil =>
      rw [takeSections, addSections, visible_cons_shown (by simp [Block.hidden, htext])]
      exact ⟨_, _, rfl, hfirst⟩
    | cons old back =>
      have hold : old.heading = none := by
        have hhead := List.head?_dropWhile_not (fun b : Block => b.heading.isSome) page.blocks
        rw [hback] at hhead
        simpa using hhead
      obtain ⟨hedited, hheading, -⟩ := @edited_shown old s.2
        (sections_trimmed (hs ▸ List.mem_cons_self))
      have htake : takeSection old.heading (s :: rest) = some (s.2, rest) :=
        if_pos (hfirst.trans hold.symm)
      rw [takeSections, htake]
      simp only
      rw [visible_cons_shown (by rw [hedited]; simp [landed, htext]), List.cons_append]
      exact ⟨_, _, rfl, (congrArg Prod.fst hheading).trans hold⟩
  rw [hshown] at hperm hb
  exact headed_of_perm hperm hc b hb hnone

lemma intro_of_first (hfull : ∀ p ∈ homes page.blocks (sections markdown), landed p = true)
    (hfirst : ∀ b ∈ (visible (applyEdit hash page markdown).blocks).tail, b.heading ≠ none)
    (hintro : ∃ s ∈ sections markdown, s.1 = none) :
    ∀ b ∈ page.blocks.takeWhile (·.heading.isSome), ∀ s ∈ sections markdown, s.1 ≠ b.heading := by
  intro b hb s hs hmatch
  obtain ⟨t, ht, hnone⟩ := hintro
  have hsplit := List.takeWhile_append_dropWhile (p := fun b : Block => b.heading.isSome)
    (l := page.blocks)
  obtain ⟨c, rest, hshown, hc⟩ := front_shown (fun s hs => sections_trimmed hs)
    (by rw [hsplit]; exact hfull)
    (fun b hb => Option.isSome_iff_ne_none.mp
      (List.mem_takeWhile_imp (p := fun b : Block => b.heading.isSome) hb)) hb hs hmatch
  obtain ⟨d, hd, rfl⟩ := List.mem_map.mp ((shown_sections hash hfull).mem_iff.mp ht)
  simp only [applyEdit] at hd hfirst
  rw [visible, List.filter_append, ← visible, ← visible, ← hsplit, hshown, List.cons_append] at hd
  rw [visible, List.filter_append, ← visible, ← visible, ← hsplit, hshown, List.cons_append] at hfirst
  rcases List.mem_cons.mp hd with rfl | hd
  · exact hc hnone
  · exact hfirst d hd hnone

lemma title_notMem (h : titleOf markdown = none → '\n' ∉ page.title) :
    '\n' ∉ (applyEdit hash page markdown).title := by
  change '\n' ∉ (retitle page markdown).title
  rw [retitle_title]
  cases hsome : titleOf markdown with
  | none => exact h hsome
  | some title => exact titleOf_notMem hsome

lemma Fits.perm (h : Fits page markdown) :
    (sections (render (applyEdit hash page markdown))).Perm (sections markdown) := by
  have hperm := shown_sections hash h.full
  have hmem : ∀ b ∈ visible (applyEdit hash page markdown).blocks, b.section ∈ sections markdown :=
    fun b hb => hperm.mem_iff.mpr (List.mem_map_of_mem hb)
  have htitle := title_notMem hash h.title
  have htexts : ∀ b ∈ visible (applyEdit hash page markdown).blocks, PlainText b.text := by
    intro b hb
    have hshown := @shown_perm hash (userCount page) page.blocks (sections markdown)
      fun s hs => sections_trimmed hs
    obtain ⟨p, hp, heq⟩ := List.mem_map.mp (hshown.mem_iff.mp (List.mem_map_of_mem hb))
    have htext : keptText p = b.text := congrArg Prod.snd heq
    exact htext ▸ h.texts p (List.mem_of_mem_filter hp)
  rw [sections_render htitle ⟨fun b hb heading hheading => sections_heading (hmem b hb) hheading,
    htexts, first_of_intro hash h.full h.intro, fun b hb hnone => sections_intro (hmem b hb) hnone⟩]
  exact hperm.symm

lemma fits_of_perm (htitle : '\n' ∉ page.title)
    (h : (sections (render (applyEdit hash page markdown))).Perm (sections markdown)) :
    Fits page markdown := by
  have htitle' := title_notMem hash fun _ : titleOf markdown = none => htitle
  have hshown := @shown_perm hash (userCount page) page.blocks (sections markdown)
    fun s hs => sections_trimmed hs
  have hfull : ∀ p ∈ homes page.blocks (sections markdown), landed p = true := by
    -- What does not land has no text, and nothing of what is written is lost.
    have hparts := (List.filter_append_perm landed (homes page.blocks (sections markdown))).map
      Prod.fst
    rw [homes_fst, List.map_append] at hparts
    have hfst := hshown.map Prod.fst
    rw [List.map_map, List.map_map] at hfst
    have hlost := none_more htitle' ((h.trans hparts.symm).trans (hfst.symm.append_right _)) (by
      intro s hs
      obtain ⟨p, hp, rfl⟩ := List.mem_map.mp hs
      have hland := (List.mem_filter.mp hp).2
      simp only [landed, ne_eq, decide_not, Bool.not_or, Bool.not_not, Bool.and_eq_true,
        decide_eq_true_eq] at hland
      exact hland.1)
    intro p hp
    by_contra hland
    have hmem := List.mem_map_of_mem (f := Prod.fst)
      (List.mem_filter.mpr ⟨hp, by simpa using hland⟩ :
        p ∈ (homes page.blocks (sections markdown)).filter fun p => !landed p)
    rw [hlost] at hmem
    exact absurd hmem List.not_mem_nil
  have hreads := reads_of_perm htitle' (h.trans (shown_sections hash hfull))
  refine ⟨fun _ => htitle, hfull, fun p hp => ?_, intro_of_first hash hfull hreads.first⟩
  have hkept := List.mem_map_of_mem (f := fun p => (p.1, keptText p))
    (List.mem_filter.mpr ⟨hp, hfull p hp⟩)
  obtain ⟨b, hb, heq⟩ := List.mem_map.mp (hshown.mem_iff.mpr hkept)
  have htext : b.text = keptText p := congrArg Prod.snd heq
  exact htext ▸ hreads.texts b hb

end Typed

lemma settled_of_applyEdit (htitle : '\n' ∉ page.title)
    (h : applyEdit hash page (render page) = page) : Settled page := by
  have hfits : Fits page (render page) := fits_of_perm hash htitle (by rw [h])
  have hshown := shown_sections hash hfits.full
  rw [h] at hshown
  have hreads := reads_of_perm htitle hshown
  refine ⟨⟨htitle, ?_⟩, hreads, ?_⟩
  · have hsame : (applyEdit hash page (render page)).title = page.title := congrArg Page.title h
    change (retitle page (render page)).title = page.title at hsame
    rw [retitle_title, titleOf_render htitle] at hsame
    split at hsame
    · next hblank => exact .inr hblank
    · exact .inl hsame
  · have hblocks := congrArg Page.blocks h
    simp only [applyEdit] at hblocks
    have hlength := congrArg List.length hblocks
    rw [List.length_append, takeSections_length, Nat.add_eq_left, List.length_eq_zero_iff] at hlength
    have hleft : (takeSections page.blocks (sections (render page))).2 = [] := by
      cases hrest : (takeSections page.blocks (sections (render page))).2 with
      | nil => rfl
      | cons s rest => simp [hrest, addSections] at hlength
    rw [hlength, List.append_nil] at hblocks
    rw [sections_render htitle hreads] at hblocks hleft
    exact apart_of_taken (Prod.ext hblocks hleft)

end Keeping

/-- A page that is settled, and no other with a title of one line, stays as it is when it is saved as
it is shown. What is typed is what is shown, up to the order of its sections, where it fits the page
and, for a title of one line, nowhere else. -/
theorem editor_keeps_iff (hash : Text → Text) (page : Page) (markdown : Text) :
    ((Settled page → applyEdit hash page (render page) = page) ∧
      (Fits page markdown →
        (sections (render (applyEdit hash page markdown))).Perm (sections markdown))) ∧
    ('\n' ∉ page.title →
      (applyEdit hash page (render page) = page → Settled page) ∧
      ((sections (render (applyEdit hash page markdown))).Perm (sections markdown) →
        Fits page markdown)) :=
  ⟨⟨fun h => h.applyEdit_render hash, fun h => h.perm hash⟩, fun htitle =>
    ⟨settled_of_applyEdit hash htitle, fits_of_perm hash htitle⟩⟩

def problemPage : Page :=
  decisionPage id ⟨"notes/a.md".toList, "T".toList, none, none,
    [("Problem".toList, "p".toList)]⟩ "decision-a".toList

def rewritten : Text := "# T2\n\n## New\n\nx\n\n## Problem\n\nq\n".toList

theorem editor_keeps_rewritten :
    Settled problemPage ∧ Fits problemPage rewritten ∧
    applyEdit id problemPage (render problemPage) = problemPage ∧
      (sections (render (applyEdit id problemPage rewritten))).Perm (sections rewritten) := by
  have hkeeps := editor_keeps_iff id problemPage rewritten
  have hsettled : Settled problemPage :=
    ⟨by decide +kernel, by constructor <;> decide +kernel, by decide +kernel⟩
  have hfits : Fits problemPage rewritten := by constructor <;> decide +kernel
  exact ⟨hsettled, hfits, hkeeps.1.1 hsettled, hkeeps.1.2 hfits⟩

/-- An introduction to the page of a note, which has no block without a heading. -/
def introduced : Text := "# T\n\nintro\n\n## Problem\n\np\n".toList

def introducedPage : Page := applyEdit id problemPage introduced

/-- The introduction comes to stand behind the section, as a part of it, and saving the page as it is
shown marks the section as the user's and empties the introduction. -/
theorem not_editor_keeps :
    sections introduced = [(none, "intro".toList), (some "Problem".toList, "p".toList)] ∧
    sections (render introducedPage) = [(some "Problem".toList, "p\n\nintro".toList)] ∧
    introducedPage.blocks.map (fun b => (b.text, b.userEdited)) =
      [("p".toList, false), ("intro".toList, true)] ∧
    (applyEdit id introducedPage (render introducedPage)).blocks.map
      (fun b => (b.text, b.userEdited)) = [("p\n\nintro".toList, true), ([], true)] := by
  decide +kernel

end Aeroric.WikiEdits
