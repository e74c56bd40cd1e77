import Aeroric.Decimal
import Aeroric.Search
import Mathlib.Data.List.DropRight

/-! The import of a Notion archive rewrites the links between its pages. The loop jumps from an opening
bracket to the next "](" and from there to the next ")", whatever stands between. -/
namespace Aeroric.NotionLinks

open Search (find)

abbrev Text := List Char

def minHashLen : ℕ := 24

def isAsciiHexdigit (c : Char) : Bool :=
  c.isDigit || (97 ≤ c.toNat && c.toNat ≤ 102) || (65 ≤ c.toNat && c.toNat ≤ 70)

def isNotionPageLink (url : Text) : Bool :=
  let lower := url.map Char.toLower
  if !".md".toList.isSuffixOf lower then false
  else if "http://".toList.isPrefixOf lower || "https://".toList.isPrefixOf lower then false
  else
    let last := url.rtakeWhile (· ≠ '/')
    let stem := last.take (last.length - 3)
    match rsplitOnce "%20".toList stem with
    | none => false
    | some (_, tail) => minHashLen ≤ tail.length && tail.all isAsciiHexdigit

structure Link where
  label : Text
  url : Text
  behind : Text

def Link.source (l : Link) : Text := '[' :: l.label ++ [']', '('] ++ l.url ++ [')']

/-- The code's notion of a link that begins with the text. -/
def linkAt : Text → Option Link
  | '[' :: after =>
    match find [']', '('] after with
    | none => none
    | some (label, rest) =>
      match find [')'] rest with
      | none => none
      | some (url, behind) => some ⟨label, url, behind⟩
  | _ => none

def Link.isPage (l : Link) : Bool := isNotionPageLink l.url && l.label ≠ []

def Link.rewritten (l : Link) : Text :=
  if l.isPage then ['[', '['] ++ l.label ++ [']', ']'] else l.source

lemma linkAt_source {text : Text} {l : Link} (h : linkAt text = some l) :
    text = l.source ++ l.behind ∧ ')' ∉ l.url := by
  unfold linkAt at h
  split at h
  · next after =>
    split at h
    · cases h
    · next label rest hlabel =>
      split at h
      · cases h
      · next url behind hurl =>
        cases h
        refine ⟨?_, Search.notMem_of_find_singleton hurl⟩
        rw [Search.find_some hlabel, Search.find_some hurl]
        simp [Link.source]
  · cases h

/-- A link is found if its label has no closing bracket and its address no closing parenthesis. -/
lemma linkAt_eq {l : Link} (hlabel : ']' ∉ l.label) (hurl : ')' ∉ l.url) :
    linkAt (l.source ++ l.behind) = some l := by
  have htext : l.source ++ l.behind =
      '[' :: (l.label ++ [']', '('] ++ (l.url ++ [')'] ++ l.behind)) := by
    simp [Link.source]
  rw [htext, linkAt, Search.find_append hlabel]
  dsimp only
  rw [Search.find_append hurl]

lemma length_behind {text : Text} {l : Link} (h : linkAt text = some l) :
    l.behind.length < text.length := by
  have htext := congrArg List.length (linkAt_source h).1
  simp only [Link.source, List.length_append, List.length_cons, List.length_nil] at htext
  omega

def rewriteLinks (text : Text) : Text :=
  match _hfound : find ['['] text with
  | none => text
  | some (front, after) =>
    match _hlink : linkAt ('[' :: after) with
    | none => front ++ '[' :: rewriteLinks after
    | some l => front ++ l.rewritten ++ rewriteLinks l.behind
termination_by text.length
decreasing_by
  all_goals
    have htext := congrArg List.length (Search.find_some _hfound)
    simp only [List.length_append, List.length_singleton] at htext
  · omega
  · have hbehind := length_behind _hlink
    rw [List.length_cons] at hbehind
    omega

/-! What it should do. -/

/-- An inline link to a page, with a label that is free of brackets. -/
structure Link.Page (l : Link) : Prop where
  label : l.label ≠ []
  opened : '[' ∉ l.label
  closed : ']' ∉ l.label
  url : ')' ∉ l.url
  page : isNotionPageLink l.url = true

def PageLink (text : Text) : Prop := ∃ l : Link, l.Page ∧ text = l.source ++ l.behind

/-- Every link to a page is replaced by its label, and every other character stays. -/
inductive Rewritten : Text → Text → Prop
  | nil : Rewritten [] []
  | keep {c : Char} {rest out : Text} : ¬ PageLink (c :: rest) → Rewritten rest out →
      Rewritten (c :: rest) (c :: out)
  | link {l : Link} {out : Text} : l.Page → Rewritten l.behind out →
      Rewritten (l.source ++ l.behind) (['[', '['] ++ l.label ++ [']', ']'] ++ out)

lemma pageLink_iff {text : Text} : PageLink text ↔ ∃ l ∈ linkAt text, l.Page := by
  constructor
  · rintro ⟨l, hl, rfl⟩
    exact ⟨l, linkAt_eq hl.closed hl.url, hl⟩
  · rintro ⟨l, hmem, hl⟩
    exact ⟨l, hl, (linkAt_source hmem).1⟩

lemma not_pageLink_of_ne {c : Char} (h : c ≠ '[') (rest : Text) : ¬ PageLink (c :: rest) := by
  rintro ⟨l, -, htext⟩
  exact h (List.cons.inj htext).1

lemma Rewritten.copy {front rest out : Text}
    (h : ∀ k < front.length, ¬ PageLink ((front ++ rest).drop k)) (hrest : Rewritten rest out) :
    Rewritten (front ++ rest) (front ++ out) := by
  induction front with
  | nil => exact hrest
  | cons c front ih =>
    refine .keep (h 0 (Nat.zero_lt_succ _)) (ih fun k hk => ?_)
    exact h (k + 1) (Nat.succ_lt_succ hk)

instance (l : Link) : Decidable l.Page :=
  decidable_of_iff (l.label ≠ [] ∧ '[' ∉ l.label ∧ ']' ∉ l.label ∧ ')' ∉ l.url ∧
    isNotionPageLink l.url = true) ⟨fun ⟨h1, h2, h3, h4, h5⟩ => ⟨h1, h2, h3, h4, h5⟩,
    fun ⟨h1, h2, h3, h4, h5⟩ => ⟨h1, h2, h3, h4, h5⟩⟩

instance (text : Text) : Decidable (PageLink text) :=
  decidable_of_iff' _ pageLink_iff

lemma not_pageLink_of_linkAt {text : Text} {l : Link} (h : linkAt text = some l) (hl : ¬ l.Page) :
    ¬ PageLink text := by
  rw [pageLink_iff, h]
  simpa using hl

lemma Rewritten.kept {c : Char} {rest out : Text} (h : Rewritten (c :: rest) out)
    (hnone : ¬ PageLink (c :: rest)) : ∃ more, out = c :: more ∧ Rewritten rest more := by
  generalize htext : c :: rest = text at h hnone
  cases h with
  | nil => cases htext
  | keep _ hrest =>
    cases htext
    exact ⟨_, rfl, hrest⟩
  | link hl _ => exact absurd ⟨_, hl, rfl⟩ hnone

lemma rewritten_cons_iff {c : Char} {rest out : Text} (hnone : ¬ PageLink (c :: rest)) :
    Rewritten (c :: rest) (c :: out) ↔ Rewritten rest out := by
  refine ⟨fun h => ?_, .keep hnone⟩
  obtain ⟨more, hmore, hrest⟩ := h.kept hnone
  cases hmore
  exact hrest

lemma rewritten_unopened_iff {front rest out : Text} (h : '[' ∉ front) :
    Rewritten (front ++ rest) (front ++ out) ↔ Rewritten rest out := by
  induction front with
  | nil => rfl
  | cons c front ih =>
    rw [List.mem_cons, not_or] at h
    exact (rewritten_cons_iff (not_pageLink_of_ne (Ne.symm h.1) _)).trans (ih h.2)

lemma Rewritten.linked {l : Link} {text out : Text} (h : Rewritten text out)
    (hlink : linkAt text = some l) (hl : l.Page) :
    ∃ more, out = ['[', '['] ++ l.label ++ [']', ']'] ++ more ∧ Rewritten l.behind more := by
  cases h with
  | nil => cases hlink
  | keep hnone _ => exact absurd (pageLink_iff.mpr ⟨l, hlink, hl⟩) hnone
  | link hother hrest =>
    rw [linkAt_eq hother.closed hother.url] at hlink
    cases hlink
    exact ⟨_, rfl, hrest⟩

/-- What is kept up to a character that opens nothing holds no link to a page: the replacement of one
begins with two brackets. -/
lemma Rewritten.copied {d : Char} (hd : d ≠ '[') {front rest out : Text}
    (h : Rewritten (front ++ d :: rest) (front ++ d :: out)) :
    (∀ k < front.length + 1, ¬ PageLink ((front ++ d :: rest).drop k)) ∧ Rewritten rest out := by
  induction front with
  | nil =>
    have hnone := not_pageLink_of_ne hd rest
    refine ⟨fun k hk => ?_, (rewritten_cons_iff hnone).mp h⟩
    obtain rfl : k = 0 := by simpa using hk
    exact hnone
  | cons c front ih =>
    have hnone : ¬ PageLink (c :: front ++ d :: rest) := by
      intro hpage
      obtain ⟨l, hlink, hl⟩ := pageLink_iff.mp hpage
      obtain ⟨more, hmore, -⟩ := h.linked hlink hl
      obtain ⟨a, label, hlabel⟩ := List.exists_cons_of_ne_nil hl.label
      have hsource := (linkAt_source hlink).1
      have ha : a ≠ '[' := fun ha => hl.opened (hlabel ▸ ha ▸ List.mem_cons_self)
      cases front with
      | nil =>
        simp [hlabel] at hmore
        exact hd hmore.2.1
      | cons e front =>
        simp [Link.source, hlabel] at hsource hmore
        exact ha (hsource.2.1.symm.trans hmore.2.1)
    obtain ⟨hnone', hrest⟩ := ih ((rewritten_cons_iff hnone).mp h)
    refine ⟨fun k hk => ?_, hrest⟩
    cases k with
    | zero => exact hnone
    | succ k => exact hnone' k (Nat.lt_of_succ_lt_succ hk)

/-- A label behind any number of opening brackets, which then are outside the link. -/
def Opened (label : Text) : Prop :=
  let core := label.dropWhile (· = '[')
  core ≠ [] ∧ '[' ∉ core ∧ ']' ∉ core

instance (label : Text) : Decidable (Opened label) := inferInstanceAs (Decidable (_ ∧ _ ∧ _))

lemma linkAt_tail {c : Char} {after label url behind : Text}
    (h : linkAt ('[' :: c :: after) = some ⟨c :: label, url, behind⟩) :
    linkAt ('[' :: after) = some ⟨label, url, behind⟩ := by
  rw [linkAt, Search.find] at h
  rw [linkAt]
  split at h
  · next hnone => cases h
  · next label' rest hfound =>
    split at hfound
    · cases hfound
      split at h <;> cases h
    · obtain ⟨found, hfind, heq⟩ := Option.map_eq_some_iff.mp hfound
      cases heq
      rw [hfind]
      split at h
      · cases h
      · next url' behind' hurl =>
        cases h
        dsimp only
        rw [hurl]

/-- A jump over an accepted address is right exactly if its label is one behind opening brackets. -/
lemma rewritten_page_iff {text label url behind out : Text}
    (h : linkAt text = some ⟨label, url, behind⟩) (hurl : isNotionPageLink url = true) :
    Rewritten text (['[', '['] ++ label ++ [']', ']'] ++ out) ↔
      Opened label ∧ Rewritten behind out := by
  induction label generalizing text with
  | nil =>
    have hnone := not_pageLink_of_linkAt h fun hl => hl.label rfl
    refine iff_of_false (fun hout => ?_) (fun hopened => hopened.1.1 rfl)
    obtain ⟨htext, -⟩ := linkAt_source h
    simp only [Link.source, List.nil_append, List.cons_append] at htext hout
    rw [htext] at hout hnone
    obtain ⟨more, hmore, hrest⟩ := hout.kept hnone
    cases hmore
    obtain ⟨last, hlast, -⟩ := hrest.kept (not_pageLink_of_ne (by decide) _)
    exact absurd (List.cons.inj hlast).1 (by decide)
  | cons c label ih =>
    obtain ⟨htext, hclosed⟩ := linkAt_source h
    simp only [Link.source, List.cons_append] at htext
    by_cases hc : c = '['
    · -- a first bracket of the label stays, and the jump from the next one is the same but for it
      subst hc
      have hnone := not_pageLink_of_linkAt h fun hl => hl.opened List.mem_cons_self
      have htail := ih (linkAt_tail (htext ▸ h))
      have hopened : Opened ('[' :: label) ↔ Opened label := by simp [Opened]
      rw [hopened, ← htail]
      rw [htext] at hnone ⊢
      exact rewritten_cons_iff hnone
    · have hopened : Opened (c :: label) ↔ '[' ∉ c :: label ∧ ']' ∉ c :: label := by
        simp [Opened, hc]
      rw [hopened]
      constructor
      · intro hout
        by_cases hl : Link.Page ⟨c :: label, url, behind⟩
        · obtain ⟨more, hmore, hrest⟩ := hout.linked h hl
          rw [List.append_cancel_left_eq] at hmore
          exact ⟨⟨hl.opened, hl.closed⟩, hmore ▸ hrest⟩
        · have hnone := not_pageLink_of_linkAt h hl
          rw [htext] at hout hnone
          obtain ⟨more, hmore, hrest⟩ := hout.kept hnone
          cases hmore
          obtain ⟨last, hlast, -⟩ := hrest.kept (not_pageLink_of_ne hc _)
          exact absurd (List.cons.inj hlast).1.symm hc
      · rintro ⟨⟨hfree, hfree'⟩, hrest⟩
        have hl : Link.Page ⟨c :: label, url, behind⟩ := ⟨by simp, hfree, hfree', hclosed, hurl⟩
        rw [(linkAt_source h).1]
        exact .link hl hrest

/-- A jump that is rewritten has a label behind opening brackets, and one that is not passes over no
link to a page. -/
def Clear (l : Link) : Prop :=
  if l.isPage then Opened l.label
  else ∀ k < l.source.length, ¬ PageLink ((l.source ++ l.behind).drop k)

instance (l : Link) : Decidable (Clear l) := inferInstanceAs (Decidable (ite _ _ _))

lemma rewritten_jump_iff {text out : Text} {l : Link} (h : linkAt text = some l) :
    Rewritten text (l.rewritten ++ out) ↔ Clear l ∧ Rewritten l.behind out := by
  obtain ⟨htext, -⟩ := linkAt_source h
  unfold Clear Link.rewritten
  split
  · next hpage =>
    rw [Link.isPage, Bool.and_eq_true] at hpage
    exact rewritten_page_iff h hpage.1
  · have hsource : l.source = '[' :: l.label ++ [']', '('] ++ l.url ++ [')'] := rfl
    constructor
    · intro hcopy
      rw [htext, hsource, List.append_assoc _ [')'], List.append_assoc _ [')'], List.singleton_append,
        List.singleton_append] at hcopy
      have := hcopy.copied (by decide)
      simpa [hsource, Nat.add_assoc] using this
    · rintro ⟨hnone, hrest⟩
      rw [htext]
      exact .copy hnone hrest

def jumps (text : Text) : List Link :=
  match _hfound : find ['['] text with
  | none => []
  | some (_, after) =>
    match _hlink : linkAt ('[' :: after) with
    | none => jumps after
    | some l => l :: jumps l.behind
termination_by text.length
decreasing_by
  all_goals
    have htext := congrArg List.length (Search.find_some _hfound)
    simp only [List.length_append, List.length_singleton] at htext
  · omega
  · have hbehind := length_behind _hlink
    rw [List.length_cons] at hbehind
    omega

/-- Exactly the links to pages are rewritten if and only if the loop jumps clear every time. -/
theorem rewritten_iff_clear (text : Text) :
    Rewritten text (rewriteLinks text) ↔ ∀ l ∈ jumps text, Clear l := by
  induction hn : text.length using Nat.strong_induction_on generalizing text with
  | _ n ih =>
    rw [rewriteLinks, jumps]
    split
    · next hfound =>
      have hnone := Search.notMem_of_find_singleton_none hfound
      simpa using (rewritten_unopened_iff hnone).mpr .nil
    · next front after hfound =>
      have htext : text = front ++ '[' :: after := by
        simpa using Search.find_some hfound
      have hfront : ∀ {out}, Rewritten text (front ++ out) ↔ Rewritten ('[' :: after) out := by
        intro out
        rw [htext]
        exact rewritten_unopened_iff (Search.notMem_of_find_singleton hfound)
      have hlen : after.length < text.length := by
        rw [htext, List.length_append, List.length_cons]
        omega
      split
      · next hlink =>
        have hnone : ¬ PageLink ('[' :: after) := by
          rw [pageLink_iff, hlink]
          simp
        rw [hfront, rewritten_cons_iff hnone, ih _ (hn ▸ hlen) after rfl]
      · next l hlink =>
        have hshort : l.behind.length < n := by
          have hlt := length_behind hlink
          rw [List.length_cons] at hlt
          omega
        rw [List.append_assoc, hfront, rewritten_jump_iff hlink, ih _ hshort l.behind rfl,
          List.forall_mem_cons]

def taskText : Text := "[ ] [P](P%20aaaaaaaaaaaaaaaaaaaaaaaa.md)".toList

/-- The jump begins at the box of a task. -/
theorem not_rewritten_taskText : ¬ Rewritten taskText (rewriteLinks taskText) := by
  have hout : rewriteLinks taskText = '[' :: "[ ] [P]]".toList := by decide +kernel
  rw [hout]
  intro h
  obtain ⟨more, hmore, h⟩ := h.kept (by decide +kernel)
  obtain ⟨last, hlast, -⟩ := h.kept (not_pageLink_of_ne (by decide) _)
  rw [hlast] at hmore
  exact absurd (List.cons.inj (List.cons.inj hmore).2).1 (by decide)

end Aeroric.NotionLinks
