import Aeroric.Segmentation

/-! The context of a question: the beginning of the open note and the fragments a search found, as far as
a budget of tokens allows. -/
namespace Aeroric.RagContext

open Highlights (Text isCjk split)
open Sse (trim trimStart trimEnd isWhitespace solid intercalate_concat)

def estimateTokens (text : Text) : ℕ :=
  let cjk := text.countP isCjk
  let other := text.countP fun ch => !isCjk ch
  cjk + if other = 0 then 0 else max (other / 4) 1

lemma estimateTokens_mono {front text : Text} (h : front <+: text) :
    estimateTokens front ≤ estimateTokens text := by
  have hcjk := h.sublist.countP_le (p := isCjk)
  have hother := h.sublist.countP_le (p := fun ch => !isCjk ch)
  unfold estimateTokens
  dsimp only
  split_ifs <;> omega

/-! The longest prefix within two limits. -/

/-- The search between a length that fits and one that does not. -/
def longestFit (fits : ℕ → Bool) (low high : ℕ) : ℕ :=
  if 1 < high - low then
    let mid := low + (high - low) / 2
    if fits mid then longestFit fits mid high else longestFit fits low mid
  else low
termination_by high - low

lemma longestFit_spec (fits : ℕ → Bool) (low high : ℕ) (hlow : fits low = true)
    (hhigh : fits high = false) (hlt : low < high) :
    longestFit fits low high < high ∧ fits (longestFit fits low high) = true ∧
      fits (longestFit fits low high + 1) = false := by
  induction low, high using longestFit.induct fits with
  | case1 low high hwide mid hfits ih =>
    rw [longestFit, if_pos hwide, if_pos hfits]
    exact ih hfits hhigh (by omega)
  | case2 low high hwide mid hfits ih =>
    rw [longestFit, if_pos hwide, if_neg hfits]
    obtain ⟨hbelow, hspec⟩ := ih hlow (Bool.eq_false_iff.mpr hfits) (by omega)
    exact ⟨hbelow.trans (by omega), hspec⟩
  | case3 low high hnarrow =>
    rw [longestFit, if_neg hnarrow]
    have hnext : low + 1 = high := by omega
    exact ⟨hlt, hlow, hnext ▸ hhigh⟩

def prefixWithin (text : Text) (maxChars maxTokens : ℕ) : Text :=
  let chars := text.take maxChars
  if estimateTokens chars ≤ maxTokens then chars
  else chars.take (longestFit (fun n => estimateTokens (chars.take n) ≤ maxTokens) 0 chars.length)

structure LongestPrefix (text : Text) (maxChars maxTokens : ℕ) (front : Text) : Prop where
  here : front <+: text
  chars : front.length ≤ maxChars
  tokens : estimateTokens front ≤ maxTokens
  longest : ∀ other, other <+: text → other.length ≤ maxChars → estimateTokens other ≤ maxTokens →
    other <+: front

lemma prefixWithin_longest (text : Text) (maxChars maxTokens : ℕ) :
    LongestPrefix text maxChars maxTokens (prefixWithin text maxChars maxTokens) := by
  have hchars : (text.take maxChars).length ≤ maxChars := List.length_take_le _ _
  have hinside {other : Text} (hother : other <+: text) (hlength : other.length ≤ maxChars) :
      other <+: text.take maxChars := List.prefix_take_iff.mpr ⟨hother, hlength⟩
  unfold prefixWithin
  dsimp only
  split
  · next hfits => exact ⟨List.take_prefix _ _, hchars, hfits, fun other h hlength _ => hinside h hlength⟩
  · next hwhole =>
    generalize hfront : text.take maxChars = chars at *
    have hzero : decide (estimateTokens (chars.take 0) ≤ maxTokens) = true := by
      rw [List.take_zero]
      exact decide_eq_true (Nat.zero_le _)
    have hend : decide (estimateTokens (chars.take chars.length) ≤ maxTokens) = false := by
      rw [List.take_length]
      exact decide_eq_false hwhole
    have hpos : 0 < chars.length := by
      refine List.length_pos_iff.mpr fun hnil => hwhole ?_
      rw [hnil]
      exact Nat.zero_le _
    obtain ⟨-, hfits, hnext⟩ := longestFit_spec
      (fun n => decide (estimateTokens (chars.take n) ≤ maxTokens)) 0 chars.length hzero hend hpos
    refine ⟨?_, ?_, of_decide_eq_true hfits, ?_⟩
    · exact (List.take_prefix _ _).trans (hfront ▸ List.take_prefix _ _)
    · exact (List.length_take_le' _ _).trans hchars
    · intro other hother hlength htokens
      refine List.prefix_take_iff.mpr ⟨hinside hother hlength, ?_⟩
      -- A longer one would contain the first prefix that does not fit.
      by_contra hlong
      refine of_decide_eq_false hnext ((estimateTokens_mono ?_).trans htokens)
      exact List.prefix_of_prefix_length_le (List.take_prefix _ _) (hinside hother hlength)
        ((List.length_take_le _ _).trans (by omega))

/-! The assembly. -/

structure CurrentNote where
  path : Text
  title : Text
  body : Text

structure SearchHit where
  path : Text
  title : Text
  heading : Text
  body : Text
  charStart : ℕ

structure ContextOptions where
  maxTokens : ℕ
  currentChars : ℕ

structure Citation where
  index : ℕ
  hit : SearchHit

structure Assembled where
  text : Text
  citations : List Citation
  tokens : ℕ
  truncated : Bool

def currentBudgetDivisor : ℕ := 2

def fragmentsHeader : Text := "## Retrieved fragments".toList

def gap : Text := "\n\n".toList

/-- The text with the block behind it, unless that is too much. -/
def tryAppend (text block : Text) (maxTokens : ℕ) : Option Text :=
  let joined := (if text = [] then text else text ++ gap) ++ block
  if maxTokens < estimateTokens joined then none else some joined

def fragmentOf (index : ℕ) (hit : SearchHit) : Text :=
  let number := "[".toList ++ (toString index).toList ++ "]".toList
  let label := if trim hit.title = [] then number else number ++ " ".toList ++ trim hit.title
  let label := if trim hit.heading = [] then label else label ++ " › ".toList ++ trim hit.heading
  "### ".toList ++ label ++ gap ++ trimEnd hit.body

def excerptOf (note : CurrentNote) (options : ContextOptions) : Text :=
  prefixWithin (trimStart note.body) options.currentChars (options.maxTokens / currentBudgetDivisor)

def noteBlock (note : CurrentNote) (excerpt : Text) : Text :=
  "## Current note: ".toList ++ note.title ++ gap ++ trimEnd excerpt

structure Draft where
  text : Text
  citations : List Citation
  truncated : Bool

/-- The current note, with the place up to which the excerpt has it. -/
def appendCurrent (note : CurrentNote) (options : ContextOptions) : Draft × ℕ :=
  let body := trimStart note.body
  let excerpt := excerptOf note options
  let dropped := note.body.length - body.length
  let appended := if trim excerpt = [] then none
    else tryAppend [] (noteBlock note excerpt) options.maxTokens
  match appended with
  | some text => (⟨text, [], excerpt.length < body.length⟩, dropped + excerpt.length)
  | none => (⟨[], [], excerpt.length < body.length || trim body ≠ []⟩, 0)

def blockOf (cited : List Citation) (fragment : Text) : Text :=
  if cited.isEmpty then fragmentsHeader ++ gap ++ fragment else fragment

def Draft.append (covered : SearchHit → Bool) (maxTokens : ℕ) (d : Draft) (hit : SearchHit) : Draft :=
  if covered hit then d
  else
    let index := d.citations.length + 1
    match tryAppend d.text (blockOf d.citations (fragmentOf index hit)) maxTokens with
    | none => { d with truncated := true }
    | some text => { d with text := text, citations := d.citations ++ [⟨index, hit⟩] }

def opened (current : Option CurrentNote) (options : ContextOptions) : Draft × ℕ :=
  match current with
  | some note => appendCurrent note options
  | none => (⟨[], [], false⟩, 0)

def assemble (current : Option CurrentNote) (hits : List SearchHit) (options : ContextOptions) :
    Assembled :=
  let start := opened current options
  let currentPath := (current.map CurrentNote.path).getD []
  let covered hit := decide (hit.path = currentPath ∧ hit.charStart < start.2)
  let d := hits.foldl (Draft.append covered options.maxTokens) start.1
  ⟨d.text, d.citations, estimateTokens d.text, d.truncated⟩

/-! What the context is made of. -/

def fragmentBlocks (citations : List Citation) : List Text :=
  citations.mapIdx fun i c => blockOf (citations.take i) (fragmentOf c.index c.hit)

lemma fragmentBlocks_concat (citations : List Citation) (c : Citation) :
    fragmentBlocks (citations ++ [c]) =
      fragmentBlocks citations ++ [blockOf citations (fragmentOf c.index c.hit)] := by
  unfold fragmentBlocks
  rw [List.mapIdx_append, List.mapIdx_singleton]
  congr 1
  · refine List.ext_getElem (by simp) fun i hi _ => ?_
    rw [List.length_mapIdx] at hi
    simp only [List.getElem_mapIdx]
    rw [List.take_append_of_le_length hi.le]
  · simp

lemma append_gap_ne_nil (front back : Text) : front ++ gap ++ back ≠ [] := by
  intro hnil
  have hgap : gap = [] := (List.append_eq_nil_iff.mp (List.append_eq_nil_iff.mp hnil).1).2
  cases hgap

lemma blockOf_ne_nil (cited : List Citation) (index : ℕ) (hit : SearchHit) :
    blockOf cited (fragmentOf index hit) ≠ [] := by
  unfold blockOf
  split
  · exact append_gap_ne_nil _ _
  · exact append_gap_ne_nil _ _

lemma solid_body_within (cited : List Citation) (index : ℕ) (hit : SearchHit) :
    solid hit.body <:+: solid (blockOf cited (fragmentOf index hit)) := by
  have hend : trimEnd hit.body <:+ blockOf cited (fragmentOf index hit) := by
    have hfragment : trimEnd hit.body <:+ fragmentOf index hit := List.suffix_append _ _
    unfold blockOf
    split
    · exact hfragment.trans (List.suffix_append _ _)
    · exact hfragment
  have hsolid : solid (trimEnd hit.body) = solid hit.body := Sse.solid_rdropWhile (fun _ h => h) _
  rw [← hsolid]
  exact (hend.filter _).isInfix

lemma intercalate_ne_nil {blocks : List Text} (h : ∀ block ∈ blocks, block ≠ []) (hne : blocks ≠ []) :
    gap.intercalate blocks ≠ [] := by
  cases blocks with
  | nil => exact absurd rfl hne
  | cons block blocks =>
    have hblock := h block List.mem_cons_self
    cases blocks with
    | nil => simpa using hblock
    | cons next blocks => simp [List.intercalate_cons_cons, hblock]

lemma infix_intercalate {blocks : List Text} {block : Text} (h : block ∈ blocks) :
    block <:+: gap.intercalate blocks := by
  induction blocks with
  | nil => cases h
  | cons first blocks ih =>
    cases blocks with
    | nil =>
      rw [List.mem_singleton.mp h]
      simp
    | cons next blocks =>
      rw [List.intercalate_cons_cons]
      rcases List.mem_cons.mp h with rfl | h
      · exact (List.prefix_append _ _).isInfix.trans (List.prefix_append _ _).isInfix
      · exact (ih h).trans (List.suffix_append _ _).isInfix

lemma cited_within {opening : List Text} {citations : List Citation} {c : Citation} (h : c ∈ citations) :
    solid c.hit.body <:+: solid (gap.intercalate (opening ++ fragmentBlocks citations)) := by
  obtain ⟨i, hi, rfl⟩ := List.mem_iff_getElem.mp h
  have hblock : blockOf (citations.take i) (fragmentOf citations[i].index citations[i].hit) ∈
      fragmentBlocks citations := List.mem_mapIdx.mpr ⟨i, hi, rfl⟩
  exact (solid_body_within _ _ _).trans ((infix_intercalate (List.mem_append_right _ hblock)).filter _)

lemma tryAppend_eq {blocks : List Text} (hblocks : ∀ b ∈ blocks, b ≠ []) (block : Text) (maxTokens : ℕ) :
    tryAppend (gap.intercalate blocks) block maxTokens =
      if maxTokens < estimateTokens (gap.intercalate (blocks ++ [block])) then none
      else some (gap.intercalate (blocks ++ [block])) := by
  have hjoined : (if gap.intercalate blocks = [] then gap.intercalate blocks
      else gap.intercalate blocks ++ gap) ++ block = gap.intercalate (blocks ++ [block]) := by
    by_cases hempty : blocks = []
    · simp [hempty]
    · rw [if_neg (intercalate_ne_nil hblocks hempty), intercalate_concat gap hempty]
  rw [tryAppend, hjoined]

/-- The hit's fragment was too much behind some of the cited ones. -/
def Refused (opening : List Text) (maxTokens : ℕ) (citations : List Citation) (hit : SearchHit) : Prop :=
  ∃ n ≤ citations.length, maxTokens < estimateTokens (gap.intercalate
    (opening ++ fragmentBlocks (citations.take n) ++ [blockOf (citations.take n) (fragmentOf (n + 1) hit)]))

lemma Refused.concat {opening : List Text} {maxTokens : ℕ} {citations : List Citation} {hit : SearchHit}
    (h : Refused opening maxTokens citations hit) (c : Citation) :
    Refused opening maxTokens (citations ++ [c]) hit := by
  obtain ⟨n, hn, hlong⟩ := h
  refine ⟨n, ?_, ?_⟩
  · rw [List.length_append]
    exact Nat.le_add_right_of_le hn
  · rwa [List.take_append_of_le_length hn]

/-- The loop has seen some of the hits. -/
structure Drafted (opening : List Text) (whole : Prop) (covered : SearchHit → Bool) (maxTokens : ℕ)
    (seen : List SearchHit) (d : Draft) : Prop where
  tokens : estimateTokens d.text ≤ maxTokens
  numbered : d.citations.map Citation.index = List.range' 1 d.citations.length
  cited : (d.citations.map Citation.hit).Sublist seen
  text : d.text = gap.intercalate (opening ++ fragmentBlocks d.citations)
  complete : d.truncated = false →
    whole ∧ ∀ hit ∈ seen, covered hit = true ∨ ∃ c ∈ d.citations, c.hit = hit
  uncited : ∀ hit ∈ seen, covered hit = true ∨ (∃ c ∈ d.citations, c.hit = hit) ∨
    Refused opening maxTokens d.citations hit

section Loop
variable {opening : List Text} {whole : Prop} {covered : SearchHit → Bool} {maxTokens : ℕ}
  {seen : List SearchHit} {d : Draft}

lemma fragmentBlocks_ne_nil (citations : List Citation) : ∀ block ∈ fragmentBlocks citations, block ≠ [] := by
  intro block hblock
  obtain ⟨i, hi, rfl⟩ := List.mem_mapIdx.mp hblock
  exact blockOf_ne_nil _ _ _

lemma Drafted.append (hopening : ∀ block ∈ opening, block ≠ [])
    (h : Drafted opening whole covered maxTokens seen d) (hit : SearchHit) :
    Drafted opening whole covered maxTokens (seen ++ [hit]) (d.append covered maxTokens hit) := by
  have hsublist : (d.citations.map Citation.hit).Sublist (seen ++ [hit]) :=
    h.cited.trans (List.sublist_append_left _ _)
  have hblocks : ∀ block ∈ opening ++ fragmentBlocks d.citations, block ≠ [] := by
    intro block hblock
    rcases List.mem_append.mp hblock with hblock | hblock
    · exact hopening block hblock
    · exact fragmentBlocks_ne_nil _ block hblock
  have hseen {P : SearchHit → Prop} (hbefore : ∀ other ∈ seen, P other) (hnow : P hit) :
      ∀ other ∈ seen ++ [hit], P other := by
    intro other hother
    rcases List.mem_append.mp hother with hother | hother
    · exact hbefore other hother
    · exact List.mem_singleton.mp hother ▸ hnow
  unfold Draft.append
  split
  · next hcovered =>
    exact ⟨h.tokens, h.numbered, hsublist, h.text,
      fun hfalse => ⟨(h.complete hfalse).1, hseen (h.complete hfalse).2 (.inl hcovered)⟩,
      hseen h.uncited (.inl hcovered)⟩
  · dsimp only
    generalize hblock : blockOf d.citations (fragmentOf (d.citations.length + 1) hit) = block
    have happend := tryAppend_eq hblocks block maxTokens
    rw [← h.text] at happend
    rw [happend]
    by_cases hlong : maxTokens < estimateTokens (gap.intercalate (opening ++ fragmentBlocks d.citations ++
        [block]))
    · rw [if_pos hlong]
      refine ⟨h.tokens, h.numbered, hsublist, h.text, nofun, hseen h.uncited (.inr (.inr ?_))⟩
      exact ⟨d.citations.length, le_rfl, by rwa [List.take_length, hblock]⟩
    · rw [if_neg hlong]
      have hnew : ∃ c ∈ d.citations ++ [⟨d.citations.length + 1, hit⟩], c.hit = hit :=
        ⟨_, List.mem_append_right _ (List.mem_singleton.mpr rfl), rfl⟩
      have hold {other : SearchHit} (hcited : ∃ c ∈ d.citations, c.hit = other) :
          ∃ c ∈ d.citations ++ [⟨d.citations.length + 1, hit⟩], c.hit = other :=
        hcited.imp fun c hc => ⟨List.mem_append_left _ hc.1, hc.2⟩
      refine ⟨Nat.le_of_not_lt hlong, ?_, ?_, ?_, fun hfalse => ⟨(h.complete hfalse).1, ?_⟩, ?_⟩
      · rw [List.map_append, h.numbered, List.length_append, List.length_singleton, List.range'_concat]
        simp [Nat.add_comm]
      · rw [List.map_append]
        exact h.cited.append (List.Sublist.refl _)
      · rw [fragmentBlocks_concat, ← List.append_assoc, hblock]
      · exact hseen (fun other hother => ((h.complete hfalse).2 other hother).imp_right hold) (.inr hnew)
      · exact hseen (fun other hother => (h.uncited other hother).imp_right
          (Or.imp hold (Refused.concat · _))) (.inr (.inl hnew))

lemma Drafted.run (hopening : ∀ block ∈ opening, block ≠ []) (hits : List SearchHit)
    (h : Drafted opening whole covered maxTokens seen d) :
    Drafted opening whole covered maxTokens (seen ++ hits)
      (hits.foldl (Draft.append covered maxTokens) d) := by
  induction hits generalizing seen d with
  | nil => simpa using h
  | cons hit hits ih =>
    have hrest := ih (h.append hopening hit)
    rwa [List.append_assoc, List.singleton_append] at hrest

end Loop

/-- What stands before the fragments: the block of the current note, unless its excerpt is blank or the
block does not fit. -/
def openingBlocks (current : Option CurrentNote) (options : ContextOptions) : List Text :=
  match current with
  | none => []
  | some note =>
    let block := noteBlock note (excerptOf note options)
    if trim (excerptOf note options) = [] ∨ options.maxTokens < estimateTokens block then [] else [block]

/-- The hit begins in the excerpt of the current note that stands before the fragments. -/
def Covered (current : Option CurrentNote) (options : ContextOptions) (hit : SearchHit) : Prop :=
  openingBlocks current options ≠ [] ∧ ∃ note ∈ current, hit.path = note.path ∧
    hit.charStart <
      note.body.length - (trimStart note.body).length + (excerptOf note options).length

structure Opening (current : Option CurrentNote) (options : ContextOptions) (start : Draft × ℕ) :
    Prop where
  first : openingBlocks current options = [] ∧ start.2 = 0 ∨ ∃ note ∈ current,
    openingBlocks current options = [noteBlock note (excerptOf note options)] ∧
      start.2 = note.body.length - (trimStart note.body).length + (excerptOf note options).length
  text : start.1.text = gap.intercalate (openingBlocks current options)
  tokens : estimateTokens start.1.text ≤ options.maxTokens
  citations : start.1.citations = []
  whole : start.1.truncated = false →
    ∀ note ∈ current, solid note.body <:+: solid (gap.intercalate (openingBlocks current options))

lemma solid_noteBlock {note : CurrentNote} {options : ContextOptions}
    (h : ¬ (excerptOf note options).length < (trimStart note.body).length) :
    solid note.body <:+: solid (noteBlock note (excerptOf note options)) := by
  have hfront := (prefixWithin_longest (trimStart note.body) options.currentChars
    (options.maxTokens / currentBudgetDivisor)).here
  have hwhole : excerptOf note options = trimStart note.body :=
    hfront.eq_of_length (Nat.le_antisymm hfront.length_le (Nat.le_of_not_lt h))
  have hsolid : solid (trimEnd (excerptOf note options)) = solid note.body := by
    rw [hwhole]
    exact (Sse.solid_rdropWhile (fun _ h => h) _).trans (Sse.solid_trimStart _)
  rw [← hsolid]
  exact ((List.suffix_append _ _).filter _).isInfix

lemma opened_opening (current : Option CurrentNote) (options : ContextOptions) :
    Opening current options (opened current options) := by
  have hnothing : estimateTokens [] ≤ options.maxTokens := Nat.zero_le _
  cases current with
  | none => exact ⟨.inl ⟨rfl, rfl⟩, rfl, hnothing, rfl, nofun⟩
  | some note =>
    have hone : (if trim (excerptOf note options) = [] then none
          else tryAppend [] (noteBlock note (excerptOf note options)) options.maxTokens) =
        if trim (excerptOf note options) = [] ∨
            options.maxTokens < estimateTokens (noteBlock note (excerptOf note options)) then none
        else some (noteBlock note (excerptOf note options)) := by
      rw [ite_or]
      exact if_congr Iff.rfl rfl rfl
    simp only [opened, appendCurrent, hone]
    by_cases hshort : trim (excerptOf note options) = [] ∨
        options.maxTokens < estimateTokens (noteBlock note (excerptOf note options))
    · have hblocks : openingBlocks (some note) options = [] := if_pos hshort
      simp only [if_pos hshort]
      refine ⟨.inl ⟨hblocks, rfl⟩, by rw [hblocks]; rfl, hnothing, rfl, ?_⟩
      intro hfalse other hother
      obtain rfl : note = other := Option.some.inj hother
      have hblank : trim (trimStart note.body) = [] := by
        by_contra hne
        simp [hne] at hfalse
      rw [Sse.trim_eq_nil, Sse.solid_trimStart] at hblank
      rw [hblank]
      exact List.nil_infix
    · have hblocks : openingBlocks (some note) options = [noteBlock note (excerptOf note options)] :=
        if_neg hshort
      simp only [if_neg hshort]
      refine ⟨.inr ⟨note, rfl, hblocks, rfl⟩, by rw [hblocks]; simp,
        Nat.le_of_not_lt (not_or.mp hshort).2, rfl, ?_⟩
      intro hfalse other hother
      obtain rfl : note = other := Option.some.inj hother
      rw [hblocks, List.intercalate_singleton]
      exact solid_noteBlock (of_decide_eq_false hfalse)

/-- The hits of the current note are chunks of its present body. -/
def Fresh (current : Option CurrentNote) (hits : List SearchHit) : Prop :=
  ∀ note ∈ current, ∀ hit ∈ hits, hit.path = note.path →
    ∃ c ∈ split note.body, hit.body = c.body ∧ hit.charStart = c.charStart

structure Honest (current : Option CurrentNote) (hits : List SearchHit) (options : ContextOptions)
    (a : Assembled) : Prop where
  tokens : a.tokens = estimateTokens a.text ∧ estimateTokens a.text ≤ options.maxTokens
  numbered : a.citations.map Citation.index = List.range' 1 a.citations.length
  cited : (a.citations.map Citation.hit).Sublist hits
  text : a.text = gap.intercalate (openingBlocks current options ++ fragmentBlocks a.citations)
  uncited : ∀ hit ∈ hits, Covered current options hit ∨ (∃ c ∈ a.citations, c.hit = hit) ∨
    Refused (openingBlocks current options) options.maxTokens a.citations hit
  excerpt : ∀ note ∈ current, LongestPrefix (trimStart note.body) options.currentChars
    (options.maxTokens / currentBudgetDivisor) (excerptOf note options)
  complete : a.truncated = false → Fresh current hits →
    (∀ hit ∈ hits, solid hit.body <:+: solid a.text) ∧
      ∀ note ∈ current, solid note.body <:+: solid a.text

end Aeroric.RagContext
