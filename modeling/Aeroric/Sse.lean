import Aeroric.Framing
import Aeroric.Json
import Mathlib.Data.List.DropRight

/-! Server-sent events: where one ends, and what its data lines say. -/
namespace Aeroric.Sse
open Json Framing

def position (pattern : List UInt8) : List UInt8 → Option ℕ
  | [] => none
  | byte :: bytes =>
    if pattern.isPrefixOf (byte :: bytes) then some 0 else (position pattern bytes).map (· + 1)

/-- The earlier of two line feeds and of two carriage returns with theirs. -/
def findSseDelimiter (bytes : List UInt8) : Option (ℕ × ℕ) :=
  let lf := (position [10, 10] bytes).map (·, 2)
  let crlf := (position [13, 10, 13, 10] bytes).map (·, 4)
  match lf, crlf with
  | some left, some right => some (if left.1 ≤ right.1 then left else right)
  | some value, none => some value
  | none, some value => some value
  | none, none => none

variable {pattern bytes : List UInt8} {i : ℕ}

lemma position_some (h : position pattern bytes = some i) :
    pattern <+: bytes.drop i ∧ ∀ j < i, ¬pattern <+: bytes.drop j := by
  induction bytes generalizing i with
  | nil => cases h
  | cons byte bytes ih =>
    unfold position at h
    split at h
    · rename_i hpre
      cases h
      exact ⟨List.isPrefixOf_iff_prefix.mp hpre, fun j hj => absurd hj (Nat.not_lt_zero j)⟩
    · rename_i hpre
      obtain ⟨k, hk, rfl⟩ := Option.map_eq_some_iff.mp h
      obtain ⟨hfound, hfirst⟩ := ih hk
      refine ⟨hfound, fun j hj => ?_⟩
      cases j with
      | zero => exact fun h => hpre (List.isPrefixOf_iff_prefix.mpr h)
      | succ j => exact hfirst j (by omega)

lemma position_of_prefix (hpattern : pattern ≠ [])
    (hfound : pattern <+: bytes.drop i) (hfirst : ∀ j < i, ¬pattern <+: bytes.drop j) :
    position pattern bytes = some i := by
  induction bytes generalizing i with
  | nil =>
    rw [List.drop_nil, List.prefix_nil] at hfound
    exact absurd hfound hpattern
  | cons byte bytes ih =>
    unfold position
    cases i with
    | zero => exact if_pos (List.isPrefixOf_iff_prefix.mpr hfound)
    | succ i =>
      have hnot : ¬pattern.isPrefixOf (byte :: bytes) = true := fun h =>
        hfirst 0 (Nat.succ_pos i) (List.isPrefixOf_iff_prefix.mp h)
      rw [if_neg hnot, ih hfound fun j hj => hfirst (j + 1) (Nat.succ_lt_succ hj)]
      rfl

lemma position_none (hpattern : pattern ≠ [])
    (h : position pattern bytes = none) (i : ℕ) : ¬pattern <+: bytes.drop i := by
  induction bytes generalizing i with
  | nil =>
    rw [List.drop_nil, List.prefix_nil]
    exact hpattern
  | cons byte bytes ih =>
    unfold position at h
    split at h
    · cases h
    · rename_i hpre
      cases i with
      | zero => exact fun h => hpre (List.isPrefixOf_iff_prefix.mpr h)
      | succ i => exact ih (Option.map_eq_none_iff.mp h) i

lemma length_of_prefix_drop (hpattern : pattern ≠ [])
    (h : pattern <+: bytes.drop i) : i + pattern.length ≤ bytes.length := by
  have hlength := h.length_le
  have hpos := List.length_pos_iff.mpr hpattern
  rw [List.length_drop] at hlength
  omega

/-- What lies before the end of the old bytes was there already. -/
lemma prefix_drop_append {pattern bytes more : List UInt8}
    (hinside : i + pattern.length ≤ bytes.length) :
    pattern <+: (bytes ++ more).drop i ↔ pattern <+: bytes.drop i := by
  rw [List.drop_append_of_le_length (by omega)]
  constructor
  · intro h
    exact List.prefix_of_prefix_length_le h (List.prefix_append ..)
      (by rw [List.length_drop]; omega)
  · intro h
    exact h.trans (List.prefix_append ..)

lemma position_append (hpattern : pattern ≠ [])
    (h : position pattern bytes = some i) (more : List UInt8) :
    position pattern (bytes ++ more) = some i := by
  obtain ⟨hfound, hfirst⟩ := position_some h
  have hinside := length_of_prefix_drop hpattern hfound
  refine position_of_prefix hpattern ((prefix_drop_append hinside).mpr hfound) fun j hj => ?_
  rw [prefix_drop_append (by omega)]
  exact hfirst j hj

/-- A pattern that only more bytes bring reaches beyond the old ones. -/
lemma position_append_none {pattern bytes more : List UInt8} (hpattern : pattern ≠ [])
    (h : position pattern bytes = none) (h' : position pattern (bytes ++ more) = some i) :
    bytes.length < i + pattern.length := by
  by_contra hle
  exact position_none hpattern h i
    ((prefix_drop_append (Nat.not_lt.mp hle)).mp (position_some h').1)

lemma findSseDelimiter_lawful : Finder.Lawful findSseDelimiter where
  inside := by
    intro bytes i n h
    have hlf {k : ℕ} (hk : position [10, 10] bytes = some k) : k + 2 ≤ bytes.length :=
      length_of_prefix_drop (by decide) (position_some hk).1
    have hcrlf {k : ℕ} (hk : position [13, 10, 13, 10] bytes = some k) : k + 4 ≤ bytes.length :=
      length_of_prefix_drop (by decide) (position_some hk).1
    unfold findSseDelimiter at h
    cases hl : position [10, 10] bytes <;> cases hc : position [13, 10, 13, 10] bytes <;>
      simp only [hl, hc, Option.map_some, Option.map_none] at h
    · cases h
    · cases h
      exact ⟨by decide, hcrlf hc⟩
    · cases h
      exact ⟨by decide, hlf hl⟩
    · split at h <;> cases h
      · exact ⟨by decide, hlf hl⟩
      · exact ⟨by decide, hcrlf hc⟩
  stable := by
    intro bytes r h more
    unfold findSseDelimiter at h ⊢
    have hlf {k : ℕ} (hk : position [10, 10] bytes = some k) :=
      position_append (by decide) hk more
    have hcrlf {k : ℕ} (hk : position [13, 10, 13, 10] bytes = some k) :=
      position_append (by decide) hk more
    cases hl : position [10, 10] bytes with
    | none =>
      cases hc : position [13, 10, 13, 10] bytes with
      | none => simp [hl, hc] at h
      | some q =>
        simp only [hl, hc, Option.map_some, Option.map_none] at h
        rw [hcrlf hc]
        cases hl' : position [10, 10] (bytes ++ more) with
        | none => exact h
        | some p =>
          -- The line feeds came with the new bytes, after the old delimiter.
          have hp := position_append_none (by decide) hl hl'
          have hq := length_of_prefix_drop (by decide) (position_some hc).1
          simp only [List.length_cons, List.length_nil] at hp hq
          simp only [Option.map_some]
          rw [if_neg (by omega)]
          exact h
    | some p =>
      rw [hlf hl]
      cases hc : position [13, 10, 13, 10] bytes with
      | some q =>
        rw [hcrlf hc]
        simpa only [hl, hc] using h
      | none =>
        simp only [hl, hc, Option.map_some, Option.map_none] at h
        cases hc' : position [13, 10, 13, 10] (bytes ++ more) with
        | none => exact h
        | some q =>
          have hq := position_append_none (by decide) hc hc'
          have hp := length_of_prefix_drop (by decide) (position_some hl).1
          simp only [List.length_cons, List.length_nil] at hp hq
          simp only [Option.map_some]
          suffices p ≤ q by
            rw [if_pos this]
            exact h
          by_contra hlt
          -- The two would share bytes: the third of the one is not the second of the other.
          obtain rfl : p = q + 1 := by omega
          obtain ⟨front, hfront⟩ := (position_some hc').1
          obtain ⟨back, hback⟩ := (position_some (hlf hl)).1
          have hdrop : (bytes ++ more).drop (q + 1) = ((bytes ++ more).drop q).tail := by
            rw [List.tail_drop]
          rw [hdrop, ← hfront] at hback
          simp at hback

/-! The text of an event. -/

def isWhitespace (c : Char) : Bool :=
  let n := c.toNat
  (9 ≤ n && n ≤ 13) || n = 0x20 || n = 0x85 || n = 0xa0 || n = 0x1680 ||
    (0x2000 ≤ n && n ≤ 0x200a) || n = 0x2028 || n = 0x2029 || n = 0x202f || n = 0x205f || n = 0x3000

def trimStart (text : List Char) : List Char := text.dropWhile isWhitespace

def trim (text : List Char) : List Char := (trimStart text).rdropWhile isWhitespace

lemma trim_trim (text : List Char) : trim (trim text) = trim text := by
  have hstart : trimStart (trim text) = trim text := by
    unfold trimStart
    rw [List.dropWhile_eq_self_iff]
    intro hlength
    -- What is trimmed at the end is a prefix of what is trimmed at the start.
    have hfront : trim text <+: trimStart text := List.rdropWhile_prefix isWhitespace _
    rw [hfront.getElem hlength]
    exact List.dropWhile_get_zero_not isWhitespace text (hlength.trans_le hfront.length_le)
  unfold trim at hstart ⊢
  rw [hstart, List.rdropWhile_idempotent]

lemma trim_cons {c : Char} (h : isWhitespace c = true) (text : List Char) :
    trim (c :: text) = trim text := by
  rw [trim, trimStart, List.dropWhile_cons_of_pos h]
  rfl

lemma trim_concat {c : Char} (h : isWhitespace c = true) (text : List Char) :
    trim (text ++ [c]) = trim text := by
  unfold trim trimStart
  rw [List.dropWhile_append]
  split
  · next hempty =>
    rw [List.isEmpty_iff.mp hempty, List.dropWhile_cons_of_pos h, List.dropWhile_nil]
  · exact List.rdropWhile_concat_pos _ _ _ h

/-- The characters that are not white space. -/
def solid (text : List Char) : List Char := text.filter fun c => !isWhitespace c

@[simp] lemma solid_nil : solid [] = [] := rfl

@[simp] lemma solid_append (front back : List Char) : solid (front ++ back) = solid front ++ solid back :=
  List.filter_append ..

lemma solid_eq_nil {text : List Char} : solid text = [] ↔ ∀ c ∈ text, isWhitespace c = true := by
  simp [solid, List.filter_eq_nil_iff]

lemma trim_eq_nil {text : List Char} : trim text = [] ↔ solid text = [] := by
  rw [solid_eq_nil, trim, List.rdropWhile_eq_nil_iff, trimStart]
  constructor
  · intro h c hc
    rw [← List.takeWhile_append_dropWhile (p := isWhitespace) (l := text)] at hc
    rcases List.mem_append.mp hc with hc | hc
    · exact List.mem_takeWhile_imp hc
    · exact h c hc
  · exact fun h c hc => h c ((List.dropWhile_sublist _).subset hc)

lemma solid_trimStart (text : List Char) : solid (trimStart text) = solid text := by
  have hfront : solid (text.takeWhile isWhitespace) = [] :=
    solid_eq_nil.mpr fun c hc => List.mem_takeWhile_imp hc
  have hwhole := congrArg solid (List.takeWhile_append_dropWhile (p := isWhitespace) (l := text))
  rwa [solid_append, hfront, List.nil_append] at hwhole

lemma solid_rdropWhile {p : Char → Bool} (hp : ∀ c, p c = true → isWhitespace c = true) (text : List Char) :
    solid (text.rdropWhile p) = solid text := by
  induction text using List.reverseRecOn with
  | nil => rfl
  | append_singleton text c ih =>
    by_cases hc : p c = true
    · rw [List.rdropWhile_concat_pos _ _ _ hc, ih, solid_append]
      simp [solid, hp c hc]
    · rw [List.rdropWhile_concat_neg _ _ _ hc]

lemma solid_trim (text : List Char) : solid (trim text) = solid text :=
  (solid_rdropWhile (fun _ h => h) _).trans (solid_trimStart text)

def trimEnd (text : List Char) : List Char := text.rdropWhile isWhitespace

lemma trim_trimEnd (text : List Char) : trim (trimEnd text) = trim text := by
  induction text using List.reverseRecOn with
  | nil => rfl
  | append_singleton text c ih =>
    by_cases hc : isWhitespace c = true
    · rw [trim_concat hc, trimEnd, List.rdropWhile_concat_pos _ _ _ hc]
      exact ih
    · rw [trimEnd, List.rdropWhile_concat_neg _ _ _ hc]

/-- The lines end at a line feed, and a carriage return before it is no part of them. -/
def lines (text : List Char) : List (List Char) :=
  let parts := text.splitOn '\n'
  let whole := parts.dropLast.map fun line =>
    if line.getLast? = some '\r' then line.dropLast else line
  match parts.getLast? with
  | some (c :: line) => whole ++ [c :: line]
  | _ => whole

lemma splitOn_cons (sep c : Char) (text : List Char) :
    (c :: text).splitOn sep =
      if c = sep then [] :: text.splitOn sep else (text.splitOn sep).modifyHead (List.cons c) := by
  simp only [List.splitOn, List.splitOnP_cons_eq_if_modifyHead, beq_iff_eq]

lemma notMem_splitOn (sep : Char) (text : List Char) : ∀ part ∈ text.splitOn sep, sep ∉ part := by
  induction text with
  | nil => simp
  | cons c text ih =>
    obtain ⟨first, rest, hsplit⟩ := List.exists_cons_of_ne_nil (List.splitOn_ne_nil sep text)
    rw [hsplit] at ih
    rw [splitOn_cons, hsplit]
    split
    · rintro part (_ | ⟨_, hpart⟩)
      · exact List.not_mem_nil
      · exact ih part hpart
    · next hc =>
      rintro part (_ | ⟨_, hpart⟩)
      · rw [List.mem_cons, not_or]
        exact ⟨Ne.symm hc, ih first (.head _)⟩
      · exact ih part (.tail _ hpart)

lemma intercalate_concat (sep : List Char) {ls : List (List Char)} (h : ls ≠ []) (l : List Char) :
    sep.intercalate (ls ++ [l]) = sep.intercalate ls ++ sep ++ l := by
  induction ls with
  | nil => exact absurd rfl h
  | cons first ls ih =>
    cases ls with
    | nil => simp [List.intercalate]
    | cons second ls =>
      rw [List.cons_append, List.cons_append, List.intercalate_cons_cons,
        List.intercalate_cons_cons, ← List.cons_append, ih (List.cons_ne_nil _ _)]
      simp only [List.append_assoc]

def unlines (lines : List (List Char)) : List Char := lines.flatMap (· ++ ['\n'])

def stripPrefix (pattern text : List Char) : Option (List Char) :=
  if pattern.isPrefixOf text then some (text.drop pattern.length) else none

def dataOf (text : List Char) : List Char :=
  ['\n'].intercalate (((lines text).filterMap (stripPrefix "data:".toList)).map trimStart)

example : dataOf "event: x\r\ndata:  a\ndata:b\n".toList = "a\nb".toList := by decide

/-- What other libraries do: bytes become text, text a JSON value, and a value text. -/
structure Codec where
  fromUtf8Lossy : List UInt8 → List Char
  fromStr : List Char → Option Value
  toText : Value → String

/-- What a bridge writes: an event with its data, data alone, or bytes as they came. -/
inductive Out
  | event (name : String) (payload : Value)
  | data (payload : Value)
  | raw (bytes : List UInt8)

/-- What a bridge makes of an event before it looks into it. -/
inductive Message
  | blank
  | done
  | unreadable
  | chunk (value : Value)

def Codec.message (codec : Codec) (bytes : List UInt8) : Message :=
  let data := dataOf (codec.fromUtf8Lossy bytes)
  if trim data = [] then .blank
  else if trim data = "[DONE]".toList then .done
  else
    match codec.fromStr data with
    | none => .unreadable
    | some value => .chunk value

end Aeroric.Sse
