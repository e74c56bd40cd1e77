import Mathlib.Data.List.Infix
import Mathlib.Data.List.TakeWhile

/-! Bytes read as UTF-8: which sequence a byte string begins with, well-formed or not, and the text that
a reader makes of it. -/
namespace Aeroric.Utf8

def isContinuation (byte : UInt8) : Bool := 0x80 ≤ byte && byte ≤ 0xBF

/-- How long the sequence is that a byte begins. -/
def width (first : UInt8) : ℕ :=
  if first ≤ 0x7F then 1
  else if 0xC2 ≤ first && first ≤ 0xDF then 2
  else if 0xE0 ≤ first && first ≤ 0xEF then 3
  else if 0xF0 ≤ first && first ≤ 0xF4 then 4
  else 0

/-- Whether a byte may be the second one. -/
def follows (first second : UInt8) : Bool :=
  if first = 0xE0 then 0xA0 ≤ second && second ≤ 0xBF
  else if first = 0xED then 0x80 ≤ second && second ≤ 0x9F
  else if first = 0xF0 then 0x90 ≤ second && second ≤ 0xBF
  else if first = 0xF4 then 0x80 ≤ second && second ≤ 0x8F
  else isContinuation second

/-- What a byte string begins with: a character, bytes that begin none, or the beginning of one. -/
inductive Start
  | nothing
  | character (length : ℕ)
  | invalid (length : ℕ)
  | unfinished
  deriving DecidableEq

/-- The bytes after the second one; `seen` are behind them, `missing` are to come. -/
def continued (seen : ℕ) : ℕ → List UInt8 → Start
  | 0, _ => .character seen
  | _ + 1, [] => .unfinished
  | missing + 1, byte :: bytes =>
    if isContinuation byte then continued (seen + 1) missing bytes else .invalid seen

def begun (first : UInt8) (bytes : List UInt8) : Start :=
  match width first with
  | 0 => .invalid 1
  | 1 => .character 1
  | more + 2 =>
    match bytes with
    | [] => .unfinished
    | second :: bytes => if follows first second then continued 2 more bytes else .invalid 1

def start : List UInt8 → Start
  | [] => .nothing
  | first :: bytes => begun first bytes

/-- The characters that a byte string begins with, and the rest. -/
def characters : ℕ → List UInt8 → List UInt8 × List UInt8
  | 0, bytes => ([], bytes)
  | turns + 1, bytes =>
    match start bytes with
    | .character n =>
      let rest := characters turns (bytes.drop n)
      (bytes.take n ++ rest.1, rest.2)
    | _ => ([], bytes)

structure Utf8Error where
  validUpTo : ℕ
  errorLen : Option ℕ

/-- The whole as a text, or where it stops to be one. -/
def fromUtf8 (bytes : List UInt8) : Except Utf8Error (List UInt8) :=
  let (text, rest) := characters bytes.length bytes
  match start rest with
  | .invalid n => .error ⟨text.length, some n⟩
  | .unfinished => .error ⟨text.length, none⟩
  | _ => .ok text

def replacement : List UInt8 := [0xEF, 0xBF, 0xBD]

/-- The text of a byte string, with a mark for each sequence that is none. -/
def lossy : ℕ → List UInt8 → List UInt8
  | 0, _ => []
  | turns + 1, bytes =>
    match start bytes with
    | .nothing => []
    | .character n => bytes.take n ++ lossy turns (bytes.drop n)
    | .invalid n => replacement ++ lossy turns (bytes.drop n)
    | .unfinished => replacement

def fromUtf8Lossy (bytes : List UInt8) : List UInt8 := lossy bytes.length bytes

example : fromUtf8Lossy [0x61, 0xE1, 0x80, 0x62, 0xF0, 0x90] =
    [0x61] ++ replacement ++ [0x62] ++ replacement := by decide

inductive Valid : List UInt8 → Prop
  | nil : Valid []
  | character {bytes : List UInt8} {n : ℕ} : start bytes = .character n → Valid (bytes.drop n) →
      Valid bytes

variable {bytes more left out : List UInt8} {n seen missing : ℕ}

lemma continued_character (more : List UInt8) (h : continued seen missing bytes = .character n) :
    n = seen + missing ∧ missing ≤ bytes.length ∧ (∀ b ∈ bytes.take missing, isContinuation b) ∧
      continued seen missing (bytes ++ more) = .character n := by
  induction missing generalizing seen bytes with
  | zero =>
    cases h
    simp [continued]
  | succ missing ih =>
    cases bytes with
    | nil => cases h
    | cons byte bytes =>
      rw [continued] at h
      split at h
      · next hbyte =>
        obtain ⟨hn, hlength, hall, happend⟩ := ih h
        refine ⟨by omega, by simpa using hlength, ?_, ?_⟩
        · simpa [hbyte] using hall
        · rw [List.cons_append, continued, if_pos hbyte, happend]
      · cases h

lemma continued_invalid (more : List UInt8) (h : continued seen missing bytes = .invalid n) :
    seen ≤ n ∧ n < seen + bytes.length ∧ continued seen missing (bytes ++ more) = .invalid n := by
  induction missing generalizing seen bytes with
  | zero => cases h
  | succ missing ih =>
    cases bytes with
    | nil => cases h
    | cons byte bytes =>
      rw [continued] at h
      split at h
      · next hbyte =>
        obtain ⟨hle, hlt, happend⟩ := ih h
        refine ⟨by omega, by simp only [List.length_cons]; omega, ?_⟩
        rw [List.cons_append, continued, if_pos hbyte, happend]
      · next hbyte =>
        cases h
        refine ⟨le_refl _, by simp, ?_⟩
        rw [List.cons_append, continued, if_neg hbyte]

lemma continued_unfinished (h : continued seen missing bytes = .unfinished) :
    bytes.length < missing := by
  induction missing generalizing seen bytes with
  | zero => cases h
  | succ missing ih =>
    cases bytes with
    | nil => simp
    | cons byte bytes =>
      rw [continued] at h
      split at h
      · simpa using ih h
      · cases h

lemma continued_ne_nothing : continued seen missing bytes ≠ .nothing := by
  induction missing generalizing seen bytes with
  | zero => simp [continued]
  | succ missing ih =>
    cases bytes with
    | nil => simp [continued]
    | cons byte bytes =>
      rw [continued]
      split
      · exact ih
      · simp

lemma width_le (first : UInt8) : width first ≤ 4 := by
  unfold width
  split_ifs <;> decide

/-- The first byte of a character is no continuation, the second one is. -/
lemma isContinuation_first {first : UInt8} (h : width first ≠ 0) : isContinuation first = false := by
  by_contra hfirst
  simp only [isContinuation, Bool.and_eq_false_iff, decide_eq_false_iff_not, not_or, not_not,
    UInt8.le_iff_toNat_le, UInt8.reduceToNat] at hfirst
  apply h
  unfold width
  simp only [Bool.and_eq_true, decide_eq_true_eq, UInt8.le_iff_toNat_le, UInt8.reduceToNat]
  rw [if_neg (by omega), if_neg (by omega), if_neg (by omega), if_neg (by omega)]

lemma isContinuation_second {first second : UInt8} (h : follows first second = true) :
    isContinuation second = true := by
  unfold follows at h
  split_ifs at h
  all_goals
    simp only [isContinuation, Bool.and_eq_true, decide_eq_true_eq, UInt8.le_iff_toNat_le,
      UInt8.reduceToNat] at h ⊢
    omega

lemma start_nothing (h : start bytes = .nothing) : bytes = [] := by
  cases bytes with
  | nil => rfl
  | cons first bytes =>
    unfold start begun at h
    dsimp only at h
    split at h
    · cases h
    · cases h
    · split at h
      · cases h
      · split at h
        · exact absurd h continued_ne_nothing
        · cases h

/-- A character found is found again when more bytes come: its first byte begins it, the others
continue it. -/
lemma start_character (more : List UInt8) (h : start bytes = .character n) :
    0 < n ∧ n ≤ 4 ∧ n ≤ bytes.length ∧ (∀ b ∈ (bytes.take n).head?, isContinuation b = false) ∧
      (∀ b ∈ (bytes.take n).tail, isContinuation b) ∧ start (bytes ++ more) = .character n := by
  cases bytes with
  | nil => cases h
  | cons first bytes =>
    have hfour := width_le first
    rw [List.cons_append]
    unfold start begun at h ⊢
    dsimp only at h ⊢
    split at h
    · cases h
    · next hwidth =>
      cases h
      have hfirst := isContinuation_first (show width first ≠ 0 by omega)
      simp [hfirst]
    · next rest hwidth =>
      have hfirst := isContinuation_first (show width first ≠ 0 by omega)
      split at h
      · cases h
      · next second bytes =>
        split at h
        · next hsecond =>
          obtain ⟨hn, hlength, hall, happend⟩ := continued_character more h
          obtain rfl : n = rest + 2 := by omega
          refine ⟨by omega, by omega, by simpa using hlength, by simpa using hfirst, ?_, ?_⟩
          · simpa [isContinuation_second hsecond] using hall
          · simp only [List.cons_append, if_pos hsecond, happend]
        · cases h

lemma start_invalid (more : List UInt8) (h : start bytes = .invalid n) :
    0 < n ∧ n ≤ bytes.length ∧ start (bytes ++ more) = .invalid n := by
  cases bytes with
  | nil => cases h
  | cons first bytes =>
    rw [List.cons_append]
    unfold start begun at h ⊢
    dsimp only at h ⊢
    split at h
    · cases h
      simp
    · cases h
    · next rest hwidth =>
      split at h
      · cases h
      · next second bytes =>
        split at h
        · next hsecond =>
          obtain ⟨hle, hlt, happend⟩ := continued_invalid more h
          refine ⟨by omega, by simp only [List.length_cons]; omega, ?_⟩
          simp only [List.cons_append, if_pos hsecond, happend]
        · next hsecond =>
          cases h
          refine ⟨by omega, by simp, ?_⟩
          simp only [List.cons_append, if_neg hsecond]

lemma start_unfinished (h : start bytes = .unfinished) : bytes ≠ [] ∧ bytes.length ≤ 3 := by
  cases bytes with
  | nil => cases h
  | cons first bytes =>
    have hfour := width_le first
    refine ⟨by simp, ?_⟩
    unfold start begun at h
    dsimp only at h
    split at h
    · cases h
    · cases h
    · next rest hwidth =>
      split at h
      · simp
      · next second bytes =>
        split at h
        · have := continued_unfinished h
          simp only [List.length_cons]
          omega
        · cases h

/-! The reader that marks what is no text. -/

lemma lossy_turns {turns : ℕ} (h : bytes.length ≤ turns) : lossy turns bytes = fromUtf8Lossy bytes := by
  induction turns using Nat.strong_induction_on generalizing bytes with
  | h turns ih =>
    cases turns with
    | zero => rw [List.length_eq_zero_iff.mp (Nat.le_zero.mp h)]; rfl
    | succ turns =>
      cases hbytes : bytes with
      | nil => rfl
      | cons first rest =>
        rw [← hbytes, fromUtf8Lossy]
        obtain ⟨length, hlength⟩ : ∃ length, bytes.length = length + 1 := ⟨rest.length, by simp [hbytes]⟩
        rw [hlength] at h ⊢
        unfold lossy
        -- both sides go on with the same rest, each with turns enough
        have hrest : ∀ n, 0 < n → lossy turns (bytes.drop n) = lossy length (bytes.drop n) := by
          intro n hn
          have hdrop : (bytes.drop n).length ≤ length := by
            rw [List.length_drop]
            omega
          rw [ih turns (by omega) (by omega), ih length (by omega) hdrop]
        split
        · rfl
        · next n hstart => rw [hrest n (start_character [] hstart).1]
        · next n hstart => rw [hrest n (start_invalid [] hstart).1]
        · rfl

lemma fromUtf8Lossy_character (h : start bytes = .character n) :
    fromUtf8Lossy bytes = bytes.take n ++ fromUtf8Lossy (bytes.drop n) := by
  obtain ⟨hpos, -, hle, -⟩ := start_character [] h
  obtain ⟨length, hlength⟩ := Nat.exists_eq_add_of_lt (hpos.trans_le hle)
  rw [Nat.zero_add] at hlength
  rw [fromUtf8Lossy, hlength, lossy, h]
  exact congrArg (bytes.take n ++ ·) (lossy_turns (by rw [List.length_drop]; omega))

lemma fromUtf8Lossy_invalid (h : start bytes = .invalid n) :
    fromUtf8Lossy bytes = replacement ++ fromUtf8Lossy (bytes.drop n) := by
  obtain ⟨hpos, hle, -⟩ := start_invalid [] h
  obtain ⟨length, hlength⟩ := Nat.exists_eq_add_of_lt (hpos.trans_le hle)
  rw [Nat.zero_add] at hlength
  rw [fromUtf8Lossy, hlength, lossy, h]
  exact congrArg (replacement ++ ·) (lossy_turns (by rw [List.length_drop]; omega))

/-- Bytes that settle to a text: what is left of them is the beginning of a character at most. -/
inductive Settles : List UInt8 → List UInt8 → List UInt8 → Prop
  | rest {left : List UInt8} : start left = .nothing ∨ start left = .unfinished → Settles left [] left
  | character {bytes out left : List UInt8} {n : ℕ} : start bytes = .character n →
      Settles (bytes.drop n) out left → Settles bytes (bytes.take n ++ out) left
  | invalid {bytes out left : List UInt8} {n : ℕ} : start bytes = .invalid n →
      Settles (bytes.drop n) out left → Settles bytes (replacement ++ out) left

/-- Whatever comes later: the text that is settled stays, and the rest is read with what comes. -/
lemma Settles.append (h : Settles bytes out left) (more : List UInt8) :
    fromUtf8Lossy (bytes ++ more) = out ++ fromUtf8Lossy (left ++ more) := by
  induction h with
  | rest _ => rfl
  | character hstart _ ih =>
    obtain ⟨-, -, hle, -, -, hmore⟩ := start_character more hstart
    rw [fromUtf8Lossy_character hmore, List.take_append_of_le_length hle,
      List.drop_append_of_le_length hle, ih, List.append_assoc]
  | invalid hstart _ ih =>
    obtain ⟨-, hle, hmore⟩ := start_invalid more hstart
    rw [fromUtf8Lossy_invalid hmore, List.drop_append_of_le_length hle, ih, List.append_assoc]

lemma Settles.length_le (h : Settles bytes out left) : left.length ≤ 3 := by
  induction h with
  | rest hstart =>
    rcases hstart with hstart | hstart
    · simp [start_nothing hstart]
    · exact (start_unfinished hstart).2
  | character _ _ ih => exact ih
  | invalid _ _ ih => exact ih

/-- What the characters at the beginning are: they settle, and then no character follows. -/
lemma characters_spec {turns : ℕ} (h : bytes.length ≤ turns) :
    (characters turns bytes).1 ++ (characters turns bytes).2 = bytes ∧
      (∀ n, start (characters turns bytes).2 ≠ .character n) ∧
      ∀ out left, Settles (characters turns bytes).2 out left →
        Settles bytes ((characters turns bytes).1 ++ out) left := by
  induction turns generalizing bytes with
  | zero =>
    obtain rfl := List.length_eq_zero_iff.mp (Nat.le_zero.mp h)
    exact ⟨rfl, by simp [characters, start], fun _ _ hs => hs⟩
  | succ turns ih =>
    unfold characters
    split
    · next n hstart =>
      obtain ⟨hpos, -, hle, -⟩ := start_character [] hstart
      obtain ⟨hsplit, hnone, hsettles⟩ := @ih (bytes.drop n) (by rw [List.length_drop]; omega)
      refine ⟨?_, hnone, fun out left hs => ?_⟩
      · rw [List.append_assoc, hsplit, List.take_append_drop]
      · rw [List.append_assoc]
        exact .character hstart (hsettles out left hs)
    · next hnone => exact ⟨rfl, hnone, fun _ _ hs => hs⟩

/-! Well-formed bytes. -/

lemma Valid.append (h : Valid bytes) (hmore : Valid more) : Valid (bytes ++ more) := by
  induction h with
  | nil => exact hmore
  | character hstart _ ih =>
    obtain ⟨-, -, hle, -, -, happend⟩ := start_character more hstart
    refine .character happend ?_
    rwa [List.drop_append_of_le_length hle]

lemma Valid.fromUtf8Lossy (h : Valid bytes) : fromUtf8Lossy bytes = bytes := by
  induction h with
  | nil => rfl
  | character hstart _ ih => rw [fromUtf8Lossy_character hstart, ih, List.take_append_drop]

lemma Valid.head (h : Valid bytes) : ∀ b ∈ bytes.head?, isContinuation b = false := by
  cases h with
  | nil => simp
  | character hstart _ =>
    obtain ⟨hpos, -, hle, hhead, -⟩ := start_character [] hstart
    cases bytes with
    | nil => simp
    | cons b bytes =>
      obtain ⟨n, rfl⟩ := Nat.exists_eq_add_of_lt hpos
      simpa using hhead

/-- A cut anywhere: at most three bytes continue a character that was cut, and after them the text is
well-formed. -/
lemma Valid.cut (h : Valid bytes) (k : ℕ) :
    ((bytes.drop k).takeWhile isContinuation).length ≤ 3 ∧
      Valid ((bytes.drop k).dropWhile isContinuation) := by
  induction h generalizing k with
  | nil => simp [Valid.nil]
  | @character bytes n hstart hrest ih =>
    obtain ⟨hpos, hfour, hle, hhead, htail, -⟩ := start_character [] hstart
    have hvalid : Valid bytes := .character hstart hrest
    by_cases hk : n ≤ k
    · have hdrop : bytes.drop k = (bytes.drop n).drop (k - n) := by
        rw [List.drop_drop]
        congr 1
        omega
      rw [hdrop]
      exact ih (k - n)
    · by_cases hzero : k = 0
      · subst hzero
        rw [List.drop_zero]
        cases bytes with
        | nil => simp [Valid.nil]
        | cons b bytes =>
          have hb : isContinuation b = false := hvalid.head b rfl
          rw [List.takeWhile_cons_of_neg (by simp [hb]), List.dropWhile_cons_of_neg (by simp [hb])]
          exact ⟨by simp, hvalid⟩
      · -- inside the first character: the rest of it is skipped
        have hsplit : bytes.drop k = (bytes.take n).drop k ++ bytes.drop n := by
          rw [← List.drop_append_of_le_length (by rw [List.length_take]; omega), List.take_append_drop]
        have hcontinued : ∀ b ∈ (bytes.take n).drop k, isContinuation b := by
          intro b hb
          refine htail b ?_
          rw [← List.drop_one]
          have : (bytes.take n).drop k = ((bytes.take n).drop 1).drop (k - 1) := by
            rw [List.drop_drop]
            congr 1
            omega
          rw [this] at hb
          exact List.mem_of_mem_drop hb
        have hnone : (bytes.drop n).takeWhile isContinuation = [] ∧
            (bytes.drop n).dropWhile isContinuation = bytes.drop n := by
          cases hrest' : bytes.drop n with
          | nil => simp
          | cons b rest =>
            have hb : isContinuation b = false := hrest.head b (by rw [hrest']; rfl)
            simp [hb]
        rw [hsplit, List.takeWhile_append_of_pos hcontinued, List.dropWhile_append_of_pos hcontinued,
          hnone.1, hnone.2]
        refine ⟨?_, hrest⟩
        simp only [List.append_nil, List.length_drop, List.length_take]
        omega

end Aeroric.Utf8
