import Aeroric.Decimal
import Aeroric.PrefixCode
import Aeroric.Ranges
import Aeroric.Sse

/-! What a push request is signed over. Each field is written with its length before it. The nonce also
stands in front of the fields, without a length, and may hold line breaks. -/
namespace Aeroric.Push

open Ranges (byteLen)
open Sse (isWhitespace)

inductive PushKind
  | taskDone
  | taskFailed
  | approvalPending
  deriving DecidableEq

def PushKind.wireName : PushKind → List Char
  | taskDone => "task_done".toList
  | taskFailed => "task_failed".toList
  | approvalPending => "approval_pending".toList

structure BindRequest where
  user : List Char
  deviceId : List Char
  platform : List Char
  token : List Char
  issuedAtMs : ℤ
  nonce : List Char
  deriving DecidableEq

structure PushRequest where
  user : List Char
  deviceIds : List (List Char)
  kind : PushKind
  eventSeq : ℕ
  collapseKey : List Char
  issuedAtMs : ℤ
  nonce : List Char
  deriving DecidableEq

def showInt : ℤ → List Char
  | .ofNat n => Nat.toDigits 10 n
  | .negSucc n => '-' :: Nat.toDigits 10 (n + 1)

def signatureString (method path : List Char) (issuedAtMs : ℤ) (nonce body : List Char) : List Char :=
  method ++ '\n' :: (path ++ '\n' :: (showInt issuedAtMs ++ '\n' :: (nonce ++ '\n' :: body)))

def pushMethod : List Char := "POST".toList
def pushBindPath : List Char := "/v1/bind".toList
def pushSendPath : List Char := "/v1/push".toList

def canonicalField (value : List Char) : List Char :=
  Nat.toDigits 10 (byteLen value) ++ ':' :: (value ++ ['\n'])

def canonicalFields (values : List (List Char)) : List Char := (values.map canonicalField).flatten

def BindRequest.fields (r : BindRequest) : List (List Char) :=
  [r.user, r.deviceId, r.platform, r.token, showInt r.issuedAtMs]

def bindSignatureMessage (r : BindRequest) : List Char :=
  let body := canonicalFields (r.fields ++ [r.nonce])
  signatureString pushMethod pushBindPath r.issuedAtMs r.nonce (body.rdropWhile isWhitespace)

def PushRequest.fields (r : PushRequest) : List (List Char) :=
  [r.user, Nat.toDigits 10 r.deviceIds.length] ++ r.deviceIds ++
    [r.kind.wireName, Nat.toDigits 10 r.eventSeq, r.collapseKey, showInt r.issuedAtMs]

def pushSignatureMessage (r : PushRequest) : List Char :=
  let body := canonicalFields (r.fields ++ [r.nonce])
  signatureString pushMethod pushSendPath r.issuedAtMs r.nonce (body.rdropWhile isWhitespace)

inductive SignedRequest
  | bind (r : BindRequest)
  | push (r : PushRequest)
  deriving DecidableEq

namespace SignedRequest

def message : SignedRequest → List Char
  | bind r => bindSignatureMessage r
  | push r => pushSignatureMessage r

def path : SignedRequest → List Char
  | bind _ => pushBindPath
  | push _ => pushSendPath

def nonce : SignedRequest → List Char
  | bind r => r.nonce
  | push r => r.nonce

def issuedAtMs : SignedRequest → ℤ
  | bind r => r.issuedAtMs
  | push r => r.issuedAtMs

def body : SignedRequest → List Char
  | bind r => (canonicalFields (r.fields ++ [r.nonce])).rdropWhile isWhitespace
  | push r => (canonicalFields (r.fields ++ [r.nonce])).rdropWhile isWhitespace

end SignedRequest

variable {path path' nonce nonce' body body' : List Char} {issued issued' : ℤ}
  {fields fields' : List (List Char)}

lemma wireName_injective : Function.Injective PushKind.wireName := by
  intro kind other h
  cases kind <;> cases other <;> first | rfl | exact absurd h (by decide)

lemma showInt_injective : Function.Injective showInt := by
  have hdash : ∀ m n, Nat.toDigits 10 m ≠ '-' :: Nat.toDigits 10 n := fun m n h =>
    notMem_toDigits (c := '-') (by decide) m (h ▸ List.mem_cons_self)
  intro m n h
  cases m <;> cases n
  · exact congrArg Int.ofNat (toDigits_injective h)
  · exact absurd h (hdash _ _)
  · exact absurd h.symm (hdash _ _)
  · exact congrArg Int.negSucc (Nat.succ.inj (toDigits_injective (List.cons.inj h).2))

lemma newline_notMem_showInt (n : ℤ) : '\n' ∉ showInt n := by
  cases n with
  | ofNat n => exact notMem_toDigits (by decide) n
  | negSucc n => exact List.not_mem_cons_of_ne_of_not_mem (by decide) (notMem_toDigits (by decide) _)

lemma canonicalField_code : PrefixCode (fun _ => True) canonicalField := by
  intro value other _ _ x y h
  simp only [canonicalField, List.append_assoc, List.cons_append, List.nil_append] at h
  have hcolon : ∀ n, (Nat.toDigits 10 n).count ':' = 0 := fun n =>
    List.count_eq_zero.mpr (notMem_toDigits (by decide) n)
  obtain ⟨hdigits, hrest⟩ := PrefixCode.ended ':' 0 _ _ (hcolon _) (hcolon _) _ _ (by simpa using h)
  have hcut := Ranges.cutAt_byteLen value ('\n' :: x)
  rw [hrest, toDigits_injective hdigits, Ranges.cutAt_byteLen] at hcut
  cases hcut
  exact ⟨rfl, rfl⟩

lemma trim_canonicalFields (fields : List (List Char)) (nonce : List Char) :
    (canonicalFields (fields ++ [nonce])).rdropWhile isWhitespace =
      canonicalFields fields ++ (canonicalField nonce).rdropWhile isWhitespace := by
  have hlast : (canonicalField nonce).reverse.dropWhile isWhitespace ≠ [] := by
    rw [Ne, List.dropWhile_eq_nil_iff]
    exact fun h => absurd (h ':' (by simp [canonicalField])) (by decide)
  simp only [canonicalFields, List.map_append, List.flatten_append, List.map_singleton,
    List.flatten_singleton, List.rdropWhile, List.reverse_append, List.dropWhile_append]
  rw [if_neg (by simpa using hlast), List.reverse_append, List.reverse_reverse]

lemma line_inj {line other x y : List Char} (hcount : line.count '\n' = other.count '\n')
    (h : line ++ '\n' :: x = other ++ '\n' :: y) : line = other ∧ x = y :=
  PrefixCode.ended '\n' _ _ _ hcount rfl _ _ (by simpa using h)

lemma signatureString_inj (hpath : '\n' ∉ path) (hpath' : '\n' ∉ path')
    (h : signatureString pushMethod path issued nonce body =
      signatureString pushMethod path' issued' nonce' body') :
    path = path' ∧ issued = issued' ∧ nonce ++ '\n' :: body = nonce' ++ '\n' :: body' := by
  have hfree : ∀ {line other : List Char}, '\n' ∉ line → '\n' ∉ other →
      line.count '\n' = other.count '\n' := fun hline hother => by
    rw [List.count_eq_zero.mpr hline, List.count_eq_zero.mpr hother]
  obtain ⟨-, h⟩ := line_inj rfl h
  obtain ⟨hsame, h⟩ := line_inj (hfree hpath hpath') h
  obtain ⟨hissued, h⟩ := line_inj (hfree (newline_notMem_showInt _) (newline_notMem_showInt _)) h
  exact ⟨hsame, showInt_injective hissued, h⟩

lemma canonicalFields_inj (hlength : fields.length = fields'.length) {x y : List Char}
    (h : canonicalFields fields ++ x = canonicalFields fields' ++ y) : fields = fields' ∧ x = y :=
  canonicalField_code.words hlength (fun _ _ => trivial) (fun _ _ => trivial) h

lemma BindRequest.ext_fields {r r' : BindRequest} (hfields : r.fields = r'.fields)
    (hnonce : r.nonce = r'.nonce) : r = r' := by
  simp only [fields, List.cons.injEq, and_true] at hfields
  obtain ⟨huser, hdevice, hplatform, htoken, hissued⟩ := hfields
  have hissued := showInt_injective hissued
  cases r
  cases r'
  simp_all only

lemma PushRequest.ext_fields {r r' : PushRequest} (hfields : r.fields = r'.fields)
    (hnonce : r.nonce = r'.nonce) : r = r' := by
  simp only [fields, List.cons_append, List.nil_append, List.cons.injEq] at hfields
  obtain ⟨huser, hcount, hrest⟩ := hfields
  obtain ⟨hdevices, hlast⟩ := List.append_inj hrest (toDigits_injective hcount)
  simp only [List.cons.injEq, and_true] at hlast
  obtain ⟨hkind, hseq, hkey, hissued⟩ := hlast
  have hkind := wireName_injective hkind
  have hseq := toDigits_injective hseq
  have hissued := showInt_injective hissued
  cases r
  cases r'
  simp_all only

/-- The second field counts the devices, so there are as many fields on both sides. -/
lemma PushRequest.fields_inj {r r' : PushRequest} {x y : List Char}
    (h : canonicalFields r.fields ++ x = canonicalFields r'.fields ++ y) : r.fields = r'.fields := by
  have happend : ∀ front back last : List (List Char), ∀ text,
      canonicalFields (front ++ back ++ last) ++ text =
        canonicalFields front ++ (canonicalFields (back ++ last) ++ text) := by
    simp [canonicalFields]
  have hcounts := h
  rw [fields, fields, happend, happend] at hcounts
  obtain ⟨hfront, -⟩ := canonicalFields_inj (by rfl) hcounts
  simp only [List.cons.injEq, and_true] at hfront
  have hdevices := toDigits_injective hfront.2
  exact (canonicalFields_inj (by simp [fields, hdevices]) h).1

lemma paths_ne : pushBindPath ≠ pushSendPath := by decide

lemma message_eq (a : SignedRequest) :
    a.message = signatureString pushMethod a.path a.issuedAtMs a.nonce a.body := by
  cases a <;> rfl

lemma newline_notMem_path (a : SignedRequest) : '\n' ∉ a.path := by
  cases a with
  | bind r => exact (by decide : '\n' ∉ pushBindPath)
  | push r => exact (by decide : '\n' ∉ pushSendPath)

lemma eq_of_body {a b : SignedRequest} (hpath : a.path = b.path) (hnonce : a.nonce = b.nonce)
    (hbody : a.body = b.body) : a = b := by
  cases a with
  | bind r =>
    cases b with
    | bind r' =>
      rw [SignedRequest.body, SignedRequest.body, trim_canonicalFields, trim_canonicalFields] at hbody
      obtain ⟨hfields, -⟩ := canonicalFields_inj (by rfl) hbody
      exact congrArg _ (BindRequest.ext_fields hfields hnonce)
    | push r' => exact absurd hpath paths_ne
  | push r =>
    cases b with
    | bind r' => exact absurd hpath.symm paths_ne
    | push r' =>
      rw [SignedRequest.body, SignedRequest.body, trim_canonicalFields, trim_canonicalFields] at hbody
      exact congrArg _ (PushRequest.ext_fields (PushRequest.fields_inj hbody) hnonce)

/-- The nonce of the second request is that of the first with a line break and the first lines of its
fields, and the lines that are left of them are the fields of the second. -/
def TakesOver (a b : SignedRequest) : Prop :=
  a.path = b.path ∧ a.issuedAtMs = b.issuedAtMs ∧
    ∃ lines, b.nonce = a.nonce ++ '\n' :: lines ∧ a.body = lines ++ '\n' :: b.body

lemma TakesOver.message_eq {a b : SignedRequest} (h : TakesOver a b) :
    a.message = b.message ∧ a ≠ b := by
  obtain ⟨hpath, hissued, lines, hnonce, hbody⟩ := h
  constructor
  · rw [Push.message_eq, Push.message_eq, hpath, hissued, hnonce, hbody]
    simp [signatureString]
  · rintro rfl
    have := congrArg List.length hnonce
    simp at this

/-- Texts around a line break are equal if the texts before it are, or if one of these goes on behind a
line break of its own with what follows the other. -/
lemma around_newline {nonce nonce' body body' : List Char}
    (h : nonce ++ '\n' :: body = nonce' ++ '\n' :: body') :
    (nonce = nonce' ∧ body = body') ∨
      (∃ lines, nonce' = nonce ++ '\n' :: lines ∧ body = lines ++ '\n' :: body') ∨
      ∃ lines, nonce = nonce' ++ '\n' :: lines ∧ body' = lines ++ '\n' :: body := by
  obtain ⟨more, hnonce, hrest⟩ | ⟨more, hnonce, hrest⟩ := List.append_eq_append_iff.mp h
  all_goals
    cases more with
    | nil => exact .inl (by simp_all)
    | cons c lines =>
      obtain ⟨rfl, hbody⟩ := List.cons.inj hrest
      simp_all

/-- Two requests that are signed over one message are one request, exactly if the nonce of none of them
takes over lines of the other. -/
theorem message_injective_iff (a b : SignedRequest) :
    (a.message = b.message → a = b) ↔ ¬TakesOver a b ∧ ¬TakesOver b a := by
  constructor
  · refine fun h => ⟨fun htakes => ?_, fun htakes => ?_⟩
    · exact htakes.message_eq.2 (h htakes.message_eq.1)
    · exact htakes.message_eq.2 (h htakes.message_eq.1.symm).symm
  · rintro ⟨hfirst, hsecond⟩ h
    rw [message_eq, message_eq] at h
    obtain ⟨hpath, hissued, h⟩ :=
      signatureString_inj (newline_notMem_path a) (newline_notMem_path b) h
    obtain ⟨hnonce, hbody⟩ | hlines | hlines := around_newline h
    · exact eq_of_body hpath hnonce hbody
    · exact absurd ⟨hpath, hissued, hlines⟩ hfirst
    · exact absurd ⟨hpath.symm, hissued.symm, hlines⟩ hsecond

/-- A nonce that begins with a line break takes over lines that are fields of the other request. -/
theorem message_not_injective :
    ∃ a b : BindRequest, a.user ≠ b.user ∧ a.token ≠ b.token ∧ a.nonce ≠ b.nonce ∧
      bindSignatureMessage a = bindSignatureMessage b := by
  let a : BindRequest :=
    ⟨"\n1:0\n0:\n10:".toList, [], [], "\n0:\n0:\n0:\n1:0\n11:\n11:".toList, 0, []⟩
  let b : BindRequest := ⟨"\n0:\n0:\n21:".toList, [], [], [], 0, "\n11:\n1:0\n0:".toList⟩
  exact ⟨a, b, by decide, by decide, by decide, by decide⟩

end Aeroric.Push
