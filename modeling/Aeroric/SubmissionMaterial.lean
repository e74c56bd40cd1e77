import Aeroric.PrefixCode
import Aeroric.SubmissionOnce

/-! The bytes a submission's fingerprint is taken of say everything about the submission, so a
submission id that comes again with anything else is a conflict. -/
namespace Aeroric.Submission

open TaskStorage
open Call (exec)

/-- The request without its identity: what a fingerprint is to tell apart. -/
def SubmissionRequest.payload (r : SubmissionRequest) : SubmissionRequest :=
  { r with schemaVersion := 0, submissionId := "", fingerprint := "" }

/-- Lengths and counts are 64-bit numbers in memory. -/
def Fits (value : String) : Prop := value.utf8ByteSize < 2 ^ 64

instance (value : String) : Decidable (Fits value) := inferInstanceAs (Decidable (_ < _))

structure SubmissionRequest.Held (r : SubmissionRequest) : Prop where
  texts : ∀ value ∈ [r.projectId, r.configurationId, r.configurationVersion, r.agent, r.prompt,
    r.permissionMode, r.permissionAgent], Fits value
  options : ∀ o ∈ [r.selectedModel, r.reasoningEffort, r.worktree, r.recipeId],
    ∀ value ∈ o, Fits value
  attachments : r.attachments.length < 2 ^ 64 ∧ ∀ value ∈ r.attachments, Fits value

abbrev HeldRequest := { r : SubmissionRequest // r.Held }

/-! Each part of the bytes says where it ends. -/

/-- A number read back from its bytes, the most significant first. -/
def ofBeBytes (l : List UInt8) : ℕ := l.foldl (fun n byte => n * 256 + byte.toNat) 0

lemma ofBeBytes_toBeBytes {n : ℕ} (hn : n < 2 ^ 64) : ofBeBytes (toBeBytes n) = n := by
  have hdigit : ∀ k, n / 256 ^ (k + 1) * 256 + n / 256 ^ k % 2 ^ 8 = n / 256 ^ k := by
    intro k
    rw [pow_succ, ← Nat.div_div_eq_div_mul]
    exact Nat.div_add_mod' _ _
  have htop : 0 * 256 + n / 256 ^ 7 % 2 ^ 8 = n / 256 ^ 7 := by omega
  simp only [toBeBytes, ofBeBytes, List.range, List.range.loop, List.map_cons, List.map_nil,
    List.foldl_cons, List.foldl_nil, UInt8.toNat_ofNat', Nat.reduceSub, htop, hdigit]
  exact Nat.div_one n

lemma toBeBytes_code : PrefixCode (· < 2 ^ 64) toBeBytes := by
  refine .of_length 8 (fun n => by simp [toBeBytes]) fun m n hm hn h => ?_
  rw [← ofBeBytes_toBeBytes hm, h, ofBeBytes_toBeBytes hn]

lemma toList_loop (b : ByteArray) (i : ℕ) (l : List UInt8) :
    ByteArray.toList.loop b i l = l.reverse ++ b.data.toList.drop i := by
  rw [ByteArray.toList.loop]
  split
  · next hi =>
    have hi' : i < b.data.toList.length := hi
    rw [toList_loop, List.drop_eq_getElem_cons hi']
    simp [ByteArray.get!, getElem!_pos b.data i hi]
  · next hi =>
    rw [List.drop_eq_nil_of_le (Nat.not_lt.mp hi), List.append_nil]
termination_by b.size - i

lemma bytes_eq (value : String) : bytes value = value.toByteArray.data.toList :=
  toList_loop _ 0 []

lemma length_bytes (value : String) : (bytes value).length = value.utf8ByteSize := by
  rw [bytes_eq]
  rfl

lemma bytes_injective : Function.Injective bytes := by
  intro value other h
  rw [bytes_eq, bytes_eq] at h
  exact String.toByteArray_inj.mp (ByteArray.ext (Array.toList_inj.mp h))

lemma text_code : PrefixCode Fits text := by
  have h : PrefixCode Fits fun value => toBeBytes (bytes value).length ++ bytes value :=
    toBeBytes_code.sized (fun value h => (length_bytes value).trans_lt h) bytes_injective
  simp only [length_bytes] at h
  exact h

lemma optional_code : PrefixCode (fun o => ∀ value ∈ o, Fits value) optional := by
  have h := text_code.optional (show (0 : UInt8) ≠ 1 by decide)
  convert h using 2 with o
  cases o <;> rfl

lemma attachments_code : PrefixCode
    (fun l : List String => l.length < 2 ^ 64 ∧ ∀ value ∈ l, Fits value)
    fun l => toBeBytes l.length ++ (l.map text).flatten :=
  toBeBytes_code.counted text_code

lemma flags_injective {team review evolution clarify isolated team' review' evolution' clarify'
    isolated' : Bool}
    (h : [flag team, flag review, flag evolution] ++
        ((if clarify then [1] else []) ++ if isolated then [2] else []) =
      [flag team', flag review', flag evolution'] ++
        ((if clarify' then [1] else []) ++ if isolated' then [2] else [])) :
    team = team' ∧ review = review' ∧ evolution = evolution' ∧ clarify = clarify' ∧
      isolated = isolated' := by
  revert team review evolution clarify isolated team' review' evolution' clarify' isolated'
  decide

lemma payload_eq_of_material {r s : SubmissionRequest} (hr : r.Held) (hs : s.Held)
    (h : r.fingerprintMaterial = s.fingerprintMaterial) : r.payload = s.payload := by
  unfold SubmissionRequest.fingerprintMaterial at h
  simp only [List.append_assoc] at h
  obtain ⟨htexts, h⟩ := text_code.words (by rfl) hr.texts hs.texts (List.append_cancel_left h)
  obtain ⟨hmodel, h⟩ := optional_code _ _ (hr.options _ (by simp)) (hs.options _ (by simp)) _ _ h
  obtain ⟨heffort, h⟩ := optional_code _ _ (hr.options _ (by simp)) (hs.options _ (by simp)) _ _ h
  rw [← List.append_assoc, ← List.append_assoc (toBeBytes s.attachments.length)] at h
  obtain ⟨hattachments, h⟩ := attachments_code _ _ hr.attachments hs.attachments _ _ h
  obtain ⟨hworktree, h⟩ := optional_code _ _ (hr.options _ (by simp)) (hs.options _ (by simp)) _ _ h
  obtain ⟨hrecipe, h⟩ := optional_code _ _ (hr.options _ (by simp)) (hs.options _ (by simp)) _ _ h
  have hflags := flags_injective h
  cases r
  cases s
  simp_all [SubmissionRequest.payload]

/-! What a submission answered, its receipt is on file. -/

section Filed
variable {sha256 : List UInt8 → String} {answer : SubmitAnswer} {request : SubmissionRequest}
  {reasons : List String} {reply : SubmissionReceipt} {d d' : Desk} {receipts : Receipts}

/-- The receipt on file for the request's id carries its fingerprint. -/
def FiledFor (sha256 : List UInt8 → String) (d : Desk) (request : SubmissionRequest) : Prop :=
  ∃ r, stored d request.submissionId = some r ∧ r.fingerprint = fingerprint sha256 request

lemma filedFor_write {r : SubmissionReceipt} (hf : r.fingerprint = fingerprint sha256 request) :
    FiledFor sha256 (d.write (receipts.insert request.submissionId r)) request :=
  ⟨r, (receipts.get_insert _ _ r).trans (if_pos rfl), hf⟩

lemma exec_bind_ok {α β : Type} {p : Submissions α} {f : α → Submissions β} {b : β}
    (h : exec (p >>= f) d = (.ok b, d')) :
    ∃ a d1, exec p d = (.ok a, d1) ∧ exec (f a) d1 = (.ok b, d') := by
  rw [Call.exec_bind] at h
  rcases hp : exec p d with ⟨_ | a, d1⟩
  · rw [hp] at h
    cases h
  · rw [hp] at h
    exact ⟨a, d1, rfl, h⟩

lemma submitNew_filed (hown : request.fingerprint = fingerprint sha256 request)
    (h : exec (submitNew answer request reasons receipts) d = (.ok reply, d')) :
    FiledFor sha256 d' request := by
  unfold submitNew at h
  dsimp only at h
  generalize hr : receipt request (if reasons.isEmpty = true then .pending else
    .rejectedBeforeSideEffect) reasons = r at h
  have hf : r.fingerprint = fingerprint sha256 request := by rw [← hr]; exact hown
  obtain ⟨_, d1, hstored, hrest⟩ := exec_bind_ok h
  rw [exec_persist_ok hstored] at hrest
  split at hrest
  · obtain ⟨-, rfl⟩ := Prod.mk.inj hrest
    exact filedFor_write hf
  · obtain ⟨succeeded, d2, hexecuted, hsettles⟩ := exec_bind_ok hrest
    obtain ⟨_, d3, hsettled, hpure⟩ := exec_bind_ok hsettles
    obtain ⟨-, rfl⟩ := Prod.mk.inj hpure
    rw [exec_persist_ok hsettled]
    refine filedFor_write ?_
    unfold settle
    split <;> exact hf

lemma submit_filed (h : exec (submit sha256 answer request reasons) d = (.ok reply, d')) :
    FiledFor sha256 d' request := by
  unfold submit at h
  split at h
  · cases (Prod.mk.inj h).1
  next hvalid =>
  have hown : request.fingerprint = fingerprint sha256 request := by simp_all
  rw [Call.exec_serial] at h
  obtain ⟨_, d1, -, hloads⟩ := exec_bind_ok h
  obtain ⟨receipts, d2, hloaded, hrest⟩ := exec_bind_ok hloads
  obtain ⟨hload, hd⟩ := loadReceipts_ok hloaded
  split at hrest
  · next previous hget =>
    split at hrest
    · cases (Prod.mk.inj hrest).1
    · next hsame =>
      obtain ⟨-, rfl⟩ := Prod.mk.inj hrest
      rw [hd]
      exact ⟨previous, (load_ok hload _).symm.trans hget, (not_not.mp hsame).trans hown⟩
  · exact submitNew_filed hown hrest

end Filed

section Runs
variable {sha256 : List UInt8 → String} {S S' : System}

/-- Where the calls stand, and for each submission that has answered with a receipt there is one
on file. -/
structure Filed (sha256 : List UInt8 → String) (S : System) : Prop where
  turn : ∀ j, Pool.Turn (fun i => (S.calls i).program sha256) (fun _ => True) S.pool j
  filed : ∀ j answer request reasons reply, S.calls j = .submit answer request reasons →
    (S.pool.left j).answer = some (.ok reply) → FiledFor sha256 S.pool.state request

lemma FiledFor.moves {request : SubmissionRequest} {id f : String} {d d' : Desk}
    (h : FiledFor sha256 d request) (hmoves : Moves id f d d') : FiledFor sha256 d' request := by
  obtain ⟨r, hr, hf⟩ := h
  obtain ⟨r', hr', hf', -⟩ := hmoves.stored hr
  exact ⟨r', hr', hf'.trans hf⟩

lemma answer_program {answer : SubmitAnswer} {request : SubmissionRequest} {reasons : List String}
    {reply : Reply} :
    ((SubmissionCall.submit answer request reasons).program sha256).answer ≠ some (.ok reply) := by
  intro h
  unfold SubmissionCall.program SubmissionCall.body submit at h
  dsimp only at h
  split at h
  · cases h
  · cases h

lemma filed_boot (calls : ℕ → SubmissionCall) (d : Desk) :
    Filed sha256 (.boot sha256 calls d) where
  turn _ := .ahead rfl
  filed j answer request reasons reply hj ha := by
    have hprogram : ((calls j).program sha256).answer = some (.ok reply) := ha
    rw [show calls j = .submit answer request reasons from hj] at hprogram
    exact absurd hprogram answer_program

lemma Filed.step (h : Filed sha256 S) (hsound : Sound sha256 S)
    (hstep : System.Step sha256 S S') : Filed sha256 S' := by
  cases hstep with
  | dies calls => exact filed_boot calls _
  | goes hnext =>
    obtain ⟨i, he, rfl⟩ := hnext
    refine ⟨fun j => (h.turn j).step hsound.turn (fun _ => guarded_program _) he trivial,
      fun j answer request reasons reply hj ha => ?_⟩
    have hkept : FiledFor sha256 S.pool.state request →
        FiledFor sha256 (S.pool.step i).state request := by
      intro hfiled
      rcases hsound.turn.step_state (fun _ => guarded_program _) he with hs | hmoves
      · rwa [hs]
      · exact hfiled.moves hmoves
    by_cases hji : j = i
    · subst hji
      have hguard : ((S.calls j).program sha256).Guarded := guarded_program _
      rcases hsound.turn.cases (fun _ => guarded_program _) he with
        ⟨-, k, hk, hcall⟩ | ⟨hhold, δ, f, k, hk⟩ | ⟨hhold, a, ha'⟩
      · rw [hcall] at hguard
        have hleft : (S.pool.step j).left j = k := by
          rw [Pool.step_left_self, hk]
          rfl
        rw [hleft, Program.Held.answer hguard] at ha
        cases ha
      · have hheld := (hsound.turn.holds j hhold).1
        rw [hk] at hheld
        have hleft : (S.pool.step j).left j = k (f S.pool.state).1 := by
          rw [Pool.step_left_self, hk]
          rfl
        rw [hleft, (hheld _).answer] at ha
        cases ha
      · have hleft : (S.pool.step j).left j = .pure a := by
          rw [Pool.step_left_self, ha']
          rfl
        rw [hleft] at ha
        obtain rfl := Option.some.inj ha
        refine hkept ?_
        cases h.turn j with
        | ahead hahead =>
          rw [← hahead, ha'] at hguard
          exact hguard.elim
        | running s _ _ hrun =>
          rw [ha', hj] at hrun
          have hsubmit : exec (do
              let r ← submit sha256 answer request reasons
              pure (.receipt r)) s = (.ok reply, S.pool.state) := hrun.symm
          obtain ⟨r, d1, hsubmitted, hpure⟩ := exec_bind_ok hsubmit
          obtain ⟨-, rfl⟩ := Prod.mk.inj hpure
          exact submit_filed hsubmitted
        | answered s _ hanswered => cases ha'.symm.trans hanswered
    · refine hkept (h.filed j answer request reasons reply hj ?_)
      rwa [show (S.pool.step i).left j = S.pool.left j from Pool.step_left_of_ne hji] at ha

lemma filed_run (file : ReceiptsFile) (calls : ℕ → SubmissionCall)
    (hrun : Relation.ReflTransGen (System.Step sha256) (.boot sha256 calls ⟨file, []⟩) S) :
    Filed sha256 S := by
  have hboot : Sound sha256 (.boot sha256 calls ⟨file, []⟩) := sound_boot calls (orderly_nil file)
  induction hrun with
  | refl => exact filed_boot calls _
  | tail hprev hstep ih => exact ih.step (hboot.run hprev) hstep

/-- Two requests that differ in anything but their identity have different bytes. So when one of
them has been answered with a receipt, the other, with the same id and its own fingerprint, is
answered with `conflict` whenever it comes, unless the file cannot be read. SHA-256 is taken to
have different digests for the two. -/
theorem other_payload_conflicts (r s : HeldRequest) (hpayload : r.1.payload ≠ s.1.payload) :
    r.1.fingerprintMaterial ≠ s.1.fingerprintMaterial ∧
    ∀ (sha256 : List UInt8 → String), (sha256 r.1.fingerprintMaterial =
        sha256 s.1.fingerprintMaterial → r.1.fingerprintMaterial = s.1.fingerprintMaterial) →
    ∀ (file : ReceiptsFile) (calls : ℕ → SubmissionCall) (S : System),
      Relation.ReflTransGen (System.Step sha256) (.boot sha256 calls ⟨file, []⟩) S →
    ∀ j answer reasons reply, S.calls j = .submit answer r.1 reasons →
      (S.pool.left j).answer = some (.ok reply) →
    ∀ S', Relation.ReflTransGen (System.Step sha256) S S' →
    ∀ i answer' reasons', S'.calls i = .submit answer' s.1 reasons' → answer'.held = true →
      s.1.submissionId = r.1.submissionId →
      validIdentity s.1.submissionId s.1.fingerprint = true →
      s.1.fingerprint = fingerprint sha256 s.1 →
      S'.pool.left i = (S'.calls i).program sha256 →
    ∀ P, Relation.ReflTransGen Pool.Next S'.pool P → ∀ a, (P.left i).answer = some a →
      ∃ T, Relation.ReflTransGen Pool.Next S'.pool T ∧
        a = .error (match load answer'.read T.state.file with
          | .error e => .storage e
          | .ok _ => .conflict) := by
  have hmaterial : r.1.fingerprintMaterial ≠ s.1.fingerprintMaterial := fun h =>
    hpayload (payload_eq_of_material r.2 s.2 h)
  refine ⟨hmaterial, ?_⟩
  intro sha256 hsha file calls S hrun j answer reasons reply hj hreply S' hrun' i answer' reasons'
    hi hheld hid hvalid hown hleft P hnext a ha
  have hsound : Sound sha256 S := (sound_boot calls (orderly_nil file)).run hrun
  obtain ⟨first, hfirst, hfingerprint⟩ := (filed_run file calls hrun).filed j _ _ _ _ hj hreply
  obtain ⟨now, hnow, hsame, -⟩ := hsound.stored hrun' hfirst
  have hdiffer : now.fingerprint ≠ s.1.fingerprint := by
    rw [hsame, hfingerprint, hown]
    unfold fingerprint
    intro h
    exact hmaterial (hsha ((String.append_right_inj _).mp h))
  obtain ⟨T, hT, hrefusal⟩ := (hsound.run hrun').refused (i := i) (r := now)
    (by rw [hi]; exact (congrArg (stored _) hid).trans hnow) (by rw [hi]; exact hdiffer) hleft
    hnext ha
  refine ⟨T, hT, ?_⟩
  rw [hrefusal, hi]
  unfold SubmissionCall.refusal
  cases hload : load answer'.read T.state.file <;> simp [hvalid, ← hown, hheld, hload]

end Runs

/-- The same id with another prompt, and its own fingerprint. -/
def otherRequest : SubmissionRequest :=
  { oneRequest with
    prompt := "y"
    fingerprint := "sha256:1111111111111111111111111111111111111111111111111111111111111111" }

def digest (material : List UInt8) : String :=
  String.ofList (List.replicate 64 (if material = oneRequest.fingerprintMaterial then '0' else '1'))

def allYes : SubmitAnswer := ⟨true, none, ⟨true, none⟩, true, ⟨true, none⟩⟩

/-- The one request first, the other one after it. -/
def oneThenOther (i : ℕ) : SubmissionCall :=
  .submit allYes (if i = 0 then oneRequest else otherRequest) []

def answeredOne : System :=
  { calls := oneThenOther
    pool := (System.boot digest oneThenOther ⟨.absent, []⟩).pool.follow [0, 0, 0, 0, 0, 0] }

set_option maxRecDepth 20000 in
theorem other_payload_conflicts_prompt :
    ((answeredOne.pool.follow [1, 1, 1]).left 1).answer = some (.error .conflict) ∧
    oneRequest.fingerprintMaterial ≠ otherRequest.fingerprintMaterial ∧
    ∃ T, Relation.ReflTransGen Pool.Next answeredOne.pool T ∧
      (.error .conflict : Except SubmissionError Reply) =
        .error (match load allYes.read T.state.file with
          | .error e => .storage e
          | .ok _ => .conflict) := by
  have hheld : oneRequest.Held := by
    refine ⟨?_, ?_, ?_⟩ <;> decide +kernel
  have hheld' : otherRequest.Held := by
    refine ⟨?_, ?_, ?_⟩ <;> decide +kernel
  have hpayload : oneRequest.payload ≠ otherRequest.payload := fun h =>
    absurd (congrArg SubmissionRequest.prompt h) (by decide)
  -- One evaluation of the two runs.
  obtain ⟨hanswer, hreply, hone, hother, hdigest, hvalid, hown⟩ :
      ((answeredOne.pool.follow [1, 1, 1]).left 1).answer = some (.error .conflict) ∧
      (answeredOne.pool.left 0).answer =
        some (.ok (.receipt (settle oneRequest (receipt oneRequest .pending []) true))) ∧
      (System.boot digest oneThenOther ⟨.absent, []⟩).pool.canFollow [0, 0, 0, 0, 0, 0] = true ∧
      answeredOne.pool.canFollow [1, 1, 1] = true ∧
      (digest oneRequest.fingerprintMaterial = digest otherRequest.fingerprintMaterial →
        oneRequest.fingerprintMaterial = otherRequest.fingerprintMaterial) ∧
      validIdentity otherRequest.submissionId otherRequest.fingerprint = true ∧
      otherRequest.fingerprint = fingerprint digest otherRequest := by
    decide +kernel
  have hleft : answeredOne.pool.left 1 = (answeredOne.calls 1).program digest := by
    simp only [answeredOne, Pool.follow, List.foldl_cons, List.foldl_nil]
    repeat rw [Pool.step_left_of_ne (by decide)]
    rfl
  have hconflict := other_payload_conflicts ⟨oneRequest, hheld⟩ ⟨otherRequest, hheld'⟩ hpayload
  refine ⟨hanswer, hconflict.1, ?_⟩
  exact hconflict.2 digest hdigest .absent oneThenOther answeredOne
    (run_of_next (Pool.next_follow hone)) 0 allYes [] _ rfl hreply answeredOne .refl 1 allYes []
    rfl rfl rfl hvalid hown hleft _ (Pool.next_follow hother) _ hanswer

end Aeroric.Submission
