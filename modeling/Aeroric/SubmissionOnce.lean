import Aeroric.Submission

/-! Submissions that race, fail and die: each id is executed at most once, behind its pending
receipt, and a receipt that is not pending stays. -/
namespace Aeroric.Submission

open TaskStorage
open Call (exec)

def stored (d : Desk) (id : String) : Option SubmissionReceipt :=
  match d.file with
  | .found receipts => receipts.get id
  | _ => none

def executedId : Event → Option String
  | .executed id => some id
  | .wrote _ => none

def executed (log : List Event) : List String := log.filterMap executedId

def PendingFirst (log : List Event) : Prop :=
  ∀ after before id, log = after ++ .executed id :: before →
    ∃ receipts r, .wrote receipts ∈ before ∧ receipts.get id = some r ∧ r.state = .pending

/-- What one action of a call for `id` with fingerprint `f` can do. -/
inductive Moves (id f : String) : Desk → Desk → Prop
  | stays (d : Desk) : Moves id f d d
  | stores {d : Desk} {receipts : Receipts} {r : SubmissionReceipt}
      (hsame : ∀ q, receipts.get q = stored d q) (hnone : stored d id = none)
      (hf : r.fingerprint = f) : Moves id f d (d.write (receipts.insert id r))
  | executes {d : Desk} {receipts : Receipts} {r : SubmissionReceipt}
      (hr : stored d id = some r) (hf : r.fingerprint = f) (hpending : r.state = .pending)
      (hwrote : .wrote receipts ∈ d.log) (hget : receipts.get id = some r)
      (hfresh : id ∉ executed d.log) : Moves id f d { d with log := .executed id :: d.log }
  | settles {d : Desk} {receipts : Receipts} {old r : SubmissionReceipt}
      (hsame : ∀ q, receipts.get q = stored d q) (hold : stored d id = some old)
      (hpending : old.state = .pending) (hf : old.fingerprint = f) (hr : r.fingerprint = f) :
      Moves id f d (d.write (receipts.insert id r))

/-- What holds of the file and the log at any time. -/
structure Orderly (d : Desk) : Prop where
  onFile : ∀ id ∈ executed d.log, (stored d id).isSome
  once : (executed d.log).Nodup
  pendingFirst : PendingFirst d.log

lemma orderly_nil (file : ReceiptsFile) : Orderly ⟨file, []⟩ where
  onFile := by simp [executed]
  once := by simp [executed]
  pendingFirst after before id heq := by simp at heq

section Moves
variable {id f q : String} {d d' : Desk} {r : SubmissionReceipt} {receipts : Receipts}

lemma stored_write_insert (hsame : ∀ q, receipts.get q = stored d q) (r : SubmissionReceipt) :
    stored (d.write (receipts.insert id r)) q = if q = id then some r else stored d q := by
  rw [← hsame q]
  exact receipts.get_insert id q r

lemma pendingFirst_wrote {log : List Event} (h : PendingFirst log) :
    PendingFirst (.wrote receipts :: log) := by
  intro after before id heq
  cases after with
  | nil => simp at heq
  | cons e after => exact h after before id (List.cons.inj heq).2

lemma Moves.stored (h : Moves id f d d') (hr : stored d q = some r) :
    ∃ r', Submission.stored d' q = some r' ∧ r'.fingerprint = r.fingerprint ∧
      (r.state ≠ .pending → r' = r) := by
  cases h with
  | stays => exact ⟨r, hr, rfl, fun _ => rfl⟩
  | stores hsame hnone hf =>
    have hq : q ≠ id := fun hq => by rw [hq, hnone] at hr; cases hr
    exact ⟨r, by rw [stored_write_insert hsame, if_neg hq, hr], rfl, fun _ => rfl⟩
  | executes => exact ⟨r, hr, rfl, fun _ => rfl⟩
  | settles hsame hold hpending hf hr' =>
    rw [stored_write_insert hsame]
    by_cases hq : q = id
    · rw [hq, hold] at hr
      obtain rfl := Option.some.inj hr
      exact ⟨_, if_pos hq, hr'.trans hf.symm, fun h => absurd hpending h⟩
    · exact ⟨r, by rw [if_neg hq, hr], rfl, fun _ => rfl⟩

lemma Moves.eq_of_conflict (h : Moves id f d d') (hr : Submission.stored d id = some r)
    (hf : r.fingerprint ≠ f) : d' = d := by
  cases h with
  | stays => rfl
  | stores _ hnone => cases hnone.symm.trans hr
  | executes hr' hf' =>
    obtain rfl := Option.some.inj (hr.symm.trans hr')
    exact absurd hf' hf
  | settles _ hold _ hf' =>
    obtain rfl := Option.some.inj (hr.symm.trans hold)
    exact absurd hf' hf

lemma Moves.orderly (h : Moves id f d d') (ho : Orderly d) : Orderly d' := by
  have onFile : ∀ q ∈ executed d.log, (Submission.stored d' q).isSome := by
    intro q hq
    obtain ⟨r, hr⟩ := Option.isSome_iff_exists.mp (ho.onFile q hq)
    obtain ⟨r', hr', -⟩ := h.stored hr
    simp [hr']
  cases h with
  | stays => exact ho
  | stores => exact ⟨onFile, ho.once, pendingFirst_wrote ho.pendingFirst⟩
  | settles => exact ⟨onFile, ho.once, pendingFirst_wrote ho.pendingFirst⟩
  | executes hr _ hpending hwrote hget hfresh =>
    refine ⟨fun q hq => ?_, List.nodup_cons.mpr ⟨hfresh, ho.once⟩, fun after before q heq => ?_⟩
    · rcases List.mem_cons.mp hq with rfl | hq
      · exact Option.isSome_iff_exists.mpr ⟨_, hr⟩
      · exact onFile q hq
    · cases after with
      | nil =>
        obtain ⟨h1, rfl⟩ := List.cons.inj heq
        cases h1
        exact ⟨_, _, hwrote, hget, hpending⟩
      | cons e after => exact ho.pendingFirst after before q (List.cons.inj heq).2

end Moves

section Steps
variable {id f : String} {d : Desk} {receipts : Receipts}

lemma load_ok {read : Option Fault} (h : load read d.file = .ok receipts) (q : String) :
    receipts.get q = stored d q := by
  unfold load at h
  unfold stored
  cases read with
  | some fault => cases h
  | none =>
    cases hfile : d.file with
    | broken reason => simp [hfile] at h
    | absent =>
      rw [hfile] at h
      obtain rfl := Except.ok.inj h
      exact AList.lookup_empty q
    | found found =>
      rw [hfile] at h
      dsimp only at h
      split at h
      · cases h
      split at h
      · cases h
      · rw [Except.ok.inj h]

lemma requireWriter_steps {R : Desk → Desk → Prop} (held : Bool) :
    Call.Steps R (requireWriter held) := by
  unfold requireWriter
  split
  · exact .pure ()
  · exact .throw _

lemma requireWriter_ok {held : Bool} {u : Unit} {d' : Desk}
    (h : exec (requireWriter held) d = (.ok u, d')) : d' = d := by
  unfold requireWriter at h
  split at h
  · exact (Prod.mk.inj h).2.symm
  · cases (Prod.mk.inj h).1

lemma loadReceipts_ok {read : Option Fault} {d' : Desk}
    (h : exec (loadReceipts read) d = (.ok receipts, d')) :
    load read d.file = .ok receipts ∧ d' = d := by
  obtain ⟨hload, hd⟩ := Prod.mk.inj h
  refine ⟨?_, hd.symm⟩
  cases hl : load read d.file with
  | error e => simp [hl, Except.mapError] at hload
  | ok found => simpa [hl, Except.mapError] using hload

lemma persist_steps {answer : PersistAnswer} (h : Moves id f d (d.write receipts)) :
    Program.Steps (Moves id f) (persist answer receipts).run d := by
  refine Call.steps_bind_from (requireWriter_steps _ d) fun _ d' hd => ?_
  obtain rfl := requireWriter_ok hd
  refine ⟨?_, trivial⟩
  cases answer.fault with
  | none => exact h
  | some fault => exact .stays _

lemma exec_persist_ok {answer : PersistAnswer} {d' : Desk}
    (h : exec (persist answer receipts) d = (.ok (), d')) : d' = d.write receipts := by
  unfold persist requireWriter at h
  rw [Call.exec_bind] at h
  cases hheld : answer.held with
  | false => simp [hheld] at h
  | true =>
    cases hfault : answer.fault with
    | some fault => simp [hheld, hfault] at h
    | none => simpa [hheld, hfault, eq_comm] using h

lemma submitNew_steps (answer : SubmitAnswer) (request : SubmissionRequest) (reasons : List String)
    (ho : Orderly d) (hsame : ∀ q, receipts.get q = stored d q)
    (hnone : stored d request.submissionId = none) :
    Program.Steps (Moves request.submissionId request.fingerprint)
      (submitNew answer request reasons receipts).run d := by
  unfold submitNew
  dsimp only
  generalize hr : receipt request (if reasons.isEmpty = true then .pending else
    .rejectedBeforeSideEffect) reasons = r
  have hf : r.fingerprint = request.fingerprint := by rw [← hr]; rfl
  have hstate : r.state ≠ .rejectedBeforeSideEffect → r.state = .pending := by
    rw [← hr]
    unfold receipt
    dsimp only
    split <;> simp
  refine Call.steps_bind_from (persist_steps (.stores hsame hnone hf)) fun _ d1 h1 => ?_
  obtain rfl := exec_persist_ok h1
  split
  · exact trivial
  next hkept =>
  have hpending := hstate hkept
  have hstored : ∀ q, (receipts.insert request.submissionId r).get q =
      stored (d.write (receipts.insert request.submissionId r)) q := fun q => rfl
  have hself : (receipts.insert request.submissionId r).get request.submissionId = some r := by
    rw [Receipts.get_insert, if_pos rfl]
  have hfresh : request.submissionId ∉ executed d.log := fun hmem => by
    simpa [hnone] using ho.onFile _ hmem
  refine Call.steps_bind_from (p := execute _ _)
    ⟨.executes hself hf hpending List.mem_cons_self hself hfresh, trivial⟩
    fun succeeded d2 h2 => ?_
  obtain ⟨-, rfl⟩ := Prod.mk.inj h2
  refine Call.steps_bind_from (persist_steps (.settles hstored hself hpending hf ?_))
    fun _ _ _ => trivial
  unfold settle
  split <;> exact hf

end Steps

inductive SubmissionCall
  | submit (answer : SubmitAnswer) (request : SubmissionRequest) (reasons : List String)
  | lookup (read : Option Fault) (id fingerprint : String)

inductive Reply
  | receipt (receipt : SubmissionReceipt)
  | lookup (lookup : SubmissionLookup)
  deriving DecidableEq

namespace SubmissionCall

def id : SubmissionCall → String
  | .submit _ request _ => request.submissionId
  | .lookup _ id _ => id

def fingerprint : SubmissionCall → String
  | .submit _ request _ => request.fingerprint
  | .lookup _ _ fingerprint => fingerprint

def body (sha256 : List UInt8 → String) : SubmissionCall → Submissions Reply
  | .submit answer request reasons => do
    let r ← Submission.submit sha256 answer request reasons
    pure (.receipt r)
  | .lookup read id fingerprint => do
    let l ← Submission.lookup read id fingerprint
    pure (.lookup l)

def program (sha256 : List UInt8 → String) (call : SubmissionCall) :
    Program Desk (Except SubmissionError Reply) := (call.body sha256).run

/-- What a call whose fingerprint is not the one on file is refused with: the comparison is made
after the identity is checked and the file is read. -/
def refusal (sha256 : List UInt8 → String) (d : Desk) : SubmissionCall → SubmissionError
  | .submit answer request _ =>
    if !validIdentity request.submissionId request.fingerprint ||
        request.fingerprint ≠ Submission.fingerprint sha256 request then .invalid
    else if !answer.held then .storage .writePermission
    else match load answer.read d.file with
      | .error e => .storage e
      | .ok _ => .conflict
  | .lookup read id fingerprint =>
    if !validIdentity id fingerprint then .invalid
    else match load read d.file with
      | .error e => .storage e
      | .ok _ => .conflict

end SubmissionCall

section Calls
variable {sha256 : List UInt8 → String} {call : SubmissionCall} {d : Desk} {r : SubmissionReceipt}

lemma lockFree_requireWriter (held : Bool) : Call.LockFree (requireWriter held) := by
  unfold requireWriter
  split
  · exact .pure ()
  · exact .throw _

lemma lockFree_persist (answer : PersistAnswer) (receipts : Receipts) :
    Call.LockFree (persist answer receipts) :=
  .bind (lockFree_requireWriter _) fun _ => .act _

lemma lockFree_submitNew (answer : SubmitAnswer) (request : SubmissionRequest)
    (reasons : List String) (receipts : Receipts) :
    Call.LockFree (submitNew answer request reasons receipts) := by
  unfold submitNew
  dsimp only
  generalize receipt request _ reasons = r
  refine .bind (lockFree_persist _ _) fun _ => ?_
  split
  · exact .pure _
  · exact .bind (.act _) fun _ => .bind (lockFree_persist _ _) fun _ => .pure _

lemma guarded_program (call : SubmissionCall) : (call.program sha256).Guarded := by
  unfold SubmissionCall.program SubmissionCall.body
  cases call with
  | submit answer request reasons =>
    dsimp only
    unfold submit
    split
    · exact trivial
    refine Call.LockFree.guarded (.bind (lockFree_requireWriter _) fun _ =>
      .bind (.act _) fun receipts => ?_) _
    split
    · split
      · exact .throw _
      · exact .pure _
    · exact lockFree_submitNew _ _ _ _
  | lookup read id fingerprint =>
    dsimp only
    unfold lookup
    split
    · exact trivial
    refine Call.LockFree.guarded (.bind (.act _) fun receipts => ?_) _
    dsimp only
    split
    · exact .throw _
    · exact .pure _

lemma program_steps (call : SubmissionCall) (ho : Orderly d) :
    (call.program sha256).Steps (Moves call.id call.fingerprint) d := by
  unfold SubmissionCall.program SubmissionCall.body
  cases call with
  | submit answer request reasons =>
    refine Call.steps_bind_from ?_ fun _ _ _ => trivial
    unfold submit
    split
    · exact trivial
    refine (Program.steps_bind _ _ d).mpr ⟨?_, trivial⟩
    refine Call.steps_bind_from (requireWriter_steps _ d) fun _ d1 h1 => ?_
    obtain rfl := requireWriter_ok h1
    refine Call.steps_bind_from ⟨.stays _, trivial⟩ fun receipts d2 h2 => ?_
    obtain ⟨hload, rfl⟩ := loadReceipts_ok h2
    split
    · split <;> exact trivial
    next hnone =>
    have hsame := load_ok hload
    exact submitNew_steps answer request _ ho hsame ((hsame _).symm.trans hnone)
  | lookup read id fingerprint =>
    refine Call.steps_bind_from ?_ fun _ _ _ => trivial
    unfold lookup
    split
    · exact trivial
    refine (Program.steps_bind _ _ d).mpr ⟨?_, trivial⟩
    refine Call.steps_bind_from ⟨.stays _, trivial⟩ fun receipts d2 h2 => ?_
    dsimp only
    split <;> exact trivial

/-- A call on its own that comes with another fingerprint than the one on file. -/
lemma program_refused (hr : stored d call.id = some r) (hf : r.fingerprint ≠ call.fingerprint) :
    (call.program sha256).run d = (.error (call.refusal sha256 d), d) := by
  show exec (call.body sha256) d = _
  cases call with
  | submit answer request reasons =>
    unfold SubmissionCall.body SubmissionCall.refusal submit
    dsimp only
    by_cases hbad : (!validIdentity request.submissionId request.fingerprint ||
        request.fingerprint ≠ fingerprint sha256 request) = true
    · rw [if_pos hbad, if_pos hbad]
      rfl
    rw [if_neg hbad, if_neg hbad]
    unfold requireWriter loadReceipts
    simp only [Call.exec_bind, Call.exec_serial]
    cases answer.held with
    | false => rfl
    | true =>
      cases hl : load answer.read d.file with
      | error e => simp [hl, Except.mapError]
      | ok receipts =>
        have hget : receipts.get request.submissionId = some r := (load_ok hl _).trans hr
        have hne : r.fingerprint ≠ request.fingerprint := hf
        simp [hl, Except.mapError, hget, hne]
  | lookup read id fingerprint =>
    unfold SubmissionCall.body SubmissionCall.refusal lookup
    dsimp only
    by_cases hbad : (!validIdentity id fingerprint) = true
    · rw [if_pos hbad, if_pos hbad]
      rfl
    rw [if_neg hbad, if_neg hbad]
    unfold loadReceipts
    simp only [Call.exec_bind, Call.exec_serial]
    cases hl : load read d.file with
    | error e => simp [hl, Except.mapError]
    | ok receipts =>
      have hget : receipts.get id = some r := (load_ok hl _).trans hr
      have hne : r.fingerprint ≠ fingerprint := hf
      simp [hl, Except.mapError, hget, hne]

end Calls

/-- The calls of a process, and where they stand. -/
structure System where
  calls : ℕ → SubmissionCall
  pool : Pool ℕ Desk (Except SubmissionError Reply)

def System.boot (sha256 : List UInt8 → String) (calls : ℕ → SubmissionCall) (d : Desk) : System :=
  ⟨calls, .start d fun i => (calls i).program sha256⟩

/-- A call takes its next instruction, or the process dies and another one begins. -/
inductive System.Step (sha256 : List UInt8 → String) : System → System → Prop
  | goes {S : System} {P : Pool ℕ Desk (Except SubmissionError Reply)} (h : S.pool.Next P) :
      Step sha256 S { S with pool := P }
  | dies (S : System) (calls : ℕ → SubmissionCall) :
      Step sha256 S (.boot sha256 calls S.pool.state)

section Runs
variable {sha256 : List UInt8 → String} {S S' : System}

structure Sound (sha256 : List UInt8 → String) (S : System) : Prop where
  turn : Pool.InTurn (fun i => (S.calls i).program sha256)
    (fun i => Moves (S.calls i).id (S.calls i).fingerprint) S.pool
  orderly : Orderly S.pool.state

lemma sound_boot (calls : ℕ → SubmissionCall) {d : Desk} (h : Orderly d) :
    Sound sha256 (.boot sha256 calls d) :=
  ⟨Pool.inTurn_start _ _ _, h⟩

lemma Sound.step (h : Sound sha256 S) (hstep : System.Step sha256 S S') : Sound sha256 S' ∧
    (S'.pool.state = S.pool.state ∨ ∃ id f, Moves id f S.pool.state S'.pool.state) := by
  cases hstep with
  | dies calls => exact ⟨sound_boot calls h.orderly, .inl rfl⟩
  | goes hnext =>
    obtain ⟨i, he, rfl⟩ := hnext
    have hsteps : ∀ i d, Orderly d → ((S.calls i).program sha256).Steps
        (Moves (S.calls i).id (S.calls i).fingerprint) d := fun _ _ => program_steps _
    have hturn := h.turn.step (fun _ => guarded_program _) hsteps h.orderly he
    rcases h.turn.step_state (fun _ => guarded_program _) he with hs | hs
    · exact ⟨⟨hturn, by rw [hs]; exact h.orderly⟩, .inl hs⟩
    · exact ⟨⟨hturn, hs.orderly h.orderly⟩, .inr ⟨_, _, hs⟩⟩

lemma Sound.run (h : Sound sha256 S) (hrun : Relation.ReflTransGen (System.Step sha256) S S') :
    Sound sha256 S' := by
  induction hrun with
  | refl => exact h
  | tail _ hstep ih => exact (ih.step hstep).1

/-- Along a run a receipt stays, or it was pending and keeps its fingerprint. -/
lemma Sound.stored (h : Sound sha256 S)
    (hrun : Relation.ReflTransGen (System.Step sha256) S S') {id : String} {r : SubmissionReceipt}
    (hr : stored S.pool.state id = some r) : ∃ r', Submission.stored S'.pool.state id = some r' ∧
      r'.fingerprint = r.fingerprint ∧ (r.state ≠ .pending → r' = r) := by
  induction hrun with
  | refl => exact ⟨r, hr, rfl, fun _ => rfl⟩
  | tail hprev hstep ih =>
    obtain ⟨r1, hr1, hf1, hkept1⟩ := ih
    rcases ((h.run hprev).step hstep).2 with hs | ⟨_, _, hmove⟩
    · exact ⟨r1, by rw [hs, hr1], hf1, hkept1⟩
    · obtain ⟨r2, hr2, hf2, hkept2⟩ := hmove.stored hr1
      refine ⟨r2, hr2, hf2.trans hf1, fun hne => ?_⟩
      obtain rfl := hkept1 hne
      exact hkept2 hne

variable {P : Pool ℕ Desk (Except SubmissionError Reply)}

lemma run_of_next (h : Relation.ReflTransGen Pool.Next S.pool P) :
    Relation.ReflTransGen (System.Step sha256) S { S with pool := P } := by
  induction h with
  | refl => exact .refl
  | tail _ hnext ih => exact ih.tail (.goes (S := { S with pool := _ }) hnext)

lemma Sound.turn_next (h : Sound sha256 S) {i : ℕ}
    (hleft : S.pool.left i = (S.calls i).program sha256)
    (hrun : Relation.ReflTransGen Pool.Next S.pool P) :
    Pool.Turn (fun i => (S.calls i).program sha256)
      (fun d => ∃ T, Relation.ReflTransGen Pool.Next S.pool T ∧ T.state = d) P i := by
  induction hrun with
  | refl => exact .ahead hleft
  | tail hprev hnext ih =>
    obtain ⟨j, he, rfl⟩ := hnext
    have hsound := h.run (run_of_next hprev)
    exact ih.step hsound.turn (fun _ => guarded_program _) he ⟨_, hprev, rfl⟩

/-- A call that has not begun, with another fingerprint than the one on file: wherever it takes its
turn, the receipt on file still has the other fingerprint. -/
lemma Sound.refused (h : Sound sha256 S) {i : ℕ} {r : SubmissionReceipt}
    (hr : Submission.stored S.pool.state (S.calls i).id = some r)
    (hf : r.fingerprint ≠ (S.calls i).fingerprint)
    (hleft : S.pool.left i = (S.calls i).program sha256)
    (hnext : Relation.ReflTransGen Pool.Next S.pool P)
    {a : Except SubmissionError Reply} (ha : (P.left i).answer = some a) :
    ∃ T, Relation.ReflTransGen Pool.Next S.pool T ∧
      a = .error ((S.calls i).refusal sha256 T.state) := by
  have refused : ∀ T, Relation.ReflTransGen Pool.Next S.pool T →
      ((S.calls i).program sha256).run T.state =
        (.error ((S.calls i).refusal sha256 T.state), T.state) := by
    intro T hT
    obtain ⟨r', hr', hf', -⟩ := h.stored (run_of_next hT) hr
    exact program_refused hr' (by rwa [hf'])
  have ha' := Program.answer_eq_some.mp ha
  cases h.turn_next hleft hnext with
  | ahead hahead =>
    refine ⟨S.pool, .refl, ?_⟩
    have hpure := refused S.pool .refl
    rw [← hahead, ha'] at hpure
    exact (Prod.mk.inj hpure).1
  | running s hs hhold =>
    have hheld := ((h.run (run_of_next hnext)).turn.holds i hhold).1.answer
    cases hheld.symm.trans ha
  | answered s hs hanswered =>
    obtain ⟨T, hT, rfl⟩ := hs
    refine ⟨T, hT, ?_⟩
    rw [refused T hT] at hanswered
    exact Program.pure.inj (ha'.symm.trans hanswered)

/-- In every run of racing submissions and lookups, whatever fails and whenever the process dies:
each id is executed at most once and after its pending receipt was written, a receipt that is not
pending stays as it is, and a call whose fingerprint is not the one on file has no effect and is
refused with `conflict`, unless its identity or the file is refused before. -/
theorem submissions_execute_at_most_once (file : ReceiptsFile) (calls : ℕ → SubmissionCall)
    (hrun : Relation.ReflTransGen (System.Step sha256) (.boot sha256 calls ⟨file, []⟩) S) :
    (executed S.pool.state.log).Nodup ∧ PendingFirst S.pool.state.log ∧
    (∀ S', Relation.ReflTransGen (System.Step sha256) S S' → ∀ id r,
      stored S.pool.state id = some r → r.state ≠ .pending → stored S'.pool.state id = some r) ∧
    ∀ i r, stored S.pool.state (S.calls i).id = some r → r.fingerprint ≠ (S.calls i).fingerprint →
      (S.pool.enabled i = true → (S.pool.step i).state = S.pool.state) ∧
      (S.pool.left i = (S.calls i).program sha256 →
        ∀ P, Relation.ReflTransGen Pool.Next S.pool P → ∀ a, (P.left i).answer = some a →
          ∃ T, Relation.ReflTransGen Pool.Next S.pool T ∧
            a = .error ((S.calls i).refusal sha256 T.state)) := by
  have h : Sound sha256 S := (sound_boot calls (orderly_nil file)).run hrun
  refine ⟨h.orderly.once, h.orderly.pendingFirst, fun S' hrun' id r hr hstate => ?_,
    fun i r hr hf => ⟨fun he => ?_, fun hleft P hnext a ha => h.refused hr hf hleft hnext ha⟩⟩
  · obtain ⟨r', hr', -, hkept⟩ := h.stored hrun' hr
    rwa [hkept hstate] at hr'
  · rcases h.turn.step_state (fun _ => guarded_program _) he with hs | hs
    · exact hs
    · exact hs.eq_of_conflict hr hf

end Runs

/-- A digest for the fixed runs. -/
def zeros (_ : List UInt8) : String := String.ofList (List.replicate 64 '0')

def oneRequest : SubmissionRequest where
  schemaVersion := 1
  submissionId := "a"
  projectId := "p"
  configurationId := "c"
  configurationVersion := "1"
  fingerprint := "sha256:0000000000000000000000000000000000000000000000000000000000000000"
  agent := "claude"
  prompt := "x"
  permissionMode := "ask"
  permissionAgent := "claude"
  selectedModel := none
  reasoningEffort := none
  attachments := []
  worktree := none
  recipeId := none
  team := false
  review := false
  evolution := false
  clarify := false
  isolated := false

/-- Everything is answered with yes, but the second write fails. -/
def lastWriteFails : SubmitAnswer := ⟨true, none, ⟨true, none⟩, true, ⟨true, some .denied⟩⟩

/-- The same submission again and again. -/
def sameAgain (_ : ℕ) : SubmissionCall := .submit lastWriteFails oneRequest []

/-- The first has run, and the second waits behind it. -/
def ranOnce : System :=
  { calls := sameAgain
    pool := (System.boot zeros sameAgain ⟨.absent, []⟩).pool.follow [0, 0, 0, 0, 0, 0, 1, 1, 1] }

set_option maxRecDepth 8000 in
/-- The receipt of the first stayed pending, and the second has not executed again. -/
theorem ranOnce_executed : executed ranOnce.pool.state.log = ["a"] ∧
    (∀ i < 2, (ranOnce.pool.left i).answer.isSome) ∧ (executed ranOnce.pool.state.log).Nodup :=
  ⟨by decide, by decide, (submissions_execute_at_most_once .absent sameAgain
    (run_of_next (Pool.next_follow (by decide)))).1⟩

def settledDesk : Desk :=
  (⟨.absent, []⟩ : Desk).write ((⟨1, ∅⟩ : Receipts).insert "a" (receipt oneRequest .unknown []))

set_option maxRecDepth 8000 in
/-- Another fingerprint than the one on file, and no conflict: the fingerprint is malformed, or
the file cannot be read. -/
theorem otherFingerprint_not_conflict :
    (∀ fingerprint ∈ ["x", "sha256:1111111111111111111111111111111111111111111111111111111111111111"],
      (stored settledDesk "a").all (·.fingerprint ≠ fingerprint)) ∧
    (exec (lookup none "a" "x") settledDesk).1 = .error .invalid ∧
    (exec (lookup (some .denied) "a"
      "sha256:1111111111111111111111111111111111111111111111111111111111111111") settledDesk).1 =
      .error (.storage (.read .denied)) := by
  decide

end Aeroric.Submission
