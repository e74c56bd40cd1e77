import Aeroric.DeliveryAttempts

/-! How often a message is handed over: once, and once more for each time the user sends it again or
it is retried after a failure. A stop that pauses a message which is out breaks that. -/
namespace Aeroric.Deliveries

open Threads (Pending Takes)

def times (id : String) (event : Event) (log : List Entry) : ℕ :=
  log.countP fun
    | .stepped k _ e => k = id && e = event
    | _ => false

/-- How often `DeliveryHost::send` was called for an item. -/
def calls (id : String) (log : List Entry) : ℕ :=
  log.countP fun
    | .called k _ => k = id
    | _ => false

/-- A hand-over came back as failed, or its driver has rejected it. -/
def DefinitelyFailed (id : String) (attempt : ℕ) (log : List Entry) : Prop :=
  (∃ reason, .returned id attempt (.err reason) ∈ log) ∨ .heard id attempt .rejected ∈ log

/-- After its last hand-over the item was sent again by the user, or that one failed. -/
def MayGoAgain (id : String) (attempt : ℕ) (log : List Entry) : Prop :=
  .stepped id attempt .resend ∈ log ∨ DefinitelyFailed id attempt log

/-- No stop while an item of the session is out, no rejection of an earlier hand-over, and an item
is handed over again when its earlier hand-overs are settled. -/
def calm (S : System) (a : Answer) : Instr → Bool
  | .pause taskId => (S.state.store.ofTask taskId).all (·.state ≠ .sending)
  | .receipt _ id attempt .rejected _ => (S.state.store.get id).all (·.attempts = attempt)
  | i => settledFirst S a i

def owed (d : Delivery) : ℕ := if d.state = .waiting ∨ d.state = .paused then 1 else 0

/-- What the store and the log say of the hand-overs. -/
structure Permitted (q : Queue) : Prop where
  items : ∀ id d, q.store.get id = some d → .enqueued id ∈ q.log
  unused : ∀ id, .enqueued id ∉ q.log → times id .send q.log = 0
  bound : ∀ id, times id .send q.log + ((q.store.get id).map owed).getD 0 ≤
    1 + times id .resend q.log + times id .retry q.log
  failed : ∀ id d, q.store.get id = some d → d.state = .failed →
    DefinitelyFailed id d.attempts q.log
  again : ∀ id d, q.store.get id = some d → d.state = .waiting ∨ d.state = .paused →
    0 < d.attempts → MayGoAgain id d.attempts q.log

section
variable {S S' : System} {a : Answer} {q q' : Queue} {i j : Instr} {item d d' : Delivery}
  {event : Event} {now n : ℕ} {id k : String} {log log' : List Entry} {e : Entry}

lemma times_stepped {event' : Event} : times k event (.stepped id n event' :: log) =
    times k event log + if id = k ∧ event' = event then 1 else 0 := by
  unfold times
  rw [List.countP_cons]
  by_cases h : id = k ∧ event' = event <;> simp [h]

lemma DefinitelyFailed.mono (h : DefinitelyFailed id n log) (hlog : ∀ e ∈ log, e ∈ log') :
    DefinitelyFailed id n log' := by
  rcases h with ⟨reason, h⟩ | h
  · exact .inl ⟨reason, hlog _ h⟩
  · exact .inr (hlog _ h)

lemma MayGoAgain.mono (h : MayGoAgain id n log) (hlog : ∀ e ∈ log, e ∈ log') :
    MayGoAgain id n log' := h.imp (hlog _) (·.mono hlog)

/-- An event that a calm run brings: no stop of what is out, and a failure that is one. -/
structure Warranted (log : List Entry) (d : Delivery) (event : Event) : Prop where
  stop : event = .stop → d.state ≠ .sending
  rejected : ∀ reason, event = .receipt .rejected reason → DefinitelyFailed d.id d.attempts log
  sendFailed : ∀ reason blocked, event = .sendFailed reason blocked →
    DefinitelyFailed d.id d.attempts log

lemma Permitted.bound_self (h : Permitted q) (hget : q.store.get d.id = some d)
    (hstep : step d event now = some d') (hw : Warranted q.log d event) :
    times d.id .send (.stepped d.id n event :: q.log) + owed d' ≤
      1 + times d.id .resend (.stepped d.id n event :: q.log) +
        times d.id .retry (.stepped d.id n event :: q.log) := by
  have hb := h.bound d.id
  rw [hget, Option.map_some, Option.getD_some] at hb
  simp only [times_stepped, true_and]
  have hm := step_moves hstep
  have hstop := hw.stop
  unfold owed at hb ⊢
  generalize d.state = s at hb hm hstop
  generalize d'.state = s' at hm ⊢
  cases hm <;> simp_all <;> omega

lemma Permitted.again_self (h : Permitted q) (hget : q.store.get d.id = some d)
    (hstep : step d event now = some d') (hw : Warranted q.log d event)
    (hstate : d'.state = .waiting ∨ d'.state = .paused) (hatt : 0 < d'.attempts) :
    MayGoAgain d.id d'.attempts (.stepped d.id d.attempts event :: q.log) := by
  have hm := step_moves hstep
  have hsame : event ≠ .send → d'.attempts = d.attempts := fun hne => by
    rw [step_attempts hstep, if_neg hne]
  have kept : event ≠ .send → d.state = .waiting ∨ d.state = .paused →
      MayGoAgain d.id d'.attempts (.stepped d.id d.attempts event :: q.log) := by
    intro hne hs
    rw [hsame hne] at hatt ⊢
    exact (h.again d.id d hget hs hatt).mono fun e => List.mem_cons_of_mem _
  generalize hs : d.state = s at hm
  generalize hs' : d'.state = s' at hm
  cases hm with
  | stop hs0 =>
    rcases hs0 with rfl | rfl
    · exact kept nofun (.inl hs)
    · exact absurd hs (hw.stop rfl)
  | restarted => exact kept nofun (.inl hs)
  | resume => exact kept nofun (.inr hs)
  | resend =>
    rw [hsame nofun]
    exact .inl List.mem_cons_self
  | retry =>
    rw [hsame nofun]
    exact .inr ((h.failed d.id d hget hs).mono fun e => List.mem_cons_of_mem _)
  | _ => simp [hs'] at hstate

lemma Permitted.failed_self (hstep : step d event now = some d') (hw : Warranted q.log d event)
    (hstate : d'.state = .failed) : DefinitelyFailed d.id d'.attempts q.log := by
  have hm := step_moves hstep
  have hsame : event ≠ .send → d'.attempts = d.attempts := fun hne => by
    rw [step_attempts hstep, if_neg hne]
  rw [hstate] at hm
  generalize d.state = s at hm
  cases hm with
  | rejected =>
    rw [hsame nofun]
    exact hw.rejected _ rfl
  | sendFailed =>
    rw [hsame nofun]
    exact hw.sendFailed _ _ rfl

lemma Permitted.put (h : Permitted q) (hget : q.store.get d.id = some d)
    (hstep : step d event now = some d') (hw : Warranted q.log d event) :
    Permitted (q.put d event d') := by
  have hlog : ∀ e ∈ q.log, e ∈ (q.put d event d').log := fun e => List.mem_cons_of_mem _
  -- other items are as before, and their counts too
  have other : ∀ {k}, k ≠ d.id → ∀ ev, times k ev (q.put d event d').log = times k ev q.log := by
    intro k hk ev
    show times k ev (.stepped d.id d.attempts event :: q.log) = _
    rw [times_stepped, if_neg fun hc => hk hc.1.symm, add_zero]
  have cases : ∀ k d1, (q.put d event d').store.get k = some d1 →
      (k = d.id ∧ d1 = d') ∨ q.store.get k = some d1 := by
    intro k d1 hk
    rw [get_put hstep] at hk
    split at hk
    · next hid => exact .inl ⟨hid, (Option.some.inj hk).symm⟩
    · exact .inr hk
  refine ⟨fun k d1 hk => ?_, fun k hk => ?_, fun k => ?_, fun k d1 hk hs => ?_,
    fun k d1 hk hs hatt => ?_⟩
  · rcases cases k d1 hk with ⟨rfl, -⟩ | hk
    · exact hlog _ (h.items _ d hget)
    · exact hlog _ (h.items k d1 hk)
  · have hne : k ≠ d.id := fun hid => hk (hid ▸ hlog _ (h.items _ d hget))
    rw [other hne]
    exact h.unused k fun hmem => hk (hlog _ hmem)
  · rw [get_put hstep]
    by_cases hid : k = d.id
    · subst hid
      rw [if_pos rfl, Option.map_some, Option.getD_some]
      exact h.bound_self hget hstep hw
    · rw [if_neg hid, other hid, other hid, other hid]
      exact h.bound k
  · rcases cases k d1 hk with ⟨rfl, rfl⟩ | hk
    · exact (failed_self hstep hw hs).mono hlog
    · exact (h.failed k d1 hk hs).mono hlog
  · rcases cases k d1 hk with ⟨rfl, rfl⟩ | hk
    · exact h.again_self hget hstep hw hs hatt
    · exact (h.again k d1 hk hs hatt).mono hlog

lemma Permitted.marks (h : Permitted q) (hstore : q'.store = q.store) (hlog : q'.log = q.log) :
    Permitted q' := by
  obtain ⟨h1, h2, h3, h4, h5⟩ := h
  rw [← hstore, ← hlog] at *
  exact ⟨h1, h2, h3, h4, h5⟩

lemma Permitted.note (h : Permitted q) (hstepped : ∀ id n event, e ≠ .stepped id n event)
    (henqueued : ∀ id, e ≠ .enqueued id) : Permitted (q.note e) := by
  have hlog : ∀ e' ∈ q.log, e' ∈ (q.note e).log := fun e' => List.mem_cons_of_mem _
  have hsame : ∀ k ev, times k ev (q.note e).log = times k ev q.log := by
    intro k ev
    show times k ev (e :: q.log) = _
    unfold times
    rw [List.countP_cons_of_neg]
    cases e with
    | stepped id n event => exact absurd rfl (hstepped id n event)
    | _ => simp
  refine ⟨fun k d hk => hlog _ (h.items k d hk), fun k hk => ?_, fun k => ?_,
    fun k d hk hs => (h.failed k d hk hs).mono hlog,
    fun k d hk hs hatt => (h.again k d hk hs hatt).mono hlog⟩
  · rw [hsame]
    exact h.unused k fun hmem => hk (hlog _ hmem)
  · rw [hsame, hsame, hsame]
    exact h.bound k

lemma Permitted.add (h : Permitted q) (hnew : .enqueued item.id ∉ q.log)
    (hstate : item.state = .waiting) (hatt : item.attempts = 0) :
    Permitted { q with store := q.store.save item, log := .enqueued item.id :: q.log } := by
  have hsame : ∀ k ev, times k ev (.enqueued item.id :: q.log) = times k ev q.log := by
    intro k ev
    unfold times
    rw [List.countP_cons_of_neg (by simp)]
  have hlog : ∀ e ∈ q.log, e ∈ Entry.enqueued item.id :: q.log := fun e => List.mem_cons_of_mem _
  have cases : ∀ k d, (q.store.save item).get k = some d →
      (k = item.id ∧ d = item) ∨ q.store.get k = some d := by
    intro k d hk
    rw [Store.get_save] at hk
    split at hk
    · next hid => exact .inl ⟨hid, (Option.some.inj hk).symm⟩
    · exact .inr hk
  refine ⟨fun k d hk => ?_, fun k hk => ?_, fun k => ?_, fun k d hk hs => ?_,
    fun k d hk hs hpos => ?_⟩
  · rcases cases k d hk with ⟨rfl, -⟩ | hk
    · exact List.mem_cons_self
    · exact hlog _ (h.items k d hk)
  · rw [hsame]
    exact h.unused k fun hmem => hk (hlog _ hmem)
  · rw [hsame, hsame, hsame]
    dsimp only
    rw [Store.get_save]
    split
    · next hid =>
      rw [hid, h.unused _ hnew, Option.map_some, Option.getD_some, owed, if_pos (.inl hstate)]
      omega
    · exact h.bound k
  · rcases cases k d hk with ⟨rfl, rfl⟩ | hk
    · simp [hstate] at hs
    · exact (h.failed k d hk hs).mono hlog
  · rcases cases k d hk with ⟨rfl, rfl⟩ | hk
    · simp [hatt] at hpos
    · exact (h.again k d hk hs hpos).mono hlog

lemma Warranted.mono (h : Warranted log d event) (hlog : ∀ e ∈ log, e ∈ log') :
    Warranted log' d event :=
  ⟨h.stop, fun r he => (h.rejected r he).mono hlog, fun r b he => (h.sendFailed r b he).mono hlog⟩

variable {Makes : Delivery → Event → Prop} {Notes : Entry → Prop}

lemma Permitted.edits (h : Permitted q)
    (hedits : Relation.ReflTransGen (Edit Makes (fun _ => False) Notes) q q')
    (hmakes : ∀ d event, Makes d event → Warranted q.log d event)
    (hnotes : ∀ e, Notes e → (∀ id n event, e ≠ .stepped id n event) ∧ ∀ id, e ≠ .enqueued id) :
    Permitted q' := by
  induction hedits with
  | refl => exact h
  | tail hprev hedit ih =>
    cases hedit with
    | put hget hm hstep =>
      exact ih.put hget hstep ((hmakes _ _ hm).mono fun e => edits_log_mono hprev)
    | add hadds => exact hadds.elim
    | note hn => exact ih.note (hnotes _ hn).1 (hnotes _ hn).2
    | marks hstore hlog => exact ih.marks hstore hlog

lemma edits_enqueued (hedits : Relation.ReflTransGen (Edit Makes (fun _ => False) Notes) q q')
    (hnotes : ∀ e, Notes e → (∀ id n event, e ≠ .stepped id n event) ∧ ∀ id, e ≠ .enqueued id)
    (h : .enqueued id ∈ q'.log) : .enqueued id ∈ q.log := by
  induction hedits with
  | refl => exact h
  | tail _ hedit ih =>
    cases hedit with
    | put => exact ih ((List.mem_cons.mp h).resolve_left nofun)
    | add hadds => exact hadds.elim
    | note hn => exact ih ((List.mem_cons.mp h).resolve_left ((hnotes _ hn).2 id).symm)
    | marks _ hlog => exact ih (hlog ▸ h)

lemma exec_edits_same (hadds : ∀ d, ¬ i.Adds d) : Relation.ReflTransGen
    (Edit (fun d e => q.store.get d.id = some d ∧ i.Makes d e) (fun _ => False)
      fun e => i.Notes a e) q (exec a q i).state := by
  refine Relation.ReflTransGen.mono ?_ _ _ (exec_edits a q i)
  intro q1 q2 hedit
  cases hedit with
  | put hget hmakes hstep => exact .put hget hmakes hstep
  | add h => exact absurd h (hadds _)
  | note hn => exact .note hn
  | marks hstore hlog => exact .marks hstore hlog

lemma notes_beside (h : i.Notes a e) :
    (∀ id n event, e ≠ .stepped id n event) ∧ ∀ id, e ≠ .enqueued id := by
  cases i with
  | act | applyAction =>
    obtain ⟨answer, rfl⟩ := h
    exact ⟨nofun, nofun⟩
  | receipt | turnStarted | send | await =>
    obtain rfl := h
    exact ⟨nofun, nofun⟩
  | _ => exact h.elim

/-- In a calm run the instructions other than receipts bring what is warranted. -/
lemma warranted_of_makes (h : InAttempt S) (hi : S.Pending i) (hcalm : calm S a i = true)
    (hreceipt : ∀ taskId id n outcome reason, i ≠ .receipt taskId id n outcome reason)
    (hget : S.state.store.get d.id = some d) (hmakes : i.Makes d event) :
    Warranted S.state.log d event := by
  cases i with
  | receipt => exact absurd rfl (hreceipt _ _ _ _ _)
  | pause taskId =>
    obtain ⟨htask, rfl⟩ := hmakes
    refine ⟨fun _ hs => ?_, nofun, nofun⟩
    have hall := List.all_eq_true.mp hcalm d (Store.mem_ofTask.mpr ⟨hget, htask⟩)
    simp [hs] at hall
  | outcome item event =>
    obtain ⟨hid, rfl⟩ := hmakes
    have hatt := h.same _ item hi rfl d (hid ▸ hget)
    rcases h.told _ hi with ⟨rfl, -⟩ | ⟨reason, rfl, hreturned⟩
    · exact ⟨nofun, nofun, nofun⟩
    · rw [← hid, ← hatt] at hreturned
      exact ⟨nofun, nofun, fun _ _ _ => .inl ⟨reason, hreturned⟩⟩
  | record id event =>
    obtain ⟨-, rfl⟩ := hmakes
    rcases h.told _ hi with rfl | ⟨found, rfl⟩ <;> exact ⟨nofun, nofun, nofun⟩
  | applyAction id action =>
    obtain ⟨-, rfl⟩ := hmakes
    cases action <;> exact ⟨nofun, nofun, nofun⟩
  | enqueue | started | take | lose =>
    obtain ⟨-, rfl⟩ := hmakes
    exact ⟨nofun, nofun, nofun⟩
  | _ => exact hmakes.elim

lemma Permitted.exec (hp : Permitted S.state) (h : InAttempt S) (hi : S.Pending i)
    (hfresh : i.isFresh S.state = true) (hcalm : calm S a i = true) :
    Permitted (exec a S.state i).state := by
  by_cases hreceipt : ∃ taskId id n outcome reason, i = .receipt taskId id n outcome reason
  · -- the receipt is noted first
    obtain ⟨taskId, id, n, outcome, reason, rfl⟩ := hreceipt
    have hnoted : Permitted (S.state.note (.heard id n outcome)) := hp.note nofun nofun
    have hedits : Relation.ReflTransGen (Edit (fun d event => S.state.store.get d.id = some d ∧
        d.id = id ∧ event = .receipt outcome reason) (fun _ => False) fun _ => False)
        (S.state.note (.heard id n outcome))
        ((S.state.note (.heard id n outcome)).changed id (.receipt outcome reason) a.now) :=
      changed_edits fun d hget hd => ⟨hget, hd, rfl⟩
    refine hnoted.edits hedits ?_ fun _ h => h.elim
    rintro d event ⟨hget, rfl, rfl⟩
    refine ⟨nofun, fun r he => ?_, nofun⟩
    cases he
    have hatt : d.attempts = n := by simpa [calm, hget] using hcalm
    rw [hatt]
    exact .inr List.mem_cons_self
  push Not at hreceipt
  have hmakes : ∀ d event, S.state.store.get d.id = some d ∧ i.Makes d event →
      Warranted S.state.log d event := fun d event hm =>
    warranted_of_makes h hi hcalm hreceipt hm.1 hm.2
  by_cases hadds : ∀ d, ¬ i.Adds d
  · exact hp.edits (exec_edits_same hadds) hmakes fun e => notes_beside
  cases i with
  | enqueue id taskId kind mode label text sourceRef =>
    have hedits : Relation.ReflTransGen (Edit (fun d event => S.state.store.get d.id = some d ∧
        d.taskId = taskId ∧ event = .retry) (fun _ => False) fun _ => False) S.state
        (S.state.changeAll .retry a.now (S.state.store.ofTask taskId)) :=
      changeAll_edits _ (fun d hd => (Store.mem_ofTask.mp hd).1) (S.state.store.nodup_ofTask taskId)
        fun d hd => ⟨(Store.mem_ofTask.mp hd).1, (Store.mem_ofTask.mp hd).2, rfl⟩
    refine (hp.edits hedits hmakes fun _ h => h.elim).add ?_ rfl rfl
    intro hmem
    have hused := edits_enqueued hedits (fun _ h => h.elim) hmem
    simp only [Instr.isFresh, decide_eq_true_eq] at hfresh
    exact hfresh hused
  | _ => exact absurd (fun _ => id) hadds

/-- The hand-overs an instruction stands for that have not been made yet. -/
def Instr.sends (id : String) : Instr → ℕ
  | .spawn item | .send item => if item.id = id then 1 else 0
  | _ => 0

lemma sends_new (h : Follows a q i j) (htake : ∀ next, i ≠ .take next)
    (hspawn : ∀ item, i ≠ .spawn item) : j.sends id = 0 := by
  cases h with
  | taken => exact absurd rfl (htake _)
  | spawn => exact absurd rfl (hspawn _)
  | accepted hj => rcases hj with rfl | rfl | rfl <;> rfl
  | failed hj => rcases hj with rfl | rfl <;> rfl
  | lost _ hj => rcases hj with rfl | rfl <;> rfl
  | _ => rfl

lemma edits_counts (id : String) {Adds : Delivery → Prop} (hedits : Relation.ReflTransGen (Edit Makes Adds Notes) q q')
    (hnotes : ∀ e, Notes e → ∀ k n, e ≠ .called k n) :
    calls id q'.log = calls id q.log ∧ times id .send q.log ≤ times id .send q'.log := by
  induction hedits with
  | refl => exact ⟨rfl, le_rfl⟩
  | tail _ hedit ih =>
    rw [← ih.1]
    cases hedit with
    | put =>
      refine ⟨List.countP_cons_of_neg (by simp), ih.2.trans ?_⟩
      exact (times_stepped).ge.trans' (Nat.le_add_right _ _)
    | add =>
      exact ⟨List.countP_cons_of_neg (by simp), ih.2.trans (List.countP_cons_of_neg (by simp)).ge⟩
    | @note e hn =>
      refine ⟨List.countP_cons_of_neg ?_, ih.2.trans ?_⟩
      · cases e with
        | called k n => exact absurd rfl (hnotes _ hn k n)
        | _ => simp
      · exact (List.sublist_cons_self e _).countP_le
    | marks _ hlog => rw [hlog]; exact ⟨rfl, ih.2⟩

/-- An instruction makes no more calls than it stands for, and stands for no more than it sends. -/
lemma exec_balance (id : String) : calls id (exec a q i).state.log +
    ((exec a q i).next.map (Instr.sends id)).sum +
    ((exec a q i).spawned.map fun t => (t.map (Instr.sends id)).sum).sum + times id .send q.log ≤
      calls id q.log + i.sends id + times id .send (exec a q i).state.log := by
  by_cases htake : ∃ next, i = .take next
  · obtain ⟨next, rfl⟩ := htake
    simp only [exec]
    cases hc : q.change next.id .send a.now with
    | none => simp [nothing, Instr.sends]
    | some r =>
      obtain ⟨item, q'⟩ := r
      obtain ⟨d, -, hstep, rfl⟩ := change_some hc
      have hid := (step_same hstep).1
      have hcalls : calls id (q.put d .send item).log = calls id q.log :=
        List.countP_cons_of_neg (by simp)
      have htimes : times id .send (q.put d .send item).log =
          times id .send q.log + if d.id = id then 1 else 0 := by
        show times id .send (.stepped d.id d.attempts .send :: q.log) = _
        rw [times_stepped]
        simp
      simp only [goOn, List.map_cons, List.map_nil, List.sum_cons, List.sum_nil, Instr.sends, hcalls,
        htimes, hid]
      omega
  by_cases hspawn : ∃ item, i = .spawn item
  · obtain ⟨item, rfl⟩ := hspawn
    simp [exec, Instr.sends]
  push Not at htake hspawn
  have hnext : ((exec a q i).next.map (Instr.sends id)).sum = 0 := by
    refine List.sum_eq_zero fun x hx => ?_
    obtain ⟨j, hj, rfl⟩ := List.mem_map.mp hx
    exact sends_new (exec_follows (.inl hj)) htake hspawn
  have hspawned : ((exec a q i).spawned.map fun t => (t.map (Instr.sends id)).sum).sum = 0 := by
    refine List.sum_eq_zero fun x hx => ?_
    obtain ⟨t, ht, rfl⟩ := List.mem_map.mp hx
    refine List.sum_eq_zero fun y hy => ?_
    obtain ⟨j, hj, rfl⟩ := List.mem_map.mp hy
    exact sends_new (exec_follows (.inr ⟨t, ht, hj⟩)) htake hspawn
  rw [hnext, hspawned]
  by_cases hsend : ∃ item, i = .send item
  · obtain ⟨item, rfl⟩ := hsend
    have hcalls : calls id (exec a q (.send item)).state.log =
        calls id q.log + if item.id = id then 1 else 0 := by
      show calls id (.called item.id item.attempts :: q.log) = _
      unfold calls
      rw [List.countP_cons]
      simp
    have htimes : times id .send (exec a q (.send item)).state.log = times id .send q.log :=
      List.countP_cons_of_neg (by simp)
    rw [hcalls, htimes]
    simp only [Instr.sends]
    omega
  · push Not at hsend
    have hcounts := edits_counts id (exec_edits a q i) fun e hn k n he => by
      subst he
      cases i with
      | send item => exact hsend item rfl
      | act | applyAction =>
        obtain ⟨_, h⟩ := hn
        cases h
      | receipt | turnStarted | await => cases hn
      | _ => exact hn
    rw [hcounts.1]
    have := hcounts.2
    omega

lemma Permitted.reopened (h : Permitted q) (now : ℕ) : Permitted (q.reopened now) := by
  refine ⟨fun k d hk => h.items k d (get_opened hk), h.unused, fun k => ?_,
    fun k d hk => h.failed k d (get_opened hk), fun k d hk => h.again k d (get_opened hk)⟩
  have hb := h.bound k
  show times k .send q.log + (((q.store.opened now).get k).map owed).getD 0 ≤ _
  cases hk : (q.store.opened now).get k with
  | none => exact (Nat.le_add_right _ _).trans hb
  | some d => rwa [get_opened hk] at hb

lemma warranted_of_restart (h : RestartMakes d event) : Warranted log d event := by
  rcases h with ⟨-, rfl⟩ | ⟨-, -, rfl⟩ <;> exact ⟨nofun, nofun, nofun⟩

/-- What a calm run keeps. -/
structure Counted (S : System) : Prop where
  attempt : InAttempt S
  permitted : Permitted S.state
  balance : ∀ id, calls id S.state.log + S.weigh (Instr.sends id) ≤ times id .send S.state.log

lemma counted_boot : Counted .boot where
  attempt := inAttempt_boot
  permitted := by
    refine ⟨fun _ _ h => ?_, fun _ _ => rfl, fun _ => ?_, fun _ _ h => ?_, fun _ _ h => ?_⟩
    · cases h
    · exact Nat.zero_le _
    · cases h
    · cases h
  balance _ := Nat.zero_le _

lemma settledFirst_of_calm (h : calm S a i = true) : settledFirst S a i = true := by
  cases i with
  | take next => exact h
  | _ => rfl

lemma Counted.step (h : Counted S) (hstep : System.Step calm S S') : Counted S' := by
  cases hstep with
  | @begins i hcall =>
    refine ⟨h.attempt.begins hcall, h.permitted, fun id => ?_⟩
    have hzero : i.sends id = 0 := by cases i <;> first | rfl | cases hcall
    rw [Threads.weigh_begin, List.map_singleton, List.sum_singleton, hzero, add_zero]
    exact h.balance id
  | @takes _ a i hfresh hcond htakes =>
    refine ⟨h.attempt.takes hfresh (settledFirst_of_calm hcond) htakes, ?_, fun id => ?_⟩
    · rw [htakes.state]
      exact h.permitted.exec h.attempt htakes.pending_self hfresh hcond
    · have hweigh := htakes.weigh (Instr.sends id)
      have hexec := exec_balance (a := a) (q := S.state) (i := i) id
      have hb := h.balance id
      rw [htakes.state]
      omega
  | restarts now =>
    have hedits := restart_edits S.state now
    refine ⟨h.attempt.restarts now, (h.permitted.reopened now).edits hedits
      (fun _ _ => warranted_of_restart) (fun _ h => h.elim), fun id => ?_⟩
    have hcounts := edits_counts id hedits fun _ h => h.elim
    have hb := h.balance id
    have hlog : (S.state.reopened now).log = S.state.log := rfl
    rw [hlog] at hcounts
    show calls id (S.state.restart now).log + 0 ≤ times id .send (S.state.restart now).log
    omega

/-- In every run without a stop of what is out, and with results and rejections in their own
attempt: a message is handed over once, once more for each time the user sends it again and once
more for each retry; and one that waits to go out again has been sent again by the user, or its
last hand-over has definitely failed. -/
theorem handed_over_once_per_permission
    (hrun : Relation.ReflTransGen (System.Step calm) .boot S) :
    (∀ id, calls id S.state.log ≤
      1 + times id .resend S.state.log + times id .retry S.state.log) ∧
    ∀ id d, S.state.store.get id = some d → d.state = .waiting → 0 < d.attempts →
      MayGoAgain id d.attempts S.state.log := by
  have h : Counted S := by
    induction hrun with
    | refl => exact counted_boot
    | tail _ hstep ih => exact ih.step hstep
  refine ⟨fun id => ?_, fun id d hget hs => h.permitted.again id d hget (.inl hs)⟩
  calc calls id S.state.log ≤ calls id S.state.log + S.weigh (Instr.sends id) := Nat.le_add_right _ _
    _ ≤ times id .send S.state.log := h.balance id
    _ ≤ times id .send S.state.log + ((S.state.store.get id).map owed).getD 0 := Nat.le_add_right _ _
    _ ≤ 1 + times id .resend S.state.log + times id .retry S.state.log := h.permitted.bound id

end

/-- The first hand-over times out and the user sends the item again. -/
def sentAgain : System := System.boot.follow (handOver ++ List.replicate 3 (.turn 3 quiet) ++
  List.replicate 2 (.turn 2 quiet) ++ [.begins (.act "a" .resend)] ++
  List.replicate 8 (.turn 4 quiet) ++ [.turn 6 quiet])

set_option maxRecDepth 8000 in
/-- Two calls, and the user's leave for the second. -/
theorem sentAgain_once_per_permission : calls "a" sentAgain.state.log = 2 ∧
    calls "a" sentAgain.state.log ≤
      1 + times "a" .resend sentAgain.state.log + times "a" .retry sentAgain.state.log :=
  ⟨by decide, (handed_over_once_per_permission (follow_steps (by decide))).1 "a"⟩

/-- A stop while the item is out, and then a resume. -/
def resumed : System := System.boot.follow (handOver ++ List.replicate 3 (.turn 3 quiet) ++
  [.begins (.pause "t"), .turn 4 quiet, .begins (.act "a" .resume)] ++
  List.replicate 8 (.turn 5 quiet) ++ [.turn 7 quiet])

set_option maxRecDepth 8000 in
/-- The hand-over has returned `Ok`, and the item is handed over a second time without anyone having
asked for it to be sent again. -/
theorem resumed_sends_twice :
    Relation.ReflTransGen (System.Step anyOrder) .boot resumed ∧
    .returned "a" 1 (.ok true) ∈ resumed.state.log ∧ calls "a" resumed.state.log = 2 ∧
    times "a" .resend resumed.state.log = 0 ∧ times "a" .retry resumed.state.log = 0 :=
  ⟨follow_steps (by decide), by decide, by decide, by decide, by decide⟩

end Aeroric.Deliveries
