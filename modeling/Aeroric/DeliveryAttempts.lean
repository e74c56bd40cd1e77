import Aeroric.DeliveryQueue

/-! Whose result is it: what a hand-over comes to is written to the item by its id alone, so it is
the item's own as long as the item has not been handed over again. -/
namespace Aeroric.Deliveries

open Threads (Pending Takes)

/-- The item for whose hand-over an instruction settles something, or will. -/
def Instr.about : Instr → Option Delivery
  | .spawn item | .send item | .await item | .letGo item _ | .settle item _ | .withoutReceipt item
  | .outcome item _ | .lose item _ => some item
  | _ => none

def System.unsettled (S : System) (id : String) : Bool :=
  S.todo.any (·.any fun i => i.about.any (·.id = id))

/-- An item is handed over again only when its earlier hand-overs are settled. -/
def settledFirst (S : System) (_ : Answer) : Instr → Bool
  | .take next => !S.unsettled next.id
  | _ => true

section
variable {S S' : System} {a : Answer} {q : Queue} {i j : Instr} {item : Delivery}

lemma unsettled_of_pending (h : S.Pending i) (hi : i.about = some item) :
    S.unsettled item.id = true := by
  obtain ⟨t, ht, hit⟩ := h
  refine List.any_eq_true.mpr ⟨t, ht, List.any_eq_true.mpr ⟨i, hit, ?_⟩⟩
  simp [hi]

/-- An instruction goes on with its own hand-over, or with one the store has just now. -/
lemma about_new (h : Follows a q i j) (hitem : j.about = some item) : i.about = some item ∨
    ∃ d, (exec a q i).state.store.get item.id = some d ∧ d.attempts = item.attempts := by
  cases h with
  | @failedLose taskId d hget =>
    obtain rfl := Option.some.inj hitem
    exact .inr ⟨d, hget, rfl⟩
  | @late k d hget hatt =>
    obtain rfl := Option.some.inj hitem
    exact .inr ⟨d, hget, hatt⟩
  | @taken next k q' _ hchange hj =>
    obtain ⟨d, hget, hstep, rfl⟩ := change_some hchange
    have hk : k = item := by
      rcases hj with rfl | rfl | rfl
      · cases hitem
      · cases hitem
      · exact Option.some.inj hitem
    subst hk
    refine .inr ⟨k, ?_, rfl⟩
    simp only [exec, hchange, goOn]
    rw [get_put hstep, if_pos (step_same hstep).1]
  | accepted hj =>
    rcases hj with rfl | rfl | rfl
    · exact .inl hitem
    · exact .inl hitem
    · cases hitem
  | failed hj =>
    rcases hj with rfl | rfl
    · exact .inl hitem
    · cases hitem
  | lost _ hj => rcases hj with rfl | rfl <;> cases hitem
  | spawn | send | await | letGo | died => exact .inl hitem
  | _ => cases hitem

def Instr.Known (log : List Entry) : Instr → Prop
  | .letGo item result | .settle item result => .returned item.id item.attempts result ∈ log
  | .outcome item event =>
    (event = .receipt .accepted none ∧ .returned item.id item.attempts (.ok false) ∈ log) ∨
      ∃ reason, event = .sendFailed reason (userFixable reason) ∧
        .returned item.id item.attempts (.err reason) ∈ log
  | .record _ event => event = .unreadable ∨ ∃ found, event = .recorded found
  | _ => True

lemma Instr.Known.mono {log log' : List Entry} (h : i.Known log) (hsub : ∀ e ∈ log, e ∈ log') :
    i.Known log' := by
  cases i with
  | letGo | settle => exact hsub _ h
  | outcome =>
    rcases h with ⟨he, h⟩ | ⟨reason, he, h⟩
    · exact .inl ⟨he, hsub _ h⟩
    · exact .inr ⟨reason, he, hsub _ h⟩
  | record => exact h
  | _ => trivial

lemma known_new (hi : i.Known q.log) (h : Follows a q i j) : j.Known (exec a q i).state.log := by
  cases h with
  | await => exact List.mem_cons_self
  | letGo => exact hi
  | accepted hj =>
    rcases hj with rfl | rfl | rfl
    · trivial
    · exact .inl ⟨rfl, hi⟩
    · trivial
  | failed hj =>
    rcases hj with rfl | rfl
    · exact .inr ⟨_, rfl, hi⟩
    · trivial
  | taken _ hj => rcases hj with rfl | rfl | rfl <;> trivial
  | lost _ hj => rcases hj with rfl | rfl <;> trivial
  | @found _ b _ => exact .inr ⟨b, rfl⟩
  | unread => exact .inl rfl
  | _ => trivial

lemma take_of_makes_send {log : List Entry} {d : Delivery} (hi : i.Known log)
    (h : i.Makes d .send) : ∃ next, i = .take next ∧ d.id = next.id := by
  cases i with
  | take next => exact ⟨next, rfl, h.1⟩
  | applyAction id action => cases action <;> cases h.2
  | outcome k event =>
    obtain ⟨-, rfl⟩ := h
    rcases hi with ⟨he, -⟩ | ⟨reason, he, -⟩ <;> cases he
  | record id event =>
    obtain ⟨-, rfl⟩ := h
    rcases hi with he | ⟨found, he⟩ <;> cases he
  | enqueue | pause | receipt | started | lose => cases h.2
  | _ => exact h.elim

section Edit
variable {Makes : Delivery → Event → Prop} {Adds : Delivery → Prop} {Notes : Entry → Prop}
  {q' : Queue}

lemma edits_log_mono (h : Relation.ReflTransGen (Edit Makes Adds Notes) q q') {e : Entry}
    (he : e ∈ q.log) : e ∈ q'.log := (edits_log_suffix h).subset he

lemma edits_items (h : Relation.ReflTransGen (Edit Makes Adds Notes) q q')
    (hq : ∀ id d, q.store.get id = some d → .enqueued id ∈ q.log) :
    ∀ id d, q'.store.get id = some d → .enqueued id ∈ q'.log := by
  induction h with
  | refl => exact hq
  | tail _ hstep ih =>
    intro id d hget
    cases hstep with
    | put hget' _ hstep =>
      rw [get_put hstep] at hget
      split at hget
      · next hid => exact List.mem_cons_of_mem _ (hid ▸ ih _ _ hget')
      · exact List.mem_cons_of_mem _ (ih _ _ hget)
    | add =>
      rw [Store.get_save] at hget
      split at hget
      · next hid => exact hid ▸ List.mem_cons_self
      · exact List.mem_cons_of_mem _ (ih _ _ hget)
    | note => exact List.mem_cons_of_mem _ (ih _ _ hget)
    | marks hstore hlog =>
      rw [hlog]
      exact ih id d (hstore ▸ hget)

lemma items_attempts {d d' : Delivery} (h : Relation.ReflTransGen (ItemStep Makes) d d')
    (hsend : ∀ d1 : Delivery, d1.id = d.id → ¬ Makes d1 .send) : d'.attempts = d.attempts := by
  induction h with
  | refl => rfl
  | tail hsteps hstep ih =>
    obtain ⟨event, now, hmakes, hstep⟩ := hstep
    have hne : event ≠ .send := fun he => hsend _ (items_same hsteps).1 (he ▸ hmakes)
    rw [step_attempts hstep, if_neg hne, ih]

end Edit

lemma adds_ne {k : String} {d : Delivery} (hfresh : i.isFresh q = true) (hused : .enqueued k ∈ q.log)
    (hadd : i.Adds d) : d.id ≠ k := by
  rintro rfl
  cases i with
  | enqueue =>
    obtain ⟨created, now, rfl⟩ := hadd
    simp only [Instr.isFresh, decide_eq_true_eq] at hfresh
    exact hfresh hused
  | _ => exact hadd.elim

lemma exec_item {k : String} {d : Delivery} (hfresh : i.isFresh q = true)
    (hused : .enqueued k ∈ q.log) (hget : q.store.get k = some d) :
    ∃ d', (exec a q i).state.store.get k = some d' ∧ ItemSteps i d d' := by
  obtain ⟨d', hget', hsteps⟩ :=
    (edits_item (exec_edits a q i) fun _ => adds_ne hfresh hused).2 d hget
  refine ⟨d', hget', Relation.ReflTransGen.mono (fun _ _ hstep => ?_) _ _ hsteps⟩
  obtain ⟨event, now, hmakes, hstep⟩ := hstep
  exact ⟨event, now, hmakes.2, hstep⟩

lemma item_of_exec {k : String} {d' : Delivery} (hfresh : i.isFresh q = true)
    (hitems : ∀ id d, q.store.get id = some d → .enqueued id ∈ q.log)
    (hget' : (exec a q i).state.store.get k = some d') :
    (∃ d, q.store.get k = some d ∧ ItemSteps i d d') ∨ i.Adds d' := by
  cases hget : q.store.get k with
  | some d =>
    obtain ⟨d1, hget1, hsteps⟩ := exec_item hfresh (hitems k d hget) hget
    obtain rfl := Option.some.inj (hget1.symm.trans hget')
    exact .inl ⟨d, rfl, hsteps⟩
  | none =>
    by_cases hadds : ∃ d, i.Adds d ∧ d.id = k
    · obtain ⟨d, hadd, rfl⟩ := hadds
      cases i with
      | enqueue =>
        obtain ⟨created, now, rfl⟩ := hadd
        simp only [exec, goOn, Queue.enqueue, Store.get_save, newItem, if_true,
          Option.some.injEq] at hget'
        exact .inr ⟨_, _, hget'.symm⟩
      | _ => exact hadd.elim
    · have hnone := (edits_item (exec_edits a q i) fun d hd hid => hadds ⟨d, hd, hid⟩).1 hget
      cases hnone.symm.trans hget'

lemma not_pending_restarted {now : ℕ} : ¬ Pending (⟨S.state.restart now, []⟩ : System) j := by
  rintro ⟨t, ht, -⟩
  cases ht

/-- What holds in every run: where results come from, and that every item was enqueued. -/
structure Informed (S : System) : Prop where
  told : ∀ i, S.Pending i → i.Known S.state.log
  items : ∀ id d, S.state.store.get id = some d → .enqueued id ∈ S.state.log

lemma informed_boot : Informed .boot where
  told _ h := by obtain ⟨t, ht, -⟩ := h; cases ht
  items _ _ h := by cases h

lemma Informed.begins (h : Informed S) (hcall : i.isCall = true) : Informed (S.begin [i]) := by
  refine ⟨fun j hj => ?_, h.items⟩
  rcases Threads.pending_begin.mp hj with hj | hj
  · exact h.told j hj
  · rw [List.mem_singleton.mp hj]
    cases i <;> trivial

lemma Informed.takes (h : Informed S) (htakes : Takes exec a i S S') : Informed S' := by
  have hedits := exec_edits a S.state i
  rw [← htakes.state] at hedits
  refine ⟨fun j hj => ?_, edits_items hedits h.items⟩
  rcases htakes.pending hj with hj | hj
  · exact (h.told j hj).mono fun e => edits_log_mono hedits
  · rw [htakes.state]
    exact known_new (h.told i htakes.pending_self) (exec_follows hj)

lemma Informed.restarts (h : Informed S) (now : ℕ) : Informed ⟨S.state.restart now, []⟩ :=
  ⟨fun _ hj => absurd hj not_pending_restarted, edits_items (restart_edits S.state now)
    fun id d hget => h.items id d (get_opened hget)⟩

variable {Cond : System → Answer → Instr → Bool}

lemma Informed.step (h : Informed S) (hstep : System.Step Cond S S') : Informed S' := by
  cases hstep with
  | begins hcall => exact h.begins hcall
  | takes _ _ htakes => exact h.takes htakes
  | restarts now => exact h.restarts now

lemma Informed.run (hrun : Relation.ReflTransGen (System.Step Cond) .boot S) : Informed S := by
  induction hrun with
  | refl => exact informed_boot
  | tail _ hstep ih => exact ih.step hstep

/-- Where the hand-overs stand that are not settled: their items are known, and those still in the
store are in the same attempt. -/
structure InAttempt (S : System) : Prop where
  told : ∀ i, S.Pending i → i.Known S.state.log
  items : ∀ id d, S.state.store.get id = some d → .enqueued id ∈ S.state.log
  known : ∀ i item, S.Pending i → i.about = some item → .enqueued item.id ∈ S.state.log
  same : ∀ i item, S.Pending i → i.about = some item →
    ∀ d, S.state.store.get item.id = some d → d.attempts = item.attempts

lemma inAttempt_boot : InAttempt .boot where
  told := informed_boot.told
  items := informed_boot.items
  known _ _ h := by obtain ⟨t, ht, -⟩ := h; cases ht
  same _ _ h := by obtain ⟨t, ht, -⟩ := h; cases ht

lemma InAttempt.begins (h : InAttempt S) (hcall : i.isCall = true) : InAttempt (S.begin [i]) := by
  obtain ⟨told, items⟩ := Informed.begins ⟨h.told, h.items⟩ hcall
  have old : ∀ j item, (S.begin [i]).Pending j → j.about = some item → S.Pending j := by
    intro j item hj hitem
    rcases Threads.pending_begin.mp hj with hj | hj
    · exact hj
    · rw [List.mem_singleton.mp hj] at hitem
      cases i <;> first | (cases hitem; done) | cases hcall
  exact ⟨told, items, fun j item hj hi => h.known j item (old j item hj hi) hi,
    fun j item hj hi => h.same j item (old j item hj hi) hi⟩

lemma InAttempt.takes (h : InAttempt S) (hfresh : i.isFresh S.state = true)
    (hcond : settledFirst S a i = true) (htakes : Takes exec a i S S') : InAttempt S' := by
  obtain ⟨told, items⟩ := Informed.takes ⟨h.told, h.items⟩ htakes
  have hlog : ∀ e ∈ S.state.log, e ∈ S'.state.log := by
    rw [htakes.state]
    exact fun e => edits_log_mono (exec_edits a S.state i)
  have hi := h.told i htakes.pending_self
  -- what is left to settle was left before, or the store has it as it is
  have source : ∀ j item, S'.Pending j → j.about = some item →
      (∃ k, S.Pending k ∧ k.about = some item) ∨
        ∃ d, S'.state.store.get item.id = some d ∧ d.attempts = item.attempts := by
    intro j item hj hitem
    rcases htakes.pending hj with hj | hj
    · exact .inl ⟨j, hj, hitem⟩
    · rcases about_new (exec_follows hj) hitem with hi | hd
      · exact .inl ⟨i, htakes.pending_self, hi⟩
      · rw [htakes.state]
        exact .inr hd
  refine ⟨told, items, fun j item hj hitem => ?_, fun j item hj hitem d hget => ?_⟩
  · rcases source j item hj hitem with ⟨k, hk, hkitem⟩ | ⟨d, hd, -⟩
    · exact hlog _ (h.known k item hk hkitem)
    · exact items _ d hd
  · rcases source j item hj hitem with ⟨k, hk, hkitem⟩ | ⟨d1, hd1, hatt⟩
    · have hunsettled := unsettled_of_pending hk hkitem
      have hsend : ∀ d : Delivery, d.id = item.id → ¬ i.Makes d .send := by
        intro d hid hmakes
        obtain ⟨next, rfl, hnext⟩ := take_of_makes_send hi hmakes
        simp [settledFirst, ← hnext, hid, hunsettled] at hcond
      rw [htakes.state] at hget
      rcases item_of_exec hfresh h.items hget with ⟨d0, hd0, hsteps⟩ | hadd
      · have hid0 := Store.get_id hd0
        rw [items_attempts hsteps fun d1 hid => hsend d1 (hid.trans hid0)]
        exact h.same k item hk hkitem d0 hd0
      · exact absurd (Store.get_id hget) (adds_ne hfresh (h.known k item hk hkitem) hadd)
    · obtain rfl := Option.some.inj (hd1.symm.trans hget)
      exact hatt

lemma InAttempt.restarts (h : InAttempt S) (now : ℕ) :
    InAttempt ⟨S.state.restart now, []⟩ := by
  obtain ⟨told, items⟩ := Informed.restarts ⟨h.told, h.items⟩ now
  exact ⟨told, items, fun _ _ hj => absurd hj not_pending_restarted,
    fun _ _ hj => absurd hj not_pending_restarted⟩

/-- The steps in which an item goes out again only when it is settled keep results where they
belong. -/
lemma InAttempt.run (hCond : ∀ S a i, Cond S a i = true → settledFirst S a i = true)
    (hrun : Relation.ReflTransGen (System.Step Cond) .boot S) : InAttempt S := by
  induction hrun with
  | refl => exact inAttempt_boot
  | tail _ hstep ih =>
    cases hstep with
    | begins hcall => exact ih.begins hcall
    | takes hfresh hcond htakes => exact ih.takes hfresh (hCond _ _ _ hcond) htakes
    | restarts now => exact ih.restarts now

/-- An instruction that writes to the item what came of a hand-over of it. -/
def Instr.Settles (item : Delivery) (i : Instr) : Prop :=
  (∃ event, i = .outcome item event) ∨ ∃ reason, i = .lose item reason

/-- In every run in which an item is handed over again only when its earlier hand-overs are settled,
what came of a hand-over changes the item only in the attempt it was made in. -/
theorem results_stay_in_their_attempt
    (hrun : Relation.ReflTransGen (System.Step settledFirst) .boot S) (hpending : S.Pending i)
    (hi : i.Settles item)
    (hchanged : (exec a S.state i).state.store.get item.id ≠ S.state.store.get item.id) :
    ∃ d, S.state.store.get item.id = some d ∧ d.attempts = item.attempts := by
  have h := InAttempt.run (fun _ _ _ h => h) hrun
  have habout : i.about = some item := by
    rcases hi with ⟨event, rfl⟩ | ⟨reason, rfl⟩ <;> rfl
  cases hget : S.state.store.get item.id with
  | some d => exact ⟨d, rfl, h.same i item hpending habout d hget⟩
  | none =>
    refine absurd ?_ hchanged
    rcases hi with ⟨event, rfl⟩ | ⟨reason, rfl⟩
    · simp [exec, nothing, Queue.changed, Queue.change, hget]
    · simp [exec, nothing, Queue.change, hget]

end

/-- An idle session, a record that cannot be read, and a driver that gives receipts. -/
def quiet : Answer := ⟨1, true, none, .ok true⟩

def refused : Answer := { quiet with result := .err "x" }

/-- A message is queued and handed over: thread 2 is its timeout, thread 3 its hand-over. -/
def handOver : List Move :=
  [.begins .setHost, .turn 0 quiet, .turn 0 quiet, .turn 0 quiet,
    .begins (.enqueue "a" "t" .delegation .afterTurn "l" "x" none)] ++
    List.replicate 7 (.turn 1 quiet) ++ [.turn 3 quiet]

def handedOver : Delivery :=
  { newItem "a" "t" .delegation .afterTurn "l" "x" none 1 1 with state := .sending, attempts := 1 }

/-- The hand-over fails and its thread is about to say so. -/
def failing : System := System.boot.follow (handOver ++ List.replicate 3 (.turn 3 refused))

set_option maxRecDepth 8000 in
/-- A hand-over that fails marks its own attempt. -/
theorem failing_in_attempt :
    (exec quiet failing.state (.outcome handedOver (.sendFailed "x" (userFixable "x")))).state.store.get
      "a" ≠ failing.state.store.get "a" ∧
    ∃ d, failing.state.store.get "a" = some d ∧ d.attempts = 1 := by
  have hchanged : (exec quiet failing.state
      (.outcome handedOver (.sendFailed "x" (userFixable "x")))).state.store.get "a" ≠
        failing.state.store.get "a" := by
    intro h
    cases congrArg (Option.map Delivery.state) h
  exact ⟨hchanged, results_stay_in_their_attempt (follow_steps (by decide))
    (Threads.pending_of_head (n := 3) rfl) (.inl ⟨_, rfl⟩) hchanged⟩

/-- The first hand-over times out and the user sends the item again; then the first one fails. -/
def failedLate : System := System.boot.follow (handOver ++ List.replicate 2 (.turn 2 quiet) ++
  [.begins (.act "a" .resend)] ++ List.replicate 5 (.turn 4 quiet) ++
  List.replicate 3 (.turn 3 refused))

set_option maxRecDepth 8000 in
/-- The late failure of the first attempt marks the second, which is under way. -/
theorem failedLate_marks_second :
    Relation.ReflTransGen (System.Step anyOrder) .boot failedLate ∧
    failedLate.Pending (.outcome handedOver (.sendFailed "x" (userFixable "x"))) ∧
    (failedLate.state.store.get "a").map (fun d => (d.attempts, d.state)) = some (2, .sending) ∧
    ((exec quiet failedLate.state (.outcome handedOver (.sendFailed "x"
      (userFixable "x")))).state.store.get "a").map (fun d => (d.attempts, d.state)) =
        some (2, .failed) :=
  ⟨follow_steps (by decide), Threads.pending_of_head (n := 3) rfl, by decide, by decide⟩

end Aeroric.Deliveries
