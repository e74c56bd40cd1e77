import Aeroric.DeliveryProgress
import Aeroric.TaskStorage

/-! What stands behind a message that is shown as delivered: a receipt, a turn that started, or the
agent's own record, which is searched for the start of the message. -/
namespace Aeroric.Deliveries

open Threads (Pending Takes)

/-- A message in the agent's record. -/
structure Message where
  role : String
  body : String
  deriving DecidableEq

def probe (text : String) : List Char := (Sse.trim text.toList).take 120

/-- Whether one of the user-side messages holds the start of the text. -/
def recordedIn (messages : List Message) (text : String) : Bool :=
  !(probe text).isEmpty &&
    messages.any fun m => m.role = "user" && decide (probe text <:+: m.body.toList)

def wasHandedOver (id : String) (log : List Entry) : Bool :=
  log.any fun
    | .stepped k _ .send => k = id
    | _ => false

/-- The queue and the agents' records, with the records as they were when each item was first
handed over. -/
structure Journal where
  system : System
  record : String → List Message
  held : String → String → List Message

namespace Journal

def boot (record : String → List Message) : Journal := ⟨.boot, record, fun _ => record⟩

/-- A driver gives receipts for what was handed over, and the host answers from the record: not at
all where it cannot be read or is empty. -/
def answers (J : Journal) (a : Answer) : Instr → Bool
  | .receipt _ id .. => wasHandedOver id J.system.state.log
  | .look item => a.recorded = none || (!(J.record item.taskId).isEmpty &&
    a.recorded = some (recordedIn (J.record item.taskId) item.text))
  | _ => true

/-- Until its first hand-over an item has no record held. -/
def hold (J : Journal) (id : String) : String → List Message :=
  if wasHandedOver id J.system.state.log then J.held id else J.record

inductive Step : Journal → Journal → Prop
  /-- The agents write their records. -/
  | grows (J : Journal) (more : String → List Message) :
      Step J ⟨J.system, fun taskId => J.record taskId ++ more taskId, J.held⟩
  | begins (J : Journal) {i : Instr} (h : i.isCall = true) :
      Step J ⟨J.system.begin [i], J.record, J.held⟩
  | takes {J : Journal} {S : System} {a : Answer} {i : Instr}
      (hfresh : i.isFresh J.system.state = true) (hanswers : J.answers a i = true)
      (h : Takes exec a i J.system S) : Step J ⟨S, J.record, J.hold⟩
  | restarts (J : Journal) (now : ℕ) :
      Step J ⟨⟨J.system.state.restart now, []⟩, J.record, J.hold⟩

end Journal

/-- One entry came after another. -/
def After (log : List Entry) (first second : Entry) : Prop :=
  ∃ later earlier, log = later ++ second :: earlier ∧ first ∈ earlier

/-- A turn of the session started after a driver without receipts had taken the item. -/
def TurnAfter (log : List Entry) (id taskId : String) : Prop :=
  ∃ attempt, After log (.returned id attempt (.ok false)) (.turnStarted taskId)

/-- The driver reported the item delivered after it was handed over. -/
def Reported (log : List Entry) (id : String) : Prop :=
  ∃ attempts attempt, After log (.stepped id attempts .send) (.heard id attempt .delivered)

/-- An item that has gone out at least once. -/
def isGone (d : Delivery) : Bool := isOut d || d.state = .unknown || d.state = .delivered

section
variable {S S' : System} {J J' : Journal} {a : Answer} {q q' : Queue} {i j : Instr}
  {item d d' : Delivery} {now : ℕ} {event : Event} {log log' : List Entry} {taskId k id : String}

lemma After.mono {first second : Entry} (h : After log first second) (hlog : log <:+ log') :
    After log' first second := by
  obtain ⟨later, earlier, rfl, hmem⟩ := h
  obtain ⟨new, rfl⟩ := hlog
  exact ⟨new ++ later, earlier, (List.append_assoc ..).symm, hmem⟩

lemma wasHandedOver_iff : wasHandedOver id log = true ↔ ∃ attempts, .stepped id attempts .send ∈ log := by
  unfold wasHandedOver
  rw [List.any_eq_true]
  constructor
  · rintro ⟨e, he, h⟩
    split at h
    · next k n =>
      obtain rfl := of_decide_eq_true h
      exact ⟨n, he⟩
    · cases h
  · rintro ⟨n, h⟩
    exact ⟨_, h, decide_eq_true rfl⟩

lemma wasHandedOver_mono (h : wasHandedOver id log = true) (hlog : log <:+ log') :
    wasHandedOver id log' = true := by
  obtain ⟨n, hn⟩ := wasHandedOver_iff.mp h
  exact wasHandedOver_iff.mpr ⟨n, hlog.subset hn⟩

lemma recordedIn_append {more messages : List Message} {text : String} :
    recordedIn (messages ++ more) text = (recordedIn messages text || recordedIn more text) := by
  unfold recordedIn
  rw [List.any_append, Bool.and_or_distrib_left]

lemma settled_kept {Makes : Delivery → Event → Prop}
    (h : Relation.ReflTransGen (ItemStep Makes) d d')
    (hs : d.state = .delivered ∨ d.state = .withdrawn) : d' = d := by
  rcases h.cases_head with rfl | ⟨d1, ⟨event, now, -, hstep⟩, -⟩
  · rfl
  · have hmoves := step_moves hstep
    rcases hs with hs | hs
    all_goals
      rw [hs] at hmoves
      generalize d1.state = s at hmoves
      cases hmoves <;> simp_all

lemma gone_of_moves {s s' : DeliveryState} (h : Moves s event s')
    (hs' : s' = .sending ∨ s' = .accepted ∨ s' = .unknown ∨ s' = .delivered) :
    (s = .sending ∨ s = .accepted ∨ s = .unknown) ∨ event = .send ∨
      ∃ outcome reason, event = .receipt outcome reason := by
  cases h with
  | lost hs => exact .inl (hs.imp_right .inl)
  | _ => simp_all

lemma isGone_iff : isGone d = true ↔ d.state = .sending ∨ d.state = .accepted ∨
    d.state = .unknown ∨ d.state = .delivered := by
  simp [isGone, isOut, or_assoc]

lemma gone_new (hstep : step d event now = some d') (hd' : isGone d' = true) :
    isGone d = true ∨ event = .send ∨ ∃ outcome reason, event = .receipt outcome reason := by
  rw [isGone_iff] at hd' ⊢
  rcases gone_of_moves (step_moves hstep) hd' with (h | h | h) | h
  · exact .inl (.inl h)
  · exact .inl (.inr (.inl h))
  · exact .inl (.inr (.inr (.inl h)))
  · exact .inr h

lemma waiting_of_send (h : step d .send now = some d') : d.state = .waiting := by
  have hmoves := step_moves h
  generalize d.state = s, d'.state = s' at hmoves ⊢
  cases hmoves
  rfl

lemma delivered_of_moves {s : DeliveryState} (h : Moves s event .delivered) :
    (∃ reason, event = .receipt .delivered reason) ∨ event = .turnStarted ∨
      event = .recorded true := by
  cases h <;> simp

lemma exec_noReceipt (h : k ∈ (exec a q i).state.noReceipt) :
    k ∈ q.noReceipt ∨ ∃ item, i = .withoutReceipt item ∧ k = item.id := by
  have all : ∀ q : Queue, ∀ event now items, (q.changeAll event now items).noReceipt =
      q.noReceipt := by
    intro q event now items
    obtain ⟨store, log, h⟩ : ∃ store log, q.changeAll event now items =
        { q with store := store, log := log } := changeAll_beside items
    rw [h]
  have one : ∀ q : Queue, ∀ k event now, (q.changed k event now).noReceipt = q.noReceipt := by
    intro q k event now
    obtain ⟨store, log, h⟩ : ∃ store log, q.changed k event now =
        { q with store := store, log := log } := changed_beside
    rw [h]
  cases i with
  | withoutReceipt item =>
    rcases Finset.mem_insert.mp h with h | h
    · exact .inr ⟨item, rfl, h⟩
    · exact .inl h
  | forget id => exact .inl (Finset.mem_of_mem_erase h)
  | enqueue | pause =>
    simp only [exec, goOn, nothing, Queue.enqueue, all] at h
    exact .inl h
  | receipt | started | outcome | record =>
    simp only [exec, goOn, nothing, Queue.note, one] at h
    exact .inl h
  | take | lose | applyAction =>
    simp only [exec] at h
    split at h
    · exact .inl h
    · next hchange =>
      obtain ⟨d, -, -, rfl⟩ := change_some hchange
      exact .inl h
  | act | pump | checkRecord =>
    simp only [exec] at h
    split at h <;> exact .inl h
  | choose =>
    simp only [exec] at h
    split at h
    · exact .inl h
    split at h <;> exact .inl h
  | _ => exact .inl h

/-- What the store, the threads and the records say of the items that went out. -/
structure Attested (J : Journal) : Prop where
  informed : Informed J.system
  handed : ∀ j item, J.system.Pending j → j.handed = some item →
    wasHandedOver item.id J.system.state.log = true
  without : ∀ item, J.system.Pending (.withoutReceipt item) →
    ∃ attempt, .returned item.id attempt (.ok false) ∈ J.system.state.log
  noReceipt : ∀ id ∈ J.system.state.noReceipt,
    ∃ attempt, .returned id attempt (.ok false) ∈ J.system.state.log
  started : ∀ id, J.system.Pending (.started id) → ∃ d, J.system.state.store.get id = some d ∧
    TurnAfter J.system.state.log id d.taskId
  looks : ∀ item, J.system.Pending (.look item) → ∃ d,
    J.system.state.store.get item.id = some d ∧ d.taskId = item.taskId ∧ d.text = item.text
  found : ∀ id, J.system.Pending (.record id (.recorded true)) → ∃ d,
    J.system.state.store.get id = some d ∧ recordedIn (J.record d.taskId) d.text = true
  gone : ∀ id d, J.system.state.store.get id = some d → isGone d = true →
    wasHandedOver id J.system.state.log = true
  held : ∀ id, wasHandedOver id J.system.state.log = true →
    ∀ taskId, J.held id taskId <+: J.record taskId
  proven : ∀ id d, J.system.state.store.get id = some d → d.state = .delivered →
    Reported J.system.state.log id ∨ TurnAfter J.system.state.log id d.taskId ∨
      recordedIn (J.record d.taskId) d.text = true

lemma without_new (h : Follows a q i (.withoutReceipt item)) : i = .settle item (.ok false) := by
  cases h with
  | taken _ hj => rcases hj with hj | hj | hj <;> cases hj
  | accepted hj =>
    rcases hj with hj | hj | hj
    · cases hj
      rfl
    · cases hj
    · cases hj
  | failed hj | lost _ hj => rcases hj with hj | hj <;> cases hj

lemma started_new (h : Follows a q i (.started id)) :
    ∃ d, q.store.get id = some d ∧ i = .turnStarted d.taskId ∧ id ∈ q.noReceipt := by
  cases h with
  | started hget htask _ hn => exact ⟨_, hget, by rw [htask], hn⟩
  | taken _ hj => rcases hj with hj | hj | hj <;> cases hj
  | accepted hj => rcases hj with hj | hj | hj <;> cases hj
  | failed hj | lost _ hj => rcases hj with hj | hj <;> cases hj

lemma look_new (h : Follows a q i (.look item)) :
    q.store.get item.id = some item ∧ i = .read item.id := by
  cases h with
  | read hget =>
    have hid := Store.get_id hget
    exact ⟨hid ▸ hget, by rw [hid]⟩
  | taken _ hj => rcases hj with hj | hj | hj <;> cases hj
  | accepted hj => rcases hj with hj | hj | hj <;> cases hj
  | failed hj | lost _ hj => rcases hj with hj | hj <;> cases hj

lemma found_new (h : Follows a q i (.record id (.recorded true))) :
    ∃ item, i = .look item ∧ id = item.id ∧ a.recorded = some true := by
  cases h with
  | found hb => exact ⟨_, rfl, rfl, hb⟩
  | taken _ hj => rcases hj with hj | hj | hj <;> cases hj
  | accepted hj => rcases hj with hj | hj | hj <;> cases hj
  | failed hj | lost _ hj => rcases hj with hj | hj <;> cases hj

lemma receipt_of_makes {outcome : ReceiptOutcome} {reason : Option String} (hi : i.Known log)
    (h : i.Makes d (.receipt outcome reason)) :
    (∃ taskId attempt, i = .receipt taskId d.id attempt outcome reason) ∨
      outcome = .accepted ∧ ∃ item, i.handed = some item ∧ item.id = d.id := by
  cases i with
  | receipt t k attempt result r =>
    obtain ⟨rfl, he⟩ := h
    cases he
    exact .inl ⟨t, attempt, rfl⟩
  | outcome k e =>
    obtain ⟨hid, rfl⟩ := h
    refine .inr ⟨?_, k, rfl, hid.symm⟩
    rcases hi with ⟨he, -⟩ | ⟨_, he, -⟩ <;> cases he
    rfl
  | record k e =>
    obtain ⟨-, rfl⟩ := h
    rcases hi with he | ⟨_, he⟩ <;> cases he
  | applyAction k action => cases action <;> cases h.2
  | enqueue | pause | started | take | lose => cases h.2
  | _ => exact h.elim

lemma started_of_makes (hi : i.Known log) (h : i.Makes d .turnStarted) : i = .started d.id := by
  cases i with
  | started k => rw [h.1]
  | outcome k e =>
    obtain ⟨-, rfl⟩ := h
    rcases hi with ⟨he, -⟩ | ⟨_, he, -⟩ <;> cases he
  | record k e =>
    obtain ⟨-, rfl⟩ := h
    rcases hi with he | ⟨_, he⟩ <;> cases he
  | applyAction k action => cases action <;> cases h.2
  | enqueue | pause | receipt | take | lose => cases h.2
  | _ => exact h.elim

lemma record_of_makes (hi : i.Known log) (h : i.Makes d (.recorded true)) :
    i = .record d.id (.recorded true) := by
  cases i with
  | record k e =>
    obtain ⟨rfl, rfl⟩ := h
    rfl
  | outcome k e =>
    obtain ⟨-, rfl⟩ := h
    rcases hi with ⟨he, -⟩ | ⟨_, he, -⟩ <;> cases he
  | applyAction k action => cases action <;> cases h.2
  | enqueue | pause | receipt | take | lose | started => cases h.2
  | _ => exact h.elim

lemma take_logs {next : Delivery} {q' : Queue}
    (hchange : q.change next.id .send a.now = some (item, q')) :
    wasHandedOver item.id (exec a q (.take next)).state.log = true := by
  obtain ⟨d, hget, hstep, rfl⟩ := change_some hchange
  rw [wasHandedOver_iff, (step_same hstep).1]
  refine ⟨d.attempts, ?_⟩
  simp only [exec, hchange, goOn]
  exact List.mem_cons_self

lemma restart_noReceipt : (q.restart now).noReceipt = ∅ := by
  have all : ∀ q : Queue, ∀ event items, (q.changeAll event now items).noReceipt =
      q.noReceipt := by
    intro q event items
    obtain ⟨store, log, h⟩ : ∃ store log, q.changeAll event now items =
        { q with store := store, log := log } := changeAll_beside items
    rw [h]
  unfold Queue.restart
  rw [all, all]

lemma proven_mono {proof : Prop} (h : Reported log id ∨ TurnAfter log id taskId ∨ proof)
    (hlog : log <:+ log') : Reported log' id ∨ TurnAfter log' id taskId ∨ proof := by
  rcases h with ⟨n, m, hr⟩ | ⟨n, ht⟩ | hr
  · exact .inl ⟨n, m, hr.mono hlog⟩
  · exact .inr (.inl ⟨n, ht.mono hlog⟩)
  · exact .inr (.inr hr)

namespace Attested

lemma hold_prefix (h : Attested J) (id taskId : String) : J.hold id taskId <+: J.record taskId := by
  unfold Journal.hold
  split
  · next hbefore => exact h.held id hbefore taskId
  · exact List.prefix_rfl

lemma gone_takes (h : Attested J) (hanswers : J.answers a i = true)
    (htakes : Takes exec a i J.system S) : ∀ id d, S.state.store.get id = some d →
      isGone d = true → wasHandedOver id S.state.log = true := by
  have hedits := exec_edits a J.system.state i
  have hlog := edits_log_suffix hedits
  have hi := h.informed.told i htakes.pending_self
  rw [htakes.state]
  have hall := edits_all (P := fun d => isGone d = true →
      wasHandedOver d.id (exec a J.system.state i).state.log = true) hedits ?_ ?_ ?_
  · intro id d hd hgone
    rw [← Store.get_id hd]
    exact hall id d hd hgone
  · rintro d event now d' ⟨hget, hmakes⟩ ih hstep hgone
    rw [(step_same hstep).1]
    rcases gone_new hstep hgone with hgone | rfl | ⟨outcome, reason, rfl⟩
    · exact ih hgone
    · obtain ⟨next, rfl, hid⟩ := take_of_makes_send hi hmakes
      have hw : d.state = .waiting := waiting_of_send hstep
      obtain ⟨d1, hstep1, -⟩ := step_waiting hw a.now
      have hchange : J.system.state.change next.id .send a.now =
          some (d1, J.system.state.put d .send d1) := by
        simp [Queue.change, ← hid, hget, hstep1]
      rw [← (step_same hstep1).1]
      exact take_logs hchange
    · rcases receipt_of_makes hi hmakes with ⟨taskId, attempt, rfl⟩ | ⟨-, item, hitem, hid⟩
      · exact wasHandedOver_mono hanswers hlog
      · rw [← hid]
        exact wasHandedOver_mono (h.handed i item htakes.pending_self hitem) hlog
  · intro d hadd hgone
    cases i with
    | enqueue =>
      obtain ⟨created, now, rfl⟩ := hadd
      cases hgone
    | _ => exact hadd.elim
  · intro id d hd hgone
    rw [Store.get_id hd]
    exact wasHandedOver_mono (h.gone id d hd hgone) hlog

lemma proven_takes (h : Attested J) (hanswers : J.answers a i = true)
    (htakes : Takes exec a i J.system S) : ∀ id d, S.state.store.get id = some d →
      d.state = .delivered → Reported S.state.log id ∨ TurnAfter S.state.log id d.taskId ∨
        recordedIn (J.record d.taskId) d.text = true := by
  have hedits := exec_edits a J.system.state i
  have hlog := edits_log_suffix hedits
  have hi := h.informed.told i htakes.pending_self
  rw [htakes.state]
  have hall := edits_all (P := fun d => d.state = .delivered →
      Reported (exec a J.system.state i).state.log d.id ∨
        TurnAfter (exec a J.system.state i).state.log d.id d.taskId ∨
        recordedIn (J.record d.taskId) d.text = true) hedits ?_ ?_ ?_
  · intro id d hd hs
    rw [← Store.get_id hd]
    exact hall id d hd hs
  · rintro d event now d' ⟨hget, hmakes⟩ - hstep hs
    obtain ⟨hid, htask, -, -, htext, -⟩ := step_same hstep
    rw [hid, htask, htext]
    have hevent := delivered_of_moves (hs ▸ step_moves hstep)
    rcases hevent with ⟨reason, rfl⟩ | rfl | rfl
    · rcases receipt_of_makes hi hmakes with ⟨taskId, attempt, rfl⟩ | ⟨hacc, -⟩
      · obtain ⟨attempts, hsent⟩ := wasHandedOver_iff.mp hanswers
        have hchanged : Relation.ReflTransGen (Edit (fun _ _ => True) (fun _ => False)
            fun _ => False) (J.system.state.note (.heard d.id attempt .delivered))
            (exec a J.system.state (.receipt taskId d.id attempt .delivered reason)).state :=
          changed_edits fun _ _ _ => trivial
        have hheard : After (J.system.state.note (.heard d.id attempt .delivered)).log
            (.stepped d.id attempts .send) (.heard d.id attempt .delivered) := ⟨[], _, rfl, hsent⟩
        exact .inl ⟨attempts, attempt, hheard.mono (edits_log_suffix hchanged)⟩
      · cases hacc
    · obtain rfl := started_of_makes hi hmakes
      obtain ⟨d0, hd0, attempt, hafter⟩ := h.started d.id htakes.pending_self
      obtain rfl := Option.some.inj (hget.symm.trans hd0)
      exact .inr (.inl ⟨attempt, hafter.mono hlog⟩)
    · obtain rfl := record_of_makes hi hmakes
      obtain ⟨d0, hd0, hfound⟩ := h.found d.id htakes.pending_self
      obtain rfl := Option.some.inj (hget.symm.trans hd0)
      exact .inr (.inr hfound)
  · intro d hadd hs
    cases i with
    | enqueue =>
      obtain ⟨created, now, rfl⟩ := hadd
      cases hs
    | _ => exact hadd.elim
  · intro id d hd hs
    rw [Store.get_id hd]
    exact proven_mono (h.proven id d hd hs) hlog

lemma takes (h : Attested J) (hfresh : i.isFresh J.system.state = true)
    (hanswers : J.answers a i = true) (htakes : Takes exec a i J.system S) :
    Attested ⟨S, J.record, J.hold⟩ := by
  have hlog : J.system.state.log <:+ S.state.log := by
    rw [htakes.state]
    exact edits_log_suffix (exec_edits a J.system.state i)
  have hself := htakes.pending_self
  have stays : ∀ id d, J.system.state.store.get id = some d →
      ∃ d', S.state.store.get id = some d' ∧ d'.taskId = d.taskId ∧ d'.text = d.text := by
    intro id d hd
    obtain ⟨d', hd', hsteps⟩ := exec_item (a := a) hfresh (h.informed.items id d hd) hd
    obtain ⟨-, htask, -, -, htext, -⟩ := items_same hsteps
    exact ⟨d', htakes.state ▸ hd', htask, htext⟩
  refine ⟨h.informed.takes htakes, fun j item hj hitem => ?_, fun item hj => ?_, fun id hid => ?_,
    fun id hj => ?_, fun item hj => ?_, fun id hj => ?_, h.gone_takes hanswers htakes,
    fun id hid taskId => ?_, h.proven_takes hanswers htakes⟩
  · rcases htakes.pending hj with hj | hj
    · exact wasHandedOver_mono (h.handed j item hj hitem) hlog
    · rcases handed_new (exec_follows hj) hitem with hi | ⟨next, q', rfl, hchange⟩
      · exact wasHandedOver_mono (h.handed i item hself hi) hlog
      · dsimp only
        rw [htakes.state]
        exact take_logs hchange
  · rcases htakes.pending hj with hj | hj
    · obtain ⟨n, hn⟩ := h.without item hj
      exact ⟨n, hlog.subset hn⟩
    · obtain rfl := without_new (exec_follows hj)
      exact ⟨item.attempts, hlog.subset (h.informed.told _ hself)⟩
  · dsimp only at hid
    rw [htakes.state] at hid
    rcases exec_noReceipt hid with hid | ⟨item, rfl, rfl⟩
    · obtain ⟨n, hn⟩ := h.noReceipt id hid
      exact ⟨n, hlog.subset hn⟩
    · obtain ⟨n, hn⟩ := h.without item hself
      exact ⟨n, hlog.subset hn⟩
  · rcases htakes.pending hj with hj | hj
    · obtain ⟨d, hd, n, hafter⟩ := h.started id hj
      obtain ⟨d', hd', htask, -⟩ := stays id d hd
      exact ⟨d', hd', n, htask ▸ hafter.mono hlog⟩
    · obtain ⟨d, hd, rfl, hin⟩ := started_new (exec_follows hj)
      obtain ⟨n, hn⟩ := h.noReceipt id hin
      refine ⟨d, ?_, n, [], J.system.state.log, ?_, hn⟩
      · dsimp only
        rw [htakes.state]
        exact hd
      · dsimp only
        rw [htakes.state]
        rfl
  · rcases htakes.pending hj with hj | hj
    · obtain ⟨d, hd, htask, htext⟩ := h.looks item hj
      obtain ⟨d', hd', htask', htext'⟩ := stays item.id d hd
      exact ⟨d', hd', htask'.trans htask, htext'.trans htext⟩
    · obtain ⟨hget, -⟩ := look_new (exec_follows hj)
      exact stays item.id item hget
  · rcases htakes.pending hj with hj | hj
    · obtain ⟨d, hd, hfound⟩ := h.found id hj
      obtain ⟨d', hd', htask', htext'⟩ := stays id d hd
      exact ⟨d', hd', by rw [htask', htext']; exact hfound⟩
    · obtain ⟨item, rfl, rfl, hrecorded⟩ := found_new (exec_follows hj)
      obtain ⟨d, hd, htask, htext⟩ := h.looks item hself
      obtain ⟨d', hd', htask', htext'⟩ := stays item.id d hd
      refine ⟨d', hd', ?_⟩
      have hread : recordedIn (J.record item.taskId) item.text = true := by
        simp only [Journal.answers, hrecorded, Bool.or_eq_true, Bool.and_eq_true,
          decide_eq_true_eq, reduceCtorEq, false_or, Option.some.injEq] at hanswers
        exact hanswers.2.symm
      rw [htask', htext', htask, htext]
      exact hread
  · exact h.hold_prefix id taskId

lemma begins (h : Attested J) (hcall : i.isCall = true) :
    Attested ⟨J.system.begin [i], J.record, J.held⟩ := by
  have old : ∀ j, j.isCall = false → (J.system.begin [i]).Pending j → J.system.Pending j := by
    intro j hj hpending
    rcases Threads.pending_begin.mp hpending with hpending | hnew
    · exact hpending
    · rw [List.mem_singleton.mp hnew, hcall] at hj
      cases hj
  refine ⟨h.informed.begins hcall, fun j item hj hitem => ?_,
    fun item hj => h.without item (old _ rfl hj), h.noReceipt,
    fun id hj => h.started id (old _ rfl hj), fun item hj => h.looks item (old _ rfl hj),
    fun id hj => h.found id (old _ rfl hj), h.gone, h.held, h.proven⟩
  refine h.handed j item (old j ?_ hj) hitem
  cases j <;> first | rfl | cases hitem

lemma grows (h : Attested J) (more : String → List Message) :
    Attested ⟨J.system, fun taskId => J.record taskId ++ more taskId, J.held⟩ := by
  have hmore : ∀ taskId text, recordedIn (J.record taskId) text = true →
      recordedIn (J.record taskId ++ more taskId) text = true := by
    intro taskId text hrecorded
    rw [recordedIn_append, hrecorded, Bool.true_or]
  refine ⟨h.informed, h.handed, h.without, h.noReceipt, h.started, h.looks, fun id hj => ?_,
    h.gone, fun id hid taskId => ?_, fun id d hd hs => ?_⟩
  · obtain ⟨d, hd, hfound⟩ := h.found id hj
    exact ⟨d, hd, hmore _ _ hfound⟩
  · exact (h.held id hid taskId).trans (List.prefix_append _ _)
  · exact (h.proven id d hd hs).imp_right (Or.imp_right (hmore _ _))

lemma restarts (h : Attested J) (now : ℕ) :
    Attested ⟨⟨J.system.state.restart now, []⟩, J.record, J.hold⟩ := by
  have hedits := restart_edits J.system.state now
  have hlog : (J.system.state.reopened now).log <:+ (J.system.state.restart now).log :=
    edits_log_suffix hedits
  refine ⟨h.informed.restarts now, fun j _ hj => absurd hj not_pending_restarted,
    fun _ hj => absurd hj not_pending_restarted, fun id hid => ?_,
    fun _ hj => absurd hj not_pending_restarted, fun _ hj => absurd hj not_pending_restarted,
    fun _ hj => absurd hj not_pending_restarted, fun id d hd hgone => ?_,
    fun id _ taskId => h.hold_prefix id taskId, fun id d hd hs => ?_⟩
  · dsimp only at hid
    rw [restart_noReceipt] at hid
    cases hid
  · rw [← Store.get_id hd]
    refine edits_all (P := fun d => isGone d = true →
      wasHandedOver d.id (J.system.state.restart now).log = true) hedits ?_ (fun _ h => h.elim) ?_
      id d hd hgone
    · rintro d event now d' hmakes ih hstep hgone
      rw [(step_same hstep).1]
      rcases gone_new hstep hgone with hgone | rfl | ⟨outcome, reason, rfl⟩
      · exact ih hgone
      · rcases hmakes with ⟨-, he⟩ | ⟨-, -, he⟩ <;> cases he
      · rcases hmakes with ⟨-, he⟩ | ⟨-, -, he⟩ <;> cases he
    · intro k d hd hgone
      rw [Store.get_id hd]
      exact wasHandedOver_mono (h.gone k d (get_opened hd) hgone) hlog
  · rw [← Store.get_id hd]
    refine edits_all (P := fun d => d.state = .delivered →
      Reported (J.system.state.restart now).log d.id ∨
        TurnAfter (J.system.state.restart now).log d.id d.taskId ∨
        recordedIn (J.record d.taskId) d.text = true) hedits ?_ (fun _ h => h.elim) ?_ id d hd hs
    · rintro d event now d' hmakes - hstep hs
      have hevent := delivered_of_moves (hs ▸ step_moves hstep)
      rcases hmakes with ⟨-, rfl⟩ | ⟨-, -, rfl⟩ <;> simp at hevent
    · intro k d hd hs
      rw [Store.get_id hd]
      exact proven_mono (h.proven k d (get_opened hd) hs) hlog

lemma step (h : Attested J) (hstep : Journal.Step J J') : Attested J' := by
  cases hstep with
  | grows more => exact h.grows more
  | begins hcall => exact h.begins hcall
  | takes hfresh hanswers htakes => exact h.takes hfresh hanswers htakes
  | restarts now => exact h.restarts now

lemma run {record : String → List Message}
    (hrun : Relation.ReflTransGen Journal.Step (.boot record) J) : Attested J := by
  induction hrun with
  | refl =>
    have hpending : ∀ j, ¬ (System.boot).Pending j := by
      rintro j ⟨t, ht, -⟩
      cases ht
    exact ⟨informed_boot, fun _ _ hj => absurd hj (hpending _), fun _ hj => absurd hj (hpending _),
      fun _ hid => absurd hid (Finset.notMem_empty _), fun _ hj => absurd hj (hpending _),
      fun _ hj => absurd hj (hpending _), fun _ hj => absurd hj (hpending _),
      fun _ _ hd => (nomatch hd), fun _ _ _ => List.prefix_rfl, fun _ _ hd => (nomatch hd)⟩
  | tail _ hstep ih => exact ih.step hstep

end Attested

lemma settled_step (h : Informed J.system) (hd : J.system.state.store.get id = some d)
    (hs : d.state = .delivered ∨ d.state = .withdrawn) (hstep : Journal.Step J J') :
    J'.system.state.store.get id = some d ∨
      J'.system.state.store.get id = none ∧ ∃ now, d.updatedMs + Store.keepSettledMs < now := by
  cases hstep with
  | grows | begins => exact .inl hd
  | @takes S a i hfresh _ htakes =>
    obtain ⟨d', hd', hsteps⟩ := exec_item (a := a) hfresh (h.items id d hd) hd
    rw [settled_kept hsteps hs] at hd'
    refine .inl ?_
    dsimp only
    rw [htakes.state]
    exact hd'
  | restarts now =>
    have hitem := edits_item (restart_edits J.system.state now) fun (d : Delivery) h =>
      (h.elim : d.id ≠ id)
    obtain ⟨hnone, hsome⟩ := hitem
    cases hopened : (J.system.state.store.opened now).get id with
    | some d0 =>
      obtain rfl := Option.some.inj (hd.symm.trans (get_opened hopened))
      obtain ⟨d', hd', hsteps⟩ := hsome d hopened
      rw [settled_kept hsteps hs] at hd'
      exact .inl hd'
    | none =>
      refine .inr ⟨hnone hopened, now, ?_⟩
      by_contra hkept
      have hmem : d ∈ (J.system.state.store.opened now).items := by
        refine List.mem_filter.mpr ⟨Store.mem_of_get hd, ?_⟩
        have hlt : ¬ d.updatedMs < now - Store.keepSettledMs := by omega
        simp [hlt]
      have hget := Store.get_of_mem hmem
      rw [Store.get_id hd, hopened] at hget
      cases hget

end

/-- A step that is told: one of the queue's own, or a message that comes into a record. -/
inductive JournalMove
  | move (m : Move)
  | writes (taskId : String) (message : Message)

def Journal.move (J : Journal) : JournalMove → Journal
  | .move (.begins i) => ⟨J.system.begin [i], J.record, J.held⟩
  | .move m => ⟨J.system.move m, J.record, J.hold⟩
  | .writes taskId message =>
    ⟨J.system, fun t => J.record t ++ if t = taskId then [message] else [], J.held⟩

def Journal.allows (J : Journal) : JournalMove → Bool
  | .move (.turn n a) => (J.system.head n).any fun i => i.isFresh J.system.state && J.answers a i
  | .move m => J.system.allows anyOrder m
  | .writes .. => true

def Journal.follow (J : Journal) (moves : List JournalMove) : Journal := moves.foldl Journal.move J

def Journal.canFollow (J : Journal) : List JournalMove → Bool
  | [] => true
  | m :: moves => J.allows m && (J.move m).canFollow moves

lemma journal_steps {J : Journal} {moves : List JournalMove} (h : J.canFollow moves = true) :
    Relation.ReflTransGen Journal.Step J (J.follow moves) := by
  induction moves generalizing J with
  | nil => exact .refl
  | cons m moves ih =>
    rw [Journal.canFollow, Bool.and_eq_true] at h
    refine .head ?_ (ih h.2)
    rcases m with (i | ⟨n, a⟩ | now) | ⟨taskId, message⟩
    · exact .begins J h.1
    · obtain ⟨i, hi, hok⟩ := (Option.any_eq_true _ _).mp h.1
      rw [Bool.and_eq_true] at hok
      exact .takes hok.1 hok.2 (Threads.turn_takes hi)
    · exact .restarts J now
    · exact .grows J _

/-- A message goes out: thread 2 is its timeout. -/
def goesOut (text : String) : List Move :=
  [.begins .setHost, .turn 0 quiet, .turn 0 quiet, .turn 0 quiet,
    .begins (.enqueue "a" "t" .delegation .afterTurn "l" text none)] ++
    List.replicate 7 (.turn 1 quiet) ++ [.turn 3 quiet]

/-- It times out and is looked for in the session's record. -/
def timesOut : List Move :=
  List.replicate 4 (.turn 2 quiet) ++ List.replicate 2 (.turn 2 { quiet with recorded := some true })

/-- The agent writes the message down meanwhile. -/
def foundLater (text : String) : Journal := (Journal.boot fun _ => []).follow
  ((goesOut text).map .move ++ .writes "t" ⟨"user", "x"⟩ :: timesOut.map .move)

def foundItem (text : String) : Delivery :=
  { newItem "a" "t" .delegation .afterTurn "l" text none 1 1 with
    state := .delivered, attempts := 1, evidence := some .transcript }

/-- The session has had the same message before, and gets none now. -/
def foundEarlier : Journal := (Journal.boot fun _ => [⟨"user", "x"⟩]).follow
  ((goesOut "x" ++ timesOut).map .move)

/-- No receipt has said so and no turn has started. -/
def noAnswerIn (log : List Entry) : Bool :=
  log.all fun
    | .heard .. | .turnStarted _ => false
    | _ => true

end Aeroric.Deliveries
