import Aeroric.DeliverySessions

/-! Whether the queue goes on: a message that could go out now has a pump coming. An acceptance by
receipt frees the session and brings none, and a pump whose message is discarded under its hands
looks for no other. -/
namespace Aeroric.Deliveries

open Threads (Pending Takes)

def System.taking (S : System) (id : String) : Bool :=
  S.todo.any (·.any fun
    | .take next => next.id = id
    | _ => false)

/-- A receipt only accepts a message when no other waits in its session, and no message is discarded
that a pump has chosen. -/
def keepsMoving (S : System) (_ : Answer) : Instr → Bool
  | .receipt _ id _ .accepted _ => (S.state.store.get id).all fun d =>
    d.state ≠ .sending || (S.state.store.ofTask d.taskId).all (·.state ≠ .waiting)
  | .applyAction id .discard => (S.state.store.get id).all fun d =>
    d.state ≠ .waiting || !S.taking id
  | _ => true

def Instr.notifies (taskId : String) : Instr → Bool
  | .turnEnded t => t = taskId
  | .status t s => t = taskId && s ≠ .running && s ≠ .inputRequired
  | _ => false

/-- A receipt comes from the session its message is for. -/
def Instr.isOwn (q : Queue) : Instr → Bool
  | .receipt taskId id .. => (q.store.get id).all (·.taskId = taskId)
  | _ => true

/-- The queue among the sessions: which are idle, and which have become so without a notification
since. -/
structure World where
  system : System
  idle : String → Bool
  owed : String → Bool

def World.boot (idle : String → Bool) : World := ⟨.boot, idle, fun _ => false⟩

inductive World.Step (Cond : System → Answer → Instr → Bool) : World → World → Prop
  /-- The sessions go on. -/
  | idles (W : World) (idle : String → Bool) : Step Cond W
      ⟨W.system, idle, fun taskId => W.owed taskId || (idle taskId && !W.idle taskId)⟩
  | begins (W : World) {i : Instr} (h : i.isCall = true) : Step Cond W
      ⟨W.system.begin [i], W.idle, fun taskId => W.owed taskId && !i.notifies taskId⟩
  | takes {W : World} {S : System} {a : Answer} {i : Instr}
      (hfresh : i.isFresh W.system.state = true) (hown : i.isOwn W.system.state = true)
      (hasked : ∀ taskId, i = .pump taskId → a.idle = W.idle taskId)
      (hcond : Cond W.system a i = true) (h : Takes exec a i W.system S) :
      Step Cond W ⟨S, W.idle, W.owed⟩
  | restarts (W : World) (now : ℕ) (idle : String → Bool) : Step Cond W
      ⟨⟨W.system.state.restart now, []⟩, idle, fun _ => false⟩

/-- A message of the session could go out: none is being sent, and one that may go waits. -/
def Wants (q : Queue) (taskId : String) (idle : Bool) : Prop :=
  (∀ k d, q.store.get k = some d → d.taskId = taskId → d.state ≠ .sending) ∧
    ∃ k d, q.store.get k = some d ∧ d.taskId = taskId ∧ mayGo idle d = true

/-- The instructions that come to hand over such a message. -/
def Instr.Wakes (q : Queue) (taskId : String) (idle : Bool) : Instr → Prop
  | .pump t => t = taskId
  | .pumpWaiting => True
  | .choose t answer => t = taskId ∧ (idle = true → answer = true)
  | .take next => ∃ d, q.store.get next.id = some d ∧ d.taskId = taskId ∧ d.state = .waiting
  | i => i.notifies taskId = true

section
variable {S S' : System} {a : Answer} {q : Queue} {i j : Instr} {item d d' : Delivery} {now : ℕ}
  {event : Event} {log : List Entry} {taskId k : String} {idle : Bool}

lemma taking_of_pending {next : Delivery} (h : S.Pending (.take next)) :
    S.taking next.id = true := by
  obtain ⟨t, ht, hi⟩ := h
  exact List.any_eq_true.mpr ⟨t, ht, List.any_eq_true.mpr ⟨_, hi, decide_eq_true rfl⟩⟩

def Instr.handed : Instr → Option Delivery
  | .spawn item | .send item | .await item | .letGo item _ | .settle item _ | .withoutReceipt item
  | .outcome item _ => some item
  | _ => none

/-- In its own thread, an outcome is followed by a pump. -/
def Backed : List Instr → Prop
  | [] => True
  | .outcome item _ :: rest => .pump item.taskId ∈ rest ∧ Backed rest
  | _ :: rest => Backed rest

lemma backed_append {l r : List Instr} (hl : Backed l) (hr : Backed r) : Backed (l ++ r) := by
  induction l with
  | nil => exact hr
  | cons i l ih =>
    cases i with
    | outcome item event => exact ⟨List.mem_append_left _ hl.1, ih hl.2⟩
    | _ => exact ih hl

lemma backed_tail {l : List Instr} (h : Backed (i :: l)) : Backed l := by
  cases i with
  | outcome => exact h.2
  | _ => exact h

lemma backed_of_none {l : List Instr} (h : ∀ item event, .outcome item event ∉ l) : Backed l := by
  induction l with
  | nil => trivial
  | cons i l ih =>
    have hrest := ih fun item event hmem => h item event (List.mem_cons_of_mem _ hmem)
    cases i with
    | outcome item event => exact absurd List.mem_cons_self (h item event)
    | _ => exact hrest

lemma outcome_new (h : Follows a q i (.outcome item event)) : ∃ result, i = .settle item result := by
  cases h with
  | taken _ hj => rcases hj with hj | hj | hj <;> cases hj
  | accepted hj =>
    rcases hj with hj | hj | hj
    · cases hj
    · cases hj
      exact ⟨_, rfl⟩
    · cases hj
  | failed hj =>
    rcases hj with hj | hj
    · cases hj
      exact ⟨_, rfl⟩
    · cases hj
  | lost _ hj => rcases hj with hj | hj <;> cases hj

lemma backed_exec (a : Answer) (q : Queue) (i : Instr) :
    Backed (exec a q i).next ∧ ∀ t ∈ (exec a q i).spawned, Backed t := by
  by_cases hi : ∃ item result, i = .settle item result
  · obtain ⟨item, result, rfl⟩ := hi
    refine ⟨?_, fun t ht => nomatch ht⟩
    simp only [exec, goOn]
    split <;> simp [Backed]
  · refine ⟨backed_of_none fun item event hmem => hi ?_, fun t ht => backed_of_none
      fun item event hmem => hi ?_⟩
    · exact ⟨item, outcome_new (exec_follows (.inl hmem))⟩
    · exact ⟨item, outcome_new (exec_follows (.inr ⟨t, ht, hmem⟩))⟩

lemma handed_new (h : Follows a q i j) (hj : j.handed = some item) :
    i.handed = some item ∨ ∃ next q', i = .take next ∧
      q.change next.id .send a.now = some (item, q') := by
  cases h with
  | @taken next k q' _ hchange hk =>
    have hitem : k = item := by
      rcases hk with rfl | rfl | rfl
      · cases hj
      · cases hj
      · exact Option.some.inj hj
    subst hitem
    exact .inr ⟨next, q', rfl, hchange⟩
  | accepted hk =>
    rcases hk with rfl | rfl | rfl
    · exact .inl hj
    · exact .inl hj
    · cases hj
  | failed hk =>
    rcases hk with rfl | rfl
    · exact .inl hj
    · cases hj
  | lost _ hk => rcases hk with rfl | rfl <;> cases hj
  | spawn | send | await | letGo => exact .inl hj
  | _ => cases hj

/-- What the threads of the hand-overs are about and what they will do. -/
structure Handed (S : System) : Prop where
  stored : ∀ j item, S.Pending j → j.handed = some item →
    ∃ d, S.state.store.get item.id = some d ∧ d.taskId = item.taskId
  backed : ∀ t ∈ S.todo, Backed t

lemma Handed.begins (h : Handed S) (hcall : i.isCall = true) : Handed (S.begin [i]) := by
  refine ⟨fun j item hj hitem => ?_, fun t ht => ?_⟩
  · rcases Threads.pending_begin.mp hj with hj | hj
    · exact h.stored j item hj hitem
    · rw [List.mem_singleton.mp hj] at hitem
      cases i <;> first | (cases hitem; done) | cases hcall
  · rcases List.mem_append.mp ht with ht | ht
    · exact h.backed t ht
    · rw [List.mem_singleton.mp ht]
      cases i <;> trivial

lemma Handed.takes (h : Handed S) (hI : Informed S) (hfresh : i.isFresh S.state = true)
    (htakes : Takes exec a i S S') : Handed S' := by
  refine ⟨fun j item hj hitem => ?_, htakes.each h.backed
    (fun rest hrest => backed_append (backed_exec a S.state i).1 (backed_tail hrest))
    (backed_exec a S.state i).2⟩
  rw [htakes.state]
  have old : ∀ k, S.Pending k → k.handed = some item →
      ∃ d, (exec a S.state i).state.store.get item.id = some d ∧ d.taskId = item.taskId := by
    intro k hk hkitem
    obtain ⟨d, hd, htask⟩ := h.stored k item hk hkitem
    obtain ⟨d', hd', hsteps⟩ := exec_item (a := a) hfresh (hI.items _ d hd) hd
    exact ⟨d', hd', (items_same hsteps).2.1.trans htask⟩
  rcases htakes.pending hj with hj | hj
  · exact old j hj hitem
  · rcases handed_new (exec_follows hj) hitem with hi | ⟨next, q', rfl, hchange⟩
    · exact old i htakes.pending_self hi
    · obtain ⟨d, hd, hstep, rfl⟩ := change_some hchange
      refine ⟨item, ?_, rfl⟩
      simp only [exec, hchange, goOn]
      rw [get_put hstep, if_pos (step_same hstep).1]

lemma changeAll_host (items : List Delivery) : (q.changeAll event now items).host = q.host := by
  obtain ⟨store, log, h⟩ : ∃ store log, q.changeAll event now items =
      { q with store := store, log := log } := changeAll_beside items
  rw [h]

lemma changed_host {q : Queue} : (q.changed k event now).host = q.host := by
  obtain ⟨store, log, h⟩ : ∃ store log, q.changed k event now =
      { q with store := store, log := log } := changed_beside
  rw [h]

lemma exec_host (hi : i ≠ .setHost) : (exec a q i).state.host = q.host := by
  cases i with
  | setHost => exact absurd rfl hi
  | enqueue | pause => exact changeAll_host _
  | receipt | started | outcome | record => exact changed_host
  | take | lose | applyAction =>
    simp only [exec]
    split
    · rfl
    · next h =>
      obtain ⟨d, -, -, rfl⟩ := change_some h
      rfl
  | act | pump | checkRecord =>
    simp only [exec]
    split <;> rfl
  | choose =>
    simp only [exec]
    split
    · rfl
    split <;> rfl
  | _ => rfl

lemma stop_waiting (hget : (exec a q (.pause taskId)).state.store.get k = some d')
    (htask : d'.taskId = taskId) : d'.state ≠ .waiting := by
  simp only [exec, nothing, get_changeAll_ofTask] at hget
  obtain ⟨d, -, rfl⟩ := Option.map_eq_some_iff.mp hget
  split at htask
  · next h =>
    rw [if_pos h]
    obtain ⟨_, _, _, _, _, _, state⟩ := d
    cases state <;> (intro hw; cases hw)
  · next h => exact absurd htask h

lemma waiting_of_moves {s : DeliveryState} (h : Moves s event .waiting) :
    event = .resume ∨ event = .resend ∨ event = .retry := by
  cases h <;> simp

lemma waiting_new (hi : i.Known log) (h : ItemSteps i d d') (hw : d'.state = .waiting) :
    d.state = .waiting ∨ (∃ id kind mode label text sourceRef,
      i = .enqueue id d.taskId kind mode label text sourceRef) ∨
      ∃ action, i = .applyAction d.id action := by
  cases h with
  | refl => exact .inl hw
  | tail hsteps hstep =>
    obtain ⟨event, now, hmakes, hstep⟩ := hstep
    obtain ⟨hid, htask, -⟩ := items_same hsteps
    have hevent : event = .resume ∨ event = .resend ∨ event = .retry := by
      have hmoves := step_moves hstep
      rw [hw] at hmoves
      exact waiting_of_moves hmoves
    cases i with
    | enqueue =>
      obtain ⟨rfl, -⟩ := hmakes
      rw [htask]
      exact .inr (.inl ⟨_, _, _, _, _, _, rfl⟩)
    | applyAction id action =>
      obtain ⟨rfl, -⟩ := hmakes
      rw [hid]
      exact .inr (.inr ⟨action, rfl⟩)
    | pause | receipt | started | take | lose =>
      obtain ⟨-, rfl⟩ := hmakes
      simp at hevent
    | outcome =>
      obtain ⟨-, rfl⟩ := hmakes
      rcases hi with ⟨rfl, -⟩ | ⟨reason, rfl, -⟩ <;> simp at hevent
    | record =>
      obtain ⟨-, rfl⟩ := hmakes
      rcases hi with rfl | ⟨found, rfl⟩ <;> simp at hevent
    | _ => exact hmakes.elim

lemma step_waiting (h : d.state = .waiting) (now : ℕ) :
    ∃ d', step d .send now = some d' ∧ d'.state = .sending := by
  obtain ⟨_, _, _, _, _, _, state⟩ := d
  obtain rfl : state = .waiting := h
  exact ⟨_, rfl, rfl⟩

lemma take_sends {next : Delivery} (hd : q.store.get next.id = some d) (hw : d.state = .waiting) :
    ∃ d', (exec a q (.take next)).state.store.get next.id = some d' ∧ d'.taskId = d.taskId ∧
      d'.state = .sending := by
  obtain ⟨d', hstep, hs⟩ := step_waiting hw a.now
  have hchange : q.change next.id .send a.now = some (d', q.put d .send d') := by
    simp [Queue.change, hd, hstep]
  refine ⟨d', ?_, (step_same hstep).2.1, hs⟩
  simp only [exec, hchange, goOn]
  rw [get_put hstep, if_pos (Store.get_id hd).symm]

lemma waiting_left {s : DeliveryState} (hi : i.Known log) (hmakes : i.Makes d event)
    (hmoves : Moves .waiting event s) :
    (∃ next, i = .take next ∧ d.id = next.id) ∨ i = .pause d.taskId ∨
      i = .applyAction d.id .discard := by
  cases i with
  | take next => exact .inl ⟨next, rfl, hmakes.1⟩
  | pause t => exact .inr (.inl (by rw [hmakes.1]))
  | applyAction id action =>
    obtain ⟨rfl, rfl⟩ := hmakes
    cases action with
    | discard => exact .inr (.inr rfl)
    | resume => cases hmoves
    | resend =>
      cases hmoves with
      | resend hs => simp at hs
  | receipt t id attempt result reason =>
    obtain ⟨-, rfl⟩ := hmakes
    cases hmoves <;> simp_all
  | lose =>
    obtain ⟨-, rfl⟩ := hmakes
    cases hmoves with
    | lost hs => simp at hs
  | enqueue | started =>
    obtain ⟨-, rfl⟩ := hmakes
    cases hmoves
  | outcome =>
    obtain ⟨-, rfl⟩ := hmakes
    rcases hi with ⟨rfl, -⟩ | ⟨reason, rfl, -⟩
    · cases hmoves with
      | accepted hs => simp at hs
    · cases hmoves
  | record =>
    obtain ⟨-, rfl⟩ := hmakes
    rcases hi with rfl | ⟨found, rfl⟩ <;> cases hmoves
  | _ => exact hmakes.elim

lemma waiting_of_mayGo (h : mayGo idle d = true) : d.state = .waiting := by
  simp only [mayGo, Bool.and_eq_true, decide_eq_true_eq] at h
  exact h.1

/-- An instruction that comes to hand over a message gets nearer to it, and at last the message is
being sent. -/
lemma wakes_exec (hhost : q.host = true) (hwants : Wants q taskId idle)
    (hwants' : Wants (exec a q i).state taskId idle) (hi : i.Wakes q taskId idle)
    (hasked : i = .pump taskId → idle = true → a.idle = true) :
    ∃ j ∈ (exec a q i).next, j.Wakes (exec a q i).state taskId idle := by
  obtain ⟨hnone, k, d, hd, htask, hgo⟩ := hwants
  have hid := Store.get_id hd
  cases i with
  | pump t =>
    obtain rfl : t = taskId := hi
    refine ⟨.choose t a.idle, ?_, rfl, hasked rfl⟩
    simp [exec, hhost, goOn]
  | pumpWaiting =>
    refine ⟨.pump taskId, ?_, rfl⟩
    simp only [exec, goOn, List.mem_map, Instr.pump.injEq, exists_eq_right, List.mem_dedup,
      List.mem_insertionSort]
    exact ⟨d, Store.mem_inState.mpr ⟨hid ▸ hd, waiting_of_mayGo hgo⟩, htask⟩
  | choose t answer =>
    obtain ⟨rfl, hanswer⟩ := hi
    have hmem : d ∈ q.store.ofTask t := Store.mem_ofTask.mpr ⟨hid ▸ hd, htask⟩
    have hgo' : mayGo answer d = true := by
      simp only [mayGo, Bool.and_eq_true, Bool.or_eq_true] at hgo ⊢
      exact ⟨hgo.1, hgo.2.imp_left hanswer⟩
    have hany : ¬ (q.store.ofTask t).any (·.state = .sending) = true := by
      intro hany
      obtain ⟨d1, hd1, hs⟩ := List.any_eq_true.mp hany
      obtain ⟨hget, htask1⟩ := Store.mem_ofTask.mp hd1
      exact hnone _ d1 hget htask1 (of_decide_eq_true hs)
    cases hfind : (q.store.ofTask t).find? (mayGo answer) with
    | none => exact absurd hgo' (List.find?_eq_none.mp hfind d hmem)
    | some next =>
      obtain ⟨hget, htask1⟩ := Store.mem_ofTask.mp (List.mem_of_find?_eq_some hfind)
      have hw : next.state = .waiting := waiting_of_mayGo (List.find?_some hfind)
      have hexec : exec a q (.choose t answer) = goOn q [.take next] := by
        simp only [exec, if_neg hany, hfind]
      rw [hexec]
      exact ⟨.take next, List.mem_cons_self, next, hget, htask1, hw⟩
  | take next =>
    -- it is being sent now
    obtain ⟨d1, hd1, htask1, hw⟩ := hi
    obtain ⟨d2, hget, htask2, hs⟩ := take_sends (a := a) hd1 hw
    exact absurd hs (hwants'.1 _ d2 hget (htask2.trans htask1))
  | turnEnded t =>
    obtain rfl : t = taskId := of_decide_eq_true hi
    exact ⟨.pump t, List.mem_cons_self, rfl⟩
  | status t s =>
    simp only [Instr.Wakes, Instr.notifies, Bool.and_eq_true, decide_eq_true_eq] at hi
    obtain ⟨⟨rfl, hrunning⟩, hinput⟩ := hi
    refine ⟨.pump t, ?_, rfl⟩
    simp [exec, goOn, hrunning, hinput]
  | _ => cases hi

/-- Other instructions leave it coming, unless there is nothing for it to do any more. -/
lemma wakes_kept (hI : Informed S) (hfresh : i.isFresh S.state = true)
    (hcond : keepsMoving S a i = true) (hpending : S.Pending i) (hj : S.Pending j)
    (hwants : Wants (exec a S.state i).state taskId idle) (h : j.Wakes S.state taskId idle) :
    j.Wakes (exec a S.state i).state taskId idle := by
  cases j with
  | take next =>
    obtain ⟨d, hd, htask, hw⟩ := h
    obtain ⟨d', hd', hsteps⟩ := exec_item (a := a) hfresh (hI.items _ d hd) hd
    have htask' := (items_same hsteps).2.1.trans htask
    refine ⟨d', hd', htask', ?_⟩
    by_contra hne
    rcases hsteps.cases_head with rfl | ⟨d1, ⟨event, now, hmakes, hstep⟩, -⟩
    · exact hne hw
    have hmoves := step_moves hstep
    rw [hw] at hmoves
    have hid := Store.get_id hd
    rcases waiting_left (hI.told i hpending) hmakes hmoves with ⟨other, rfl, hother⟩ | rfl | rfl
    · rw [← hid, hother] at hd
      obtain ⟨d2, hd2, htask2, hs⟩ := take_sends (a := a) hd hw
      exact hwants.1 _ d2 hd2 (htask2.trans htask) hs
    · obtain ⟨k, d2, hd2, htask2, hgo⟩ := hwants.2
      exact stop_waiting hd2 (htask2.trans htask.symm) (waiting_of_mayGo hgo)
    · simp [keepsMoving, hid, hd, hw, taking_of_pending hj] at hcond
  | _ => exact h

lemma pump_of_freed (hI : Informed S) (hH : Handed S) (hfresh : i.isFresh S.state = true)
    (hown : i.isOwn S.state = true) (hcond : keepsMoving S a i = true)
    (htakes : Takes exec a i S S') (hd : S.state.store.get k = some d) (htask : d.taskId = taskId)
    (hs : d.state = .sending) (hwants : Wants S'.state taskId idle) :
    S'.Pending (.pump taskId) := by
  rw [htakes.state] at hwants
  obtain ⟨d', hd', hsteps⟩ := exec_item (a := a) hfresh (hI.items _ d hd) hd
  have hi := hI.told i htakes.pending_self
  have hid := Store.get_id hd
  have hends : i.ends d = true := by
    by_contra hends
    have heq := sending_kept hi hs hsteps (by simpa using hends)
    exact hwants.1 k d' hd' (heq ▸ htask) (heq ▸ hs)
  obtain ⟨k2, d2, hd2, htask2, hgo⟩ := hwants.2
  cases i with
  | pause t =>
    obtain rfl : d.taskId = t := of_decide_eq_true hends
    exact absurd (waiting_of_mayGo hgo) (stop_waiting hd2 (htask2.trans htask.symm))
  | receipt t id attempt result reason =>
    obtain rfl : d.id = id := of_decide_eq_true hends
    have ht : d.taskId = t := by simpa [Instr.isOwn, hid, hd] using hown
    by_cases hacc : result = .accepted
    · -- nothing waits in the session, before and after
      subst hacc
      rcases item_of_exec hfresh hI.items hd2 with ⟨d1, hd1, hsteps1⟩ | hadd
      · obtain ⟨-, ht1, -⟩ := items_same hsteps1
        rcases waiting_new hi hsteps1 (waiting_of_mayGo hgo) with hw | ⟨_, _, _, _, _, _, h⟩ | ⟨_, h⟩
        · have hmem : d1 ∈ S.state.store.ofTask d.taskId := Store.mem_ofTask.mpr
            ⟨Store.get_id hd1 ▸ hd1, ht1.symm.trans (htask2.trans htask.symm)⟩
          simp only [keepsMoving, hid, hd, hs, Option.all_some, ne_eq, not_true_eq_false,
            decide_false, Bool.false_or, List.all_eq_true, decide_eq_true_eq] at hcond
          exact absurd hw (hcond d1 hmem)
        · cases h
        · cases h
      · exact hadd.elim
    · refine htakes.pending_next ?_
      rw [← htask, ht]
      simp [exec, goOn, hacc]
  | outcome item event =>
    have hitem : d.id = item.id := of_decide_eq_true hends
    obtain ⟨d1, hd1, htask1⟩ := hH.stored _ item htakes.pending_self rfl
    rw [← hitem, hid] at hd1
    obtain rfl := Option.some.inj (hd.symm.trans hd1)
    obtain ⟨rest, hrest, hpending⟩ := htakes.rest
    rw [← htask, htask1]
    exact hpending _ (hH.backed _ hrest).1
  | lose item reason =>
    have hitem : d.id = item.id := of_decide_eq_true hends
    rw [← hid, hitem] at hd
    have hout : isOut d = true := by simp [isOut, hs]
    obtain ⟨d1, hstep, -⟩ := step_lost hout (some reason) a.now
    refine htakes.pending_next ?_
    rw [← htask, ← (step_same hstep).2.1]
    simp [exec, Queue.change, hd, hstep, goOn]
  | _ => cases hends

lemma pump_of_added (hI : Informed S) (hfresh : i.isFresh S.state = true)
    (htakes : Takes exec a i S S')
    (hno : ∀ k d, S.state.store.get k = some d → d.taskId = taskId → mayGo idle d = false)
    (hwants : Wants S'.state taskId idle) : S'.Pending (.pump taskId) := by
  rw [htakes.state] at hwants
  obtain ⟨k, d', hd', htask', hgo⟩ := hwants.2
  have hi := hI.told i htakes.pending_self
  have hw := waiting_of_mayGo hgo
  rcases item_of_exec hfresh hI.items hd' with ⟨d, hd, hsteps⟩ | hadd
  · obtain ⟨-, htask, hkind, hmode, -⟩ := items_same hsteps
    have hnot : d.state ≠ .waiting := by
      intro hwaits
      have hgo' : mayGo idle d = true := by
        rw [mayGo, hwaits, ← hkind, ← hmode]
        rwa [mayGo, hw] at hgo
      rw [hno k d hd (htask.symm.trans htask')] at hgo'
      cases hgo'
    rcases waiting_new hi hsteps hw with hwaits | ⟨_, _, _, _, _, _, rfl⟩ | ⟨action, rfl⟩
    · exact absurd hwaits hnot
    · refine htakes.pending_next ?_
      rw [← htask', htask]
      exact List.mem_cons_self
    · have hid := Store.get_id hd
      cases hchange : S.state.change d.id action.event a.now with
      | none =>
        simp only [exec, hchange, nothing, Queue.note] at hd'
        obtain rfl := Option.some.inj (hd.symm.trans hd')
        exact absurd hw hnot
      | some r =>
        obtain ⟨item, q'⟩ := r
        obtain ⟨d1, hd1, hstep, rfl⟩ := change_some hchange
        simp only [exec, hchange, goOn, Queue.note] at hd'
        rw [get_put hstep, if_pos (hid.symm.trans (Store.get_id hd1).symm)] at hd'
        obtain rfl := Option.some.inj hd'
        refine htakes.pending_next ?_
        simp [exec, hchange, goOn, hw, htask']
  · cases i with
    | enqueue id t =>
      obtain ⟨created, now, rfl⟩ := hadd
      obtain rfl : t = taskId := htask'
      exact htakes.pending_next List.mem_cons_self
    | _ => exact hadd.elim

/-- Where a message could go out, a pump is on its way or a notification is to come. -/
structure Awake (W : World) : Prop where
  informed : Informed W.system
  handed : Handed W.system
  awake : ∀ taskId idle, (idle = true → W.idle taskId = true) → W.system.state.host = true →
    Wants W.system.state taskId idle →
    W.owed taskId = true ∨ ∃ j, W.system.Pending j ∧ j.Wakes W.system.state taskId idle

namespace Awake
variable {W : World}

lemma takes (h : Awake W) (hfresh : i.isFresh W.system.state = true)
    (hown : i.isOwn W.system.state = true)
    (hasked : ∀ taskId, i = .pump taskId → a.idle = W.idle taskId)
    (hcond : keepsMoving W.system a i = true) (htakes : Takes exec a i W.system S) :
    Awake ⟨S, W.idle, W.owed⟩ := by
  refine ⟨h.informed.takes htakes, h.handed.takes h.informed hfresh htakes,
    fun taskId idle hidle hhost hwants => ?_⟩
  dsimp only at hhost hwants hidle ⊢
  by_cases hset : i = .setHost
  · subst hset
    exact .inr ⟨.pumpWaiting, htakes.pending_next (by simp [exec, goOn]), trivial⟩
  rw [htakes.state, exec_host hset] at hhost
  by_cases hwanted : Wants W.system.state taskId idle
  · rcases h.awake taskId idle hidle hhost hwanted with howed | ⟨j, hj, hwakes⟩
    · exact .inl howed
    rw [htakes.state] at hwants ⊢
    by_cases hij : j = i
    · subst hij
      obtain ⟨j', hj', hwakes'⟩ := wakes_exec hhost hwanted hwants hwakes
        fun hpump hi => (hasked taskId hpump).trans (hidle hi)
      exact .inr ⟨j', htakes.pending_next hj', hwakes'⟩
    · exact .inr ⟨j, htakes.keeps hj hij,
        wakes_kept h.informed hfresh hcond htakes.pending_self hj hwants hwakes⟩
  · refine .inr ⟨.pump taskId, ?_, rfl⟩
    by_cases hs : ∃ k d, W.system.state.store.get k = some d ∧ d.taskId = taskId ∧
      d.state = .sending
    · obtain ⟨k, d, hd, htask, hs⟩ := hs
      exact pump_of_freed h.informed h.handed hfresh hown hcond htakes hd htask hs hwants
    · refine pump_of_added h.informed hfresh htakes (fun k d hd htask => ?_) hwants
      by_contra hgo
      refine hwanted ⟨fun k d hd htask hs' => hs ⟨k, d, hd, htask, hs'⟩, k, d, hd, htask, ?_⟩
      simpa using hgo

lemma step (h : Awake W) {W' : World} (hstep : World.Step keepsMoving W W') : Awake W' := by
  cases hstep with
  | idles idle =>
    refine ⟨h.informed, h.handed, fun taskId b hidle hhost hwants => ?_⟩
    by_cases hold : b = true → W.idle taskId = true
    · rcases h.awake taskId b hold hhost hwants with howed | hwake
      · exact .inl (by simp [howed])
      · exact .inr hwake
    · obtain ⟨hb, hnot⟩ := Classical.not_imp.mp hold
      have hnow : idle taskId = true := hidle hb
      exact .inl (by simp [hnow, hnot])
  | @begins i hcall =>
    refine ⟨h.informed.begins hcall, h.handed.begins hcall, fun taskId b hidle hhost hwants => ?_⟩
    rcases h.awake taskId b hidle hhost hwants with howed | ⟨j, hj, hwakes⟩
    · by_cases hn : i.notifies taskId = true
      · refine .inr ⟨i, Threads.pending_begin.mpr (.inr List.mem_cons_self), ?_⟩
        cases i <;> first | exact hn | cases hn
      · exact .inl (by simp [howed, hn])
    · exact .inr ⟨j, Threads.pending_begin.mpr (.inl hj), hwakes⟩
  | takes hfresh hown hasked hcond htakes => exact h.takes hfresh hown hasked hcond htakes
  | restarts now idle =>
    refine ⟨h.informed.restarts now, ⟨fun _ _ hj => absurd hj not_pending_restarted,
      fun t ht => nomatch ht⟩, fun taskId b _ hhost => ?_⟩
    have hnone : (W.system.state.restart now).host = false := by
      unfold Queue.restart
      rw [changeAll_host, changeAll_host]
    rw [hnone] at hhost
    cases hhost

lemma run {idles : String → Bool}
    (hrun : Relation.ReflTransGen (World.Step keepsMoving) (.boot idles) W) : Awake W := by
  induction hrun with
  | refl =>
    have hhanded : Handed .boot := by
      refine ⟨fun j item hj => ?_, fun t ht => nomatch ht⟩
      obtain ⟨t, ht, -⟩ := hj
      cases ht
    exact ⟨informed_boot, hhanded, fun _ _ _ hhost => nomatch hhost⟩
  | tail _ hstep ih => exact ih.step hstep

end Awake

/-- In every run in which a receipt accepts a message only when no other waits in its session, and
no message is discarded that a pump has chosen: when all is at rest with a host attached, no session
has a message that a pump would hand over. -/
theorem queue_never_stalls {W : World} {idles : String → Bool}
    (hrun : Relation.ReflTransGen (World.Step keepsMoving) (.boot idles) W)
    (hhost : W.system.state.host = true) (hrest : ∀ i, ¬ W.system.Pending i)
    (howed : ∀ taskId, W.owed taskId = false) (taskId : String) (next : Delivery) :
    .take next ∉ (exec a W.system.state (.choose taskId (W.idle taskId))).next := by
  intro hnext
  have hwants : Wants W.system.state taskId (W.idle taskId) := by
    cases exec_follows (.inl hnext) with
    | choose hnone hfound =>
      obtain ⟨hget, htask⟩ := Store.mem_ofTask.mp (List.mem_of_find?_eq_some hfound)
      refine ⟨fun k d hd htask' hs => hnone ?_, _, next, hget, htask, List.find?_some hfound⟩
      exact List.any_eq_true.mpr ⟨d, Store.mem_ofTask.mpr ⟨Store.get_id hd ▸ hd, htask'⟩,
        decide_eq_true hs⟩
  rcases (Awake.run hrun).awake taskId _ (fun h => h) hhost hwants with h | ⟨j, hj, -⟩
  · rw [howed taskId] at h
    cases h
  · exact hrest j hj

end

/-- Every session stays idle, or stays at work. -/
def steady (Cond : System → Answer → Instr → Bool) (idle : Bool) (S : System) (a : Answer)
    (i : Instr) : Bool :=
  Cond S a i && i.isOwn S.state && match i with
    | .pump _ => a.idle = idle
    | _ => true

lemma steady_steps {Cond : System → Answer → Instr → Bool} {idle : Bool} {S : System}
    (h : Relation.ReflTransGen (System.Step (steady Cond idle)) .boot S) :
    Relation.ReflTransGen (World.Step Cond) (.boot fun _ => idle)
      ⟨S, fun _ => idle, fun _ => false⟩ := by
  induction h with
  | refl => exact .refl
  | tail _ hstep ih =>
    refine ih.tail ?_
    cases hstep with
    | begins hcall => exact .begins _ hcall
    | takes hfresh hcond htakes =>
      simp only [steady, Bool.and_eq_true] at hcond
      obtain ⟨⟨hcond, hown⟩, hasked⟩ := hcond
      refine .takes hfresh hown (fun taskId hi => ?_) hcond htakes
      subst hi
      simpa using hasked
    | restarts now => exact .restarts _ now _

/-- A message waits in a session that is at work. -/
def waitsForTurn : System := System.boot.follow
  ([.begins .setHost, .turn 0 busy, .turn 0 busy, .turn 0 busy,
    .begins (.enqueue "a" "t" .delegation .afterTurn "l" "x" none)] ++
    List.replicate 3 (.turn 1 busy))

set_option maxRecDepth 8000 in
theorem waitsForTurn_not_stalled :
    (waitsForTurn.state.store.ofTask "t").map (·.state) = [.waiting] ∧
    ∀ next, .take next ∉ (exec quiet waitsForTurn.state (.choose "t" false)).next :=
  ⟨by decide, queue_never_stalls (W := ⟨waitsForTurn, fun _ => false, fun _ => false⟩)
    (steady_steps (follow_steps (by decide))) rfl
    (fun _ => Threads.not_pending_of_done (by decide)) (fun _ => rfl) "t"⟩

/-- Two messages wait in an idle session, and thread 1 has chosen the first. -/
def firstChosen : List Move :=
  [.begins .setHost, .turn 0 quiet, .turn 0 quiet, .turn 0 quiet,
    .begins (.enqueue "a" "t" .delegation .afterTurn "l" "x" none), .turn 1 quiet,
    .begins (.enqueue "b" "t" .delegation .afterTurn "l" "y" none), .turn 2 quiet,
    .turn 1 quiet, .turn 1 quiet]

/-- The first goes out and is accepted by a receipt; thread 3 is its timeout and thread 4 its
hand-over. -/
def acceptedFirst : System := System.boot.follow (firstChosen ++ List.replicate 4 (.turn 1 quiet) ++
  [.turn 2 quiet, .turn 2 quiet] ++ List.replicate 4 (.turn 4 quiet) ++
  [.begins (.receipt "t" "a" 1 .accepted none), .turn 5 quiet, .turn 3 quiet])

/-- The first is discarded before it goes out. -/
def discardedFirst : System := System.boot.follow (firstChosen ++
  [.turn 2 quiet, .turn 2 quiet, .begins (.act "a" .discard), .turn 3 quiet, .turn 3 quiet,
    .turn 1 quiet, .turn 2 quiet])

set_option maxRecDepth 8000 in
/-- Either way all is at rest, and the second waits though a pump would hand it over. -/
theorem acceptedFirst_discardedFirst_stall :
    (Relation.ReflTransGen (World.Step anyOrder) (.boot fun _ => true)
        ⟨acceptedFirst, fun _ => true, fun _ => false⟩ ∧
      acceptedFirst.state.host = true ∧ acceptedFirst.todo.all List.isEmpty = true ∧
      ∃ next, .take next ∈ (exec quiet acceptedFirst.state (.choose "t" true)).next) ∧
    Relation.ReflTransGen (World.Step anyOrder) (.boot fun _ => true)
        ⟨discardedFirst, fun _ => true, fun _ => false⟩ ∧
      discardedFirst.state.host = true ∧ discardedFirst.todo.all List.isEmpty = true ∧
      ∃ next, .take next ∈ (exec quiet discardedFirst.state (.choose "t" true)).next :=
  ⟨⟨steady_steps (follow_steps (by decide)), rfl, by decide, _, List.mem_singleton.mpr rfl⟩,
    steady_steps (follow_steps (by decide)), rfl, by decide, _, List.mem_singleton.mpr rfl⟩

end Aeroric.Deliveries
