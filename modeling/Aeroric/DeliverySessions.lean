import Aeroric.DeliveryAttempts

/-! One hand-over at a time in each session, the oldest message first. The choice of a message and
its way out are two lock regions, and a message can be taken back from its hand-over while the call
still runs. -/
namespace Aeroric.Deliveries

open Threads (Pending Takes)

/-- A message of the session has been chosen and is not out yet. -/
def Instr.takes (taskId : String) : Instr → ℕ
  | .take next => if next.taskId = taskId then 1 else 0
  | _ => 0

/-- The item for which `DeliveryHost::send` is called or will be. -/
def Instr.calling : Instr → Option Delivery
  | .spawn item | .send item | .await item => some item
  | _ => none

def Instr.callsFor (taskId : String) (i : Instr) : ℕ :=
  if i.calling.any (·.taskId = taskId) then 1 else 0

def Instr.inProgress (taskId : String) : Instr → ℕ
  | .await item => if item.taskId = taskId then 1 else 0
  | _ => 0

/-- What can end the sending of an item. -/
def Instr.ends (d : Delivery) : Instr → Bool
  | .pause taskId => d.taskId = taskId
  | .receipt _ id .. => d.id = id
  | .outcome item _ | .lose item _ => d.id = item.id
  | _ => false

def System.chosen (S : System) (taskId : String) : Bool := S.todo.any (·.any (·.takes taskId ≠ 0))

def System.calling (S : System) (id : String) : Bool :=
  S.todo.any (·.any (·.calling.any (·.id = id)))

/-- No message is chosen while another of its session is on its way out, and no sending is ended
while its call is still to be made or under way. -/
def oneAtATime (S : System) (_ : Answer) (i : Instr) : Bool :=
  (match i with
    | .choose taskId _ => !S.chosen taskId
    | _ => true) &&
  S.state.store.items.all fun d => !(i.ends d && S.calling d.id)

section
variable {S S' : System} {a : Answer} {q : Queue} {i j : Instr} {item d d' : Delivery} {now : ℕ}
  {event : Event} {log : List Entry} {taskId : String}

lemma chosen_of_pending {next : Delivery} (h : S.Pending (.take next)) :
    S.chosen next.taskId = true := by
  obtain ⟨t, ht, hi⟩ := h
  exact List.any_eq_true.mpr ⟨t, ht, List.any_eq_true.mpr ⟨_, hi, by simp [Instr.takes]⟩⟩

lemma calling_of_pending (h : S.Pending i) (hi : i.calling = some item) :
    S.calling item.id = true := by
  obtain ⟨t, ht, hit⟩ := h
  exact List.any_eq_true.mpr ⟨t, ht, List.any_eq_true.mpr ⟨i, hit, by simp [hi]⟩⟩

lemma send_of_moves {s : DeliveryState} (h : Moves s event .sending) : event = .send := by
  cases h
  rfl

lemma step_send (h : step d .send now = some d') : d'.state = .sending := by
  have hmoves := step_moves h
  generalize d.state = s, d'.state = s' at hmoves ⊢
  cases hmoves
  rfl

lemma sending_new (hi : i.Known log) (h : ItemSteps i d d') (hs : d'.state = .sending) :
    d.state = .sending ∨ ∃ next, i = .take next ∧ d.id = next.id := by
  cases h with
  | refl => exact .inl hs
  | tail hsteps hstep =>
    obtain ⟨event, now, hmakes, hstep⟩ := hstep
    have hsend : event = .send := by
      have hmoves := step_moves hstep
      rw [hs] at hmoves
      exact send_of_moves hmoves
    subst hsend
    obtain ⟨next, rfl, hid⟩ := take_of_makes_send hi hmakes
    exact .inr ⟨next, rfl, (items_same hsteps).1.symm.trans hid⟩

lemma ends_of_makes {s : DeliveryState} (hi : i.Known log) (hmakes : i.Makes d event)
    (hmoves : Moves .sending event s) : i.ends d = true := by
  cases i with
  | pause | receipt | outcome | lose => exact decide_eq_true hmakes.1
  | enqueue | started | take =>
    obtain ⟨-, rfl⟩ := hmakes
    cases hmoves
  | applyAction id action =>
    obtain ⟨-, rfl⟩ := hmakes
    cases action with
    | resume => cases hmoves
    | discard =>
      cases hmoves with
      | discard hs => simp at hs
    | resend =>
      cases hmoves with
      | resend hs => simp at hs
  | record id e =>
    obtain ⟨-, rfl⟩ := hmakes
    rcases hi with rfl | ⟨found, rfl⟩ <;> cases hmoves
  | _ => exact hmakes.elim

lemma sending_kept (hi : i.Known log) (hs : d.state = .sending) (h : ItemSteps i d d')
    (hends : i.ends d = false) : d' = d := by
  rcases h.cases_head with rfl | ⟨d1, ⟨event, now, hmakes, hstep⟩, -⟩
  · rfl
  · have hmoves := step_moves hstep
    rw [hs] at hmoves
    rw [ends_of_makes hi hmakes hmoves] at hends
    cases hends

lemma sending_of_exec (h : Informed S) (hfresh : i.isFresh S.state = true) (hpending : S.Pending i)
    {k : String} (hget : (exec a S.state i).state.store.get k = some d') (hs : d'.state = .sending) :
    ∃ d, S.state.store.get k = some d ∧ d.taskId = d'.taskId ∧
      (d.state = .sending ∨ ∃ next, i = .take next ∧ k = next.id) := by
  rcases item_of_exec hfresh h.items hget with ⟨d, hd, hsteps⟩ | hadd
  · have hid := Store.get_id hd
    refine ⟨d, hd, (items_same hsteps).2.1.symm, ?_⟩
    rw [← hid]
    exact sending_new (h.told i hpending) hsteps hs
  · cases i with
    | enqueue =>
      obtain ⟨created, now, rfl⟩ := hadd
      cases hs
    | _ => exact hadd.elim

lemma takes_new (h : Follows a q i j) {next : Delivery} (hj : j = .take next) :
    (∃ idle, i = .choose next.taskId idle) ∧ q.store.get next.id = some next ∧
      ∀ d, q.store.get d.id = some d → d.taskId = next.taskId → d.state ≠ .sending := by
  subst hj
  cases h with
  | choose hnone hnext =>
    obtain ⟨hget, rfl⟩ := Store.mem_ofTask.mp (List.mem_of_find?_eq_some hnext)
    refine ⟨⟨_, rfl⟩, hget, fun d hd htask hs => hnone ?_⟩
    exact List.any_eq_true.mpr ⟨d, Store.mem_ofTask.mpr ⟨hd, htask⟩, decide_eq_true hs⟩
  | taken _ hj => rcases hj with hj | hj | hj <;> cases hj
  | accepted hj => rcases hj with hj | hj | hj <;> cases hj
  | failed hj | lost _ hj => rcases hj with hj | hj <;> cases hj

lemma calling_new (h : Follows a q i j) (hj : j.calling = some item) :
    i.calling = some item ∨ ∃ next d q', i = .take next ∧
      q.change next.id .send a.now = some (item, q') ∧ q.store.get item.id = some d ∧
      item.state = .sending ∧ item.taskId = d.taskId := by
  cases h with
  | @taken next k q' _ hchange hk =>
    obtain ⟨d, hget, hstep, -⟩ := change_some hchange
    have hitem : k = item := by
      rcases hk with rfl | rfl | rfl
      · cases hj
      · cases hj
      · exact Option.some.inj hj
    subst hitem
    have hid := (step_same hstep).1.trans (Store.get_id hget)
    refine .inr ⟨next, d, q', rfl, hchange, hid ▸ hget, ?_, (step_same hstep).2.1⟩
    exact step_send hstep
  | accepted hk => rcases hk with rfl | rfl | rfl <;> cases hj
  | failed hk | lost _ hk => rcases hk with rfl | rfl <;> cases hj
  | spawn | send => exact .inl hj
  | _ => cases hj

/-- In each session one message at most is on its way out, being sent or called for. -/
structure Exclusive (S : System) : Prop where
  one : ∀ k k' d d', S.state.store.get k = some d → S.state.store.get k' = some d' →
    d.taskId = d'.taskId → d.state = .sending → d'.state = .sending → k = k'
  chosen : ∀ taskId, S.weigh (Instr.takes taskId) ≤ 1
  free : ∀ next, S.Pending (.take next) →
    (∃ d, S.state.store.get next.id = some d ∧ d.taskId = next.taskId) ∧
      ∀ k d, S.state.store.get k = some d → d.taskId = next.taskId → d.state ≠ .sending
  called : ∀ i item, S.Pending i → i.calling = some item →
    ∃ d, S.state.store.get item.id = some d ∧ d.taskId = item.taskId ∧ d.state = .sending
  calls : ∀ taskId, S.weigh (Instr.callsFor taskId) ≤ 1

lemma takes_pos (h : j.takes taskId ≠ 0) : ∃ next, j = .take next ∧ next.taskId = taskId := by
  cases j with
  | take next => exact ⟨next, rfl, by simpa [Instr.takes] using h⟩
  | _ => exact absurd rfl h

lemma callsFor_pos (h : j.callsFor taskId ≠ 0) :
    ∃ item, j.calling = some item ∧ item.taskId = taskId := by
  unfold Instr.callsFor at h
  cases hj : j.calling with
  | none => simp [hj] at h
  | some item => exact ⟨item, rfl, by simpa [hj] using h⟩

namespace Exclusive

lemma alone (h : Exclusive S) {next d0 : Delivery} (hp : S.Pending (.take next))
    (hd0 : S.state.store.get next.id = some d0) {k : String} (hd : S.state.store.get k = some d)
    (htask : d.taskId = d0.taskId) : d.state ≠ .sending := by
  obtain ⟨⟨d1, hd1, htask1⟩, hfree⟩ := h.free next hp
  obtain rfl := Option.some.inj (hd0.symm.trans hd1)
  exact hfree k d hd (htask.trans htask1)

lemma one_takes (h : Exclusive S) (hI : Informed S) (hfresh : i.isFresh S.state = true)
    (htakes : Takes exec a i S S') : ∀ k k' d d', S'.state.store.get k = some d →
      S'.state.store.get k' = some d' → d.taskId = d'.taskId → d.state = .sending →
      d'.state = .sending → k = k' := by
  intro k k' d d' hd hd' htask hs hs'
  rw [htakes.state] at hd hd'
  have hi := htakes.pending_self
  obtain ⟨d0, hd0, ht0, h0⟩ := sending_of_exec hI hfresh hi hd hs
  obtain ⟨d0', hd0', ht0', h0'⟩ := sending_of_exec hI hfresh hi hd' hs'
  have htask0 : d0.taskId = d0'.taskId := ht0.trans (htask.trans ht0'.symm)
  rcases h0 with h0 | ⟨next, rfl, rfl⟩
  · rcases h0' with h0' | ⟨next, rfl, rfl⟩
    · exact h.one k k' d0 d0' hd0 hd0' htask0 h0 h0'
    · exact absurd h0 (h.alone hi hd0' hd0 htask0)
  · rcases h0' with h0' | ⟨next', heq, rfl⟩
    · exact absurd h0' (h.alone hi hd0 hd0' htask0.symm)
    · rw [Instr.take.inj heq]

lemma chosen_takes (h : Exclusive S) (hcond : oneAtATime S a i = true)
    (htakes : Takes exec a i S S') (taskId : String) : S'.weigh (Instr.takes taskId) ≤ 1 := by
  by_cases hc : ∃ idle, i = .choose taskId idle
  · obtain ⟨idle, rfl⟩ := hc
    have hzero : S.weigh (Instr.takes taskId) = 0 := by
      refine Threads.weigh_eq_zero fun j hj => ?_
      by_contra hne
      obtain ⟨next, rfl, rfl⟩ := takes_pos hne
      simp [oneAtATime, chosen_of_pending hj] at hcond
    have hweigh := htakes.weigh (Instr.takes taskId)
    have hnew : ((exec a S.state (.choose taskId idle)).next.map (Instr.takes taskId)).sum +
        ((exec a S.state (.choose taskId idle)).spawned.map
          fun t => (t.map (Instr.takes taskId)).sum).sum ≤ 1 := by
      unfold exec
      dsimp only
      split
      · simp [nothing]
      split
      · simp [nothing]
      · simp only [goOn, List.map_cons, List.map_nil, List.sum_cons, List.sum_nil, Instr.takes]
        split <;> omega
    omega
  · have hweigh := htakes.weigh_of_none (w := Instr.takes taskId) fun j hj => by
      by_contra hne
      obtain ⟨next, rfl, rfl⟩ := takes_pos hne
      exact hc (takes_new (exec_follows hj) rfl).1
    have hle := h.chosen taskId
    omega

lemma free_takes (h : Exclusive S) (hI : Informed S) (hfresh : i.isFresh S.state = true)
    (htakes : Takes exec a i S S') :
    ∀ next, S'.Pending (.take next) →
      (∃ d, S'.state.store.get next.id = some d ∧ d.taskId = next.taskId) ∧
        ∀ k d, S'.state.store.get k = some d → d.taskId = next.taskId → d.state ≠ .sending := by
  intro next hnext
  rw [htakes.state]
  -- the message was chosen before, or just now
  have before : (∃ d, S.state.store.get next.id = some d ∧ d.taskId = next.taskId) ∧
      ∀ k d, S.state.store.get k = some d → d.taskId = next.taskId → d.state ≠ .sending := by
    rcases htakes.pending hnext with hold | hnew
    · exact h.free next hold
    · obtain ⟨-, hget, hnone⟩ := takes_new (exec_follows hnew) rfl
      exact ⟨⟨next, hget, rfl⟩, fun k d hd => hnone d (Store.get_id hd ▸ hd)⟩
  obtain ⟨⟨d, hd, htask⟩, hfree⟩ := before
  refine ⟨?_, fun k d' hd' htask' hs => ?_⟩
  · obtain ⟨d', hd', hsteps⟩ := exec_item (a := a) hfresh (hI.items _ d hd) hd
    exact ⟨d', hd', (items_same hsteps).2.1.trans htask⟩
  · obtain ⟨d0, hd0, ht0, hs0 | ⟨other, rfl, rfl⟩⟩ :=
      sending_of_exec hI hfresh htakes.pending_self hd' hs
    · exact hfree k d0 hd0 (ht0.trans htask') hs0
    · -- two messages of the session would have been on their way
      obtain ⟨⟨d1, hd1, htask1⟩, -⟩ := h.free other htakes.pending_self
      obtain rfl := Option.some.inj (hd0.symm.trans hd1)
      have hother : other.taskId = next.taskId := htask1.symm.trans (ht0.trans htask')
      have hweigh := htakes.weigh_of_none (w := Instr.takes next.taskId) fun j hj => by
        by_contra hne
        obtain ⟨n, rfl, -⟩ := takes_pos hne
        obtain ⟨⟨idle, hi⟩, -⟩ := takes_new (exec_follows hj) rfl
        cases hi
      have hone : Instr.takes next.taskId (.take other) = 1 := if_pos hother
      have hself : Instr.takes next.taskId (.take next) = 1 := if_pos rfl
      have hle := Threads.le_weigh hnext (Instr.takes next.taskId)
      have hbefore := h.chosen next.taskId
      omega

lemma called_takes (h : Exclusive S) (hI : Informed S) (hfresh : i.isFresh S.state = true)
    (hcond : oneAtATime S a i = true) (htakes : Takes exec a i S S') :
    ∀ j item, S'.Pending j → j.calling = some item →
      ∃ d, S'.state.store.get item.id = some d ∧ d.taskId = item.taskId ∧ d.state = .sending := by
  intro j item hj hitem
  rw [htakes.state]
  have old : ∀ k, S.Pending k → k.calling = some item → ∃ d,
      (exec a S.state i).state.store.get item.id = some d ∧ d.taskId = item.taskId ∧
        d.state = .sending := by
    intro k hk hkitem
    obtain ⟨d, hd, htask, hs⟩ := h.called k item hk hkitem
    obtain ⟨d', hd', hsteps⟩ := exec_item (a := a) hfresh (hI.items _ d hd) hd
    have hends : i.ends d = false := by
      have hall := (Bool.and_eq_true _ _ ▸ hcond).2
      have hd1 := List.all_eq_true.mp hall d (Store.mem_of_get hd)
      simpa [Store.get_id hd, calling_of_pending hk hkitem] using hd1
    rw [sending_kept (hI.told i htakes.pending_self) hs hsteps hends] at hd'
    exact ⟨d, hd', htask, hs⟩
  rcases htakes.pending hj with hj | hj
  · exact old j hj hitem
  · rcases calling_new (exec_follows hj) hitem with hi | ⟨next, d, q', rfl, hchange, hd, hs, htask⟩
    · exact old i htakes.pending_self hi
    · obtain ⟨d1, hd1, hstep, rfl⟩ := change_some hchange
      refine ⟨item, ?_, rfl, hs⟩
      simp only [exec, hchange, goOn]
      rw [get_put hstep, if_pos (step_same hstep).1]

lemma calls_takes (h : Exclusive S) (htakes : Takes exec a i S S') (taskId : String) :
    S'.weigh (Instr.callsFor taskId) ≤ 1 := by
  have hbefore := h.calls taskId
  have hweigh := htakes.weigh (Instr.callsFor taskId)
  by_cases hi : i.calling.isSome
  · -- a call goes on, and is counted as before
    cases i with
    | spawn item | send item =>
      simp [exec, goOn, Instr.callsFor, Instr.calling] at hweigh
      omega
    | await item =>
      simp [exec, goOn, Instr.callsFor, Instr.calling] at hweigh
      omega
    | _ => cases hi
  · by_cases hnew : ∃ next item q', i = .take next ∧ item.taskId = taskId ∧
      S.state.change next.id .send a.now = some (item, q')
    · obtain ⟨next, item, q', rfl, rfl, hchange⟩ := hnew
      obtain ⟨d, hd, hstep, -⟩ := change_some hchange
      have hzero : S.weigh (Instr.callsFor item.taskId) = 0 := by
        refine Threads.weigh_eq_zero fun j hj => ?_
        by_contra hne
        obtain ⟨other, hother, htask⟩ := callsFor_pos hne
        obtain ⟨d1, hd1, htask1, hs1⟩ := h.called j other hj hother
        exact h.alone htakes.pending_self hd hd1
          (htask1.trans (htask.trans (step_same hstep).2.1)) hs1
      simp [exec, hchange, goOn, Instr.callsFor, Instr.calling] at hweigh
      omega
    · have hnone := htakes.weigh_of_none (w := Instr.callsFor taskId) fun j hj => by
        by_contra hne
        obtain ⟨item, hitem, htask⟩ := callsFor_pos hne
        rcases calling_new (exec_follows hj) hitem with hi' | ⟨next, d, q', rfl, hchange, -⟩
        · exact hi (by rw [hi']; rfl)
        · exact hnew ⟨next, item, q', rfl, htask, hchange⟩
      omega

lemma begins (h : Exclusive S) (hcall : i.isCall = true) : Exclusive (S.begin [i]) := by
  have hnew : (∀ taskId, i.takes taskId = 0) ∧ i.calling = none := by
    cases i <;> first | exact ⟨fun _ => rfl, rfl⟩ | cases hcall
  have hcalls : ∀ taskId, i.callsFor taskId = 0 := fun taskId => by simp [Instr.callsFor, hnew.2]
  refine ⟨h.one, fun taskId => ?_, fun next hnext => ?_, fun j item hj hitem => ?_,
    fun taskId => ?_⟩
  · simpa [hnew.1 taskId] using h.chosen taskId
  · rcases Threads.pending_begin.mp hnext with hnext | hnext
    · exact h.free next hnext
    · have hpos := hnew.1 next.taskId
      rw [← List.mem_singleton.mp hnext] at hpos
      simp [Instr.takes] at hpos
  · rcases Threads.pending_begin.mp hj with hj | hj
    · exact h.called j item hj hitem
    · rw [List.mem_singleton.mp hj, hnew.2] at hitem
      cases hitem
  · simpa [hcalls taskId] using h.calls taskId

lemma still (h : ∀ k d, q.store.get k = some d → d.state ≠ .sending) : Exclusive ⟨q, []⟩ := by
  have hpending : ∀ j, ¬ Pending (⟨q, []⟩ : System) j := by
    rintro j ⟨t, ht, -⟩
    cases ht
  exact ⟨fun k _ d _ hd _ _ hs => absurd hs (h k d hd), fun _ => Nat.zero_le _,
    fun _ hj => absurd hj (hpending _), fun _ _ hj => absurd hj (hpending _),
    fun _ => Nat.zero_le _⟩

lemma run (hrun : Relation.ReflTransGen (System.Step oneAtATime) .boot S) : Exclusive S := by
  induction hrun with
  | refl => exact still fun _ _ hd => nomatch hd
  | tail hrun hstep ih =>
    have hI := Informed.run hrun
    cases hstep with
    | begins hcall => exact ih.begins hcall
    | takes hfresh hcond htakes =>
      exact ⟨ih.one_takes hI hfresh htakes, ih.chosen_takes hcond htakes,
        ih.free_takes hI hfresh htakes, ih.called_takes hI hfresh hcond htakes,
        ih.calls_takes htakes⟩
    | restarts now =>
      refine still fun k d hd hs => ?_
      have hout := restart_isOut hd
      simp [isOut, hs] at hout

end Exclusive

lemma sorted_ofTask (s : Store) (taskId : String) :
    (s.ofTask taskId).Pairwise fun d e => d.createdMs ≤ e.createdMs := by
  have : Std.Total fun d e : Delivery => d.createdMs ≤ e.createdMs := ⟨fun _ _ => le_total _ _⟩
  have : IsTrans Delivery fun d e => d.createdMs ≤ e.createdMs := ⟨fun _ _ _ => le_trans⟩
  exact List.pairwise_insertionSort _ _

lemma older_not_found {p : Delivery → Bool} {next : Delivery} {s : Store}
    (hnext : (s.ofTask taskId).find? p = some next) (hd : d ∈ s.ofTask taskId)
    (hold : d.createdMs < next.createdMs) : p d = false := by
  obtain ⟨-, before, after, hlist, hbefore⟩ := List.find?_eq_some_iff_append.mp hnext
  have hsorted := sorted_ofTask s taskId
  rw [hlist] at hd hsorted
  rcases List.mem_append.mp hd with hd | hd
  · simpa using hbefore d hd
  rcases List.mem_cons.mp hd with rfl | hd
  · exact absurd hold (lt_irrefl _)
  · have hle := (List.pairwise_cons.mp (List.pairwise_append.mp hsorted).2.1).1 d hd
    exact absurd hold (not_lt.mpr hle)

/-- In every run in which no message is chosen while another of its session is on its way out, and
no sending is ended while its call is to be made or under way, each session has one message at most
that is being sent and one call at most in progress; and a message that is chosen has no older one
before it but those that wait for the end of a turn which was not over. -/
theorem one_hand_over_at_a_time (hrun : Relation.ReflTransGen (System.Step oneAtATime) .boot S)
    (taskId : String) :
    (∀ d ∈ S.state.store.ofTask taskId, ∀ d' ∈ S.state.store.ofTask taskId,
      d.state = .sending → d'.state = .sending → d = d') ∧
    S.weigh (Instr.inProgress taskId) ≤ 1 ∧
    ∀ a idle next, .take next ∈ (exec a S.state (.choose taskId idle)).next →
      ∀ d ∈ S.state.store.ofTask taskId, d.state = .waiting → d.createdMs < next.createdMs →
        idle = false ∧ ¬ (d.kind = .user ∧ d.mode = .now) := by
  have h := Exclusive.run hrun
  refine ⟨fun d hd d' hd' hs hs' => ?_, ?_, fun a idle next hnext d hd hw hold => ?_⟩
  · obtain ⟨hget, htask⟩ := Store.mem_ofTask.mp hd
    obtain ⟨hget', htask'⟩ := Store.mem_ofTask.mp hd'
    have hid := h.one d.id d'.id d d' hget hget' (htask.trans htask'.symm) hs hs'
    rw [hid] at hget
    exact Option.some.inj (hget.symm.trans hget')
  · refine (Threads.weigh_mono fun j => ?_).trans (h.calls taskId)
    cases j with
    | await item => simp [Instr.inProgress, Instr.callsFor, Instr.calling]
    | _ => exact Nat.zero_le _
  · cases exec_follows (.inl hnext) with
    | choose _ hfound =>
      have hno := older_not_found hfound hd hold
      simpa [mayGo, hw] using hno

end

def busy : Answer := { quiet with idle := false }

/-- One of our messages and one of the user's wait in a session that was idle when the first was to
go out and is at work when the second is: threads 1 and 2 are about to choose. -/
def twoToChoose : List Move :=
  [.begins .setHost, .turn 0 quiet, .turn 0 quiet, .turn 0 quiet,
    .begins (.enqueue "a" "t" .delegation .afterTurn "l" "x" none), .turn 1 quiet,
    .begins (.enqueue "b" "t" .user .now "l" "y" none), .turn 2 quiet,
    .turn 1 quiet, .turn 2 busy]

def second : Delivery := newItem "b" "t" .user .now "l" "y" none 2 1

set_option maxRecDepth 8000 in
/-- The user's message is chosen before the older one, which waits for the turn to end. -/
theorem twoToChoose_one_at_a_time :
    ((System.boot.follow twoToChoose).state.store.ofTask "t").map (·.id) = ["a", "b"] ∧
    (System.boot.follow twoToChoose).weigh (Instr.inProgress "t") ≤ 1 ∧
    ∀ d ∈ (System.boot.follow twoToChoose).state.store.ofTask "t", d.state = .waiting →
      d.createdMs < second.createdMs → false = false ∧ ¬ (d.kind = .user ∧ d.mode = .now) := by
  have h := one_hand_over_at_a_time (S := System.boot.follow twoToChoose)
    (follow_steps (by decide)) "t"
  exact ⟨by decide, h.2.1, h.2.2 busy false second (List.mem_singleton.mpr rfl)⟩

/-- Both are chosen, then both go out. -/
def bothOut : System := System.boot.follow (twoToChoose ++ [.turn 1 quiet, .turn 2 busy] ++
  List.replicate 4 (.turn 1 quiet) ++ List.replicate 4 (.turn 2 quiet) ++
  [.turn 4 quiet, .turn 6 quiet])

set_option maxRecDepth 8000 in
/-- Two messages of one session are being sent, by two calls at the same time. -/
theorem bothOut_two_at_a_time :
    Relation.ReflTransGen (System.Step anyOrder) .boot bothOut ∧
    (bothOut.state.store.ofTask "t").map (fun d => (d.id, d.state)) =
      [("a", .sending), ("b", .sending)] ∧
    bothOut.weigh (Instr.inProgress "t") = 2 :=
  ⟨follow_steps (by decide), by decide, by decide⟩

end Aeroric.Deliveries
