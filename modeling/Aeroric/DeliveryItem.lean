import Mathlib.Data.List.Infix
import Mathlib.Data.List.Sort
import Mathlib.Data.String.Basic

/-! One message on its way into a session: the state machine of a delivery, and the store that keeps
the deliveries. -/
namespace Aeroric.Deliveries

inductive DeliveryKind
  | delegation
  | review
  | handoff
  | user
  deriving DecidableEq

inductive DeliveryMode
  | now
  | afterTurn
  deriving DecidableEq

inductive DeliveryState
  | waiting
  | sending
  | accepted
  | delivered
  | failed
  | unknown
  | paused
  | withdrawn
  deriving DecidableEq

inductive DeliveryEvidence
  | protocol
  | echo
  | turnStarted
  | transcript
  deriving DecidableEq

inductive ReceiptOutcome
  | accepted
  | delivered
  | rejected
  deriving DecidableEq

structure Delivery where
  id : String
  taskId : String
  kind : DeliveryKind
  mode : DeliveryMode
  label : String
  text : String
  state : DeliveryState
  attempts : ℕ
  reason : Option String
  evidence : Option DeliveryEvidence
  blocked : Bool
  sourceRef : Option String
  createdMs : ℕ
  updatedMs : ℕ
  deriving DecidableEq

inductive Event
  /-- The queue hands it to the driver. -/
  | send
  | receipt (outcome : ReceiptOutcome) (reason : Option String)
  | turnStarted
  | sendFailed (reason : String) (blocked : Bool)
  | lost (reason : Option String)
  | recorded (found : Bool)
  | unreadable
  | stop
  | restarted
  | resume
  | discard
  | resend
  | retry
  deriving DecidableEq

def unreadableReason : String := "读不到会话记录"
def sessionDied : String := "会话中断了，没收到回执"
def noAnswer : String := "Agent 没有回应"
def restartedReason : String := "Aeroric 重启了"

/-- The item after an event, or `none` when the event does not apply in its state. -/
def step (d : Delivery) (event : Event) (nowMs : ℕ) : Option Delivery :=
  let d := { d with updatedMs := nowMs }
  match d.state, event with
  | .waiting, .send => some { d with attempts := d.attempts + 1, reason := none, state := .sending }
  | .sending, .receipt .accepted _ | .paused, .receipt .accepted _ =>
    some { d with state := .accepted }
  | .accepted, .receipt .delivered _ =>
    some { d with evidence := some .echo, reason := none, state := .delivered }
  | .sending, .receipt .delivered _ | .paused, .receipt .delivered _
  | .unknown, .receipt .delivered _ =>
    some { d with evidence := some .protocol, reason := none, state := .delivered }
  | .sending, .receipt .rejected reason | .accepted, .receipt .rejected reason =>
    some { d with reason := some (reason.getD "Agent 拒绝了这条消息"), state := .failed }
  | .accepted, .turnStarted => some { d with evidence := some .turnStarted, state := .delivered }
  | .sending, .sendFailed reason blocked =>
    some { d with reason := some reason, blocked := blocked, state := .failed }
  | .sending, .lost reason | .accepted, .lost reason =>
    some { d with reason := reason, state := .unknown }
  | .unknown, .recorded true =>
    some { d with evidence := some .transcript, reason := none, state := .delivered }
  | .unknown, .recorded false => some { d with reason := some "会话记录里没找到" }
  | .unknown, .unreadable => some { d with reason := some unreadableReason }
  | .waiting, .stop | .sending, .stop => some { d with state := .paused }
  | .waiting, .restarted => some { d with reason := some restartedReason, state := .paused }
  | .paused, .resume => some { d with reason := none, state := .waiting }
  | .waiting, .discard | .paused, .discard | .failed, .discard | .unknown, .discard =>
    some { d with state := .withdrawn }
  | .failed, .resend | .unknown, .resend =>
    some { d with blocked := false, reason := none, state := .waiting }
  | .failed, .retry => if d.blocked then none else some { d with reason := none, state := .waiting }
  | _, _ => none

/-- The moves an event makes between states. -/
inductive Moves : DeliveryState → Event → DeliveryState → Prop
  | send : Moves .waiting .send .sending
  | accepted {s : DeliveryState} {reason : Option String} (hs : s = .sending ∨ s = .paused) :
      Moves s (.receipt .accepted reason) .accepted
  | delivered {s : DeliveryState} {reason : Option String}
      (hs : s = .sending ∨ s = .accepted ∨ s = .paused ∨ s = .unknown) :
      Moves s (.receipt .delivered reason) .delivered
  | rejected {s : DeliveryState} {reason : Option String} (hs : s = .sending ∨ s = .accepted) :
      Moves s (.receipt .rejected reason) .failed
  | turnStarted : Moves .accepted .turnStarted .delivered
  | sendFailed {reason : String} {blocked : Bool} :
      Moves .sending (.sendFailed reason blocked) .failed
  | lost {s : DeliveryState} {reason : Option String} (hs : s = .sending ∨ s = .accepted) :
      Moves s (.lost reason) .unknown
  | found : Moves .unknown (.recorded true) .delivered
  | notFound : Moves .unknown (.recorded false) .unknown
  | unreadable : Moves .unknown .unreadable .unknown
  | stop {s : DeliveryState} (hs : s = .waiting ∨ s = .sending) : Moves s .stop .paused
  | restarted : Moves .waiting .restarted .paused
  | resume : Moves .paused .resume .waiting
  | discard {s : DeliveryState}
      (hs : s = .waiting ∨ s = .paused ∨ s = .failed ∨ s = .unknown) : Moves s .discard .withdrawn
  | resend {s : DeliveryState} (hs : s = .failed ∨ s = .unknown) : Moves s .resend .waiting
  | retry : Moves .failed .retry .waiting

section Step
variable {d d' : Delivery} {event : Event} {now : ℕ}

lemma step_moves (h : step d event now = some d') : Moves d.state event d'.state := by
  unfold step at h
  dsimp only at h
  generalize d.state = s at h ⊢
  split at h
  all_goals first
    | (cases h <;> constructor <;> simp)
    | skip
  split at h <;> cases h
  exact .retry

lemma step_same (h : step d event now = some d') : d'.id = d.id ∧ d'.taskId = d.taskId ∧
    d'.kind = d.kind ∧ d'.mode = d.mode ∧ d'.text = d.text ∧ d'.createdMs = d.createdMs := by
  unfold step at h
  dsimp only at h
  split at h
  all_goals first | (cases h <;> exact ⟨rfl, rfl, rfl, rfl, rfl, rfl⟩) | skip
  split at h <;> cases h
  exact ⟨rfl, rfl, rfl, rfl, rfl, rfl⟩

lemma step_attempts (h : step d event now = some d') :
    d'.attempts = if event = .send then d.attempts + 1 else d.attempts := by
  unfold step at h
  dsimp only at h
  split at h
  all_goals first | (cases h <;> rfl) | skip
  split at h <;> cases h
  rfl

end Step

/-- The tests a failure's reason is put to, in lower case. -/
def mentions (reason : String) (needles : List String) : Bool :=
  needles.any fun needle => decide (needle.toList <:+: reason.toLower.toList)

def authFailure (reason : String) : Bool :=
  mentions reason ["登录", "login", "log in", "auth", "401", "403", "api key", "密钥",
    "token expired", "expired token", "认证", "鉴权"]

def userFixable (reason : String) : Bool :=
  authFailure reason || mentions reason ["未安装", "找不到", "not found", "no such file"]

/-- The deliveries, in the order of their ids. -/
structure Store where
  items : List Delivery
  sorted : items.Pairwise fun d e => d.id < e.id

/-- An item comes in at its place, over the one that has its id. -/
def insertItem (d : Delivery) : List Delivery → List Delivery
  | [] => [d]
  | e :: items =>
    if e.id = d.id then d :: items
    else if d.id < e.id then d :: e :: items
    else e :: insertItem d items

lemma mem_insertItem {d e : Delivery} {items : List Delivery} (h : e ∈ insertItem d items) :
    e = d ∨ e ∈ items := by
  induction items with
  | nil => exact .inl (List.mem_singleton.mp h)
  | cons k items ih =>
    unfold insertItem at h
    split at h
    · rcases List.mem_cons.mp h with h | h
      · exact .inl h
      · exact .inr (List.mem_cons_of_mem _ h)
    split at h
    · exact List.mem_cons.mp h
    · rcases List.mem_cons.mp h with h | h
      · exact .inr (h ▸ List.mem_cons_self)
      · exact (ih h).imp_right (List.mem_cons_of_mem _)

lemma sorted_insertItem (d : Delivery) {items : List Delivery}
    (h : items.Pairwise fun d e => d.id < e.id) :
    (insertItem d items).Pairwise fun d e => d.id < e.id := by
  induction items with
  | nil => exact List.pairwise_singleton _ _
  | cons k items ih =>
    obtain ⟨hk, hrest⟩ := List.pairwise_cons.mp h
    unfold insertItem
    split
    · next heq => exact List.pairwise_cons.mpr ⟨fun e he => heq ▸ hk e he, hrest⟩
    split
    · next hlt =>
      refine List.pairwise_cons.mpr ⟨fun e he => ?_, h⟩
      rcases List.mem_cons.mp he with rfl | he
      · exact hlt
      · exact hlt.trans (hk e he)
    · next hne hlt =>
      refine List.pairwise_cons.mpr ⟨fun e he => ?_, ih hrest⟩
      rcases mem_insertItem he with rfl | he
      · exact lt_of_le_of_ne (not_lt.mp hlt) hne
      · exact hk e he

namespace Store

def empty : Store := ⟨[], .nil⟩

def get (s : Store) (id : String) : Option Delivery := s.items.find? (·.id = id)

def save (s : Store) (d : Delivery) : Store := ⟨insertItem d s.items, sorted_insertItem d s.sorted⟩

/-- A new item's creation time, later than every earlier one's. -/
def nextCreated (s : Store) (now : ℕ) : ℕ :=
  max now ((s.items.map (·.createdMs)).foldl max 0 + 1)

def ofTask (s : Store) (taskId : String) : List Delivery :=
  (s.items.filter (·.taskId = taskId)).insertionSort fun d e => d.createdMs ≤ e.createdMs

def inState (s : Store) (state : DeliveryState) : List Delivery :=
  s.items.filter (·.state = state)

def keepSettledMs : ℕ := 7 * 24 * 60 * 60 * 1000

/-- What is kept when the queue is opened: settled items for seven days. -/
def opened (s : Store) (nowMs : ℕ) : Store where
  items := s.items.filter fun d =>
    !((d.state = .delivered || d.state = .withdrawn) && d.updatedMs < nowMs - keepSettledMs)
  sorted := s.sorted.filter _

variable {s : Store} {d : Delivery} {id : String}

lemma get_id (h : s.get id = some d) : d.id = id := by
  simpa using List.find?_some h

lemma mem_of_get (h : s.get id = some d) : d ∈ s.items := List.mem_of_find?_eq_some h

lemma get_of_mem (h : d ∈ s.items) : s.get d.id = some d := by
  obtain ⟨items, sorted⟩ := s
  unfold get
  dsimp only at h ⊢
  induction items with
  | nil => cases h
  | cons e items ih =>
    obtain ⟨he, hrest⟩ := List.pairwise_cons.mp sorted
    rcases List.mem_cons.mp h with rfl | h
    · simp
    · rw [List.find?_cons_of_neg (by simpa using (he d h).ne)]
      exact ih hrest h

lemma mem_iff_get : d ∈ s.items ↔ s.get d.id = some d := ⟨get_of_mem, mem_of_get⟩

lemma get_save (s : Store) (d : Delivery) (q : String) :
    (s.save d).get q = if q = d.id then some d else s.get q := by
  obtain ⟨items, sorted⟩ := s
  unfold get save
  dsimp only
  clear sorted
  induction items with
  | nil => by_cases hq : q = d.id <;> simp [insertItem, hq, eq_comm]
  | cons e items ih =>
    unfold insertItem
    split
    · next heq =>
      by_cases hq : q = d.id
      · simp [hq]
      · have h1 : ¬ d.id = q := fun h => hq h.symm
        have h2 : ¬ e.id = q := fun h => hq (h ▸ heq)
        simp [hq, h1, h2]
    split
    · by_cases hq : q = d.id
      · simp [hq]
      · have h1 : ¬ d.id = q := fun h => hq h.symm
        simp [hq, h1]
    · next hne _ =>
      by_cases he : e.id = q
      · have hq : ¬ q = d.id := fun h => hne (he.trans h)
        simp [he, hq]
      · simp only [List.find?_cons, he, decide_false]
        exact ih

lemma mem_ofTask {taskId : String} :
    d ∈ s.ofTask taskId ↔ s.get d.id = some d ∧ d.taskId = taskId := by
  unfold ofTask
  rw [List.mem_insertionSort, List.mem_filter, mem_iff_get, decide_eq_true_eq]

lemma mem_inState {state : DeliveryState} :
    d ∈ s.inState state ↔ s.get d.id = some d ∧ d.state = state := by
  unfold inState
  rw [List.mem_filter, mem_iff_get, decide_eq_true_eq]

lemma nodup_ids (s : Store) : (s.items.map (·.id)).Nodup :=
  (List.pairwise_map.mpr s.sorted).imp ne_of_lt

lemma nodup_ofTask (s : Store) (taskId : String) : ((s.ofTask taskId).map (·.id)).Nodup := by
  have hperm := ((s.items.filter (·.taskId = taskId)).perm_insertionSort
    fun d e => d.createdMs ≤ e.createdMs).map (·.id)
  refine hperm.nodup_iff.mpr ?_
  exact s.nodup_ids.sublist (List.filter_sublist.map _)

end Store

end Aeroric.Deliveries
