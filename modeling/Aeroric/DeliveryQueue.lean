import Mathlib.Data.Finset.Basic
import Aeroric.DeliveryItem
import Aeroric.TaskRecord
import Aeroric.Threads

/-! The delivery queue. Its operations are run by many threads: the callers', one for each hand-over
and one for each timeout. An instruction here is what a thread does under one lock, or one
question to the host. -/
namespace Aeroric.Deliveries

open TaskRecord (TaskStatus)

/-- What `DeliveryHost::send` answers. `ok true`: the driver will give a receipt. -/
inductive SendResult
  | ok (receipts : Bool)
  | err (reason : String)
  deriving DecidableEq

inductive DeliveryError
  | notFound
  | wrongState
  deriving DecidableEq

inductive Action
  | resume
  | discard
  | resend
  deriving DecidableEq

def Action.event : Action → Event
  | .resume => .resume
  | .discard => .discard
  | .resend => .resend

/-- What has happened, as far as the queue's own state does not show it any more. -/
inductive Entry
  | enqueued (id : String)
  /-- An event applied to an item that had been handed over so many times. -/
  | stepped (id : String) (attempts : ℕ) (event : Event)
  | called (id : String) (attempts : ℕ)
  | returned (id : String) (attempts : ℕ) (result : SendResult)
  /-- A driver's receipt, and the hand-over it is about. -/
  | heard (id : String) (attempt : ℕ) (outcome : ReceiptOutcome)
  | turnStarted (taskId : String)
  | replied (answer : Except DeliveryError Delivery)
  deriving DecidableEq

structure Queue where
  /-- Whether a host is attached. -/
  host : Bool
  store : Store
  noReceipt : Finset String
  inHand : Finset String
  diedInHand : Finset String
  /-- The newest first. -/
  log : List Entry

namespace Queue

def note (q : Queue) (e : Entry) : Queue := { q with log := e :: q.log }

/-- An item after an event goes back into the store. -/
def put (q : Queue) (d : Delivery) (event : Event) (d' : Delivery) : Queue :=
  { q with store := q.store.save d', log := .stepped d.id d.attempts event :: q.log }

/-- `change`: the item after the event, or `none` when there is none or it does not apply. -/
def change (q : Queue) (id : String) (event : Event) (now : ℕ) : Option (Delivery × Queue) :=
  match q.store.get id with
  | none => none
  | some d => (step d event now).map fun d' => (d', q.put d event d')

/-- The same for each of a list of items, those it does not apply to left as they are. -/
def changeAll (q : Queue) (event : Event) (now : ℕ) (items : List Delivery) : Queue :=
  items.foldl (fun q d => match step d event now with
    | some d' => q.put d event d'
    | none => q) q

/-- `change` where the answer does not matter. -/
def changed (q : Queue) (id : String) (event : Event) (now : ℕ) : Queue :=
  ((q.change id event now).map Prod.snd).getD q

/-- A process begins with the saved queue: what was out is unknown, and the user's own messages
wait for them. -/
def restart (q : Queue) (now : ℕ) : Queue :=
  let q : Queue := ⟨false, q.store.opened now, ∅, ∅, ∅, q.log⟩
  let q := q.changeAll (.lost none) now
    (q.store.items.filter fun d => d.state = .sending || d.state = .accepted)
  q.changeAll .restarted now ((q.store.inState .waiting).filter (·.kind = .user))

def empty : Queue := ⟨false, .empty, ∅, ∅, ∅, []⟩

end Queue

/-- What the outside answers to an instruction that asks it. -/
structure Answer where
  now : ℕ
  idle : Bool
  recorded : Option Bool
  result : SendResult

inductive Instr
  -- the calls from outside
  | enqueue (id taskId : String) (kind : DeliveryKind) (mode : DeliveryMode) (label text : String)
      (sourceRef : Option String)
  | pause (taskId : String)
  | act (id : String) (action : Action)
  | retryBlocked (which : String → Bool)
  | receipt (taskId id : String) (attempt : ℕ) (outcome : ReceiptOutcome) (reason : Option String)
  | turnStarted (taskId : String)
  | turnEnded (taskId : String)
  | status (taskId : String) (status : TaskStatus)
  | setHost
  | pump (taskId : String)
  -- what they go on with
  | applyAction (id : String) (action : Action)
  | started (id : String)
  | forget (id : String)
  | sessionFailed (taskId : String)
  | checkUnknown
  | pumpWaiting
  | choose (taskId : String) (idle : Bool)
  | take (next : Delivery)
  | watch (item : Delivery)
  | hold (item : Delivery)
  | spawn (item : Delivery)
  -- the thread of a hand-over
  | send (item : Delivery)
  | await (item : Delivery)
  | letGo (item : Delivery) (result : SendResult)
  | settle (item : Delivery) (result : SendResult)
  | withoutReceipt (item : Delivery)
  | outcome (item : Delivery) (event : Event)
  -- the thread of a timeout
  | timeout (item : Delivery)
  -- an answer that will not come
  | lose (item : Delivery) (reason : String)
  | checkRecord (id : String)
  | read (id : String)
  | look (item : Delivery)
  | record (id : String) (event : Event)

def nothing (q : Queue) : Effect Queue Instr := ⟨q, [], []⟩

def goOn (q : Queue) (next : List Instr) : Effect Queue Instr := ⟨q, next, []⟩

def isOut (d : Delivery) : Bool := d.state = .sending || d.state = .accepted

/-- Ours and "after this turn" wait for the turn to end. -/
def mayGo (idle : Bool) (d : Delivery) : Bool :=
  d.state = .waiting && (idle || (d.kind = .user && d.mode = .now))

def newItem (id taskId : String) (kind : DeliveryKind) (mode : DeliveryMode) (label text : String)
    (sourceRef : Option String) (created now : ℕ) : Delivery where
  id := id
  taskId := taskId
  kind := kind
  mode := mode
  label := label
  text := text
  state := .waiting
  attempts := 0
  reason := none
  evidence := none
  blocked := false
  sourceRef := sourceRef
  createdMs := created
  updatedMs := now

namespace Queue

/-- Something new for the session gives its failed items one more try. -/
def enqueue (q : Queue) (id taskId : String) (kind : DeliveryKind) (mode : DeliveryMode)
    (label text : String) (sourceRef : Option String) (now : ℕ) : Queue :=
  let q := q.changeAll .retry now (q.store.ofTask taskId)
  let item := newItem id taskId kind mode label text sourceRef (q.store.nextCreated now) now
  { q with store := q.store.save item, log := .enqueued id :: q.log }

/-- The items that are out when their session failed. One that is in hand is marked first, and
lost when it is marked already. -/
def sessionFailed (q : Queue) (taskId : String) : Queue × List Delivery :=
  let out := (q.store.ofTask taskId).filter isOut
  ({ q with diedInHand := q.diedInHand ∪ (out.filter (·.id ∈ q.inHand)).toFinset.image (·.id) },
    out.filter fun d => d.id ∉ q.inHand || d.id ∈ q.diedInHand)

end Queue

def exec (a : Answer) (q : Queue) : Instr → Effect Queue Instr
  | .enqueue id taskId kind mode label text sourceRef =>
    goOn (q.enqueue id taskId kind mode label text sourceRef a.now) [.pump taskId]
  | .pause taskId => nothing (q.changeAll .stop a.now (q.store.ofTask taskId))
  | .act id action =>
    if (q.store.get id).isNone then nothing (q.note (.replied (.error .notFound)))
    else goOn q [.applyAction id action]
  | .applyAction id action =>
    match q.change id action.event a.now with
    | none => nothing (q.note (.replied (.error .wrongState)))
    | some (item, q) =>
      goOn (q.note (.replied (.ok item)))
        (if item.state = .waiting then [.pump item.taskId] else [])
  | .retryBlocked which =>
    goOn q (((q.store.inState .failed).filter fun d => d.blocked && which d.taskId).map
      fun d => .act d.id .resend)
  | .receipt taskId id attempt outcome reason =>
    goOn ((q.note (.heard id attempt outcome)).changed id (.receipt outcome reason) a.now)
      (if outcome = .accepted then [] else [.pump taskId])
  | .turnStarted taskId =>
    goOn (q.note (.turnStarted taskId))
      (((q.store.ofTask taskId).filter fun d => d.state = .accepted && d.id ∈ q.noReceipt).flatMap
        fun d => [.started d.id, .forget d.id])
  | .started id => nothing (q.changed id .turnStarted a.now)
  | .forget id => nothing { q with noReceipt := q.noReceipt.erase id }
  | .turnEnded taskId => goOn q [.pump taskId]
  | .status taskId status =>
    goOn q ((if status = .failed then [.sessionFailed taskId] else []) ++
      if status = .running || status = .inputRequired then [] else [.pump taskId])
  | .sessionFailed taskId =>
    goOn (q.sessionFailed taskId).1
      ((q.sessionFailed taskId).2.flatMap fun d => [.forget d.id, .lose d sessionDied])
  | .setHost => goOn { q with host := true } [.checkUnknown, .pumpWaiting]
  | .checkUnknown =>
    goOn q (((q.store.inState .unknown).filter (·.reason.isNone)).map fun d => .checkRecord d.id)
  | .pumpWaiting =>
    goOn q ((((q.store.inState .waiting).map (·.taskId)).insertionSort (· ≤ ·)).dedup.map .pump)
  -- the host is looked for and then asked, with nothing in between that could matter
  | .pump taskId => if q.host then goOn q [.choose taskId a.idle] else nothing q
  | .choose taskId idle =>
    if (q.store.ofTask taskId).any (·.state = .sending) then nothing q
    else match (q.store.ofTask taskId).find? (mayGo idle) with
      | none => nothing q
      | some next => goOn q [.take next]
  | .take next =>
    match q.change next.id .send a.now with
    | none => nothing q
    | some (item, q) => goOn q [.watch item, .hold item, .spawn item]
  | .watch item => ⟨q, [], [[.timeout item]]⟩
  | .hold item => nothing { q with inHand := insert item.id q.inHand }
  | .spawn item => ⟨q, [], [[.send item]]⟩
  | .send item => goOn (q.note (.called item.id item.attempts)) [.await item]
  | .await item =>
    goOn (q.note (.returned item.id item.attempts a.result)) [.letGo item a.result]
  | .letGo item result => goOn { q with inHand := q.inHand.erase item.id } [.settle item result]
  | .settle item result =>
    goOn { q with diedInHand := q.diedInHand.erase item.id }
      (match result, decide (item.id ∈ q.diedInHand) with
        | .ok _, true => [.lose item sessionDied]
        | .ok true, false => []
        | .ok false, false =>
          [.withoutReceipt item, .outcome item (.receipt .accepted none), .pump item.taskId]
        | .err reason, _ =>
          [.outcome item (.sendFailed reason (userFixable reason)), .pump item.taskId])
  | .withoutReceipt item => nothing { q with noReceipt := insert item.id q.noReceipt }
  | .outcome item event => nothing (q.changed item.id event a.now)
  | .timeout item =>
    goOn q (if (q.store.get item.id).any fun d => d.state = .sending && d.attempts = item.attempts
      then [.lose item noAnswer] else [])
  | .lose item reason =>
    match q.change item.id (.lost (some reason)) a.now with
    | none => nothing q
    | some (d, q) => goOn q [.checkRecord item.id, .pump d.taskId]
  | .checkRecord id => if q.host then goOn q [.read id] else nothing q
  | .read id => goOn q (match q.store.get id with
    | none => []
    | some item => [.look item])
  | .look item => goOn q [.record item.id (match a.recorded with
    | some found => .recorded found
    | none => .unreadable)]
  | .record id event => nothing (q.changed id event a.now)

abbrev System := Threads Queue Instr

/-- The calls that other parts of the program make. -/
def Instr.isCall : Instr → Bool
  | .enqueue .. | .pause _ | .act .. | .retryBlocked _ | .receipt .. | .turnStarted _ | .turnEnded _
  | .status .. | .setHost | .pump _ => true
  | _ => false

def Instr.isFresh (q : Queue) : Instr → Bool
  | .enqueue id .. => .enqueued id ∉ q.log
  | _ => true

/-- A call begins, a thread takes an instruction that meets the condition, or the program is
started again. -/
inductive System.Step (Cond : System → Answer → Instr → Bool) : System → System → Prop
  | begins (S : System) {i : Instr} (h : i.isCall = true) : Step Cond S (S.begin [i])
  | takes {S S' : System} {a : Answer} {i : Instr} (hfresh : i.isFresh S.state = true)
      (hcond : Cond S a i = true) (h : Threads.Takes exec a i S S') : Step Cond S S'
  | restarts (S : System) (now : ℕ) : Step Cond S ⟨S.state.restart now, []⟩

def anyOrder (_ : System) (_ : Answer) (_ : Instr) : Bool := true

def System.boot : System := ⟨.empty, []⟩

/-- A step that is told: which call begins, or which thread goes on with which answer. -/
inductive Move
  | begins (i : Instr)
  | turn (n : ℕ) (a : Answer)
  | restarts (now : ℕ)

def System.move (S : System) : Move → System
  | .begins i => S.begin [i]
  | .turn n a => S.turn exec n a
  | .restarts now => ⟨S.state.restart now, []⟩

def System.allows (Cond : System → Answer → Instr → Bool) (S : System) : Move → Bool
  | .begins i => i.isCall
  | .turn n a => (S.head n).any fun i => i.isFresh S.state && Cond S a i
  | .restarts _ => true

def System.follow (S : System) (moves : List Move) : System := moves.foldl System.move S

def System.canFollow (Cond : System → Answer → Instr → Bool) (S : System) : List Move → Bool
  | [] => true
  | m :: moves => S.allows Cond m && (S.move m).canFollow Cond moves

lemma follow_steps {Cond : System → Answer → Instr → Bool} {S : System} {moves : List Move}
    (h : S.canFollow Cond moves = true) :
    Relation.ReflTransGen (System.Step Cond) S (S.follow moves) := by
  induction moves generalizing S with
  | nil => exact .refl
  | cons m moves ih =>
    rw [System.canFollow, Bool.and_eq_true] at h
    refine .head ?_ (ih h.2)
    cases m with
    | begins i => exact .begins S h.1
    | turn n a =>
      have hok := h.1
      unfold System.allows at hok
      dsimp only at hok
      cases hi : S.head n with
      | none => simp [hi] at hok
      | some i =>
        rw [hi, Option.any_some, Bool.and_eq_true] at hok
        exact .takes hok.1 hok.2 (Threads.turn_takes hi)
    | restarts now => exact .restarts S now

def Instr.Makes (d : Delivery) (event : Event) : Instr → Prop
  | .enqueue _ taskId .. => d.taskId = taskId ∧ event = .retry
  | .pause taskId => d.taskId = taskId ∧ event = .stop
  | .applyAction id action => d.id = id ∧ event = action.event
  | .receipt _ id _ result reason => d.id = id ∧ event = .receipt result reason
  | .started id => d.id = id ∧ event = .turnStarted
  | .take next => d.id = next.id ∧ event = .send
  | .outcome item e => d.id = item.id ∧ event = e
  | .lose item reason => d.id = item.id ∧ event = .lost (some reason)
  | .record id e => d.id = id ∧ event = e
  | _ => False

def Instr.Notes (a : Answer) (e : Entry) : Instr → Prop
  | .act .. | .applyAction .. => ∃ answer, e = .replied answer
  | .receipt _ id attempt result _ => e = .heard id attempt result
  | .turnStarted taskId => e = .turnStarted taskId
  | .send item => e = .called item.id item.attempts
  | .await item => e = .returned item.id item.attempts a.result
  | _ => False

/-- One change of the store and the log: an event applied to an item, a new item, a note; or only
the marks beside them change. -/
inductive Edit (Makes : Delivery → Event → Prop) (Adds : Delivery → Prop) (Notes : Entry → Prop) :
    Queue → Queue → Prop
  | put {q : Queue} {d d' : Delivery} {event : Event} {now : ℕ} (hget : q.store.get d.id = some d)
      (hmakes : Makes d event) (hstep : step d event now = some d') :
      Edit Makes Adds Notes q (q.put d event d')
  | add {q : Queue} {item : Delivery} (hadds : Adds item) : Edit Makes Adds Notes q
      { q with store := q.store.save item, log := .enqueued item.id :: q.log }
  | note {q : Queue} {e : Entry} (hnotes : Notes e) : Edit Makes Adds Notes q (q.note e)
  | marks {q q' : Queue} (hstore : q'.store = q.store) (hlog : q'.log = q.log) :
      Edit Makes Adds Notes q q'

def Instr.Adds (item : Delivery) : Instr → Prop
  | .enqueue id taskId kind mode label text sourceRef =>
    ∃ created now, item = newItem id taskId kind mode label text sourceRef created now
  | _ => False

/-- Chains of the edits of an instruction; the items it changes are those it found. -/
abbrev Edits (a : Answer) (i : Instr) (q : Queue) : Queue → Prop :=
  Relation.ReflTransGen (Edit (fun d e => q.store.get d.id = some d ∧ i.Makes d e)
    (fun d => i.Adds d) fun e => i.Notes a e) q

section Edits
variable {Makes : Delivery → Event → Prop} {Adds : Delivery → Prop} {Notes : Entry → Prop}
  {q q' : Queue} {a : Answer} {i : Instr} {event : Event} {now : ℕ} {id : String}

lemma change_some {d' : Delivery} (h : q.change id event now = some (d', q')) :
    ∃ d, q.store.get id = some d ∧ step d event now = some d' ∧ q' = q.put d event d' := by
  unfold Queue.change at h
  cases hget : q.store.get id with
  | none => simp [hget] at h
  | some d =>
    rw [hget] at h
    obtain ⟨d'', hstep, heq⟩ := Option.map_eq_some_iff.mp h
    obtain ⟨rfl, rfl⟩ := Prod.mk.inj heq
    exact ⟨d, rfl, hstep, rfl⟩

lemma change_edit {d' : Delivery} (h : q.change id event now = some (d', q'))
    (hmakes : ∀ d, q.store.get d.id = some d → d.id = id → Makes d event) :
    Edit Makes Adds Notes q q' := by
  obtain ⟨d, hget, hstep, rfl⟩ := change_some h
  have hid := Store.get_id hget
  rw [← hid] at hget
  exact .put hget (hmakes d hget hid) hstep

lemma changed_edits (hmakes : ∀ d, q.store.get d.id = some d → d.id = id → Makes d event) :
    Relation.ReflTransGen (Edit Makes Adds Notes) q (q.changed id event now) := by
  unfold Queue.changed
  cases h : q.change id event now with
  | none => exact .refl
  | some r => exact .single (change_edit h hmakes)

lemma get_put {d d' : Delivery} (hstep : step d event now = some d') (k : String) :
    (q.put d event d').store.get k = if k = d.id then some d' else q.store.get k := by
  rw [← (step_same hstep).1]
  exact Store.get_save _ _ _

lemma changeAll_edits (items : List Delivery) (hget : ∀ d ∈ items, q.store.get d.id = some d)
    (hids : (items.map (·.id)).Nodup) (hmakes : ∀ d ∈ items, Makes d event) :
    Relation.ReflTransGen (Edit Makes Adds Notes) q (q.changeAll event now items) := by
  unfold Queue.changeAll
  induction items generalizing q with
  | nil => exact .refl
  | cons d items ih =>
    obtain ⟨hd, hids⟩ := List.nodup_cons.mp hids
    have hrest : ∀ e ∈ items, Makes e event := fun e he => hmakes e (List.mem_cons_of_mem _ he)
    rw [List.foldl_cons]
    cases hstep : step d event now with
    | none => exact ih (fun e he => hget e (List.mem_cons_of_mem _ he)) hids hrest
    | some d' =>
      refine .head (.put (hget d List.mem_cons_self) (hmakes d List.mem_cons_self) hstep)
        (ih (fun e he => ?_) hids hrest)
      have hne : e.id ≠ d.id := fun h => hd (List.mem_map.mpr ⟨e, he, h⟩)
      rw [get_put hstep, if_neg hne]
      exact hget e (List.mem_cons_of_mem _ he)

lemma get_changeAll (items : List Delivery) (hget : ∀ d ∈ items, q.store.get d.id = some d)
    (hids : (items.map (·.id)).Nodup) (k : String) :
    (q.changeAll event now items).store.get k =
      (q.store.get k).map fun d => if d ∈ items then (step d event now).getD d else d := by
  unfold Queue.changeAll
  induction items generalizing q with
  | nil => simp
  | cons d items ih =>
    obtain ⟨hd, hids⟩ := List.nodup_cons.mp hids
    have hother : ∀ e, e ∈ items → e.id ≠ d.id := fun e he h => hd (List.mem_map.mpr ⟨e, he, h⟩)
    have hnext : ∀ q1 : Queue, (∀ k, q1.store.get k = if k = d.id
        then some ((step d event now).getD d) else q.store.get k) → (items.foldl (fun q d =>
        match step d event now with
        | some d' => q.put d event d'
        | none => q) q1).store.get k = (q.store.get k).map fun e =>
          if e ∈ d :: items then (step e event now).getD e else e := by
      intro q1 hq1
      have hrest : ∀ e ∈ items, q1.store.get e.id = some e := by
        intro e he
        rw [hq1, if_neg (hother e he)]
        exact hget e (List.mem_cons_of_mem _ he)
      rw [ih hrest hids, hq1]
      by_cases hk : k = d.id
      · have hid : ((step d event now).getD d).id = d.id := by
          cases hstep : step d event now with
          | none => rfl
          | some d' => exact (step_same hstep).1
        have hnew : (step d event now).getD d ∉ items := fun he => hother _ he hid
        simp [hk, hnew, hget d List.mem_cons_self]
      · rw [if_neg hk]
        cases hqk : q.store.get k with
        | none => rfl
        | some e =>
          have hne : e ≠ d := fun h => hk (by rw [← Store.get_id hqk, h])
          simp [hne]
    rw [List.foldl_cons]
    cases hstep : step d event now with
    | some d' => exact hnext _ fun k => by rw [get_put hstep, hstep]; rfl
    | none =>
      refine hnext _ fun k => ?_
      dsimp only
      by_cases hk : k = d.id
      · rw [if_pos hk, hk, hget d List.mem_cons_self, hstep]
        rfl
      · rw [if_neg hk]

lemma changeAll_beside (items : List Delivery) :
    ∃ store log, q.changeAll event now items = { q with store := store, log := log } := by
  unfold Queue.changeAll
  induction items generalizing q with
  | nil => exact ⟨q.store, q.log, rfl⟩
  | cons d items ih =>
    rw [List.foldl_cons]
    cases step d event now with
    | none => exact ih
    | some d' =>
      obtain ⟨store, log, h⟩ := ih (q := q.put d event d')
      exact ⟨store, log, h⟩

lemma changed_beside : ∃ store log, q.changed id event now = { q with store := store, log := log } := by
  unfold Queue.changed
  cases h : q.change id event now with
  | none => exact ⟨q.store, q.log, rfl⟩
  | some r =>
    obtain ⟨d, -, -, hq⟩ := change_some h
    exact ⟨_, _, hq⟩

lemma nodup_filter (s : Store) (p : Delivery → Bool) : ((s.items.filter p).map (·.id)).Nodup :=
  s.nodup_ids.sublist (List.filter_sublist.map _)

lemma get_changeAll_filter (p : Delivery → Bool) (k : String) :
    (q.changeAll event now (q.store.items.filter p)).store.get k =
      (q.store.get k).map fun d => if p d = true then (step d event now).getD d else d := by
  rw [get_changeAll _ (fun d hd => Store.get_of_mem (List.mem_of_mem_filter hd))
    (nodup_filter q.store p)]
  refine Option.map_congr fun d hd => ?_
  simp [List.mem_filter, Store.mem_of_get hd]

lemma get_changeAll_ofTask (taskId : String) (k : String) :
    (q.changeAll event now (q.store.ofTask taskId)).store.get k =
      (q.store.get k).map fun d => if d.taskId = taskId then (step d event now).getD d else d := by
  rw [get_changeAll _ (fun d hd => (Store.mem_ofTask.mp hd).1) (q.store.nodup_ofTask taskId)]
  refine Option.map_congr fun d hd => ?_
  simp [Store.mem_ofTask, Store.get_of_mem (Store.mem_of_get hd)]

lemma note_edits {e : Entry} (h : Notes e) :
    Relation.ReflTransGen (Edit Makes Adds Notes) q (q.note e) := .single (.note h)

lemma marks_edits (hstore : q'.store = q.store) (hlog : q'.log = q.log) :
    Relation.ReflTransGen (Edit Makes Adds Notes) q q' := .single (.marks hstore hlog)

/-- Whatever an instruction does to the store and the log is a chain of its edits. -/
lemma exec_edits (a : Answer) (q : Queue) (i : Instr) : Edits a i q (exec a q i).state := by
  have ofTask : ∀ (taskId : String) (event : Event), (∀ d : Delivery, d.taskId = taskId →
      i.Makes d event) → Edits a i q (q.changeAll event a.now (q.store.ofTask taskId)) := by
    intro taskId event hmakes
    refine changeAll_edits _ (fun d hd => (Store.mem_ofTask.mp hd).1) (q.store.nodup_ofTask taskId)
      fun d hd => ⟨(Store.mem_ofTask.mp hd).1, hmakes d (Store.mem_ofTask.mp hd).2⟩
  cases i with
  | enqueue id taskId kind mode label text sourceRef =>
    exact (ofTask taskId .retry fun d hd => ⟨hd, rfl⟩).tail (.add ⟨_, _, rfl⟩)
  | pause taskId => exact ofTask taskId .stop fun d hd => ⟨hd, rfl⟩
  | act id action =>
    unfold exec
    dsimp only
    split
    · exact note_edits ⟨_, rfl⟩
    · exact .refl
  | applyAction id action =>
    unfold exec
    dsimp only
    split
    · exact note_edits ⟨_, rfl⟩
    · next h => exact .head (change_edit h fun d hget hd => ⟨hget, hd, rfl⟩) (note_edits ⟨_, rfl⟩)
  | receipt taskId id attempt outcome reason =>
    exact .head (.note rfl) (changed_edits fun d hget hd => ⟨hget, hd, rfl⟩)
  | turnStarted taskId => exact note_edits rfl
  | started id => exact changed_edits fun d hget hd => ⟨hget, hd, rfl⟩
  | take next =>
    unfold exec
    dsimp only
    split
    · exact .refl
    · next h => exact .single (change_edit h fun d hget hd => ⟨hget, hd, rfl⟩)
  | send item => exact note_edits rfl
  | await item => exact note_edits rfl
  | outcome item event => exact changed_edits fun d hget hd => ⟨hget, hd, rfl⟩
  | lose item reason =>
    unfold exec
    dsimp only
    split
    · exact .refl
    · next h => exact .single (change_edit h fun d hget hd => ⟨hget, hd, rfl⟩)
  | record id event => exact changed_edits fun d hget hd => ⟨hget, hd, rfl⟩
  | sessionFailed | setHost | forget | hold | letGo | settle | withoutReceipt =>
    exact marks_edits rfl rfl
  | retryBlocked | turnEnded | status | checkUnknown | pumpWaiting | watch | spawn | timeout | read
  | look => exact .refl
  | pump | checkRecord =>
    unfold exec
    dsimp only
    split <;> exact .refl
  | choose =>
    unfold exec
    dsimp only
    split
    · exact .refl
    split <;> exact .refl

end Edits

variable {Makes : Delivery → Event → Prop} {Notes : Entry → Prop}

lemma edits_all {Adds P : Delivery → Prop}
    {q q' : Queue} (h : Relation.ReflTransGen (Edit Makes Adds Notes) q q')
    (hput : ∀ d event now d', Makes d event → P d → step d event now = some d' → P d')
    (hadd : ∀ d, Adds d → P d) (hq : ∀ k d, q.store.get k = some d → P d) :
    ∀ k d, q'.store.get k = some d → P d := by
  induction h with
  | refl => exact hq
  | tail _ hedit ih =>
    intro k d hget
    cases hedit with
    | put hget' hmakes hstep =>
      rw [get_put hstep] at hget
      split at hget
      · exact Option.some.inj hget ▸ hput _ _ _ _ hmakes (ih _ _ hget') hstep
      · exact ih k d hget
    | add hadds =>
      rw [Store.get_save] at hget
      split at hget
      · exact Option.some.inj hget ▸ hadd _ hadds
      · exact ih k d hget
    | note => exact ih k d hget
    | marks hstore =>
      rw [hstore] at hget
      exact ih k d hget

lemma edits_log_suffix {Adds : Delivery → Prop} {q q' : Queue}
    (h : Relation.ReflTransGen (Edit Makes Adds Notes) q q') : q.log <:+ q'.log := by
  induction h with
  | refl => exact List.suffix_rfl
  | tail _ hedit ih =>
    cases hedit with
    | put | add | note => exact ih.trans (List.suffix_cons _ _)
    | marks _ hlog => rwa [hlog]

def ItemStep (Makes : Delivery → Event → Prop) (d d' : Delivery) : Prop :=
  ∃ event now, Makes d event ∧ step d event now = some d'

abbrev ItemSteps (i : Instr) : Delivery → Delivery → Prop :=
  Relation.ReflTransGen (ItemStep fun d event => i.Makes d event)

lemma items_same {d d' : Delivery}
    (h : Relation.ReflTransGen (ItemStep Makes) d d') : d'.id = d.id ∧ d'.taskId = d.taskId ∧
      d'.kind = d.kind ∧ d'.mode = d.mode ∧ d'.text = d.text ∧ d'.createdMs = d.createdMs := by
  induction h with
  | refl => exact ⟨rfl, rfl, rfl, rfl, rfl, rfl⟩
  | tail _ hstep ih =>
    obtain ⟨event, now, -, hstep⟩ := hstep
    obtain ⟨h1, h2, h3, h4, h5, h6⟩ := step_same hstep
    exact ⟨h1.trans ih.1, h2.trans ih.2.1, h3.trans ih.2.2.1, h4.trans ih.2.2.2.1,
      h5.trans ih.2.2.2.2.1, h6.trans ih.2.2.2.2.2⟩

/-- What a chain of edits makes of the item with an id that it does not add. -/
lemma edits_item {Adds : Delivery → Prop}
    {q q' : Queue} {id : String} (h : Relation.ReflTransGen (Edit Makes Adds Notes) q q')
    (hadds : ∀ d, Adds d → d.id ≠ id) :
    (q.store.get id = none → q'.store.get id = none) ∧ ∀ d, q.store.get id = some d →
      ∃ d', q'.store.get id = some d' ∧ Relation.ReflTransGen (ItemStep Makes) d d' := by
  induction h with
  | refl => exact ⟨fun h => h, fun d h => ⟨d, h, .refl⟩⟩
  | tail _ hedit ih =>
    cases hedit with
    | @put d1 d2 event now hget hmakes hstep =>
      simp only [get_put hstep]
      by_cases hid : id = d1.id
      · subst hid
        simp only [if_true]
        refine ⟨fun hnone => ?_, fun d hd => ?_⟩
        · cases (ih.1 hnone).symm.trans hget
        · obtain ⟨d', hd', hsteps⟩ := ih.2 d hd
          obtain rfl := Option.some.inj (hget.symm.trans hd')
          exact ⟨d2, rfl, hsteps.tail ⟨event, now, hmakes, hstep⟩⟩
      · simp only [if_neg hid]
        exact ih
    | @add item hadd =>
      have hne : id ≠ item.id := (hadds item hadd).symm
      simp only [Store.get_save, if_neg hne]
      exact ih
    | note => exact ih
    | marks hstore =>
      rw [hstore]
      exact ih

/-- What an instruction can go on with, in its own thread or in one that it starts, and what it has
found then. -/
inductive Follows (a : Answer) (q : Queue) : Instr → Instr → Prop
  | enqueue {id taskId : String} {kind : DeliveryKind} {mode : DeliveryMode} {label text : String}
      {sourceRef : Option String} :
      Follows a q (.enqueue id taskId kind mode label text sourceRef) (.pump taskId)
  | act {id : String} {action : Action} : Follows a q (.act id action) (.applyAction id action)
  | acted {id : String} {action : Action} {item : Delivery} {q' : Queue}
      (h : q.change id action.event a.now = some (item, q')) (hw : item.state = .waiting) :
      Follows a q (.applyAction id action) (.pump item.taskId)
  | retryBlocked {which : String → Bool} {id : String} :
      Follows a q (.retryBlocked which) (.act id .resend)
  | receipt {taskId id : String} {attempt : ℕ} {outcome : ReceiptOutcome} {reason : Option String}
      (h : outcome ≠ .accepted) :
      Follows a q (.receipt taskId id attempt outcome reason) (.pump taskId)
  | started {taskId : String} {d : Delivery} (hget : q.store.get d.id = some d)
      (htask : d.taskId = taskId) (hs : d.state = .accepted) (hn : d.id ∈ q.noReceipt) :
      Follows a q (.turnStarted taskId) (.started d.id)
  | startedForget {taskId id : String} : Follows a q (.turnStarted taskId) (.forget id)
  | turnEnded {taskId : String} : Follows a q (.turnEnded taskId) (.pump taskId)
  | failedStatus {taskId : String} :
      Follows a q (.status taskId .failed) (.sessionFailed taskId)
  | settledStatus {taskId : String} {status : TaskStatus} :
      Follows a q (.status taskId status) (.pump taskId)
  | failedForget {taskId id : String} : Follows a q (.sessionFailed taskId) (.forget id)
  | failedLose {taskId : String} {d : Delivery} (hget : q.store.get d.id = some d) :
      Follows a q (.sessionFailed taskId) (.lose d sessionDied)
  | hostUnknown : Follows a q .setHost .checkUnknown
  | hostWaiting : Follows a q .setHost .pumpWaiting
  | checkUnknown {id : String} : Follows a q .checkUnknown (.checkRecord id)
  | pumpWaiting {taskId : String} : Follows a q .pumpWaiting (.pump taskId)
  | pump {taskId : String} (hhost : q.host = true) :
      Follows a q (.pump taskId) (.choose taskId a.idle)
  | choose {taskId : String} {idle : Bool} {next : Delivery}
      (hnone : ¬ (q.store.ofTask taskId).any (·.state = .sending))
      (hnext : (q.store.ofTask taskId).find? (mayGo idle) = some next) :
      Follows a q (.choose taskId idle) (.take next)
  | taken {next item : Delivery} {q' : Queue} {j : Instr}
      (h : q.change next.id .send a.now = some (item, q'))
      (hj : j = .watch item ∨ j = .hold item ∨ j = .spawn item) : Follows a q (.take next) j
  | watch {item : Delivery} : Follows a q (.watch item) (.timeout item)
  | spawn {item : Delivery} : Follows a q (.spawn item) (.send item)
  | send {item : Delivery} : Follows a q (.send item) (.await item)
  | await {item : Delivery} : Follows a q (.await item) (.letGo item a.result)
  | letGo {item : Delivery} {result : SendResult} :
      Follows a q (.letGo item result) (.settle item result)
  | died {item : Delivery} {receipts : Bool} :
      Follows a q (.settle item (.ok receipts)) (.lose item sessionDied)
  | accepted {item : Delivery} {j : Instr} (hj : j = .withoutReceipt item ∨
      j = .outcome item (.receipt .accepted none) ∨ j = .pump item.taskId) :
      Follows a q (.settle item (.ok false)) j
  | failed {item : Delivery} {reason : String} {j : Instr}
      (hj : j = .outcome item (.sendFailed reason (userFixable reason)) ∨ j = .pump item.taskId) :
      Follows a q (.settle item (.err reason)) j
  | late {item d : Delivery} (hget : q.store.get item.id = some d)
      (hatt : d.attempts = item.attempts) : Follows a q (.timeout item) (.lose item noAnswer)
  | lost {item d : Delivery} {reason : String} {q' : Queue} {j : Instr}
      (h : q.change item.id (.lost (some reason)) a.now = some (d, q'))
      (hj : j = .checkRecord item.id ∨ j = .pump d.taskId) : Follows a q (.lose item reason) j
  | checkRecord {id : String} : Follows a q (.checkRecord id) (.read id)
  | read {id : String} {item : Delivery} (hget : q.store.get id = some item) :
      Follows a q (.read id) (.look item)
  | found {item : Delivery} {b : Bool} (hb : a.recorded = some b) :
      Follows a q (.look item) (.record item.id (.recorded b))
  | unread {item : Delivery} : Follows a q (.look item) (.record item.id .unreadable)

section Follows
variable {a : Answer} {q : Queue} {i j : Instr}

lemma exec_follows (hj : j ∈ (exec a q i).next ∨ ∃ t ∈ (exec a q i).spawned, j ∈ t) :
    Follows a q i j := by
  cases i with
  | enqueue | turnEnded | spawn | watch | send | await | letGo =>
    simp only [exec, goOn, List.mem_cons, List.not_mem_nil, or_false, false_and, exists_false,
      exists_eq_left, false_or] at hj
    subst hj
    constructor
  | act id action =>
    simp only [exec] at hj
    split at hj <;> simp only [goOn, nothing, List.mem_cons, List.not_mem_nil, or_false, false_and,
      exists_false] at hj
    subst hj
    exact .act
  | applyAction id action =>
    simp only [exec] at hj
    split at hj
    · simp [nothing] at hj
    · next item q' h =>
      simp only [goOn, List.not_mem_nil, false_and, exists_false, or_false] at hj
      split at hj
      · next hw => exact List.mem_singleton.mp hj ▸ .acted h hw
      · cases hj
  | retryBlocked which =>
    simp only [exec, goOn, List.mem_map, List.not_mem_nil, false_and, exists_false, or_false] at hj
    obtain ⟨d, -, rfl⟩ := hj
    exact .retryBlocked
  | receipt taskId id attempt outcome reason =>
    simp only [exec, goOn, List.not_mem_nil, false_and, exists_false, or_false] at hj
    split at hj
    · cases hj
    · next h => exact List.mem_singleton.mp hj ▸ .receipt h
  | turnStarted taskId =>
    simp only [exec, goOn, List.mem_flatMap, List.mem_cons, List.not_mem_nil, or_false, false_and,
      exists_false] at hj
    obtain ⟨d, hd, rfl | rfl⟩ := hj
    · obtain ⟨hmem, hok⟩ := List.mem_filter.mp hd
      obtain ⟨hget, htask⟩ := Store.mem_ofTask.mp hmem
      simp only [Bool.and_eq_true, decide_eq_true_eq] at hok
      exact .started hget htask hok.1 hok.2
    · exact .startedForget
  | status taskId status =>
    simp only [exec, goOn, List.mem_append, List.not_mem_nil, false_and, exists_false,
      or_false] at hj
    rcases hj with hj | hj <;> split at hj
    · next h =>
      subst h
      exact List.mem_singleton.mp hj ▸ .failedStatus
    · cases hj
    · cases hj
    · exact List.mem_singleton.mp hj ▸ .settledStatus
  | sessionFailed taskId =>
    simp only [exec, goOn, List.mem_flatMap, List.mem_cons, List.not_mem_nil, or_false, false_and,
      exists_false] at hj
    obtain ⟨d, hd, rfl | rfl⟩ := hj
    · exact .failedForget
    · exact .failedLose (Store.mem_ofTask.mp (List.mem_of_mem_filter (List.mem_of_mem_filter hd))).1
  | setHost =>
    simp only [exec, goOn, List.mem_cons, List.not_mem_nil, or_false, false_and, exists_false] at hj
    rcases hj with rfl | rfl
    · exact .hostUnknown
    · exact .hostWaiting
  | checkUnknown =>
    simp only [exec, goOn, List.mem_map, List.not_mem_nil, false_and, exists_false, or_false] at hj
    obtain ⟨d, -, rfl⟩ := hj
    exact .checkUnknown
  | pumpWaiting =>
    simp only [exec, goOn, List.mem_map, List.not_mem_nil, false_and, exists_false, or_false] at hj
    obtain ⟨taskId, -, rfl⟩ := hj
    exact .pumpWaiting
  | pump taskId =>
    simp only [exec] at hj
    split at hj <;> simp only [goOn, nothing, List.mem_cons, List.not_mem_nil, or_false, false_and,
      exists_false] at hj
    next hhost => exact hj ▸ .pump hhost
  | choose taskId idle =>
    simp only [exec] at hj
    split at hj
    · simp [nothing] at hj
    next hnone =>
    split at hj
    · simp [nothing] at hj
    next next hnext =>
    simp only [goOn, List.mem_cons, List.not_mem_nil, or_false, false_and, exists_false] at hj
    exact hj ▸ .choose hnone hnext
  | take next =>
    simp only [exec] at hj
    split at hj
    · simp [nothing] at hj
    · next item q' h =>
      simp only [goOn, List.mem_cons, List.not_mem_nil, or_false, false_and, exists_false] at hj
      exact .taken h hj
  | settle item result =>
    simp only [exec, goOn, List.not_mem_nil, false_and, exists_false, or_false] at hj
    split at hj <;> simp only [List.mem_cons, List.not_mem_nil, or_false] at hj
    · exact hj ▸ .died
    · exact .accepted hj
    · exact .failed hj
  | timeout item =>
    simp only [exec, goOn, List.not_mem_nil, false_and, exists_false, or_false] at hj
    split at hj
    · next h =>
      obtain rfl := List.mem_singleton.mp hj
      cases hget : q.store.get item.id with
      | none => simp [hget] at h
      | some d =>
        simp only [hget, Option.any_some, Bool.and_eq_true, decide_eq_true_eq] at h
        exact .late hget h.2
    · cases hj
  | lose item reason =>
    simp only [exec] at hj
    split at hj
    · simp [nothing] at hj
    · next d q' h =>
      simp only [goOn, List.mem_cons, List.not_mem_nil, or_false, false_and, exists_false] at hj
      exact .lost h hj
  | checkRecord id =>
    simp only [exec] at hj
    split at hj <;> simp only [goOn, nothing, List.mem_cons, List.not_mem_nil, or_false, false_and,
      exists_false] at hj
    exact hj ▸ .checkRecord
  | read id =>
    simp only [exec, goOn, List.not_mem_nil, false_and, exists_false, or_false] at hj
    split at hj
    · cases hj
    · next item hget => exact List.mem_singleton.mp hj ▸ .read hget
  | look item =>
    simp only [exec, goOn, List.mem_cons, List.not_mem_nil, or_false, false_and, exists_false] at hj
    subst hj
    cases h : a.recorded with
    | none => exact .unread
    | some b => exact .found h
  | _ => simp [exec, nothing] at hj

end Follows

/-- What a restart starts from: the saved items that are kept. -/
def Queue.reopened (q : Queue) (now : ℕ) : Queue := ⟨false, q.store.opened now, ∅, ∅, ∅, q.log⟩

def RestartMakes (d : Delivery) (event : Event) : Prop :=
  (isOut d = true ∧ event = .lost none) ∨ (d.state = .waiting ∧ d.kind = .user ∧ event = .restarted)

lemma restart_edits (q : Queue) (now : ℕ) :
    Relation.ReflTransGen (Edit RestartMakes (fun _ => False) fun _ => False)
      (q.reopened now) (q.restart now) := by
  unfold Queue.restart
  dsimp only
  refine .trans (changeAll_edits _ (fun d hd => ?_) (nodup_filter _ _) fun d hd => ?_)
    (changeAll_edits _ (fun d hd => ?_) ?_ fun d hd => ?_)
  · exact Store.get_of_mem (List.mem_of_mem_filter hd)
  · exact .inl ⟨(List.mem_filter.mp hd).2, rfl⟩
  · exact (Store.mem_inState.mp (List.mem_of_mem_filter hd)).1
  · unfold Store.inState
    rw [List.filter_filter]
    exact nodup_filter _ _
  · refine .inr ⟨(Store.mem_inState.mp (List.mem_of_mem_filter hd)).2, ?_, rfl⟩
    simpa using (List.mem_filter.mp hd).2

lemma step_lost {d : Delivery} (h : isOut d = true) (reason : Option String) (now : ℕ) :
    ∃ d', step d (.lost reason) now = some d' ∧ d'.state = .unknown := by
  obtain ⟨_, _, _, _, _, _, state⟩ := d
  cases state <;> first | exact ⟨_, rfl, rfl⟩ | cases h

lemma step_restarted {d d' : Delivery} {now : ℕ} (h : step d .restarted now = some d') :
    d'.state = .paused := by
  have hmoves := step_moves h
  generalize d.state = s, d'.state = s' at hmoves ⊢
  cases hmoves
  rfl

lemma restart_isOut {q : Queue} {now : ℕ} {id : String} {d : Delivery}
    (h : (q.restart now).store.get id = some d) : isOut d = false := by
  unfold Queue.restart Store.inState at h
  dsimp only at h
  rw [List.filter_filter, get_changeAll_filter] at h
  obtain ⟨d1, hd1, rfl⟩ := Option.map_eq_some_iff.mp h
  have hout : isOut d1 = false := by
    have hlost : ((q.reopened now).changeAll (.lost none) now
        ((q.reopened now).store.items.filter isOut)).store.get id = some d1 := hd1
    rw [get_changeAll_filter] at hlost
    obtain ⟨d0, -, rfl⟩ := Option.map_eq_some_iff.mp hlost
    split
    · next hd0 =>
      obtain ⟨d', hstep, hs⟩ := step_lost hd0 none now
      simp [hstep, isOut, hs]
    · next hd0 => simpa using hd0
  split
  · cases hstep : step d1 .restarted now with
    | none => exact hout
    | some d' =>
      simp [isOut, step_restarted hstep]
  · exact hout

lemma get_opened {s : Store} {now : ℕ} {id : String} {d : Delivery}
    (h : (s.opened now).get id = some d) : s.get id = some d := by
  have hmem := List.mem_of_mem_filter (Store.mem_of_get h)
  have hid := Store.get_id h
  rw [← hid]
  exact Store.get_of_mem hmem

end Aeroric.Deliveries
