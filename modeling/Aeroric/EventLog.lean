import Aeroric.Json
import Aeroric.Table
import Mathlib.Algebra.Order.Group.Nat
import Mathlib.Data.List.Induction

/-! The log of events: a ring that numbers them, the pollers that follow it, and the clients that
merge what they fetch with what is pushed to them. -/
namespace Aeroric.Events
open Json (Value)

def maxEntries : ℕ := 512

structure LoggedEvent where
  seq : ℕ
  event : String
  data : Value

structure EventLog where
  nextSeq : ℕ
  entries : List LoggedEvent
  evicted : ℕ

/-- The answer to a poll. -/
structure Batch where
  events : List LoggedEvent
  latestSeq : ℕ
  reset : Bool

namespace EventLog

def append (event : String) (data : Value) (log : EventLog) : ℕ × EventLog :=
  let seq := log.nextSeq + 1
  let kept := if maxEntries ≤ log.entries.length then
      { log with entries := log.entries.tail, evicted := log.evicted + 1 }
    else log
  (seq, { kept with nextSeq := seq, entries := kept.entries ++ [⟨seq, event, data⟩] })

def since (after : ℕ) (log : EventLog) : Batch :=
  let latest := log.nextSeq
  if latest ≤ after then ⟨[], latest, false⟩
  else
    let oldest := log.evicted + 1
    if after + 1 < oldest then ⟨[], latest, true⟩
    else ⟨log.entries.filter fun entry => after < entry.seq, latest, false⟩

end EventLog

/-! Polling. -/

def topicTranslations : List (String × String) :=
  [("dbx.transfer_progress", "dbx-transfer-progress"),
    ("notebook.rag_index_progress", "notebook-rag-index-progress")]

def windowChannel (event : String) : Option String :=
  match topicTranslations.find? fun translation => translation.1 = event with
  | some (_, channel) => some channel
  | none => if event.toList.contains '.' then none else some event

/-- What the windows have got, and what could not be delivered. -/
structure Sink where
  emitted : List (String × Value)
  skipped : List String

def deliver (events : List LoggedEvent) (sink : Sink) : Sink :=
  events.foldl (fun sink event =>
    match windowChannel event.event with
    | none => { sink with skipped := sink.skipped ++ [event.event] }
    | some channel => { sink with emitted := sink.emitted ++ [(channel, event.data)] }) sink

/-- A poller, with the events it received since it began, or since the last reset. -/
structure Poller where
  cursor : ℕ
  sink : Sink
  /-- The cursor from which it has missed nothing. -/
  base : ℕ
  received : List LoggedEvent

def Poller.pollOnce (log : EventLog) (poller : Poller) : Poller :=
  let batch := log.since poller.cursor
  let sink := deliver batch.events poller.sink
  if batch.reset then
    { poller with
      cursor := batch.latestSeq
      sink := { sink with skipped := sink.skipped ++ ["events-reset"] }
      base := batch.latestSeq
      received := [] }
  else
    { poller with
      cursor := batch.latestSeq
      sink := sink
      received := poller.received ++ batch.events }

/-! Merging. -/

structure SnapshotDecision where
  watermark : ℕ
  needsFullRefresh : Bool

namespace SnapshotDecision

def at_ (watermark : ℕ) : SnapshotDecision := ⟨watermark, false⟩

def applyBackfill (batch : Batch) (snapshot : SnapshotDecision) : SnapshotDecision :=
  if batch.reset then ⟨batch.latestSeq, true⟩
  else
    batch.events.foldl (fun snapshot event =>
      if snapshot.watermark < event.seq then { snapshot with watermark := event.seq }
      else snapshot) snapshot

def applyLive (seq : ℕ) (snapshot : SnapshotDecision) : Bool × SnapshotDecision :=
  if seq ≤ snapshot.watermark then (false, snapshot)
  else (true, { snapshot with watermark := seq })

/-- The events of a batch that move the watermark: those are applied. -/
def taken (watermark : ℕ) : List LoggedEvent → List ℕ
  | [] => []
  | event :: events =>
    if watermark < event.seq then event.seq :: taken event.seq events else taken watermark events

end SnapshotDecision

structure Client where
  snapshot : SnapshotDecision
  /-- The batches that were answered to it and may still arrive. -/
  batches : List Batch
  /-- What it has applied, by number. -/
  applied : List ℕ

def Client.backfill (batch : Batch) (client : Client) : Client :=
  { client with
    snapshot := client.snapshot.applyBackfill batch
    applied := client.applied ++
      if batch.reset then [] else SnapshotDecision.taken client.snapshot.watermark batch.events }

def Client.live (seq : ℕ) (client : Client) : Client :=
  let (consumed, snapshot) := client.snapshot.applyLive seq
  { client with
    snapshot := snapshot
    applied := if consumed then client.applied ++ [seq] else client.applied }

/-! The log with all who read it. -/

structure Scene where
  log : EventLog
  /-- Everything that was ever appended. -/
  history : List LoggedEvent
  pollers : ℕ → Poller
  clients : ℕ → Client

inductive Move
  | append (event : String) (data : Value)
  /-- A poller begins at a cursor. -/
  | follow (poller cursor : ℕ)
  | poll (poller : ℕ)
  | connect (client watermark : ℕ)
  /-- The client asks; the answer is on its way. -/
  | fetch (client after : ℕ)
  /-- An answer arrives, at any time and perhaps again. -/
  | backfill (client n : ℕ)
  /-- An event is pushed, at any time after it was appended and perhaps again. -/
  | live (client n : ℕ)

namespace Scene

def start : Scene :=
  ⟨⟨0, [], 0⟩, [], fun _ => ⟨0, ⟨[], []⟩, 0, []⟩, fun _ => ⟨.at_ 0, [], []⟩⟩

def setClient (c : ℕ) (client : Client) (scene : Scene) : Scene :=
  { scene with clients := Function.update scene.clients c client }

def setPoller (p : ℕ) (poller : Poller) (scene : Scene) : Scene :=
  { scene with pollers := Function.update scene.pollers p poller }

def step (scene : Scene) : Move → Scene
  | .append event data =>
    let (seq, log) := scene.log.append event data
    { scene with log := log, history := scene.history ++ [⟨seq, event, data⟩] }
  | .follow p cursor =>
    -- only the log hands out cursors
    if cursor ≤ scene.log.nextSeq then scene.setPoller p ⟨cursor, ⟨[], []⟩, cursor, []⟩ else scene
  | .poll p => scene.setPoller p ((scene.pollers p).pollOnce scene.log)
  | .connect c watermark => scene.setClient c ⟨.at_ watermark, [], []⟩
  | .fetch c after =>
    let client := scene.clients c
    scene.setClient c { client with batches := client.batches ++ [scene.log.since after] }
  | .backfill c n =>
    match (scene.clients c).batches[n]? with
    | some batch => scene.setClient c ((scene.clients c).backfill batch)
    | none => scene
  | .live c n =>
    match scene.history[n]? with
    | some event => scene.setClient c ((scene.clients c).live event.seq)
    | none => scene

def run (moves : List Move) : Scene := moves.foldl step start

end Scene

section
variable {scene : Scene}

/-- The ring is the end of what was appended, and the rest is counted. -/
structure Numbered (log : EventLog) (history : List LoggedEvent) : Prop where
  latest : log.nextSeq = history.length
  evicted : log.evicted = history.length - maxEntries
  ring : log.entries = history.drop log.evicted
  seqs : history.map (·.seq) = List.range' 1 history.length

variable {history : List LoggedEvent} {log : EventLog}

lemma Numbered.append (h : Numbered log history) (event : String) (data : Value) :
    (log.append event data).1 = history.length + 1 ∧
      Numbered (log.append event data).2
        (history ++ [⟨(log.append event data).1, event, data⟩]) := by
  have hlength : log.entries.length = min history.length maxEntries := by
    rw [h.ring, List.length_drop, h.evicted]
    omega
  have hseq : (log.append event data).1 = history.length + 1 := by
    rw [← h.latest]
    rfl
  refine ⟨hseq, ?_⟩
  rw [hseq]
  have hle : log.evicted ≤ history.length := by
    rw [h.evicted]
    omega
  have hpos : 0 < maxEntries := by decide
  refine ⟨?_, ?_, ?_, ?_⟩
  · rw [List.length_append, List.length_singleton, ← h.latest]
    rfl
  · simp only [EventLog.append, List.length_append, List.length_singleton]
    split
    · dsimp only
      rw [h.evicted]
      omega
    · rw [h.evicted]
      omega
  · simp only [EventLog.append, h.latest]
    split
    · dsimp only
      rw [h.ring, List.tail_drop, List.drop_append_of_le_length]
      rw [h.evicted]
      omega
    · rw [h.ring, List.drop_append_of_le_length hle]
  · rw [List.map_append, h.seqs, List.length_append, List.length_singleton, List.range'_concat,
      Nat.one_mul, Nat.add_comm 1]
    rfl

lemma Numbered.seq_get (h : Numbered log history)
    {n : ℕ} {event : LoggedEvent} (hget : history[n]? = some event) : event.seq = n + 1 := by
  have hmap : (history.map (·.seq))[n]? = some event.seq := by rw [List.getElem?_map, hget]; rfl
  rw [h.seqs, List.getElem?_range' (List.getElem?_eq_some_iff.mp hget).1] at hmap
  have hseq := Option.some.inj hmap
  omega

/-- Among events that are numbered on, those after a number are the last ones. -/
lemma filter_after {items : List LoggedEvent} {base after : ℕ}
    (h : ∀ n event, items[n]? = some event → event.seq = base + n + 1) (hle : base ≤ after) :
    (items.filter fun event => after < event.seq) = items.drop (after - base) := by
  induction items generalizing base with
  | nil => rw [List.drop_nil, List.filter_nil]
  | cons first items ih =>
    have hrest : ∀ n event, items[n]? = some event → event.seq = base + 1 + n + 1 := by
      intro n event hget
      have := h (n + 1) event hget
      omega
    have hfirst : first.seq = base + 0 + 1 := h 0 first rfl
    rcases hle.eq_or_lt with rfl | hlt
    · rw [Nat.sub_self, List.drop_zero, List.filter_eq_self]
      intro event hmem
      obtain ⟨n, hget⟩ := List.mem_iff_getElem?.mp hmem
      have := h n event hget
      exact decide_eq_true (by omega)
    · rw [List.filter_cons_of_neg (by simp; omega), ih hrest hlt,
        show after - base = after - (base + 1) + 1 by omega, List.drop_succ_cons]

lemma Numbered.mem_entries (h : Numbered log history) {event : LoggedEvent} :
    event ∈ log.entries ↔ event ∈ history ∧ log.evicted < event.seq := by
  rw [h.ring]
  constructor
  · intro hmem
    obtain ⟨n, hget⟩ := List.mem_iff_getElem?.mp hmem
    rw [List.getElem?_drop] at hget
    have := h.seq_get hget
    exact ⟨List.mem_of_getElem? hget, by omega⟩
  · rintro ⟨hmem, hlt⟩
    obtain ⟨n, hget⟩ := List.mem_iff_getElem?.mp hmem
    have := h.seq_get hget
    refine List.mem_iff_getElem?.mpr ⟨n - log.evicted, ?_⟩
    rw [List.getElem?_drop, show log.evicted + (n - log.evicted) = n by omega]
    exact hget

/-- What a poll brings, for a cursor that the log has handed out. -/
structure Polled (log : EventLog) (history : List LoggedEvent) (cursor : ℕ) : Prop where
  latest : (log.since cursor).latestSeq = history.length
  reset : (log.since cursor).reset = true ↔
    ∃ event ∈ history, cursor < event.seq ∧ event ∉ log.entries
  nothing : (log.since cursor).reset = true → (log.since cursor).events = []
  missed : (log.since cursor).reset = false → (log.since cursor).events = history.drop cursor

lemma Numbered.reset_iff (h : Numbered log history) {cursor : ℕ} :
    (∃ event ∈ history, cursor < event.seq ∧ event ∉ log.entries) ↔ cursor < log.evicted := by
  constructor
  · rintro ⟨event, hmem, hlt, hgone⟩
    rw [h.mem_entries, not_and, Nat.not_lt] at hgone
    exact hlt.trans_le (hgone hmem)
  · intro hlt
    have hlength : cursor < history.length := by
      have := h.evicted
      omega
    have hget := List.getElem?_eq_getElem hlength
    have hseq := h.seq_get hget
    refine ⟨history[cursor], List.mem_of_getElem? hget, by omega, fun hmem => ?_⟩
    have := (h.mem_entries.mp hmem).2
    omega

lemma Numbered.polled (h : Numbered log history)
    {cursor : ℕ} (hcursor : cursor ≤ history.length) : Polled log history cursor := by
  have hevicted : log.evicted ≤ history.length := by
    have := h.evicted
    omega
  have hnumbers : ∀ n event, (history.drop log.evicted)[n]? = some event →
      event.seq = log.evicted + n + 1 := by
    intro n event hget
    rw [List.getElem?_drop] at hget
    exact h.seq_get hget
  rcases hcursor.eq_or_lt with heq | hlt
  · have hsince : log.since cursor = ⟨[], history.length, false⟩ := by
      rw [EventLog.since, h.latest]
      exact if_pos heq.ge
    refine ⟨by rw [hsince], ?_, by rw [hsince]; exact nofun, fun _ => ?_⟩
    · rw [hsince, h.reset_iff]
      simp only [Bool.false_eq_true, false_iff, Nat.not_lt]
      omega
    · rw [hsince, heq, List.drop_length]
  · by_cases hgone : cursor < log.evicted
    · have hsince : log.since cursor = ⟨[], history.length, true⟩ := by
        simp only [EventLog.since, h.latest, if_neg (Nat.not_le.mpr hlt)]
        exact if_pos (by omega)
      exact ⟨by rw [hsince], by rw [hsince, h.reset_iff]; simp only [hgone],
        fun _ => by rw [hsince], by rw [hsince]; exact nofun⟩
    · have hsince : log.since cursor = ⟨history.drop cursor, history.length, false⟩ := by
        simp only [EventLog.since, h.latest, if_neg (Nat.not_le.mpr hlt)]
        rw [if_neg (by omega), h.ring, filter_after hnumbers (Nat.not_lt.mp hgone), List.drop_drop,
          Nat.add_sub_cancel' (Nat.not_lt.mp hgone)]
      refine ⟨by rw [hsince], ?_, by rw [hsince]; exact nofun, fun _ => by rw [hsince]⟩
      rw [hsince, h.reset_iff]
      simp only [Bool.false_eq_true, hgone]

/-! The watermark of a client. -/

/-- What was applied came in order, and the watermark has seen it. -/
structure Applied (client : Client) : Prop where
  increasing : client.applied.Pairwise (· < ·)
  seen : ∀ seq ∈ client.applied, seq ≤ client.snapshot.watermark

lemma foldl_watermark (events : List LoggedEvent) (snapshot : SnapshotDecision) :
    (SnapshotDecision.taken snapshot.watermark events).Pairwise (· < ·) ∧
      (∀ seq ∈ SnapshotDecision.taken snapshot.watermark events, snapshot.watermark < seq ∧
        seq ≤ (events.foldl (fun snapshot event =>
          if snapshot.watermark < event.seq then { snapshot with watermark := event.seq }
          else snapshot) snapshot).watermark) ∧
      snapshot.watermark ≤ (events.foldl (fun snapshot event =>
          if snapshot.watermark < event.seq then { snapshot with watermark := event.seq }
          else snapshot) snapshot).watermark := by
  induction events generalizing snapshot with
  | nil => exact ⟨.nil, nofun, le_rfl⟩
  | cons event events ih =>
    rw [SnapshotDecision.taken, List.foldl_cons]
    by_cases hlt : snapshot.watermark < event.seq
    · rw [if_pos hlt, if_pos hlt]
      obtain ⟨hincreasing, hbounds, hle⟩ := ih { snapshot with watermark := event.seq }
      refine ⟨List.pairwise_cons.mpr ⟨fun seq hmem => (hbounds seq hmem).1, hincreasing⟩, ?_,
        hlt.le.trans hle⟩
      intro seq hmem
      rcases List.mem_cons.mp hmem with rfl | hmem
      · exact ⟨hlt, hle⟩
      · exact ⟨hlt.trans (hbounds seq hmem).1, (hbounds seq hmem).2⟩
    · rw [if_neg hlt, if_neg hlt]
      exact ih snapshot

/-- An answer that comes in time: one that reports a reset must not lie behind the watermark. -/
def Timely (batch : Batch) (client : Client) : Prop :=
  batch.reset = true → client.snapshot.watermark ≤ batch.latestSeq

lemma Applied.backfill {client : Client} {batch : Batch} (h : Applied client)
    (htimely : Timely batch client) : Applied (client.backfill batch) := by
  unfold Client.backfill SnapshotDecision.applyBackfill
  by_cases hreset : batch.reset = true
  · simp only [if_pos hreset, List.append_nil]
    exact ⟨h.increasing, fun seq hmem => (h.seen seq hmem).trans (htimely hreset)⟩
  · simp only [if_neg hreset]
    obtain ⟨hincreasing, hbounds, hle⟩ := foldl_watermark batch.events client.snapshot
    refine ⟨List.pairwise_append.mpr ⟨h.increasing, hincreasing, ?_⟩, ?_⟩
    · intro seq hmem later hlater
      exact (h.seen seq hmem).trans_lt (hbounds later hlater).1
    · intro seq hmem
      rcases List.mem_append.mp hmem with hmem | hmem
      · exact (h.seen seq hmem).trans hle
      · exact (hbounds seq hmem).2

lemma Applied.live {client : Client} (h : Applied client) (seq : ℕ) :
    Applied (client.live seq) := by
  unfold Client.live SnapshotDecision.applyLive
  by_cases hle : seq ≤ client.snapshot.watermark
  · simp only [if_pos hle]
    exact h
  · simp only [if_neg hle]
    have hlt := Nat.not_le.mp hle
    refine ⟨List.pairwise_append.mpr ⟨h.increasing, List.pairwise_singleton _ _, ?_⟩, ?_⟩
    · intro earlier hmem later hlater
      rw [List.mem_singleton.mp hlater]
      exact (h.seen earlier hmem).trans_lt hlt
    · intro other hmem
      rcases List.mem_append.mp hmem with hmem | hmem
      · exact (h.seen other hmem).trans hlt.le
      · exact (List.mem_singleton.mp hmem).le

/-! The whole. -/

/-- Nobody misses an event, and nobody applies one twice. -/
structure Faithful (scene : Scene) : Prop where
  numbered : scene.history.map (·.seq) = List.range' 1 scene.history.length
  ring : scene.log.entries = scene.history.drop (scene.history.length - maxEntries)
  polled : ∀ cursor ≤ scene.history.length, Polled scene.log scene.history cursor
  /-- From its first cursor or its last reset, a poller has received each event up to its cursor. -/
  received : ∀ p, (scene.pollers p).base ≤ (scene.pollers p).cursor ∧
    (scene.pollers p).cursor ≤ scene.history.length ∧
    (scene.pollers p).received =
      (scene.history.take (scene.pollers p).cursor).drop (scene.pollers p).base
  once : ∀ c, (scene.clients c).applied.Nodup

def Poller.Current (history : List LoggedEvent) (poller : Poller) : Prop :=
  poller.base ≤ poller.cursor ∧ poller.cursor ≤ history.length ∧
    poller.received = (history.take poller.cursor).drop poller.base

lemma Poller.Current.append {poller : Poller}
    (h : poller.Current history) (event : LoggedEvent) : poller.Current (history ++ [event]) := by
  obtain ⟨hbase, hcursor, hreceived⟩ := h
  refine ⟨hbase, hcursor.trans (by simp), ?_⟩
  rw [List.take_append_of_le_length hcursor]
  exact hreceived

lemma Poller.Current.pollOnce {poller : Poller}
    (h : poller.Current history) (hnumbered : Numbered log history) :
    (poller.pollOnce log).Current history := by
  obtain ⟨hbase, hcursor, hreceived⟩ := h
  have hpolled := hnumbered.polled hcursor
  have hlatest := hpolled.latest
  unfold Poller.pollOnce
  dsimp only
  cases hreset : (log.since poller.cursor).reset with
  | true =>
    simp only [if_true]
    refine ⟨le_rfl, hlatest.le, ?_⟩
    dsimp only
    rw [hlatest, List.take_length, List.drop_length]
  | false =>
    simp only [Bool.false_eq_true, if_false]
    refine ⟨hlatest.symm ▸ hbase.trans hcursor, hlatest.le, ?_⟩
    dsimp only
    rw [hlatest, hpolled.missed hreset, hreceived, List.take_length]
    conv_rhs => rw [← List.take_append_drop poller.cursor history]
    rw [List.drop_append_of_le_length (by rw [List.length_take]; omega)]

structure Kept (scene : Scene) : Prop where
  numbered : Numbered scene.log scene.history
  current : ∀ p, (scene.pollers p).Current scene.history
  applied : ∀ c, Applied (scene.clients c)

lemma Kept.faithful (h : Kept scene) : Faithful scene where
  numbered := h.numbered.seqs
  ring := by rw [h.numbered.ring, h.numbered.evicted]
  polled _ hcursor := h.numbered.polled hcursor
  received := h.current
  once c := (h.applied c).increasing.imp fun hlt => hlt.ne

lemma kept_start : Kept Scene.start where
  numbered := ⟨rfl, rfl, rfl, rfl⟩
  current _ := ⟨le_rfl, le_rfl, rfl⟩
  applied _ := ⟨.nil, nofun⟩

lemma Kept.setPoller (h : Kept scene) {p : ℕ} {poller : Poller}
    (hpoller : poller.Current scene.history) : Kept (scene.setPoller p poller) where
  numbered := h.numbered
  current other := by
    dsimp only [Scene.setPoller]
    by_cases hother : other = p
    · rwa [hother, Function.update_self]
    · rw [Function.update_of_ne hother]
      exact h.current other
  applied := h.applied

lemma Kept.setClient (h : Kept scene) {c : ℕ} {client : Client} (hclient : Applied client) :
    Kept (scene.setClient c client) where
  numbered := h.numbered
  current := h.current
  applied other := by
    dsimp only [Scene.setClient]
    by_cases hother : other = c
    · rwa [hother, Function.update_self]
    · rw [Function.update_of_ne hother]
      exact h.applied other

/-- Whether an answer that arrives comes in time. -/
def Move.InTime (scene : Scene) : Move → Prop
  | .backfill c n =>
    ∀ batch, (scene.clients c).batches[n]? = some batch → Timely batch (scene.clients c)
  | _ => True

lemma Kept.step (h : Kept scene) {move : Move} (htime : move.InTime scene) :
    Kept (scene.step move) := by
  cases move with
  | append event data =>
    obtain ⟨-, hnumbered⟩ := h.numbered.append event data
    exact ⟨hnumbered, fun p => (h.current p).append _, h.applied⟩
  | follow p cursor =>
    dsimp only [Scene.step]
    split
    · rename_i hcursor
      rw [h.numbered.latest] at hcursor
      refine h.setPoller ⟨le_rfl, hcursor, ?_⟩
      dsimp only
      rw [List.drop_eq_nil_of_le (by rw [List.length_take]; omega)]
    · exact h
  | poll p => exact h.setPoller ((h.current p).pollOnce h.numbered)
  | connect c watermark => exact h.setClient ⟨.nil, nofun⟩
  | fetch c after =>
    exact h.setClient ⟨(h.applied c).increasing, (h.applied c).seen⟩
  | backfill c n =>
    dsimp only [Scene.step]
    split
    · rename_i batch hget
      exact h.setClient ((h.applied c).backfill (htime batch hget))
    · exact h
  | live c n =>
    dsimp only [Scene.step]
    split
    · exact h.setClient ((h.applied c).live _)
    · exact h

lemma kept_run {moves : List Move}
    (h : ∀ earlier move, earlier ++ [move] <+: moves → move.InTime (Scene.run earlier)) :
    Kept (Scene.run moves) := by
  induction moves using List.reverseRecOn with
  | nil => exact kept_start
  | append_singleton moves move ih =>
    rw [Scene.run, List.foldl_append]
    refine (ih fun earlier other hpre => ?_).step (h moves move List.prefix_rfl)
    exact h earlier other (hpre.trans (List.prefix_append _ _))

end

/-- Whoever appends, polls, asks and is pushed to, in any order. -/
theorem events_faithful (moves : List Move)
    (h : ∀ earlier move, earlier ++ [move] <+: moves → move.InTime (Scene.run earlier)) :
    Faithful (Scene.run moves) := (kept_run h).faithful

/-- An event is pushed while the answer with it is on its way. -/
def pushedTwice : List Move :=
  [.append "a" .null, .follow 0 0, .fetch 0 0, .live 0 0, .backfill 0 0, .append "b.c" .null,
    .poll 0]

theorem events_faithful_pushedTwice : Faithful (Scene.run pushedTwice) ∧
    ((Scene.run pushedTwice).clients 0).applied = [1] ∧
    ((Scene.run pushedTwice).pollers 0).received.map (·.seq) = [1, 2] := by
  refine ⟨events_faithful _ fun earlier move hpre => ?_, rfl, rfl⟩
  cases move with
  | backfill c n =>
    obtain ⟨rest, hrest⟩ := hpre
    rw [List.append_assoc, List.singleton_append] at hrest
    match earlier with
    | [_, _, _, _] =>
      cases hrest
      intro batch hget
      cases hget
      exact nofun
    | [] | [_] | [_, _] | [_, _, _] | [_, _, _, _, _] | [_, _, _, _, _, _] => cases hrest
    | _ :: _ :: _ :: _ :: _ :: _ :: _ :: _ => simp [pushedTwice] at hrest
  | append | follow | poll | connect | fetch | live => trivial

/-- The answer that the ring is too short, and an event that is pushed before it and again after. -/
def lateReset : List Move :=
  [.fetch 0 0, .append "a" .null, .live 0 (maxEntries + 1), .backfill 0 0,
    .live 0 (maxEntries + 1)]

def appends (n : ℕ) : List Move := List.replicate n (.append "a" .null)

lemma run_appends (n : ℕ) :
    Numbered (Scene.run (appends n)).log (Scene.run (appends n)).history ∧
      (Scene.run (appends n)).history.length = n ∧
      (Scene.run (appends n)).clients = Scene.start.clients := by
  induction n with
  | zero => exact ⟨⟨rfl, rfl, rfl, rfl⟩, rfl, rfl⟩
  | succ n ih =>
    have hrun : Scene.run (appends (n + 1)) = (Scene.run (appends n)).step (.append "a" .null) := by
      rw [appends, List.replicate_succ', Scene.run, List.foldl_append]
      rfl
    rw [hrun]
    generalize Scene.run (appends n) = scene at ih
    obtain ⟨hnumbered, hlength, hclients⟩ := ih
    have hhistory : (scene.step (.append "a" .null)).history =
        scene.history ++ [⟨scene.log.nextSeq + 1, "a", .null⟩] := rfl
    refine ⟨(hnumbered.append "a" .null).2, ?_, hclients⟩
    rw [hhistory, List.length_append, hlength, List.length_singleton]

/-- The late answer takes the watermark back, behind an event that was applied. -/
lemma lateReset_applied {full : Scene} (hnumbered : Numbered full.log full.history)
    (hlength : full.history.length = maxEntries + 1)
    (hclients : full.clients = Scene.start.clients) :
    ((lateReset.foldl Scene.step full).clients 0).applied =
      [maxEntries + 2, maxEntries + 2] := by
  have hlatest : full.log.nextSeq = maxEntries + 1 := hnumbered.latest.trans hlength
  have hevicted : full.log.evicted = 1 := by rw [hnumbered.evicted, hlength]; omega
  have hsince : full.log.since 0 = ⟨[], maxEntries + 1, true⟩ := by
    simp [EventLog.since, hlatest, hevicted]
  have hpushed : ∀ event, (full.history ++ [event])[maxEntries + 1]? = some event := fun event => by
    rw [← hlength, List.getElem?_concat_length]
  simp [lateReset, Scene.step, Scene.setClient, hclients, Scene.start, hsince, EventLog.append,
    hlatest, hpushed, Client.live, Client.backfill, SnapshotDecision.applyLive,
    SnapshotDecision.applyBackfill, SnapshotDecision.at_]

theorem not_faithful_of_lateReset :
    ¬ Faithful (Scene.run (appends (maxEntries + 1) ++ lateReset)) := by
  obtain ⟨hnumbered, hlength, hclients⟩ := run_appends (maxEntries + 1)
  have hrun : Scene.run (appends (maxEntries + 1) ++ lateReset) =
      lateReset.foldl Scene.step (Scene.run (appends (maxEntries + 1))) := List.foldl_append
  intro hfaithful
  have honce := hfaithful.once 0
  rw [hrun, lateReset_applied hnumbered hlength hclients] at honce
  simp at honce

end Aeroric.Events
