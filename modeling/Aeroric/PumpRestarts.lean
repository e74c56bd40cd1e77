import Aeroric.EventLog

/-! The event pump and the hosts it follows, one after the other. Each host numbers its events from one
again, while the pump keeps the cursor that the host before handed out. -/
namespace Aeroric.Events
open Json (Value)

structure Pumping where
  log : EventLog
  /-- What was appended to this host. -/
  history : List LoggedEvent
  pump : Poller
  /-- This host has not answered a poll yet. -/
  fresh : Bool

inductive PumpMove
  | append (event : String) (data : Value)
  | restart
  | failedPoll
  | poll

namespace Pumping

def start : Pumping := ⟨⟨0, [], 0⟩, [], ⟨0, ⟨[], []⟩, 0, []⟩, true⟩

def step (s : Pumping) : PumpMove → Pumping
  | .append event data =>
    let (seq, log) := s.log.append event data
    { s with log := log, history := s.history ++ [⟨seq, event, data⟩] }
  | .restart => { s with log := ⟨0, [], 0⟩, history := [], fresh := true }
  -- the source reconnects, and the cursor stays
  | .failedPoll => s
  | .poll => { s with pump := s.pump.pollOnce s.log, fresh := false }

def run (moves : List PumpMove) : Pumping := moves.foldl step start

/-- The next poll tells the sink of each event in the ring, or of a reset. -/
def Told (s : Pumping) : Prop :=
  (s.step .poll).pump.sink = deliver s.log.entries s.pump.sink ∨
    (s.step .poll).pump.sink =
      { s.pump.sink with skipped := s.pump.sink.skipped ++ ["events-reset"] }

/-- The cursor is not yet at the events in the ring. -/
def Behind (s : Pumping) : Prop := ∀ event ∈ s.log.entries, s.pump.cursor < event.seq

/-- At every poll that is the first one its host answers. -/
def AtFirstPolls (P : Pumping → Prop) (moves : List PumpMove) : Prop :=
  ∀ earlier, earlier ++ [.poll] <+: moves → (run earlier).fresh = true → P (run earlier)

end Pumping

section
variable {s : Pumping} {log : EventLog} {history : List LoggedEvent}

lemma deliver_skipped (events : List LoggedEvent) (sink : Sink) :
    (deliver events sink).skipped =
      sink.skipped ++ (events.map (·.event)).filter fun name => (windowChannel name).isNone := by
  induction events generalizing sink with
  | nil => simp [deliver]
  | cons event events ih =>
    rw [deliver, List.foldl_cons, ← deliver, ih]
    cases h : windowChannel event.event <;> simp [h]

lemma deliver_length (events : List LoggedEvent) (sink : Sink) :
    (deliver events sink).emitted.length + (deliver events sink).skipped.length =
      sink.emitted.length + sink.skipped.length + events.length := by
  induction events generalizing sink with
  | nil => rfl
  | cons event events ih =>
    rw [deliver, List.foldl_cons, ← deliver, ih]
    cases windowChannel event.event <;> simp <;> omega

lemma deliver_ne_reset (events : List LoggedEvent) (sink : Sink) :
    deliver events sink ≠ { sink with skipped := sink.skipped ++ ["events-reset"] } := by
  intro h
  have hskipped := congrArg Sink.skipped h
  rw [deliver_skipped] at hskipped
  have hmem : "events-reset" ∈ (events.map (·.event)).filter fun name => (windowChannel name).isNone := by
    rw [List.append_cancel_left hskipped]
    exact List.mem_singleton_self _
  exact absurd (List.of_mem_filter hmem) (by decide)

lemma numbered_empty : Numbered ⟨0, [], 0⟩ [] := ⟨rfl, rfl, rfl, rfl⟩

lemma numbered_run (moves : List PumpMove) :
    Numbered (Pumping.run moves).log (Pumping.run moves).history := by
  induction moves using List.reverseRecOn with
  | nil => exact numbered_empty
  | append_singleton moves move ih =>
    rw [Pumping.run, List.foldl_append, ← Pumping.run]
    generalize Pumping.run moves = s at ih
    cases move with
    | append event data => exact (ih.append event data).2
    | restart => exact numbered_empty
    | failedPoll | poll => exact ih

lemma since_events (h : Numbered log history) {cursor : ℕ} (hreset : (log.since cursor).reset = false) :
    (log.since cursor).events = log.entries.filter fun event => cursor < event.seq := by
  by_cases hlatest : log.nextSeq ≤ cursor
  · have hold : ∀ event ∈ log.entries, ¬cursor < event.seq := by
      intro event hmem
      obtain ⟨n, hget⟩ := List.mem_iff_getElem?.mp (h.mem_entries.mp hmem).1
      have hlt := (List.getElem?_eq_some_iff.mp hget).1
      have hseq := h.seq_get hget
      have hlength := h.latest
      omega
    rw [EventLog.since, if_pos hlatest, List.filter_eq_nil_iff.mpr (by simpa using hold)]
  · simp only [EventLog.since, if_neg hlatest] at hreset ⊢
    split at hreset
    · cases hreset
    · next hkept => rw [if_neg hkept]

lemma lt_evicted_of_reset {cursor : ℕ} (hreset : (log.since cursor).reset = true) :
    (log.since cursor).events = [] ∧ cursor < log.evicted := by
  simp only [EventLog.since] at hreset ⊢
  split at hreset
  · cases hreset
  · next hlatest =>
    split at hreset
    · next hgone =>
      rw [if_neg hlatest, if_pos hgone]
      exact ⟨rfl, by omega⟩
    · cases hreset

/-- A poll is complete only if the cursor lies before the whole ring. One within the ring cuts off the
events before it, and one behind the ring all of them. -/
lemma told_iff (h : Numbered s.log s.history) : s.Told ↔ s.Behind := by
  unfold Pumping.Told Pumping.Behind Pumping.step Poller.pollOnce
  dsimp only
  cases hreset : (s.log.since s.pump.cursor).reset with
  | true =>
    obtain ⟨hnothing, hlt⟩ := lt_evicted_of_reset hreset
    have hbehind : ∀ event ∈ s.log.entries, s.pump.cursor < event.seq := fun event hmem =>
      hlt.trans (h.mem_entries.mp hmem).2
    refine iff_of_true (.inr ?_) hbehind
    rw [hnothing]
    rfl
  | false =>
    rw [since_events h hreset]
    simp only [Bool.false_eq_true, if_false, deliver_ne_reset, or_false]
    refine ⟨fun hsink event hmem => ?_, fun hbehind => ?_⟩
    · have hlength := deliver_length s.log.entries s.pump.sink
      rw [← hsink, deliver_length, Nat.add_left_cancel_iff] at hlength
      simpa using List.length_filter_eq_length_iff.mp hlength event hmem
    · rw [List.filter_eq_self.mpr (by simpa using hbehind)]

end

/-- What a host's ring holds at the first poll is told to the sink exactly when the cursor lies before it. -/
theorem firstPolls_told_iff (moves : List PumpMove) :
    Pumping.AtFirstPolls Pumping.Told moves ↔ Pumping.AtFirstPolls Pumping.Behind moves := by
  refine forall_congr' fun earlier => forall_congr' fun _ => forall_congr' fun _ => ?_
  exact told_iff (numbered_run earlier)

/-- The second host has appended an event when the pump comes back with the first host's cursor. -/
def restarted : List PumpMove :=
  [.append "a" .null, .poll, .restart, .failedPoll, .append "b" .null, .poll]

theorem firstPolls_untold : ¬ Pumping.AtFirstPolls Pumping.Told restarted := by
  intro h
  rcases h restarted.dropLast List.prefix_rfl rfl with htold | htold
  · exact absurd (congrArg (fun sink => sink.emitted.length) htold) (by decide)
  · exact absurd (congrArg (fun sink => sink.skipped.length) htold) (by decide)

end Aeroric.Events
