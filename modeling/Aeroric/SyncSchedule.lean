import Aeroric.Runs
import Mathlib.Tactic.Linarith

/-! When a notebook is synchronised on its own. Local changes are collected until the user pauses,
for half a minute at most; without changes a remote is polled; a failed attempt is repeated after
a growing delay. Times are milliseconds of the wall clock, in 64 bits. -/
namespace Aeroric.SyncSchedule

def debounce : ℤ := 500
def maxDebounceWait : ℤ := 30000
def fallback : ℤ := 60000
def backoffBase : ℕ := 10000
def backoffMax : ℕ := 900000

def i64Max : ℤ := 2 ^ 63 - 1
def u64Max : ℕ := 2 ^ 64 - 1
def u32Max : ℕ := 2 ^ 32 - 1

inductive RunResult
  | settled
  | pending
  | failed
  deriving DecidableEq, Repr

structure PendingChanges where
  firstMs : ℤ
  lastMs : ℤ
  deriving DecidableEq, Repr

structure RemoteRuntime where
  auto : Bool := false
  lastAttemptMs : Option ℤ := none
  failures : ℕ := 0
  dirty : Option PendingChanges := none
  deriving DecidableEq, Repr

inductive Decision
  | run
  | wait (ms : ℤ)
  | off
  deriving DecidableEq, Repr

namespace RemoteRuntime

def noteLocalChange (now : ℤ) (rt : RemoteRuntime) : RemoteRuntime :=
  match rt.dirty with
  | some pending => { rt with dirty := some { pending with lastMs := now } }
  | none => { rt with dirty := some ⟨now, now⟩ }

def noteAttemptStarted (now : ℤ) (rt : RemoteRuntime) : RemoteRuntime :=
  { rt with lastAttemptMs := some now }

/-- The end of an attempt that did not fail: the changes are done unless there was one during the
run. -/
def clearDirty (started : ℤ) (rt : RemoteRuntime) : RemoteRuntime :=
  if rt.dirty.any (started < ·.lastMs) then rt else { rt with dirty := none }

def noteAttemptFinished (started : ℤ) (result : RunResult) (rt : RemoteRuntime) :
    RemoteRuntime :=
  match result with
  | .failed => { rt with failures := min (rt.failures + 1) u32Max }
  | .pending => rt.clearDirty started
  | .settled => { rt with failures := 0 }.clearDirty started

end RemoteRuntime

/-- Doubling from the base, up to the limit. A shift by 64 or more is caught. -/
def backoffDelay (failures : ℕ) : ℕ :=
  if failures = 0 then 0
  else
    let shift := failures - 1
    let factor := if shift < 64 then 2 ^ shift else u64Max
    min (min (backoffBase * factor) u64Max) backoffMax

def saturatingAdd (t : ℤ) (ms : ℤ) : ℤ := min (t + ms) i64Max

/-- The moment the next attempt is due, counted from the last one. -/
def dueAt (lastAttempt : ℤ) (rt : RemoteRuntime) : ℤ :=
  let earliest := saturatingAdd lastAttempt (backoffDelay rt.failures)
  let target := match rt.dirty with
    | some pending =>
      min (saturatingAdd pending.lastMs debounce) (saturatingAdd pending.firstMs maxDebounceWait)
    | none => saturatingAdd lastAttempt fallback
  max target earliest

def decide (now : ℤ) (rt : RemoteRuntime) : Decision :=
  if rt.auto then
    match rt.lastAttemptMs with
    | none => .run
    | some lastAttempt =>
      let due := dueAt lastAttempt rt
      if due ≤ now then .run else .wait (due - now)
  else .off

section Decisions
variable {now : ℤ} {rt : RemoteRuntime}

lemma decide_eq_run {s : ℤ} (hs : rt.lastAttemptMs = some s) (h : decide now rt = .run) :
    dueAt s rt ≤ now := by
  simp only [decide, hs] at h
  split_ifs at h with hauto hdue
  exact hdue

lemma decide_eq_wait {ms : ℤ} (h : decide now rt = .wait ms) :
    rt.auto = true ∧ ∃ s, rt.lastAttemptMs = some s ∧ now < dueAt s rt ∧ ms = dueAt s rt - now := by
  unfold decide at h
  split_ifs at h with hauto
  cases hs : rt.lastAttemptMs with
  | none => simp [hs] at h
  | some s =>
    simp only [hs] at h
    split_ifs at h with hdue
    exact ⟨hauto, s, rfl, by omega, (Decision.wait.inj h).symm⟩

lemma decide_wait {ms : ℤ} (h : decide now rt = .wait ms) :
    0 < ms ∧ ∀ later, now ≤ later →
      (later < now + ms → ∃ left, decide later rt = .wait left) ∧
      (now + ms ≤ later → decide later rt = .run) := by
  obtain ⟨hauto, s, hs, hdue, rfl⟩ := decide_eq_wait h
  refine ⟨by omega, fun later _ => ⟨fun hlater => ⟨dueAt s rt - later, ?_⟩, fun hlater => ?_⟩⟩
  · simp only [decide, hauto, hs, if_true]
    rw [if_neg (by omega)]
  · simp only [decide, hauto, hs, if_true]
    rw [if_pos (by omega)]

/-- An attempt that is due while changes wait: one of the two delays has passed. Before the end of
time the additions do not saturate. -/
lemma dueAt_dirty {s : ℤ} {pending : PendingChanges} (hdirty : rt.dirty = some pending)
    (h : dueAt s rt ≤ now) (hnow : now < i64Max) :
    pending.lastMs + debounce ≤ now ∨ pending.firstMs + maxDebounceWait ≤ now := by
  simp only [dueAt, hdirty, saturatingAdd] at h
  rcases min_le_iff.mp (max_le_iff.mp h).1 with hlast | hfirst
  · exact .inl ((min_le_iff.mp hlast).resolve_right (by omega))
  · exact .inr ((min_le_iff.mp hfirst).resolve_right (by omega))

end Decisions

/-! A history of one remote. The clock does not run backwards; one thread makes the attempts, so
that an attempt's end belongs to the attempt that started last. -/

inductive Event
  | tick (ms : ℕ)
  | change
  | start
  | finish (result : RunResult)
  deriving DecidableEq, Repr

/-- The runtime, and what has happened: the latest change, the changes since the latest start of
an attempt, and those since the start of the latest attempt that was finished and did not fail. -/
structure History where
  clock : ℤ
  runtime : RemoteRuntime := { auto := true }
  latest : Option ℤ := none
  sinceStart : List ℤ := []
  uncovered : List ℤ := []
  deriving DecidableEq, Repr

namespace History

def step (h : History) : Event → History
  | .tick ms => { h with clock := h.clock + ms }
  | .change =>
    { h with
      runtime := h.runtime.noteLocalChange h.clock
      latest := some h.clock
      sinceStart := h.sinceStart ++ [h.clock]
      uncovered := h.uncovered ++ [h.clock] }
  | .start =>
    { h with runtime := h.runtime.noteAttemptStarted h.clock, sinceStart := [] }
  | .finish result =>
    match h.runtime.lastAttemptMs with
    -- no attempt has been started that could end
    | none => h
    | some started =>
      { h with
        runtime := h.runtime.noteAttemptFinished started result
        uncovered := if result = .failed then h.uncovered else h.sinceStart }

/-- What a decision taken now owes to the user: an attempt is made for changes that have come to
rest or waited long enough, and a wait is kept. -/
def Debounced (h : History) : Prop :=
  (h.runtime.lastAttemptMs.isSome → h.runtime.dirty.isSome → decide h.clock h.runtime = .run →
    (∃ t, h.latest = some t ∧ t + debounce ≤ h.clock) ∨
      ∃ t ∈ h.uncovered, t + maxDebounceWait ≤ h.clock) ∧
  ∀ ms, decide h.clock h.runtime = .wait ms → 0 < ms ∧ ∀ later, h.clock ≤ later →
    (later < h.clock + ms → ∃ left, decide later h.runtime = .wait left) ∧
    (h.clock + ms ≤ later → decide later h.runtime = .run)

/-- No attempt ends well whose start falls inside a burst of changes: the burst began before the
attempt and went on during it. -/
def Between (h : History) (event : Event) : Prop :=
  event = .finish .settled ∨ event = .finish .pending →
    ∀ started ∈ h.runtime.lastAttemptMs, ∀ pending ∈ h.runtime.dirty,
      ¬(pending.firstMs ≤ started ∧ started < pending.lastMs)

instance (h : History) (event : Event) : Decidable (h.Between event) :=
  inferInstanceAs (Decidable (_ → _))

/-- The burst a runtime keeps is made of changes that no finished attempt has covered. -/
structure Tracks (h : History) : Prop where
  past : ∀ t ∈ h.uncovered, t ≤ h.clock
  started : ∀ s, h.runtime.lastAttemptMs = some s →
    s ≤ h.clock ∧ ∀ t ∈ h.uncovered, s < t → t ∈ h.sinceStart
  dirty : ∀ pending, h.runtime.dirty = some pending →
    h.latest = some pending.lastMs ∧ pending.firstMs ∈ h.uncovered
  recent : h.sinceStart ⊆ h.uncovered

namespace Tracks
variable {h : History}

lemma begin (clock : ℤ) : Tracks { clock := clock } := by
  constructor <;> simp

lemma tick (hi : h.Tracks) (ms : ℕ) : (h.step (.tick ms)).Tracks where
  past t ht := (hi.past t ht).trans (by simp [step])
  started s hs := ⟨(hi.started s hs).1.trans (by simp [step]), (hi.started s hs).2⟩
  dirty := hi.dirty
  recent := hi.recent

lemma noteLocalChange_dirty {now : ℤ} {rt : RemoteRuntime} {pending : PendingChanges}
    (h : (rt.noteLocalChange now).dirty = some pending) :
    pending.lastMs = now ∧
      (pending.firstMs = now ∨ ∃ old, rt.dirty = some old ∧ pending.firstMs = old.firstMs) := by
  unfold RemoteRuntime.noteLocalChange at h
  cases hold : rt.dirty with
  | none =>
    simp only [hold, Option.some.injEq] at h
    subst h
    exact ⟨rfl, .inl rfl⟩
  | some old =>
    simp only [hold, Option.some.injEq] at h
    subst h
    exact ⟨rfl, .inr ⟨old, rfl, rfl⟩⟩

lemma noteLocalChange_lastAttempt (now : ℤ) (rt : RemoteRuntime) :
    (rt.noteLocalChange now).lastAttemptMs = rt.lastAttemptMs := by
  unfold RemoteRuntime.noteLocalChange
  split <;> rfl

lemma change (hi : h.Tracks) : (h.step .change).Tracks where
  past t ht := by
    rcases List.mem_append.mp ht with ht | ht
    · exact hi.past t ht
    · exact (List.mem_singleton.mp ht).le
  started s hs := by
    obtain ⟨hpast, hrecent⟩ := hi.started s ((noteLocalChange_lastAttempt ..).symm.trans hs)
    refine ⟨hpast, fun t ht hlate => ?_⟩
    rcases List.mem_append.mp ht with ht | ht
    · exact List.mem_append_left _ (hrecent t ht hlate)
    · exact List.mem_append_right _ ht
  dirty pending hpending := by
    obtain ⟨hlast, hfirst⟩ := noteLocalChange_dirty hpending
    refine ⟨congrArg some hlast.symm, ?_⟩
    rcases hfirst with hfirst | ⟨old, hold, hfirst⟩
    · exact List.mem_append_right _ (List.mem_singleton.mpr hfirst)
    · rw [hfirst]
      exact List.mem_append_left _ (hi.dirty old hold).2
  recent := List.append_subset.mpr ⟨fun _ ht => List.mem_append_left _ (hi.recent ht),
    List.subset_append_right _ _⟩

lemma start (hi : h.Tracks) : (h.step .start).Tracks where
  past := hi.past
  started s hs := by
    obtain rfl : h.clock = s := Option.some.inj hs
    exact ⟨le_rfl, fun t ht hlate => absurd (hi.past t ht) (not_le.mpr hlate)⟩
  dirty := hi.dirty
  recent := List.nil_subset _

lemma kept (hi : h.Tracks) {started : ℤ} {pending : PendingChanges} {rt : RemoteRuntime}
    (hs : h.runtime.lastAttemptMs = some started) (hrt : rt.dirty = h.runtime.dirty)
    (hpending : (rt.clearDirty started).dirty = some pending)
    (hbetween : ∀ pending ∈ h.runtime.dirty,
      ¬(pending.firstMs ≤ started ∧ started < pending.lastMs)) :
    h.latest = some pending.lastMs ∧ pending.firstMs ∈ h.sinceStart := by
  unfold RemoteRuntime.clearDirty at hpending
  split_ifs at hpending with hduring
  rw [hrt] at hpending hduring
  obtain ⟨hlatest, hfirst⟩ := hi.dirty pending hpending
  have hlast : started < pending.lastMs := by simpa [hpending] using hduring
  have hlate : started < pending.firstMs := by
    by_contra hearly
    exact hbetween pending hpending ⟨not_lt.mp hearly, hlast⟩
  exact ⟨hlatest, (hi.started started hs).2 _ hfirst hlate⟩

lemma clearDirty_lastAttempt (started : ℤ) (rt : RemoteRuntime) :
    (rt.clearDirty started).lastAttemptMs = rt.lastAttemptMs := by
  unfold RemoteRuntime.clearDirty
  split <;> rfl

/-- The end of an attempt that did not fail, whatever it does to the count of failures. -/
lemma finishWell (hi : h.Tracks) {started : ℤ} {rt : RemoteRuntime}
    (hs : h.runtime.lastAttemptMs = some started) (hrt : rt.dirty = h.runtime.dirty)
    (hlast : rt.lastAttemptMs = h.runtime.lastAttemptMs)
    (hbetween : ∀ pending ∈ h.runtime.dirty,
      ¬(pending.firstMs ≤ started ∧ started < pending.lastMs)) :
    Tracks { h with runtime := rt.clearDirty started, uncovered := h.sinceStart } where
  past t ht := hi.past t (hi.recent ht)
  started s hstarted := by
    have hsame := (clearDirty_lastAttempt started rt).symm.trans hstarted
    exact ⟨(hi.started s (hlast.symm.trans hsame)).1, fun t ht _ => ht⟩
  dirty _ hpending := hi.kept hs hrt hpending hbetween
  recent := List.Subset.refl _

lemma finish (hi : h.Tracks) {result : RunResult} (hfits : h.Between (.finish result)) :
    (h.step (.finish result)).Tracks := by
  cases hs : h.runtime.lastAttemptMs with
  | none => simpa only [step, hs] using hi
  | some started =>
    simp only [step, hs]
    cases result with
    | failed => exact ⟨hi.past, hi.started, hi.dirty, hi.recent⟩
    | pending => exact hi.finishWell hs rfl rfl (hfits (.inr rfl) started hs)
    | settled => exact hi.finishWell hs rfl rfl (hfits (.inl rfl) started hs)

lemma step (hi : h.Tracks) {event : Event} (hfits : h.Between event) :
    (h.step event).Tracks := by
  cases event with
  | tick ms => exact hi.tick ms
  | change => exact hi.change
  | start => exact hi.start
  | finish result => exact hi.finish hfits

lemma debounced (hi : h.Tracks) (hclock : h.clock < i64Max) : h.Debounced := by
  refine ⟨fun hattempt hdirty hrun => ?_, fun ms hwait => decide_wait hwait⟩
  obtain ⟨s, hs⟩ := Option.isSome_iff_exists.mp hattempt
  obtain ⟨pending, hpending⟩ := Option.isSome_iff_exists.mp hdirty
  obtain ⟨hlatest, hfirst⟩ := hi.dirty pending hpending
  rcases dueAt_dirty hpending (decide_eq_run hs hrun) hclock with hquiet | hcapped
  · exact .inl ⟨pending.lastMs, hlatest, hquiet⟩
  · exact .inr ⟨pending.firstMs, hfirst, hcapped⟩

end Tracks

/-- In a history in which no attempt that ends well starts inside a burst, every decision is
debounced. -/
theorem debounced_of_between (clock : ℤ) (events : List Event)
    (hbetween : Along step Between { clock := clock } events)
    (hclock : (events.foldl step { clock := clock }).clock < i64Max) :
    (events.foldl step { clock := clock }).Debounced := by
  have htracks : (events.foldl step { clock := clock }).Tracks :=
    Along.invariant (I := Tracks) (Along.iff.mp hbetween) (Tracks.begin clock)
      (fun _ _ hi hfits => hi.step hfits) List.prefix_rfl
  exact htracks.debounced hclock

/-- A note is saved twice while nothing runs, and once more during the poll that follows. -/
theorem debounced_of_between_poll :
    Along step Between { clock := 0 }
        [.start, .finish .settled, .tick 59000, .change, .tick 400, .change, .tick 500, .start,
          .tick 1, .finish .settled, .change] ∧
      ([Event.start, .finish .settled, .tick 59000, .change, .tick 400, .change, .tick 500, .start,
        .tick 1, .finish .settled, .change].foldl step { clock := 0 }).Debounced :=
  ⟨by decide +kernel,
    debounced_of_between 0 _ (by decide +kernel) (by decide +kernel)⟩

/-- A note is saved at 0, and again at 31000 while the attempt of 1000 is running. When that attempt
has ended, the next one is made a millisecond after the second change: the half minute is counted
from the first one, which the attempt has synchronised. -/
theorem not_debounced_of_burst :
    ¬([Event.start, .finish .settled, .change, .tick 1000, .start, .tick 30000, .change,
      .finish .settled, .tick 1].foldl step { clock := 0 }).Debounced := by
  intro h
  have hrun := h.1 (by decide +kernel) (by decide +kernel) (by decide +kernel)
  revert hrun
  decide +kernel

end History
end Aeroric.SyncSchedule
