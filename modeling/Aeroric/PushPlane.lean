import Aeroric.EventLog
import Aeroric.PushSignatures
import Aeroric.Runs

/-! From an appended event to a push. The log calls its observer after it has left the lock, the
observer checks a backoff that every outcome sets anew, and an outcome that names a device marks
whatever is registered for the device by then. -/
namespace Aeroric.PushPlane

open Events (EventLog LoggedEvent)
open Json (Value)
open Push (PushKind)

def pushKindForStatus (status : String) : Option PushKind :=
  if status = "done" then some .taskDone
  else if status = "failed" then some .taskFailed
  else if status = "input_required" then some .approvalPending
  else none

def decide_ (payload : Value) : Option PushKind :=
  (payload.getStr "task_id").bind fun taskId =>
    if Sse.trim taskId.toList = [] then none
    else (payload.getStr "status").bind pushKindForStatus

def maxRetryAfterMs : ℕ := 15 * 60 * 1000
def defaultBackoffMs : ℕ := 5000

def clampRetryAfter (ms : ℕ) : ℕ := min (max ms 1000) maxRetryAfterMs

structure PushBinding where
  invalidated : Bool
  /-- Which registration of all it is. -/
  serial : ℕ
  deriving DecidableEq

inductive Outcome
  | accepted (invalidatedDeviceIds : List String) (retryAfterMs : Option ℕ)
  | refused (retryable : Bool)

/-- Until when the sender asks to wait. -/
def Outcome.deadlines (now : ℕ) : Outcome → List ℕ
  | accepted _ (some ms) => [now + clampRetryAfter ms]
  | accepted _ none | refused _ => []

def Outcome.invalidatedDeviceIds : Outcome → List String
  | accepted devices _ => devices
  | refused _ => []

/-- Where a thread is that appends an event, or pushes by hand. -/
inductive Stage
  | appended (event : LoggedEvent)
  | deciding
  | checking
  | cleared (automatic : Bool)
  /-- With the number of registrations when the attempt began. -/
  | sent (started : ℕ)
  /-- What is left of the outcome: devices to mark, and a wait that the sender may have asked for. -/
  | absorbing (started : ℕ) (devices : List String) (wait : Option ℕ) (asked : Bool)
  | done

namespace Stage

def isAppended : Stage → Bool
  | appended _ => true
  | _ => false

def isCleared : Stage → Bool
  | cleared automatic => automatic
  | _ => false

/-- When the attempt began that is under way. -/
def startedAt : Stage → Option ℕ
  | sent started | absorbing started _ _ _ => some started
  | _ => none

def answered (started : ℕ) : Outcome → Stage
  | .accepted devices wait => absorbing started devices wait true
  | .refused retryable => absorbing started [] (if retryable then some defaultBackoffMs else none) false

/-- The wait that is taken over next. -/
def suppression : Stage → Option ℕ
  | absorbing _ [] wait _ => wait
  | _ => none

/-- The wait that the sender asked for and that is still to be taken over. -/
def asked : Stage → Option ℕ
  | absorbing _ _ wait true => wait
  | _ => none

/-- The devices that are still to be marked. -/
def naming : Stage → List String
  | absorbing _ devices _ _ => devices
  | _ => []

end Stage

structure Plane where
  now : ℕ
  log : EventLog
  threads : Table ℕ Stage
  /-- The events the observer was called with, by number. -/
  observed : List ℕ
  client : Bool
  suppressedUntil : Option ℕ
  /-- Calls that have switched push off and are about to clear the backoff. -/
  closing : ℕ
  bindings : Table String PushBinding
  registrations : ℕ
  /-- Until when the sender asked to wait, since push was last switched off. -/
  waits : List ℕ

inductive Move
  | append (n : ℕ) (event : String) (data : Value)
  | observe (n : ℕ)
  | readClient (n : ℕ)
  | check (n : ℕ)
  | pushManual (n : ℕ)
  | attempt (n : ℕ)
  | answer (n : ℕ) (outcome : Outcome)
  | absorb (n : ℕ)
  | register (deviceId : String)
  | switchOn
  | switchOff
  | clear
  | tick (ms : ℕ)

namespace Plane

def start : Plane := ⟨0, ⟨0, [], 0⟩, .empty, [], false, none, 0, .empty, 0, []⟩

def isSuppressed (s : Plane) : Bool := s.suppressedUntil.any (s.now < ·)

def activeDevices (s : Plane) : List PushBinding := s.bindings.values.filter (!·.invalidated)

def markInvalidated (deviceId : String) (bindings : Table String PushBinding) :
    Table String PushBinding :=
  match bindings.get deviceId with
  | some binding => bindings.set deviceId { binding with invalidated := true }
  | none => bindings

def advance (n : ℕ) (stage : Stage) (s : Plane) : Plane :=
  { s with threads := s.threads.set n stage }

def suppressFor (ms : ℕ) (s : Plane) : Plane :=
  { s with suppressedUntil := some (s.now + clampRetryAfter ms) }

def step (s : Plane) : Move → Plane
  | .append n event data =>
    match s.threads.get n with
    | none =>
      let (seq, log) := s.log.append event data
      { s with log := log }.advance n (.appended ⟨seq, event, data⟩)
    | some _ => s
  | .observe n =>
    match s.threads.get n with
    | some (.appended event) =>
      let pushes := event.event = "task-status" ∧ (decide_ event.data).isSome
      { s with observed := s.observed ++ [event.seq] }.advance n (if pushes then .deciding else .done)
    | _ => s
  | .readClient n =>
    match s.threads.get n with
    | some .deciding => s.advance n (if s.client then .checking else .done)
    | _ => s
  | .check n =>
    match s.threads.get n with
    | some .checking => s.advance n (if s.isSuppressed then .done else .cleared true)
    | _ => s
  | .pushManual n =>
    match s.threads.get n with
    | none => s.advance n (if s.client then .cleared false else .done)
    | some _ => s
  | .attempt n =>
    match s.threads.get n with
    | some (.cleared _) =>
      s.advance n (if s.activeDevices.isEmpty then .done else .sent s.registrations)
    | _ => s
  | .answer n outcome =>
    match s.threads.get n with
    | some (.sent started) =>
      { s with waits := s.waits ++ outcome.deadlines s.now }.advance n (.answered started outcome)
    | _ => s
  | .absorb n =>
    match s.threads.get n with
    | some (.absorbing started (device :: devices) wait asked) =>
      { s with bindings := markInvalidated device s.bindings }.advance n
        (.absorbing started devices wait asked)
    | some (.absorbing _ [] (some ms) _) => (s.suppressFor ms).advance n .done
    | some (.absorbing _ [] none _) => s.advance n .done
    | _ => s
  | .register deviceId =>
    { s with
      bindings := s.bindings.set deviceId ⟨false, s.registrations + 1⟩
      registrations := s.registrations + 1 }
  | .switchOn => { s with client := true }
  | .switchOff => { s with client := false, closing := s.closing + 1 }
  | .clear =>
    if s.closing = 0 then s
    else { s with suppressedUntil := none, closing := s.closing - 1, waits := [] }
  | .tick ms => { s with now := s.now + ms }

def run (moves : List Move) : Plane := moves.foldl step start

/-- The observer is called with each event once, in order; with the last ones it may not have been
called yet. -/
structure Ordered (s : Plane) : Prop where
  increasing : s.observed.Pairwise (· < ·)
  each : ∀ seq, (1 ≤ seq ∧ seq ≤ s.log.nextSeq) ↔
    seq ∈ s.observed ∨ ∃ n event, s.threads.get n = some (.appended event) ∧ event.seq = seq

end Plane

/-- The three things push is to follow. -/
structure Follows (moves : List Move) : Prop where
  order : (Plane.run moves).Ordered
  backoff : ∀ earlier n, earlier ++ [.attempt n] <+: moves →
    (Plane.run earlier).threads.get n = some (.cleared true) → (Plane.run earlier).activeDevices ≠ [] →
    ∀ deadline ∈ (Plane.run earlier).waits, deadline ≤ (Plane.run earlier).now
  binding : ∀ earlier n, earlier ++ [.absorb n] <+: moves →
    ∀ stage started, (Plane.run earlier).threads.get n = some stage → stage.startedAt = some started →
    ∀ deviceId binding, (Plane.run earlier).bindings.get deviceId = some binding →
      started < binding.serial →
      ((Plane.run earlier).step (.absorb n)).bindings.get deviceId = some binding

/-- An append waits for the observer calls of the appends before it. A wait that the sender asks for
comes when no automatic push is between its check and its attempt, none makes its check before the
wait is taken over, and no wait ends before one that was asked for earlier. A device that an outcome
names does not register anew between the start of the attempt and its mark. -/
def Move.Careful (s : Plane) : Move → Prop
  | .append _ _ _ => s.threads.values.all (!·.isAppended) = true
  | .check _ => s.isSuppressed = true ∨ s.threads.values.all (·.asked.isNone) = true
  | .answer n outcome =>
    (outcome.deadlines s.now ≠ [] → s.threads.values.all (!·.isCleared) = true) ∧
      ∀ started ∈ (s.threads.get n).bind Stage.startedAt, ∀ deviceId ∈ outcome.invalidatedDeviceIds,
        ∀ binding ∈ s.bindings.get deviceId, binding.serial ≤ started
  | .absorb n =>
    ∀ ms ∈ (s.threads.get n).bind Stage.suppression,
      ∀ deadline ∈ s.waits, deadline ≤ s.now + clampRetryAfter ms
  | .register deviceId => s.threads.values.all (fun stage => deviceId ∉ stage.naming) = true
  | _ => True

instance (s : Plane) : (m : Move) → Decidable (m.Careful s)
  | .append .. | .register _ => inferInstanceAs (Decidable (_ = true))
  | .check _ => inferInstanceAs (Decidable (_ ∨ _))
  | .answer n _ =>
    inferInstanceAs (Decidable (_ ∧ ∀ started ∈ (s.threads.get n).bind Stage.startedAt, _))
  | .absorb n => inferInstanceAs (Decidable (∀ ms ∈ (s.threads.get n).bind Stage.suppression, _))
  | .observe _ | .readClient _ | .pushManual _ | .attempt _ | .switchOn | .switchOff | .clear
  | .tick _ => .isTrue trivial

variable {s : Plane} {n : ℕ} {stage : Stage}

lemma all_values {p : Stage → Bool} (h : s.threads.values.all p = true)
    (hget : s.threads.get n = some stage) : p stage = true :=
  List.all_eq_true.mp h stage (Table.mem_values.mpr ⟨n, hget⟩)

/-- At most one append has not called the observer yet, and that is the last one. -/
def Pending (s : Plane) : Prop :=
  ∃ pending : Option (ℕ × LoggedEvent),
    (∀ n event, s.threads.get n = some (.appended event) ↔ pending = some (n, event)) ∧
      s.observed ++ (pending.map (·.2.seq)).toList = List.range' 1 s.log.nextSeq

/-- The backoff lasts until then, or a thread is about to see to that. -/
def Heeded (s : Plane) (deadline : ℕ) : Prop :=
  (∃ stop ∈ s.suppressedUntil, deadline ≤ stop) ∨ ∃ n stage, s.threads.get n = some stage ∧
    ∃ ms ∈ stage.asked, deadline ≤ s.now + clampRetryAfter ms

/-- What a thread is still to mark was registered before its attempt. -/
def Stage.Apt (bindings : Table String PushBinding) (stage : Stage) : Prop :=
  ∀ started, stage.startedAt = some started → ∀ deviceId ∈ stage.naming, ∀ binding,
    bindings.get deviceId = some binding → binding.serial ≤ started

structure Kept (s : Plane) : Prop where
  pending : Pending s
  waits : ∀ deadline ∈ s.waits, Heeded s deadline
  cleared : ∀ n, s.threads.get n = some (.cleared true) → ∀ deadline ∈ s.waits, deadline ≤ s.now
  apt : ∀ n stage, s.threads.get n = some stage → stage.Apt s.bindings

lemma kept_start : Kept .start :=
  ⟨⟨none, fun _ _ => ⟨nofun, nofun⟩, rfl⟩, nofun, nofun, nofun⟩

lemma Heeded.advance {deadline : ℕ} (h : Heeded s deadline)
    (hasked : ∀ old, s.threads.get n = some old → old.asked = none ∨ old.asked = stage.asked) :
    Heeded (s.advance n stage) deadline := by
  refine h.imp_right ?_
  rintro ⟨m, old, hget, ms, hms, hle⟩
  by_cases heq : m = n
  · subst heq
    refine ⟨m, stage, Table.get_set_self .., ms, ?_, hle⟩
    rcases hasked old hget with hnone | hsame
    · cases hnone.symm.trans hms
    · exact hsame.symm.trans hms
  · exact ⟨m, old, (Table.get_set_of_ne heq).trans hget, ms, hms, hle⟩

lemma Kept.advance (h : Kept s) {log : EventLog} {observed waits : List ℕ}
    (hpending : Pending ({ s with log := log, observed := observed }.advance n stage))
    (hwaits : ∀ deadline ∈ waits, Heeded (s.advance n stage) deadline)
    (hcleared : ∀ m, (s.threads.set n stage).get m = some (.cleared true) →
      ∀ deadline ∈ waits, deadline ≤ s.now)
    (hapt : stage.Apt s.bindings) :
    Kept ({ s with log := log, observed := observed, waits := waits }.advance n stage) where
  pending := hpending
  waits := hwaits
  cleared := hcleared
  apt m other hm := by
    by_cases heq : m = n
    · subst heq
      simp only [Plane.advance, Table.get_set_self, Option.some.injEq] at hm
      exact hm ▸ hapt
    · exact h.apt m other ((Table.get_set_of_ne heq).symm.trans hm)

lemma cleared_advance (h : ∀ m, s.threads.get m = some (.cleared true) →
      ∀ deadline ∈ s.waits, deadline ≤ s.now)
    (hcleared : stage = .cleared true → ∀ deadline ∈ s.waits, deadline ≤ s.now) (m : ℕ)
    (hm : (s.threads.set n stage).get m = some (.cleared true)) :
    ∀ deadline ∈ s.waits, deadline ≤ s.now := by
  by_cases heq : m = n
  · subst heq
    exact hcleared (by simpa using hm)
  · exact h m ((Table.get_set_of_ne heq).symm.trans hm)

lemma Pending.advance (h : Pending s) (hold : ∀ event, s.threads.get n ≠ some (.appended event))
    (hnew : stage.isAppended = false) : Pending (s.advance n stage) := by
  obtain ⟨pending, hpending, hobserved⟩ := h
  refine ⟨pending, fun m event => ?_, hobserved⟩
  rw [← hpending]
  by_cases hm : m = n
  · subst hm
    simp only [Plane.advance, Table.get_set_self, Option.some.injEq, hold, iff_false]
    rintro rfl
    cases hnew
  · simp only [Plane.advance, Table.get_set_of_ne hm]

lemma Pending.append (h : Pending s) (hcareful : s.threads.values.all (!·.isAppended) = true)
    (n : ℕ) (event : String) (data : Value) :
    Pending ({ s with log := (s.log.append event data).2 }.advance n
      (.appended ⟨(s.log.append event data).1, event, data⟩)) := by
  have hnone : ∀ m event, s.threads.get m ≠ some (.appended event) := fun m event hm => by
    cases all_values hcareful hm
  obtain ⟨pending, hpending, hobserved⟩ := h
  have hempty : pending = none := by
    cases pending with
    | none => rfl
    | some p => exact absurd ((hpending p.1 p.2).mpr rfl) (hnone _ _)
  rw [hempty] at hobserved
  refine ⟨some (n, ⟨s.log.nextSeq + 1, event, data⟩), fun m other => ?_, ?_⟩
  · by_cases hm : m = n
    · subst hm
      simp [Plane.advance, EventLog.append, eq_comm]
    · simp only [Plane.advance, Table.get_set_of_ne hm, hnone, Option.some.injEq, Prod.mk.injEq,
        Ne.symm hm, false_and]
  · have hlatest : (s.log.append event data).2.nextSeq = s.log.nextSeq + 1 := rfl
    simp only [Option.map_none, Option.toList_none, List.append_nil] at hobserved
    simp only [Plane.advance, hlatest, List.range'_concat, hobserved, Option.map_some,
      Option.toList_some, Nat.one_mul, Nat.add_comm 1]

lemma Pending.observe (h : Pending s) {event : LoggedEvent}
    (hget : s.threads.get n = some (.appended event)) (hnew : stage.isAppended = false) :
    Pending ({ s with observed := s.observed ++ [event.seq] }.advance n stage) := by
  obtain ⟨pending, hpending, hobserved⟩ := h
  have hlast := (hpending n event).mp hget
  subst hlast
  refine ⟨none, fun m other => ?_, ?_⟩
  · by_cases hm : m = n
    · subst hm
      simp only [Plane.advance, Table.get_set_self, Option.some.injEq, reduceCtorEq, iff_false]
      rintro rfl
      cases hnew
    · simp only [Plane.advance, Table.get_set_of_ne hm, hpending, Option.some.injEq, Prod.mk.injEq,
        Ne.symm hm, false_and, reduceCtorEq]
  · simpa [Plane.advance] using hobserved

lemma serial_markInvalidated {bindings : Table String PushBinding} {device deviceId : String}
    {binding : PushBinding} (hget : (Plane.markInvalidated device bindings).get deviceId = some binding) :
    ∃ old, bindings.get deviceId = some old ∧ old.serial = binding.serial := by
  unfold Plane.markInvalidated at hget
  split at hget
  · next old hold =>
    by_cases heq : deviceId = device
    · subst heq
      rw [Table.get_set_self] at hget
      cases hget
      exact ⟨old, hold, rfl⟩
    · rw [Table.get_set_of_ne heq] at hget
      exact ⟨binding, hget, rfl⟩
  · exact ⟨binding, hget, rfl⟩

lemma Kept.mark (h : Kept s) (device : String) :
    Kept { s with bindings := Plane.markInvalidated device s.bindings } where
  pending := h.pending
  waits := h.waits
  cleared := h.cleared
  apt m stage hm started hstarted deviceId hnamed binding hget := by
    obtain ⟨old, hold, hserial⟩ := serial_markInvalidated hget
    exact hserial ▸ h.apt m stage hm started hstarted deviceId hnamed old hold

lemma Kept.register (h : Kept s) {device : String}
    (hcareful : s.threads.values.all (fun stage => device ∉ stage.naming) = true) :
    Kept (s.step (.register device)) where
  pending := h.pending
  waits := h.waits
  cleared := h.cleared
  apt m stage hm started hstarted deviceId hnamed binding hget := by
    have hother : deviceId ≠ device := by
      rintro rfl
      exact of_decide_eq_true (all_values hcareful hm) hnamed
    exact h.apt m stage hm started hstarted deviceId hnamed binding
      ((Table.get_set_of_ne hother).symm.trans hget)

lemma Kept.next (h : Kept s) {old : Stage} (hget : s.threads.get n = some old)
    (hold : old.isAppended = false) (hnew : stage.isAppended = false)
    (hasked : old.asked = none ∨ old.asked = stage.asked)
    (hcleared : stage = .cleared true → ∀ deadline ∈ s.waits, deadline ≤ s.now)
    (hapt : stage.Apt s.bindings) : Kept (s.advance n stage) := by
  refine h.advance (h.pending.advance ?_ hnew) (fun deadline hmem => (h.waits deadline hmem).advance
    fun other hother => ?_) (cleared_advance h.cleared hcleared) hapt
  · rintro event hevent
    cases hget.symm.trans hevent
    cases hold
  · cases hget.symm.trans hother
    exact hasked

lemma Kept.answer (h : Kept s) {outcome : Outcome} (hcareful : (Move.answer n outcome).Careful s) :
    Kept (s.step (.answer n outcome)) := by
  obtain ⟨hnone, hserials⟩ := hcareful
  dsimp only [Plane.step]
  split
  · next started hget =>
    refine h.advance (h.pending.advance ?_ ?_) (fun deadline hmem => ?_) (fun m hm deadline hmem => ?_)
      fun began hbegan deviceId hnamed binding hbinding => ?_
    · simp [hget]
    · cases outcome <;> rfl
    · rcases List.mem_append.mp hmem with hmem | hmem
      · refine (h.waits deadline hmem).advance fun old hold => .inl ?_
        cases hget.symm.trans hold
        rfl
      · match outcome with
        | .accepted devices (some ms) =>
          cases List.mem_singleton.mp hmem
          exact .inr ⟨n, _, Table.get_set_self .., ms, rfl, le_rfl⟩
    · have hold : s.threads.get m = some (.cleared true) := by
        by_cases heq : m = n
        · subst heq
          cases outcome <;> simp [Stage.answered] at hm
        · exact (Table.get_set_of_ne heq).symm.trans hm
      rcases List.mem_append.mp hmem with hmem | hmem
      · exact h.cleared m hold deadline hmem
      · cases all_values (hnone (List.ne_nil_of_mem hmem)) hold
    · have hsame : began = started ∧ deviceId ∈ outcome.invalidatedDeviceIds := by
        cases outcome with
        | accepted devices wait => exact ⟨(Option.some.inj hbegan).symm, hnamed⟩
        | refused retryable => cases hnamed
      obtain ⟨rfl, hdevice⟩ := hsame
      exact hserials began (by rw [hget]; rfl) deviceId hdevice binding hbinding
  · exact h

lemma Kept.absorb (h : Kept s) (hcareful : (Move.absorb n).Careful s) : Kept (s.step (.absorb n)) := by
  dsimp only [Plane.step]
  split
  · next started device devices wait asked hget =>
    refine (h.mark device).next hget rfl rfl (.inr ?_) nofun fun began hbegan deviceId hnamed => ?_
    · cases asked <;> rfl
    · exact (h.mark device).apt n _ hget began hbegan deviceId (List.mem_cons_of_mem _ hnamed)
  · next ms asked hget =>
    have hlonger := hcareful ms (by rw [hget]; rfl)
    have hcovered : ∀ deadline ∈ s.waits, Heeded ((s.suppressFor ms).advance n .done) deadline :=
      fun deadline hmem => .inl ⟨_, rfl, hlonger deadline hmem⟩
    have hkept : Kept (s.suppressFor ms) :=
      ⟨h.pending, fun deadline hmem => .inl ⟨_, rfl, hlonger deadline hmem⟩, h.cleared, h.apt⟩
    exact hkept.advance (hkept.pending.advance (by simp [Plane.suppressFor, hget]) rfl) hcovered
      (cleared_advance hkept.cleared nofun) nofun
  · next asked hget =>
    exact h.next hget rfl rfl (.inl (by cases asked <;> rfl)) nofun nofun
  · exact h

lemma Kept.step {m : Move} (h : Kept s) (hcareful : m.Careful s) : Kept (s.step m) := by
  cases m with
  | append n event data =>
    dsimp only [Plane.step]
    split
    · next hget =>
      refine h.advance (h.pending.append hcareful n event data) (fun deadline hmem =>
        (h.waits deadline hmem).advance fun old hold => ?_) (cleared_advance h.cleared nofun) nofun
      cases hget.symm.trans hold
    · exact h
  | observe n =>
    dsimp only [Plane.step]
    split
    · next event hget =>
      refine h.advance (h.pending.observe hget ?_) (fun deadline hmem =>
        (h.waits deadline hmem).advance fun old hold => .inl ?_) (cleared_advance h.cleared ?_) ?_
      · split <;> rfl
      · cases hget.symm.trans hold
        rfl
      all_goals split <;> nofun
    · exact h
  | readClient n =>
    dsimp only [Plane.step]
    split
    · next hget => cases s.client <;> exact h.next hget rfl rfl (.inl rfl) nofun nofun
    · exact h
  | check n =>
    dsimp only [Plane.step]
    split
    · next hget =>
      split
      · exact h.next hget rfl rfl (.inl rfl) nofun nofun
      · next hnot =>
        refine h.next hget rfl rfl (.inl rfl) (fun _ deadline hmem => ?_) nofun
        have hnone := hcareful.resolve_left hnot
        obtain ⟨stop, hstop, hle⟩ | ⟨m, stage, hm, ms, hms, -⟩ := h.waits deadline hmem
        · have hpast : ¬s.now < stop := fun hlt =>
            hnot (by rw [Plane.isSuppressed, hstop]; simpa using hlt)
          exact hle.trans (Nat.not_lt.mp hpast)
        · have hasked := all_values hnone hm
          rw [hms] at hasked
          cases hasked
    · exact h
  | pushManual n =>
    dsimp only [Plane.step]
    split
    · next hget =>
      have hold : ∀ event, s.threads.get n ≠ some (.appended event) := by simp [hget]
      have hasked (stage : Stage) (deadline : ℕ) (hmem : deadline ∈ s.waits) :
          Heeded (s.advance n stage) deadline := (h.waits deadline hmem).advance fun old hsome => by
        cases hget.symm.trans hsome
      cases s.client <;> exact h.advance (h.pending.advance hold rfl) (hasked _)
        (cleared_advance h.cleared nofun) nofun
    · exact h
  | attempt n =>
    dsimp only [Plane.step]
    split
    · next automatic hget => split <;> exact h.next hget rfl rfl (.inl rfl) nofun nofun
    · exact h
  | answer n outcome => exact h.answer hcareful
  | absorb n => exact h.absorb hcareful
  | register device => exact h.register hcareful
  | switchOn | switchOff => exact ⟨h.pending, h.waits, h.cleared, h.apt⟩
  | clear =>
    dsimp only [Plane.step]
    split
    · exact h
    · exact ⟨h.pending, nofun, fun _ _ => nofun, h.apt⟩
  | tick ms =>
    refine ⟨h.pending, fun deadline hmem => (h.waits deadline hmem).imp_right ?_,
      fun n hn deadline hmem => (h.cleared n hn deadline hmem).trans (Nat.le_add_right ..), h.apt⟩
    rintro ⟨n, stage, hget, wait, hwait, hle⟩
    exact ⟨n, stage, hget, wait, hwait, hle.trans (Nat.add_le_add_right (Nat.le_add_right ..) _)⟩

lemma Pending.ordered (h : Pending s) : s.Ordered := by
  obtain ⟨pending, hpending, hobserved⟩ := h
  refine ⟨?_, fun seq => ?_⟩
  · have hsorted : (s.observed ++ (pending.map (·.2.seq)).toList).Pairwise (· < ·) := by
      rw [hobserved]
      exact List.pairwise_lt_range'
    exact (List.pairwise_append.mp hsorted).1
  · have hmem : seq ∈ List.range' 1 s.log.nextSeq ↔ 1 ≤ seq ∧ seq ≤ s.log.nextSeq := by
      rw [List.mem_range'_1]
      omega
    rw [← hmem, ← hobserved, List.mem_append]
    simp only [hpending, Option.mem_toList, Option.map_eq_some_iff, Prod.exists]

lemma Kept.spares (h : Kept s) (hget : s.threads.get n = some stage) {started : ℕ}
    (hstarted : stage.startedAt = some started) {deviceId : String} {binding : PushBinding}
    (hbinding : s.bindings.get deviceId = some binding) (hlater : started < binding.serial) :
    (s.step (.absorb n)).bindings.get deviceId = some binding := by
  dsimp only [Plane.step]
  split
  · next began device devices wait asked hthread =>
    cases hget.symm.trans hthread
    have hother : deviceId ≠ device := by
      rintro rfl
      exact Nat.not_lt.mpr (h.apt n _ hget started hstarted deviceId List.mem_cons_self binding
        hbinding) hlater
    simp only [Plane.advance, Plane.markInvalidated]
    split
    · exact (Table.get_set_of_ne hother).trans hbinding
    · exact hbinding
  all_goals exact hbinding

/-- In a careful run the observer hears of each event once and in order, no automatic push starts in
a wait that the sender asked for, and no outcome marks a registration that is younger than its
attempt. -/
theorem follows_of_careful (moves : List Move)
    (h : Along Plane.step (fun s m => m.Careful s) .start moves) : Follows moves := by
  have hkept : ∀ earlier, earlier <+: moves → Kept (Plane.run earlier) := fun earlier hpre =>
    Along.invariant (Along.iff.mp h) kept_start (fun _ _ => Kept.step) hpre
  refine ⟨(hkept moves List.prefix_rfl).pending.ordered, fun earlier n hpre hcleared _ => ?_,
    fun earlier n hpre stage started hget hstarted deviceId binding hbinding hlater => ?_⟩
  · exact (hkept earlier ((List.prefix_append _ _).trans hpre)).cleared n hcleared
  · exact (hkept earlier ((List.prefix_append _ _).trans hpre)).spares hget hstarted hbinding hlater

def taskDone : Value := .obj [("task_id", .str "t"), ("status", .str "done")]

/-- Another device registers during a push. The answer names the first one and asks for a wait, and
a push after the wait goes to the other. -/
def waitedFor : List Move :=
  [.switchOn, .register "d", .append 0 "task-status" taskDone, .observe 0, .readClient 0, .check 0,
    .attempt 0, .register "e", .answer 0 (.accepted ["d"] (some 2000)), .absorb 0, .absorb 0,
    .tick 2000, .append 1 "task-status" taskDone, .observe 1, .readClient 1, .check 1, .attempt 1]

theorem follows_waitedFor : Along Plane.step (fun s m => m.Careful s) .start waitedFor ∧
    Follows waitedFor :=
  ⟨by decide, follows_of_careful waitedFor (by decide)⟩

/-- The later of two appends calls the observer first. -/
def observedLate : List Move := [.append 0 "a" .null, .append 1 "b" .null, .observe 1, .observe 0]

/-- Of two pushes that overlap the first is told to wait a minute and the second one a second. -/
def shortened : List Move :=
  [.switchOn, .register "d", .pushManual 0, .pushManual 1, .attempt 0, .attempt 1,
    .answer 0 (.accepted [] (some 60000)), .absorb 0, .answer 1 (.accepted [] (some 1000)), .absorb 1,
    .tick 1000, .append 2 "task-status" taskDone, .observe 2, .readClient 2, .check 2, .attempt 2]

/-- The device registers anew while a push to its old token is under way. -/
def registeredAnew : List Move :=
  [.switchOn, .register "d", .pushManual 0, .attempt 0, .register "d", .answer 0 (.accepted ["d"] none),
    .absorb 0]

theorem not_follows :
    ¬ Follows observedLate ∧ ¬ Follows shortened ∧ ¬ Follows registeredAnew := by
  refine ⟨fun h => absurd h.order.increasing (by decide), fun h => ?_, fun h => ?_⟩
  · have hearly := h.backoff shortened.dropLast 2 List.prefix_rfl (by rfl) (by decide) 60000 (by decide)
    exact absurd hearly (by decide)
  · have hkept := h.binding registeredAnew.dropLast 0 List.prefix_rfl _ 1 (by rfl) rfl "d" ⟨false, 2⟩
      (by decide) (by decide)
    exact absurd hkept (by decide)

end Aeroric.PushPlane
