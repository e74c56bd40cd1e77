import Aeroric.TerminalStreams

/-! Replay of a terminal's output. A subscriber asks for what follows its cursor; publications fall
between its questions, and between the reads that one question takes. -/
namespace Aeroric.Terminal

structure StreamChunk where
  offset : ℕ
  bytes : List UInt8
  gap : Bool

inductive StreamError
  | outOfRange (nextOffset : ℕ)
  | unknownStream

def ByteStream.readFrom (stream : ByteStream) (offset maxBytes : ℕ) :
    Except StreamError StreamChunk :=
  if stream.nextOffset < offset then .error (.outOfRange stream.nextOffset)
  else if offset < stream.retainedFrom then
    .ok ⟨stream.retainedFrom, stream.retained.take maxBytes, true⟩
  else
    let start := offset - stream.retainedFrom
    .ok ⟨offset, (stream.retained.drop start).take maxBytes, false⟩

def State.readFrom (state : State) (identity : TerminalIdentity) (offset maxBytes : ℕ) :
    Except StreamError StreamChunk :=
  match state.streams.get identity with
  | some stream => stream.readFrom offset maxBytes
  | none => .error .unknownStream

def State.bounds (state : State) (identity : TerminalIdentity) : Option (ℕ × ℕ) :=
  (state.streams.get identity).map fun stream => (stream.retainedFrom, stream.nextOffset)

inductive ResumePoint
  | bytes (offset : ℕ)
  | unitsFromStart (units : ℕ)
  deriving DecidableEq

inductive ResetReason
  | compacted (earliest : ℕ)
  | unknownStream
  | cursorBeyondStream (nextOffset : ℕ)
  | unitsNotAnchorable
  deriving DecidableEq

inductive ReplayPlan
  | seamless (offset : ℕ) (bytes : List UInt8)
  | reset (start : ℕ) (bytes : List UInt8) (reason : ResetReason)
  deriving DecidableEq

namespace ReplayPlan

/-- Where the bytes of the plan are said to stand. -/
def start : ReplayPlan → ℕ
  | .seamless offset _ => offset
  | .reset start _ _ => start

def bytes : ReplayPlan → List UInt8
  | .seamless _ bytes => bytes
  | .reset _ bytes _ => bytes

def stop (plan : ReplayPlan) : ℕ := plan.start + plan.bytes.length

def resumeAfter (plan : ReplayPlan) : ResumePoint := .bytes plan.stop

def gap : ReplayPlan → Bool
  | .seamless .. => false
  | .reset .. => true

end ReplayPlan

def planBytes (read : Except StreamError StreamChunk) : ReplayPlan :=
  match read with
  | .ok chunk =>
    if chunk.gap then .reset chunk.offset chunk.bytes (.compacted chunk.offset)
    else .seamless chunk.offset chunk.bytes
  | .error .unknownStream => .reset 0 [] .unknownStream
  | .error (.outOfRange nextOffset) => .reset nextOffset [] (.cursorBeyondStream nextOffset)

/-- The answer to a cursor of units, when nothing of the stream was rendered or dropped. -/
def planWhole (read : Except StreamError StreamChunk) : Option ReplayPlan :=
  match read with
  | .ok chunk => if chunk.gap then none else some (.seamless chunk.offset chunk.bytes)
  | .error _ => none

def planEarliest (units earliest : ℕ) (read : Except StreamError StreamChunk) : ReplayPlan :=
  let bytes := match read with
    | .ok chunk => chunk.bytes
    | .error _ => []
  .reset earliest bytes (if units = 0 then .compacted earliest else .unitsNotAnchorable)

/-- The plan when nothing is published meanwhile. -/
def planReplay (state : State) (identity : TerminalIdentity) (cursor : ResumePoint)
    (maxBytes : ℕ) : ReplayPlan :=
  match cursor with
  | .bytes offset => planBytes (state.readFrom identity offset maxBytes)
  | .unitsFromStart units =>
    match state.bounds identity with
    | none => .reset 0 [] .unknownStream
    | some (earliest, _) =>
      let whole := if units = 0 ∧ earliest = 0 then planWhole (state.readFrom identity 0 maxBytes)
        else none
      whole.getD (planEarliest units earliest (state.readFrom identity earliest maxBytes))

/-! The same in steps, each of which is one call of the service. -/

inductive Phase
  | idle (cursor : ResumePoint)
  /-- The bounds are read, and the stream is still whole. -/
  | whole (maxBytes : ℕ)
  | earliest (units earliest maxBytes : ℕ)

structure World where
  state : State
  /-- What was published of the stream. -/
  sent : List UInt8
  phase : Phase
  /-- The plans so far, the last one first. -/
  plans : List ReplayPlan

inductive Move
  | publish (identity : TerminalIdentity) (bytes : List UInt8)
  | advance (maxBytes : ℕ)

namespace World

def start (cursor : ResumePoint) : World := ⟨.default, [], .idle cursor, []⟩

def deliver (plan : ReplayPlan) (world : World) : World :=
  { world with phase := .idle plan.resumeAfter, plans := plan :: world.plans }

def advance (identity : TerminalIdentity) (maxBytes : ℕ) (world : World) : World :=
  match world.phase with
  | .idle (.bytes offset) =>
    world.deliver (planBytes (world.state.readFrom identity offset maxBytes))
  | .idle (.unitsFromStart units) =>
    match world.state.bounds identity with
    | none => world.deliver (.reset 0 [] .unknownStream)
    | some (earliest, _) =>
      if units = 0 ∧ earliest = 0 then { world with phase := .whole maxBytes }
      else { world with phase := .earliest units earliest maxBytes }
  | .whole maxBytes =>
    match planWhole (world.state.readFrom identity 0 maxBytes) with
    | some plan => world.deliver plan
    | none => { world with phase := .earliest 0 0 maxBytes }
  | .earliest units earliest maxBytes =>
    world.deliver (planEarliest units earliest (world.state.readFrom identity earliest maxBytes))

/-- Calls with no publication between them come to the plan of the function. -/
lemma advance_planReplay (identity : TerminalIdentity) (maxBytes : ℕ) {world : World}
    {cursor : ResumePoint} (h : world.phase = .idle cursor) :
    ∃ calls, (World.advance identity maxBytes)^[calls] world =
      world.deliver (planReplay world.state identity cursor maxBytes) := by
  cases cursor with
  | bytes offset => exact ⟨1, by simp [World.advance, h, planReplay]⟩
  | unitsFromStart units =>
    cases hbounds : world.state.bounds identity with
    | none => exact ⟨1, by simp [World.advance, h, planReplay, hbounds]⟩
    | some bounds =>
      obtain ⟨earliest, next⟩ := bounds
      by_cases hzero : units = 0 ∧ earliest = 0
      · cases hwhole : planWhole (world.state.readFrom identity 0 maxBytes) with
        | some plan =>
          refine ⟨2, ?_⟩
          simp [World.advance, h, planReplay, hbounds, hzero, hwhole, World.deliver]
        | none =>
          refine ⟨3, ?_⟩
          simp [World.advance, h, planReplay, hbounds, hzero, hwhole, World.deliver]
      · refine ⟨2, ?_⟩
        simp [World.advance, h, planReplay, hbounds, hzero, World.deliver]

def step (identity : TerminalIdentity) (world : World) : Move → World
  | .publish other bytes =>
    let published := world.state.publish other bytes
    { world with
      state := published.2
      sent := if other = identity ∧ published.1 = .accepted then world.sent ++ bytes
        else world.sent }
  | .advance maxBytes => world.advance identity maxBytes

def run (identity : TerminalIdentity) (cursor : ResumePoint) (moves : List Move) : World :=
  moves.foldl (step identity) (start cursor)

end World

/-! What a replay promises. -/

/-- The plan's bytes are those of the stream where it says. -/
structure Exact (sent : List UInt8) (plan : ReplayPlan) : Prop where
  inside : plan.stop ≤ sent.length
  bytes : plan.bytes = (sent.drop plan.start).take plan.bytes.length

/-- A plan goes on where the one before ended, or says that it does not; it never goes back. -/
structure Follows (plan before : ReplayPlan) : Prop where
  onwards : before.stop ≤ plan.start
  seamless : plan.gap = false → plan.start = before.stop

/-- A seamless plan for a cursor starts where the cursor stands; what was rendered in units has a place
in the stream only if it is nothing. -/
def ResumePoint.Meets (cursor : ResumePoint) (start : ℕ) : Prop :=
  match cursor with
  | .bytes offset => start = offset
  | .unitsFromStart units => units = 0 ∧ start = 0

structure Replayed (cursor : ResumePoint) (world : World) : Prop where
  begins : ∀ first ∈ world.plans.getLast?, first.gap = false → cursor.Meets first.start
  exact_ : ∀ plan ∈ world.plans, Exact world.sent plan
  follows : world.plans.IsChain Follows
  once : world.plans.Pairwise fun plan before => before.stop ≤ plan.start

/-- While a plan is between two of its reads, nothing is dropped from the stream. -/
def Spares (identity : TerminalIdentity) (world : World) : Move → Prop
  | .publish other bytes => other = identity → (∀ cursor, world.phase ≠ .idle cursor) →
      ∀ stream, world.state.streams.get identity = some stream →
        stream.retained.length + bytes.length ≤ stream.capacity
  | .advance _ => True

/-! The buffer holds the end of what was published. -/

structure Holds (stream : ByteStream) (sent : List UInt8) : Prop where
  inside : stream.retainedFrom ≤ sent.length
  retained : stream.retained = sent.drop stream.retainedFrom
  next : stream.nextOffset = sent.length

lemma Holds.new (identity : TerminalIdentity) (capacity : ℕ) :
    Holds (ByteStream.new identity capacity) [] := ⟨le_rfl, rfl, rfl⟩

variable {sent : List UInt8}

lemma Holds.append {stream : ByteStream} (h : Holds stream sent)
    (bytes : List UInt8) : Holds (stream.append bytes) (sent ++ bytes) where
  inside := by
    have hlength := congrArg List.length h.retained
    rw [List.length_drop] at hlength
    simp only [ByteStream.append, List.length_append]
    have := h.inside
    omega
  retained := by
    simp only [ByteStream.append]
    rw [← List.drop_drop, List.drop_append_of_le_length h.inside, ← h.retained]
  next := by simp [ByteStream.append, h.next]

lemma Holds.readFrom {stream : ByteStream} (h : Holds stream sent)
    {offset : ℕ} (hoffset : stream.retainedFrom ≤ offset) (hinside : offset ≤ sent.length)
    (maxBytes : ℕ) : stream.readFrom offset maxBytes =
      .ok ⟨offset, (sent.drop offset).take maxBytes, false⟩ := by
  have hdrop : stream.retained.drop (offset - stream.retainedFrom) = sent.drop offset := by
    rw [h.retained, List.drop_drop]
    congr 1
    omega
  unfold ByteStream.readFrom
  rw [if_neg (by rw [h.next]; omega), if_neg (by omega)]
  simp only [hdrop]

lemma Holds.readFrom_gap {stream : ByteStream} (h : Holds stream sent)
    {offset : ℕ} (hoffset : offset < stream.retainedFrom) (maxBytes : ℕ) :
    stream.readFrom offset maxBytes =
      .ok ⟨stream.retainedFrom, (sent.drop stream.retainedFrom).take maxBytes, true⟩ := by
  have hinside := h.inside
  unfold ByteStream.readFrom
  rw [if_neg (by rw [h.next]; omega), if_pos hoffset, h.retained]

variable {plan : ReplayPlan}

lemma exact_take {start : ℕ} (hstart : start ≤ sent.length) (maxBytes : ℕ) (hplan : plan.start = start)
    (hbytes : plan.bytes = (sent.drop start).take maxBytes) : Exact sent plan := by
  have hlength : plan.bytes.length ≤ sent.length - start := by
    rw [hbytes, List.length_take, List.length_drop]
    omega
  refine ⟨?_, ?_⟩
  · rw [ReplayPlan.stop, hplan]
    omega
  · rw [hplan, hbytes, List.length_take, List.take_eq_take_iff]
    omega

lemma Exact.append (h : Exact sent plan) (bytes : List UInt8) : Exact (sent ++ bytes) plan := by
  have hinside := h.inside
  have hstop : plan.start + plan.bytes.length ≤ sent.length := hinside
  refine ⟨by rw [List.length_append]; omega, ?_⟩
  rw [List.drop_append_of_le_length (by omega), List.take_append_of_le_length]
  · exact h.bytes
  · rw [List.length_drop]
    omega

/-! What holds throughout a replay in which every publication spares the reads. -/

/-- Where the subscriber stands: it asks for what follows its last plan, and between two reads the
stream starts where the first found it to. -/
def Stands (identity : TerminalIdentity) (cursor : ResumePoint) (world : World) : Prop :=
  match world.phase with
  | .idle (.bytes offset) => (∀ plan ∈ world.plans.head?, offset = plan.stop) ∧
      (world.plans = [] → cursor = .bytes offset)
  | .idle (.unitsFromStart units) => world.plans = [] ∧ cursor = .unitsFromStart units
  | .whole _ => world.plans = [] ∧ cursor = .unitsFromStart 0 ∧
      ∃ stream, world.state.streams.get identity = some stream ∧ stream.retainedFrom = 0
  | .earliest _ earliest _ => world.plans = [] ∧
      ∃ stream, world.state.streams.get identity = some stream ∧ stream.retainedFrom = earliest

structure Tracking (identity : TerminalIdentity) (cursor : ResumePoint) (world : World) : Prop where
  unfinished : world.state.finished = .empty
  absent : world.state.streams.get identity = none → world.sent = []
  held : ∀ stream, world.state.streams.get identity = some stream → Holds stream world.sent
  replayed : Replayed cursor world
  stands : Stands identity cursor world

lemma tracking_start (identity : TerminalIdentity) (cursor : ResumePoint) :
    Tracking identity cursor (World.start cursor) where
  unfinished := rfl
  absent := fun _ => rfl
  held := nofun
  replayed := ⟨nofun, nofun, .nil, .nil⟩
  stands := by cases cursor <;> simp [Stands, World.start]

section Steps
variable {identity : TerminalIdentity} {cursor : ResumePoint} {world : World}

lemma Tracking.deliver (h : Tracking identity cursor world) (hexact : Exact world.sent plan)
    (hbegins : world.plans = [] → plan.gap = false → cursor.Meets plan.start)
    (hfollows : ∀ before ∈ world.plans.head?, Follows plan before) :
    Tracking identity cursor (world.deliver plan) where
  unfinished := h.unfinished
  absent := h.absent
  held := h.held
  replayed := by
    refine ⟨?_, ?_, ?_, ?_⟩
    · have hfirst := h.replayed.begins
      show ∀ first ∈ (plan :: world.plans).getLast?, _
      cases hplans : world.plans with
      | nil =>
        rintro first hlast
        cases hlast
        exact hbegins hplans
      | cons before rest =>
        rw [hplans] at hfirst
        rwa [List.getLast?_cons_cons]
    · intro other hother
      rcases List.mem_cons.mp hother with rfl | hother
      · exact hexact
      · exact h.replayed.exact_ other hother
    · have hchain := h.replayed.follows
      show (plan :: world.plans).IsChain Follows
      cases hplans : world.plans with
      | nil => exact .singleton plan
      | cons before rest =>
        rw [hplans] at hchain
        exact List.isChain_cons_cons.mpr ⟨hfollows before (by rw [hplans]; rfl), hchain⟩
    · refine List.pairwise_cons.mpr ⟨fun other hother => ?_, h.replayed.once⟩
      have honce := h.replayed.once
      cases hplans : world.plans with
      | nil =>
        rw [hplans] at hother
        cases hother
      | cons before rest =>
        rw [hplans] at hother honce
        have hlast := (hfollows before (by rw [hplans]; rfl)).onwards
        rcases List.mem_cons.mp hother with rfl | hother
        · exact hlast
        · have hearlier := (List.pairwise_cons.mp honce).1 other hother
          exact hearlier.trans ((Nat.le_add_right ..).trans hlast)
  stands := by
    refine ⟨fun other hother => ?_, nofun⟩
    cases hother
    rfl

lemma Tracking.last_inside (h : Tracking identity cursor world)
    (hplan : plan ∈ world.plans.head?) : plan.stop ≤ world.sent.length :=
  (h.replayed.exact_ plan (List.mem_of_mem_head? hplan)).inside

lemma Tracking.planBytes_cases (h : Tracking identity cursor world) (offset maxBytes : ℕ) :
    let plan := planBytes (world.state.readFrom identity offset maxBytes)
    Exact world.sent plan ∧
      ((offset ≤ world.sent.length ∧ plan.gap = false ∧ plan.start = offset ∧
          plan.bytes = (world.sent.drop offset).take maxBytes) ∨
        (offset ≤ world.sent.length ∧ plan.gap = true ∧ offset < plan.start) ∨
        (world.sent.length < offset ∧ plan.gap = true ∧ plan.stop = world.sent.length) ∨
        (world.sent = [] ∧ plan.gap = true ∧ plan.start = 0 ∧ plan.bytes = [])) := by
  intro plan
  have hplan : plan = planBytes (world.state.readFrom identity offset maxBytes) := rfl
  unfold State.readFrom at hplan
  cases hstream : world.state.streams.get identity with
  | none =>
    have hsent := h.absent hstream
    rw [hstream] at hplan
    rw [hplan, hsent]
    exact ⟨⟨le_rfl, rfl⟩, .inr (.inr (.inr ⟨rfl, rfl, rfl, rfl⟩))⟩
  | some stream =>
    have hholds := h.held stream hstream
    rw [hstream] at hplan
    dsimp only at hplan
    rcases lt_or_ge world.sent.length offset with hbeyond | hinside
    · have hread : stream.readFrom offset maxBytes = .error (.outOfRange world.sent.length) := by
        unfold ByteStream.readFrom
        rw [if_pos (by rw [hholds.next]; exact hbeyond), hholds.next]
      rw [hread] at hplan
      rw [hplan]
      exact ⟨⟨le_rfl, rfl⟩, .inr (.inr (.inl ⟨hbeyond, rfl, rfl⟩))⟩
    · rcases lt_or_ge offset stream.retainedFrom with hgap | hkept
      · rw [hholds.readFrom_gap hgap] at hplan
        rw [hplan]
        exact ⟨exact_take hholds.inside maxBytes rfl rfl, .inr (.inl ⟨hinside, rfl, hgap⟩)⟩
      · rw [hholds.readFrom hkept hinside] at hplan
        rw [hplan]
        exact ⟨exact_take hinside maxBytes rfl rfl, .inl ⟨hinside, rfl, rfl, rfl⟩⟩

lemma Tracking.advance (h : Tracking identity cursor world) (maxBytes : ℕ) :
    Tracking identity cursor (world.advance identity maxBytes) := by
  have hstands := h.stands
  unfold World.advance
  unfold Stands at hstands
  cases hphase : world.phase with
  | idle cursor =>
    rw [hphase] at hstands
    cases cursor with
    | bytes offset =>
      dsimp only at hstands ⊢
      obtain ⟨hexact, hcases⟩ := h.planBytes_cases offset maxBytes
      refine h.deliver hexact (fun hnone hgap => ?_) fun before hbefore => ?_
      · rw [hstands.2 hnone]
        obtain ⟨-, -, hstart, -⟩ | ⟨-, hreset, -⟩ | ⟨-, hreset, -⟩ | ⟨-, hreset, -⟩ := hcases
        · exact hstart
        all_goals cases hreset.symm.trans hgap
      have hoffset := hstands.1 before hbefore
      have hinside := h.last_inside hbefore
      obtain ⟨-, hgap, hstart, -⟩ | ⟨-, hgap, hlt⟩ | ⟨hbeyond, -, -⟩ | ⟨hsent, hgap, hstart, -⟩ :=
        hcases
      · exact ⟨by omega, fun _ => by omega⟩
      · exact ⟨by omega, fun hno => by rw [hgap] at hno; cases hno⟩
      · omega
      · rw [hsent] at hinside
        exact ⟨by rw [hstart]; exact hinside, fun hno => by rw [hgap] at hno; cases hno⟩
    | unitsFromStart units =>
      dsimp only at hstands ⊢
      unfold State.bounds
      cases hstream : world.state.streams.get identity with
      | none =>
        refine h.deliver ⟨Nat.zero_le _, rfl⟩ nofun ?_
        rw [hstands.1]
        exact nofun
      | some stream =>
        dsimp only [Option.map_some]
        split
        · rename_i hzero
          exact ⟨h.unfinished, h.absent, h.held, ⟨h.replayed.begins, h.replayed.exact_,
            h.replayed.follows, h.replayed.once⟩, hstands.1, hzero.1 ▸ hstands.2, stream, hstream,
            hzero.2⟩
        · exact ⟨h.unfinished, h.absent, h.held, ⟨h.replayed.begins, h.replayed.exact_,
            h.replayed.follows, h.replayed.once⟩, hstands.1, stream, hstream, rfl⟩
  | whole maxBytes =>
    rw [hphase] at hstands
    obtain ⟨hplans, hcursor, stream, hstream, hstart⟩ := hstands
    have hread : stream.readFrom 0 maxBytes = _ :=
      (h.held stream hstream).readFrom (by omega) (Nat.zero_le _) maxBytes
    simp only [State.readFrom, hstream, hread, planWhole]
    refine h.deliver (exact_take (Nat.zero_le _) maxBytes rfl rfl) ?_ ?_
    · rw [hcursor]
      exact fun _ _ => ⟨rfl, rfl⟩
    rw [hplans]
    exact nofun
  | earliest units earliest maxBytes =>
    rw [hphase] at hstands
    obtain ⟨hplans, stream, hstream, rfl⟩ := hstands
    have hholds := h.held stream hstream
    simp only [State.readFrom, hstream, hholds.readFrom le_rfl hholds.inside, planEarliest]
    refine h.deliver (exact_take hholds.inside maxBytes rfl rfl) nofun ?_
    rw [hplans]
    exact nofun

lemma evictFinishedLocked_of_empty {state : State} (h : state.finished = .empty) :
    state.evictFinishedLocked = state := by
  have hone : state.evictOne = none := by
    unfold State.evictOne
    rw [h]
    rfl
  unfold State.evictFinishedLocked
  cases state.order.length with
  | zero => rfl
  | succ turns => simp only [State.evict, hone]

/-- What a publication does to the stream of the replay, when no stream is finished. -/
lemma publish_stream (identity : TerminalIdentity) {state : State} (h : state.finished = .empty)
    (other : TerminalIdentity) (bytes : List UInt8) :
    (state.publish other bytes).2.finished = .empty ∧
      ((state.publish other bytes).2.streams.get identity = state.streams.get identity ∧
          (other = identity ∧ (state.publish other bytes).1 = .accepted → bytes = []) ∨
        (other = identity ∧ (state.publish other bytes).1 = .accepted) ∧
          (state.publish other bytes).2.streams.get identity =
            some (((state.streams.get identity).getD
              (ByteStream.new identity terminalReplayWindowBytes)).append bytes)) := by
  obtain ⟨hnil, heq⟩ | ⟨stream, hstream, heq⟩ | ⟨-, -, heq⟩ | ⟨hnone, heq⟩ :=
    state.publish_cases other bytes <;> rw [heq]
  · exact ⟨h, .inl ⟨rfl, fun _ => hnil⟩⟩
  · refine ⟨h, ?_⟩
    by_cases hother : identity = other
    · subst hother
      exact .inr ⟨⟨rfl, rfl⟩, by simp [hstream]⟩
    · exact .inl ⟨Table.get_set_of_ne hother, fun hsame => absurd hsame.1.symm hother⟩
  · exact ⟨h, .inl ⟨rfl, nofun⟩⟩
  · rw [evictFinishedLocked_of_empty h]
    refine ⟨h, ?_⟩
    by_cases hother : identity = other
    · subst hother
      exact .inr ⟨⟨rfl, rfl⟩, by simp [hnone]⟩
    · exact .inl ⟨Table.get_set_of_ne hother, fun hsame => absurd hsame.1.symm hother⟩

lemma Tracking.publish (h : Tracking identity cursor world) {other : TerminalIdentity}
    {bytes : List UInt8} (hspares : Spares identity world (.publish other bytes)) :
    Tracking identity cursor (world.step identity (.publish other bytes)) := by
  obtain ⟨hfinished, ⟨hstream, hnil⟩ | ⟨hsame, hstream⟩⟩ :=
    publish_stream identity h.unfinished other bytes
  · have hsent : (world.step identity (.publish other bytes)).sent = world.sent := by
      show (if _ then _ else _) = _
      split
      · rename_i hsame
        rw [hnil hsame, List.append_nil]
      · rfl
    have hstands := h.stands
    refine ⟨hfinished, ?_, ?_, ⟨h.replayed.begins, ?_, h.replayed.follows, h.replayed.once⟩, ?_⟩
    · rw [hsent]
      exact fun hnone => h.absent (hstream.symm.trans hnone)
    · rw [hsent]
      exact fun stream hsome => h.held stream (hstream.symm.trans hsome)
    · rw [hsent]
      exact h.replayed.exact_
    · unfold Stands at hstands ⊢
      simp only [World.step, hstream]
      exact hstands
  · have hsent : (world.step identity (.publish other bytes)).sent = world.sent ++ bytes :=
      if_pos hsame
    have hholds : Holds ((world.state.streams.get identity).getD
        (ByteStream.new identity terminalReplayWindowBytes)) world.sent := by
      cases hget : world.state.streams.get identity with
      | none =>
        rw [h.absent hget]
        exact Holds.new ..
      | some stream => exact h.held stream hget
    have hstands := h.stands
    refine ⟨hfinished, (fun hnone => nomatch hstream.symm.trans hnone), ?_,
      ⟨h.replayed.begins, ?_, h.replayed.follows, h.replayed.once⟩, ?_⟩
    · intro stream hsome
      cases hstream.symm.trans hsome
      rw [hsent]
      exact hholds.append bytes
    · rw [hsent]
      exact fun plan hplan => (h.replayed.exact_ plan hplan).append bytes
    · -- Between two reads the stream is there, and loses nothing.
      have hkept : (∀ cursor, world.phase ≠ .idle cursor) → ∀ stream,
          world.state.streams.get identity = some stream →
          ∃ stream', (world.step identity (.publish other bytes)).state.streams.get identity =
            some stream' ∧ stream'.retainedFrom = stream.retainedFrom := by
        intro hphase stream hget
        refine ⟨_, hstream, ?_⟩
        have hroom := hspares hsame.1 hphase stream hget
        rw [hget]
        simp only [Option.getD_some, ByteStream.append, List.length_append]
        omega
      unfold Stands at hstands ⊢
      simp only [World.step] at hkept ⊢
      cases hphase : world.phase with
      | idle cursor =>
        rw [hphase] at hstands
        cases cursor <;> exact hstands
      | whole maxBytes =>
        rw [hphase] at hstands
        obtain ⟨hplans, hcursor, stream, hget, hstart⟩ := hstands
        obtain ⟨stream', hget', hstart'⟩ := hkept (by rw [hphase]; nofun) stream hget
        exact ⟨hplans, hcursor, stream', hget', hstart'.trans hstart⟩
      | earliest units earliest maxBytes =>
        rw [hphase] at hstands
        obtain ⟨hplans, stream, hget, hstart⟩ := hstands
        obtain ⟨stream', hget', hstart'⟩ := hkept (by rw [hphase]; nofun) stream hget
        exact ⟨hplans, stream', hget', hstart'.trans hstart⟩

lemma Tracking.step (h : Tracking identity cursor world) {move : Move}
    (hspares : Spares identity world move) : Tracking identity cursor (world.step identity move) := by
  cases move with
  | publish other bytes => exact h.publish hspares
  | advance maxBytes => exact h.advance maxBytes

end Steps

variable {identity : TerminalIdentity} {cursor : ResumePoint}

lemma tracking_run (moves : List Move)
    (h : ∀ earlier move, earlier ++ [move] <+: moves →
      Spares identity (World.run identity cursor earlier) move) :
    Tracking identity cursor (World.run identity cursor moves) := by
  induction moves using List.reverseRecOn with
  | nil => exact tracking_start identity cursor
  | append_singleton moves move ih =>
    have hbefore := ih fun earlier move hpre =>
      h earlier move (hpre.trans (List.prefix_append ..))
    have hrun : World.run identity cursor (moves ++ [move]) =
        (World.run identity cursor moves).step identity move := by
      simp [World.run]
    rw [hrun]
    exact hbefore.step (h moves move List.prefix_rfl)

/-! When nothing more is published, the subscriber comes to the end. -/

def World.distance (world : World) : ℕ :=
  match world.phase with
  | .idle (.bytes offset) =>
    if offset ≤ world.sent.length then world.sent.length - offset else 1
  | .earliest _ _ _ => world.sent.length + 1
  | .whole _ => world.sent.length + 2
  | .idle (.unitsFromStart _) => world.sent.length + 3

lemma deliver_distance {world : World} (h : Exact world.sent plan) :
    (world.deliver plan).distance = world.sent.length - plan.stop := if_pos h.inside

lemma Tracking.advance_distance {world : World}
    (h : Tracking identity cursor world) {maxBytes : ℕ} (hmax : 0 < maxBytes) :
    (world.advance identity maxBytes).distance ≤ world.distance - 1 := by
  have hstands := h.stands
  unfold Stands at hstands
  unfold World.advance
  cases hphase : world.phase with
  | idle cursor =>
    cases cursor with
    | bytes offset =>
      dsimp only
      obtain ⟨hexact, hcases⟩ := h.planBytes_cases offset maxBytes
      have hinside := hexact.inside
      rw [deliver_distance hexact]
      simp only [World.distance, hphase]
      unfold ReplayPlan.stop at hcases hinside ⊢
      obtain ⟨ho, -, hstart, hbytes⟩ | ⟨ho, -, hlt⟩ | ⟨ho, -, hstop⟩ | ⟨hsent, -, -, -⟩ := hcases
      · rw [if_pos ho, hstart, hbytes, List.length_take, List.length_drop]
        omega
      · rw [if_pos ho]
        omega
      · rw [hstop]
        omega
      · rw [hsent, List.length_nil]
        omega
    | unitsFromStart units =>
      dsimp only
      split
      · rw [deliver_distance ⟨Nat.zero_le _, rfl⟩]
        simp only [World.distance, hphase]
        omega
      · split <;> simp only [World.distance, hphase] <;> omega
  | whole maxBytes =>
    rw [hphase] at hstands
    obtain ⟨-, -, stream, hstream, hstart⟩ := hstands
    have hread : stream.readFrom 0 maxBytes = _ :=
      (h.held stream hstream).readFrom (by omega) (Nat.zero_le _) maxBytes
    simp only [State.readFrom, hstream, hread, planWhole]
    rw [if_neg Bool.false_ne_true, deliver_distance (exact_take (Nat.zero_le _) maxBytes rfl rfl)]
    simp only [World.distance, hphase]
    omega
  | earliest units earliest maxBytes =>
    rw [hphase] at hstands
    obtain ⟨-, stream, hstream, rfl⟩ := hstands
    have hholds := h.held stream hstream
    simp only [State.readFrom, hstream, hholds.readFrom le_rfl hholds.inside, planEarliest]
    rw [deliver_distance (exact_take hholds.inside maxBytes rfl rfl)]
    simp only [World.distance, hphase]
    omega

lemma advance_sent (identity : TerminalIdentity) (maxBytes : ℕ) (world : World) :
    (world.advance identity maxBytes).sent = world.sent := by
  unfold World.advance
  split
  · rfl
  · split
    · rfl
    · split <;> rfl
  · split <;> rfl
  · rfl

lemma phase_of_distance {world : World} (h : world.distance = 0) :
    world.phase = .idle (.bytes world.sent.length) := by
  unfold World.distance at h
  split at h
  · rename_i offset hphase
    split at h
    · rw [hphase, show offset = world.sent.length by omega]
    · cases h
  · omega
  · omega
  · omega

lemma Tracking.catchUp {world : World} (h : Tracking identity cursor world)
    {calls : List ℕ} (hcalls : ∀ maxBytes ∈ calls, 0 < maxBytes)
    (hlong : world.distance ≤ calls.length) :
    (calls.foldl (fun world maxBytes => world.advance identity maxBytes) world).phase =
      .idle (.bytes world.sent.length) := by
  induction calls generalizing world with
  | nil => exact phase_of_distance (Nat.le_zero.mp hlong)
  | cons maxBytes calls ih =>
    have hcloser := h.advance_distance (hcalls maxBytes List.mem_cons_self)
    rw [List.length_cons] at hlong
    have hrest := ih (h.advance maxBytes) (fun m hm => hcalls m (List.mem_cons_of_mem _ hm))
      (by omega)
    rwa [advance_sent] at hrest

/-- A replay in which nothing is dropped between two reads of a plan delivers the stream: each plan
has the bytes it names, goes on from the last (the first one from the cursor) or says that it does not,
and never goes back. When
nothing more is published it comes to the end. -/
theorem replay_exact {identity : TerminalIdentity} {cursor : ResumePoint} {moves : List Move}
    (h : ∀ earlier move, earlier ++ [move] <+: moves →
      Spares identity (World.run identity cursor earlier) move) :
    Replayed cursor (World.run identity cursor moves) ∧
      ∀ calls : List ℕ, (∀ maxBytes ∈ calls, 0 < maxBytes) →
        (World.run identity cursor moves).sent.length + 3 ≤ calls.length →
        (calls.foldl (fun world maxBytes => world.advance identity maxBytes)
          (World.run identity cursor moves)).phase =
            .idle (.bytes (World.run identity cursor moves).sent.length) := by
  have htracking := tracking_run moves h
  refine ⟨htracking.replayed, fun calls hcalls hlong => htracking.catchUp hcalls ?_⟩
  refine le_trans ?_ hlong
  unfold World.distance
  split
  · split <;> omega
  · omega
  · omega
  · omega

/-- A subscriber of the old kind that has rendered something, and output while it asks. -/
def laterOutput : List Move :=
  [.publish ⟨"a", 1⟩ [1, 2, 3], .advance 2, .publish ⟨"a", 1⟩ [4], .advance 2, .advance 2]

theorem laterOutput_exact :
    Replayed (.unitsFromStart 7) (World.run ⟨"a", 1⟩ (.unitsFromStart 7) laterOutput) ∧
      (World.run ⟨"a", 1⟩ (.unitsFromStart 7) laterOutput).plans =
        [.seamless 2 [3, 4], .reset 0 [1, 2] .unitsNotAnchorable] := by
  refine ⟨(replay_exact fun earlier move hpre => ?_).1, by decide⟩
  obtain ⟨rest, hrest⟩ := hpre
  rw [List.append_assoc, List.singleton_append] at hrest
  match earlier with
  | [] =>
    cases hrest
    exact fun _ hphase => absurd rfl (hphase _)
  | [_] =>
    cases hrest
    exact trivial
  | [_, _] =>
    cases hrest
    intro _ _ stream hstream
    have : (⟨⟨"a", 1⟩, [1, 2, 3], 0, 3, terminalReplayWindowBytes⟩ : ByteStream) = stream :=
      Option.some.inj hstream
    subst this
    decide
  | [_, _, _] =>
    cases hrest
    exact trivial
  | [_, _, _, _] =>
    cases hrest
    exact trivial
  | _ :: _ :: _ :: _ :: _ :: earlier => simp [laterOutput] at hrest

/-- A fresh subscriber reads the bounds, and then there is more output. -/
def overtaken (bytes : List UInt8) : List Move :=
  [.publish ⟨"a", 1⟩ [1], .advance 1, .publish ⟨"a", 1⟩ bytes, .advance 1, .advance 1]

/-- Output that fills the window: the plan names the stream's first byte and has the second. -/
lemma overtaken_run {bytes : List UInt8} (h : bytes.length = terminalReplayWindowBytes) :
    (World.run ⟨"a", 1⟩ (.unitsFromStart 0) (overtaken bytes)).plans =
        [.reset 0 (bytes.take 1) (.compacted 0)] ∧
      (World.run ⟨"a", 1⟩ (.unitsFromStart 0) (overtaken bytes)).sent = [1] ++ bytes := by
  have happend : (⟨⟨"a", 1⟩, [1], 0, 1, terminalReplayWindowBytes⟩ : ByteStream).append bytes =
      ⟨⟨"a", 1⟩, bytes, 1, 1 + bytes.length, terminalReplayWindowBytes⟩ := by
    simp [ByteStream.append, h]
  have hnonempty : bytes ≠ [] := by
    rintro rfl
    cases h
  have hpublish : (State.publish ⟨"a", 1⟩ [1] .default).2.publish ⟨"a", 1⟩ bytes = (.accepted,
      { (State.publish ⟨"a", 1⟩ [1] .default).2 with
        streams := (State.publish ⟨"a", 1⟩ [1] .default).2.streams.set ⟨"a", 1⟩
          ⟨⟨"a", 1⟩, bytes, 1, 1 + bytes.length, terminalReplayWindowBytes⟩ }) := by
    rw [← happend]
    exact if_neg hnonempty
  have hbetween : World.step ⟨"a", 1⟩ (World.step ⟨"a", 1⟩ (World.start (.unitsFromStart 0))
      (.publish ⟨"a", 1⟩ [1])) (.advance 1) =
        ⟨(State.publish ⟨"a", 1⟩ [1] .default).2, [1], .whole 1, []⟩ := rfl
  rw [World.run, overtaken, List.foldl_cons, List.foldl_cons, hbetween]
  simp only [List.foldl_cons, List.foldl_nil, World.step, hpublish, World.advance, State.readFrom,
    Table.get_set_self, ByteStream.readFrom, planWhole, planEarliest, World.deliver,
    Nat.not_lt_zero, if_false, Nat.one_pos, if_true, and_self]

lemma not_replayed_of_overtaken {rest : List UInt8}
    (h : (0 :: rest).length = terminalReplayWindowBytes) :
    ¬ Replayed (.unitsFromStart 0)
      (World.run ⟨"a", 1⟩ (.unitsFromStart 0) (overtaken (0 :: rest))) := by
  intro hreplayed
  obtain ⟨hplans, hsent⟩ := overtaken_run h
  have hbytes := (hreplayed.exact_ _ (by rw [hplans]; exact List.mem_singleton_self _)).bytes
  rw [hsent] at hbytes
  exact absurd (congrArg List.head? hbytes) (by simp [ReplayPlan.bytes, ReplayPlan.start])

theorem overtaken_misplaced : ¬ Replayed (.unitsFromStart 0)
    (World.run ⟨"a", 1⟩ (.unitsFromStart 0) (overtaken (0 :: List.replicate 1048575 0))) :=
  not_replayed_of_overtaken (by rw [List.length_cons, List.length_replicate]; rfl)

section Window
variable (identity : TerminalIdentity) (capacity : ℕ)

/-- The last `capacity` bytes of what was sent. -/
def ByteStream.window (sent : List UInt8) : ByteStream :=
  let dropped := sent.length - capacity
  ⟨identity, sent.drop dropped, dropped, sent.length, capacity⟩

lemma append_window (sent bytes : List UInt8) :
    (ByteStream.window identity capacity sent).append bytes =
      .window identity capacity (sent ++ bytes) := by
  unfold ByteStream.append ByteStream.window
  dsimp only
  rw [← List.drop_append_of_le_length (Nat.sub_le _ _), List.drop_drop, List.length_drop,
    List.length_append]
  congr 2 <;> omega

/-- However the output was cut into chunks, a read answers from the whole of it: the bytes at the
offset, or a gap up to the last `capacity` bytes. -/
theorem readFrom_chunks (offset maxBytes : ℕ) (chunks : List (List UInt8)) :
    (chunks.foldl ByteStream.append (.new identity capacity)).readFrom offset maxBytes =
      let sent := chunks.flatten
      let earliest := sent.length - capacity
      if sent.length < offset then .error (.outOfRange sent.length)
      else if offset < earliest then .ok ⟨earliest, (sent.drop earliest).take maxBytes, true⟩
      else .ok ⟨offset, (sent.drop offset).take maxBytes, false⟩ := by
  have hrun : chunks.foldl ByteStream.append (.new identity capacity) =
      .window identity capacity chunks.flatten := by
    induction chunks using List.reverseRecOn with
    | nil => simp [ByteStream.window, ByteStream.new]
    | append_singleton chunks bytes ih => simp [List.foldl_append, ih, append_window]
  rw [hrun]
  unfold ByteStream.readFrom ByteStream.window
  dsimp only
  split_ifs with hbeyond hgap
  · rfl
  · rfl
  · rw [List.drop_drop, Nat.add_sub_of_le (not_lt.mp hgap)]

end Window

end Aeroric.Terminal
