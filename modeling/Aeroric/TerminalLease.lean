import Aeroric.Table
import Mathlib

/-! Who may write to a terminal. Each stream has a lease of its own that counts its tickets; the
lease goes when its stream is retired. -/
namespace Aeroric.Terminal

structure TerminalIdentity where
  taskId : String
  generation : ℕ
  deriving DecidableEq

structure LeaseHandle where
  ticket : ℕ
  deriving DecidableEq

structure ControlLease where
  nextTicket : ℕ
  current : Option ℕ

namespace ControlLease

def default : ControlLease := ⟨0, none⟩

/-- The tickets have 64 bits. -/
def acquire (lease : ControlLease) : LeaseHandle × ControlLease :=
  let nextTicket := (lease.nextTicket + 1) % 2 ^ 64
  (⟨nextTicket⟩, ⟨nextTicket, some nextTicket⟩)

def check (lease : ControlLease) (handle : LeaseHandle) : Bool :=
  lease.current = some handle.ticket

def release (lease : ControlLease) (handle : LeaseHandle) : Bool × ControlLease :=
  if lease.check handle then (true, { lease with current := none }) else (false, lease)

def writeGate (lease : ControlLease) (handle : LeaseHandle) : Bool := lease.check handle

end ControlLease

structure ByteStream where
  identity : TerminalIdentity
  retained : List UInt8
  retainedFrom : ℕ
  nextOffset : ℕ
  capacity : ℕ

def ByteStream.new (identity : TerminalIdentity) (capacity : ℕ) : ByteStream :=
  ⟨identity, [], 0, 0, capacity⟩

def ByteStream.append (stream : ByteStream) (bytes : List UInt8) : ByteStream :=
  let retained := stream.retained ++ bytes
  let drop := retained.length - stream.capacity
  { stream with
    retained := retained.drop drop
    nextOffset := stream.nextOffset + bytes.length
    retainedFrom := stream.retainedFrom + drop }

def terminalReplayWindowBytes : ℕ := 1024 * 1024
def terminalMaxFinishedStreams : ℕ := 64
def terminalMaxLiveStreams : ℕ := 256

inductive PublishOutcome
  | accepted
  | refusedFull
  deriving DecidableEq

structure State where
  streams : Table TerminalIdentity ByteStream
  leases : Table TerminalIdentity ControlLease
  order : List TerminalIdentity
  finished : Table TerminalIdentity ℕ
  retiredTotal : ℕ
  refusals : ℕ

namespace State

def default : State := ⟨.empty, .empty, [], .empty, 0, 0⟩

/-- One turn of the loop: the oldest of the finished streams goes, if they are too many. -/
def evictOne (state : State) : Option State :=
  let isFinished := fun identity => (state.finished.get identity).isSome
  if terminalMaxFinishedStreams < state.finished.size then
    (state.order.find? isFinished).map fun identity =>
      { state with
        order := state.order.eraseP isFinished
        streams := state.streams.erase identity
        leases := state.leases.erase identity
        finished := state.finished.erase identity
        retiredTotal := state.retiredTotal + 1 }
  else none

def evict : ℕ → State → State
  | 0, state => state
  | turns + 1, state =>
    match state.evictOne with
    | some state => state.evict turns
    | none => state

/-- Each turn takes a stream off the order. -/
def evictFinishedLocked (state : State) : State := state.evict state.order.length

lemma evictOne_order {state state' : State} (h : state.evictOne = some state') :
    state'.order.length + 1 = state.order.length := by
  unfold evictOne at h
  split at h
  · obtain ⟨identity, hfind, rfl⟩ := Option.map_eq_some_iff.mp h
    have hmem := List.mem_of_find?_eq_some hfind
    have hpos := List.length_pos_of_mem hmem
    have herase := List.length_eraseP_of_mem hmem (List.find?_some hfind)
    show (state.order.eraseP _).length + 1 = _
    omega
  · cases h

lemma evict_ended (turns : ℕ) (state : State) (h : state.order.length ≤ turns) :
    (state.evict turns).evictOne = none := by
  induction turns generalizing state with
  | zero =>
    cases hone : state.evictOne with
    | none => exact hone
    | some state' => exact absurd (evictOne_order hone) (by omega)
  | succ turns ih =>
    unfold evict
    cases hone : state.evictOne with
    | none => exact hone
    | some state' => exact ih state' (by have := evictOne_order hone; omega)

lemma evictFinishedLocked_ended (state : State) : state.evictFinishedLocked.evictOne = none :=
  evict_ended _ state le_rfl

/-- The streams that are still written are counted with 64 bits, and may come out below zero. -/
def publish (identity : TerminalIdentity) (bytes : List UInt8) (state : State) :
    PublishOutcome × State :=
  if bytes = [] then (.accepted, state)
  else
    match state.streams.get identity with
    | some stream =>
      (.accepted, { state with streams := state.streams.set identity (stream.append bytes) })
    | none =>
      let live := (state.order.length + 2 ^ 64 - state.finished.size) % 2 ^ 64
      if terminalMaxLiveStreams ≤ live then
        (.refusedFull, { state with refusals := state.refusals + 1 })
      else
        let state := state.evictFinishedLocked
        let created := ByteStream.new identity terminalReplayWindowBytes
        (.accepted,
          { state with
            streams := state.streams.set identity (created.append bytes)
            order := state.order ++ [identity] })

lemma publish_cases (identity : TerminalIdentity) (bytes : List UInt8) (state : State) :
    (bytes = [] ∧ state.publish identity bytes = (.accepted, state)) ∨
    (∃ stream, state.streams.get identity = some stream ∧ state.publish identity bytes =
      (.accepted, { state with streams := state.streams.set identity (stream.append bytes) })) ∨
    (state.streams.get identity = none ∧
      terminalMaxLiveStreams ≤ (state.order.length + 2 ^ 64 - state.finished.size) % 2 ^ 64 ∧
      state.publish identity bytes =
        (.refusedFull, { state with refusals := state.refusals + 1 })) ∨
    (state.streams.get identity = none ∧ state.publish identity bytes = (.accepted,
      { state.evictFinishedLocked with
        streams := state.evictFinishedLocked.streams.set identity
          ((ByteStream.new identity terminalReplayWindowBytes).append bytes)
        order := state.evictFinishedLocked.order ++ [identity] })) := by
  unfold publish
  by_cases hbytes : bytes = []
  · exact .inl ⟨hbytes, if_pos hbytes⟩
  · rw [if_neg hbytes]
    cases hstream : state.streams.get identity with
    | some stream => exact .inr (.inl ⟨stream, rfl, rfl⟩)
    | none =>
      by_cases hlive : terminalMaxLiveStreams ≤
          (state.order.length + 2 ^ 64 - state.finished.size) % 2 ^ 64
      · exact .inr (.inr (.inl ⟨rfl, hlive, if_pos hlive⟩))
      · exact .inr (.inr (.inr ⟨rfl, if_neg hlive⟩))

def acquireControl (identity : TerminalIdentity) (state : State) : LeaseHandle × State :=
  let lease := (state.leases.get identity).getD .default
  (lease.acquire.1, { state with leases := state.leases.set identity lease.acquire.2 })

def releaseControl (identity : TerminalIdentity) (handle : LeaseHandle) (state : State) :
    Bool × State :=
  match state.leases.get identity with
  | some lease =>
    ((lease.release handle).1,
      { state with leases := state.leases.set identity (lease.release handle).2 })
  | none => (false, state)

def canWrite (identity : TerminalIdentity) (handle : LeaseHandle) (state : State) : Bool :=
  match state.leases.get identity with
  | some lease => lease.writeGate handle
  | none => false

def markFinished (identity : TerminalIdentity) (state : State) : State :=
  let ends := ((state.streams.get identity).map ByteStream.nextOffset).getD 0
  { state with finished := state.finished.set identity ends }.evictFinishedLocked

end State

/-! Histories, and the handles that were given out in them. -/

structure Issue where
  identity : TerminalIdentity
  handle : LeaseHandle
  /-- It was superseded or released. -/
  ended : Bool
  deriving DecidableEq

structure History where
  state : State
  issued : List Issue

inductive Op
  | publish (identity : TerminalIdentity) (bytes : List UInt8)
  | acquire (identity : TerminalIdentity)
  | release (identity : TerminalIdentity) (handle : LeaseHandle)
  | markFinished (identity : TerminalIdentity)

namespace History

def start : History := ⟨.default, []⟩

/-- The handles that satisfy a condition come to an end. -/
def endWhere (p : Issue → Bool) (issued : List Issue) : List Issue :=
  issued.map fun issue => { issue with ended := issue.ended || p issue }

def step (history : History) : Op → History
  | .publish identity bytes => ⟨(history.state.publish identity bytes).2, history.issued⟩
  | .acquire identity =>
    let acquired := history.state.acquireControl identity
    ⟨acquired.2, ⟨identity, acquired.1, false⟩ ::
      endWhere (fun issue => issue.identity = identity) history.issued⟩
  | .release identity handle =>
    let released := history.state.releaseControl identity handle
    ⟨released.2, endWhere (fun issue => released.1 && issue.identity = identity &&
      issue.handle = handle) history.issued⟩
  | .markFinished identity => ⟨history.state.markFinished identity, history.issued⟩

def run (ops : List Op) : History := ops.foldl step start

/-- Control is exclusive, and does not come back. -/
structure Exclusive (history : History) : Prop where
  oneWriter : ∀ a ∈ history.issued, ∀ b ∈ history.issued, a.identity = b.identity →
    history.state.canWrite a.identity a.handle → history.state.canWrite b.identity b.handle →
      a.handle = b.handle
  neverBack : ∀ a ∈ history.issued, a.ended → ¬history.state.canWrite a.identity a.handle
  ownOnly : ∀ a ∈ history.issued, ∀ identity, identity ≠ a.identity →
    ¬history.state.canWrite identity a.handle ∧
      (history.state.releaseControl identity a.handle).1 = false

/-- Control was only ever taken of this stream, whose lease is still the one it was taken from, and
not so often that the tickets run out. -/
structure Fresh (history : History) (identity : TerminalIdentity) : Prop where
  only : ∀ a ∈ history.issued, a.identity = identity
  kept : history.issued = [] ∨ (history.state.leases.get identity).isSome
  room : history.issued.length < 2 ^ 64

/-! What holds as long as every acquisition is fresh: the tickets count the handles given out, and
there is a lease of one stream at most, which knows no handle that ended. -/

structure Orderly (history : History) : Prop where
  bounded : history.issued.length ≤ 2 ^ 64
  numbered : ∀ a ∈ history.issued, ∃ n, 0 < n ∧ n ≤ history.issued.length ∧
    a.handle.ticket = n % 2 ^ 64
  first : history.issued ≠ [] → ∃ a ∈ history.issued, a.handle.ticket = 1
  given : ∀ identity lease, history.state.leases.get identity = some lease →
    history.issued ≠ [] ∧ lease.nextTicket = history.issued.length % 2 ^ 64
  own : ∀ identity lease, history.state.leases.get identity = some lease →
    ∀ a ∈ history.issued, a.identity = identity
  open_ : ∀ identity lease, history.state.leases.get identity = some lease →
    ∀ a ∈ history.issued, a.ended → lease.current ≠ some a.handle.ticket

lemma orderly_start : Orderly start where
  bounded := Nat.zero_le _
  numbered := nofun
  first := fun h => absurd rfl h
  given := nofun
  own := nofun
  open_ := nofun

variable {identity : TerminalIdentity}

lemma canWrite_iff {state : State} {handle : LeaseHandle} : state.canWrite identity handle = true ↔
      ∃ lease, state.leases.get identity = some lease ∧ lease.current = some handle.ticket := by
  unfold State.canWrite
  cases state.leases.get identity with
  | none => simp
  | some lease => simp [ControlLease.writeGate, ControlLease.check]

lemma releaseControl_eq_canWrite (state : State) (identity : TerminalIdentity)
    (handle : LeaseHandle) :
    (state.releaseControl identity handle).1 = state.canWrite identity handle := by
  unfold State.releaseControl State.canWrite
  cases state.leases.get identity with
  | none => rfl
  | some lease =>
    simp only [ControlLease.release, ControlLease.writeGate]
    cases lease.check handle <;> rfl

variable {history : History}

lemma Orderly.exclusive (h : Orderly history) : Exclusive history where
  oneWriter := by
    intro a _ b _ hsame ha hb
    obtain ⟨lease, hlease, hcurrent⟩ := canWrite_iff.mp ha
    obtain ⟨lease', hlease', hcurrent'⟩ := canWrite_iff.mp hb
    rw [← hsame] at hlease'
    cases hlease.symm.trans hlease'
    have hticket := Option.some.inj (hcurrent.symm.trans hcurrent')
    exact congrArg LeaseHandle.mk hticket
  neverBack := by
    intro a ha hended hwrite
    obtain ⟨lease, hlease, hcurrent⟩ := canWrite_iff.mp hwrite
    exact h.open_ _ lease hlease a ha hended hcurrent
  ownOnly := by
    intro a ha identity hne
    have hwrite : ¬history.state.canWrite identity a.handle := by
      intro hwrite
      obtain ⟨lease, hlease, -⟩ := canWrite_iff.mp hwrite
      exact hne (h.own identity lease hlease a ha).symm
    exact ⟨hwrite, (releaseControl_eq_canWrite ..).trans (Bool.not_eq_true _ ▸ hwrite)⟩

lemma Orderly.shrink (h : Orderly history) {state : State}
    (hleases : ∀ identity lease, state.leases.get identity = some lease →
      history.state.leases.get identity = some lease) : Orderly ⟨state, history.issued⟩ where
  bounded := h.bounded
  numbered := h.numbered
  first := h.first
  given := fun identity lease hget => h.given identity lease (hleases identity lease hget)
  own := fun identity lease hget => h.own identity lease (hleases identity lease hget)
  open_ := fun identity lease hget => h.open_ identity lease (hleases identity lease hget)

lemma evict_leases (turns : ℕ) (state : State) {lease : ControlLease}
    (h : (state.evict turns).leases.get identity = some lease) :
    state.leases.get identity = some lease := by
  induction turns generalizing state with
  | zero => exact h
  | succ turns ih =>
    unfold State.evict at h
    cases hone : state.evictOne with
    | none => rwa [hone] at h
    | some state' =>
      rw [hone] at h
      have hget := ih state' h
      unfold State.evictOne at hone
      split at hone
      · obtain ⟨gone, -, rfl⟩ := Option.map_eq_some_iff.mp hone
        by_cases heq : identity = gone
        · subst heq
          simp at hget
        · simpa [heq] using hget
      · cases hone

lemma publish_leases {state : State} {identity other : TerminalIdentity} {bytes : List UInt8}
    {lease : ControlLease} (h : (state.publish identity bytes).2.leases.get other = some lease) :
    state.leases.get other = some lease := by
  obtain ⟨-, heq⟩ | ⟨stream, -, heq⟩ | ⟨-, -, heq⟩ | ⟨-, heq⟩ := state.publish_cases identity bytes
  · rwa [heq] at h
  · rwa [heq] at h
  · rwa [heq] at h
  · rw [heq] at h
    exact evict_leases _ _ h

@[simp] lemma length_endWhere (p : Issue → Bool) (issued : List Issue) :
    (endWhere p issued).length = issued.length := List.length_map ..

lemma mem_endWhere {p : Issue → Bool} {issued : List Issue} {a : Issue} :
    a ∈ endWhere p issued ↔ ∃ b ∈ issued, { b with ended := b.ended || p b } = a := List.mem_map

lemma Orderly.ended (h : Orderly history) {state : State} {p : Issue → Bool}
    (hleases : ∀ identity lease', state.leases.get identity = some lease' →
      ∃ lease, history.state.leases.get identity = some lease ∧
        lease'.nextTicket = lease.nextTicket ∧
        ∀ a ∈ history.issued, (a.ended || p a) = true → lease'.current ≠ some a.handle.ticket) :
    Orderly ⟨state, endWhere p history.issued⟩ where
  bounded := by
    rw [length_endWhere]
    exact h.bounded
  numbered := by
    intro a ha
    obtain ⟨b, hb, rfl⟩ := mem_endWhere.mp ha
    rw [length_endWhere]
    exact h.numbered b hb
  first := by
    intro hne
    obtain ⟨a, ha, hticket⟩ := h.first fun hnil => hne (by rw [hnil]; rfl)
    exact ⟨_, mem_endWhere.mpr ⟨a, ha, rfl⟩, hticket⟩
  given := by
    intro identity lease' hget
    obtain ⟨lease, hlease, hnext, -⟩ := hleases identity lease' hget
    obtain ⟨hne, hcount⟩ := h.given identity lease hlease
    rw [length_endWhere, hnext]
    exact ⟨fun hnil => hne (List.map_eq_nil_iff.mp hnil), hcount⟩
  own := by
    intro identity lease' hget a ha
    obtain ⟨lease, hlease, -, -⟩ := hleases identity lease' hget
    obtain ⟨b, hb, rfl⟩ := mem_endWhere.mp ha
    exact h.own identity lease hlease b hb
  open_ := by
    intro identity lease' hget a ha hended
    obtain ⟨lease, -, -, hopen⟩ := hleases identity lease' hget
    obtain ⟨b, hb, rfl⟩ := mem_endWhere.mp ha
    exact hopen b hb hended

lemma Orderly.release (h : Orderly history) (identity : TerminalIdentity)
    (handle : LeaseHandle) : Orderly (history.step (.release identity handle)) := by
  refine h.ended fun other lease' hget => ?_
  cases hlease : history.state.leases.get identity with
  | none =>
    simp only [State.releaseControl, hlease] at hget ⊢
    refine ⟨lease', hget, rfl, fun a ha hended => h.open_ other lease' hget a ha ?_⟩
    simpa using hended
  | some lease =>
    simp only [State.releaseControl, hlease] at hget ⊢
    by_cases hother : other = identity
    · subst hother
      rw [Table.get_set_self] at hget
      cases hget
      refine ⟨lease, hlease, ?_⟩
      cases hcheck : lease.check handle with
      | true => simp [ControlLease.release, hcheck]
      | false =>
        simp only [ControlLease.release, hcheck]
        refine ⟨rfl, fun a ha hended => h.open_ other lease hlease a ha ?_⟩
        simpa using hended
    · rw [Table.get_set_of_ne hother] at hget
      refine ⟨lease', hget, rfl, fun a ha hended => h.open_ other lease' hget a ha ?_⟩
      have hmine := h.own other lease' hget a ha
      have hne : a.identity ≠ identity := fun heq => hother (hmine.symm.trans heq)
      simpa [hne] using hended

def nextTicket (history : History) (identity : TerminalIdentity) : ℕ :=
  (history.state.acquireControl identity).1.ticket

lemma nextTicket_of_none
    (hlease : history.state.leases.get identity = none) : history.nextTicket identity = 1 := by
  simp [nextTicket, State.acquireControl, hlease, ControlLease.acquire, ControlLease.default]

lemma Orderly.nextTicket_of_some (h : Orderly history) {lease : ControlLease}
    (hlease : history.state.leases.get identity = some lease) :
    history.nextTicket identity = (history.issued.length + 1) % 2 ^ 64 := by
  simp [nextTicket, State.acquireControl, hlease, ControlLease.acquire,
    (h.given identity lease hlease).2]

lemma Orderly.nextTicket_fresh (h : Orderly history) (hfresh : Fresh history identity) :
    history.nextTicket identity = (history.issued.length + 1) % 2 ^ 64 := by
  cases hlease : history.state.leases.get identity with
  | some lease => exact h.nextTicket_of_some hlease
  | none =>
    rcases hfresh.kept with hnil | hsome
    · rw [nextTicket_of_none hlease, hnil]
      rfl
    · rw [hlease] at hsome
      cases hsome

lemma Orderly.acquire (h : Orderly history)
    (hfresh : Fresh history identity) : Orderly (history.step (.acquire identity)) := by
  have hticket := h.nextTicket_fresh hfresh
  have hroom := hfresh.room
  -- There was no lease of another stream.
  have hlease : ∀ other lease', (history.step (.acquire identity)).state.leases.get other =
      some lease' → other = identity ∧
        lease' = ⟨history.nextTicket identity, some (history.nextTicket identity)⟩ := by
    intro other lease' hget
    by_cases hother : other = identity
    · subst hother
      exact ⟨rfl, (Option.some.inj ((Table.get_set_self ..).symm.trans hget)).symm⟩
    · have hget' := (Table.get_set_of_ne hother).symm.trans hget
      obtain ⟨a, ha, -⟩ := h.first (h.given other lease' hget').1
      exact absurd ((h.own other lease' hget' a ha).symm.trans (hfresh.only a ha)) hother
  constructor
  · simp only [step, List.length_cons, length_endWhere]
    omega
  · intro a ha
    simp only [step, List.length_cons, length_endWhere]
    rcases List.mem_cons.mp ha with rfl | ha
    · exact ⟨_, Nat.succ_pos _, le_rfl, hticket⟩
    · obtain ⟨b, hb, rfl⟩ := mem_endWhere.mp ha
      obtain ⟨n, hpos, hle, hn⟩ := h.numbered b hb
      exact ⟨n, hpos, hle.trans (Nat.le_succ _), hn⟩
  · intro _
    by_cases hnil : history.issued = []
    · refine ⟨_, List.mem_cons_self, hticket.trans ?_⟩
      rw [hnil]
      rfl
    · obtain ⟨a, ha, hone⟩ := h.first hnil
      exact ⟨_, List.mem_cons_of_mem _ (mem_endWhere.mpr ⟨a, ha, rfl⟩), hone⟩
  · intro other lease' hget
    obtain ⟨-, rfl⟩ := hlease other lease' hget
    simp only [step, List.length_cons, length_endWhere]
    exact ⟨List.cons_ne_nil _ _, hticket⟩
  · intro other lease' hget a ha
    obtain ⟨rfl, -⟩ := hlease other lease' hget
    rcases List.mem_cons.mp ha with rfl | ha
    · rfl
    · obtain ⟨b, hb, rfl⟩ := mem_endWhere.mp ha
      exact hfresh.only b hb
  · intro other lease' hget a ha hended
    obtain ⟨-, rfl⟩ := hlease other lease' hget
    rcases List.mem_cons.mp ha with rfl | ha
    · cases hended
    · obtain ⟨b, hb, rfl⟩ := mem_endWhere.mp ha
      obtain ⟨n, hpos, hle, hn⟩ := h.numbered b hb
      show some (history.nextTicket identity) ≠ some b.handle.ticket
      rw [hticket, hn, Ne, Option.some.injEq]
      omega

lemma Orderly.fresh (h : Orderly history)
    (hexclusive : Exclusive (history.step (.acquire identity))) : Fresh history identity := by
  have hagain : history.nextTicket identity = 1 → history.issued = [] := by
    intro hticket
    by_contra hne
    obtain ⟨a, ha, hone⟩ := h.first hne
    have hhandle : a.handle = ⟨history.nextTicket identity⟩ :=
      congrArg LeaseHandle.mk (hone.trans hticket.symm)
    have hmem : { a with ended := a.ended || decide (a.identity = identity) } ∈
        (history.step (.acquire identity)).issued :=
      List.mem_cons_of_mem _ (mem_endWhere.mpr ⟨a, ha, rfl⟩)
    have hwrite : (history.step (.acquire identity)).state.canWrite identity a.handle = true := by
      refine canWrite_iff.mpr ⟨_, Table.get_set_self .., ?_⟩
      rw [hhandle]
      rfl
    by_cases hmine : a.identity = identity
    · refine hexclusive.neverBack _ hmem (by simp [hmine]) ?_
      rw [hmine]
      exact hwrite
    · exact (hexclusive.ownOnly _ hmem identity (Ne.symm hmine)).1 hwrite
  cases hlease : history.state.leases.get identity with
  | none =>
    have hnil := hagain (nextTicket_of_none hlease)
    exact ⟨by simp [hnil], .inl hnil, by simp [hnil]⟩
  | some lease =>
    refine ⟨h.own identity lease hlease, .inr (by rw [hlease]; rfl), ?_⟩
    have hbounded := h.bounded
    by_contra hfull
    have hlength : history.issued.length = 2 ^ 64 := by omega
    have hnil := hagain (by simp [h.nextTicket_of_some hlease, hlength])
    rw [hnil] at hlength
    simp at hlength

lemma Orderly.step (h : Orderly history) {op : Op}
    (hfresh : ∀ identity, op = .acquire identity → Fresh history identity) :
    Orderly (history.step op) := by
  cases op with
  | publish identity bytes => exact h.shrink fun _ _ => publish_leases
  | acquire identity => exact h.acquire (hfresh identity rfl)
  | release identity handle => exact h.release identity handle
  | markFinished identity => exact h.shrink fun _ _ => evict_leases _ _

lemma run_snoc (ops : List Op) (op : Op) : run (ops ++ [op]) = (run ops).step op := by
  simp [run]

lemma orderly_of_fresh (ops : List Op) (h : ∀ earlier identity,
    earlier ++ [.acquire identity] <+: ops → Fresh (run earlier) identity) :
    Orderly (run ops) := by
  induction ops using List.reverseRecOn with
  | nil => exact orderly_start
  | append_singleton ops op ih =>
    have hbefore := ih fun earlier identity hpre =>
      h earlier identity (hpre.trans (List.prefix_append ..))
    rw [run_snoc]
    exact hbefore.step fun identity heq => h ops identity (heq ▸ List.prefix_rfl)

lemma orderly_of_exclusive (ops : List Op)
    (h : ∀ earlier, earlier <+: ops → Exclusive (run earlier)) : Orderly (run ops) := by
  induction ops using List.reverseRecOn with
  | nil => exact orderly_start
  | append_singleton ops op ih =>
    have hbefore := ih fun earlier hpre => h earlier (hpre.trans (List.prefix_append ..))
    have hafter := h _ List.prefix_rfl
    rw [run_snoc] at hafter ⊢
    refine hbefore.step fun identity heq => hbefore.fresh ?_
    rwa [heq] at hafter

/-- At every moment of a history control is exclusive, just if each acquisition was of the one
stream that control was ever taken of, while its lease lasted and had tickets left. -/
theorem exclusive_iff_fresh (ops : List Op) :
    (∀ earlier, earlier <+: ops → Exclusive (run earlier)) ↔
      ∀ earlier identity, earlier ++ [.acquire identity] <+: ops →
        Fresh (run earlier) identity := by
  constructor
  · intro h earlier identity hpre
    have hbefore := orderly_of_exclusive earlier fun before hbefore =>
      h before (hbefore.trans ((List.prefix_append ..).trans hpre))
    refine hbefore.fresh ?_
    rw [← run_snoc]
    exact h _ hpre
  · intro h earlier hpre
    refine (orderly_of_fresh earlier fun before identity hbefore => ?_).exclusive
    exact h before identity (hbefore.trans hpre)

/-- Control of two terminals is taken, one after the other. -/
def twoTerminals : List Op := [.acquire ⟨"a", 1⟩, .acquire ⟨"b", 1⟩]

/-- A terminal is taken twice, and once more when it was retired for too many finished ones. -/
def retired : List Op :=
  [.publish ⟨"a", 1⟩ [0], .acquire ⟨"a", 1⟩, .acquire ⟨"a", 1⟩, .markFinished ⟨"a", 1⟩] ++
    (List.range terminalMaxFinishedStreams).map (fun n => .markFinished ⟨"b", n⟩) ++
    [.acquire ⟨"a", 1⟩]

theorem twoTerminals_shared :
    ¬Exclusive (run twoTerminals) ∧ ¬Exclusive (run retired) := by
  constructor
  · intro h
    exact (h.ownOnly ⟨⟨"a", 1⟩, ⟨1⟩, false⟩ (.tail _ (.head _)) ⟨"b", 1⟩ (by decide)).1 rfl
  · intro h
    have hmem : (⟨⟨"a", 1⟩, ⟨1⟩, true⟩ : Issue) ∈ (run retired).issued := by decide +kernel
    exact h.neverBack _ hmem rfl (by decide +kernel)

end History
end Aeroric.Terminal
