import Aeroric.Liveness
import Aeroric.SyncPlan
import Aeroric.SyncSchedule
import Mathlib.Data.Prod.Lex

/-! The thread that synchronises notebooks on its own. One loop asks every remote of every
registered vault how long it waits, runs those that are due one after the other, and then takes a
notice of the file watcher from its channel, which is filled at any time. -/
namespace Aeroric.SyncDaemon
open SyncSchedule NotebookSync

inductive Component
  | rootDir
  | curDir
  | parentDir
  | normal (name : String)
  deriving DecidableEq, Repr

abbrev Path := List Component

/-- What the watcher sends: the paths of a change, or an error of its own. -/
inductive Notice
  | event (paths : List Path)
  | error
  deriving DecidableEq, Repr

def Component.name : Component → Option String
  | .normal name => some name
  | _ => none

def relToSlash (rel : Path) : String :=
  "/".intercalate (rel.filterMap Component.name)

def eventIsInScope (vault changed : Path) : Bool :=
  match changed.dropPrefix? vault with
  | none => false
  | some rel =>
    let relStr := relToSlash rel
    if relStr.isEmpty then false else !isOutOfScope relStr

structure RemoteTarget where
  id : String
  kind : String
  autoSync : Bool
  deriving DecidableEq, Repr

abbrev Key := Path × String

/-- The scheduling state of every remote, one entry a key. -/
abbrev Runtimes := List (Key × RemoteRuntime)

namespace Runtimes

def update (at_ : Key → Bool) (f : RemoteRuntime → RemoteRuntime) (map : Runtimes) : Runtimes :=
  map.map fun entry => if at_ entry.1 then (entry.1, f entry.2) else entry

def noteLocalChange (vault : Path) (now : ℤ) (map : Runtimes) : Runtimes :=
  map.update (·.1 = vault) (·.noteLocalChange now)

def noteAll (vaults : List Path) (now : ℤ) (map : Runtimes) : Runtimes :=
  vaults.foldl (fun map vault => map.noteLocalChange vault now) map

def forgetPending (vault : Path) (id : String) (map : Runtimes) : Runtimes :=
  map.update (· = (vault, id)) fun rt => { rt with dirty := none, failures := 0 }

def markStarted (vault : Path) (id : String) (now : ℤ) (map : Runtimes) : Runtimes :=
  map.update (· = (vault, id)) (·.noteAttemptStarted now)

def markFinished (vault : Path) (id : String) (started : ℤ) (result : RunResult)
    (map : Runtimes) : Runtimes :=
  map.update (· = (vault, id)) (·.noteAttemptFinished started result)

/-- The entry of a target, as it is or new, with the switch as the database has it. -/
def enter (vault : Path) (map : Runtimes) (target : RemoteTarget) : Runtimes × RemoteRuntime :=
  match map.find? (·.1 = (vault, target.id)) with
  | some (_, rt) =>
    (map.update (· = (vault, target.id)) ({ · with auto := target.autoSync }),
      { rt with auto := target.autoSync })
  | none =>
    let rt : RemoteRuntime := { auto := target.autoSync }
    (map ++ [((vault, target.id), rt)], rt)

def reconcile (vault : Path) (targets : List RemoteTarget) (map : Runtimes) :
    Runtimes × List (String × RemoteRuntime) :=
  let kept := map.filter fun entry => entry.1.1 ≠ vault || targets.any (·.id = entry.1.2)
  targets.foldl (fun (map, out) target =>
    let (map, rt) := enter vault map target
    (map, out ++ [(target.id, rt)])) (kept, [])

end Runtimes

/-- Where the loop is. The rest of a pass is what its two loops still have before them. -/
inductive Phase
  | top
  | vaults (rest : List Path)
  | remotes (vault : Path) (targets : List RemoteTarget) (todo : List (String × RemoteRuntime))
      (rest : List Path)
  | running (vault : Path) (id : String) (started : ℤ) (targets : List RemoteTarget)
      (todo : List (String × RemoteRuntime)) (rest : List Path)
  | drain
  | receive
  | stopped
  deriving DecidableEq, Repr

/-- A notice in the channel, with the vaults of which an attempt had started when it came. -/
structure Queued where
  notice : Notice
  attempted : List Path
  deriving DecidableEq, Repr

def maxTick : ℤ := 5000

/-- The state of the thread, of what it shares with others, and a record of what has happened: the
vaults with an attempt, the notices sent, and those taken from the channel with the vaults whose
change was noted for them. -/
structure State where
  clock : ℤ := 0
  phase : Phase := .top
  registered : List Path := []
  soonest : ℤ := maxTick
  changedAny : Bool := false
  queue : List Queued := []
  connected : Bool := true
  runtime : Runtimes := []
  attempted : List Path := []
  sent : List Queued := []
  taken : List (Queued × List Path) := []
  deriving DecidableEq, Repr

/-- What the thread finds when it asks: each phase reads its own part. -/
structure Answer where
  stop : Bool := false
  vaults : List Path := []
  /-- The remotes of a vault with a database that can be read. -/
  targets : Option (List RemoteTarget) := none
  /-- How an attempt ends, an error being a failure. -/
  result : RunResult := .settled
  deriving DecidableEq, Repr

inductive Label
  | clock (now : ℤ)
  | send (notice : Notice)
  | disconnect
  | forgetPending (vault : Path) (id : String)
  | daemon (answer : Answer)
  deriving DecidableEq, Repr

/-- The vaults whose change is noted for a notice, in the order of the two loops. -/
def Notice.noted (vaults : List Path) : Notice → List Path
  | .event paths => paths.flatMap fun path => vaults.filter (eventIsInScope · path)
  | .error => []

namespace State

def take (noted : List Path) (s : State) : State :=
  match s.queue with
  | [] => s
  | head :: rest => { s with queue := rest, taken := s.taken ++ [(head, noted)] }

def receive (s : State) : State :=
  match s.queue with
  -- a timeout, or a channel that is closed: the thread sleeps and goes back to polling
  | [] => { s with phase := .top }
  | head :: _ =>
    let noted := head.notice.noted s.registered
    { s.take noted with
      phase := .top
      runtime := s.runtime.noteAll noted s.clock }

/-- The target of a remote, when it is due and the thread is the one to run it. -/
def due (targets : List RemoteTarget) (id : String) (rt : RemoteRuntime) (s : State) :
    Option RemoteTarget :=
  if decide s.clock rt = .run then
    (targets.find? (·.id = id)).filter (·.kind = "cloud")
  else none

def waited (rt : RemoteRuntime) (s : State) : ℤ :=
  match decide s.clock rt with
  | .wait ms => min s.soonest (max ms 0)
  | _ => s.soonest

def advance (answer : Answer) (s : State) : State :=
  match s.phase with
  | .top =>
    if answer.stop then { s with phase := .stopped }
    else
      { s with
        registered := answer.vaults
        soonest := maxTick
        changedAny := false
        phase := .vaults answer.vaults }
  | .vaults [] => { s with phase := if s.changedAny then .drain else .receive }
  | .vaults (vault :: rest) =>
    match answer.targets with
    | none => { s with phase := .vaults rest }
    | some targets =>
      let (runtime, decisions) := s.runtime.reconcile vault targets
      { s with runtime := runtime, phase := .remotes vault targets decisions rest }
  | .remotes _ _ [] rest => { s with phase := .vaults rest }
  | .remotes vault targets ((id, rt) :: todo) rest =>
    match s.due targets id rt with
    | some target =>
      { s with
        runtime := s.runtime.markStarted vault target.id s.clock
        attempted := vault :: s.attempted
        phase := .running vault target.id s.clock targets todo rest }
    | none => { s with soonest := s.waited rt, phase := .remotes vault targets todo rest }
  | .running vault id started targets todo rest =>
    { s with
      runtime := s.runtime.markFinished vault id started answer.result
      changedAny := true
      phase := .remotes vault targets todo rest }
  | .drain => if s.queue = [] then { s with phase := .receive } else s.take []
  | .receive => s.receive
  | .stopped => s

def step (s : State) : Label → State
  | .clock now => { s with clock := now }
  | .send notice =>
    if s.connected then
      { s with
        queue := s.queue ++ [⟨notice, s.attempted⟩]
        sent := s.sent ++ [⟨notice, s.attempted⟩] }
    else s
  | .disconnect => { s with connected := false }
  | .forgetPending vault id => { s with runtime := s.runtime.forgetPending vault id }
  | .daemon answer => s.advance answer

end State

namespace Phase

/-- The vaults a pass still has before it are those it has read. -/
def Within (registered : List Path) : Phase → Prop
  | .vaults rest => rest ⊆ registered
  | .remotes vault _ _ rest | .running vault _ _ _ _ rest => vault ∈ registered ∧ rest ⊆ registered
  | _ => True

/-- A pass is under way that has started an attempt, and the channel has not yet been cleared. -/
def attempting (changedAny : Bool) : Phase → Bool
  | .running .. => true
  | .vaults _ | .remotes .. | .drain => changedAny
  | _ => false

/-- How far the thread is from its next look at the channel: the part of the pass it is in, the
vaults and the remotes before it. -/
def rank : Phase → ℕ ×ₗ ℕ ×ₗ ℕ
  | .top => toLex (3, toLex (0, 0))
  | .vaults rest => toLex (2, toLex (rest.length, 0))
  | .remotes _ _ todo rest => toLex (2, toLex (rest.length, 2 * todo.length + 1))
  | .running _ _ _ _ todo rest => toLex (2, toLex (rest.length, 2 * todo.length + 2))
  | .drain => toLex (1, toLex (0, 0))
  | .receive | .stopped => toLex (0, toLex (0, 0))

end Phase

def Notice.concerns (vault : Path) : Notice → Bool
  | .event paths => paths.any (eventIsInScope vault)
  | .error => false

/-- A notice of a change in a vault that came after an attempt of the vault had started. -/
def Queued.Tracked (vault : Path) (queued : Queued) : Prop :=
  vault ∈ queued.attempted ∧ queued.notice.concerns vault = true

instance (vault : Path) (queued : Queued) : Decidable (queued.Tracked vault) :=
  inferInstanceAs (Decidable (_ ∧ _))

lemma Notice.mem_noted {vault : Path} {vaults : List Path} {notice : Notice} :
    vault ∈ notice.noted vaults ↔ vault ∈ vaults ∧ notice.concerns vault = true := by
  cases notice with
  | error => simp [noted, concerns]
  | event paths =>
    simp only [noted, concerns, List.mem_flatMap, List.mem_filter, List.any_eq_true]
    exact ⟨fun ⟨path, hpath, hvault, hscope⟩ => ⟨hvault, path, hpath, hscope⟩,
      fun ⟨hvault, path, hpath, hscope⟩ => ⟨path, hpath, hvault, hscope⟩⟩

namespace Runtimes

/-- Every remote of a vault has a change that was noted at a time. -/
def DirtyAt (vault : Path) (now : ℤ) (map : Runtimes) : Prop :=
  ∀ entry ∈ map, entry.1.1 = vault → ∃ pending, entry.2.dirty = some pending ∧ pending.lastMs = now

lemma noteLocalChange_dirtyAt (vault : Path) (now : ℤ) (map : Runtimes) :
    (map.noteLocalChange vault now).DirtyAt vault now := by
  intro entry hentry hvault
  obtain ⟨old, -, rfl⟩ := List.mem_map.mp hentry
  have hold : old.1.1 = vault := by
    dsimp only at hvault
    split_ifs at hvault <;> exact hvault
  simp only [hold, decide_true, if_true]
  unfold RemoteRuntime.noteLocalChange
  cases old.2.dirty with
  | none => exact ⟨_, rfl, rfl⟩
  | some pending => exact ⟨_, rfl, rfl⟩

lemma DirtyAt.noteLocalChange {vault : Path} {now : ℤ} {map : Runtimes}
    (h : map.DirtyAt vault now) (other : Path) :
    (map.noteLocalChange other now).DirtyAt vault now := by
  by_cases hsame : other = vault
  · exact hsame ▸ noteLocalChange_dirtyAt other now map
  · intro entry hentry hvault
    obtain ⟨old, hold, rfl⟩ := List.mem_map.mp hentry
    split_ifs at hvault ⊢ with hother
    · exact absurd ((of_decide_eq_true hother).symm.trans hvault) hsame
    · exact h old hold hvault

lemma DirtyAt.noteAll {vault : Path} {now : ℤ} {map : Runtimes} (h : map.DirtyAt vault now)
    (vaults : List Path) : (map.noteAll vaults now).DirtyAt vault now := by
  induction vaults generalizing map with
  | nil => exact h
  | cons other vaults ih => exact ih (h.noteLocalChange other)

lemma noteAll_dirtyAt {vault : Path} {vaults : List Path} (hvault : vault ∈ vaults) (now : ℤ)
    (map : Runtimes) : (map.noteAll vaults now).DirtyAt vault now := by
  obtain ⟨before, after, rfl⟩ := List.append_of_mem hvault
  rw [noteAll, List.foldl_append, List.foldl_cons]
  exact (noteLocalChange_dirtyAt vault now _).noteAll after

end Runtimes

namespace State
variable {s : State} {answer : Answer}

section Take
variable (s : State) (noted : List Path)

@[simp] lemma take_phase : (s.take noted).phase = s.phase := by unfold take; split <;> rfl
@[simp] lemma take_registered : (s.take noted).registered = s.registered := by
  unfold take; split <;> rfl
@[simp] lemma take_changedAny : (s.take noted).changedAny = s.changedAny := by
  unfold take; split <;> rfl
@[simp] lemma take_attempted : (s.take noted).attempted = s.attempted := by
  unfold take; split <;> rfl
@[simp] lemma take_sent : (s.take noted).sent = s.sent := by unfold take; split <;> rfl
@[simp] lemma receive_phase : s.receive.phase = .top := by unfold receive; split <;> rfl
@[simp] lemma receive_registered : s.receive.registered = s.registered := by
  unfold receive; split <;> simp
@[simp] lemma receive_attempted : s.receive.attempted = s.attempted := by
  unfold receive; split <;> simp
@[simp] lemma receive_sent : s.receive.sent = s.sent := by unfold receive; split <;> simp

end Take

/-- What a step of the thread does to the channel: nothing, or its head leaves it. Only a receive
notes a change. -/
lemma advance_channel (s : State) (answer : Answer) :
    ((s.advance answer).queue = s.queue ∧ (s.advance answer).taken = s.taken) ∨
    ∃ head rest noted, s.queue = head :: rest ∧ (s.advance answer).queue = rest ∧
      (s.advance answer).taken = s.taken ++ [(head, noted)] ∧
      (s.phase = .drain ∧ noted = [] ∨
        s.phase = .receive ∧ noted = head.notice.noted s.registered ∧
          (s.advance answer).runtime = s.runtime.noteAll noted s.clock) := by
  fun_cases advance answer s
  case case11 hphase hqueue =>
    cases hhead : s.queue with
    | nil => exact absurd hhead hqueue
    | cons head rest =>
      exact .inr ⟨head, rest, [], rfl, by simp [take, hhead], by simp [take, hhead],
        .inl ⟨hphase, rfl⟩⟩
  case case12 hphase =>
    cases hhead : s.queue with
    | nil => exact .inl ⟨by simp [receive, hhead], by simp [receive, hhead]⟩
    | cons head rest =>
      exact .inr ⟨head, rest, _, rfl, by simp [receive, take, hhead],
        by simp only [receive, take, hhead], .inr ⟨hphase, rfl, by simp [receive, hhead]⟩⟩
  all_goals exact .inl ⟨rfl, rfl⟩

/-- The notices sent are those taken and then those in the channel. -/
structure Fifo (s : State) : Prop where
  sent : s.sent = s.taken.map Prod.fst ++ s.queue
  past : ∀ queued ∈ s.queue, queued.attempted ⊆ s.attempted

lemma advance_sent (s : State) (answer : Answer) : (s.advance answer).sent = s.sent := by
  fun_cases advance answer s <;> simp

lemma advance_attempted (s : State) (answer : Answer) :
    s.attempted ⊆ (s.advance answer).attempted := by
  fun_cases advance answer s <;> simp

namespace Fifo

lemma advance (h : s.Fifo) (answer : Answer) : (s.advance answer).Fifo := by
  rcases advance_channel s answer with ⟨hqueue, htaken⟩ |
    ⟨head, rest, noted, hhead, hqueue, htaken, -⟩
  · refine ⟨by rw [advance_sent, hqueue, htaken, h.sent], fun queued hmem => ?_⟩
    exact List.Subset.trans (h.past queued (hqueue ▸ hmem)) (advance_attempted s answer)
  · refine ⟨?_, fun queued hmem => ?_⟩
    · rw [advance_sent, hqueue, htaken, h.sent, hhead, List.map_append, List.append_assoc]
      rfl
    · have hbefore : queued ∈ s.queue := by
        rw [hhead, ← hqueue]
        exact List.mem_cons_of_mem _ hmem
      exact List.Subset.trans (h.past queued hbefore) (advance_attempted s answer)

lemma send (h : s.Fifo) (notice : Notice) : (s.step (.send notice)).Fifo := by
  unfold step
  split_ifs
  · refine ⟨by simp only [h.sent, List.append_assoc], fun queued hmem => ?_⟩
    rcases List.mem_append.mp hmem with hmem | hmem
    · exact h.past queued hmem
    · rw [List.mem_singleton.mp hmem]
      exact List.Subset.refl _
  · exact h

end Fifo

/-- A vault stays registered once an attempt has been made: every later pass reads it. -/
def Registered (vault : Path) (s : State) : Label → Prop
  | .daemon answer => s.phase = .top → vault ∈ s.attempted → vault ∈ answer.vaults
  | _ => True

instance (vault : Path) (s : State) : (label : Label) → Decidable (s.Registered vault label)
  | .daemon _ => inferInstanceAs (Decidable (_ → _))
  | .clock _ | .send _ | .disconnect | .forgetPending .. => .isTrue trivial

def starts (s : State) : Bool :=
  match s.phase with
  | .remotes _ targets ((id, rt) :: _) _ => (s.due targets id rt).isSome
  | _ => false

/-- No notice of the vault waits when an attempt starts, and none comes between the first attempt of
a pass and the end of the pass. -/
def Quiet (vault : Path) (s : State) : Label → Prop
  | .send notice => s.phase.attempting s.changedAny → ¬Queued.Tracked vault ⟨notice, s.attempted⟩
  | .daemon _ => s.starts → ∀ queued ∈ s.queue, ¬queued.Tracked vault
  | _ => True

instance (vault : Path) (s : State) : (label : Label) → Decidable (s.Quiet vault label)
  | .send _ | .daemon _ => inferInstanceAs (Decidable (_ → _))
  | .clock _ | .disconnect | .forgetPending .. => .isTrue trivial

structure Sound (vault : Path) (s : State) : Prop extends Fifo s where
  placed : s.phase.Within s.registered
  known : vault ∈ s.attempted → vault ∈ s.registered
  draining : s.phase = .drain → s.changedAny = true
  quiet : s.phase.attempting s.changedAny → ∀ queued ∈ s.queue, ¬queued.Tracked vault
  noted : ∀ entry ∈ s.taken, entry.1.Tracked vault → vault ∈ entry.2

lemma within_advance (h : s.phase.Within s.registered) (answer : Answer) :
    (s.advance answer).phase.Within (s.advance answer).registered := by
  fun_cases advance answer s
  case case3 => by_cases hchanged : s.changedAny = true <;> simp [hchanged, Phase.Within]
  all_goals simp_all [Phase.Within]

lemma known_advance {vault : Path} (hwithin : s.phase.Within s.registered)
    (h : vault ∈ s.attempted → vault ∈ s.registered)
    (hregistered : Registered vault s (.daemon answer)) :
    vault ∈ (s.advance answer).attempted → vault ∈ (s.advance answer).registered := by
  fun_cases advance answer s
  case case2 hphase _ => exact hregistered hphase
  case case7 hphase _ _ =>
    rw [hphase] at hwithin
    intro hmem
    rcases List.mem_cons.mp hmem with rfl | hmem
    · exact hwithin.1
    · exact h hmem
  all_goals simpa using h

lemma draining_advance (h : s.phase = .drain → s.changedAny = true) :
    (s.advance answer).phase = .drain → (s.advance answer).changedAny = true := by
  fun_cases advance answer s
  case case3 => by_cases hchanged : s.changedAny = true <;> simp [hchanged]
  all_goals simp_all

/-- Within a pass nothing is attempting that was not so before, but for the start of an attempt. -/
lemma attempting_advance
    (h : (s.advance answer).phase.attempting (s.advance answer).changedAny = true) :
    s.phase.attempting s.changedAny = true ∨ s.starts = true := by
  revert h
  fun_cases advance answer s
  case case3 => by_cases hchanged : s.changedAny = true <;> simp_all [Phase.attempting]
  all_goals simp_all [Phase.attempting, starts]

namespace Sound
variable {vault : Path}

variable (vault) in
lemma begin (clock : ℤ) (runtime : Runtimes) :
    Sound vault { clock := clock, runtime := runtime } where
  sent := rfl
  past := by simp
  placed := trivial
  known := by simp
  draining := Phase.noConfusion
  quiet := by simp
  noted := by simp

lemma quiet_advance (h : s.Sound vault) (hquiet : Quiet vault s (.daemon answer)) :
    (s.advance answer).phase.attempting (s.advance answer).changedAny = true →
      ∀ queued ∈ (s.advance answer).queue, ¬queued.Tracked vault := by
  intro hattempting queued hmem
  have hbefore : queued ∈ s.queue := by
    rcases advance_channel s answer with ⟨hqueue, -⟩ | ⟨head, rest, noted, hhead, hqueue, -⟩
    · rwa [hqueue] at hmem
    · rw [hhead, ← hqueue]
      exact List.mem_cons_of_mem _ hmem
  rcases attempting_advance hattempting with hattempting | hstarts
  · exact h.quiet hattempting queued hbefore
  · exact hquiet hstarts queued hbefore

/-- A notice of the vault leaves the channel by a receive, which notes the change. -/
lemma noted_advance (h : s.Sound vault) :
    ∀ entry ∈ (s.advance answer).taken, entry.1.Tracked vault → vault ∈ entry.2 := by
  rcases advance_channel s answer with ⟨-, htaken⟩ |
    ⟨head, rest, noted, hhead, -, htaken, hdrain | hreceive⟩
  · rw [htaken]
    exact h.noted
  all_goals
    have hmem : head ∈ s.queue := by simp [hhead]
    intro entry hentry htracked
    rw [htaken] at hentry
    rcases List.mem_append.mp hentry with hentry | hentry
    · exact h.noted entry hentry htracked
    rw [List.mem_singleton.mp hentry] at htracked ⊢
  · have hattempting : s.phase.attempting s.changedAny = true := by
      rw [hdrain.1]
      exact h.draining hdrain.1
    exact absurd htracked (h.quiet hattempting head hmem)
  · rw [hreceive.2.1, Notice.mem_noted]
    exact ⟨h.known (h.past head hmem htracked.1), htracked.2⟩

lemma advance (h : s.Sound vault) (hregistered : Registered vault s (.daemon answer))
    (hquiet : Quiet vault s (.daemon answer)) : (s.advance answer).Sound vault where
  toFifo := h.toFifo.advance answer
  placed := within_advance h.placed answer
  known := known_advance h.placed h.known hregistered
  draining := draining_advance h.draining
  quiet := h.quiet_advance hquiet
  noted := h.noted_advance

lemma send (h : s.Sound vault) {notice : Notice} (hquiet : Quiet vault s (.send notice)) :
    (s.step (.send notice)).Sound vault := by
  have hfifo := h.toFifo.send notice
  unfold State.step at hfifo ⊢
  split_ifs at hfifo ⊢
  · refine ⟨hfifo, h.placed, h.known, h.draining, fun hattempting queued hmem => ?_, h.noted⟩
    rcases List.mem_append.mp hmem with hmem | hmem
    · exact h.quiet hattempting queued hmem
    · rw [List.mem_singleton.mp hmem]
      exact hquiet hattempting
  · exact h

lemma step (h : s.Sound vault) {label : Label} (hregistered : Registered vault s label)
    (hquiet : Quiet vault s label) : (s.step label).Sound vault := by
  cases label with
  | clock now => exact ⟨⟨h.sent, h.past⟩, h.placed, h.known, h.draining, h.quiet, h.noted⟩
  | send notice => exact h.send hquiet
  | disconnect => exact ⟨⟨h.sent, h.past⟩, h.placed, h.known, h.draining, h.quiet, h.noted⟩
  | forgetPending other id =>
    exact ⟨⟨h.sent, h.past⟩, h.placed, h.known, h.draining, h.quiet, h.noted⟩
  | daemon answer => exact h.advance hregistered hquiet

end Sound

/-- With a notice in the channel, a step of the thread takes one or brings it nearer to that. -/
lemma advance_nearer (hqueue : s.queue ≠ []) (hrun : (s.advance answer).phase ≠ .stopped) :
    (s.advance answer).taken.length = s.taken.length + 1 ∨
      (s.advance answer).taken = s.taken ∧ (s.advance answer).phase.rank < s.phase.rank := by
  obtain ⟨head, rest, hhead⟩ := List.exists_cons_of_ne_nil hqueue
  revert hrun
  fun_cases advance answer s
  case case3 =>
    by_cases hchanged : s.changedAny = true <;>
      simp_all [Phase.rank, Prod.Lex.toLex_lt_toLex]
  case case11 => simp [take, hhead]
  case case7 hphase _ _ =>
    refine fun _ => .inr ⟨rfl, ?_⟩
    simp [hphase, Phase.rank, Prod.Lex.toLex_lt_toLex]
    omega
  case case12 => simp [receive, take, hhead]
  all_goals simp_all [Phase.rank, Prod.Lex.toLex_lt_toLex]

lemma dirty_step {vault : Path} {label : Label} {entry : Queued × List Path}
    (htaken : (s.step label).taken = s.taken ++ [entry]) (hvault : vault ∈ entry.2) :
    (s.step label).runtime.DirtyAt vault s.clock := by
  have hne : (s.step label).taken ≠ s.taken := by
    rw [htaken]
    simp
  cases label with
  | clock now => exact absurd rfl hne
  | send notice =>
    refine absurd ?_ hne
    unfold step
    split_ifs <;> rfl
  | disconnect => exact absurd rfl hne
  | forgetPending other id => exact absurd rfl hne
  | daemon answer =>
    rcases advance_channel s answer with ⟨-, hsame⟩ |
      ⟨head, rest, noted, -, -, htook, hdrain | hreceive⟩
    · exact absurd hsame hne
    all_goals
      obtain rfl : (head, noted) = entry := by simpa using htook.symm.trans htaken
    · simp [hdrain.2] at hvault
    · show (s.advance answer).runtime.DirtyAt vault s.clock
      rw [hreceive.2.2]
      exact Runtimes.noteAll_dirtyAt hvault _ _

/-- What the others do leaves the thread where it is, and takes nothing from the channel. -/
lemma step_beside {label : Label} (h : ¬∃ answer, label = .daemon answer) :
    (s.step label).phase = s.phase ∧ (s.step label).taken = s.taken ∧
      s.sent <+: (s.step label).sent := by
  cases label with
  | clock now => exact ⟨rfl, rfl, List.prefix_rfl⟩
  | send notice =>
    unfold step
    split_ifs
    · exact ⟨rfl, rfl, List.prefix_append _ _⟩
    · exact ⟨rfl, rfl, List.prefix_rfl⟩
  | disconnect => exact ⟨rfl, rfl, List.prefix_rfl⟩
  | forgetPending vault id => exact ⟨rfl, rfl, List.prefix_rfl⟩
  | daemon answer => exact absurd ⟨answer, rfl⟩ h

namespace Fifo
variable {n : ℕ} {queued : Queued}

lemma queue_ne_nil (h : s.Fifo) (hsent : s.sent[n]? = some queued) (hn : s.taken.length ≤ n) :
    s.queue ≠ [] := by
  intro hempty
  have hlt := (List.getElem?_eq_some_iff.mp hsent).1
  rw [h.sent, hempty, List.append_nil, List.length_map] at hlt
  omega

lemma taken_of_sent (h : s.Fifo) (hsent : s.sent[n]? = some queued) (hn : n < s.taken.length) :
    ∃ noted, s.taken[n]? = some (queued, noted) := by
  rw [h.sent, List.getElem?_append_left (by simpa using hn), List.getElem?_map] at hsent
  obtain ⟨⟨_, noted⟩, hentry, rfl⟩ := Option.map_eq_some_iff.mp hsent
  exact ⟨noted, hentry⟩

end Fifo

end State

section Run
variable {start : State} {labels : ℕ → Label}

/-- A notice that was sent is taken sooner or later, if the thread goes on. -/
lemma eventually_taken (hfifo : ∀ t, (states State.step start labels t).Fifo)
    (hfair : ∀ t, ∃ u, t ≤ u ∧ ∃ answer, labels u = .daemon answer)
    (hrun : ∀ t, (states State.step start labels t).phase ≠ .stopped) {t n : ℕ} {queued : Queued}
    (hsent : (states State.step start labels t).sent[n]? = some queued) :
    ∃ u, t ≤ u ∧ (states State.step start labels u).sent[n]? = some queued ∧
      n < (states State.step start labels u).taken.length := by
  set run := states State.step start labels
  by_cases hn : n < (run t).taken.length
  · exact ⟨t, le_rfl, hsent, hn⟩
  -- the place of the notice in the channel goes down, and with it unchanged the way to the channel
  refine eventually_of_rank
    (P := fun u => (run u).sent[n]? = some queued ∧ (run u).taken.length ≤ n)
    (fun u => toLex (n + 1 - (run u).taken.length, (run u).phase.rank)) hfair
    (fun u hu hbeside => ?_) (fun u hu hdaemon => ?_) ⟨hsent, not_lt.mp hn⟩
  · obtain ⟨hphase, htaken, more, hmore⟩ := State.step_beside (s := run u) hbeside
    have hnext : run (u + 1) = (run u).step (labels u) := rfl
    have hlt := (List.getElem?_eq_some_iff.mp hu.1).1
    rw [hnext, hphase, htaken, ← hmore, List.getElem?_append_left hlt]
    exact ⟨hu, rfl⟩
  · obtain ⟨answer, hlabel⟩ := hdaemon
    have hnext : run (u + 1) = (run u).advance answer := by
      show (run u).step (labels u) = _
      rw [hlabel]
      rfl
    have hstays : (run (u + 1)).sent[n]? = some queued := by
      rw [hnext, State.advance_sent]
      exact hu.1
    rcases State.advance_nearer ((hfifo u).queue_ne_nil hu.1 hu.2) (hnext ▸ hrun (u + 1)) with
      htook | ⟨hsame, hnearer⟩
    · by_cases hpast : n < (run (u + 1)).taken.length
      · exact .inl ⟨hstays, hpast⟩
      · refine .inr ⟨⟨hstays, not_lt.mp hpast⟩, Prod.Lex.toLex_lt_toLex.mpr (.inl ?_)⟩
        rw [hnext] at hpast ⊢
        dsimp only
        omega
    · rw [← hnext] at hsame hnearer
      refine .inr ⟨⟨hstays, hsame ▸ hu.2⟩, Prod.Lex.toLex_lt_toLex.mpr (.inr ⟨?_, hnearer⟩)⟩
      rw [hsame]

end Run

/-- In a run of the thread no notice of a vault is lost that comes after an attempt of the vault has
started: none leaves the channel without being noted; where it is noted, every remote of the vault
has a change to synchronise; and it is noted sooner or later, if the thread goes on. -/
structure NoneLost (vault : Path) (run : ℕ → State) (labels : ℕ → Label) : Prop where
  noted : ∀ t, ∀ entry ∈ (run t).taken, entry.1.Tracked vault → vault ∈ entry.2
  dirty : ∀ t entry, (run (t + 1)).taken = (run t).taken ++ [entry] → vault ∈ entry.2 →
    (run (t + 1)).runtime.DirtyAt vault (run t).clock
  eventually : (∀ t, ∃ u, t ≤ u ∧ ∃ answer, labels u = .daemon answer) →
    (∀ t, (run t).phase ≠ .stopped) →
    ∀ (t n : ℕ) (queued : Queued), (run t).sent[n]? = some queued → queued.Tracked vault →
      ∃ u, t ≤ u ∧ ∃ noted : List Path, (run u).taken[n]? = some (queued, noted) ∧ vault ∈ noted

/-- No notice of a registered vault is lost in a run in which none waits in the channel when an
attempt starts, and none comes while a pass with an attempt goes on. -/
theorem noneLost_of_quiet (vault : Path) (clock : ℤ) (runtime : Runtimes) (labels : ℕ → Label)
    (hregistered : ∀ t, State.Registered vault
      (states State.step { clock := clock, runtime := runtime } labels t) (labels t))
    (hquiet : ∀ t, State.Quiet vault
      (states State.step { clock := clock, runtime := runtime } labels t) (labels t)) :
    NoneLost vault (states State.step { clock := clock, runtime := runtime } labels) labels := by
  have hsound : ∀ t, State.Sound vault
      (states State.step { clock := clock, runtime := runtime } labels t) :=
    states_invariant (P := fun s label => s.Registered vault label ∧ s.Quiet vault label)
      (fun t => ⟨hregistered t, hquiet t⟩) (State.Sound.begin vault clock runtime)
      (fun s label h hlabel => h.step hlabel.1 hlabel.2)
  refine ⟨fun t => (hsound t).noted, fun t entry => State.dirty_step, ?_⟩
  intro hfair hrun t n queued hsent htracked
  obtain ⟨u, htu, hstays, hn⟩ := eventually_taken (fun t => (hsound t).toFifo) hfair hrun hsent
  obtain ⟨noted, hentry⟩ := (hsound u).taken_of_sent hstays hn
  exact ⟨u, htu, noted, hentry, (hsound u).noted _ (List.mem_of_getElem? hentry) htracked⟩

/-- A vault, one of its notes, and the remote it is synchronised with. -/
def vault : Path := [.rootDir, .normal "vault"]
def note : Notice := .event [vault ++ [.normal "note.md"]]
def target : RemoteTarget := ⟨"drive", "cloud", true⟩

/-- The vault is synchronised, the thread looks at the channel, and then the note is changed; the
thread goes on for ever. -/
def changeLater (t : ℕ) : Label :=
  [.daemon { vaults := [vault] }, .daemon { targets := some [target] }, .daemon {}, .daemon {},
    .daemon {}, .daemon {}, .daemon {}, .daemon {}, .send note].getD t
    (.daemon { vaults := [vault] })

lemma changeLater_periodic (t : ℕ) :
    states State.step {} changeLater (t + 17) = states State.step {} changeLater (t + 13) := by
  induction t with
  | zero => decide +kernel
  | succ t ih => exact congrArg (State.step · (.daemon { vaults := [vault] })) ih

lemma changeLater_fits (t : ℕ) :
    State.Registered vault (states State.step {} changeLater t) (changeLater t) ∧
      State.Quiet vault (states State.step {} changeLater t) (changeLater t) := by
  induction t using Nat.strong_induction_on with
  | _ t ih =>
    by_cases ht : t < 17
    · clear ih
      revert t
      decide +kernel
    · obtain ⟨d, rfl⟩ := Nat.exists_eq_add_of_le' (not_lt.mp ht)
      rw [changeLater_periodic]
      exact ih (d + 13) (by omega)

theorem noneLost_of_quiet_changeLater :
    NoneLost vault (states State.step {} changeLater) changeLater :=
  noneLost_of_quiet vault 0 [] changeLater (fun t => (changeLater_fits t).1)
    (fun t => (changeLater_fits t).2)

/-- The note is changed while the vault is being synchronised. -/
def changeDuring (t : ℕ) : Label :=
  [.daemon { vaults := [vault] }, .daemon { targets := some [target] }, .daemon {}, .send note,
    .daemon {}, .daemon {}, .daemon {}, .daemon {}].getD t (.daemon { vaults := [vault] })

/-- The pass ends with clearing the channel, and the change with it. -/
theorem not_noneLost_changeDuring :
    ¬NoneLost vault (states State.step {} changeDuring) changeDuring := by
  intro h
  have hnoted := h.noted 8 (⟨note, [vault]⟩, []) (by decide +kernel) (by decide +kernel)
  exact List.not_mem_nil hnoted

end Aeroric.SyncDaemon
