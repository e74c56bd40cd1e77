import Aeroric.CooldownTable
import Aeroric.Runs

/-! The connection that a task stays with, and what moves it. -/
namespace Aeroric.ConfigRoutes

/-- What the choice of targets for a request notes: how long the task is to stay with a connection,
and which connections rest when they are limited. -/
def noteResolve (taskId : String) (stickyTtl : Option ℕ) (restOnLimit : List (String × Bool))
    (state : State) : State :=
  { state with
    stickyTtl := state.stickyTtl.set taskId stickyTtl
    noRestOnLimit := restOnLimit.foldl
      (fun limits connection =>
        if connection.2 then limits.erase connection.1 else insert connection.1 limits)
      state.noRestOnLimit }

def forgetTask (taskId : String) (state : State) : State :=
  { state with
    sticky := state.sticky.erase taskId
    stickyTtl := state.stickyTtl.erase taskId
    rebind := state.rebind.erase taskId
    primaryFailure := state.primaryFailure.erase taskId
    downgrades := state.downgrades.erase taskId }

inductive Call
  | record (event : Event)
  | resolve (taskId : String) (stickyTtl : Option ℕ) (restOnLimit : List (String × Bool))
  | forget (taskId : String)

namespace Call

def run (dates : String → Option ℤ) (state : State) (call : ℕ × Call) : State :=
  match call.2 with
  | .record event => event.record dates call.1 state
  | .resolve taskId stickyTtl restOnLimit => noteResolve taskId stickyTtl restOnLimit state
  | .forget taskId => forgetTask taskId state

/-- The connection that gives a task leave to move, by a failure. -/
def leave (taskId : String) : Call → Option String
  | .record (.failure task targetId _ kind _ _) =>
    if task = taskId ∧ kind.allowsRebind = true then connectionOf targetId else none
  | _ => none

def answer (taskId : String) : Call → Option String
  | .record (.success task targetId _ _) => if task = taskId then connectionOf targetId else none
  | _ => none

/-- The connection that answers with another model than the requested one. -/
def standIn (taskId : String) : Call → Option String
  | .record (.success task targetId _ fallback) =>
    if task = taskId ∧ fallback.isSome = true then connectionOf targetId else none
  | _ => none

end Call

def session (state : State) (taskId : String) (now : ℕ) : Option String :=
  ((state.sticky.get taskId).filter fun (entry : String × ℕ) => now < entry.2).map Prod.fst

/-- Since its last answer to the task the connection has failed for it in a way that allows it to
move. -/
def owed (taskId connection : String) (calls : List (ℕ × Call)) : Bool :=
  calls.foldl (fun owed call =>
    if call.2.answer taskId = some connection then false
    else owed || call.2.leave taskId = some connection) false

/-- What allows the task to move is a failure of the connection that it stays with, and that one does
not stand in for itself with another model. -/
def Own (taskId : String) (state : State) (call : ℕ × Call) : Prop :=
  ∀ stays ∈ session state taskId call.1,
    (∀ connection ∈ call.2.leave taskId, connection = stays) ∧ call.2.standIn taskId ≠ some stays

instance (taskId : String) (state : State) (call : ℕ × Call) : Decidable (Own taskId state call) := by
  unfold Own
  infer_instance

variable {dates : String → Option ℤ} {state : State} {taskId a b : String} {now : ℕ}
  {calls : List (ℕ × Call)}

lemma owed_concat (calls : List (ℕ × Call)) (call : ℕ × Call) :
    owed taskId a (calls ++ [call]) = if call.2.answer taskId = some a then false
      else owed taskId a calls || call.2.leave taskId = some a := by
  rw [owed, List.foldl_concat]
  rfl

lemma session_eq_some : session state taskId now = some a ↔
    ∃ ends, state.sticky.get taskId = some (a, ends) ∧ now < ends := by
  unfold session
  constructor
  · intro h
    obtain ⟨⟨stays, ends⟩, hentry, rfl⟩ := Option.map_eq_some_iff.mp h
    obtain ⟨hentry, hends⟩ := Option.filter_eq_some_iff.mp hentry
    exact ⟨ends, hentry, of_decide_eq_true hends⟩
  · rintro ⟨ends, hentry, hends⟩
    simp [hentry, hends]

lemma session_earlier (h : session state taskId now = some a) {t : ℕ} (ht : t ≤ now) :
    session state taskId t = some a := by
  obtain ⟨ends, hentry, hends⟩ := session_eq_some.mp h
  exact session_eq_some.mpr ⟨ends, hentry, by omega⟩

lemma session_congr {state' : State} (h : state'.sticky.get taskId = state.sticky.get taskId) :
    session state' taskId now = session state taskId now := by
  rw [session, h]
  rfl

/-! What a call does to the entry of a task and to its leave to move. -/

lemma recordFailure_session (now : ℕ) (task targetId upstreamModel : String) (kind : FailureClass)
    (retryAfter : Option ℕ) (fallback : Bool) (state : State) :
    let after := (recordFailure now task targetId upstreamModel kind retryAfter fallback state).2
    after.sticky = state.sticky ∧ after.rebind =
      if (connectionOf targetId).isSome ∧ kind.allowsRebind = true then insert task state.rebind
      else state.rebind := by
  have hcount : ∀ (noted : State) (connection key : String),
      (noted.countFailure now connection key kind retryAfter).2.sticky = noted.sticky ∧
        (noted.countFailure now connection key kind retryAfter).2.rebind = noted.rebind := by
    intro noted connection key
    unfold State.countFailure
    split
    · exact ⟨rfl, rfl⟩
    · split <;> exact ⟨rfl, rfl⟩
  have hnote : (state.noteTask task kind fallback).sticky = state.sticky ∧
      (state.noteTask task kind fallback).rebind =
        if kind.allowsRebind = true then insert task state.rebind else state.rebind := by
    unfold State.noteTask
    cases fallback <;> cases kind.allowsRebind <;> exact ⟨rfl, rfl⟩
  unfold recordFailure
  split
  · cases connectionOf targetId with
    | none => simp
    | some connection =>
      dsimp only
      generalize (if kind.coolsModel then modelKey connection upstreamModel else connection) = key
      obtain ⟨hsticky, hrebind⟩ := hcount (state.noteTask task kind fallback) connection key
      rw [hnote.1] at hsticky
      rw [hnote.2] at hrebind
      simp only [Option.isSome_some, true_and]
      split
      · exact ⟨hsticky, hrebind⟩
      · exact ⟨hsticky, hrebind⟩
  · next hover =>
    have hkind : kind = .requestError := by simpa [FailureClass.shouldFailover] using hover
    simp [hkind, FailureClass.allowsRebind]

lemma stick_session (now : ℕ) (task connection : String) (state : State) :
    let after := state.stick now task connection
    after.rebind = state.rebind.erase task ∧
      (∀ other, other ≠ task → after.sticky.get other = state.sticky.get other) ∧
      (after.sticky.get task = state.sticky.get task ∨
        (∃ ends, after.sticky.get task = some (connection, ends)) ∧
          (session state task now = none ∨ task ∈ state.rebind ∨
            session state task now = some connection)) := by
  dsimp only [State.stick]
  split
  · split
    · next ttl _ hmoves =>
      exact ⟨rfl, fun other hother => Function.update_of_ne hother ..,
        .inr ⟨⟨_, Function.update_self ..⟩, hmoves⟩⟩
    · exact ⟨rfl, fun _ _ => rfl, .inl rfl⟩
  · exact ⟨rfl, fun _ _ => rfl, .inl rfl⟩

lemma recordSuccess_session (now : ℕ) (task targetId : String) (fallback : Option Fallback)
    (state : State) :
    let after := recordSuccess now task targetId fallback state
    ((connectionOf targetId = none ∨ fallback.isSome = true) ∧ after.sticky = state.sticky ∧
        after.rebind = state.rebind) ∨
      ∃ connection, connectionOf targetId = some connection ∧ after.rebind = state.rebind.erase task ∧
        (∀ other, other ≠ task → after.sticky.get other = state.sticky.get other) ∧
        (after.sticky.get task = state.sticky.get task ∨
          (∃ ends, after.sticky.get task = some (connection, ends)) ∧
            (session state task now = none ∨ task ∈ state.rebind ∨
              session state task now = some connection)) := by
  unfold recordSuccess
  cases connectionOf targetId with
  | none => exact .inl ⟨.inl rfl, rfl, rfl⟩
  | some connection =>
    cases fallback with
    | some fallback => exact .inl ⟨.inr rfl, rfl, rfl⟩
    | none => exact .inr ⟨connection, rfl, stick_session now task connection _⟩

/-- A call keeps the task's entry and its leave to move; or gives it leave; or it has none
afterwards, and its entry is gone, as it was, or new. -/
lemma run_session (dates : String → Option ℤ) (state : State) (taskId : String) (call : ℕ × Call) :
    let after := Call.run dates state call
    (after.sticky.get taskId = state.sticky.get taskId ∧
        (taskId ∈ after.rebind ↔ taskId ∈ state.rebind) ∧
        call.2.answer taskId = call.2.standIn taskId) ∨
      (after.sticky.get taskId = state.sticky.get taskId ∧ (call.2.leave taskId).isSome = true ∧
        call.2.answer taskId = none) ∨
      taskId ∉ after.rebind ∧ (after.sticky.get taskId = none ∨
        after.sticky.get taskId = state.sticky.get taskId ∨
        (∃ c ends, after.sticky.get taskId = some (c, ends) ∧
          (session state taskId call.1 = none ∨ taskId ∈ state.rebind ∨
            session state taskId call.1 = some c))) := by
  obtain ⟨now, call⟩ := call
  cases call with
  | resolve task stickyTtl restOnLimit => exact .inl ⟨rfl, .rfl, rfl⟩
  | forget task =>
    by_cases htask : taskId = task
    · subst htask
      exact .inr (.inr ⟨by simp [Call.run, forgetTask], .inl (Function.update_self ..)⟩)
    · refine .inl ⟨Function.update_of_ne htask .., ?_, rfl⟩
      simp [Call.run, forgetTask, htask]
  | record event =>
    cases event with
    | changed connectionId => exact .inl ⟨rfl, .rfl, rfl⟩
    | cleared connectionId => exact .inl ⟨rfl, .rfl, rfl⟩
    | failure task targetId upstreamModel kind retryAfter fallback =>
      obtain ⟨hsticky, hrebind⟩ := recordFailure_session now task targetId upstreamModel kind
        (retryAfter.bind (parseRetryAfter dates · now)) fallback state
      have hentry := congrArg (fun sticky => sticky.get taskId) hsticky
      by_cases hleave : task = taskId ∧ (connectionOf targetId).isSome ∧ kind.allowsRebind = true
      · obtain ⟨rfl, hsome, hkind⟩ := hleave
        exact .inr (.inl ⟨hentry, by simp [Call.leave, hsome, hkind], rfl⟩)
      · refine .inl ⟨hentry, ?_, rfl⟩
        simp only [Call.run, Event.record]
        rw [hrebind]
        split
        · next hsome =>
          have hother : taskId ≠ task := fun h => hleave ⟨h.symm, hsome⟩
          simp [hother]
        · rfl
    | success task targetId upstreamModel fallback =>
      rcases recordSuccess_session now task targetId fallback state with
        ⟨hwhy, hsticky, hrebind⟩ | ⟨connection, hconnection, hrebind, hothers, hentry⟩
      · refine .inl ⟨congrArg (fun sticky => sticky.get taskId) hsticky, ?_, ?_⟩
        · simp only [Call.run, Event.record]
          rw [hrebind]
        · rcases hwhy with hnone | hfallback
          · simp [Call.answer, Call.standIn, hnone]
          · simp [Call.answer, Call.standIn, hfallback]
      · by_cases htask : taskId = task
        · subst htask
          refine .inr (.inr ⟨?_, .inr (hentry.imp id ?_)⟩)
          · simp only [Call.run, Event.record]
            rw [hrebind]
            simp
          · rintro ⟨⟨ends, hends⟩, hmoves⟩
            exact ⟨connection, ends, hends, hmoves⟩
        · refine .inl ⟨hothers taskId htask, ?_, ?_⟩
          · simp only [Call.run, Event.record]
            rw [hrebind]
            simp [htask]
          · simp [Call.answer, Call.standIn, Ne.symm htask]

/-- A task that has leave to move, and a connection to stay with, has it from that connection. -/
lemma owed_of_leave (hown : Along (Call.run dates) (Own taskId) .default calls)
    (hnow : ∀ call ∈ calls, call.1 ≤ now) (htimes : (calls.map Prod.fst).Pairwise (· ≤ ·))
    (hsession : session (calls.foldl (Call.run dates) .default) taskId now = some a)
    (hleave : taskId ∈ (calls.foldl (Call.run dates) .default).rebind) :
    owed taskId a calls = true := by
  induction calls using List.reverseRecOn with
  | nil => exact absurd hleave (Finset.notMem_empty _)
  | append_singleton calls call ih =>
    have hcall := Along.iff.mp hown calls call (List.prefix_refl _)
    have hold : Along (Call.run dates) (Own taskId) .default calls :=
      Along.iff.mpr fun earlier other hpre =>
        Along.iff.mp hown earlier other (hpre.trans (List.prefix_append _ _))
    have hlate : call.1 ≤ now := hnow call (by simp)
    rw [List.map_append, List.pairwise_append] at htimes
    rw [List.foldl_concat] at hsession hleave
    rw [owed_concat]
    rcases run_session dates (calls.foldl (Call.run dates) .default) taskId call with
      ⟨hentry, hkept, hanswer⟩ | ⟨hentry, hsome, hanswer⟩ | ⟨hgone, -⟩
    · rw [session_congr hentry] at hsession
      have hearlier := ih hold (fun other hother => hnow other (by simp [hother])) htimes.1 hsession
        (hkept.mp hleave)
      have hother := (hcall a (session_earlier hsession hlate)).2
      rw [← hanswer] at hother
      simp [hother, hearlier]
    · rw [session_congr hentry] at hsession
      obtain ⟨c, hc⟩ := Option.isSome_iff_exists.mp hsome
      have hsame := (hcall a (session_earlier hsession hlate)).1 c hc
      subst hsame
      simp [hanswer, hc]
    · exact absurd hleave hgone

/-- If what allows a task to move is always a failure of the connection that it stays with, it moves
from a connection only after that one has failed so, since its last answer to the task. -/
theorem session_moves (hown : Along (Call.run dates) (Own taskId) .default calls)
    {call : ℕ × Call} (htimes : ((calls ++ [call]).map Prod.fst).Pairwise (· ≤ ·))
    (hbefore : session (calls.foldl (Call.run dates) .default) taskId call.1 = some a)
    (hafter : session ((calls ++ [call]).foldl (Call.run dates) .default) taskId call.1 = some b)
    (hmoves : a ≠ b) : owed taskId a calls = true := by
  rw [List.map_append, List.pairwise_append] at htimes
  have hnow : ∀ other ∈ calls, other.1 ≤ call.1 := fun other hother =>
    htimes.2.2 _ (List.mem_map_of_mem hother) _ (by simp)
  rw [List.foldl_concat] at hafter
  have hkept : (Call.run dates (calls.foldl (Call.run dates) .default) call).sticky.get taskId ≠
      (calls.foldl (Call.run dates) .default).sticky.get taskId := by
    intro hentry
    rw [session_congr hentry, hbefore] at hafter
    exact hmoves (Option.some.inj hafter)
  rcases run_session dates (calls.foldl (Call.run dates) .default) taskId call with
    ⟨hentry, -⟩ | ⟨hentry, -⟩ | ⟨-, hentry | hentry | ⟨c, ends, hentry, hwhy⟩⟩
  · exact absurd hentry hkept
  · exact absurd hentry hkept
  · obtain ⟨ends, hsome, -⟩ := session_eq_some.mp hafter
    rw [hentry] at hsome
    cases hsome
  · exact absurd hentry hkept
  · obtain ⟨ends', hsome, -⟩ := session_eq_some.mp hafter
    rw [hentry] at hsome
    cases hsome
    rw [hbefore] at hwhy
    rcases hwhy with hnone | hleave | hsame
    · cases hnone
    · exact owed_of_leave hown hnow htimes.1 hbefore hleave
    · exact absurd (Option.some.inj hsame) hmoves

/-- The task stays with `a`, which is limited then. -/
def limitedStay : List (ℕ × Call) :=
  [(0, .resolve "t" (some 3600) []), (1, .record (.success "t" "conn:a" "m" none)),
    (2, .record (.failure "t" "conn:a" "m" .rateLimited none false))]

theorem session_moves_limited :
    session (limitedStay.foldl (Call.run fun _ => none) .default) "t" 2 = some "a" ∧
      session ((limitedStay ++ [(2, Call.record (.success "t" "conn:b" "m" none))]).foldl
        (Call.run fun _ => none) .default) "t" 2 = some "b" ∧
      owed "t" "a" limitedStay = true := by
  have hbefore : session (limitedStay.foldl (Call.run fun _ => none) .default) "t" 2 = some "a" := by
    decide
  have hafter : session ((limitedStay ++ [(2, Call.record (.success "t" "conn:b" "m" none))]).foldl
      (Call.run fun _ => none) .default) "t" 2 = some "b" := by decide
  exact ⟨hbefore, hafter, session_moves (by decide) (by decide) hbefore hafter (by decide)⟩

/-- Another connection that is tried after `a` gives the task leave to move. -/
def otherLimited : List (ℕ × Call) :=
  [(0, .resolve "t" (some 3600) []), (1, .record (.success "t" "conn:a" "m" none)),
    (2, .record (.failure "t" "conn:a" "m" .network none false)),
    (2, .record (.failure "t" "conn:b" "m" .rateLimited none false))]

/-- The leave to move outlasts an answer of `a` with another model. -/
def stoodIn : List (ℕ × Call) :=
  limitedStay ++
    [(2, .record (.success "t" "conn:a" "n" (some ⟨"m", "n", ⟨[], [], false⟩⟩))),
      (3, .record (.failure "t" "conn:a" "m" .network none false))]

/-- A task moves for the failure of a connection that it does not stay with, and for one that came
before the last answer of the connection that it stays with. -/
theorem session_dragged :
    (session (otherLimited.foldl (Call.run fun _ => none) .default) "t" 2 = some "a" ∧
      session ((otherLimited ++ [(2, Call.record (.success "t" "conn:c" "m" none))]).foldl
        (Call.run fun _ => none) .default) "t" 2 = some "c" ∧
      owed "t" "a" otherLimited = false) ∧
    session (stoodIn.foldl (Call.run fun _ => none) .default) "t" 3 = some "a" ∧
      session ((stoodIn ++ [(3, Call.record (.success "t" "conn:b" "m" none))]).foldl
        (Call.run fun _ => none) .default) "t" 3 = some "b" ∧
      owed "t" "a" stoodIn = false := by
  decide

end Aeroric.ConfigRoutes
