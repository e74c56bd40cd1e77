import Aeroric.Program

/-! Calls under way at the same time: each takes its next instruction when the scheduler lets
it, and an instruction that takes the lock waits until the lock is free. -/
namespace Aeroric

namespace Program
variable {σ α β : Type}

/-- Whether the next instruction acts on the shared state. -/
def acts : Program σ α → Bool
  | .act _ _ => true
  | _ => false

def answer : Program σ α → Option α
  | .pure a => some a
  | _ => none

/-- A call that neither takes nor gives back the lock. -/
def LockFree : Program σ α → Prop
  | .pure _ => True
  | .act _ k => ∀ b, (k b).LockFree
  | .lock _ => False
  | .unlock _ => False

/-- What is left of a call that has the lock and gives it back with its answer. -/
def Held : Program σ α → Prop
  | .act _ k => ∀ b, (k b).Held
  | .unlock (.pure _) => True
  | _ => False

/-- A call that holds the lock for the whole of its actions. -/
def Guarded : Program σ α → Prop
  | .pure _ => True
  | .lock k => k.Held
  | _ => False

variable {p : Program σ α}

lemma LockFree.bind {g : α → Program σ β} (hp : p.LockFree)
    (hg : ∀ a, (g a).LockFree) : (p.bind g).LockFree := by
  induction p with
  | pure a => exact hg a
  | act f k ih => exact fun b => ih b (hp b)
  | lock k => exact hp.elim
  | unlock k => exact hp.elim

lemma LockFree.held (hp : p.LockFree) (g : α → β) :
    (p.bind fun a => .unlock (.pure (g a))).Held := by
  induction p with
  | pure a => trivial
  | act f k ih => exact fun b => ih b (hp b)
  | lock k => exact hp.elim
  | unlock k => exact hp.elim

lemma bind_assoc {γ : Type} (p : Program σ α) (g : α → Program σ β) (h : β → Program σ γ) :
    (p.bind g).bind h = p.bind fun a => (g a).bind h := by
  induction p with
  | pure a => rfl
  | act f k ih => exact congrArg (Program.act f) (funext ih)
  | lock k ih => exact congrArg Program.lock ih
  | unlock k ih => exact congrArg Program.unlock ih

/-- A body under the lock whose answer is only handed on. -/
lemma LockFree.guarded (hp : p.LockFree) (g : α → β) :
    ((serial p).bind fun a => .pure (g a)).Guarded := by
  show ((p.bind fun a => .unlock (.pure a)).bind fun a => .pure (g a)).Held
  rw [bind_assoc]
  exact hp.held g

lemma answer_eq_some {a : α} : p.answer = some a ↔ p = .pure a := by
  cases p <;> simp [answer]

/-- A call that has the lock has not answered. -/
lemma Held.answer (h : p.Held) : p.answer = none := by
  cases p with
  | pure a => exact h.elim
  | act | lock | unlock => rfl

end Program

namespace Call
variable {σ ε α β : Type} {p : Call σ ε α} {f : α → Call σ ε β}

def LockFree (p : Call σ ε α) : Prop := Program.LockFree p.run

def Guarded (p : Call σ ε α) : Prop := Program.Guarded p.run

lemma LockFree.pure (a : α) : LockFree (pure a : Call σ ε α) := trivial

lemma LockFree.throw (e : ε) : LockFree (throw e : Call σ ε α) := trivial

lemma LockFree.act (g : σ → Except ε α × σ) : LockFree (act g) := fun _ => trivial

lemma LockFree.bind (hp : LockFree p) (hf : ∀ a, LockFree (f a)) : LockFree (p >>= f) := by
  refine Program.LockFree.bind hp fun r => ?_
  cases r with
  | ok a => exact hf a
  | error e => exact trivial

/-- A body under the lock whose answer is only handed on. -/
lemma LockFree.guarded (hp : LockFree p) (g : α → β) :
    Guarded (serial p >>= fun a => Pure.pure (g a)) := by
  have h := Program.LockFree.guarded hp fun r : Except ε α => r.map g
  have hbind : (serial p >>= fun a => Pure.pure (g a) : Call σ ε β).run =
      (Program.serial p.run).bind fun r => .pure (r.map g) := by
    refine congrArg (Program.bind (Program.serial p.run)) (funext fun r => ?_)
    cases r <;> rfl
  unfold Guarded
  rwa [hbind]

end Call

/-- The shared state, who holds the lock, what each call has left to do, and which calls have
acted. -/
structure Pool (ι σ α : Type) where
  state : σ
  holder : Option ι
  left : ι → Program σ α
  begun : ι → Bool

namespace Pool
variable {ι σ α : Type}

def start (s : σ) (calls : ι → Program σ α) : Pool ι σ α := ⟨s, none, calls, fun _ => false⟩

variable [DecidableEq ι]

def enabled (P : Pool ι σ α) (i : ι) : Bool :=
  match P.left i with
  | .pure _ => false
  | .act _ _ => true
  | .lock _ => P.holder.isNone
  | .unlock _ => P.holder = some i

def step (P : Pool ι σ α) (i : ι) : Pool ι σ α where
  state := ((P.left i).next P.state).2
  holder := match P.left i with
    | .lock _ => some i
    | .unlock _ => none
    | _ => P.holder
  left := Function.update P.left i ((P.left i).next P.state).1
  begun := Function.update P.begun i (P.begun i || (P.left i).acts)

def follow (P : Pool ι σ α) (schedule : List ι) : Pool ι σ α := schedule.foldl step P

/-- Every instruction of the schedule can be taken when its turn comes. -/
def canFollow (P : Pool ι σ α) : List ι → Bool
  | [] => true
  | i :: schedule => P.enabled i && (P.step i).canFollow schedule

/-- Some call takes its next instruction. -/
def Next (P P' : Pool ι σ α) : Prop := ∃ i, P.enabled i = true ∧ P' = P.step i

lemma next_follow {P : Pool ι σ α} {schedule : List ι} (h : P.canFollow schedule = true) :
    Relation.ReflTransGen Next P (P.follow schedule) := by
  induction schedule generalizing P with
  | nil => exact .refl
  | cons i schedule ih =>
    rw [canFollow, Bool.and_eq_true] at h
    exact (ih h.2).head ⟨i, h.1, rfl⟩

section Step
variable {calls : ι → Program σ α} {Ready : ι → σ → Prop} {P P' : Pool ι σ α} {s0 : σ}
  {order : List ι} {current : Option ι} {i j : ι}

@[simp] lemma step_left_self : (P.step i).left i = ((P.left i).next P.state).1 :=
  Function.update_self i _ _

lemma step_left_of_ne (h : j ≠ i) : (P.step i).left j = P.left j := Function.update_of_ne h _ _

@[simp] lemma step_begun_self : (P.step i).begun i = (P.begun i || (P.left i).acts) :=
  Function.update_self i _ _

lemma run_step : ((P.step i).left i).run (P.step i).state = (P.left i).run P.state := by
  rw [step_left_self]
  exact Program.run_next _ _

lemma step_state_of_not_acts (h : (P.left i).acts = false) : (P.step i).state = P.state := by
  unfold step
  cases hp : P.left i with
  | act f k => simp [hp, Program.acts] at h
  | pure | lock | unlock => simp [Program.next]

/-- Another call's hold of the lock is not touched. -/
lemma step_holder_of_ne (he : P.enabled i = true) (h : j ≠ i) :
    (P.step i).holder = some j ↔ P.holder = some j := by
  unfold enabled at he
  unfold step
  cases hp : P.left i with
  | pure | act => simp
  | lock k =>
    simp only [hp, Option.isNone_iff_eq_none] at he
    simp [he, Ne.symm h]
  | unlock k =>
    simp only [hp, decide_eq_true_eq] at he
    simp [he, Ne.symm h]

lemma enabled_answer (he : P.enabled i = true) : (P.left i).answer = none := by
  unfold enabled at he
  cases hp : P.left i with
  | pure a => simp [hp] at he
  | act | lock | unlock => rfl

end Step

section InTurn
variable {calls : ι → Program σ α} {R : ι → σ → σ → Prop} {Inv : σ → Prop} {P P' : Pool ι σ α}
  {i : ι}

omit [DecidableEq ι] in
/-- Where guarded calls stand: the one with the lock goes on as if it were alone, each of its
actions a step of its relation, and the others have not begun or have answered. -/
structure InTurn (calls : ι → Program σ α) (R : ι → σ → σ → Prop) (P : Pool ι σ α) : Prop where
  holds : ∀ i, P.holder = some i → (P.left i).Held ∧ (P.left i).Steps (R i) P.state
  waits : ∀ i, P.holder ≠ some i → P.left i = calls i ∨ (P.left i).answer.isSome

omit [DecidableEq ι] in
lemma inTurn_start (calls : ι → Program σ α) (R : ι → σ → σ → Prop) (s : σ) :
    InTurn calls R (start s calls) :=
  ⟨nofun, fun _ _ => .inl rfl⟩

/-- What an instruction of a guarded call is: it takes the lock, acts with it, or gives it back
with the answer. -/
lemma InTurn.cases (h : InTurn calls R P) (hguard : ∀ i, (calls i).Guarded)
    (he : P.enabled i = true) :
    (P.holder = none ∧ ∃ k, P.left i = .lock k ∧ calls i = .lock k) ∨
      (P.holder = some i ∧ (∃ (δ : Type) (f : σ → δ × σ) (k : δ → Program σ α),
        P.left i = .act f k)) ∨
      (P.holder = some i ∧ ∃ a, P.left i = .unlock (.pure a)) := by
  have hanswer := enabled_answer he
  by_cases hhold : P.holder = some i
  · have hheld := (h.holds i hhold).1
    cases hp : P.left i with
    | act f k => exact .inr (.inl ⟨hhold, _, f, k, rfl⟩)
    | unlock k =>
      rw [hp] at hheld
      cases k with
      | pure a => exact .inr (.inr ⟨hhold, a, rfl⟩)
      | act | lock | unlock => exact hheld.elim
    | pure | lock =>
      rw [hp] at hheld
      exact hheld.elim
  · have hleft := (h.waits i hhold).resolve_right (by simp [hanswer])
    have hg := hguard i
    unfold enabled at he
    rw [hleft] at hanswer he ⊢
    cases hp : calls i with
    | lock k =>
      rw [hp] at he
      exact .inl ⟨by simpa using he, k, rfl, rfl⟩
    | pure a => simp [hp, Program.answer] at hanswer
    | act | unlock =>
      rw [hp] at hg
      exact hg.elim

/-- An instruction of a guarded call is a step of its relation or leaves the state. -/
lemma InTurn.step_state (h : InTurn calls R P) (hguard : ∀ i, (calls i).Guarded)
    (he : P.enabled i = true) :
    (P.step i).state = P.state ∨ R i P.state (P.step i).state := by
  rcases h.cases hguard he with ⟨-, k, hk, -⟩ | ⟨hhold, δ, f, k, hk⟩ | ⟨-, a, ha⟩
  · exact .inl (step_state_of_not_acts (by rw [hk]; rfl))
  · have hsteps := (h.holds i hhold).2
    rw [hk] at hsteps
    refine .inr ?_
    unfold step
    rw [hk]
    exact hsteps.1
  · exact .inl (step_state_of_not_acts (by rw [ha]; rfl))

lemma InTurn.step (h : InTurn calls R P) (hguard : ∀ i, (calls i).Guarded)
    (hsteps : ∀ i s, Inv s → (calls i).Steps (R i) s) (hinv : Inv P.state)
    (he : P.enabled i = true) : InTurn calls R (P.step i) := by
  have hothers : (∀ j, j ≠ i → P.holder ≠ some j) := by
    intro j hji hj
    rcases h.cases hguard he with ⟨hnone, -⟩ | ⟨hhold, -⟩ | ⟨hhold, -⟩
    · cases hnone.symm.trans hj
    · exact hji (Option.some.inj (hj.symm.trans hhold))
    · exact hji (Option.some.inj (hj.symm.trans hhold))
  refine ⟨fun j hj => ?_, fun j hj => ?_⟩
  · by_cases hji : j = i
    · subst hji
      rw [step_left_self]
      rcases h.cases hguard he with ⟨-, k, hk, hcall⟩ | ⟨hhold, δ, f, k, hk⟩ | ⟨-, a, ha⟩
      · have hg := hguard j
        have hs := hsteps j P.state hinv
        rw [hcall] at hg hs
        rw [step_state_of_not_acts (by rw [hk]; rfl), hk]
        exact ⟨hg, hs⟩
      · have hheld := h.holds j hhold
        rw [hk] at hheld
        unfold step
        rw [hk]
        exact ⟨hheld.1 _, hheld.2.2⟩
      · unfold step at hj
        rw [ha] at hj
        cases hj
    · exact absurd ((step_holder_of_ne he hji).mp hj) (hothers j hji)
  · by_cases hji : j = i
    · subst hji
      rw [step_left_self]
      rcases h.cases hguard he with ⟨-, k, hk, -⟩ | ⟨hhold, δ, f, k, hk⟩ | ⟨-, a, ha⟩
      · exact absurd (by unfold step; rw [hk]) hj
      · exact absurd (by unfold step; rw [hk]; exact hhold) hj
      · rw [ha]
        exact .inr rfl
    · rw [step_left_of_ne hji]
      exact h.waits j fun hold => hothers j hji hold

omit [DecidableEq ι] in
/-- Where a call stands that had not begun in an earlier state: it still has not, or it runs as
from a state `s` since then, or it has answered what it answers there. -/
inductive Turn (calls : ι → Program σ α) (Since : σ → Prop) (P : Pool ι σ α) (i : ι) : Prop
  | ahead (hleft : P.left i = calls i)
  | running (s : σ) (hs : Since s) (hhold : P.holder = some i)
      (hrun : (P.left i).run P.state = (calls i).run s)
  | answered (s : σ) (hs : Since s) (hleft : P.left i = .pure ((calls i).run s).1)

lemma Turn.step {Since : σ → Prop} (h : Turn calls Since P i) (hturn : InTurn calls R P)
    (hguard : ∀ i, (calls i).Guarded) {j : ι} (he : P.enabled j = true) (hs : Since P.state) :
    Turn calls Since (P.step j) i := by
  by_cases hji : i = j
  · subst hji
    rcases hturn.cases hguard he with ⟨hnone, k, hk, hcall⟩ | ⟨hhold, δ, f, k, hk⟩ | ⟨hhold, a, ha⟩
    · refine .running P.state hs (by unfold Pool.step; rw [hk]) ?_
      rw [run_step, hk, hcall]
    · cases h with
      | ahead hleft =>
        have hg := hguard i
        rw [← hleft, hk] at hg
        exact hg.elim
      | running s hs' _ hrun =>
        exact .running s hs' (by unfold Pool.step; rw [hk]; exact hhold) (run_step.trans hrun)
      | answered s _ hleft => cases hk.symm.trans hleft
    · cases h with
      | ahead hleft =>
        have hg := hguard i
        rw [← hleft, ha] at hg
        exact hg.elim
      | running s hs' _ hrun =>
        refine .answered s hs' ?_
        rw [step_left_self, ← hrun, ha]
        rfl
      | answered s _ hleft => cases ha.symm.trans hleft
  · cases h with
    | ahead hleft => exact .ahead ((step_left_of_ne hji).trans hleft)
    | running s hs' hhold hrun =>
      rcases hturn.cases hguard he with ⟨hnone, -⟩ | ⟨hj, -⟩ | ⟨hj, -⟩
      · cases hnone.symm.trans hhold
      · exact absurd (Option.some.inj (hhold.symm.trans hj)) hji
      · exact absurd (Option.some.inj (hhold.symm.trans hj)) hji
    | answered s hs' hleft => exact .answered s hs' ((step_left_of_ne hji).trans hleft)

end InTurn

end Pool
end Aeroric
