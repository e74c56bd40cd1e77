import Mathlib

/-! Calls over a shared state, cut into their atomic actions. A call runs its actions
one after another; between two of them other calls, or a crash, may come in. The lock
is a single mutual-exclusion lock, taken and given back explicitly. -/
namespace Aeroric

/-- What a call still has to do: answer, act once on the shared state and go on with
the result, or take or give back the lock. -/
inductive Program (σ : Type) (α : Type) : Type 1
  | pure (a : α) : Program σ α
  | act {β : Type} (f : σ → β × σ) (k : β → Program σ α) : Program σ α
  | lock (k : Program σ α) : Program σ α
  | unlock (k : Program σ α) : Program σ α

namespace Program
variable {σ α β γ : Type}

def bind : Program σ α → (α → Program σ β) → Program σ β
  | .pure a, g => g a
  | .act f k, g => .act f fun b => (k b).bind g
  | .lock k, g => .lock (k.bind g)
  | .unlock k, g => .unlock (k.bind g)

instance : Monad (Program σ) where
  pure := Program.pure
  bind := Program.bind

def atomic (f : σ → α × σ) : Program σ α := .act f .pure

/-- Hold the lock for the whole of a call. -/
def serial (p : Program σ α) : Program σ α := .lock (p.bind fun a => .unlock (.pure a))

/-- The call on its own, from its first action to its answer. -/
def run : Program σ α → σ → α × σ
  | .pure a, s => (a, s)
  | .act f k, s => (k (f s).1).run (f s).2
  | .lock k, s => k.run s
  | .unlock k, s => k.run s

@[simp] lemma run_pure (a : α) (s : σ) : (Program.pure a : Program σ α).run s = (a, s) := rfl

@[simp] lemma run_pure' (a : α) (s : σ) : (Pure.pure a : Program σ α).run s = (a, s) := rfl

@[simp] lemma run_atomic (f : σ → α × σ) (s : σ) : (atomic f).run s = f s := rfl

@[simp] lemma run_act {δ : Type} (f : σ → δ × σ) (k : δ → Program σ α) (s : σ) :
    (Program.act f k).run s = (k (f s).1).run (f s).2 := rfl

@[simp] lemma run_lock (k : Program σ α) (s : σ) : (Program.lock k).run s = k.run s := rfl

@[simp] lemma run_unlock (k : Program σ α) (s : σ) : (Program.unlock k).run s = k.run s := rfl

lemma run_bind_fn (p : Program σ α) (g : α → Program σ β) (s : σ) :
    (p.bind g).run s = (g (p.run s).1).run (p.run s).2 := by
  induction p generalizing s with
  | pure a => rfl
  | act f k ih => exact ih _ _
  | lock k ih => exact ih s
  | unlock k ih => exact ih s

@[simp] lemma run_bind (p : Program σ α) (g : α → Program σ β) (s : σ) :
    (p >>= g).run s = (g (p.run s).1).run (p.run s).2 := run_bind_fn p g s

@[simp] lemma run_map (p : Program σ α) (g : α → β) (s : σ) :
    (g <$> p).run s = (g (p.run s).1, (p.run s).2) := run_bind_fn p _ s

@[simp] lemma run_serial (p : Program σ α) (s : σ) : (serial p).run s = p.run s := by
  rw [serial, run_lock, run_bind_fn]
  rfl

/-- The next instruction of a call on its own: what is left, and the state it leaves. -/
def next : Program σ α → σ → Program σ α × σ
  | .pure a, s => (.pure a, s)
  | .act f k, s => (k (f s).1, (f s).2)
  | .lock k, s => (k, s)
  | .unlock k, s => (k, s)

/-- The first `n` instructions of a call on its own. A crash keeps the state reached. -/
def upTo : ℕ → Program σ α → σ → Program σ α × σ
  | 0, p, s => (p, s)
  | n + 1, p, s => upTo n (p.next s).1 (p.next s).2

@[simp] lemma upTo_zero (p : Program σ α) (s : σ) : p.upTo 0 s = (p, s) := rfl

lemma run_next (p : Program σ α) (s : σ) : (p.next s).1.run (p.next s).2 = p.run s := by
  cases p <;> rfl

/-- The states a call on its own passes through: where a crash can catch it. -/
def Visits (p : Program σ α) (s s' : σ) : Prop := ∃ n, (p.upTo n s).2 = s'

lemma visits_zero (p : Program σ α) (s : σ) : Visits p s s := ⟨0, rfl⟩

lemma visits_iff_next (p : Program σ α) (s s' : σ) :
    Visits p s s' ↔ s' = s ∨ Visits (p.next s).1 (p.next s).2 s' := by
  constructor
  · rintro ⟨_ | n, h⟩
    · exact .inl h.symm
    · exact .inr ⟨n, h⟩
  · rintro (rfl | ⟨n, h⟩)
    · exact visits_zero p s'
    · exact ⟨n + 1, h⟩

lemma visits_pure (a : α) (s s' : σ) : Visits (.pure a : Program σ α) s s' ↔ s' = s := by
  constructor
  · rintro ⟨n, h⟩
    induction n with
    | zero => exact h.symm
    | succ n ih => exact ih h
  · rintro rfl
    exact visits_zero _ _

lemma visits_act {δ : Type} (f : σ → δ × σ) (k : δ → Program σ α) (s s' : σ) :
    Visits (.act f k) s s' ↔ s' = s ∨ Visits (k (f s).1) (f s).2 s' := visits_iff_next _ s s'

lemma visits_lock (k : Program σ α) (s s' : σ) : Visits (.lock k) s s' ↔ Visits k s s' := by
  rw [visits_iff_next]
  exact ⟨fun h => h.elim (fun h => h ▸ visits_zero k s) id, .inr⟩

lemma visits_unlock (k : Program σ α) (s s' : σ) : Visits (.unlock k) s s' ↔ Visits k s s' := by
  rw [visits_iff_next]
  exact ⟨fun h => h.elim (fun h => h ▸ visits_zero k s) id, .inr⟩

lemma visits_run (p : Program σ α) (s : σ) : Visits p s (p.run s).2 := by
  induction p generalizing s with
  | pure a => exact visits_zero _ s
  | act f k ih => exact (visits_act f k s _).mpr (.inr (ih _ _))
  | lock k ih => exact (visits_lock k s _).mpr (ih s)
  | unlock k ih => exact (visits_unlock k s _).mpr (ih s)

lemma visits_bind (p : Program σ α) (g : α → Program σ β) (s s' : σ) :
    Visits (p.bind g) s s' ↔ Visits p s s' ∨ Visits (g (p.run s).1) (p.run s).2 s' := by
  induction p generalizing s with
  | pure a =>
    refine ⟨.inr, fun h => h.elim (fun h => ?_) id⟩
    obtain rfl := (visits_pure a s s').mp h
    exact visits_zero _ _
  | act f k ih =>
    show Visits (.act f fun b => (k b).bind g) s s' ↔ _
    rw [visits_act, visits_act, ih, or_assoc]
    rfl
  | lock k ih =>
    show Visits (.lock (k.bind g)) s s' ↔ _
    rw [visits_lock, visits_lock, ih]
    rfl
  | unlock k ih =>
    show Visits (.unlock (k.bind g)) s s' ↔ _
    rw [visits_unlock, visits_unlock, ih]
    rfl

/-- Every action the call makes on its own is such a step. -/
def Steps (R : σ → σ → Prop) : Program σ α → σ → Prop
  | .pure _, _ => True
  | .act f k, s => R s (f s).2 ∧ (k (f s).1).Steps R (f s).2
  | .lock k, s => k.Steps R s
  | .unlock k, s => k.Steps R s

lemma steps_bind {R : σ → σ → Prop} (p : Program σ α) (g : α → Program σ β) (s : σ) :
    (p.bind g).Steps R s ↔ p.Steps R s ∧ (g (p.run s).1).Steps R (p.run s).2 := by
  induction p generalizing s with
  | pure a => exact ⟨fun h => ⟨trivial, h⟩, And.right⟩
  | act f k ih =>
    show R s (f s).2 ∧ ((k (f s).1).bind g).Steps R (f s).2 ↔ _
    rw [ih, ← and_assoc]
    rfl
  | lock k ih => exact ih s
  | unlock k ih => exact ih s

end Program

/-- A call that answers, or is refused with an error. -/
abbrev Call (σ ε α : Type) : Type 1 := ExceptT ε (Program σ) α

namespace Call
variable {σ ε α β : Type}

/-- One atomic action that may refuse. -/
def act (f : σ → Except ε α × σ) : Call σ ε α := ExceptT.mk (Program.atomic f)

def modify (f : σ → α × σ) : Call σ ε α := act fun s => (.ok (f s).1, (f s).2)

/-- Go on with whatever a call answered, its error included. -/
def attempt (p : Call σ ε α) : Call σ ε (Except ε α) := ExceptT.lift p.run

def onlyIf (b : Bool) (p : Call σ ε Unit) : Call σ ε Unit := if b then p else pure ()

/-- Hold the lock for the whole of a call, whatever it answers. -/
def serial (p : Call σ ε α) : Call σ ε α := ExceptT.mk (Program.serial p.run)

/-- The call on its own: its answer and the state it leaves. -/
def exec (p : Call σ ε α) (s : σ) : Except ε α × σ := Program.run p.run s

/-- Go on with an answer; an error ends the call. -/
def andThen (r : Except ε α × σ) (f : α → σ → Except ε β × σ) : Except ε β × σ :=
  match r with
  | (.ok a, s) => f a s
  | (.error e, s) => (.error e, s)

@[simp] lemma andThen_ok (a : α) (s : σ) (f : α → σ → Except ε β × σ) :
    andThen (.ok a, s) f = f a s := rfl

@[simp] lemma andThen_error (e : ε) (s : σ) (f : α → σ → Except ε β × σ) :
    andThen (.error e, s) f = (.error e, s) := rfl

@[simp] lemma exec_pure (a : α) (s : σ) : exec (pure a : Call σ ε α) s = (.ok a, s) := rfl

@[simp] lemma exec_throw (e : ε) (s : σ) : exec (throw e : Call σ ε α) s = (.error e, s) := rfl

@[simp] lemma exec_bind (p : Call σ ε α) (f : α → Call σ ε β) (s : σ) :
    exec (p >>= f) s = andThen (exec p s) fun a s' => exec (f a) s' := by
  rw [exec, ExceptT.run_bind, Program.run_bind, ← exec]
  rcases exec p s with ⟨_ | _, _⟩ <;> rfl

@[simp] lemma exec_act (f : σ → Except ε α × σ) (s : σ) : exec (act f) s = f s := rfl

@[simp] lemma exec_modify (f : σ → α × σ) (s : σ) :
    exec (modify f : Call σ ε α) s = (.ok (f s).1, (f s).2) := rfl

@[simp] lemma exec_attempt (p : Call σ ε α) (s : σ) :
    exec (attempt p) s = (.ok (exec p s).1, (exec p s).2) := by
  rw [exec, attempt, ExceptT.run_lift, Program.run_map]
  rfl

@[simp] lemma exec_onlyIf (b : Bool) (p : Call σ ε Unit) (s : σ) :
    exec (onlyIf b p) s = if b then exec p s else (.ok (), s) := by
  cases b <;> rfl

@[simp] lemma exec_serial (p : Call σ ε α) (s : σ) : exec (serial p) s = exec p s :=
  Program.run_serial p.run s

/-- The states a call passes through. -/
def Visits (p : Call σ ε α) (s s' : σ) : Prop := Program.Visits p.run s s'

lemma visits_exec (p : Call σ ε α) (s : σ) : Visits p s (exec p s).2 := Program.visits_run _ s

@[simp] lemma visits_pure (a : α) (s s' : σ) : Visits (pure a : Call σ ε α) s s' ↔ s' = s :=
  Program.visits_pure _ s s'

@[simp] lemma visits_throw (e : ε) (s s' : σ) : Visits (throw e : Call σ ε α) s s' ↔ s' = s :=
  Program.visits_pure _ s s'

@[simp] lemma visits_act (f : σ → Except ε α × σ) (s s' : σ) :
    Visits (act f) s s' ↔ s' = s ∨ s' = (f s).2 :=
  (Program.visits_act f _ s s').trans (or_congr_right (Program.visits_pure _ _ s'))

@[simp] lemma visits_modify (f : σ → α × σ) (s s' : σ) :
    Visits (modify f : Call σ ε α) s s' ↔ s' = s ∨ s' = (f s).2 := visits_act _ s s'

/-- A call that goes on passes through the states of its first part, then through those of
the rest, if the first part does not refuse. -/
@[simp] lemma visits_bind (p : Call σ ε α) (f : α → Call σ ε β) (s s' : σ) :
    Visits (p >>= f) s s' ↔ Visits p s s' ∨
      ∃ a, (exec p s).1 = .ok a ∧ Visits (f a) (exec p s).2 s' := by
  refine (Program.visits_bind _ _ s s').trans (or_congr_right' fun hno => ?_)
  show Program.Visits (ExceptT.bindCont f (exec p s).1) (exec p s).2 s' ↔ _
  cases h : (exec p s).1 with
  | ok a => exact ⟨fun hv => ⟨a, rfl, hv⟩, fun ⟨b, hb, hv⟩ => Except.ok.inj hb ▸ hv⟩
  | error e =>
    -- a refusal leaves no further state
    refine ⟨fun hv => ?_, fun ⟨b, hb, _⟩ => nomatch hb⟩
    obtain rfl := (Program.visits_pure _ _ s').mp hv
    exact absurd (visits_exec p s) hno

/-- The call cannot tell related states apart: the same answer, and related states again. -/
def Respects (R : σ → σ → Prop) (p : Call σ ε α) : Prop :=
  ∀ s s', R s s' → (exec p s).1 = (exec p s').1 ∧ R (exec p s).2 (exec p s').2

section Respects
variable {R : σ → σ → Prop} {p : Call σ ε α} {f : α → Call σ ε β}

lemma Respects.pure (a : α) : Respects R (pure a : Call σ ε α) := fun _ _ h => ⟨rfl, h⟩

lemma Respects.throw (e : ε) : Respects R (throw e : Call σ ε α) := fun _ _ h => ⟨rfl, h⟩

lemma Respects.bind (hp : Respects R p) (hf : ∀ a, Respects R (f a)) : Respects R (p >>= f) := by
  intro s s' h
  obtain ⟨h1, h2⟩ := hp s s' h
  rw [exec_bind, exec_bind]
  rcases hs : exec p s with ⟨e | a, t⟩ <;> rcases hs' : exec p s' with ⟨e' | a', t'⟩ <;>
    rw [hs, hs'] at h1 h2 <;> cases h1
  · exact ⟨rfl, h2⟩
  · exact hf a t t' h2

lemma Respects.act {g : σ → Except ε α × σ}
    (h : ∀ s s', R s s' → (g s).1 = (g s').1 ∧ R (g s).2 (g s').2) : Respects R (act g) := h

lemma Respects.modify {g : σ → α × σ} (h : ∀ s s', R s s' → (g s).1 = (g s').1 ∧ R (g s).2 (g s').2) :
    Respects R (modify g : Call σ ε α) := fun s s' hs =>
  ⟨congrArg Except.ok (h s s' hs).1, (h s s' hs).2⟩

lemma Respects.attempt (hp : Respects R p) : Respects R (attempt p) := by
  intro s s' h
  rw [exec_attempt, exec_attempt]
  exact ⟨congrArg Except.ok (hp s s' h).1, (hp s s' h).2⟩

lemma Respects.onlyIf {p : Call σ ε Unit} (hp : Respects R p) (b : Bool) :
    Respects R (onlyIf b p) := by
  cases b
  · exact .pure ()
  · exact hp

lemma Respects.serial (hp : Respects R p) : Respects R (serial p) := by
  intro s s' h
  rw [exec_serial, exec_serial]
  exact hp s s' h

end Respects

/-- Every action of the call, from whatever state, is such a step. -/
def Steps (R : σ → σ → Prop) (p : Call σ ε α) : Prop := ∀ s, Program.Steps R p.run s

section Steps
variable {R : σ → σ → Prop} {p : Call σ ε α} {f : α → Call σ ε β}

lemma Steps.pure (a : α) : Steps R (pure a : Call σ ε α) := fun _ => trivial

lemma Steps.throw (e : ε) : Steps R (throw e : Call σ ε α) := fun _ => trivial

lemma Steps.act {g : σ → Except ε α × σ} (h : ∀ s, R s (g s).2) : Steps R (act g) :=
  fun s => ⟨h s, trivial⟩

lemma Steps.modify {g : σ → α × σ} (h : ∀ s, R s (g s).2) : Steps R (modify g : Call σ ε α) :=
  fun s => ⟨h s, trivial⟩

/-- A call that goes on: the actions of its first part, then those of the rest from where the
first part ended. -/
lemma steps_bind_from {s : σ} (hp : Program.Steps R p.run s)
    (hf : ∀ a s', exec p s = (.ok a, s') → Program.Steps R (f a).run s') :
    Program.Steps R (p >>= f).run s := by
  refine (Program.steps_bind _ _ s).mpr ⟨hp, ?_⟩
  show Program.Steps R (ExceptT.bindCont f (exec p s).1) (exec p s).2
  rcases hx : exec p s with ⟨e | a, s'⟩
  · exact trivial
  · exact hf a s' hx

lemma Steps.bind (hp : Steps R p) (hf : ∀ a, Steps R (f a)) : Steps R (p >>= f) :=
  fun s => steps_bind_from (hp s) fun a s' _ => hf a s'

lemma Steps.attempt (hp : Steps R p) : Steps R (attempt p) := fun s =>
  (Program.steps_bind _ _ s).mpr ⟨hp s, trivial⟩

lemma Steps.onlyIf {p : Call σ ε Unit} (hp : Steps R p) (b : Bool) : Steps R (onlyIf b p) := by
  cases b
  · exact .pure ()
  · exact hp

lemma Steps.serial (hp : Steps R p) : Steps R (serial p) := fun s =>
  (Program.steps_bind _ _ s).mpr ⟨hp s, trivial⟩

end Steps

end Call
end Aeroric
