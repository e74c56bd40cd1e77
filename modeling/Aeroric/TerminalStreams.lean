import Aeroric.TerminalLease

/-! How the terminal service counts its streams: those that are written, those that are finished, and
which of them it lets go. -/
namespace Aeroric.Terminal
open History

namespace State

def isFinished (state : State) (identity : TerminalIdentity) : Bool :=
  (state.finished.get identity).isSome

def isRegistered (state : State) (identity : TerminalIdentity) : Bool :=
  (state.streams.get identity).isSome

def unfinishedStreams (state : State) : ℕ :=
  (state.streams.filter fun identity _ => !state.isFinished identity).size

def finishedStreams (state : State) : ℕ :=
  (state.streams.filter fun identity _ => state.isFinished identity).size

end State

/-- What the accounting promises of one call. -/
structure Accounted (history : History) (op : Op) : Prop where
  kept : ∀ identity, history.state.isRegistered identity → ¬history.state.isFinished identity →
    op ≠ .markFinished identity → (history.step op).state.isRegistered identity
  refused : ∀ identity bytes, op = .publish identity bytes →
    (history.state.publish identity bytes).1 = .refusedFull →
      ¬history.state.isRegistered identity ∧
        terminalMaxLiveStreams ≤ history.state.unfinishedStreams
  bounded : ∀ identity, op = .markFinished identity →
    (history.step op).state.finishedStreams ≤ terminalMaxFinishedStreams
  ordered : ∀ identity, (history.step op).state.isFinished identity →
    (history.step op).state.order.count identity = 1
  noUnderflow : (history.step op).state.finished.size ≤ (history.step op).state.order.length

/-! The order lists the streams, and the finished ones are among them. -/

structure Tidy (state : State) : Prop where
  nodup : state.order.Nodup
  listed : ∀ identity, identity ∈ state.order ↔ state.isRegistered identity = true
  among : ∀ identity, state.isFinished identity = true → identity ∈ state.order

namespace Tidy
variable {state : State}

lemma default : Tidy State.default where
  nodup := List.nodup_nil
  listed := fun _ => ⟨nofun, nofun⟩
  among := fun _ => nofun

lemma finished_size (h : Tidy state) :
    state.finished.size = (state.order.filter state.isFinished).length := by
  refine Table.size_eq_length (h.nodup.filter _) fun identity => ?_
  rw [List.mem_filter]
  exact and_iff_right_of_imp (h.among identity)

lemma filter_size (h : Tidy state) (p : TerminalIdentity → Bool) :
    (state.streams.filter fun identity _ => p identity).size = (state.order.filter p).length := by
  refine Table.size_eq_length (h.nodup.filter _) fun identity => ?_
  rw [List.mem_filter, h.listed, Table.get_filter, State.isRegistered]
  cases state.streams.get identity <;> cases p identity <;> simp

lemma finished_le (h : Tidy state) : state.finished.size ≤ state.order.length := by
  rw [h.finished_size]
  exact List.length_filter_le ..

lemma live (h : Tidy state) :
    state.order.length - state.finished.size = state.unfinishedStreams := by
  have hsplit := List.length_eq_length_filter_add (l := state.order) state.isFinished
  unfold State.unfinishedStreams
  rw [h.finished_size, h.filter_size]
  omega

end Tidy

lemma eraseP_eq_erase {α : Type} [DecidableEq α] {p : α → Bool} {xs : List α} {a : α}
    (h : xs.find? p = some a) : xs.eraseP p = xs.erase a := by
  induction xs with
  | nil => cases h
  | cons x xs ih =>
    cases hp : p x with
    | true =>
      rw [List.find?_cons_of_pos hp] at h
      cases h
      simp [hp]
    | false =>
      rw [List.find?_cons_of_neg (by simp [hp])] at h
      have hne : x ≠ a := by
        rintro rfl
        simp [List.find?_some h] at hp
      simp [hp, hne, ih h]

/-- What one turn of the eviction does: a stream that was finished goes, and nothing else. -/
lemma State.evictOne_cases {state state' : State} (h : state.evictOne = some state') :
    ∃ gone, state.isFinished gone = true ∧ gone ∈ state.order ∧
      state'.order = state.order.erase gone ∧ state'.streams = state.streams.erase gone ∧
      state'.finished = state.finished.erase gone := by
  unfold State.evictOne at h
  split at h
  · obtain ⟨gone, hfind, rfl⟩ := Option.map_eq_some_iff.mp h
    exact ⟨gone, List.find?_some hfind, List.mem_of_find?_eq_some hfind, eraseP_eq_erase hfind,
      rfl, rfl⟩
  · cases h

lemma Tidy.evictOne {state state' : State} (h : Tidy state) (hone : state.evictOne = some state') :
    Tidy state' := by
  obtain ⟨gone, -, -, horder, hstreams, hfinished⟩ := State.evictOne_cases hone
  constructor
  · rw [horder]
    exact h.nodup.erase gone
  · intro identity
    rw [horder, h.nodup.mem_erase_iff, h.listed, State.isRegistered, State.isRegistered, hstreams]
    by_cases heq : identity = gone
    · subst heq
      simp
    · simp [heq]
  · intro identity
    rw [horder, h.nodup.mem_erase_iff, State.isFinished, hfinished]
    by_cases heq : identity = gone
    · subst heq
      simp
    · simp only [Table.get_erase_of_ne heq]
      exact fun hget => ⟨heq, h.among identity hget⟩

variable {state : State}

lemma State.evict_induct {P : State → Prop}
    (hone : ∀ state state', P state → state.evictOne = some state' → P state') (turns : ℕ)
    (h : P state) : P (state.evict turns) := by
  induction turns generalizing state with
  | zero => exact h
  | succ turns ih =>
    unfold State.evict
    cases hturn : state.evictOne with
    | none => exact h
    | some state' => exact ih (hone state state' h hturn)

lemma Tidy.evict (h : Tidy state) : Tidy state.evictFinishedLocked :=
  State.evict_induct (fun _ _ => Tidy.evictOne) _ h

variable {identity : TerminalIdentity}

lemma State.evict_kept
    (hregistered : state.isRegistered identity = true) (hfinished : state.isFinished identity = false) :
    state.evictFinishedLocked.isRegistered identity = true ∧
      state.evictFinishedLocked.isFinished identity = false := by
  refine State.evict_induct (P := fun state => state.isRegistered identity = true ∧
    state.isFinished identity = false) ?_ _ ⟨hregistered, hfinished⟩
  rintro state state' ⟨hreg, hfin⟩ hone
  obtain ⟨gone, hgone, -, -, hstreams, hfinished⟩ := State.evictOne_cases hone
  have hne : identity ≠ gone := by
    rintro rfl
    rw [hfin] at hgone
    cases hgone
  rw [State.isRegistered, State.isFinished, hstreams, hfinished, Table.get_erase_of_ne hne,
    Table.get_erase_of_ne hne]
  exact ⟨hreg, hfin⟩

lemma State.evict_registered (h : state.isRegistered identity = false) :
    state.evictFinishedLocked.isRegistered identity = false := by
  refine State.evict_induct (P := fun state => state.isRegistered identity = false) ?_ _ h
  intro state state' hreg hone
  obtain ⟨gone, -, -, -, hstreams, -⟩ := State.evictOne_cases hone
  rw [State.isRegistered, hstreams]
  by_cases heq : identity = gone
  · subst heq
    simp
  · rw [Table.get_erase_of_ne heq]
    exact hreg

lemma Tidy.evict_bounded (h : Tidy state) :
    state.evictFinishedLocked.finished.size ≤ terminalMaxFinishedStreams := by
  have hended := state.evictFinishedLocked_ended
  have htidy := h.evict
  revert hended htidy
  generalize state.evictFinishedLocked = evicted
  intro hended htidy
  by_contra hmany
  have hsize := htidy.finished_size
  unfold State.evictOne at hended
  rw [if_pos (not_le.mp hmany), Option.map_eq_none_iff, List.find?_eq_none] at hended
  have hnil : evicted.order.filter evicted.isFinished = [] := List.filter_eq_nil_iff.mpr hended
  rw [hnil] at hsize
  rw [hsize] at hmany
  exact hmany (Nat.zero_le _)

lemma Tidy.publish (h : Tidy state) (identity : TerminalIdentity)
    (bytes : List UInt8) : Tidy (state.publish identity bytes).2 := by
  obtain ⟨-, heq⟩ | ⟨stream, hstream, heq⟩ | ⟨-, -, heq⟩ | ⟨hnone, heq⟩ :=
    state.publish_cases identity bytes <;> rw [heq]
  · exact h
  · refine ⟨h.nodup, fun other => (h.listed other).trans ?_, h.among⟩
    by_cases hother : other = identity
    · subst hother
      simp [State.isRegistered, hstream]
    · simp [State.isRegistered, hother]
  · exact ⟨h.nodup, h.listed, h.among⟩
  · have hevicted := h.evict
    have hgone : state.evictFinishedLocked.isRegistered identity = false :=
      State.evict_registered (by simp [State.isRegistered, hnone])
    have hnew : identity ∉ state.evictFinishedLocked.order := by
      rw [hevicted.listed, hgone]
      exact Bool.false_ne_true
    constructor
    · exact hevicted.nodup.append (List.nodup_singleton _) (by simpa using hnew)
    · intro other
      rw [List.mem_append, hevicted.listed]
      by_cases hother : other = identity
      · subst hother
        simp [State.isRegistered]
      · simp [State.isRegistered, hother]
    · exact fun other hother => List.mem_append_left _ (hevicted.among other hother)

lemma Tidy.markFinished (h : Tidy state)
    (hregistered : state.isRegistered identity = true) (ends : ℕ) :
    Tidy { state with finished := state.finished.set identity ends } where
  nodup := h.nodup
  listed := h.listed
  among := by
    intro other hother
    by_cases heq : other = identity
    · subst heq
      exact (h.listed other).mpr hregistered
    · refine h.among other ?_
      rw [State.isFinished, Table.get_set_of_ne heq] at hother
      exact hother

variable {history : History}

lemma Tidy.step (h : Tidy history.state) {op : Op}
    (hregistered : ∀ identity, op = .markFinished identity →
      history.state.isRegistered identity = true) : Tidy (history.step op).state := by
  cases op with
  | publish identity bytes => exact h.publish identity bytes
  | acquire identity => exact ⟨h.nodup, h.listed, h.among⟩
  | release identity handle =>
    show Tidy (history.state.releaseControl identity handle).2
    unfold State.releaseControl
    split
    · exact ⟨h.nodup, h.listed, h.among⟩
    · exact h
  | markFinished identity => exact (h.markFinished (hregistered identity rfl) _).evict

lemma Tidy.kept {op : Op} (hregistered : history.state.isRegistered identity = true)
    (hfinished : ¬history.state.isFinished identity = true) (hop : op ≠ .markFinished identity) :
    (history.step op).state.isRegistered identity = true := by
  rw [Bool.not_eq_true] at hfinished
  cases op with
  | publish other bytes =>
    show (history.state.publish other bytes).2.isRegistered identity = true
    obtain ⟨-, heq⟩ | ⟨stream, -, heq⟩ | ⟨-, -, heq⟩ | ⟨-, heq⟩ :=
      history.state.publish_cases other bytes <;> rw [heq]
    · exact hregistered
    · by_cases hother : identity = other
      · subst hother
        simp [State.isRegistered]
      · simpa [State.isRegistered, hother] using hregistered
    · exact hregistered
    · have hkept := (State.evict_kept hregistered hfinished).1
      by_cases hother : identity = other
      · subst hother
        simp [State.isRegistered]
      · simpa [State.isRegistered, hother] using hkept
  | acquire other => exact hregistered
  | release other handle =>
    show (history.state.releaseControl other handle).2.isRegistered identity = true
    unfold State.releaseControl
    split <;> exact hregistered
  | markFinished other =>
    have hother : identity ≠ other := fun heq => hop (by rw [heq])
    refine (State.evict_kept ?_ ?_).1
    · exact hregistered
    · rw [State.isFinished, Table.get_set_of_ne hother]
      exact hfinished

lemma Tidy.accounted (h : Tidy history.state) {op : Op}
    (hregistered : ∀ identity, op = .markFinished identity →
      history.state.isRegistered identity = true) : Accounted history op where
  kept := fun _ => Tidy.kept
  refused := by
    rintro identity bytes - hrefused
    obtain ⟨-, heq⟩ | ⟨stream, -, heq⟩ | ⟨hnone, hlive, -⟩ | ⟨-, heq⟩ :=
      history.state.publish_cases identity bytes
    · rw [heq] at hrefused
      cases hrefused
    · rw [heq] at hrefused
      cases hrefused
    · refine ⟨by simp [State.isRegistered, hnone], ?_⟩
      have hle := h.finished_le
      rw [Nat.sub_add_comm hle, Nat.add_mod_right] at hlive
      rw [← h.live]
      exact hlive.trans (Nat.mod_le ..)
    · rw [heq] at hrefused
      cases hrefused
  bounded := by
    rintro identity rfl
    have hmarked := h.markFinished (hregistered identity rfl)
      (((history.state.streams.get identity).map ByteStream.nextOffset).getD 0)
    refine le_of_eq_of_le ?_ hmarked.evict_bounded
    rw [hmarked.evict.finished_size]
    exact hmarked.evict.filter_size _
  ordered := by
    intro identity hfinished
    have hafter := h.step hregistered
    exact List.count_eq_one_of_mem hafter.nodup (hafter.among identity hfinished)
  noUnderflow := (h.step hregistered).finished_le

lemma Tidy.registered (h : Tidy history.state)
    (haccounted : Accounted history (.markFinished identity)) :
    history.state.isRegistered identity = true := by
  by_contra hregistered
  have hnew : identity ∉ history.state.order := fun hmem =>
    hregistered ((h.listed identity).mp hmem)
  have hghost : (history.step (.markFinished identity)).state.isFinished identity = true ∧
      identity ∉ (history.step (.markFinished identity)).state.order := by
    refine State.evict_induct (P := fun state => state.isFinished identity = true ∧
      identity ∉ state.order) ?_ _ ⟨by simp [State.isFinished], hnew⟩
    rintro state state' ⟨hfinished, habsent⟩ hone
    obtain ⟨gone, -, hgone, horder, -, hrest⟩ := State.evictOne_cases hone
    have hne : identity ≠ gone := by
      rintro rfl
      exact habsent hgone
    rw [State.isFinished, hrest, Table.get_erase_of_ne hne, horder]
    exact ⟨hfinished, fun hmem => habsent (List.mem_of_mem_erase hmem)⟩
  have hcount := haccounted.ordered identity hghost.1
  rw [List.count_eq_zero_of_not_mem hghost.2] at hcount
  cases hcount

lemma tidy_of_registered (ops : List Op) (h : ∀ earlier identity,
    earlier ++ [.markFinished identity] <+: ops →
      (run earlier).state.isRegistered identity = true) : Tidy (run ops).state := by
  induction ops using List.reverseRecOn with
  | nil => exact Tidy.default
  | append_singleton ops op ih =>
    have hbefore := ih fun earlier identity hpre =>
      h earlier identity (hpre.trans (List.prefix_append ..))
    rw [run_snoc]
    exact hbefore.step fun identity heq => h ops identity (heq ▸ List.prefix_rfl)

lemma tidy_of_accounted (ops : List Op)
    (h : ∀ earlier op, earlier ++ [op] <+: ops → Accounted (run earlier) op) :
    Tidy (run ops).state := by
  induction ops using List.reverseRecOn with
  | nil => exact Tidy.default
  | append_singleton ops op ih =>
    have hbefore := ih fun earlier op hpre =>
      h earlier op (hpre.trans (List.prefix_append ..))
    have hop := h ops op List.prefix_rfl
    rw [run_snoc]
    refine hbefore.step fun identity heq => hbefore.registered ?_
    rwa [heq] at hop

/-- The accounts are kept throughout a history, just if no run is marked finished that has no
stream. -/
theorem accounted_iff_registered (ops : List Op) :
    (∀ earlier op, earlier ++ [op] <+: ops → Accounted (run earlier) op) ↔
      ∀ earlier identity, earlier ++ [.markFinished identity] <+: ops →
        (run earlier).state.isRegistered identity := by
  constructor
  · intro h earlier identity hpre
    have hbefore := tidy_of_accounted earlier fun before op hbefore =>
      h before op (hbefore.trans ((List.prefix_append ..).trans hpre))
    exact hbefore.registered (h _ _ hpre)
  · intro h earlier op hpre
    have hbefore := tidy_of_registered earlier fun before identity hbefore =>
      h before identity (hbefore.trans ((List.prefix_append ..).trans hpre))
    refine hbefore.accounted fun identity heq => h earlier identity ?_
    rwa [← heq]

/-- A run ends without output, and another starts to write. -/
theorem silentRun_unaccounted :
    ¬Accounted (run []) (.markFinished ⟨"a", 1⟩) ∧
      ¬Accounted (run [.markFinished ⟨"a", 1⟩]) (.publish ⟨"b", 1⟩ [0]) := by
  constructor
  · intro h
    exact absurd h.noUnderflow (by decide)
  · intro h
    exact absurd (h.refused ⟨"b", 1⟩ [0] rfl (by decide)).2 (by decide)

end Aeroric.Terminal
