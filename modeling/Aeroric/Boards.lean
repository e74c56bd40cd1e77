import Aeroric.Decimal
import Aeroric.Sse
import Aeroric.Fallible
import Mathlib.Data.List.Induction
import Mathlib.Data.List.Nodup

/-! The board of a manager session, shared with its children. Every session writes on it; what is
decided is for the user and the manager to say. -/
namespace Aeroric.Boards
open Fallible

/-! The board. -/

def maxTextChars : ℕ := 1000
def maxChanges : ℕ := 500

inductive BoardKind where
  | goal
  | hypothesis
  | claim
  | decision
  | evidence
  | question
  deriving DecidableEq

inductive BoardState where
  | opened
  | confirmed
  | refuted
  | proposed
  | accepted
  | rejected
  | answered
  | done
  deriving DecidableEq

/-- The first one is the default. -/
def BoardKind.states : BoardKind → List BoardState
  | .goal | .evidence => [.opened]
  | .hypothesis => [.opened, .confirmed, .refuted]
  | .claim => [.opened, .done]
  | .decision => [.proposed, .accepted, .rejected]
  | .question => [.opened, .answered]

structure BoardEntry where
  id : String
  kind : BoardKind
  text : String
  state : BoardState
  author : String
  claimedBy : Option String
  revision : ℕ
  createdMs : ℕ
  updatedMs : ℕ
  deriving DecidableEq

inductive Action where
  | add
  | edit
  | accept
  | reject
  deriving DecidableEq

structure BoardChange where
  atMs : ℕ
  actor : String
  entryId : String
  action : Action
  text : String
  deriving DecidableEq

structure Board where
  ownerTaskId : String
  revision : ℕ
  entries : List BoardEntry
  changes : List BoardChange
  deriving DecidableEq

def Board.new (owner : String) : Board := ⟨owner, 0, [], []⟩

structure BoardWrite where
  id : Option String
  kind : Option BoardKind
  text : Option String
  state : Option BoardState
  claimedBy : Option String

inductive BoardError where
  | unknownEntry
  | noKind
  | empty
  | badState (kind : BoardKind) (state : BoardState)
  | notAllowed
  | notADecision
  deriving DecidableEq

def trim (text : String) : String := String.ofList (Sse.trim text.toList)

def take (count : ℕ) (text : String) : String := String.ofList (text.toList.take count)

def cut (text : String) : String :=
  if (trim text).toList.length ≤ maxTextChars then trim text
  else take maxTextChars (trim text) ++ "…"

def named (member : String) : Option String := some member |>.filter fun m => trim m ≠ ""

def entryName (n : ℕ) : String := "b" ++ n.repr

namespace BoardEntry

def retext (entry : BoardEntry) (text : Option String) : Except BoardError BoardEntry :=
  match text.map cut with
  | none => .ok entry
  | some text => if text = "" then .error .empty else .ok { entry with text }

/-- Accepting and rejecting are not for an edit. -/
def restate (entry : BoardEntry) (state : Option BoardState) : Except BoardError BoardEntry :=
  match state with
  | none => .ok entry
  | some state =>
    if state ∉ entry.kind.states then .error (.badState entry.kind state)
    else if entry.kind = .decision ∧ state ≠ entry.state then .error .notAllowed
    else .ok { entry with state }

def reclaim (entry : BoardEntry) (claimedBy : Option String) : BoardEntry :=
  match claimedBy with
  | none => entry
  | some member => { entry with claimedBy := named member }

def edit (entry : BoardEntry) (write : BoardWrite) : Except BoardError BoardEntry := do
  let entry ← entry.retext write.text
  let entry ← entry.restate write.state
  return entry.reclaim write.claimedBy

/-- A member's suggestion is not a team decision. -/
def add (id actor : String) (agent : Bool) (now : ℕ) (write : BoardWrite) :
    Except BoardError BoardEntry :=
  match write.kind with
  | none => .error .noKind
  | some kind =>
    match (write.text.map cut).filter (· ≠ "") with
    | none => .error .empty
    | some text =>
      let state := write.state.getD (kind.states.headD .opened)
      if state ∉ kind.states then .error (.badState kind state)
      else .ok {
        id := id
        kind := kind
        text := text
        state := if kind = .decision ∧ agent = true then .proposed else state
        author := actor
        claimedBy := write.claimedBy.bind named
        revision := 0
        createdMs := now
        updatedMs := now }

end BoardEntry

/-- The first entry of the name is the one that is written over. -/
def replace (entry : BoardEntry) : List BoardEntry → List BoardEntry
  | [] => []
  | old :: rest => if old.id = entry.id then entry :: rest else old :: replace entry rest

namespace Board

def find (board : Board) (id : String) : Option BoardEntry :=
  board.entries.find? fun entry => entry.id = id

def put (board : Board) (now : ℕ) (actor : String) (action : Action) (entry : BoardEntry) :
    BoardEntry × Board :=
  let entry := { entry with revision := board.revision + 1, updatedMs := now }
  let changes := board.changes ++ [⟨now, actor, entry.id, action, take 120 entry.text⟩]
  (entry, { board with
    revision := board.revision + 1
    entries :=
      if (board.find entry.id).isSome then replace entry board.entries else board.entries ++ [entry]
    changes := changes.drop (changes.length - maxChanges) })

def write (board : Board) (now : ℕ) (actor : String) (agent : Bool) (write : BoardWrite) :
    Except BoardError (BoardEntry × Board) :=
  match write.id with
  | some id =>
    match board.find id with
    | none => .error .unknownEntry
    | some entry => (entry.edit write).map (board.put now actor .edit)
  | none =>
    (BoardEntry.add (entryName (board.entries.length + 1)) actor agent now write).map
      (board.put now actor .add)

/-- An unknown entry leaves the revision raised. -/
def decide (board : Board) (now : ℕ) (actor entryId : String) (accept : Bool) :
    Except BoardError BoardEntry × Board :=
  match board.find entryId with
  | none => (.error .unknownEntry, { board with revision := board.revision + 1 })
  | some entry =>
    if entry.kind ≠ .decision then (.error .notADecision, board)
    else
      let entry := { entry with
        state := if accept then .accepted else .rejected
        revision := board.revision + 1
        updatedMs := now }
      (.ok entry, { board with
        revision := board.revision + 1
        entries := replace entry board.entries
        changes := board.changes ++
          [⟨now, actor, entry.id, if accept then .accept else .reject, ""⟩] })

def readSince (board : Board) (seen : ℕ) : List BoardEntry :=
  board.entries.filter fun entry => seen < entry.revision

end Board

/-! The board in a process, and on disk. -/

structure State where
  loaded : Bool
  board : Option Board
  /-- The revision each reader has seen. -/
  cursors : String → ℕ

def State.new : State := ⟨false, none, fun _ => 0⟩

def ensureLoaded (file : Option Board) (state : State) : State :=
  if state.loaded then state else { state with loaded := true, board := file.or state.board }

structure World where
  owner : String
  state : State
  file : Option Board
  /-- The text of an entry when the user or the owner last accepted or wrote it. -/
  ratified : String → Option String
  /-- The entries changed since a reader last read, in this process. -/
  unread : String → List String

inductive Op where
  | boardWrite (write : BoardWrite)
  | contextWrite (task : String) (write : BoardWrite)
  | boardDecide (entryId : String) (accept : Bool)
  | contextDecide (task entryId : String) (accept : Bool)
  | contextRead (reader : String)
  | restart

inductive Reply where
  | entry (entry : BoardEntry)
  | failure (error : BoardError)
  | entries (entries : List BoardEntry) (revision : ℕ)
  | none

namespace World

def new (owner : String) : World := ⟨owner, .new, none, fun _ => none, fun _ => []⟩

def load (w : World) : World := { w with state := ensureLoaded w.file w.state }

/-- The board, empty when there is none yet. -/
def board (w : World) : Board := w.load.state.board.getD (.new w.owner)

def keep (w : World) (board : Board) : World := { w with state := { w.state with board := some board } }

/-- A changed entry is on disk and is news to every reader. -/
def changed (w : World) (entry : BoardEntry) (board : Board) (ratifies : Bool) : World :=
  { w.load.keep board with
    file := some board
    ratified := if ratifies then Function.update w.ratified entry.id (some entry.text) else w.ratified
    unread := fun reader => entry.id :: w.unread reader }

def write (w : World) (now : ℕ) (actor : String) (agent : Bool) (write : BoardWrite) :
    Reply × World :=
  match w.board.write now actor agent write with
  | .error error => (.failure error, w.load.keep w.board)
  | .ok (entry, board) => (.entry entry, w.changed entry board (!agent || actor = w.owner))

def decide (w : World) (now : ℕ) (actor entryId : String) (accept : Bool) : Reply × World :=
  if w.load.state.board.isNone then (.failure .unknownEntry, w.load)
  else
    match w.board.decide now actor entryId accept with
    | (.error error, board) => (.failure error, w.load.keep board)
    | (.ok entry, board) => (.entry entry, w.changed entry board accept)

def readSince (w : World) (reader : String) : Reply × World :=
  (.entries (w.board.readSince (w.state.cursors reader)) w.board.revision,
    { w.load with
      state := { w.load.state with
        cursors := Function.update w.state.cursors reader w.board.revision }
      unread := Function.update w.unread reader [] })

def step (w : World) (now : ℕ) : Op → Reply × World
  | .boardWrite write => w.write now "user" false write
  | .contextWrite task write => w.write now task true write
  | .boardDecide entryId accept => w.decide now "user" entryId accept
  | .contextDecide task entryId accept =>
    if task ≠ w.owner then (.failure .notAllowed, w) else w.decide now task entryId accept
  | .contextRead reader => w.readSince reader
  | .restart => (.none, { w with state := .new, unread := fun _ => [] })

def run (owner : String) (ops : List (ℕ × Op)) : World :=
  ops.foldl (fun w op => (w.step op.1 op.2).2) (new owner)

end World

/-! What a change of the board is. -/

lemma entryName_injective : Function.Injective entryName := by
  intro m n h
  have hdigits : Nat.toDigits 10 m = Nat.toDigits 10 n := by
    simpa [entryName, String.toList_append] using congrArg String.toList h
  exact toDigits_injective hdigits

def Numbered (entries : List BoardEntry) : Prop :=
  entries.map BoardEntry.id = (List.range entries.length).map fun i => entryName (i + 1)

variable {entries : List BoardEntry}

lemma Numbered.nodup (h : Numbered entries) : (entries.map BoardEntry.id).Nodup := by
  rw [h]
  exact List.nodup_range.map fun i j hij => Nat.succ_injective (entryName_injective hij)

lemma Numbered.not_mem (h : Numbered entries) {old : BoardEntry}
    (hold : old ∈ entries) : old.id ≠ entryName (entries.length + 1) := by
  intro heq
  have hmem : old.id ∈ entries.map BoardEntry.id := List.mem_map_of_mem hold
  rw [h] at hmem
  obtain ⟨i, hi, hname⟩ := List.mem_map.mp hmem
  have := entryName_injective (hname.trans heq)
  have := List.mem_range.mp hi
  omega

lemma Numbered.eq_of_id (h : Numbered entries) {a b : BoardEntry}
    (ha : a ∈ entries) (hb : b ∈ entries) (hid : a.id = b.id) : a = b :=
  List.inj_on_of_nodup_map h.nodup ha hb hid

lemma map_id_replace (entry : BoardEntry) (entries : List BoardEntry) :
    (replace entry entries).map BoardEntry.id = entries.map BoardEntry.id := by
  induction entries with
  | nil => rfl
  | cons old rest ih =>
    unfold replace
    split
    case isTrue hid => simp [hid]
    case isFalse => simp [ih]

variable {entry : BoardEntry}

lemma mem_replace
    (hnodup : (entries.map BoardEntry.id).Nodup) (hmem : ∃ old ∈ entries, old.id = entry.id)
    (e : BoardEntry) : e ∈ replace entry entries ↔ e = entry ∨ e ∈ entries ∧ e.id ≠ entry.id := by
  induction entries with
  | nil => simp at hmem
  | cons old rest ih =>
    rw [List.map_cons, List.nodup_cons] at hnodup
    unfold replace
    split
    case isTrue hid =>
      have hrest : ∀ e ∈ rest, e.id ≠ entry.id := fun e he heq =>
        hnodup.1 (by rw [hid, ← heq]; exact List.mem_map_of_mem he)
      rw [List.mem_cons, List.mem_cons]
      grind
    case isFalse hid =>
      have hmem : ∃ old ∈ rest, old.id = entry.id := by
        obtain ⟨e, he, heq⟩ := hmem
        rcases List.mem_cons.mp he with rfl | he
        · exact absurd heq hid
        · exact ⟨e, he, heq⟩
      rw [List.mem_cons, List.mem_cons, ih hnodup.2 hmem]
      grind

/-- One entry is new, or other than before, and has the new revision. -/
structure Changed (before : Board) (entry : BoardEntry) (after : Board) : Prop where
  mem : ∀ e, e ∈ after.entries ↔ e = entry ∨ e ∈ before.entries ∧ e.id ≠ entry.id
  numbered : Numbered after.entries
  revision : after.revision = before.revision + 1
  raised : entry.revision = after.revision

lemma numbered_replace (h : Numbered entries) : Numbered (replace entry entries) := by
  have hids := map_id_replace entry entries
  have hlength : (replace entry entries).length = entries.length := by
    simpa using congrArg List.length hids
  unfold Numbered
  rw [hids, hlength]
  exact h

lemma numbered_append (h : Numbered entries)
    (hid : entry.id = entryName (entries.length + 1)) : Numbered (entries ++ [entry]) := by
  unfold Numbered
  rw [List.map_append, h, List.length_append, List.length_singleton, List.range_succ,
    List.map_append]
  simp [hid]

namespace Board

variable {board : Board}

lemma find_some {id : String}
    (h : board.find id = some entry) : entry ∈ board.entries ∧ entry.id = id := by
  have hid := List.find?_some h
  exact ⟨List.mem_of_find?_eq_some h, of_decide_eq_true hid⟩

lemma find_of_mem (hnumbered : Numbered board.entries)
    (h : entry ∈ board.entries) : board.find entry.id = some entry := by
  cases hfind : board.find entry.id with
  | none => simpa using List.find?_eq_none.mp hfind entry h
  | some other =>
    obtain ⟨hother, hid⟩ := find_some hfind
    rw [hnumbered.eq_of_id hother h hid]

lemma put_edited {entry old : BoardEntry} (hnumbered : Numbered board.entries)
    (hold : old ∈ board.entries) (hid : entry.id = old.id) (now : ℕ) (actor : String)
    (action : Action) :
    Changed board (board.put now actor action entry).1 (board.put now actor action entry).2 := by
  have hfound : (board.find entry.id).isSome = true := by rw [hid, find_of_mem hnumbered hold]; rfl
  refine ⟨fun e => ?_, ?_, rfl, rfl⟩
  · simp only [put, hfound, if_true]
    refine mem_replace hnumbered.nodup ?_ e
    exact ⟨old, hold, hid.symm⟩
  · simp only [put, hfound, if_true]
    exact numbered_replace hnumbered

lemma put_added (hnumbered : Numbered board.entries)
    (hid : entry.id = entryName (board.entries.length + 1)) (now : ℕ) (actor : String)
    (action : Action) :
    Changed board (board.put now actor action entry).1 (board.put now actor action entry).2 := by
  have hnew : ∀ e ∈ board.entries, e.id ≠ entry.id := fun e he => hid ▸ hnumbered.not_mem he
  have hfound : board.find entry.id = none :=
    List.find?_eq_none.mpr fun e he => by simpa using hnew e he
  refine ⟨fun e => ?_, ?_, rfl, rfl⟩
  · simp only [put, hfound, Option.isSome_none, Bool.false_eq_true, if_false, List.mem_append,
      List.mem_singleton]
    rw [or_comm]
    exact or_congr_right (and_iff_left_of_imp (hnew e)).symm
  · simp only [put, hfound, Option.isSome_none, Bool.false_eq_true, if_false]
    exact numbered_append hnumbered hid

end Board

def BoardEntry.Agreed (entry : BoardEntry) : Prop :=
  entry.kind = .decision ∧ entry.state = .accepted

namespace BoardEntry

variable {entry next : BoardEntry}

lemma retext_ok {text : Option String} (h : entry.retext text = .ok next) :
    next = { entry with text := (text.map cut).getD entry.text } ∧ ∀ t ∈ text, cut t ≠ "" := by
  cases text with
  | none => exact ⟨(Except.ok.inj h).symm, by simp⟩
  | some text =>
    by_cases hempty : cut text = ""
    · simp [retext, hempty] at h
    · simp only [retext, Option.map_some, hempty, if_false] at h
      rw [Option.map_some, Option.getD_some]
      exact ⟨(Except.ok.inj h).symm, by simpa using hempty⟩

lemma restate_ok {state : Option BoardState} (h : entry.restate state = .ok next) :
    next = { entry with state := state.getD entry.state } ∧
      (entry.kind = .decision → ∀ s ∈ state, s = entry.state) := by
  cases state with
  | none => exact ⟨(Except.ok.inj h).symm, by simp⟩
  | some state =>
    unfold restate at h
    dsimp only at h
    split_ifs at h with hstates hdecided
    refine ⟨(Except.ok.inj h).symm, fun hkind => ?_⟩
    rintro s ⟨⟩
    by_contra hne
    exact hdecided ⟨hkind, hne⟩

/-- What a write may make of an entry. -/
structure Edited (old : BoardEntry) (write : BoardWrite) (entry : BoardEntry) : Prop where
  id : entry.id = old.id
  kind : entry.kind = old.kind
  text : entry.text = (write.text.map cut).getD old.text
  filled : ∀ text ∈ write.text, cut text ≠ ""
  state : old.kind = .decision → entry.state = old.state
  allowed : old.kind = .decision → ∀ state ∈ write.state, state = old.state

lemma edit_ok {write : BoardWrite} (h : entry.edit write = .ok next) : Edited entry write next := by
  obtain ⟨texted, htext, h⟩ := bind_eq_ok h
  obtain ⟨stated, hstate, h⟩ := bind_eq_ok h
  obtain ⟨rfl, hfilled⟩ := retext_ok htext
  obtain ⟨rfl, hallowed⟩ := restate_ok hstate
  obtain rfl := Except.ok.inj h
  have hgetD : entry.kind = .decision → write.state.getD entry.state = entry.state := fun hkind => by
    cases hs : write.state with
    | none => rfl
    | some s => exact hallowed hkind s hs
  cases hclaim : write.claimedBy <;> exact ⟨rfl, rfl, rfl, hfilled, hgetD, hallowed⟩

lemma Edited.agreed {old entry : BoardEntry} {write : BoardWrite} (h : Edited old write entry)
    (hagreed : entry.Agreed) : old.Agreed := by
  have hkind : old.kind = .decision := h.kind ▸ hagreed.1
  exact ⟨hkind, h.state hkind ▸ hagreed.2⟩

/-- A text that is not empty gets through, unless the write asks for another state. -/
lemma edit_agreed {write : BoardWrite} {text : String}
    (hagreed : entry.Agreed) (htext : write.text = some text) (hempty : cut text ≠ "")
    (hstate : ∀ s ∈ write.state, s = entry.state) : ∃ next, entry.edit write = .ok next := by
  obtain ⟨hkind, hstated⟩ := hagreed
  have hretext : entry.retext write.text = .ok { entry with text := cut text } := by
    simp [retext, htext, hempty]
  have hrestate : ∃ stated, BoardEntry.restate { entry with text := cut text } write.state =
      .ok stated := by
    cases hs : write.state with
    | none => exact ⟨_, rfl⟩
    | some s =>
      obtain rfl := hstate s hs
      simp [restate, hkind, hstated, BoardKind.states]
  obtain ⟨stated, hrestate⟩ := hrestate
  exact ⟨stated.reclaim write.claimedBy, by
    simp only [edit, hretext, hrestate, bind, Except.bind, pure, Except.pure]⟩

lemma add_ok {id actor : String} {agent : Bool} {now : ℕ} {write : BoardWrite} {next : BoardEntry}
    (h : add id actor agent now write = .ok next) :
    next.id = id ∧ (agent = true → ¬next.Agreed) := by
  unfold add at h
  split at h
  case h_1 => cases h
  case h_2 =>
    split at h
    case h_1 => cases h
    case h_2 =>
      dsimp only at h
      split at h
      case isTrue => cases h
      case isFalse =>
        obtain rfl := Except.ok.inj h
        refine ⟨rfl, fun hagent => ?_⟩
        rintro ⟨hkind, hstate⟩
        dsimp only at hkind hstate
        rw [if_pos ⟨hkind, hagent⟩] at hstate
        cases hstate

end BoardEntry

namespace Board
variable {board : Board} {now : ℕ} {actor : String}

/-- A write that goes through changes one entry. By an agent, it is no new decision; over an old
entry it is an edit. -/
lemma write_ok {agent : Bool} {write : BoardWrite} {after : Board}
    (hnumbered : Numbered board.entries)
    (h : board.write now actor agent write = .ok (entry, after)) :
    Changed board entry after ∧
      ((∃ old ∈ board.entries, write.id = some old.id ∧ old.Edited write entry) ∨
        (∀ old ∈ board.entries, old.id ≠ entry.id) ∧ (agent = true → ¬entry.Agreed)) := by
  unfold Board.write at h
  split at h
  case h_1 id hid =>
    split at h
    case h_1 => cases h
    case h_2 old hfind =>
      obtain ⟨hold, rfl⟩ := find_some hfind
      obtain ⟨next, hedit, hput⟩ := map_eq_ok h
      have hedited := BoardEntry.edit_ok hedit
      have hchanged := put_edited hnumbered hold hedited.id now actor .edit
      rw [hput] at hchanged
      obtain ⟨rfl, rfl⟩ := Prod.ext_iff.mp hput
      exact ⟨hchanged, .inl ⟨old, hold, hid, { hedited with }⟩⟩
  case h_2 =>
    obtain ⟨next, hadd, hput⟩ := map_eq_ok h
    obtain ⟨hnext, hagent⟩ := BoardEntry.add_ok hadd
    have hchanged := put_added hnumbered hnext now actor .add
    rw [hput] at hchanged
    obtain ⟨rfl, rfl⟩ := Prod.ext_iff.mp hput
    exact ⟨hchanged, .inr ⟨fun old hold => hnext ▸ hnumbered.not_mem hold, hagent⟩⟩

lemma decide_cases (hnumbered : Numbered board.entries) (now : ℕ) (actor entryId : String)
    (accept : Bool) :
    (∃ error, (board.decide now actor entryId accept).1 = .error error ∧
      (board.decide now actor entryId accept).2.entries = board.entries ∧
      board.revision ≤ (board.decide now actor entryId accept).2.revision) ∨
    ∃ entry, (board.decide now actor entryId accept).1 = .ok entry ∧
      Changed board entry (board.decide now actor entryId accept).2 ∧
      (accept = false → ¬entry.Agreed) := by
  unfold Board.decide
  split
  case h_1 => exact .inl ⟨_, rfl, rfl, Nat.le_succ _⟩
  case h_2 old hfind =>
    obtain ⟨hold, rfl⟩ := find_some hfind
    split
    case isTrue => exact .inl ⟨_, rfl, rfl, le_rfl⟩
    case isFalse =>
      refine .inr ⟨_, rfl, ⟨fun e => ?_, numbered_replace hnumbered, rfl, rfl⟩, ?_⟩
      · refine mem_replace hnumbered.nodup ?_ e
        exact ⟨old, hold, rfl⟩
      · rintro rfl ⟨-, hstate⟩
        cases hstate

end Board

/-! A run. -/

/-- No agent writes another text over what is agreed. -/
def Op.Abides (board : Board) : Op → Prop
  | .contextWrite _ write => ∀ entry ∈ board.entries, write.id = some entry.id → entry.Agreed →
      ∀ text ∈ write.text,
        cut text = "" ∨ cut text = entry.text ∨ ∃ state ∈ write.state, state ≠ entry.state
  | _ => True

namespace World
variable {w : World}

/-- What is agreed has the text that the user or the owner gave it. -/
def Ratified (w : World) : Prop :=
  ∀ entry ∈ w.board.entries, entry.Agreed → w.ratified entry.id = some entry.text

/-- An agent's write leaves what is agreed as it is. -/
def Steadfast (w : World) (now : ℕ) : Op → Prop
  | .contextWrite task write => ∀ entry ∈ w.board.entries, entry.Agreed →
      ∃ after ∈ (w.step now (.contextWrite task write)).2.board.entries,
        after.id = entry.id ∧ after.text = entry.text ∧ after.state = entry.state
  | _ => True

/-- A reader is told of every entry that has changed since it last read. -/
def Told (w : World) (now : ℕ) : Op → Prop
  | .contextRead reader => ∃ entries revision,
      (w.step now (.contextRead reader)).1 = .entries entries revision ∧
      ∀ id ∈ w.unread reader, ∃ entry ∈ w.board.entries, entry.id = id ∧ entry ∈ entries
  | _ => True

/-- What holds of the boards between two operations. -/
structure Sound (w : World) : Prop where
  numbered : Numbered w.board.entries
  stored : (w.file.getD (.new w.owner)).entries = w.board.entries
  behind : ∀ reader, w.state.cursors reader ≤ w.board.revision
  noticed : ∀ reader, ∀ id ∈ w.unread reader, ∃ entry ∈ w.board.entries,
    entry.id = id ∧ w.state.cursors reader < entry.revision
  ratified : w.Ratified

lemma load_load (w : World) : w.load.load = w.load := by
  cases h : w.state.loaded <;> simp [load, ensureLoaded, h]

@[simp] lemma cursors_load (w : World) : w.load.state.cursors = w.state.cursors := by
  cases h : w.state.loaded <;> simp [load, ensureLoaded, h]

@[simp] lemma board_load (w : World) : w.load.board = w.board := by
  unfold board
  rw [load_load]
  rfl

@[simp] lemma board_keep (w : World) (board : Board) : (w.load.keep board).board = board := by
  cases h : w.state.loaded <;> simp [World.board, keep, load, ensureLoaded, h]

@[simp] lemma board_changed (w : World) (entry : BoardEntry) (board : Board) (ratifies : Bool) :
    (w.changed entry board ratifies).board = board := by
  cases h : w.state.loaded <;> simp [World.board, changed, keep, load, ensureLoaded, h]

lemma Sound.load (h : w.Sound) : w.load.Sound := by
  refine ⟨?_, ?_, fun reader => ?_, fun reader => ?_, ?_⟩
  · rw [board_load]
    exact h.numbered
  · rw [board_load]
    exact h.stored
  · rw [board_load, cursors_load]
    exact h.behind reader
  · rw [board_load, cursors_load]
    exact h.noticed reader
  · unfold Ratified
    rw [board_load]
    exact h.ratified

variable {board : Board}

lemma Sound.keep (h : w.Sound) (hentries : board.entries = w.board.entries)
    (hrevision : w.board.revision ≤ board.revision) : (w.load.keep board).Sound := by
  refine ⟨?_, ?_, fun reader => ?_, fun reader => ?_, ?_⟩
  · rw [board_keep, hentries]
    exact h.numbered
  · rw [board_keep, hentries]
    exact h.stored
  · rw [board_keep]
    exact (cursors_load w ▸ h.behind reader).trans hrevision
  · rw [board_keep, hentries]
    change ∀ id ∈ w.unread reader, ∃ entry ∈ w.board.entries,
      entry.id = id ∧ w.load.state.cursors reader < entry.revision
    rw [cursors_load]
    exact h.noticed reader
  · unfold Ratified
    rw [board_keep, hentries]
    exact h.ratified

lemma Sound.changed (h : w.Sound) {ratifies : Bool} (hchanged : Changed w.board entry board)
    (hagreed : ratifies = false → entry.Agreed → w.ratified entry.id = some entry.text) :
    (w.changed entry board ratifies).Sound := by
  have hcursors : (w.changed entry board ratifies).state.cursors = w.state.cursors := cursors_load w
  refine ⟨?_, ?_, fun reader => ?_, fun reader id hid => ?_, fun e he hag => ?_⟩
  · rw [board_changed]
    exact hchanged.numbered
  · rw [board_changed]
    rfl
  · rw [board_changed, hcursors, hchanged.revision]
    exact (h.behind reader).trans (Nat.le_succ _)
  · rw [board_changed, hcursors]
    have hnew : w.state.cursors reader < entry.revision := by
      rw [hchanged.raised, hchanged.revision]
      exact Nat.lt_succ_of_le (h.behind reader)
    rcases List.mem_cons.mp hid with rfl | hid
    · exact ⟨entry, (hchanged.mem entry).mpr (.inl rfl), rfl, hnew⟩
    · obtain ⟨old, hold, rfl, hlt⟩ := h.noticed reader id hid
      by_cases hsame : old.id = entry.id
      · exact ⟨entry, (hchanged.mem entry).mpr (.inl rfl), hsame.symm, hnew⟩
      · exact ⟨old, (hchanged.mem old).mpr (.inr ⟨hold, hsame⟩), rfl, hlt⟩
  · rw [board_changed] at he
    change (if ratifies = true then Function.update w.ratified entry.id (some entry.text)
      else w.ratified) e.id = some e.text
    rcases (hchanged.mem e).mp he with rfl | ⟨he, hne⟩
    · cases ratifies with
      | true => exact Function.update_self ..
      | false => exact hagreed rfl hag
    · cases ratifies with
      | true => exact (Function.update_of_ne hne ..).trans (h.ratified e he hag)
      | false => exact h.ratified e he hag

lemma text_of_abides {task : String} {write : BoardWrite}
    (habides : (Op.contextWrite task write).Abides board) {old entry : BoardEntry}
    (hold : old ∈ board.entries) (hid : write.id = some old.id) (hedited : old.Edited write entry)
    (hagreed : old.Agreed) : entry.text = old.text := by
  cases htext : write.text with
  | none => rw [hedited.text, htext]; rfl
  | some text =>
    rcases habides old hold hid hagreed text htext with hempty | hsame | ⟨state, hstate, hne⟩
    · exact absurd hempty (hedited.filled text htext)
    · rw [hedited.text, htext, Option.map_some, Option.getD_some]
      exact hsame
    · exact absurd (hedited.allowed hagreed.1 state hstate) hne

lemma Sound.write (h : w.Sound) {now : ℕ} {actor : String} {agent : Bool} {write : BoardWrite}
    (habides : agent = true → (Op.contextWrite actor write).Abides w.board) :
    (w.write now actor agent write).2.Sound := by
  unfold World.write
  cases hwrite : w.board.write now actor agent write with
  | error error => exact h.keep rfl le_rfl
  | ok result =>
    obtain ⟨entry, board⟩ := result
    obtain ⟨hchanged, hcase⟩ := Board.write_ok h.numbered hwrite
    refine h.changed hchanged fun hratifies hagreed => ?_
    have hagent : agent = true := by
      cases agent with
      | true => rfl
      | false => simp at hratifies
    rcases hcase with ⟨old, hold, hid, hedited⟩ | ⟨-, hnone⟩
    · have hag := hedited.agreed hagreed
      rw [text_of_abides (habides hagent) hold hid hedited hag, hedited.id]
      exact h.ratified old hold hag
    · exact absurd hagreed (hnone hagent)

lemma Sound.decide (h : w.Sound) {now : ℕ} {actor entryId : String} {accept : Bool} :
    (w.decide now actor entryId accept).2.Sound := by
  unfold World.decide
  split
  case isTrue => exact h.load
  case isFalse =>
    obtain ⟨error, herror, hentries, hrevision⟩ | ⟨entry, hok, hchanged, hrejected⟩ :=
      Board.decide_cases h.numbered now actor entryId accept
    · rw [← Prod.eta (w.board.decide now actor entryId accept), herror]
      exact h.keep hentries hrevision
    · rw [← Prod.eta (w.board.decide now actor entryId accept), hok]
      exact h.changed hchanged fun hratifies hagreed => absurd hagreed (hrejected hratifies)

lemma Sound.readSince (h : w.Sound) {reader : String} : (w.readSince reader).2.Sound := by
  have hboard : (w.readSince reader).2.board = w.board := by
    cases hloaded : w.state.loaded <;>
      simp [World.board, World.readSince, World.load, ensureLoaded, hloaded]
  refine ⟨?_, ?_, fun r => ?_, fun r id hid => ?_, ?_⟩
  · rw [hboard]
    exact h.numbered
  · rw [hboard]
    exact h.stored
  · rw [hboard]
    by_cases hr : r = reader
    · subst hr
      exact (Function.update_self (β := fun _ => ℕ) ..).le
    · exact (Function.update_of_ne (β := fun _ => ℕ) hr ..).le.trans (h.behind r)
  · rw [hboard]
    by_cases hr : r = reader
    · subst hr
      rw [show (w.readSince r).2.unread r = [] from Function.update_self ..] at hid
      cases hid
    · rw [show (w.readSince reader).2.unread r = w.unread r from Function.update_of_ne hr ..] at hid
      rw [show (w.readSince reader).2.state.cursors r = w.state.cursors r from
        Function.update_of_ne hr ..]
      exact h.noticed r id hid
  · unfold Ratified
    rw [hboard]
    exact h.ratified

lemma Sound.restart (h : w.Sound) : (w.step 0 .restart).2.Sound := by
  have hboard : (w.step 0 .restart).2.board.entries = w.board.entries := by
    rw [← h.stored]
    simp [World.step, World.board, World.load, ensureLoaded, State.new]
  refine ⟨?_, ?_, fun r => Nat.zero_le _, fun r id hid => ?_, ?_⟩
  · rw [hboard]
    exact h.numbered
  · rw [hboard]
    exact h.stored
  · cases hid
  · unfold Ratified
    rw [hboard]
    exact h.ratified

lemma Sound.step (h : w.Sound) {now : ℕ} {op : Op} (habides : op.Abides w.board) :
    (w.step now op).2.Sound := by
  cases op with
  | boardWrite write => exact h.write nofun
  | contextWrite task write => exact h.write fun _ => habides
  | boardDecide entryId accept => exact h.decide
  | contextDecide task entryId accept =>
    change (if task ≠ w.owner then (Reply.failure .notAllowed, w)
      else w.decide now task entryId accept).2.Sound
    split
    · exact h
    · exact h.decide
  | contextRead reader => exact h.readSince
  | restart => exact h.restart

lemma told_of_sound (h : w.Sound) (now : ℕ) (op : Op) : w.Told now op := by
  cases op with
  | contextRead reader =>
    refine ⟨_, _, rfl, fun id hid => ?_⟩
    obtain ⟨entry, hentry, hname, hlt⟩ := h.noticed reader id hid
    exact ⟨entry, hentry, hname, List.mem_filter.mpr ⟨hentry, decide_eq_true hlt⟩⟩
  | _ => trivial

lemma steadfast_of_abides (h : w.Sound) {now : ℕ} {task : String} {write : BoardWrite}
    (habides : (Op.contextWrite task write).Abides w.board) :
    w.Steadfast now (.contextWrite task write) := by
  intro old hold hagreed
  change ∃ after ∈ (w.write now task true write).2.board.entries, _
  unfold World.write
  cases hwrite : w.board.write now task true write with
  | error error =>
    dsimp only
    rw [board_keep]
    exact ⟨old, hold, rfl, rfl, rfl⟩
  | ok result =>
    obtain ⟨entry, board⟩ := result
    obtain ⟨hchanged, hcase⟩ := Board.write_ok h.numbered hwrite
    dsimp only
    rw [board_changed]
    by_cases hsame : old.id = entry.id
    · refine ⟨entry, (hchanged.mem entry).mpr (.inl rfl), hsame.symm, ?_⟩
      rcases hcase with ⟨other, hother, hid, hedited⟩ | ⟨hnew, -⟩
      · obtain rfl := h.numbered.eq_of_id hother hold (hedited.id.symm.trans hsame.symm)
        exact ⟨text_of_abides habides hother hid hedited hagreed, hedited.state hagreed.1⟩
      · exact absurd hsame (hnew old hold)
    · exact ⟨old, (hchanged.mem old).mpr (.inr ⟨hold, hsame⟩), rfl, rfl, rfl⟩

lemma abides_of_steadfast (h : w.Sound) {now : ℕ} {task : String} {write : BoardWrite}
    (hsteadfast : w.Steadfast now (.contextWrite task write)) :
    (Op.contextWrite task write).Abides w.board := by
  intro old hold hid hagreed text htext
  by_contra hnot
  simp only [not_or, not_exists, not_and, not_not] at hnot
  obtain ⟨hempty, hother, hstate⟩ := hnot
  -- The edit goes through, and the entry has the text of the write.
  obtain ⟨next, hedit⟩ := BoardEntry.edit_agreed hagreed htext hempty hstate
  have hwrite : w.board.write now task true write = .ok (w.board.put now task .edit next) := by
    simp only [Board.write, hid, Board.find_of_mem h.numbered hold, hedit, Except.map]
  have hchanged := Board.put_edited h.numbered hold (BoardEntry.edit_ok hedit).id now task .edit
  obtain ⟨after, hafter, hname, hkept, -⟩ := hsteadfast old hold hagreed
  rw [show w.step now (.contextWrite task write) = w.write now task true write from rfl,
    World.write, hwrite] at hafter
  dsimp only at hafter
  rw [board_changed] at hafter
  rcases (hchanged.mem after).mp hafter with rfl | ⟨-, hne⟩
  · have htexted : next.text = cut text := by
      rw [(BoardEntry.edit_ok hedit).text, htext, Option.map_some, Option.getD_some]
    exact hother (htexted ▸ hkept)
  · exact hne (hname.trans (BoardEntry.edit_ok hedit).id.symm)

def Upheld (w : World) (op : ℕ × Op) : Prop :=
  (w.step op.1 op.2).2.Ratified ∧ w.Steadfast op.1 op.2 ∧ w.Told op.1 op.2

lemma sound_new (owner : String) : (new owner).Sound := by
  have hboard : (new owner).board = .new owner := rfl
  refine ⟨?_, ?_, fun r => Nat.zero_le _, fun r id hid => ?_, ?_⟩
  · rfl
  · rfl
  · cases hid
  · intro entry hentry
    rw [hboard] at hentry
    cases hentry

lemma run_concat (owner : String) (ops : List (ℕ × Op)) (op : ℕ × Op) :
    run owner (ops ++ [op]) = ((run owner ops).step op.1 op.2).2 := by
  simp [run]

lemma sound_run {owner : String} {ops : List (ℕ × Op)}
    (h : ∀ earlier op, earlier ++ [op] <+: ops → op.2.Abides (run owner earlier).board) :
    (run owner ops).Sound := by
  induction ops using List.reverseRecOn with
  | nil => exact sound_new owner
  | append_singleton ops op ih =>
    rw [run_concat]
    refine (ih fun earlier op' hpre => ?_).step (h ops op (List.prefix_refl _))
    exact h earlier op' (hpre.trans (List.prefix_append ..))

/-- The boards do what they owe exactly as long as no agent writes over what is agreed. -/
theorem upheld_iff_abides (owner : String) (ops : List (ℕ × Op)) :
    (∀ earlier op, earlier ++ [op] <+: ops → (run owner earlier).Upheld op) ↔
      ∀ earlier op, earlier ++ [op] <+: ops → op.2.Abides (run owner earlier).board := by
  constructor
  · intro h
    -- Up to the first write that does not abide, the run is sound.
    induction ops using List.reverseRecOn with
    | nil => exact fun earlier op hpre => absurd (List.prefix_nil.mp hpre) (by simp)
    | append_singleton ops last ih =>
      have habides := ih fun earlier op hpre =>
        h earlier op (hpre.trans (List.prefix_append ..))
      intro earlier op hpre
      rcases List.prefix_concat_iff.mp hpre with heq | hpre
      · obtain ⟨rfl, hlast⟩ := List.append_inj' heq rfl
        obtain rfl := List.singleton_inj.mp hlast
        obtain ⟨-, hsteadfast, -⟩ := h earlier op hpre
        obtain ⟨now, op⟩ := op
        cases op with
        | contextWrite task write => exact abides_of_steadfast (sound_run habides) hsteadfast
        | _ => trivial
      · exact habides earlier op hpre
  · intro h earlier op hpre
    have hsound : (run owner earlier).Sound := sound_run fun before op' hbefore =>
      h before op' (hbefore.trans ((List.prefix_append ..).trans hpre))
    refine ⟨(hsound.step (h earlier op hpre)).ratified, ?_, told_of_sound hsound ..⟩
    obtain ⟨now, op⟩ := op
    cases op with
    | contextWrite task write => exact steadfast_of_abides hsound (h earlier _ hpre)
    | _ => trivial

/-- A child proposes, the user accepts, and the child writes over it. -/
def overwritten : List (ℕ × Op) :=
  [(1, .contextWrite "child" ⟨none, some .decision, some "A", none, none⟩),
    (2, .boardDecide "b1" true),
    (3, .contextWrite "child" ⟨some "b1", none, some "B", none, none⟩)]

theorem not_upheld_overwritten :
    ¬∀ earlier op, earlier ++ [op] <+: overwritten → (run "p" earlier).Upheld op := by
  intro h
  have hratified := (h (overwritten.take 2) _ (List.prefix_refl _)).1
  rw [← run_concat] at hratified
  have hnot : ∃ entry ∈ (run "p" overwritten).board.entries,
      (entry.kind = .decision ∧ entry.state = .accepted) ∧
        (run "p" overwritten).ratified entry.id ≠ some entry.text := by decide +kernel
  obtain ⟨entry, hentry, hagreed, hne⟩ := hnot
  exact hne (hratified entry hentry hagreed)

end World

end Aeroric.Boards
