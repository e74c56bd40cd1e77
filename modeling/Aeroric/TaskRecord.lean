import Aeroric.Sse
import Mathlib

/-! Task rows as `tasks.json` holds them. A row keeps every key it was given; the rules
name the keys they touch. Arrays and objects are kept by their text: no rule on task rows
looks inside one. -/
namespace Aeroric.TaskRecord

inductive Number
  | posInt (n : ℕ)
  | negInt (n : ℕ)
  | float (text : String)
  deriving DecidableEq, Repr

def Number.asU64 : Number → Option ℕ
  | .posInt n => some n
  | _ => none

inductive Value
  | null
  | bool (b : Bool)
  | number (n : Number)
  | string (s : String)
  | nested (text : String)
  deriving DecidableEq, Repr

def Value.asStr : Value → Option String
  | .string s => some s
  | _ => none

def Value.asBool : Value → Option Bool
  | .bool b => some b
  | _ => none

def Value.isNumber : Value → Bool
  | .number _ => true
  | _ => false

/-- `Value::Number(n.into())` for an unsigned `n`. -/
def Value.ofNat (n : ℕ) : Value := .number (.posInt n)

/-- One persisted object, keys and all. -/
structure Record where
  fields : Finmap fun _ : String => Value
  deriving DecidableEq

namespace Record

def empty : Record := ⟨∅⟩

def get (r : Record) (key : String) : Option Value := r.fields.lookup key

def insert (r : Record) (key : String) (value : Value) : Record := ⟨r.fields.insert key value⟩

def remove (r : Record) (key : String) : Record := ⟨r.fields.erase key⟩

def contains (r : Record) (key : String) : Bool := (r.get key).isSome

def strField (r : Record) (key : String) : Option String := (r.get key).bind Value.asStr

def id (r : Record) : Option String := r.strField "id"

def write (r : Record) (key : String) : Option Value → Record
  | some v => r.insert key v
  | none => r.remove key

variable {r s : Record}

theorem ext_get (h : ∀ k, r.get k = s.get k) : r = s := by
  cases r
  cases s
  congr
  exact Finmap.ext_lookup h

@[simp] lemma get_empty (k : String) : empty.get k = none := Finmap.lookup_empty k

@[simp] lemma get_insert (r : Record) (k j : String) (v : Value) :
    (r.insert k v).get j = if j = k then some v else r.get j := by
  by_cases h : j = k
  · subst h
    simp [get, insert]
  · simp [get, insert, h, Finmap.lookup_insert_of_ne]

@[simp] lemma get_remove (r : Record) (k j : String) :
    (r.remove k).get j = if j = k then none else r.get j := by
  by_cases h : j = k
  · subst h
    simp [get, remove]
  · simp [get, remove, h, Finmap.lookup_erase_ne]

@[simp] lemma get_write (r : Record) (k j : String) (v : Option Value) :
    (r.write k v).get j = if j = k then v else r.get j := by
  cases v <;> simp [write]

/-- `s` holds what `r` holds under every key outside `keys`. -/
def AgreesOff (keys : List String) (r s : Record) : Prop := ∀ k ∉ keys, s.get k = r.get k

lemma AgreesOff.refl (keys : List String) (r : Record) : AgreesOff keys r r := fun _ _ => rfl

variable {keys : List String}

lemma AgreesOff.trans {r s t : Record} (h : AgreesOff keys r s)
    (g : AgreesOff keys s t) : AgreesOff keys r t := fun k hk => (g k hk).trans (h k hk)

lemma AgreesOff.mono {keys more : List String} (h : AgreesOff keys r s)
    (hsub : keys ⊆ more) : AgreesOff more r s := fun k hk => h k fun hmem => hk (hsub hmem)

lemma AgreesOff.insert {k : String} (h : AgreesOff keys r s)
    (v : Value) (hk : k ∈ keys) : AgreesOff keys r (s.insert k v) := by
  intro j hj
  rw [get_insert, if_neg (by rintro rfl; exact hj hk), h j hj]

lemma AgreesOff.remove {k : String} (h : AgreesOff keys r s)
    (hk : k ∈ keys) : AgreesOff keys r (s.remove k) := by
  intro j hj
  rw [get_remove, if_neg (by rintro rfl; exact hj hk), h j hj]

lemma AgreesOff.write {k : String} (h : AgreesOff keys r s)
    (v : Option Value) (hk : k ∈ keys) : AgreesOff keys r (s.write k v) := by
  cases v
  · exact h.remove hk
  · exact h.insert _ hk

lemma AgreesOff.strField (h : AgreesOff keys r s)
    {k : String} (hk : k ∉ keys) : s.strField k = r.strField k := by
  rw [Record.strField, h k hk, Record.strField]

lemma AgreesOff.id (h : AgreesOff keys r s) (hk : "id" ∉ keys) : s.id = r.id := h.strField hk

end Record

/-- The nine wire statuses. -/
inductive TaskStatus
  | todo
  | pending
  | running
  | inputRequired
  | detached
  | interrupted
  | done
  | failed
  | cancelled
  deriving DecidableEq, Repr

namespace TaskStatus

def wire : TaskStatus → String
  | todo => "todo"
  | pending => "pending"
  | running => "running"
  | inputRequired => "input_required"
  | detached => "detached"
  | interrupted => "interrupted"
  | done => "done"
  | failed => "failed"
  | cancelled => "cancelled"

def all : List TaskStatus :=
  [todo, pending, running, inputRequired, detached, interrupted, done, failed, cancelled]

def parse (text : String) : Option TaskStatus := all.find? fun s => s.wire = text

@[simp] lemma parse_wire (s : TaskStatus) : parse s.wire = some s := by cases s <;> decide

def isTerminal : TaskStatus → Bool
  | done | failed | cancelled => true
  | _ => false

def isLive : TaskStatus → Bool
  | pending | running | inputRequired | detached => true
  | _ => false

/-- The statuses a process is expected behind: pending, running, input_required. -/
def isActive : TaskStatus → Bool
  | pending | running | inputRequired => true
  | _ => false

def value (s : TaskStatus) : Value := .string s.wire

end TaskStatus

def statusOf (r : Record) : Option TaskStatus := (r.strField "status").bind TaskStatus.parse

@[simp] lemma statusOf_insert_status (r : Record) (s : TaskStatus) :
    statusOf (r.insert "status" s.value) = some s := by
  simp [statusOf, Record.strField, TaskStatus.value, Value.asStr]

lemma Record.AgreesOff.statusOf {keys : List String} {r s : Record} (h : AgreesOff keys r s)
    (hk : "status" ∉ keys) : statusOf s = statusOf r := by
  rw [TaskRecord.statusOf, h.strField hk, TaskRecord.statusOf]

/-- The row has ended: its status reads as one of the three terminal ones. -/
def ended (r : Record) : Bool := (statusOf r).any TaskStatus.isTerminal

inductive ProtocolFamily
  | claude
  | codex
  | dsh
  | omp
  deriving DecidableEq, Repr

namespace ProtocolFamily

def wire : ProtocolFamily → String
  | claude => "claude"
  | codex => "codex"
  | dsh => "dsh"
  | omp => "omp"

def all : List ProtocolFamily := [claude, codex, dsh, omp]

def parse (text : String) : Option ProtocolFamily := all.find? fun f => f.wire = text

@[simp] lemma parse_wire (f : ProtocolFamily) : parse f.wire = some f := by cases f <;> decide

def value (f : ProtocolFamily) : Value := .string f.wire

end ProtocolFamily

/-- `text.trim().is_empty()`. -/
def isBlank (text : String) : Bool := text.toList.all Sse.isWhitespace

end Aeroric.TaskRecord
