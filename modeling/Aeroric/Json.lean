import Mathlib.Data.Int.Notation
import Mathlib.Data.Nat.Notation
import Mathlib.Data.List.Basic
import Mathlib.Algebra.Group.Nat.Defs

/-! JSON values, and how programs look into them. -/
namespace Aeroric.Json

inductive Value
  | null
  | bool (value : Bool)
  | int (value : ℤ)
  | float (text : String)
  | str (value : String)
  | arr (items : List Value)
  | obj (fields : List (String × Value))

/-- How many numbers `u64` has. -/
def u64 : ℕ := 2 ^ 64

namespace Value

def get (key : String) : Value → Option Value
  | .obj fields => fields.lookup key
  | _ => none

def asStr : Value → Option String
  | .str value => some value
  | _ => none

def asU64 : Value → Option ℕ
  | .int value => if 0 ≤ value ∧ value.toNat < u64 then some value.toNat else none
  | _ => none

def asArray : Value → Option (List Value)
  | .arr items => some items
  | _ => none

def isObject : Value → Bool
  | .obj _ => true
  | _ => false

/-- The member of a name, or null. -/
def member (key : String) (value : Value) : Value := (value.get key).getD .null

def getStr (key : String) (value : Value) : Option String := (value.get key).bind asStr

def getU64 (key : String) (value : Value) : Option ℕ := (value.get key).bind asU64

/-- The items of the array of a name, if there is one. -/
def items (key : String) (value : Value) : List Value := ((value.get key).bind asArray).getD []

/-- The member that a path of names leads to. -/
def pointer : List String → Value → Option Value
  | [], value => some value
  | key :: path, value => (value.get key).bind (pointer path)

/-- The member of a name is set, in its place or behind the others. -/
def set (value : Value) (key : String) (new : Value) : Value :=
  match value with
  | .obj fields =>
    if (fields.lookup key).isSome then
      .obj (fields.map fun f => if f.1 = key then (key, new) else f)
    else .obj (fields ++ [(key, new)])
  | value => value

@[simp] lemma asStr_str (s : String) : asStr (.str s) = some s := rfl

lemma asU64_natCast {n : ℕ} (h : n < u64) : asU64 (.int n) = some n :=
  if_pos ⟨Int.natCast_nonneg n, h⟩

@[simp] lemma asArray_arr (vs : List Value) : asArray (.arr vs) = some vs := rfl

@[simp] lemma get_obj (key : String) (fields : List (String × Value)) :
    get key (.obj fields) = fields.lookup key := rfl

section Set
variable {value v : Value} {key k : String} {fields : List (String × Value)}

lemma lookup_replace_of_ne (h : k ≠ key) (new : Value) :
    (fields.map fun f => if f.1 = key then (key, new) else f).lookup k = fields.lookup k := by
  induction fields with
  | nil => rfl
  | cons f fields ih =>
    obtain ⟨name, old⟩ := f
    by_cases hname : name = key
    · simp [List.lookup_cons, hname, beq_false_of_ne h, ih]
    · simp [List.lookup_cons, hname, ih]

lemma lookup_replace_self (h : (fields.lookup key).isSome = true) (new : Value) :
    (fields.map fun f => if f.1 = key then (key, new) else f).lookup key = some new := by
  induction fields with
  | nil => cases h
  | cons f fields ih =>
    obtain ⟨name, old⟩ := f
    by_cases hname : name = key
    · simp [hname]
    · have hkey : (key == name) = false := beq_false_of_ne (Ne.symm hname)
      rw [List.lookup_cons, hkey] at h
      simp [List.lookup_cons, hname, hkey, ih h]

lemma get_set_self (h : value.isObject = true) (new : Value) : (value.set key new).get key = some new := by
  cases value with
  | obj fields =>
    dsimp only [set]
    split
    · next hkey => exact lookup_replace_self hkey new
    · next hkey => simp [List.lookup_append, Option.not_isSome_iff_eq_none.mp hkey]
  | null | bool | int | float | str | arr => cases h

lemma get_set_of_ne (h : k ≠ key) (new : Value) : (value.set key new).get k = value.get k := by
  cases value with
  | obj fields =>
    dsimp only [set]
    split
    · exact lookup_replace_of_ne h new
    · simp [List.lookup_append, List.lookup_cons, beq_false_of_ne h]
  | null | bool | int | float | str | arr => rfl

lemma isObject_of_get (h : value.get key = some v) : value.isObject = true := by
  cases value <;> first | rfl | cases h

end Set

end Value

end Aeroric.Json
