import Mathlib.Data.String.Basic
import Aeroric.Decimal

/-! The temp files of the atomic writers, and the sweep that removes what a crashed writer left. The
sweep reads a temp file's age from its name. -/
namespace Aeroric.StorageAtomic

/-- The two functions that write a file by way of a temp file. -/
inductive Writer
  | atomic
  | legacy
  deriving DecidableEq, Repr

/-- A temp file: who writes which file, and when, in nanoseconds since the epoch. -/
structure Temp where
  writer : Writer
  fileName : Option String
  pid : ℕ
  nanos : ℕ
  deriving DecidableEq, Repr

/-- What stands for a path without a last part. -/
def Writer.unnamed : Writer → String
  | .atomic => "aeroric.tmp"
  | .legacy => "file"

def Temp.temporaryName (t : Temp) : String :=
  "." ++ t.fileName.getD t.writer.unnamed ++ "." ++ toString t.pid ++ "-" ++ toString t.nanos ++
    ".tmp"

def startsWith (pattern name : List Char) : Bool := pattern.isPrefixOf name

def endsWith (pattern name : List Char) : Bool := pattern.isSuffixOf name

def stripSuffix (suffix text : List Char) : Option (List Char) :=
  if endsWith suffix text then some (text.take (text.length - suffix.length)) else none

def stampOf (name : List Char) : Option ℕ :=
  ((rsplitOnce ['-'] name).bind fun split => stripSuffix ".tmp".toList split.2).bind
    (parseUnsigned 128)

/-- How old a stamp is; a stamp that has not come yet has no age. -/
def ageOf (nowMs : UInt64) (stamp : ℕ) : Option ℕ :=
  let nowNs := nowMs.toNat * 1000
  if stamp ≤ nowNs then some ((nowNs - stamp) / 1000 % 2 ^ 64) else none

def isStale (nowMs maxAgeMs : UInt64) (name : List Char) : Bool :=
  ((stampOf name).bind (ageOf nowMs)).all fun age => maxAgeMs.toNat < age

/-- The entries of the directory that are removed. `removeFile` is what the file system says to
removing one; an unreadable directory has no entries. -/
def removeStaleTemps (removeFile : String → Bool) (entries : Option (List String))
    (nowMs maxAgeMs : UInt64) : List String :=
  (entries.getD []).filter fun name =>
    startsWith ['.'] name.toList && endsWith ".tmp".toList name.toList &&
      isStale nowMs maxAgeMs name.toList && removeFile name

def staleTempMaxAgeMs : UInt64 := 24 * 60 * 60 * 1000

def sweepStaleTemps (removeFile : String → Bool) (entries : Option (List String))
    (nowMs : UInt64) : List String :=
  removeStaleTemps removeFile entries nowMs staleTempMaxAgeMs

/-- More than `maxAgeMs` milliseconds have passed since the temp file was made. -/
def Temp.OlderThan (t : Temp) (nowMs maxAgeMs : UInt64) : Prop :=
  t.nanos + maxAgeMs.toNat * 10 ^ 6 < nowMs.toNat * 10 ^ 6

instance (t : Temp) (nowMs maxAgeMs : UInt64) : Decidable (t.OlderThan nowMs maxAgeMs) :=
  inferInstanceAs (Decidable (_ < _))

/-- Of the temp files that can be removed exactly the old ones are. -/
def SweepsOld (removeFile : String → Bool) (temps : List Temp) (nowMs maxAgeMs : UInt64) : Prop :=
  ∀ t ∈ temps, removeFile t.temporaryName = true →
    (t.temporaryName ∈ removeStaleTemps removeFile (some (temps.map Temp.temporaryName)) nowMs
      maxAgeMs ↔ t.OlderThan nowMs maxAgeMs)

instance (removeFile : String → Bool) (temps : List Temp) (nowMs maxAgeMs : UInt64) :
    Decidable (SweepsOld removeFile temps nowMs maxAgeMs) :=
  inferInstanceAs (Decidable (∀ t ∈ temps, _ = true → (_ ↔ _)))

/-! What the sweep reads from a temp file's name, whatever the file itself is called. -/

variable (t : Temp) {nowMs maxAgeMs : UInt64}

def Temp.front : List Char :=
  '.' :: ((t.fileName.getD t.writer.unnamed).toList ++ '.' :: Nat.toDigits 10 t.pid)

lemma toList_temporaryName :
    t.temporaryName.toList = t.front ++ '-' :: (Nat.toDigits 10 t.nanos ++ ".tmp".toList) := by
  simp [Temp.temporaryName, Temp.front, String.toList_append]

lemma endsWith_append (suffix text : List Char) : endsWith suffix (text ++ suffix) = true :=
  List.isSuffixOf_iff_suffix.mpr (List.suffix_append text suffix)

lemma stripSuffix_append (suffix text : List Char) :
    stripSuffix suffix (text ++ suffix) = some text := by
  simp [stripSuffix, endsWith_append]

lemma isTemp_temporaryName :
    (startsWith ['.'] t.temporaryName.toList && endsWith ".tmp".toList t.temporaryName.toList) =
      true := by
  rw [toList_temporaryName, Bool.and_eq_true]
  refine ⟨rfl, ?_⟩
  rw [← List.cons_append, ← List.append_assoc]
  exact endsWith_append _ _

lemma stampOf_temporaryName (ht : t.nanos < 2 ^ 128) :
    stampOf t.temporaryName.toList = some t.nanos := by
  have hdash : '-' ∉ Nat.toDigits 10 t.nanos ++ ".tmp".toList := by
    rw [List.mem_append, not_or]
    exact ⟨notMem_toDigits (by decide) _, by decide⟩
  unfold stampOf
  rw [toList_temporaryName, rsplitOnce_append _ hdash, Option.bind_some, stripSuffix_append,
    Option.bind_some, parseUnsigned_toDigits, if_pos ht]

/-- A stamp is taken to be stale when it lies ahead of the clock, read in microseconds, or behind it
by more than the age. -/
lemma isStale_temporaryName (ht : t.nanos < 2 ^ 128) :
    isStale nowMs maxAgeMs t.temporaryName.toList = true ↔
      nowMs.toNat * 1000 < t.nanos ∨ t.nanos + (maxAgeMs.toNat + 1) * 1000 ≤ nowMs.toNat * 1000 := by
  have hnow := nowMs.toNat_lt
  unfold isStale ageOf
  rw [stampOf_temporaryName t ht, Option.bind_some]
  dsimp only
  split
  · rw [Option.all_some, decide_eq_true_iff]
    omega
  · simp only [Option.all_none, true_iff]
    omega

/-- For temp files made before the sweep, the sweep removes exactly the old ones if and only if no
stamp of a file that is not old exceeds the clock read in microseconds, and no old file's stamp lies
behind that clock by less than the age. -/
theorem sweepsOld_iff (removeFile : String → Bool) (temps : List Temp) (nowMs maxAgeMs : UInt64)
    (hpast : ∀ t ∈ temps, t.nanos ≤ nowMs.toNat * 10 ^ 6) :
    SweepsOld removeFile temps nowMs maxAgeMs ↔
      ∀ t ∈ temps, removeFile t.temporaryName = true →
        (nowMs.toNat * 1000 < t.nanos → t.OlderThan nowMs maxAgeMs) ∧
        (t.nanos ≤ nowMs.toNat * 1000 → t.OlderThan nowMs maxAgeMs →
          t.nanos + (maxAgeMs.toNat + 1) * 1000 ≤ nowMs.toNat * 1000) := by
  have hmem : ∀ t ∈ temps, removeFile t.temporaryName = true →
      (t.temporaryName ∈ removeStaleTemps removeFile (some (temps.map Temp.temporaryName)) nowMs
        maxAgeMs ↔ nowMs.toNat * 1000 < t.nanos ∨
          t.nanos + (maxAgeMs.toNat + 1) * 1000 ≤ nowMs.toNat * 1000) := by
    intro t ht hremove
    have hnow := nowMs.toNat_lt
    have hnanos : t.nanos < 2 ^ 128 := (hpast t ht).trans_lt (by omega)
    unfold removeStaleTemps
    rw [Option.getD_some, List.mem_filter, isTemp_temporaryName, hremove, Bool.true_and,
      Bool.and_true, isStale_temporaryName t hnanos]
    exact and_iff_right (List.mem_map_of_mem ht)
  unfold SweepsOld
  refine forall₂_congr fun t ht => forall_congr' fun hremove => ?_
  rw [hmem t ht hremove]
  unfold Temp.OlderThan
  omega

/-- A file of ten days before the sweep. -/
theorem sweepsOld_tenDays :
    SweepsOld (fun _ => true) [⟨.atomic, some "settings.json", 7, 1700000000000000000⟩]
      1700864000000 staleTempMaxAgeMs :=
  (sweepsOld_iff _ _ _ _ (by decide)).mpr (by decide +kernel)

/-- A temp file made one millisecond before the sweep. -/
def freshTemp : Temp := ⟨.atomic, some "settings.json", 7, 1700000000000000000⟩

/-- It is removed as if it were a day old. -/
theorem not_sweepsOld :
    freshTemp.nanos ≤ (1700000000001 : UInt64).toNat * 10 ^ 6 ∧
    sweepStaleTemps (fun _ => true) (some [freshTemp.temporaryName]) 1700000000001 =
      [freshTemp.temporaryName] ∧
    ¬SweepsOld (fun _ => true) [freshTemp] 1700000000001 staleTempMaxAgeMs := by
  decide +kernel

end Aeroric.StorageAtomic
