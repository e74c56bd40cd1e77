import Mathlib.Data.String.Basic
import Aeroric.TableMerge

/-! The paths, hashes and decisions of notebook sync. -/
namespace Aeroric.NotebookSync

/-- A hash as the code compares and stores it. -/
inductive Hash
  | content (hash64 : ℕ)
  /-- `oversize:<size>`: the file is there, but too large to be hashed. -/
  | oversize (size : ℕ)
  /-- The empty string: there is no file. -/
  | empty
  deriving DecidableEq

def vaultPrivateDir : String := ".notebook"

def syncPrivateDir : String := ".notebook-sync"

def skipDirs : List String :=
  [".git", ".hg", ".svn", "node_modules", "target", "dist", "build", ".next", ".nuxt",
    "__pycache__", ".venv", "venv", ".cache", ".turbo", "coverage"]

/-- The parts of a relative path. -/
def parts (rel : String) : List (List Char) := rel.toList.splitOn '/'

def isScanSkipDir (name : List Char) : Bool :=
  String.ofList (name.map Char.toLower) ∈ vaultPrivateDir :: syncPrivateDir :: skipDirs

def isOutOfScope (rel : String) : Bool := (parts rel).any isScanSkipDir

/-- `resolve_rel` refuses a path with such a part. -/
def isUnsafePart (part : List Char) : Bool :=
  part = [] || part = ['.'] || part = ['.', '.'] || '\\' ∈ part

def isSafe (rel : String) : Bool := !(parts rel).any isUnsafePart

/-- A path relative to the vault that the scan, the list and the writes accept. -/
abbrev RelPath := { rel : String // isSafe rel = true ∧ isOutOfScope rel = false }

def RelPath.ofString (rel : String) : Except String RelPath :=
  if hscope : isOutOfScope rel = true then
    .error ("Path is outside the notebook sync scope: " ++ rel)
  else if rel = "" then .error "Empty relative path"
  else if hsafe : isSafe rel = true then .ok ⟨rel, hsafe, Bool.eq_false_iff.mpr hscope⟩
  else .error ("Unsafe relative path: " ++ rel)

inductive Resolution
  | keepLocal
  | keepRemote
  /-- The remote version is saved under another path as well. -/
  | fork (forkPath : String)
  deriving DecidableEq

inductive ConflictStrategy
  | ask
  | local
  | remote
  deriving DecidableEq

inductive Reason
  | newLocal
  | remoteDeletedLocalUnchanged
  | remoteDeletedLocalModified
  | sameContentNoBaseline
  | bothPresentNoBaseline
  | localModified
  | remoteModified
  | bothModified
  | localTombstoneRemoteUnchanged
  | localTombstoneRemoteModified
  | localMissingRemoteUnchanged
  | localMissingRemoteModified
  | newRemote
  deriving DecidableEq

end Aeroric.NotebookSync
