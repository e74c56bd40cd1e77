import Aeroric.Sse
import Aeroric.SyncPlan
import Mathlib

/-! Reading an archive that is imported. An entry is read within a limit of its own, and what has been
read is charged to the budget of the run. -/
namespace Aeroric.NoteImport

open NotebookSync (isScanSkipDir)
open Sse (trim)

abbrev Text := List Char

def maxEntryBytes : ℕ := 100 * 1024 * 1024

def maxEntries : ℕ := 100000

def maxTotalBytes : ℕ := 4 * 1024 * 1024 * 1024

/-! Names. -/

def isWindowsReserved (name : Text) : Bool :=
  let stem := (name.takeWhile (· ≠ '.')).map Char.toUpper
  ["CON".toList, "PRN".toList, "AUX".toList, "NUL".toList].contains stem ||
    match stem with
    | [a, b, c, d] =>
      ([a, b, c] = "COM".toList || [a, b, c] = "LPT".toList) && d.isDigit && d ≠ '0'
    | _ => false

section Names

-- The letters and digits of every script.
variable (alphanumeric : Char → Bool)

def sanitizeName (name : Text) : Text :=
  let out := name.map fun c =>
    if alphanumeric c || c = '-' || c = '_' || c = '.' || c = ' ' then c else '_'
  let trimmed := trim (((trim out).dropWhile (· = '.')).rdropWhile (· = '.'))
  if trimmed = [] then "imported".toList
  else if isWindowsReserved trimmed then '_' :: trimmed
  else trimmed

def hasDrive : Text → Bool
  | a :: b :: _ => a.utf8Size = 1 && b = ':'
  | _ => false

def sanitizeParts : List Text → Option (List Text)
  | [] => some []
  | raw :: rest =>
    if raw = [] ∨ raw = ['.'] then sanitizeParts rest
    else if raw = ['.', '.'] then none
    else if hasDrive raw then none
    else if isScanSkipDir raw then none
    else if isScanSkipDir (sanitizeName alphanumeric raw) then none
    else (sanitizeParts rest).map (sanitizeName alphanumeric raw :: ·)

def sanitizeRelative (path : Text) : Option Text :=
  match sanitizeParts alphanumeric (path.splitOnP fun c => c = '/' || c = '\\') with
  | none => none
  | some [] => none
  | some parts => some (['/'].intercalate parts)

end Names

/-! The report. -/

inductive LimitHit
  | entries
  | totalBytes
  deriving DecidableEq

def LimitHit.label : LimitHit → Text
  | .entries => "条目数上限".toList
  | .totalBytes => "解压总量上限".toList

inductive SkipReason
  | alreadyImported
  | unsupported (extension : Text)
  | tooLarge (bytes : ℕ)
  | limitReached (limit : Text)
  | symlink
  deriving DecidableEq

inductive ItemStatus
  | imported
  | skipped (reason : SkipReason)
  | failed (detail : Text)
  deriving DecidableEq

inductive ItemIssue
  | resourceLost (target detail : Text)
  | degraded (detail : Text)
  deriving DecidableEq

structure ImportItem where
  source : Text
  dest : Option Text
  status : ItemStatus
  issues : List ItemIssue
  deriving DecidableEq

def ImportItem.skipped (source : Text) (reason : SkipReason) : ImportItem :=
  ⟨source, none, .skipped reason, []⟩

def ImportItem.failed (source detail : Text) : ImportItem := ⟨source, none, .failed detail, []⟩

def maxDetailItems : ℕ := 2000

structure ImportReport where
  imported : ℕ
  skipped : ℕ
  failed : ℕ
  resourceLost : ℕ
  degraded : ℕ
  items : List ImportItem
  truncated : ℕ
  deriving DecidableEq

/-- The counts have no limit, the list of the items has one. -/
def ImportReport.push (r : ImportReport) (item : ImportItem) : ImportReport :=
  let counted := match item.status with
    | .imported => { r with imported := r.imported + 1 }
    | .skipped _ => { r with skipped := r.skipped + 1 }
    | .failed _ => { r with failed := r.failed + 1 }
  let lost := item.issues.any fun issue => issue matches .resourceLost _ _
  let degraded := item.issues.any fun issue => issue matches .degraded _
  { counted with
    resourceLost := r.resourceLost + lost.toNat
    degraded := r.degraded + degraded.toNat
    items := if r.items.length < maxDetailItems then r.items ++ [item] else r.items
    truncated := r.truncated + if r.items.length < maxDetailItems then 0 else 1 }

/-! The budget. -/

structure Budget where
  entries : ℕ
  totalBytes : ℕ

def Budget.checkEntry (b : Budget) : Option LimitHit :=
  if maxEntries ≤ b.entries then some .entries else none

/-- The sum stays at the largest number that fits. -/
def Budget.record (b : Budget) (bytes : ℕ) : Budget × Option LimitHit :=
  let next : Budget := ⟨b.entries + 1, min (b.totalBytes + bytes) (2 ^ 64 - 1)⟩
  (next, if maxTotalBytes < next.totalBytes then some .totalBytes else none)

/-! The walk. -/

/-- An entry as the archive has it. What it unpacks to may end in an error, and its declared size need
not be true. -/
structure Entry where
  unreadable : Option Text
  isDir : Bool
  name : Text
  enclosedName : Option Text
  size : ℕ
  content : List UInt8
  broken : Bool

def entryTooLarge (bytes : ℕ) : Bool := maxEntryBytes < bytes

/-- The number of bytes that are read, and the content or a size. -/
def readZipEntryLimited (e : Entry) : ℕ × Except ℕ (List UInt8) :=
  if entryTooLarge e.size then (0, .error e.size)
  else
    let buf := e.content.take (maxEntryBytes + 1)
    (buf.length,
      -- The error at the end is met only if the limit does not come before it.
      if e.broken ∧ e.content.length < maxEntryBytes + 1 then .error e.size
      else if maxEntryBytes < buf.length then .error buf.length
      else .ok buf)

inductive Handled
  | landed (dest : Text) (issues : List ItemIssue)
  | skipped (reason : SkipReason)
  | failed (detail : Text)
  | ignored

/-- The numbers of bytes read and of entries processed are kept for the statements. -/
structure Walk (σ : Type) where
  state : σ
  report : ImportReport
  budget : Budget
  read : ℕ
  processed : ℕ

def Walk.push {σ : Type} (w : Walk σ) (item : ImportItem) : Walk σ :=
  { w with report := w.report.push item }

section Walking

variable {σ : Type} (alphanumeric : Char → Bool) (handle : σ → Text → List UInt8 → σ × Handled)

def laterEntries (hit : LimitHit) : ImportItem :=
  .skipped "(后续条目)".toList (.limitReached hit.label)

def Handled.item (raw : Text) : Handled → Option ImportItem
  | .ignored => none
  | .skipped reason => some (.skipped raw reason)
  | .failed detail => some (.failed raw detail)
  | .landed dest issues => some ⟨raw, some dest, .imported, issues⟩

def Walk.charge (w : Walk σ) (bytes : ℕ) : Walk σ × Bool :=
  let (budget, hit) := w.budget.record bytes
  match hit with
  | some hit => ({ w with budget := budget }.push (laterEntries hit), false)
  | none => ({ w with budget := budget }, true)

def walkContent (raw relative : Text) (bytes : List UInt8) (w : Walk σ) : Walk σ × Bool :=
  let (state, handled) := handle w.state relative bytes
  let w := { w with state := state }
  match handled.item raw with
  | none => (w, true)
  | some item => (w.push item).charge bytes.length

def walkEntry (index : ℕ) (e : Entry) (w : Walk σ) : Walk σ × Bool :=
  match e.unreadable with
  | some error =>
    ({ w with processed := w.processed + 1 }.push (.failed
      ("(第 ".toList ++ Nat.toDigits 10 index ++ " 条)".toList)
      ("读归档条目失败:".toList ++ error)), true)
  | none =>
    if e.isDir then (w, true)
    else
      let w := { w with processed := w.processed + 1 }
      match e.enclosedName with
      | none => (w.push (.failed e.name "归档条目的路径会跑出目标目录,已拒绝".toList), true)
      | some enclosed =>
        match sanitizeRelative alphanumeric enclosed with
        | none => (w.push (.skipped e.name (.unsupported "(非法路径)".toList)), true)
        | some relative =>
          let (count, bytes) := readZipEntryLimited e
          let w := { w with read := w.read + count }
          match bytes with
          | .error size => (w.push (.skipped e.name (.tooLarge size)), true)
          | .ok bytes => walkContent handle e.name relative bytes w

def walkArchive : ℕ → List Entry → Walk σ → Walk σ
  | _, [], w => w
  | index, e :: rest, w =>
    match w.budget.checkEntry with
    | some hit => w.push (laterEntries hit)
    | none =>
      let (next, goesOn) := walkEntry alphanumeric handle index e w
      if goesOn then walkArchive (index + 1) rest next else next

def start (state : σ) : Walk σ := ⟨state, ⟨0, 0, 0, 0, 0, [], 0⟩, ⟨0, 0⟩, 0, 0⟩

/-! What a walk costs. -/

/-- What the walk does for an entry: nothing for a directory; else it reads some bytes, and charges
them to the budget or not. -/
inductive Cost
  | nothing
  | free (bytes : ℕ)
  | charged (bytes : ℕ)
  deriving DecidableEq

def Entry.cost (e : Entry) (state : σ) : Cost × σ :=
  if e.unreadable.isSome then (.free 0, state)
  else if e.isDir then (.nothing, state)
  else
    match e.enclosedName.bind (sanitizeRelative alphanumeric) with
    | none => (.free 0, state)
    | some relative =>
      match readZipEntryLimited e with
      | (count, .error _) => (.free count, state)
      | (count, .ok bytes) =>
        let (state, handled) := handle state relative bytes
        (if (handled.item e.name).isNone then .free count else .charged count, state)

def costs (state : σ) : List Entry → List Cost
  | [] => []
  | e :: archive => (e.cost alphanumeric handle state).1 ::
      costs (e.cost alphanumeric handle state).2 archive

/-- The entries up to the one with which the charged ones go over the budget. -/
def reached (b : Budget) : List Cost → List Cost
  | [] => []
  | cost :: rest =>
    if maxEntries ≤ b.entries then []
    else match cost with
      | .charged bytes => cost :: if maxTotalBytes < b.totalBytes + bytes then [] else
          reached ⟨b.entries + 1, b.totalBytes + bytes⟩ rest
      | _ => cost :: reached b rest

def Cost.freeBytes : Cost → Option ℕ
  | .free bytes => some bytes
  | _ => none

def Cost.chargedBytes : Cost → Option ℕ
  | .charged bytes => some bytes
  | _ => none

/-- What is read of the entries that are not charged, each a number of bytes. -/
def uncharged (archive : List Entry) (state : σ) : List ℕ :=
  (reached ⟨0, 0⟩ (costs alphanumeric handle state archive)).filterMap Cost.freeBytes

def charged (archive : List Entry) (state : σ) : List ℕ :=
  (reached ⟨0, 0⟩ (costs alphanumeric handle state archive)).filterMap Cost.chargedBytes

lemma readZipEntryLimited_ok {e : Entry} {count : ℕ} {bytes : List UInt8}
    (h : readZipEntryLimited e = (count, .ok bytes)) :
    count = bytes.length ∧ bytes.length ≤ maxEntryBytes := by
  unfold readZipEntryLimited at h
  split at h
  · cases h
  · dsimp only at h
    obtain ⟨rfl, h⟩ := Prod.mk.inj h
    split at h
    · cases h
    · split at h
      · cases h
      · next hlimit =>
        cases h
        exact ⟨rfl, not_lt.mp hlimit⟩

lemma walkEntry_cost (index : ℕ) (e : Entry) (w : Walk σ) :
    (walkEntry alphanumeric handle index e w).1.state = (e.cost alphanumeric handle w.state).2 ∧
      match (e.cost alphanumeric handle w.state).1 with
      | .nothing => walkEntry alphanumeric handle index e w = (w, true)
      | .free bytes => ∃ next : Walk σ, walkEntry alphanumeric handle index e w = (next, true) ∧
          next.read = w.read + bytes ∧ next.processed = w.processed + 1 ∧ next.budget = w.budget
      | .charged bytes => bytes ≤ maxEntryBytes ∧ ∃ next : Walk σ,
          walkEntry alphanumeric handle index e w = next.charge bytes ∧
          next.read = w.read + bytes ∧ next.processed = w.processed + 1 ∧ next.budget = w.budget := by
  unfold walkEntry Entry.cost
  cases hreadable : e.unreadable with
  | some error => exact ⟨rfl, _, rfl, rfl, rfl, rfl⟩
  | none =>
    by_cases hdir : e.isDir = true
    · simp [hdir]
    · simp only [hdir, Option.isSome_none, Bool.false_eq_true, if_false]
      cases hname : e.enclosedName with
      | none => refine ⟨rfl, _, rfl, ?_, ?_, ?_⟩ <;> rfl
      | some enclosed =>
        dsimp only [Option.bind_some]
        cases hrelative : sanitizeRelative alphanumeric enclosed with
        | none => refine ⟨rfl, _, rfl, ?_, ?_, ?_⟩ <;> rfl
        | some relative =>
          dsimp only
          rcases hread : readZipEntryLimited e with ⟨count, content⟩
          cases content with
          | error size => refine ⟨rfl, _, rfl, ?_, ?_, ?_⟩ <;> rfl
          | ok bytes =>
            obtain ⟨rfl, hsize⟩ := readZipEntryLimited_ok hread
            dsimp only [walkContent]
            cases hitem : (handle w.state relative bytes).2.item e.name with
            | none => refine ⟨rfl, _, rfl, ?_, ?_, ?_⟩ <;> rfl
            | some item =>
              refine ⟨?_, hsize, _, rfl, ?_, ?_, ?_⟩
              · unfold Walk.charge
                dsimp only
                split <;> rfl
              all_goals rfl

lemma charge_eq {w : Walk σ} {bytes : ℕ} (htotal : w.budget.totalBytes ≤ maxTotalBytes)
    (hbytes : bytes ≤ maxEntryBytes) :
    (w.charge bytes).2 = !decide (maxTotalBytes < w.budget.totalBytes + bytes) ∧
      (w.charge bytes).1.read = w.read ∧ (w.charge bytes).1.processed = w.processed ∧
      (w.charge bytes).1.budget = ⟨w.budget.entries + 1, w.budget.totalBytes + bytes⟩ := by
  -- The sum is far from the largest number.
  have hsum : min (w.budget.totalBytes + bytes) (2 ^ 64 - 1) = w.budget.totalBytes + bytes := by
    simp only [maxTotalBytes, maxEntryBytes] at htotal hbytes
    omega
  simp only [Walk.charge, Budget.record, hsum]
  by_cases hover : maxTotalBytes < w.budget.totalBytes + bytes
  · simp [hover, Walk.push]
  · simp [hover]

lemma walkArchive_costs (archive : List Entry) (index : ℕ) (w : Walk σ)
    (hbudget : w.budget.totalBytes ≤ maxTotalBytes) :
    let paid := reached w.budget (costs alphanumeric handle w.state archive)
    let last := walkArchive alphanumeric handle index archive w
    last.read = w.read + (paid.filterMap Cost.freeBytes).sum + (paid.filterMap Cost.chargedBytes).sum ∧
      last.processed = w.processed + (paid.filterMap Cost.freeBytes).length +
        (paid.filterMap Cost.chargedBytes).length ∧
      (w.budget.entries ≤ maxEntries →
        w.budget.entries + (paid.filterMap Cost.chargedBytes).length ≤ maxEntries) ∧
      w.budget.totalBytes + (paid.filterMap Cost.chargedBytes).sum ≤
        maxTotalBytes + maxEntryBytes := by
  induction archive generalizing index w with
  | nil =>
    simp [walkArchive, costs, reached]
    omega
  | cons e archive ih =>
    obtain ⟨hstate, hcost⟩ := walkEntry_cost alphanumeric handle index e w
    rw [walkArchive, costs, Budget.checkEntry, ← hstate]
    cases hc : (e.cost alphanumeric handle w.state).1 with
    | nothing =>
      rw [hc] at hcost
      by_cases hfull : maxEntries ≤ w.budget.entries
      · simp [hfull, reached, Walk.push]
        omega
      · simpa [hfull, reached, hcost, Cost.freeBytes, Cost.chargedBytes, List.filterMap_cons] using
          ih (index + 1) w hbudget
    | free bytes =>
      rw [hc] at hcost
      obtain ⟨next, hnext, hread, hprocessed, hkept⟩ := hcost
      by_cases hfull : maxEntries ≤ w.budget.entries
      · simp [hfull, reached, Walk.push]
        omega
      have hrest := ih (index + 1) next (hkept ▸ hbudget)
      rw [hkept, hread, hprocessed] at hrest
      simp only [hfull, hnext, reached, if_true, if_false, List.filterMap_cons, Cost.freeBytes,
        Cost.chargedBytes, List.sum_cons, List.length_cons]
      exact ⟨hrest.1.trans (by omega), hrest.2.1.trans (by omega), hrest.2.2⟩
    | charged bytes =>
      rw [hc] at hcost
      obtain ⟨hbytes, next, hnext, hread, hprocessed, hkept⟩ := hcost
      by_cases hfull : maxEntries ≤ w.budget.entries
      · simp [hfull, reached, Walk.push]
        omega
      obtain ⟨hon, hread', hprocessed', hbudget'⟩ := charge_eq (hkept ▸ hbudget) hbytes
      rw [hkept] at hon hbudget'
      by_cases hover : maxTotalBytes < w.budget.totalBytes + bytes
      · simp [hfull, hnext, hon, reached, hover, hread', hprocessed', hread, hprocessed,
          Cost.freeBytes, Cost.chargedBytes, List.filterMap_cons]
        omega
      · have hrest := ih (index + 1) (next.charge bytes).1 (hbudget' ▸ not_lt.mp hover)
        rw [hbudget', hread', hprocessed', hread, hprocessed] at hrest
        obtain ⟨hread, hprocessed, hentries, htotal⟩ := hrest
        simp only [hfull, hnext, hon, reached, hover, decide_false, Bool.not_false, if_true, if_false,
          List.filterMap_cons, Cost.freeBytes, Cost.chargedBytes, List.sum_cons, List.length_cons]
        dsimp only at hentries htotal
        refine ⟨hread.trans (by omega), hprocessed.trans (by omega), fun _ => ?_, by omega⟩
        have := hentries (by omega)
        omega

/-- What is charged stays within the bounds by itself; so the budget bounds the work exactly if the
entries that are not charged leave room for it. -/
theorem walkArchive_bounded_iff (archive : List Entry) (state : σ) :
    ((walkArchive alphanumeric handle 0 archive (start state)).read ≤
        maxTotalBytes + maxEntryBytes + 1 ∧
      (walkArchive alphanumeric handle 0 archive (start state)).processed ≤ maxEntries) ↔
    (uncharged alphanumeric handle archive state).sum ≤
        maxTotalBytes + maxEntryBytes + 1 - (charged alphanumeric handle archive state).sum ∧
      (uncharged alphanumeric handle archive state).length ≤
        maxEntries - (charged alphanumeric handle archive state).length := by
  obtain ⟨hread, hprocessed, hentries, htotal⟩ := walkArchive_costs alphanumeric handle archive 0
    (start state) (Nat.zero_le _)
  rw [hread, hprocessed]
  have hlength := hentries (Nat.zero_le _)
  simp only [start, Nat.zero_add] at hlength htotal ⊢
  unfold uncharged charged
  omega

section TooLarge
variable {e : Entry} {enclosed relative : Text} {count size : ℕ} (hreadable : e.unreadable = none)
  (hfile : e.isDir = false) (hname : e.enclosedName = some enclosed)
  (hrelative : sanitizeRelative alphanumeric enclosed = some relative)
  (hread : readZipEntryLimited e = (count, .error size))
include hreadable hfile hname hrelative hread

lemma walkEntry_tooLarge (index : ℕ) (w : Walk σ) :
    ∃ next, walkEntry alphanumeric handle index e w = (next, true) ∧ next.read = w.read + count ∧
      next.budget = w.budget := by
  simp only [walkEntry, hreadable, hfile, hname, hrelative, hread]
  exact ⟨_, rfl, rfl, rfl⟩

lemma walkArchive_tooLarge (n index : ℕ) {w : Walk σ} (h : w.budget.entries < maxEntries) :
    (walkArchive alphanumeric handle index (List.replicate n e) w).read = w.read + n * count := by
  induction n generalizing index w with
  | zero =>
    rw [Nat.zero_mul]
    rfl
  | succ n ih =>
    obtain ⟨next, hentry, hcount, hbudget⟩ :=
      walkEntry_tooLarge alphanumeric handle hreadable hfile hname hrelative hread index w
    rw [List.replicate_succ, walkArchive, Budget.checkEntry, if_neg (not_le.mpr h), hentry]
    dsimp only
    rw [if_pos rfl, ih (index + 1) (hbudget ▸ h), hcount, Nat.succ_mul]
    omega

end TooLarge

end Walking

def landOnce (known : List Text) (relative : Text) (_ : List UInt8) : List Text × Handled :=
  if known.contains relative then (known, .skipped .alreadyImported)
  else (relative :: known, .landed relative [])

/-- An entry that declares no bytes and has more than may be read. -/
def liar : Entry :=
  ⟨none, false, ['a'], some ['a'], 0, List.replicate (maxEntryBytes + 1) 0, false⟩

lemma readZipEntryLimited_liar :
    readZipEntryLimited liar = (maxEntryBytes + 1, .error (maxEntryBytes + 1)) := by
  have hbuf : (liar.content.take (maxEntryBytes + 1)).length = maxEntryBytes + 1 := by
    rw [liar, List.length_take, List.length_replicate, Nat.min_self]
  have hlimit : maxEntryBytes < maxEntryBytes + 1 := Nat.lt_succ_self _
  simp only [readZipEntryLimited, hbuf, if_pos hlimit]
  rfl

theorem not_walkArchive_bounded :
    ¬ (walkArchive Char.isAlphanum landOnce 0 (List.replicate 42 liar) (start [])).read ≤
      maxTotalBytes + maxEntryBytes + 1 := by
  have hrelative : sanitizeRelative Char.isAlphanum ['a'] = some ['a'] := by decide
  have hread := walkArchive_tooLarge Char.isAlphanum landOnce rfl rfl rfl hrelative
    readZipEntryLimited_liar 42 0 (show (start ([] : List Text)).budget.entries < maxEntries by decide)
  rw [hread, not_le]
  show maxTotalBytes + maxEntryBytes + 1 < 0 + 42 * (maxEntryBytes + 1)
  simp only [maxTotalBytes, maxEntryBytes]
  omega

end Aeroric.NoteImport
