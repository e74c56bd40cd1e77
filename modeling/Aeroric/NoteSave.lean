import Aeroric.Runs
import Mathlib.Data.Fintype.Pi
import Mathlib.Logic.Function.Basic

/-! Several editors of one note, each with the signature of the content it has seen, and other
programs that write the file. A save that is not forced looks at the file first and is refused when
the file has changed since. Every step that touches the file is taken on its own. -/
namespace Aeroric.NoteSave

/-- FNV-1a in 64 bits. -/
def hash64 (bytes : List UInt8) : UInt64 :=
  bytes.foldl (fun hash byte => (hash ^^^ byte.toUInt64) * 0x100000001b3) 0xcbf29ce484222325

def hashText (bytes : List UInt8) : String := (hash64 bytes).toNat.repr

structure FileSig where
  mtimeMs : ℤ
  hash : String
  deriving DecidableEq, Repr

structure File where
  content : List UInt8
  mtimeMs : ℤ
  deriving DecidableEq, Repr

/-- The file of the note, and the signature the process keeps of it. -/
structure Shared where
  file : Option File := none
  opened : Option FileSig := none
  deriving DecidableEq, Repr

def stale (disk : FileSig) : Option FileSig → Bool
  | some base => disk.hash ≠ base.hash && disk.mtimeMs ≠ base.mtimeMs
  | none => true

structure Save where
  content : List UInt8
  expected : FileSig
  deriving DecidableEq, Repr

/-- The next thing a call of `read_note` or `save_note` does with the file. -/
inductive Phase
  | idle
  | readMeta
  | readHash (mtimeMs : ℤ)
  | readRecord (sig : FileSig)
  | saveExists (save : Save)
  | saveMeta (save : Save)
  | saveHash (save : Save) (mtimeMs : ℤ)
  | saveWrite (save : Save) (found : Option FileSig)
  | saveSign (save : Save) (found : Option FileSig) (replaced : Option (List UInt8))
  | saveRecord (save : Save) (found : Option FileSig) (replaced : Option (List UInt8))
      (sig : FileSig)
  deriving DecidableEq, Repr

inductive SaveOutcome
  | saved (sig : FileSig)
  | conflict (disk : FileSig)
  | error
  deriving DecidableEq, Repr

/-- What came of a save: the signature it was given, the one it found, the content it replaced, and
whether it changed the file or the signature kept of it. -/
structure Outcome where
  result : SaveOutcome
  expected : FileSig
  found : Option FileSig
  replaced : Option (List UInt8) := none
  touched : Bool := false
  deriving DecidableEq, Repr

/-- An editor has the signature that its last read or save returned. -/
structure Editor where
  expected : Option FileSig := none
  phase : Phase := .idle
  touched : Bool := false
  deriving DecidableEq, Repr

def Phase.failed : Phase → Option Outcome
  | .saveExists save | .saveMeta save | .saveHash save _ =>
    some { result := .error, expected := save.expected, found := none }
  | .saveWrite save found =>
    some { result := .error, expected := save.expected, found := found }
  | .saveSign save found replaced | .saveRecord save found replaced _ =>
    some { result := .error, expected := save.expected, found := found, replaced := replaced }
  | _ => none

def Editor.fail (editor : Editor) : Editor × Option Outcome :=
  ({ editor with phase := .idle }, editor.phase.failed)

def Editor.goes (editor : Editor) (phase : Phase) : Editor × Option Outcome :=
  ({ editor with phase := phase }, none)

/-- One step of a call. A file that is written gets the given time. -/
def Editor.advance (written : ℤ) (shared : Shared) (editor : Editor) :
    Shared × Editor × Option Outcome :=
  match editor.phase with
  | .idle => (shared, editor, none)
  | .readMeta =>
    match shared.file with
    | none => (shared, editor.fail)
    | some file => (shared, editor.goes (.readHash file.mtimeMs))
  | .readHash mtimeMs =>
    match shared.file with
    | none => (shared, editor.fail)
    | some file => (shared, editor.goes (.readRecord ⟨mtimeMs, hashText file.content⟩))
  | .readRecord sig =>
    ({ shared with opened := some sig }, { editor with expected := some sig, phase := .idle }, none)
  | .saveExists save =>
    (shared, editor.goes (if shared.file.isSome then .saveMeta save else .saveWrite save none))
  | .saveMeta save =>
    match shared.file with
    | none => (shared, editor.fail)
    | some file => (shared, editor.goes (.saveHash save file.mtimeMs))
  | .saveHash save mtimeMs =>
    match shared.file with
    | none => (shared, editor.fail)
    | some file =>
      let disk : FileSig := ⟨mtimeMs, hashText file.content⟩
      let baseline := (some save.expected).or shared.opened
      if stale disk baseline then
        (shared, { editor with phase := .idle },
          some { result := .conflict disk, expected := save.expected, found := some disk })
      else (shared, editor.goes (.saveWrite save (some disk)))
  | .saveWrite save found =>
    ({ shared with file := some ⟨save.content, written⟩ },
      editor.goes (.saveSign save found (shared.file.map File.content)))
  | .saveSign save found replaced =>
    match shared.file with
    | none => (shared, editor.fail)
    | some file =>
      -- the time is the file's, the content is taken to be what was written
      (shared, editor.goes (.saveRecord save found replaced ⟨file.mtimeMs, hashText save.content⟩))
  | .saveRecord save found replaced sig =>
    ({ shared with opened := some sig }, { editor with expected := some sig, phase := .idle },
      some
        { result := .saved sig, expected := save.expected, found := found, replaced := replaced })

structure World (ι : Type) where
  shared : Shared := {}
  editors : ι → Editor := fun _ => {}
  outcomes : List Outcome := []

/-- Other programs write and remove the file; an editor calls, and its call goes on, or fails. -/
inductive Label (ι : Type)
  | write (content : List UInt8) (mtimeMs : ℤ)
  | remove
  | read (e : ι)
  | save (e : ι) (content : List UInt8)
  | go (e : ι) (written : ℤ)
  | fail (e : ι)
  deriving DecidableEq, Repr

namespace World
variable {ι : Type} [DecidableEq ι]

def setEditor (w : World ι) (e : ι) (editor : Editor) : World ι :=
  { w with editors := Function.update w.editors e editor }

/-- An editor makes a call when it has none under way; it saves when it has a signature to give. -/
def call (w : World ι) (e : ι) (phase : Option Phase) : World ι :=
  match (w.editors e).phase, phase with
  | .idle, some phase => w.setEditor e { w.editors e with phase := phase, touched := false }
  | _, _ => w

/-- What a step of a call leaves behind. -/
def settle (w : World ι) (e : ι) (shared : Shared) (editor : Editor) (outcome : Option Outcome) :
    World ι :=
  let touched := editor.touched || shared ≠ w.shared
  { w.setEditor e { editor with touched := touched } with
    shared := shared
    outcomes := w.outcomes ++ (outcome.map ({ · with touched := touched })).toList }

def step (w : World ι) : Label ι → World ι
  | .write content mtimeMs => { w with shared.file := some ⟨content, mtimeMs⟩ }
  | .remove => { w with shared.file := none }
  | .read e => w.call e (some .readMeta)
  | .save e content =>
    w.call e ((w.editors e).expected.map fun expected => .saveExists ⟨content, expected⟩)
  | .go e written =>
    let (shared, editor, outcome) := (w.editors e).advance written w.shared
    w.settle e shared editor outcome
  | .fail e =>
    let (editor, outcome) := (w.editors e).fail
    w.settle e w.shared editor outcome

end World

/-- No update was lost: a save that succeeded has replaced content with the hash it was given, and
one that found another hash was refused and has changed nothing. -/
structure Outcome.Sound (o : Outcome) : Prop where
  replaced : ∀ sig, o.result = .saved sig →
    ∀ content ∈ o.replaced, hashText content = o.expected.hash
  refused : ∀ disk ∈ o.found, disk.hash ≠ o.expected.hash →
    o.result = .conflict disk ∧ o.touched = false

def World.NoLostUpdate {ι : Type} (w : World ι) : Prop := ∀ o ∈ w.outcomes, o.Sound

def Phase.looking : Phase → Bool
  | .saveHash .. | .saveWrite .. => true
  | _ => false

/-- Where a save reads the file, the time it was given goes with the hash it was given; and nobody
writes the file while a save is looking. -/
def World.Undisturbed {ι : Type} (w : World ι) : Label ι → Prop
  | .write .. | .remove => ∀ e, (w.editors e).phase.looking = false
  | .go e _ =>
    match (w.editors e).phase with
    | .saveHash save _ => ∀ file ∈ w.shared.file, file.mtimeMs = save.expected.mtimeMs →
        hashText file.content = save.expected.hash
    | .saveWrite .. => ∀ other, other ≠ e → (w.editors other).phase.looking = false
    | _ => True
  | _ => True

instance {ι : Type} [Fintype ι] [DecidableEq ι] (w : World ι) :
    (label : Label ι) → Decidable (w.Undisturbed label)
  | .write .. | .remove => inferInstanceAs (Decidable (∀ e, (w.editors e).phase.looking = false))
  | .go e _ => by
    unfold World.Undisturbed
    dsimp only
    split <;> infer_instance
  | .read _ | .save .. | .fail _ => .isTrue trivial

/-- What a save under way has established: before it looks it has changed nothing; after that the
file is as it has seen it; when it has written, what it replaced had the hash it was given. -/
def Phase.Fits (file : Option File) (touched : Bool) : Phase → Prop
  | .saveExists _ | .saveMeta _ => touched = false
  | .saveHash _ mtimeMs => touched = false ∧ ∀ f ∈ file, f.mtimeMs = mtimeMs
  | .saveWrite save found =>
    (∀ f ∈ file, hashText f.content = save.expected.hash) ∧
      ∀ disk ∈ found, disk.hash = save.expected.hash
  | .saveSign save found replaced | .saveRecord save found replaced _ =>
    (∀ content ∈ replaced, hashText content = save.expected.hash) ∧
      ∀ disk ∈ found, disk.hash = save.expected.hash
  | _ => True

lemma Phase.Fits.of_not_looking {phase : Phase} {file file' : Option File} {touched : Bool}
    (h : phase.Fits file touched) (hlooking : phase.looking = false) :
    phase.Fits file' touched := by
  cases phase <;> first | exact h | cases hlooking

lemma stale_eq_false {disk base : FileSig} :
    stale disk (some base) = false ↔ disk.hash = base.hash ∨ disk.mtimeMs = base.mtimeMs := by
  simp [stale, or_iff_not_imp_left]

lemma Outcome.Sound.of_found {o : Outcome} (hsaved : ∀ sig, o.result = .saved sig →
      ∀ content ∈ o.replaced, hashText content = o.expected.hash)
    (hfound : ∀ disk ∈ o.found, disk.hash = o.expected.hash) : o.Sound :=
  ⟨hsaved, fun disk hdisk hne => absurd (hfound disk hdisk) hne⟩

lemma Phase.Fits.failed {phase : Phase} {file : Option File} {touched : Bool}
    (h : phase.Fits file touched) {o : Outcome} (ho : phase.failed = some o) (b : Bool) :
    Outcome.Sound { o with touched := b } := by
  cases phase with
  | idle | readMeta | readHash | readRecord => cases ho
  | saveExists | saveMeta | saveHash =>
    obtain rfl := Option.some.inj ho
    exact .of_found (by simp) (by simp)
  | saveWrite | saveSign | saveRecord =>
    obtain rfl := Option.some.inj ho
    exact .of_found (by simp) h.2

namespace Editor
variable {editor : Editor} {shared : Shared} {written : ℤ}

/-- The next step of a save is not misled by the time of the file. -/
def Trusts (shared : Shared) (editor : Editor) : Prop :=
  ∀ save mtimeMs, editor.phase = .saveHash save mtimeMs → ∀ file ∈ shared.file,
    file.mtimeMs = save.expected.mtimeMs → hashText file.content = save.expected.hash

lemma advance_file (h : ∀ save found, editor.phase ≠ .saveWrite save found) :
    (editor.advance written shared).1.file = shared.file := by
  fun_cases advance written shared editor
  case case13 save found hphase => exact absurd hphase (h save found)
  all_goals rfl

lemma advance_fits (h : editor.phase.Fits shared.file editor.touched)
    (htrusts : editor.Trusts shared) :
    (editor.advance written shared).2.1.phase.Fits (editor.advance written shared).1.file
      ((editor.advance written shared).2.1.touched ||
        (editor.advance written shared).1 ≠ shared) := by
  fun_cases advance written shared editor
  case case7 save hphase =>
    rw [hphase] at h
    cases hfile : shared.file with
    | none => simp [goes, Phase.Fits]
    | some file => simpa [goes, Phase.Fits] using h
  case case9 save hphase file hfile =>
    rw [hphase] at h
    simpa [goes, Phase.Fits, hfile] using h
  case case12 save mtimeMs hphase file hfile disk baseline hstale =>
    -- the hash agrees, or else the time does and is trusted
    rw [hphase, hfile] at h
    have hagree : hashText file.content = save.expected.hash := by
      rcases stale_eq_false.mp (by simpa [baseline] using hstale) with hhash | htime
      · exact hhash
      · refine htrusts save mtimeMs hphase file hfile ?_
        rw [h.2 file rfl]
        exact htime
    simpa [goes, Phase.Fits, hfile, disk] using hagree
  case case13 save found hphase =>
    rw [hphase] at h
    refine ⟨fun content hcontent => ?_, h.2⟩
    obtain ⟨file, hfile, rfl⟩ := Option.map_eq_some_iff.mp hcontent
    exact h.1 file hfile
  case case15 hphase _ _ =>
    rw [hphase] at h
    exact h
  all_goals simp_all [goes, fail, Phase.Fits]

lemma advance_sound (h : editor.phase.Fits shared.file editor.touched) {o : Outcome}
    (ho : (editor.advance written shared).2.2 = some o) :
    Outcome.Sound { o with
      touched := (editor.advance written shared).2.1.touched ||
        (editor.advance written shared).1 ≠ shared } := by
  revert ho
  fun_cases advance written shared editor
  case case11 save mtimeMs hphase file hfile disk baseline hstale =>
    intro ho
    obtain rfl := Option.some.inj ho
    rw [hphase] at h
    exact ⟨by simp, fun found hfound _ => by
      obtain rfl := Option.some.inj hfound
      exact ⟨rfl, by simpa using h.1⟩⟩
  case case16 hphase =>
    intro ho
    obtain rfl := Option.some.inj ho
    rw [hphase] at h
    exact .of_found (fun _ _ => h.1) h.2
  case case2 | case4 | case8 | case10 | case14 => exact fun ho => h.failed ho _
  all_goals exact fun ho => by cases ho

end Editor
namespace World
variable {ι : Type} {w : World ι}

structure Sound (w : World ι) : Prop where
  outcomes : w.NoLostUpdate
  fits : ∀ e, (w.editors e).phase.Fits w.shared.file (w.editors e).touched

namespace Sound

lemma begin (shared : Shared) : Sound ({ shared := shared } : World ι) :=
  ⟨by simp [NoLostUpdate], fun _ => trivial⟩

lemma setFile (h : w.Sound) (file : Option File)
    (hlooking : ∀ e, (w.editors e).phase.looking = false) :
    Sound { w with shared.file := file } :=
  ⟨h.outcomes, fun e => (h.fits e).of_not_looking (hlooking e)⟩

variable [DecidableEq ι]

lemma call (h : w.Sound) (e : ι) {phase : Option Phase}
    (hfits : ∀ p ∈ phase, p.Fits w.shared.file false) : (w.call e phase).Sound := by
  unfold World.call
  split
  · refine ⟨h.outcomes, fun other => ?_⟩
    by_cases hother : other = e
    · subst hother
      simpa [setEditor] using hfits _ rfl
    · simpa [setEditor, hother] using h.fits other
  · exact h

/-- A step of a call: the editor's own save is in order, and where the file changes no other save is
looking. -/
lemma settle (h : w.Sound) (e : ι) {shared : Shared} {editor : Editor} {outcome : Option Outcome}
    (hfits : editor.phase.Fits shared.file (editor.touched || shared ≠ w.shared))
    (hsound : ∀ o ∈ outcome,
      Outcome.Sound { o with touched := editor.touched || shared ≠ w.shared })
    (hothers : shared.file = w.shared.file ∨
      ∀ other, other ≠ e → (w.editors other).phase.looking = false) :
    (w.settle e shared editor outcome).Sound := by
  refine ⟨fun o ho => ?_, fun other => ?_⟩
  · rcases List.mem_append.mp ho with ho | ho
    · exact h.outcomes o ho
    · obtain ⟨o, hmem, rfl⟩ := Option.map_eq_some_iff.mp (Option.mem_toList.mp ho)
      exact hsound o hmem
  · by_cases hother : other = e
    · subst hother
      simpa [World.settle, setEditor] using hfits
    · have hsame := h.fits other
      rw [World.settle]
      simp only [setEditor, Function.update_of_ne hother]
      rcases hothers with hfile | hlooking
      · rwa [hfile]
      · exact hsame.of_not_looking (hlooking other hother)

lemma go (h : w.Sound) {e : ι} {written : ℤ} (hundisturbed : w.Undisturbed (.go e written)) :
    (w.step (.go e written)).Sound := by
  simp only [Undisturbed] at hundisturbed
  refine h.settle e (Editor.advance_fits (h.fits e) ?_)
    (fun o ho => Editor.advance_sound (h.fits e) ho) ?_
  · intro save mtimeMs hphase
    simpa only [hphase] using hundisturbed
  · by_cases hwrites : ∃ save found, (w.editors e).phase = .saveWrite save found
    · obtain ⟨save, found, hphase⟩ := hwrites
      right
      simpa only [hphase] using hundisturbed
    · left
      exact Editor.advance_file fun save found hphase => hwrites ⟨save, found, hphase⟩

lemma step (h : w.Sound) {label : Label ι} (hundisturbed : w.Undisturbed label) :
    (w.step label).Sound := by
  cases label with
  | write content mtimeMs => exact h.setFile _ hundisturbed
  | remove => exact h.setFile _ hundisturbed
  | read e => exact h.call e (by rintro p ⟨⟩; trivial)
  | save e content =>
    refine h.call e fun p hp => ?_
    obtain ⟨expected, -, rfl⟩ := Option.map_eq_some_iff.mp hp
    rfl
  | go e written => exact h.go hundisturbed
  | fail e =>
    refine h.settle e ?_ (fun o ho => (h.fits e).failed ho _) (.inl rfl)
    trivial

end Sound

variable [DecidableEq ι]

/-- No update is lost in a run in which no save is misled by the time of the file and nobody writes
the file while a save is looking. -/
theorem noLostUpdate_of_undisturbed (shared : Shared) (labels : List (Label ι))
    (h : Along step Undisturbed { shared := shared } labels) :
    (labels.foldl step { shared := shared }).NoLostUpdate :=
  (Along.invariant (I := Sound) (Along.iff.mp h) (Sound.begin shared)
    (fun _ _ hs hundisturbed => hs.step hundisturbed) List.prefix_rfl).outcomes

/-- Two editors read a note; the first saves, and the second is told that the note has changed. -/
theorem noLostUpdate_of_undisturbed_twoEditors :
    Along step Undisturbed ({ shared := { file := some ⟨[97], 1⟩ } } : World (Fin 2))
        [.read 0, .go 0 0, .go 0 0, .go 0 0, .read 1, .go 1 0, .go 1 0, .go 1 0,
          .save 0 [98], .go 0 0, .go 0 0, .go 0 0, .go 0 2, .go 0 0, .go 0 0,
          .save 1 [99], .go 1 0, .go 1 0, .go 1 0] ∧
      ([Label.read 0, .go 0 0, .go 0 0, .go 0 0, .read 1, .go 1 0, .go 1 0, .go 1 0,
        .save 0 [98], .go 0 0, .go 0 0, .go 0 0, .go 0 2, .go 0 0, .go 0 0,
        .save 1 [99], .go 1 0, .go 1 0, .go 1 0].foldl step
        ({ shared := { file := some ⟨[97], 1⟩ } } : World (Fin 2))).NoLostUpdate :=
  ⟨by decide +kernel, noLostUpdate_of_undisturbed _ _ (by decide +kernel)⟩

/-- A note is read and then written by another program within the same millisecond. The editor's
save takes the file to be unchanged, and what the program wrote is gone. -/
theorem not_noLostUpdate_sameMillisecond :
    ¬([Label.read 0, .go 0 0, .go 0 0, .go 0 0, .write [98] 1,
      .save 0 [99], .go 0 0, .go 0 0, .go 0 0, .go 0 2, .go 0 0, .go 0 0].foldl step
      ({ shared := { file := some ⟨[97], 1⟩ } } : World (Fin 1))).NoLostUpdate := by
  intro h
  have hsaved := h
    ⟨.saved ⟨2, hashText [99]⟩, ⟨1, hashText [97]⟩, some ⟨1, hashText [98]⟩, some [98], true⟩
    (by decide +kernel)
  have hsame : hashText [98] = hashText [97] := hsaved.replaced _ rfl [98] rfl
  revert hsame
  decide +kernel

end World
end Aeroric.NoteSave
