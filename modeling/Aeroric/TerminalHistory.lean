import Aeroric.Utf8

/-! The file that keeps the end of a terminal's output. -/
namespace Aeroric.Terminal
open Utf8

structure HistoryRetention where
  maxBytes : ℕ
  slackBytes : ℕ

namespace HistoryRetention

def highWater (retention : HistoryRetention) : ℕ := retention.maxBytes + retention.slackBytes

def needsCompaction (retention : HistoryRetention) (currentLen incomingLen : ℕ) : Bool :=
  retention.highWater < currentLen + incomingLen

def diskTailBytes (retention : HistoryRetention) (incomingKeptLen : ℕ) : ℕ :=
  retention.maxBytes - incomingKeptLen

end HistoryRetention

def utf8TailBytes (bytes : List UInt8) (maxBytes : ℕ) : List UInt8 :=
  if bytes.length ≤ maxBytes then bytes
  else (bytes.drop (bytes.length - maxBytes)).dropWhile isContinuation

/-- Inside a text the bytes that continue a character are those that are no boundary. -/
def utf8TailStr (data : List UInt8) (maxBytes : ℕ) : List UInt8 :=
  if data.length ≤ maxBytes then data
  else (data.drop (data.length - maxBytes)).dropWhile isContinuation

def skipLeadingUtf8Continuations (bytes : List UInt8) (maxSkip : ℕ) : ℕ :=
  ((bytes.take maxSkip).takeWhile isContinuation).length

/-- A file that is not there has no history. -/
def readTerminalHistoryTail (file : Option (List UInt8)) (maxBytes : ℕ) : List UInt8 :=
  match file with
  | none => []
  | some content =>
    let bytes := content.drop (content.length - maxBytes)
    fromUtf8Lossy (bytes.drop (skipLeadingUtf8Continuations bytes 4))

def appendTerminalHistory (retention : HistoryRetention) (file : Option (List UInt8))
    (data : List UInt8) : Option (List UInt8) :=
  if data = [] then file
  else if !retention.needsCompaction (file.getD []).length data.length then
    some (file.getD [] ++ data)
  else
    let incoming := utf8TailStr data retention.maxBytes
    let tail := readTerminalHistoryTail file (retention.diskTailBytes incoming.length)
    some (utf8TailBytes (tail ++ incoming) retention.maxBytes)

def appendAll (retention : HistoryRetention) (file : Option (List UInt8))
    (fragments : List (List UInt8)) : Option (List UInt8) :=
  fragments.foldl (appendTerminalHistory retention) file

/-- The file is the end of the output from a character on, and not less of it than the limit says. -/
structure Kept (maxBytes : ℕ) (output file : List UInt8) : Prop where
  ends : file <:+ output
  valid : Valid file
  enough : min output.length (maxBytes - 3) ≤ file.length

/-- A fragment that makes the file be compacted and is longer than the limit itself is cut between two
characters, or else the file has nothing to fill up what the cut leaves free. -/
def CutsClean (retention : HistoryRetention) (file : Option (List UInt8)) (data : List UInt8) : Prop :=
  retention.needsCompaction (file.getD []).length data.length = true →
    retention.maxBytes < data.length →
    (∀ b ∈ data[data.length - retention.maxBytes]?, isContinuation b = false) ∨
      readTerminalHistoryTail file
        (retention.diskTailBytes (utf8TailStr data retention.maxBytes).length) = []

lemma takeWhile_take {bytes : List UInt8} {n : ℕ} (h : (bytes.takeWhile isContinuation).length < n) :
    (bytes.take n).takeWhile isContinuation = bytes.takeWhile isContinuation := by
  induction bytes generalizing n with
  | nil => simp
  | cons b bytes ih =>
    cases n with
    | zero => omega
    | succ n =>
      rw [List.take_succ_cons, List.takeWhile_cons, List.takeWhile_cons]
      by_cases hb : isContinuation b = true
      · rw [if_pos hb, if_pos hb, ih]
        rw [List.takeWhile_cons, if_pos hb, List.length_cons] at h
        omega
      · rw [if_neg hb, if_neg hb]

/-- What is read of a file: its end, without the bytes of a character that was cut. -/
lemma readTerminalHistoryTail_spec {content : List UInt8} (h : Valid content) (maxBytes : ℕ) :
    readTerminalHistoryTail (some content) maxBytes <:+ content ∧
      Valid (readTerminalHistoryTail (some content) maxBytes) ∧
      (readTerminalHistoryTail (some content) maxBytes).length ≤ maxBytes ∧
      (maxBytes < content.length →
        maxBytes - 3 ≤ (readTerminalHistoryTail (some content) maxBytes).length) ∧
      (content.length ≤ maxBytes → readTerminalHistoryTail (some content) maxBytes = content) := by
  obtain ⟨hthree, hvalid⟩ := h.cut (content.length - maxBytes)
  unfold readTerminalHistoryTail skipLeadingUtf8Continuations
  dsimp only
  rw [takeWhile_take (by omega)]
  generalize hbytes : content.drop (content.length - maxBytes) = bytes at hthree hvalid ⊢
  have hlength : bytes.length = content.length - (content.length - maxBytes) := by
    rw [← hbytes, List.length_drop]
  have hdrop : bytes.drop (bytes.takeWhile isContinuation).length = bytes.dropWhile isContinuation := by
    have hleft := @List.drop_left _ (bytes.takeWhile isContinuation) (bytes.dropWhile isContinuation)
    rwa [List.takeWhile_append_dropWhile] at hleft
  have hsum : (bytes.takeWhile isContinuation).length + (bytes.dropWhile isContinuation).length =
      bytes.length := by
    rw [← List.length_append, List.takeWhile_append_dropWhile]
  rw [hdrop, hvalid.fromUtf8Lossy]
  refine ⟨?_, hvalid, by omega, fun hlt => by omega, fun hle => ?_⟩
  · exact (List.dropWhile_suffix _).trans (hbytes ▸ List.drop_suffix _ _)
  · -- the file is read from its beginning, and that is a character
    rw [Nat.sub_eq_zero_of_le hle, List.drop_zero] at hbytes
    subst hbytes
    cases content with
    | nil => rfl
    | cons b content => rw [List.dropWhile_cons_of_neg (by simp [h.head b rfl])]

lemma suffix_append {file output tail : List UInt8} (h : file <:+ output) (htail : tail <:+ file)
    (data : List UInt8) : tail ++ data <:+ output ++ data := by
  obtain ⟨front, rfl⟩ := htail.trans h
  exact ⟨front, by rw [List.append_assoc]⟩

/-- A fragment that fits is written after as much of the file as the limit leaves. -/
lemma compacted_fits {maxBytes : ℕ} {output data : List UInt8} {file : Option (List UInt8)}
    (hkept : Kept maxBytes output (file.getD [])) (hdata : Valid data) (hfits : data.length ≤ maxBytes) :
    let tail := readTerminalHistoryTail file (maxBytes - data.length)
    Kept maxBytes (output ++ data) (tail ++ data) ∧ (tail ++ data).length ≤ maxBytes := by
  intro tail
  obtain ⟨hends, hvalid, henough⟩ := hkept
  obtain ⟨htail, htailValid, hshort, hlong, hall⟩ : tail <:+ file.getD [] ∧ Valid tail ∧
      tail.length ≤ maxBytes - data.length ∧
      (maxBytes - data.length < (file.getD []).length → maxBytes - data.length - 3 ≤ tail.length) ∧
      ((file.getD []).length ≤ maxBytes - data.length → tail = file.getD []) := by
    cases file with
    | none => exact ⟨List.suffix_refl _, .nil, by simp [tail, readTerminalHistoryTail], by simp, fun _ => rfl⟩
    | some content => exact readTerminalHistoryTail_spec hvalid _
  refine ⟨⟨suffix_append hends htail data, htailValid.append hdata, ?_⟩, ?_⟩
  · by_cases hle : (file.getD []).length ≤ maxBytes - data.length
    · rw [hall hle]
      simp only [List.length_append]
      omega
    · have htailLong := hlong (by omega)
      simp only [List.length_append]
      omega
  · rw [List.length_append]
    omega

lemma compacted_cut {maxBytes : ℕ} (output : List UInt8) {data : List UInt8} (hdata : Valid data)
    (hlong : maxBytes < data.length) :
    Kept maxBytes (output ++ data) (utf8TailStr data maxBytes) ∧
      (utf8TailStr data maxBytes).length ≤ maxBytes := by
  obtain ⟨hthree, hvalid⟩ := hdata.cut (data.length - maxBytes)
  have hsum := congrArg List.length (List.takeWhile_append_dropWhile (p := isContinuation)
    (l := data.drop (data.length - maxBytes)))
  rw [List.length_append, List.length_drop] at hsum
  rw [utf8TailStr, if_neg (by omega)]
  refine ⟨⟨?_, hvalid, by omega⟩, by omega⟩
  exact (List.dropWhile_suffix _).trans ((List.drop_suffix _ _).trans (List.suffix_append _ _))

lemma length_utf8TailStr {maxBytes : ℕ} {data : List UInt8} (hlong : maxBytes < data.length)
    (hclean : ∀ b ∈ data[data.length - maxBytes]?, isContinuation b = false) :
    (utf8TailStr data maxBytes).length = maxBytes := by
  rw [utf8TailStr, if_neg (by omega)]
  cases hdrop : data.drop (data.length - maxBytes) with
  | nil =>
    have := congrArg List.length hdrop
    simp only [List.length_drop, List.length_nil] at this
    simp only [List.dropWhile_nil, List.length_nil]
    omega
  | cons b rest =>
    have hb : data[data.length - maxBytes]? = some b := by
      rw [← List.head?_drop, hdrop, List.head?_cons]
    rw [List.dropWhile_cons_of_neg (by simp [hclean b hb]), ← hdrop, List.length_drop]
    omega

/-- So beside the end of a fragment that cuts clean nothing of the file is kept. -/
lemma CutsClean.tail {retention : HistoryRetention} {file : Option (List UInt8)} {data : List UInt8}
    (h : CutsClean retention file data)
    (hneeds : retention.needsCompaction (file.getD []).length data.length = true)
    (hlong : retention.maxBytes < data.length) :
    readTerminalHistoryTail file
      (retention.diskTailBytes (utf8TailStr data retention.maxBytes).length) = [] := by
  rcases h hneeds hlong with hclean | htail
  · rw [length_utf8TailStr hlong hclean, HistoryRetention.diskTailBytes, Nat.sub_self]
    cases file with
    | none => rfl
    | some content => simp [readTerminalHistoryTail, fromUtf8Lossy, lossy]
  · exact htail

lemma append_kept {retention : HistoryRetention} {output data : List UInt8}
    {file : Option (List UInt8)} (hkept : Kept retention.maxBytes output (file.getD []))
    (hdata : Valid data) (hne : data ≠ []) (hclean : CutsClean retention file data) :
    ∃ content, appendTerminalHistory retention file data = some content ∧
      Kept retention.maxBytes (output ++ data) content ∧
      content.length ≤ retention.maxBytes + retention.slackBytes := by
  unfold appendTerminalHistory
  rw [if_neg hne]
  split
  · next hroom =>
    obtain ⟨hends, hvalid, henough⟩ := hkept
    refine ⟨_, rfl, ⟨suffix_append hends (List.suffix_refl _) data, hvalid.append hdata, ?_⟩, ?_⟩
    · simp only [List.length_append]
      omega
    · have hwater := of_decide_eq_false ((Bool.not_eq_true' _).mp hroom)
      rw [HistoryRetention.highWater] at hwater
      rw [List.length_append]
      omega
  · next hneeds =>
    refine ⟨_, rfl, ?_⟩
    by_cases hfits : data.length ≤ retention.maxBytes
    · obtain ⟨hkept, hle⟩ := compacted_fits hkept hdata hfits
      have hincoming : utf8TailStr data retention.maxBytes = data := if_pos hfits
      rw [HistoryRetention.diskTailBytes, hincoming, utf8TailBytes, if_pos hle]
      exact ⟨hkept, by omega⟩
    · obtain ⟨hcut, hle⟩ := compacted_cut output hdata (not_le.mp hfits)
      rw [hclean.tail (by simpa using hneeds) (by omega), List.nil_append, utf8TailBytes, if_pos hle]
      exact ⟨hcut, by omega⟩

/-- Whatever is written in fragments that cut clean when they come: after each call the file is the end of all
output from a character on, it is no longer than the limit and the slack together, and at most three
bytes less than the limit of the output are there, or all of it. -/
theorem history_keeps_end (retention : HistoryRetention) (output : List UInt8)
    (file : Option (List UInt8)) (hkept : Kept retention.maxBytes output (file.getD []))
    {fragments : List (List UInt8)} (hfragments : ∀ data ∈ fragments, Valid data ∧ data ≠ [])
    (hcuts : ∀ earlier data, earlier ++ [data] <+: fragments →
      CutsClean retention (appendAll retention file earlier) data) :
    ∀ called, called <+: fragments → called ≠ [] →
      ∃ content, appendAll retention file called = some content ∧
        Kept retention.maxBytes (output ++ called.flatten) content ∧
        content.length ≤ retention.maxBytes + retention.slackBytes := by
  intro called
  induction called using List.reverseRecOn with
  | nil => exact fun _ hne => absurd rfl hne
  | append_singleton called data ih =>
    intro hcalled _
    obtain ⟨hdata, hne⟩ := hfragments data (hcalled.subset (by simp))
    have hbefore : Kept retention.maxBytes (output ++ called.flatten)
        ((appendAll retention file called).getD []) := by
      by_cases hnil : called = []
      · subst hnil
        simpa [appendAll] using hkept
      · obtain ⟨content, hcontent, hkept, -⟩ := ih ((List.prefix_append _ _).trans hcalled) hnil
        rw [hcontent]
        exact hkept
    obtain ⟨content, hcontent, hkept, hle⟩ := append_kept hbefore hdata hne (hcuts called data hcalled)
    refine ⟨content, ?_, ?_, hle⟩
    · rw [← hcontent, appendAll, List.foldl_concat]
      rfl
    · rwa [List.flatten_concat, ← List.append_assoc]

/-- Three fragments, with a character of two bytes that the last call cuts. -/
theorem history_keeps_end_compacted :
    appendAll ⟨4, 1⟩ none [[0xC3, 0xA9], [0x61, 0x62], [0x63, 0x64]] = some [0x61, 0x62, 0x63, 0x64] ∧
      Kept 4 [0xC3, 0xA9, 0x61, 0x62, 0x63, 0x64] [0x61, 0x62, 0x63, 0x64] := by
  have hvalid : ∀ data ∈ [[0xC3, 0xA9], [0x61, 0x62], [(0x63 : UInt8), 0x64]],
      Valid data ∧ data ≠ [] := by
    simp only [List.forall_mem_cons]
    exact ⟨⟨.character rfl .nil, by decide⟩, ⟨.character rfl (.character rfl .nil), by decide⟩,
      ⟨.character rfl (.character rfl .nil), by decide⟩, by simp⟩
  have hshort : ∀ data ∈ [[0xC3, 0xA9], [0x61, 0x62], [(0x63 : UInt8), 0x64]], data.length ≤ 4 := by
    decide
  obtain ⟨content, hcontent, hkept, -⟩ := history_keeps_end ⟨4, 1⟩ [] none
    ⟨List.suffix_refl _, .nil, by simp⟩ hvalid
    (fun _ data hpre _ hlong => absurd (hshort data (hpre.subset (by simp))) (not_le.mpr hlong))
    _ (List.prefix_refl _) (by simp)
  have hvalue : appendAll ⟨4, 1⟩ none [[0xC3, 0xA9], [0x61, 0x62], [0x63, 0x64]] =
      some [0x61, 0x62, 0x63, 0x64] := by decide
  rw [hvalue] at hcontent
  cases hcontent
  exact ⟨hvalue, hkept⟩

/-- A long fragment that is cut inside a character: the file keeps a byte from before the fragment
and loses what stands between. -/
theorem cut_glues :
    appendTerminalHistory ⟨3, 0⟩ (some [0x78]) [0xC3, 0xA9, 0xC3, 0xA9] = some [0x78, 0xC3, 0xA9] ∧
      ¬[0x78, 0xC3, 0xA9] <:+ [0x78] ++ [0xC3, 0xA9, 0xC3, (0xA9 : UInt8)] := by
  decide

end Aeroric.Terminal
