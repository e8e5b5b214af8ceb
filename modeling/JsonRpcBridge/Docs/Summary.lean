import JsonRpcBridge.Docs.Text

/-!
# Summaries

`summary` is a prefix of the first line that is not blank, cut at 120 bytes. `summary_of_line` says
so for every text.
-/

namespace JsonRpcBridge.Docs

open Unicode

/-- The first line that is not blank, sanitised and without its leading blanks. -/
def firstLine (desc : Bytes) : Bytes :=
  match ((utf8Sanitize desc).splitOn 0x0A).find? fun line => !line.all isBlank with
  | some line => line.dropWhile isBlank
  | none => []

/-! ## The first line

The summary is taken from the first line that has something other than blanks in it. The code
skips blanks and then reads up to a line break, which comes to the same. -/

theorem isBlank_newline : isBlank 0x0A = true := rfl

/-- `summary` finds the line without splitting the text. -/
theorem takeWhile_eq_firstLine (text : Bytes) :
    (match (text.splitOn 0x0A).find? fun line => !line.all isBlank with
      | some line => line.dropWhile isBlank
      | none => []) = (text.dropWhile isBlank).takeWhile (· != 0x0A) := by
  induction hn : text.length using Nat.strongRecOn generalizing text with
  | _ n ih =>
    have hline {line : Bytes} (hnone : (0x0A : UInt8) ∉ line) :
        (line.dropWhile isBlank).takeWhile (· != 0x0A) = line.dropWhile isBlank := by
      rw [List.takeWhile_eq_self_iff]
      intro c hc
      have hmem : c ∈ line := (List.dropWhile_sublist isBlank).subset hc
      exact bne_iff_ne.mpr fun h => hnone (h ▸ hmem)
    have hempty {line : Bytes} : line.dropWhile isBlank = [] ↔ line.all isBlank = true := by
      rw [List.dropWhile_eq_nil_iff, List.all_eq_true]
    by_cases hmem : (0x0A : UInt8) ∈ text
    · obtain ⟨line, rest, rfl, hnone⟩ := List.eq_append_cons_of_mem hmem
      rw [List.splitOn_append_cons_self_of_not_mem hnone, List.find?_cons, List.dropWhile_append]
      by_cases hblank : line.all isBlank = true
      · -- a blank line is skipped with its newline
        rw [hblank, hempty.mpr hblank, List.isEmpty_nil, if_pos rfl,
          List.dropWhile_cons_of_pos isBlank_newline]
        refine ih rest.length ?_ rest rfl
        rw [← hn, List.length_append, List.length_cons]
        omega
      · have hdrop : (line.dropWhile isBlank).isEmpty = false := by
          rw [Bool.eq_false_iff, ne_eq, List.isEmpty_iff, hempty]
          exact hblank
        rw [Bool.eq_false_iff.mpr hblank, hdrop, if_neg Bool.false_ne_true]
        rw [List.takeWhile_append_of_pos fun c hc => ?_, List.takeWhile_cons_of_neg (by simp),
          List.append_nil]
        · rfl
        · rw [← hline hnone] at hc
          exact List.mem_takeWhile_imp (p := (· != 0x0A)) hc
    · rw [List.splitOn_eq_singleton hmem, List.find?_cons]
      by_cases hblank : text.all isBlank = true
      · rw [hblank, hempty.mpr hblank]
        rfl
      · rw [Bool.eq_false_iff.mpr hblank]
        exact (hline hmem).symm

/-- The code's way of reading the line. -/
theorem firstLine_eq_takeWhile (desc : Bytes) :
    firstLine desc = ((utf8Sanitize desc).dropWhile isBlank).takeWhile (· != 0x0A) :=
  takeWhile_eq_firstLine (utf8Sanitize desc)

theorem newline_notMem_firstLine (desc : Bytes) : (0x0A : UInt8) ∉ firstLine desc := by
  rw [firstLine_eq_takeWhile]
  intro h
  exact absurd (List.mem_takeWhile_imp h) (by decide)

/-- Blanks and line breaks are ASCII. -/
theorem utf8_firstLine (desc : Bytes) : Utf8 (firstLine desc) := by
  rw [firstLine_eq_takeWhile]
  exact utf8_takeWhile_line (utf8_dropWhile isBlank_ascii (utf8_utf8Sanitize desc))

/-- The first line begins with a byte that is not blank, if there is one. -/
theorem firstLine_eq_cons {desc : Bytes} (h : (utf8Sanitize desc).dropWhile isBlank ≠ []) :
    ∃ c rest, firstLine desc = c :: rest ∧ isBlank c = false := by
  obtain ⟨c, rest, hcons⟩ := List.exists_cons_of_ne_nil h
  have hc : isBlank c = false := by
    have hnot := List.head?_dropWhile_not isBlank (utf8Sanitize desc)
    rw [hcons] at hnot
    simpa using hnot
  refine ⟨c, rest.takeWhile (· != 0x0A), ?_, hc⟩
  rw [firstLine_eq_takeWhile, hcons, List.takeWhile_cons_of_pos]
  rw [bne_iff_ne]
  rintro rfl
  cases hc

/-! ## Blank texts

Sanitising turns no text into blanks: a byte that is no UTF-8 becomes a character that is none. -/

/-- A replacement is not blank. -/
theorem all_blank_sanitizeLoop {fuel : Nat} {s : Bytes} (hfuel : s.length ≤ fuel)
    (h : ∀ c ∈ sanitizeLoop fuel s, isBlank c = true) : ∀ c ∈ s, isBlank c = true := by
  induction fuel generalizing s with
  | zero =>
      rw [List.length_eq_zero_iff.mp (Nat.le_zero.mp hfuel)]
      exact fun c hc => (List.not_mem_nil hc).elim
  | succ fuel ih =>
      cases s with
      | nil => exact fun c hc => (List.not_mem_nil hc).elim
      | cons c s =>
          rw [sanitizeLoop] at h
          split at h
          · exact absurd (h 0xEF (by simp [kReplacement])) (by decide)
          · rename_i len hlen
            have hpos : utf8SeqLen (c :: s) ≠ 0 := hlen
            have hrest := ih (s := (c :: s).drop (utf8SeqLen (c :: s)))
              (by rw [List.length_drop]; omega) fun d hd => h d (List.mem_append_right _ hd)
            intro d hd
            rw [← List.take_append_drop (utf8SeqLen (c :: s)) (c :: s)] at hd
            rcases List.mem_append.mp hd with hd | hd
            · exact h d (List.mem_append_left _ hd)
            · exact hrest d hd

/-- Sanitising neither makes a text blank nor takes the blanks away. -/
theorem all_blank_utf8Sanitize {desc : Bytes} :
    (∀ c ∈ utf8Sanitize desc, isBlank c = true) ↔ ∀ c ∈ desc, isBlank c = true := by
  constructor
  · intro h
    rw [utf8Sanitize] at h
    split at h
    · exact h
    · exact all_blank_sanitizeLoop le_rfl h
  · intro h
    have hvalid : utf8Valid desc = true :=
      utf8Valid_iff.mpr (utf8_of_ascii fun c hc => isBlank_ascii c (h c hc))
    rw [utf8Sanitize, if_pos hvalid]
    exact h

/-! ## The cut

Where a line is too long it is cut at the last boundary that leaves room for the ellipsis, and
blanks at the cut are dropped. -/

theorem floorLoop_le {s : Bytes} {max fuel i : Nat} (hi : i ≤ max) : floorLoop s max fuel i ≤ max := by
  induction fuel generalizing i with
  | zero => exact hi
  | succ fuel ih =>
      rw [floorLoop]
      by_cases hmore : i < s.length
      · rw [if_pos hmore]
        dsimp only
        generalize (if utf8SeqLen (s.drop i) = 0 then 1 else utf8SeqLen (s.drop i)) = len
        split
        · exact hi
        · exact ih (by omega)
      · rw [if_neg hmore]
        exact hi

/-- The cut is not behind the limit. -/
theorem utf8Floor_le (s : Bytes) (max : Nat) : utf8Floor s max ≤ max := floorLoop_le (Nat.zero_le max)

theorem firstSentence_starts (line : Bytes) : firstSentence line <+: line := by
  unfold firstSentence
  split
  · exact List.take_prefix _ _
  · exact List.prefix_rfl

/-- The first sentence keeps the first byte. -/
theorem firstSentence_cons (c : UInt8) (rest : Bytes) :
    ∃ more, firstSentence (c :: rest) = c :: more := by
  unfold firstSentence
  split
  · exact ⟨_, List.take_succ_cons⟩
  · exact ⟨rest, rfl⟩

/-! ## The summary

Either nothing, or the sentence, or a cut of it with an ellipsis; all that is said of a summary is
read off these three cases. -/

/-- The first sentence of the first line, without the blanks after it. -/
def sentence (desc : Bytes) : Bytes := trimRight (firstSentence (firstLine desc))

/-- The sentence is a prefix of its line. -/
theorem sentence_starts (desc : Bytes) : sentence desc <+: firstLine desc :=
  (List.rdropWhile_prefix isBlank _).trans (firstSentence_starts _)

theorem utf8_sentence (desc : Bytes) : Utf8 (sentence desc) :=
  utf8_trimRight (utf8_firstSentence (utf8_firstLine desc))

/-- A text of blanks has no summary; that of any other is its first sentence, or a cut of it. -/
theorem summary_cases (desc : Bytes) :
    (∀ c ∈ desc, isBlank c = true) ∧ summary desc = [] ∨
    (∃ c ∈ desc, isBlank c = false) ∧ sentence desc ≠ [] ∧
      summary desc =
        if (sentence desc).length ≤ kSummaryMaxBytes then sentence desc
        else trimRight ((sentence desc).take
          (utf8Floor (sentence desc) (kSummaryMaxBytes - kEllipsis.length))) ++ kEllipsis := by
  unfold summary
  dsimp only
  by_cases hblank : (utf8Sanitize desc).dropWhile isBlank = []
  · rw [if_pos (List.isEmpty_iff.mpr hblank)]
    exact .inl ⟨all_blank_utf8Sanitize.mp (List.dropWhile_eq_nil_iff.mp hblank), rfl⟩
  · rw [if_neg fun h => hblank (List.isEmpty_iff.mp h), ← firstLine_eq_takeWhile]
    refine .inr ⟨?_, ?_, rfl⟩
    · by_contra hnone
      refine hblank (List.dropWhile_eq_nil_iff.mpr (all_blank_utf8Sanitize.mpr fun c hc => ?_))
      by_contra hnot
      exact hnone ⟨c, hc, Bool.eq_false_iff.mpr hnot⟩
    · obtain ⟨c, rest, hline, hc⟩ := firstLine_eq_cons hblank
      obtain ⟨more, hmore⟩ := firstSentence_cons c rest
      rw [sentence, hline, hmore, trimRight, ne_eq, List.rdropWhile_eq_nil_iff]
      intro hall
      rw [hall c List.mem_cons_self] at hc
      cases hc

/-! ### What is said of a summary -/

theorem summary_length (desc : Bytes) : (summary desc).length ≤ kSummaryMaxBytes := by
  rcases summary_cases desc with ⟨-, h⟩ | ⟨-, -, h⟩
  · rw [h]
    exact Nat.zero_le _
  · rw [h]
    split
    · assumption
    · have htrim := (List.rdropWhile_prefix isBlank
        ((sentence desc).take (utf8Floor (sentence desc) (kSummaryMaxBytes - kEllipsis.length)))).length_le
      have hfloor := utf8Floor_le (sentence desc) (kSummaryMaxBytes - kEllipsis.length)
      rw [List.length_take] at htrim
      rw [List.length_append, trimRight]
      have hmax : kSummaryMaxBytes - kEllipsis.length + kEllipsis.length = kSummaryMaxBytes := rfl
      omega

theorem summary_eq_nil_iff (desc : Bytes) : summary desc = [] ↔ ∀ c ∈ desc, isBlank c = true := by
  rcases summary_cases desc with ⟨hblank, h⟩ | ⟨⟨c, hc, hnot⟩, hne, h⟩
  · exact ⟨fun _ => hblank, fun _ => h⟩
  · constructor
    · intro hnil
      rw [h] at hnil
      split at hnil
      · exact absurd hnil hne
      · exact absurd (List.append_eq_nil_iff.mp hnil).2 (by decide)
    · intro hall
      rw [hall c hc] at hnot
      cases hnot

/-- A summary is the first sentence of the line, or a cut of it with an ellipsis. -/
theorem summary_prefix (desc : Bytes) : summary desc <+: firstLine desc ∨
    ∃ cut, cut <+: firstLine desc ∧ Utf8 cut ∧ summary desc = cut ++ kEllipsis ∧
      kSummaryMaxBytes < (firstSentence (firstLine desc)).length := by
  rcases summary_cases desc with ⟨-, h⟩ | ⟨-, -, h⟩
  · rw [h]
    exact .inl List.nil_prefix
  · by_cases hshort : (sentence desc).length ≤ kSummaryMaxBytes
    · rw [h, if_pos hshort]
      exact .inl (sentence_starts desc)
    · rw [if_neg hshort] at h
      refine .inr ⟨_, ?_, ?_, h, ?_⟩
      · exact ((List.rdropWhile_prefix isBlank _).trans (List.take_prefix _ _)).trans
          (sentence_starts desc)
      · exact utf8_trimRight (utf8_utf8Floor (utf8_sentence desc) _)
      · have htrim := (List.rdropWhile_prefix isBlank (firstSentence (firstLine desc))).length_le
        rw [sentence, trimRight] at hshort
        omega

theorem newline_notMem_summary (desc : Bytes) : (0x0A : UInt8) ∉ summary desc := by
  have hline := newline_notMem_firstLine desc
  rcases summary_prefix desc with hstart | ⟨cut, hstart, -, h, -⟩
  · exact fun hmem => hline (hstart.subset hmem)
  · rw [h, List.mem_append, not_or]
    exact ⟨fun hmem => hline (hstart.subset hmem), by decide⟩

/-- **A summary** is a short and well-formed piece of one line, and says when it is cut. -/
theorem summary_of_line (desc : Bytes) :
    (summary desc).length ≤ 120 ∧ Utf8 (summary desc) ∧ (0x0A : UInt8) ∉ summary desc ∧
    (summary desc = [] ↔ ∀ c ∈ desc, isBlank c = true) ∧
    (summary desc <+: firstLine desc ∨
      ∃ cut, cut <+: firstLine desc ∧ Utf8 cut ∧ summary desc = cut ++ kEllipsis ∧
        120 < (firstSentence (firstLine desc)).length) :=
  ⟨summary_length desc, utf8_summary desc, newline_notMem_summary desc, summary_eq_nil_iff desc,
    summary_prefix desc⟩

end JsonRpcBridge.Docs
