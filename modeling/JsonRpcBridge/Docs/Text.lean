import JsonRpcBridge.Bytes
import JsonRpcBridge.Unicode
import Mathlib.Data.List.DropRight

/-!
# Text of the documents

`doc_text.h`: UTF-8 checks, one-line summaries, and Doxygen code blocks turned into Markdown
fences. A position `i` in a string is a number, as in the source; what begins there is `s.drop i`.

* `seq_of_utf8SeqLen`, `utf8SeqLen_seq`: the length the validator finds is that of an encoding, so
  `utf8Valid` is exact.
* `utf8_utf8Sanitize`, `utf8_summary`, `utf8_description`: whatever the text, what a document is
  given of it is well-formed UTF-8.
-/

namespace JsonRpcBridge.Docs

open Unicode

def kSummaryMaxBytes : Nat := 120

/-- U+2026 -/
def kEllipsis : Bytes := [0xE2, 0x80, 0xA6]

/-- U+FFFD -/
def kReplacement : Bytes := [0xEF, 0xBF, 0xBD]

/-! ## UTF-8

The validator looks at one sequence at a time. The lead byte fixes the length, and bounds the
second byte more tightly where a plain bound would let in overlong forms, surrogates or what lies
beyond the last code point; the bytes after that are tails. -/

/-- The length of the sequence that `c` leads, and the bounds of its second byte. -/
def seqBounds (c : UInt8) : Option (Nat × UInt8 × UInt8) :=
  if c ≥ 0xC2 && c ≤ 0xDF then some (2, 0x80, 0xBF)
  else if c == 0xE0 then some (3, 0xA0, 0xBF)
  else if (c ≥ 0xE1 && c ≤ 0xEC) || c == 0xEE || c == 0xEF then some (3, 0x80, 0xBF)
  else if c == 0xED then some (3, 0x80, 0x9F)
  else if c == 0xF0 then some (4, 0x90, 0xBF)
  else if c ≥ 0xF1 && c ≤ 0xF3 then some (4, 0x80, 0xBF)
  else if c == 0xF4 then some (4, 0x80, 0x8F)
  else none

/-- Length of the well-formed sequence that begins `s`, or 0 if there is none. -/
def utf8SeqLen (s : Bytes) : Nat :=
  match s with
  | [] => 0
  | c :: rest =>
    if c < 0x80 then 1
    else
      match seqBounds c with
      | none => 0
      | some (len, lo, hi) =>
        if len > s.length || rest.headD 0 < lo || rest.headD 0 > hi then 0
        else if ((s.take len).drop 2).any fun b => b < 0x80 || b > 0xBF then 0
        else len

/-- The loop of `utf8Valid`; each round consumes at least one byte. -/
def utf8ValidLoop : Nat → Bytes → Bool
  | 0, s => s.isEmpty
  | fuel + 1, s =>
    if s.isEmpty then true
    else if utf8SeqLen s == 0 then false
    else utf8ValidLoop fuel (s.drop (utf8SeqLen s))

def utf8Valid (s : Bytes) : Bool := utf8ValidLoop s.length s

/-- The loop of `utf8Sanitize`. -/
def sanitizeLoop : Nat → Bytes → Bytes
  | 0, _ => []
  | _ + 1, [] => []
  | fuel + 1, c :: s =>
    match utf8SeqLen (c :: s) with
    | 0 => kReplacement ++ sanitizeLoop fuel s
    | len => (c :: s).take len ++ sanitizeLoop fuel ((c :: s).drop len)

/-- Every invalid byte becomes U+FFFD, so a document can always be dumped. -/
def utf8Sanitize (s : Bytes) : Bytes := if utf8Valid s then s else sanitizeLoop s.length s

/-- The loop of `utf8Floor`, from position `i`. -/
def floorLoop (s : Bytes) (max : Nat) : Nat → Nat → Nat
  | 0, i => i
  | fuel + 1, i =>
    if i < s.length then
      let len := if utf8SeqLen (s.drop i) = 0 then 1 else utf8SeqLen (s.drop i)
      if i + len > max then i else floorLoop s max fuel (i + len)
    else i

/-- Longest prefix of valid UTF-8 `s` that fits in `max` bytes without splitting a code point. -/
def utf8Floor (s : Bytes) (max : Nat) : Nat := floorLoop s max s.length 0

/-! ## Summaries

The first sentence of the first line that is not blank. What is too long is cut at the end of a
sequence. -/

/-- `' '`, `'\t'`, `'\r'` or `'\n'`. -/
def isBlank (c : UInt8) : Bool := c == 0x20 || c == 0x09 || c == 0x0D || c == 0x0A

/-- `' '` or `'\t'`. -/
def isSpace (c : UInt8) : Bool := c == 0x20 || c == 0x09

/-- `[a-zA-Z0-9_]` -/
def isWordChar (c : UInt8) : Bool :=
  (c ≥ 0x61 && c ≤ 0x7A) || (c ≥ 0x41 && c ≤ 0x5A) || (c ≥ 0x30 && c ≤ 0x39) || c == 0x5F

/-- `"e.g."` and `"i.e."` do not end a sentence. -/
def endsAbbreviation (line : Bytes) (dot : Nat) : Bool :=
  [str "e.g", str "i.e"].any fun abbr =>
    dot ≥ 3 && (line.drop (dot - 3)).take 3 == abbr &&
      (dot == 3 || !isWordChar (line.getD (dot - 4) 0))

def trimRight (s : Bytes) : Bytes := s.rdropWhile isBlank

/-- A sentence ends at `i`: `.`, `!` or `?`, and a space after it. -/
def endsSentence (line : Bytes) (i : Nat) : Bool :=
  let c := line.getD i 0
  (c == 0x2E || c == 0x21 || c == 0x3F) && isSpace (line.getD (i + 1) 0) &&
    !(c == 0x2E && endsAbbreviation line i)

/-- The first sentence of a line, or all of it. -/
def firstSentence (line : Bytes) : Bytes :=
  match (List.range (line.length - 1)).find? (endsSentence line) with
  | some i => line.take (i + 1)
  | none => line

/-- The first sentence of the first non-blank line, at most 120 bytes; `…` marks a cut. -/
def summary (desc : Bytes) : Bytes :=
  let text := (utf8Sanitize desc).dropWhile isBlank
  if text.isEmpty then []
  else
    let line := trimRight (firstSentence (text.takeWhile (· != 0x0A)))
    if line.length ≤ kSummaryMaxBytes then line
    else
      trimRight (line.take (utf8Floor line (kSummaryMaxBytes - kEllipsis.length))) ++ kEllipsis

/-! ## Descriptions

Markers of code become fences. The loop looks at one position at a time, and knows whether it is
in code. -/

/-- The keyword begins at `i`, and is not part of a longer word on either side. -/
def keywordAt (s : Bytes) (i : Nat) (kw : Bytes) : Bool :=
  (s.drop i).take kw.length == kw && !(i > 0 && isWordChar (s.getD (i - 1) 0)) &&
    (i + kw.length ≥ s.length || !isWordChar (s.getD (i + kw.length) 0))

/-- The output, brought to the start of a line. -/
def startLine (out : Bytes) : Bytes :=
  let out := out.rdropWhile isSpace
  if out.isEmpty || out.getLast? == some 0x0A then out else out ++ [0x0A]

/-- The first position from `j` on that holds no space. -/
def skipSpaces (s : Bytes) (j : Nat) : Nat := j + ((s.drop j).takeWhile isSpace).length

/-- The language of a fence: `{.lang}` without the dot, if it is made of word characters. -/
def fenceLang (braced : Bytes) : Bytes :=
  let lang := if braced.head? == some 0x2E then braced.drop 1 else braced
  if lang.all fun c => isWordChar c || c == 0x2B || c == 0x2D then lang else []

/-- The language after an `@code` that ends before `j`, and the position after it. -/
def codeLang (s : Bytes) (j : Nat) : Bytes × Nat :=
  match s.drop j with
  | 0x7B :: rest =>
    match find 0x7D rest with
    | some n => (fenceLang (rest.take n), j + 1 + n + 1)
    | none => ([], j)
  | _ => ([], j)

def kCode : Bytes := str "@code"
def kEndcode : Bytes := str "@endcode"
def kFence : Bytes := [0x60, 0x60, 0x60]

/-- The loop of `description`, from position `i`; whether a fence is open at the end comes with the
output. -/
def descriptionLoop (s : Bytes) : Nat → Nat → Bool → Bytes → Bytes × Bool
  | 0, _, inCode, out => (out, inCode)
  | fuel + 1, i, inCode, out =>
    match s.drop i with
    | [] => (out, inCode)
    | c :: _ =>
      if !inCode && c == 0x40 && keywordAt s i kCode then
        let (lang, j) := codeLang s (i + 5)
        let j := skipSpaces s j
        let j := if (s.drop j).head? == some 0x0A then j + 1 else j
        descriptionLoop s fuel j true (startLine out ++ kFence ++ lang ++ [0x0A])
      else if inCode && c == 0x40 && keywordAt s i kEndcode then
        let j := skipSpaces s (i + 8)
        let out := startLine out ++ kFence
        let out := if j < s.length && (s.drop j).head? != some 0x0A then out ++ [0x0A] else out
        descriptionLoop s fuel j false out
      else descriptionLoop s fuel (i + 1) inCode (out ++ [c])

/-- Doxygen `@code{.lang}` / `@code` ... `@endcode` become Markdown fences; all else is kept. -/
def description (desc : Bytes) : Bytes :=
  let s := utf8Sanitize desc
  match descriptionLoop s s.length 0 false [] with
  | (out, true) => startLine out ++ kFence
  | (out, false) => out

example : description (str "a @code{.cpp}\nx @endcode b") = str "a\n```cpp\nx\n```\nb" := by decide

/-! ## The validator and the table

The table of `seqBounds` is the table of well-formed sequences, row by row. `Seq` is the
specification, which knows nothing of bounds: it lists the seven shapes of a sequence. Both
directions are shown here for one sequence; the whole string follows by induction. -/

/-- The rows of the table, with the bounds as numbers. -/
theorem seqBounds_cases {c lo hi : UInt8} {len : Nat} (h : seqBounds c = some (len, lo, hi)) :
    (len = 2 ∧ 0xC2 ≤ c.toNat ∧ c.toNat ≤ 0xDF ∧ lo.toNat = 0x80 ∧ hi.toNat = 0xBF) ∨
    (len = 3 ∧ c.toNat = 0xE0 ∧ lo.toNat = 0xA0 ∧ hi.toNat = 0xBF) ∨
    (len = 3 ∧ 0xE1 ≤ c.toNat ∧ c.toNat ≤ 0xEF ∧ c.toNat ≠ 0xED ∧ lo.toNat = 0x80 ∧
      hi.toNat = 0xBF) ∨
    (len = 3 ∧ c.toNat = 0xED ∧ lo.toNat = 0x80 ∧ hi.toNat = 0x9F) ∨
    (len = 4 ∧ c.toNat = 0xF0 ∧ lo.toNat = 0x90 ∧ hi.toNat = 0xBF) ∨
    (len = 4 ∧ 0xF1 ≤ c.toNat ∧ c.toNat ≤ 0xF3 ∧ lo.toNat = 0x80 ∧ hi.toNat = 0xBF) ∨
    (len = 4 ∧ c.toNat = 0xF4 ∧ lo.toNat = 0x80 ∧ hi.toNat = 0x8F) := by
  simp only [seqBounds, ge_iff_le, Bool.and_eq_true, decide_eq_true_eq, beq_iff_eq, Bool.or_eq_true,
    UInt8.le_iff_toNat_le, ← UInt8.toNat_inj] at h
  split_ifs at h <;> cases h <;> simp at * <;> omega

/-- Every lead byte has a row. -/
theorem seqBounds_isSome {c : UInt8} (hlo : 0xC2 ≤ c.toNat) (hhi : c.toNat ≤ 0xF4) :
    ∃ len lo hi, seqBounds c = some (len, lo, hi) := by
  simp only [seqBounds, ge_iff_le, Bool.and_eq_true, decide_eq_true_eq, beq_iff_eq, Bool.or_eq_true,
    UInt8.le_iff_toNat_le, ← UInt8.toNat_inj]
  split_ifs <;> simp at *
  omega

/-- The bytes after the second are tails. -/
theorem not_any_iff {l : Bytes} :
    (l.any fun b => b < 0x80 || b > 0xBF) = false ↔ ∀ b ∈ l, Tail b := by
  simp only [List.any_eq_false, Bool.or_eq_true, decide_eq_true_eq, not_or, UInt8.lt_iff_toNat_lt,
    gt_iff_lt, Nat.not_lt]
  exact Iff.rfl

theorem utf8SeqLen_eq_one {c : UInt8} {rest : Bytes} (hc : c.toNat < 0x80) :
    utf8SeqLen (c :: rest) = 1 := by
  rw [utf8SeqLen, if_pos (UInt8.lt_iff_toNat_lt.mpr hc)]

/-- What the validator asks of a sequence longer than one byte. -/
theorem utf8SeqLen_eq_len_iff {c lo hi : UInt8} {rest : Bytes} {len : Nat}
    (hc : 0x80 ≤ c.toNat) (hbounds : seqBounds c = some (len, lo, hi)) (hlen : len ≠ 0) :
    utf8SeqLen (c :: rest) ≠ 0 ↔ len ≤ rest.length + 1 ∧ lo.toNat ≤ (rest.headD 0).toNat ∧
      (rest.headD 0).toNat ≤ hi.toNat ∧ ∀ b ∈ ((c :: rest).take len).drop 2, Tail b := by
  have hge : ¬ c < 0x80 := fun h => absurd (UInt8.lt_iff_toNat_lt.mp h) (Nat.not_lt.mpr hc)
  rw [utf8SeqLen, if_neg hge, hbounds]
  dsimp only
  rw [← not_any_iff]
  by_cases h : (len > (c :: rest).length || rest.headD 0 < lo || rest.headD 0 > hi) = true
  · rw [if_pos h]
    simp only [Bool.or_eq_true, decide_eq_true_eq, UInt8.lt_iff_toNat_lt, gt_iff_lt,
      List.length_cons] at h
    constructor
    · exact fun h0 => absurd rfl h0
    · rintro ⟨h1, h2, h3, _⟩
      omega
  · rw [if_neg h]
    simp only [Bool.or_eq_true, decide_eq_true_eq, UInt8.lt_iff_toNat_lt, gt_iff_lt,
      List.length_cons, not_or, Nat.not_lt] at h
    split
    · rename_i hany
      simp [hany]
    · rename_i hany
      simp only [Bool.not_eq_true] at hany
      exact ⟨fun _ => ⟨h.1.1, h.1.2, h.2, hany⟩, fun _ => hlen⟩

/-- A sequence that is found is as long as its row says. -/
theorem utf8SeqLen_eq_len {c lo hi : UInt8} {rest : Bytes} {len : Nat}
    (hbounds : seqBounds c = some (len, lo, hi)) (h : utf8SeqLen (c :: rest) ≠ 0)
    (hc : 0x80 ≤ c.toNat) : utf8SeqLen (c :: rest) = len := by
  have hge : ¬ c < 0x80 := fun h => absurd (UInt8.lt_iff_toNat_lt.mp h) (Nat.not_lt.mpr hc)
  rw [utf8SeqLen, if_neg hge, hbounds] at h ⊢
  dsimp only at h ⊢
  split at h
  · exact absurd rfl h
  · rename_i h1
    split at h
    · exact absurd rfl h
    · rename_i h2
      rw [if_neg h1, if_neg h2]

/-! ### Both directions

The validator returns a length where a sequence begins, and the length is that of the sequence. -/

/-- **The validator finds encodings only.** -/
theorem seq_of_utf8SeqLen {s : Bytes} (h : utf8SeqLen s ≠ 0) : Seq (s.take (utf8SeqLen s)) := by
  cases s with
  | nil => exact absurd rfl h
  | cons c rest =>
      by_cases hc : c.toNat < 0x80
      · rw [utf8SeqLen_eq_one hc]
        exact .ascii (by omega)
      · cases hbounds : seqBounds c with
        | none =>
            have hge : ¬ c < 0x80 := fun h => hc (UInt8.lt_iff_toNat_lt.mp h)
            rw [utf8SeqLen, if_neg hge, hbounds] at h
            exact absurd rfl h
        | some b =>
            obtain ⟨len, lo, hi⟩ := b
            have hrow := seqBounds_cases hbounds
            have hlen0 : len ≠ 0 := by omega
            rw [utf8SeqLen_eq_len hbounds h (by omega)]
            obtain ⟨hlen, hlo, hhi, htails⟩ :=
              (utf8SeqLen_eq_len_iff (by omega) hbounds hlen0).mp h
            -- the second byte, and as many tails as the row has
            obtain ⟨b, r, rfl⟩ : ∃ b r, rest = b :: r := List.exists_cons_of_length_pos (by omega)
            replace hlo : lo.toNat ≤ b.toNat := hlo
            replace hhi : b.toNat ≤ hi.toNat := hhi
            have htwo : len = 3 → ∃ d r', r = d :: r' ∧ Tail d := by
              rintro rfl
              obtain ⟨d, r', rfl⟩ : ∃ d r', r = d :: r' :=
                List.exists_cons_of_length_pos (by simp only [List.length_cons] at hlen; omega)
              exact ⟨d, r', rfl, htails d (by simp)⟩
            have hthree : len = 4 → ∃ d e r', r = d :: e :: r' ∧ Tail d ∧ Tail e := by
              rintro rfl
              obtain ⟨d, r', rfl⟩ : ∃ d r', r = d :: r' :=
                List.exists_cons_of_length_pos (by simp only [List.length_cons] at hlen; omega)
              obtain ⟨e, r'', rfl⟩ : ∃ e r'', r' = e :: r'' :=
                List.exists_cons_of_length_pos (by simp only [List.length_cons] at hlen; omega)
              exact ⟨d, e, r'', rfl, htails d (by simp), htails e (by simp)⟩
            have hb : Tail b := ⟨by omega, by omega⟩
            -- each row is one shape of a sequence
            rcases hrow with ⟨rfl, hrow⟩ | hrow
            · exact .two (by omega) (by omega) hb
            rcases hrow with ⟨rfl, hrow⟩ | hrow
            · obtain ⟨d, r', rfl, hd⟩ := htwo rfl
              exact .e0 hrow.1 (by omega) (by omega) hd
            rcases hrow with ⟨rfl, hrow⟩ | hrow
            · obtain ⟨d, r', rfl, hd⟩ := htwo rfl
              exact .three (by omega) (by omega) (by omega) hb hd
            rcases hrow with ⟨rfl, hrow⟩ | hrow
            · obtain ⟨d, r', rfl, hd⟩ := htwo rfl
              exact .ed hrow.1 (by omega) (by omega) hd
            rcases hrow with ⟨rfl, hrow⟩ | hrow
            · obtain ⟨d, e, r', rfl, hd, he⟩ := hthree rfl
              exact .f0 hrow.1 (by omega) (by omega) hd he
            rcases hrow with ⟨rfl, hrow⟩ | ⟨rfl, hrow⟩
            · obtain ⟨d, e, r', rfl, hd, he⟩ := hthree rfl
              exact .four (by omega) (by omega) hb hd he
            · obtain ⟨d, e, r', rfl, hd, he⟩ := hthree rfl
              exact .f4 hrow.1 (by omega) (by omega) hd he

/-- A row of the table passes the validator, whatever follows. -/
theorem utf8SeqLen_row {c b : UInt8} {tails r : Bytes} (hlo : 0xC2 ≤ c.toNat)
    (hhi : c.toNat ≤ 0xF4) (htails : ∀ d ∈ tails, Tail d)
    (hrow : ∀ len lo hi, seqBounds c = some (len, lo, hi) →
      len = tails.length + 2 ∧ lo.toNat ≤ b.toNat ∧ b.toNat ≤ hi.toNat) :
    utf8SeqLen (c :: b :: (tails ++ r)) = tails.length + 2 := by
  obtain ⟨len, lo, hi, hbounds⟩ := seqBounds_isSome hlo hhi
  obtain ⟨rfl, hb⟩ := hrow len lo hi hbounds
  have htake : ((c :: b :: (tails ++ r)).take (tails.length + 2)).drop 2 = tails := by simp
  apply utf8SeqLen_eq_len hbounds _ (by omega)
  rw [utf8SeqLen_eq_len_iff (by omega) hbounds (by omega), htake]
  refine ⟨?_, hb.1, hb.2, htails⟩
  simp only [List.length_cons, List.length_append]
  omega

/-- **The validator finds every encoding.** -/
theorem utf8SeqLen_seq {t r : Bytes} (h : Seq t) : utf8SeqLen (t ++ r) = t.length := by
  cases h with
  | ascii ha => exact utf8SeqLen_eq_one (by omega)
  | @two a b hlo hhi hb =>
      show utf8SeqLen (a :: b :: ([] ++ r)) = [].length + 2
      refine utf8SeqLen_row hlo (by omega) (by simp) fun len lo hi hbounds => ?_
      have hcases := seqBounds_cases hbounds
      unfold Tail at hb
      simp only [List.length_nil]
      omega
  -- the first bytes with bounds of their own for the second one: `E0`, `ED`, `F0` and `F4`
  | @e0 a b d ha hlo hhi hd =>
      show utf8SeqLen (a :: b :: ([d] ++ r)) = [d].length + 2
      refine utf8SeqLen_row (by omega) (by omega) (by simpa using hd) fun len lo hi hbounds => ?_
      have hcases := seqBounds_cases hbounds
      simp only [List.length_cons, List.length_nil]
      omega
  | @three a b d hlo hhi hne hb hd =>
      show utf8SeqLen (a :: b :: ([d] ++ r)) = [d].length + 2
      refine utf8SeqLen_row (by omega) (by omega) (by simpa using hd) fun len lo hi hbounds => ?_
      have hcases := seqBounds_cases hbounds
      unfold Tail at hb
      simp only [List.length_cons, List.length_nil]
      omega
  | @ed a b d ha hlo hhi hd =>
      show utf8SeqLen (a :: b :: ([d] ++ r)) = [d].length + 2
      refine utf8SeqLen_row (by omega) (by omega) (by simpa using hd) fun len lo hi hbounds => ?_
      have hcases := seqBounds_cases hbounds
      simp only [List.length_cons, List.length_nil]
      omega
  | @f0 a b d e ha hlo hhi hd he =>
      show utf8SeqLen (a :: b :: ([d, e] ++ r)) = [d, e].length + 2
      refine utf8SeqLen_row (by omega) (by omega) (by simpa using ⟨hd, he⟩)
        fun len lo hi hbounds => ?_
      have hcases := seqBounds_cases hbounds
      simp only [List.length_cons, List.length_nil]
      omega
  | @four a b d e hlo hhi hb hd he =>
      show utf8SeqLen (a :: b :: ([d, e] ++ r)) = [d, e].length + 2
      refine utf8SeqLen_row (by omega) (by omega) (by simpa using ⟨hd, he⟩)
        fun len lo hi hbounds => ?_
      have hcases := seqBounds_cases hbounds
      unfold Tail at hb
      simp only [List.length_cons, List.length_nil]
      omega
  | @f4 a b d e ha hlo hhi hd he =>
      show utf8SeqLen (a :: b :: ([d, e] ++ r)) = [d, e].length + 2
      refine utf8SeqLen_row (by omega) (by omega) (by simpa using ⟨hd, he⟩)
        fun len lo hi hbounds => ?_
      have hcases := seqBounds_cases hbounds
      simp only [List.length_cons, List.length_nil]
      omega

/-! ## Sanitising

A string is well formed when it is empty or a sequence followed by a well-formed string. The loop
of the validator takes off one sequence after the other; that of the sanitiser does the same and
puts a replacement where there is none to take off. -/

theorem utf8_seq_append {t r : Bytes} (ht : Seq t) : Utf8 (t ++ r) ↔ Utf8 r :=
  wellFormed_seq_append ht

/-- A well-formed string is cut where the validator says. -/
theorem utf8_drop_utf8SeqLen {s : Bytes} (h : utf8SeqLen s ≠ 0) :
    Utf8 s ↔ Utf8 (s.drop (utf8SeqLen s)) := by
  conv_lhs => rw [← List.take_append_drop (utf8SeqLen s) s]
  exact utf8_seq_append (seq_of_utf8SeqLen h)

/-- A well-formed string begins with a sequence. -/
theorem utf8SeqLen_ne_zero {s : Bytes} (hs : Utf8 s) (hne : s ≠ []) : utf8SeqLen s ≠ 0 := by
  rcases WellFormed.cases hs with rfl | ⟨t, r, ht, -, rfl⟩
  · exact absurd rfl hne
  · rw [utf8SeqLen_seq ht]
    exact (List.length_pos_iff.mpr ht.ne_nil).ne'

/-- Enough rounds decide the whole string. -/
theorem utf8ValidLoop_iff {fuel : Nat} {s : Bytes} (hfuel : s.length ≤ fuel) :
    utf8ValidLoop fuel s = true ↔ Utf8 s := by
  induction fuel generalizing s with
  | zero =>
      obtain rfl := List.length_eq_zero_iff.mp (Nat.le_zero.mp hfuel)
      exact ⟨fun _ => utf8_nil, fun _ => rfl⟩
  | succ fuel ih =>
      rw [utf8ValidLoop]
      by_cases hs : s = []
      · subst hs
        exact ⟨fun _ => utf8_nil, fun _ => rfl⟩
      · rw [if_neg (by simpa using hs)]
        by_cases hlen : utf8SeqLen s = 0
        · rw [if_pos (by simpa using hlen)]
          exact ⟨fun h => (nomatch h), fun h => absurd hlen (utf8SeqLen_ne_zero h hs)⟩
        · rw [if_neg (by simpa using hlen), ih (by rw [List.length_drop]; omega)]
          exact (utf8_drop_utf8SeqLen hlen).symm

/-- **The validator is exact.** -/
theorem utf8Valid_iff {s : Bytes} : utf8Valid s = true ↔ Utf8 s := utf8ValidLoop_iff (Nat.le_refl _)

/-- Whatever comes out is made of sequences. -/
theorem utf8_sanitizeLoop (fuel : Nat) (s : Bytes) : Utf8 (sanitizeLoop fuel s) := by
  induction fuel generalizing s with
  | zero => exact utf8_nil
  | succ fuel ih =>
      cases s with
      | nil => exact utf8_nil
      | cons c s =>
          rw [sanitizeLoop]
          split
          · exact Utf8.append ⟨['\uFFFD'], by decide⟩ (ih s)
          · rename_i hne
            exact Utf8.append (seq_of_utf8SeqLen hne).wellFormed (ih _)

theorem utf8_utf8Sanitize (s : Bytes) : Utf8 (utf8Sanitize s) := by
  rw [utf8Sanitize]
  split
  · rename_i h
    exact utf8Valid_iff.mp h
  · exact utf8_sanitizeLoop _ _

/-! ## Cutting

The remaining functions cut strings. A cut is safe next to an ASCII byte, which is never part of
a longer sequence; and blanks, spaces, word characters and the characters of a keyword are all
ASCII. -/

theorem utf8_ascii {c : UInt8} (hc : c.toNat < 0x80) {x y : Bytes} :
    Utf8 (x ++ c :: y) ↔ Utf8 x ∧ Utf8 y := wellFormed_ascii hc

theorem utf8_ascii_cons {c : UInt8} (hc : c.toNat < 0x80) {y : Bytes} : Utf8 (c :: y) ↔ Utf8 y :=
  (utf8_ascii (x := []) hc).trans (and_iff_right utf8_nil)

/-- ASCII text in front is no part of a sequence. -/
theorem utf8_ascii_append {x y : Bytes} (hx : ∀ c ∈ x, c.toNat < 0x80) :
    Utf8 (x ++ y) ↔ Utf8 y := by
  induction x with
  | nil => exact Iff.rfl
  | cons c x ih =>
      rw [List.cons_append, utf8_ascii_cons (hx c List.mem_cons_self)]
      exact ih fun d hd => hx d (List.mem_cons_of_mem c hd)

/-- ASCII text behind is no part of a sequence either. -/
theorem utf8_append_ascii {x y : Bytes} (hy : ∀ c ∈ y, c.toNat < 0x80) :
    Utf8 (x ++ y) ↔ Utf8 x := by
  cases y with
  | nil => rw [List.append_nil]
  | cons c y =>
      have hrest : Utf8 y := utf8_of_ascii fun d hd => hy d (List.mem_cons_of_mem c hd)
      rw [utf8_ascii (hy c List.mem_cons_self)]
      exact and_iff_left hrest

theorem utf8_dropWhile {p : UInt8 → Bool} (hp : ∀ c, p c = true → c.toNat < 0x80) {s : Bytes}
    (hs : Utf8 s) : Utf8 (s.dropWhile p) := by
  rw [← List.takeWhile_append_dropWhile (p := p) (l := s)] at hs
  exact (utf8_ascii_append fun c hc => hp c (List.mem_takeWhile_imp hc)).mp hs

theorem utf8_rdropWhile {p : UInt8 → Bool} (hp : ∀ c, p c = true → c.toNat < 0x80) {s : Bytes}
    (hs : Utf8 s) : Utf8 (s.rdropWhile p) := by
  have hsplit : s.rdropWhile p ++ s.rtakeWhile p = s := List.rdropWhile_append_rtakeWhile ..
  rw [← hsplit] at hs
  exact (utf8_append_ascii fun c hc => hp c (List.mem_rtakeWhile_imp hc)).mp hs

theorem isBlank_ascii (c : UInt8) (h : isBlank c = true) : c.toNat < 0x80 := by
  simp only [isBlank, Bool.or_eq_true, beq_iff_eq] at h
  rcases h with ((rfl | rfl) | rfl) | rfl <;> decide

theorem isSpace_ascii (c : UInt8) (h : isSpace c = true) : c.toNat < 0x80 := by
  simp only [isSpace, Bool.or_eq_true, beq_iff_eq] at h
  rcases h with rfl | rfl <;> decide

theorem utf8_trimRight {s : Bytes} (hs : Utf8 s) : Utf8 (trimRight s) :=
  utf8_rdropWhile isBlank_ascii hs

/-- A string is cut before and after an ASCII byte in it. -/
theorem utf8_at {s : Bytes} {i : Nat} {c : UInt8} (hs : Utf8 s) (hget : s[i]? = some c)
    (hc : c.toNat < 0x80) : Utf8 (s.take i) ∧ Utf8 (s.take (i + 1)) ∧ Utf8 (s.drop (i + 1)) := by
  obtain ⟨hi, hget⟩ := List.getElem?_eq_some_iff.mp hget
  have hsplit : s = s.take i ++ c :: s.drop (i + 1) := by
    rw [← hget, List.getElem_cons_drop, List.take_append_drop]
  rw [hsplit] at hs
  obtain ⟨hbefore, hafter⟩ := (utf8_ascii hc).mp hs
  refine ⟨hbefore, ?_, hafter⟩
  have htake : s.take (i + 1) = s.take i ++ [c] := by
    rw [List.take_succ_eq_append_getElem hi, hget]
  rw [htake]
  exact hbefore.append (utf8_of_ascii fun d hd => by rw [List.mem_singleton.mp hd]; exact hc)

/-! ## Summaries

A summary is cut at a line break, at the end of a sentence and at a boundary of sequences. -/

theorem utf8_takeWhile_line {s : Bytes} (hs : Utf8 s) : Utf8 (s.takeWhile (· != 0x0A)) := by
  have hsplit : s.takeWhile (· != 0x0A) ++ s.dropWhile (· != 0x0A) = s :=
    List.takeWhile_append_dropWhile
  cases hdrop : s.dropWhile (· != 0x0A) with
  | nil =>
      rw [hdrop, List.append_nil] at hsplit
      rw [hsplit]
      exact hs
  | cons c r =>
      have hc : c = 0x0A := by
        have hnot := List.head?_dropWhile_not (· != 0x0A) s
        rw [hdrop] at hnot
        simpa using hnot
      rw [hdrop, hc] at hsplit
      rw [← hsplit] at hs
      exact ((utf8_ascii (by decide)).mp hs).1

theorem utf8_firstSentence {s : Bytes} (hs : Utf8 s) : Utf8 (firstSentence s) := by
  rw [firstSentence]
  split
  · rename_i i hfind
    have hends := List.find?_some hfind
    have hi := List.mem_range.mp (List.mem_of_find?_eq_some hfind)
    have hget : s[i]? = some (s.getD i 0) := by
      rw [List.getD_eq_getElem?_getD, List.getElem?_eq_getElem (by omega)]
      rfl
    refine (utf8_at hs hget ?_).2.1
    simp only [endsSentence, Bool.and_eq_true, Bool.or_eq_true, beq_iff_eq] at hends
    rcases hends.1.1 with (h | h) | h <;> rw [h] <;> decide
  · exact hs

/-- The loop stops between two sequences. -/
theorem utf8_floorLoop {s : Bytes} {max fuel i : Nat} (htake : Utf8 (s.take i))
    (hdrop : Utf8 (s.drop i)) : Utf8 (s.take (floorLoop s max fuel i)) := by
  induction fuel generalizing i with
  | zero => exact htake
  | succ fuel ih =>
      rw [floorLoop]
      by_cases hi : i < s.length
      · have hne : s.drop i ≠ [] := by
          intro h
          have := congrArg List.length h
          rw [List.length_drop, List.length_nil] at this
          omega
        have hlen : utf8SeqLen (s.drop i) ≠ 0 := utf8SeqLen_ne_zero hdrop hne
        rw [if_pos hi, if_neg hlen]
        dsimp only
        split
        · exact htake
        · apply ih
          · rw [List.take_add]
            exact htake.append (seq_of_utf8SeqLen hlen).wellFormed
          · rw [← List.drop_drop]
            exact (utf8_drop_utf8SeqLen hlen).mp hdrop
      · rw [if_neg hi]
        exact htake

theorem utf8_utf8Floor {s : Bytes} (hs : Utf8 s) (max : Nat) : Utf8 (s.take (utf8Floor s max)) :=
  utf8_floorLoop utf8_nil hs

/-- **A summary is well formed, whatever it is a summary of.** -/
theorem utf8_summary (desc : Bytes) : Utf8 (summary desc) := by
  rw [summary]
  dsimp only
  split
  · exact utf8_nil
  · have htext : Utf8 ((utf8Sanitize desc).dropWhile isBlank) :=
      utf8_dropWhile isBlank_ascii (utf8_utf8Sanitize desc)
    have hline := utf8_trimRight (utf8_firstSentence (utf8_takeWhile_line htext))
    split
    · exact hline
    · exact (utf8_trimRight (utf8_utf8Floor hline _)).append ⟨['\u2026'], by decide⟩

/-! ## Descriptions

All that the loop drops or writes of its own is ASCII; the rest it copies byte by byte. -/

/-- What is dropped are spaces, and what is added is a line break. -/
theorem utf8_startLine {out : Bytes} (h : Utf8 out) : Utf8 (startLine out) := by
  have htrim := utf8_rdropWhile isSpace_ascii h
  rw [startLine]
  split
  · exact htrim
  · exact htrim.append (by decide)

/-- Spaces are passed over whole. -/
theorem utf8_drop_skipSpaces {s : Bytes} {j : Nat} (h : Utf8 (s.drop j)) :
    Utf8 (s.drop (skipSpaces s j)) := by
  have hskip : (s.drop j).drop ((s.drop j).takeWhile isSpace).length =
      (s.drop j).dropWhile isSpace := by
    calc (s.drop j).drop ((s.drop j).takeWhile isSpace).length
      _ = ((s.drop j).takeWhile isSpace ++ (s.drop j).dropWhile isSpace).drop
            ((s.drop j).takeWhile isSpace).length := by rw [List.takeWhile_append_dropWhile]
      _ = (s.drop j).dropWhile isSpace := List.drop_left
  rw [skipSpaces, ← List.drop_drop, hskip]
  exact utf8_dropWhile isSpace_ascii h

/-- A keyword is ASCII, so a string may be cut after it. -/
theorem utf8_drop_keyword {s kw : Bytes} {i : Nat} (hkw : ∀ c ∈ kw, c.toNat < 0x80)
    (h : keywordAt s i kw = true) (hs : Utf8 (s.drop i)) : Utf8 (s.drop (i + kw.length)) := by
  simp only [keywordAt, Bool.and_eq_true, beq_iff_eq] at h
  rw [← List.take_append_drop kw.length (s.drop i), h.1.1, List.drop_drop] at hs
  exact (utf8_ascii_append hkw).mp hs

theorem isWordChar_ascii {c : UInt8} (h : isWordChar c = true) : c.toNat < 0x80 := by
  simp only [isWordChar, ge_iff_le, Bool.or_eq_true, Bool.and_eq_true, decide_eq_true_eq,
    beq_iff_eq, UInt8.le_iff_toNat_le, ← UInt8.toNat_inj] at h
  simp at h
  omega

/-- What is not made of word characters is cleared. -/
theorem utf8_wordsOrNothing (lang : Bytes) :
    Utf8 (if lang.all fun c => isWordChar c || c == 0x2B || c == 0x2D then lang else []) := by
  split
  · rename_i hall
    apply utf8_of_ascii
    intro c hc
    have hcase := List.all_eq_true.mp hall c hc
    simp only [Bool.or_eq_true, beq_iff_eq] at hcase
    rcases hcase with (hword | rfl) | rfl
    · exact isWordChar_ascii hword
    · decide
    · decide
  · exact utf8_nil

theorem utf8_fenceLang (braced : Bytes) : Utf8 (fenceLang braced) := utf8_wordsOrNothing _

theorem utf8_codeLang {s : Bytes} {j : Nat} (h : Utf8 (s.drop j)) :
    Utf8 (codeLang s j).1 ∧ Utf8 (s.drop (codeLang s j).2) ∧ j ≤ (codeLang s j).2 := by
  rw [codeLang]
  split
  · rename_i rest hrest
    split
    · rename_i n hfind
      refine ⟨utf8_fenceLang _, ?_, by omega⟩
      rw [hrest] at h
      have hafter : s.drop (j + 1) = rest := by
        rw [← List.drop_drop, hrest]
        rfl
      have hget : rest[n]? = some 0x7D := by
        obtain ⟨hn, hget, _⟩ := List.findIdx?_eq_some_iff_getElem.mp hfind
        rw [List.getElem?_eq_getElem hn, beq_iff_eq.mp hget]
      rw [show j + 1 + n + 1 = j + 1 + (n + 1) by omega, ← List.drop_drop, hafter]
      exact (utf8_at ((utf8_ascii_cons (by decide)).mp h) hget (by decide)).2.2
    · exact ⟨utf8_nil, h, Nat.le_refl j⟩
  · exact ⟨utf8_nil, h, Nat.le_refl j⟩

/-- The rest after a line break. -/
theorem utf8_drop_newline {s : Bytes} {j : Nat} (h : Utf8 (s.drop j)) :
    Utf8 (s.drop (if (s.drop j).head? == some 0x0A then j + 1 else j)) := by
  split
  · rename_i hhead
    have hget : (s.drop j)[0]? = some 0x0A := by
      rw [← List.head?_eq_getElem?]
      exact beq_iff_eq.mp hhead
    rw [← List.drop_drop]
    exact (utf8_at h hget (by decide)).2.2
  · exact h

theorem utf8_kFence : Utf8 kFence := by decide

/-- What is written and what is still to be read are well formed together, from round to round. -/
theorem utf8_descriptionLoop {s out : Bytes} {fuel i : Nat} {inCode : Bool}
    (hfuel : s.length ≤ i + fuel) (h : Utf8 (out ++ s.drop i)) :
    Utf8 (descriptionLoop s fuel i inCode out).1 := by
  induction fuel generalizing i inCode out with
  | zero =>
      rw [List.drop_eq_nil_of_le (show s.length ≤ i from hfuel), List.append_nil] at h
      exact h
  | succ fuel ih =>
      rw [descriptionLoop]
      split
      · rename_i hnil
        rw [hnil, List.append_nil] at h
        exact h
      · rename_i c rest hrest
        -- a keyword begins with `@`, so the output so far ends between characters
        have hcut : (c == 0x40) = true → Utf8 out ∧ Utf8 (s.drop i) := by
          intro hc
          obtain rfl : c = 0x40 := beq_iff_eq.mp hc
          rw [hrest] at h ⊢
          obtain ⟨hout, hafter⟩ := (utf8_ascii (by decide)).mp h
          exact ⟨hout, (utf8_ascii_cons (by decide)).mpr hafter⟩
        split
        · rename_i hcode
          simp only [Bool.and_eq_true] at hcode
          obtain ⟨hout, hin⟩ := hcut hcode.1.2
          have hafter : Utf8 (s.drop (i + 5)) := utf8_drop_keyword (by decide) hcode.2 hin
          obtain ⟨hlang, hdrop, hle⟩ := utf8_codeLang hafter
          generalize codeLang s (i + 5) = code at hlang hdrop hle
          obtain ⟨lang, j⟩ := code
          dsimp only at hlang hdrop hle
          have hskip : j ≤ skipSpaces s j := Nat.le_add_right _ _
          apply ih
          · split <;> omega
          · refine Utf8.append ?_ (utf8_drop_newline (utf8_drop_skipSpaces hdrop))
            exact (((utf8_startLine hout).append utf8_kFence).append hlang).append (by decide)
        split
        · rename_i hcode
          simp only [Bool.and_eq_true] at hcode
          obtain ⟨hout, hin⟩ := hcut hcode.1.2
          have hafter : Utf8 (s.drop (i + 8)) := utf8_drop_keyword (by decide) hcode.2 hin
          have hskip : i + 8 ≤ skipSpaces s (i + 8) := Nat.le_add_right _ _
          have hfence := (utf8_startLine hout).append utf8_kFence
          apply ih (by omega)
          refine Utf8.append ?_ (utf8_drop_skipSpaces hafter)
          split
          · exact hfence.append (by decide)
          · exact hfence
        · apply ih (by omega)
          have hdrop : s.drop (i + 1) = rest := by
            rw [← List.drop_drop, hrest]
            rfl
          rw [List.append_assoc, hdrop, List.singleton_append, ← hrest]
          exact h

/-- **A description is well formed, whatever it describes.** -/
theorem utf8_description (desc : Bytes) : Utf8 (description desc) := by
  have hloop : Utf8 (descriptionLoop (utf8Sanitize desc) (utf8Sanitize desc).length 0 false []).1 :=
    utf8_descriptionLoop (by omega) (utf8_utf8Sanitize desc)
  rw [description]
  generalize descriptionLoop (utf8Sanitize desc) (utf8Sanitize desc).length 0 false [] = result
    at hloop
  obtain ⟨out, inCode⟩ := result
  cases inCode with
  | true => exact (utf8_startLine hloop).append utf8_kFence
  | false => exact hloop

end JsonRpcBridge.Docs
