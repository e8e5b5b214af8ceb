import Mathlib.Data.List.Basic
import Mathlib.Tactic.SplitIfs

/-!
# Well-formed UTF-8

A byte string is well formed when it encodes a sequence of Unicode scalar values (Lean's `Char`).
The encodings of single characters are the nine rows of the table of well-formed byte sequences
(`Seq`), which is what a validator checks; `seq_iff` says that the two agree.

* `Seq.eq_of_append`: no encoding is a prefix of another.
* `wellFormed_ascii`: a well-formed string may be cut at any ASCII byte.
* `encode_injective`: a string encodes one sequence of characters.

`WhiteSpace` and `Control` are the two properties of characters that say what is not seen.
-/

namespace Unicode

/-- A byte string that encodes a sequence of characters. -/
def WellFormed (b : List UInt8) : Prop := ∃ cs : List Char, b = cs.flatMap String.utf8EncodeChar

/-- `80..BF` -/
def Tail (b : UInt8) : Prop := 0x80 ≤ b.toNat ∧ b.toNat ≤ 0xBF

/-- The well-formed sequences of one character. -/
inductive Seq : List UInt8 → Prop
  | ascii {a : UInt8} : a.toNat ≤ 0x7F → Seq [a]
  | two {a b : UInt8} : 0xC2 ≤ a.toNat → a.toNat ≤ 0xDF → Tail b → Seq [a, b]
  | e0 {a b c : UInt8} : a.toNat = 0xE0 → 0xA0 ≤ b.toNat → b.toNat ≤ 0xBF → Tail c → Seq [a, b, c]
  | three {a b c : UInt8} : 0xE1 ≤ a.toNat → a.toNat ≤ 0xEF → a.toNat ≠ 0xED → Tail b → Tail c →
      Seq [a, b, c]
  | ed {a b c : UInt8} : a.toNat = 0xED → 0x80 ≤ b.toNat → b.toNat ≤ 0x9F → Tail c → Seq [a, b, c]
  | f0 {a b c d : UInt8} : a.toNat = 0xF0 → 0x90 ≤ b.toNat → b.toNat ≤ 0xBF → Tail c → Tail d →
      Seq [a, b, c, d]
  | four {a b c d : UInt8} : 0xF1 ≤ a.toNat → a.toNat ≤ 0xF3 → Tail b → Tail c → Tail d →
      Seq [a, b, c, d]
  | f4 {a b c d : UInt8} : a.toNat = 0xF4 → 0x80 ≤ b.toNat → b.toNat ≤ 0x8F → Tail c → Tail d →
      Seq [a, b, c, d]

/-! ## The table is the encoding

A row of the table is the encoding of the characters of one range. From the bytes the number of
the character is computed, and from the number the bytes. -/

theorem ofNat_eq {b : UInt8} {n : Nat} (h : b.toNat = n) : UInt8.ofNat n = b := by
  rw [← h, UInt8.ofNat_toNat]

theorem toNat_ofNat_of_lt {n : Nat} (h : n < 256) : (UInt8.ofNat n).toNat = n := by
  rw [UInt8.toNat_ofNat']
  omega

/-- The character of a scalar value. -/
theorem val_ofNat {v : Nat} (h : v.isValidChar) : (Char.ofNat v).val.toNat = v := by
  rw [Char.ofNat, dif_pos h]
  rfl

theorem encode_one {v : Nat} (h : v ≤ 0x7F) :
    String.utf8EncodeChar (Char.ofNat v) = [UInt8.ofNat v] := by
  have hv : (Char.ofNat v).val.toNat = v := val_ofNat (.inl (by omega))
  simp only [String.utf8EncodeChar, hv]
  rw [if_pos h]

theorem encode_two {v : Nat} (hlo : 0x80 ≤ v) (hhi : v ≤ 0x7FF) :
    String.utf8EncodeChar (Char.ofNat v) =
      [UInt8.ofNat (v / 64 + 0xC0), UInt8.ofNat (v % 64 + 0x80)] := by
  have hv : (Char.ofNat v).val.toNat = v := val_ofNat (.inl (by omega))
  have hdiv : v / 64 % 0x20 = v / 64 := by omega
  simp only [String.utf8EncodeChar, hv, hdiv]
  rw [if_neg (by omega), if_pos hhi]

theorem encode_three {v : Nat} (hv : v.isValidChar) (hlo : 0x800 ≤ v) (hhi : v ≤ 0xFFFF) :
    String.utf8EncodeChar (Char.ofNat v) =
      [UInt8.ofNat (v / 4096 + 0xE0), UInt8.ofNat (v / 64 % 64 + 0x80),
        UInt8.ofNat (v % 64 + 0x80)] := by
  have hdiv : v / 4096 % 0x10 = v / 4096 := by omega
  simp only [String.utf8EncodeChar, val_ofNat hv, hdiv]
  rw [if_neg (by omega), if_neg (by omega), if_pos hhi]

theorem encode_four {v : Nat} (hv : v.isValidChar) (hlo : 0x10000 ≤ v) (hhi : v ≤ 0x10FFFF) :
    String.utf8EncodeChar (Char.ofNat v) =
      [UInt8.ofNat (v / 262144 + 0xF0), UInt8.ofNat (v / 4096 % 64 + 0x80),
        UInt8.ofNat (v / 64 % 64 + 0x80), UInt8.ofNat (v % 64 + 0x80)] := by
  have hdiv : v / 262144 % 0x08 = v / 262144 := by omega
  simp only [String.utf8EncodeChar, val_ofNat hv, hdiv]
  rw [if_neg (by omega), if_neg (by omega), if_neg (by omega)]

/-- Three bytes, as one number. -/
theorem seq_three {a b c : UInt8} (ha : 0xE0 ≤ a.toNat ∧ a.toNat ≤ 0xEF) (hb : Tail b)
    (hc : Tail c)
    (hlo : 0x800 ≤ (a.toNat - 0xE0) * 4096 + (b.toNat - 0x80) * 64 + (c.toNat - 0x80))
    (hsurrogate : (a.toNat - 0xE0) * 4096 + (b.toNat - 0x80) * 64 + (c.toNat - 0x80) < 0xD800 ∨
      0xDFFF < (a.toNat - 0xE0) * 4096 + (b.toNat - 0x80) * 64 + (c.toNat - 0x80)) :
    ∃ ch : Char, [a, b, c] = String.utf8EncodeChar ch := by
  unfold Tail at hb hc
  set v := (a.toNat - 0xE0) * 4096 + (b.toNat - 0x80) * 64 + (c.toNat - 0x80) with hv
  refine ⟨Char.ofNat v, ?_⟩
  have hvalid : v.isValidChar := by
    rcases hsurrogate with h | h
    · exact .inl h
    · exact .inr ⟨h, by omega⟩
  rw [encode_three hvalid hlo (by omega), ofNat_eq (b := a) (by omega), ofNat_eq (b := b) (by omega),
    ofNat_eq (b := c) (by omega)]

theorem seq_four {a b c d : UInt8} (ha : 0xF0 ≤ a.toNat ∧ a.toNat ≤ 0xF4) (hb : Tail b)
    (hc : Tail c) (hd : Tail d)
    (hlo : 0x10000 ≤ (a.toNat - 0xF0) * 262144 + (b.toNat - 0x80) * 4096 + (c.toNat - 0x80) * 64 +
      (d.toNat - 0x80))
    (hhi : (a.toNat - 0xF0) * 262144 + (b.toNat - 0x80) * 4096 + (c.toNat - 0x80) * 64 +
      (d.toNat - 0x80) ≤ 0x10FFFF) :
    ∃ ch : Char, [a, b, c, d] = String.utf8EncodeChar ch := by
  unfold Tail at hb hc hd
  set v := (a.toNat - 0xF0) * 262144 + (b.toNat - 0x80) * 4096 + (c.toNat - 0x80) * 64 +
    (d.toNat - 0x80) with hv
  refine ⟨Char.ofNat v, ?_⟩
  have hvalid : v.isValidChar := .inr ⟨by omega, by omega⟩
  rw [encode_four hvalid hlo hhi, ofNat_eq (b := a) (by omega), ofNat_eq (b := b) (by omega),
    ofNat_eq (b := c) (by omega), ofNat_eq (b := d) (by omega)]

/-! ### Both directions

Each row of the table has its own range of numbers, and each character falls into one of the
ranges. -/

theorem Seq.exists_char {s : List UInt8} (h : Seq s) : ∃ c : Char, s = String.utf8EncodeChar c := by
  cases h with
  | @ascii a ha => exact ⟨Char.ofNat a.toNat, by rw [encode_one ha, UInt8.ofNat_toNat]⟩
  | @two a b hlo hhi hb =>
      unfold Tail at hb
      refine ⟨Char.ofNat ((a.toNat - 0xC0) * 64 + (b.toNat - 0x80)), ?_⟩
      rw [encode_two (by omega) (by omega), ofNat_eq (b := a) (by omega),
        ofNat_eq (b := b) (by omega)]
  | e0 ha hlo hhi hc =>
      unfold Tail at hc
      exact seq_three (by omega) ⟨by omega, hhi⟩ hc (by omega) (by omega)
  | three hlo hhi hne hb hc =>
      unfold Tail at hb hc
      exact seq_three (by omega) hb hc (by omega) (by omega)
  | ed ha hlo hhi hc =>
      unfold Tail at hc
      exact seq_three (by omega) ⟨hlo, by omega⟩ hc (by omega) (by omega)
  | f0 ha hlo hhi hc hd =>
      unfold Tail at hc hd
      exact seq_four (by omega) ⟨by omega, hhi⟩ hc hd (by omega) (by omega)
  | four hlo hhi hb hc hd =>
      unfold Tail at hb hc hd
      exact seq_four (by omega) hb hc hd (by omega) (by omega)
  | f4 ha hlo hhi hc hd =>
      unfold Tail at hc hd
      exact seq_four (by omega) ⟨hlo, by omega⟩ hc hd (by omega) (by omega)

theorem seq_encode (c : Char) : Seq (String.utf8EncodeChar c) := by
  have hvalid : c.val.toNat < 0xD800 ∨ 0xDFFF < c.val.toNat ∧ c.val.toNat < 0x110000 := c.valid
  have htail : ∀ n : Nat, Tail (UInt8.ofNat (n % 64 + 0x80)) := by
    intro n
    rw [Tail, toNat_ofNat_of_lt (by omega)]
    omega
  simp only [String.utf8EncodeChar]
  generalize c.val.toNat = v at hvalid
  -- one, two, three and four bytes; the surrogates are no characters
  by_cases h1 : v ≤ 0x7F
  · rw [if_pos h1]
    refine .ascii ?_
    rw [toNat_ofNat_of_lt (by omega)]
    exact h1
  rw [if_neg h1]
  by_cases h2 : v ≤ 0x7FF
  · rw [if_pos h2]
    refine .two ?_ ?_ (htail v)
    all_goals
      rw [toNat_ofNat_of_lt (by omega)]
      omega
  rw [if_neg h2]
  by_cases h3 : v ≤ 0xFFFF
  · rw [if_pos h3]
    have ha : (UInt8.ofNat (v / 4096 % 16 + 0xE0)).toNat = v / 4096 + 0xE0 := by
      rw [toNat_ofNat_of_lt (by omega)]
      omega
    have hb : (UInt8.ofNat (v / 64 % 64 + 0x80)).toNat = v / 64 % 64 + 0x80 :=
      toNat_ofNat_of_lt (by omega)
    by_cases he0 : v / 4096 = 0
    · exact .e0 (by omega) (by omega) (by omega) (htail _)
    by_cases hed : v / 4096 = 13
    · exact .ed (by omega) (by omega) (by omega) (htail _)
    exact .three (by omega) (by omega) (by omega) (htail _) (htail _)
  · rw [if_neg h3]
    have ha : (UInt8.ofNat (v / 262144 % 8 + 0xF0)).toNat = v / 262144 + 0xF0 := by
      rw [toNat_ofNat_of_lt (by omega)]
      omega
    have hb : (UInt8.ofNat (v / 4096 % 64 + 0x80)).toNat = v / 4096 % 64 + 0x80 :=
      toNat_ofNat_of_lt (by omega)
    by_cases hf0 : v / 262144 = 0
    · exact .f0 (by omega) (by omega) (by omega) (htail _) (htail _)
    by_cases hf4 : v / 262144 = 4
    · exact .f4 (by omega) (by omega) (by omega) (htail _) (htail _)
    exact .four (by omega) (by omega) (htail _) (htail _) (htail _)

/-- The table lists the encodings of single characters. -/
theorem seq_iff {s : List UInt8} : Seq s ↔ ∃ c : Char, s = String.utf8EncodeChar c := by
  constructor
  · exact Seq.exists_char
  · rintro ⟨c, rfl⟩
    exact seq_encode c

/-! ## Strings

A well-formed string is cut into sequences in one way only: the first byte tells the length. So
it may be read from the front, and cut before or after any ASCII byte. -/

/-- How long the sequence is that begins with `a`. -/
def width (a : UInt8) : Nat :=
  if a.toNat ≤ 0x7F then 1 else if a.toNat ≤ 0xDF then 2 else if a.toNat ≤ 0xEF then 3 else 4

theorem Seq.eq_cons {s : List UInt8} (h : Seq s) : ∃ a r, s = a :: r ∧ s.length = width a := by
  cases h with
  | ascii ha => exact ⟨_, _, rfl, by rw [width, if_pos ha]; rfl⟩
  | two hlo hhi hb =>
      refine ⟨_, _, rfl, ?_⟩
      rw [width, if_neg (by omega), if_pos hhi]
      rfl
  | e0 | three | ed =>
      refine ⟨_, _, rfl, ?_⟩
      rw [width, if_neg (by omega), if_neg (by omega), if_pos (by omega)]
      rfl
  | f0 | four | f4 =>
      refine ⟨_, _, rfl, ?_⟩
      rw [width, if_neg (by omega), if_neg (by omega), if_neg (by omega)]
      rfl

theorem Seq.ne_nil {s : List UInt8} (h : Seq s) : s ≠ [] := by
  obtain ⟨a, r, rfl, _⟩ := h.eq_cons
  exact List.cons_ne_nil a r

/-- No sequence is a proper prefix of another. -/
theorem Seq.eq_of_append {s t x y : List UInt8} (hs : Seq s) (ht : Seq t)
    (h : s ++ x = t ++ y) : s = t ∧ x = y := by
  obtain ⟨a, r, rfl, hlen⟩ := hs.eq_cons
  obtain ⟨b, q, rfl, hlen'⟩ := ht.eq_cons
  obtain ⟨rfl, _⟩ := List.cons_eq_cons.mp h
  exact List.append_inj h (hlen.trans hlen'.symm)

/-- An ASCII byte is a sequence of its own. -/
theorem Seq.eq_of_ascii_mem {s : List UInt8} (h : Seq s) {c : UInt8} (hc : c.toNat < 0x80)
    (hmem : c ∈ s) : s = [c] := by
  cases h with
  | ascii ha => rw [List.mem_singleton.mp hmem]
  | _ =>
      unfold Tail at *
      simp only [List.mem_cons, List.not_mem_nil, or_false] at hmem
      rcases hmem with rfl | rfl | rfl | rfl <;> omega

theorem wellFormed_nil : WellFormed [] := ⟨[], rfl⟩

theorem Seq.wellFormed {s : List UInt8} (h : Seq s) : WellFormed s := by
  obtain ⟨c, rfl⟩ := h.exists_char
  exact ⟨[c], by simp⟩

theorem WellFormed.append {a b : List UInt8} (ha : WellFormed a) (hb : WellFormed b) :
    WellFormed (a ++ b) := by
  obtain ⟨cs, rfl⟩ := ha
  obtain ⟨ds, rfl⟩ := hb
  exact ⟨cs ++ ds, by rw [List.flatMap_append]⟩

/-- A well-formed string is empty, or a sequence and a well-formed string. -/
theorem WellFormed.cases {b : List UInt8} (h : WellFormed b) :
    b = [] ∨ ∃ s r, Seq s ∧ WellFormed r ∧ b = s ++ r := by
  obtain ⟨cs, rfl⟩ := h
  cases cs with
  | nil => exact .inl rfl
  | cons c cs => exact .inr ⟨_, _, seq_encode c, ⟨cs, rfl⟩, by rw [List.flatMap_cons]⟩

/-- The rest of a well-formed string after a sequence is well formed. -/
theorem wellFormed_seq_append {s r : List UInt8} (hs : Seq s) :
    WellFormed (s ++ r) ↔ WellFormed r := by
  constructor
  · intro h
    rcases h.cases with hnil | ⟨t, q, ht, hq, heq⟩
    · exact absurd (List.append_eq_nil_iff.mp hnil).1 hs.ne_nil
    · obtain ⟨_, rfl⟩ := hs.eq_of_append ht heq
      exact hq
  · exact hs.wellFormed.append

/-- A well-formed string may be cut at any ASCII byte. -/
theorem wellFormed_ascii {c : UInt8} (hc : c.toNat < 0x80) {x y : List UInt8} :
    WellFormed (x ++ c :: y) ↔ WellFormed x ∧ WellFormed y := by
  have hone : Seq [c] := .ascii (by omega)
  constructor
  · intro h
    induction hn : x.length using Nat.strongRecOn generalizing x with
    | _ n ih =>
      rcases h.cases with hnil | ⟨s, r, hs, hr, heq⟩
      · exact absurd hnil (by simp)
      · by_cases hx : x = []
        · subst hx
          refine ⟨wellFormed_nil, ?_⟩
          exact (wellFormed_seq_append hone).mp h
        · -- the first sequence ends before the byte, or it would hold it
          by_cases hlen : s.length ≤ x.length
          · obtain ⟨q, rfl⟩ : ∃ q, x = s ++ q := by
              refine ⟨x.drop s.length, ?_⟩
              have htake : s = x.take s.length := by
                have := congrArg (List.take s.length) heq
                rw [List.take_append_of_le_length hlen, List.take_left] at this
                exact this.symm
              conv_lhs => rw [← List.take_append_drop s.length x, ← htake]
            rw [List.append_assoc] at heq
            obtain rfl := List.append_cancel_left heq
            have hpos : 0 < s.length := List.length_pos_iff.mpr hs.ne_nil
            obtain ⟨hq, hy⟩ := ih q.length (by rw [← hn, List.length_append]; omega) hr rfl
            exact ⟨hs.wellFormed.append hq, hy⟩
          · have hmem : c ∈ s := by
              have hget : (x ++ c :: y)[x.length]? = some c := by simp
              rw [heq, List.getElem?_append_left (by omega)] at hget
              exact List.mem_of_getElem? hget
            have hlen1 := congrArg List.length (hs.eq_of_ascii_mem hc hmem)
            have hpos : 0 < x.length := List.length_pos_iff.mpr hx
            rw [List.length_singleton] at hlen1
            omega
  · rintro ⟨hx, hy⟩
    exact hx.append ((wellFormed_seq_append hone).mpr hy)

/-! ## Reading the characters back -/

/-- A string encodes one sequence of characters. -/
theorem encode_injective {cs ds : List Char}
    (h : cs.flatMap String.utf8EncodeChar = ds.flatMap String.utf8EncodeChar) : cs = ds := by
  apply String.ofList_injective
  apply String.toByteArray_inj.mp
  exact congrArg List.toByteArray h

/-- A character of ASCII is one byte. -/
theorem encode_ascii {c : Char} (h : c.toNat < 0x80) :
    String.utf8EncodeChar c = [UInt8.ofNat c.toNat] := by
  have hone := encode_one (show c.toNat ≤ 0x7F by omega)
  rwa [Char.ofNat_toNat] at hone

/-! ## Characters that are not seen

Whitespace and control characters, by their numbers. -/

/-- The property `White_Space`. -/
def WhiteSpace (c : Char) : Prop :=
  (0x09 ≤ c.toNat ∧ c.toNat ≤ 0x0D) ∨ (0x2000 ≤ c.toNat ∧ c.toNat ≤ 0x200A) ∨
    c.toNat ∈ [0x20, 0x85, 0xA0, 0x1680, 0x2028, 0x2029, 0x202F, 0x205F, 0x3000]

/-- The category `Cc`: the two blocks of control characters. -/
def Control (c : Char) : Prop := c.toNat ≤ 0x1F ∨ (0x7F ≤ c.toNat ∧ c.toNat ≤ 0x9F)

instance (c : Char) : Decidable (WhiteSpace c) := inferInstanceAs (Decidable (_ ∨ _ ∨ _))

instance (c : Char) : Decidable (Control c) := inferInstanceAs (Decidable (_ ∨ _))

/-- In ASCII, what is not seen is the blank, `DEL`, and what stands before the blank. -/
theorem unseen_ascii_iff {c : Char} (h : c.toNat < 0x80) :
    (WhiteSpace c ∨ Control c) ↔ c.toNat ≤ 0x20 ∨ c.toNat = 0x7F := by
  unfold WhiteSpace Control
  simp only [List.mem_cons, List.not_mem_nil, or_false]
  omega

end Unicode
