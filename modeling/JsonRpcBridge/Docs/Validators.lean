import JsonRpcBridge.Discovery.Model
import JsonRpcBridge.Docs.Text

/-!
# Two validators of UTF-8

`isValidUtf8` checks a contract by pointer, `utf8Valid` a text of the documents by index. They read a
lead byte from two tables and count its sequence from different ends, but go through a string in the
same rounds (`isValidUtf8Loop_eq`), so that no contract is let in that a document could not hold.
-/

namespace JsonRpcBridge.Docs

/-- One table counts the bytes of a sequence, the other those after the first. -/
theorem utf8Lead_eq (c : UInt8) :
    utf8Lead c = (seqBounds c).map fun b => (b.1 - 1, b.2.1, b.2.2) := by
  have hall : ∀ n : Fin 256, utf8Lead (UInt8.ofNat n) =
      (seqBounds (UInt8.ofNat n)).map fun b => (b.1 - 1, b.2.1, b.2.2) := by decide +kernel
  have hc := hall ⟨c.toNat, c.toNat_lt⟩
  rwa [UInt8.ofNat_toNat] at hc

/-- One round: the sequence that the other validator finds is skipped. -/
theorem isValidUtf8Loop_cons (fuel : Nat) (c : UInt8) (rest : Bytes) :
    isValidUtf8Loop (fuel + 1) (c :: rest) =
      if utf8SeqLen (c :: rest) == 0 then false
      else isValidUtf8Loop fuel ((c :: rest).drop (utf8SeqLen (c :: rest))) := by
  rw [isValidUtf8Loop]
  by_cases hascii : c < 0x80
  · have hone : utf8SeqLen (c :: rest) = 1 := if_pos hascii
    rw [if_pos hascii, hone]
    rfl
  rw [if_neg hascii, utf8Lead_eq]
  cases hbounds : seqBounds c with
  | none =>
      have hlead : utf8SeqLen (c :: rest) = 0 := by
        simp only [utf8SeqLen, if_neg hascii, hbounds]
      rw [hlead]
      rfl
  | some b =>
      obtain ⟨len, lo, hi⟩ := b
      have hlead : utf8SeqLen (c :: rest) =
          if len > (c :: rest).length || rest.headD 0 < lo || rest.headD 0 > hi then 0
          else if (((c :: rest).take len).drop 2).any fun b => b < 0x80 || b > 0xBF then 0
          else len := by
        simp only [utf8SeqLen, if_neg hascii, hbounds]
      have hlen : 2 ≤ len := by
        have hrow := seqBounds_cases hbounds
        omega
      obtain ⟨n, rfl⟩ := Nat.exists_eq_add_of_le' hlen
      dsimp only [Option.map_some] at hlead ⊢
      have htails : (rest.take (n + 2 - 1)).drop 1 = ((c :: rest).take (n + 2)).drop 2 := rfl
      have hdrop : rest.drop (n + 2 - 1) = (c :: rest).drop (n + 2) := rfl
      have hshort : decide (n + 2 > (c :: rest).length) = decide (rest.length < n + 2 - 1) := by
        rw [List.length_cons, decide_eq_decide]
        omega
      rw [htails, hdrop]
      rw [hshort] at hlead
      -- the same three tests, one after the other here and two of them together there
      by_cases h1 : rest.length < n + 2 - 1
      · have hzero : utf8SeqLen (c :: rest) = 0 := by
          rw [hlead, decide_eq_true h1, Bool.true_or, Bool.true_or, if_pos rfl]
        rw [hzero, if_pos h1]
        rfl
      by_cases h2 : (rest.headD 0 < lo || rest.headD 0 > hi) = true
      · have hzero : utf8SeqLen (c :: rest) = 0 := by
          rw [hlead, Bool.or_assoc, if_pos (by rw [h2, Bool.or_true])]
        rw [hzero, if_neg h1, if_pos h2]
        rfl
      have hbad : ¬(decide (rest.length < n + 2 - 1) || rest.headD 0 < lo || rest.headD 0 > hi) := by
        rw [decide_eq_false h1, Bool.false_or]
        exact h2
      rw [if_neg hbad] at hlead
      rw [if_neg h1, if_neg h2]
      split
      · rename_i h3
        rw [if_pos h3] at hlead
        rw [hlead]
        rfl
      · rename_i h3
        rw [if_neg h3] at hlead
        rw [hlead]
        rfl

/-- The two loops go through a string in the same rounds. -/
theorem isValidUtf8Loop_eq (fuel : Nat) (s : Bytes) :
    isValidUtf8Loop fuel s = utf8ValidLoop fuel s := by
  induction fuel generalizing s with
  | zero => rfl
  | succ fuel ih =>
      cases s with
      | nil => rfl
      | cons c rest =>
          have hcons : (c :: rest).isEmpty = false := rfl
          rw [isValidUtf8Loop_cons, utf8ValidLoop, hcons, if_neg Bool.false_ne_true]
          split
          · rfl
          · exact ih _

theorem utf8Sanitize_eq_self_iff {s : Bytes} : utf8Sanitize s = s ↔ utf8Valid s = true := by
  constructor
  · intro h
    rw [← h, utf8Valid_iff]
    exact utf8_utf8Sanitize s
  · intro h
    rw [utf8Sanitize, if_pos h]

/-- **The validators agree, and are exact**: they accept the encodings of scalar values. Sanitising
gives a text that both accept, and leaves those texts alone. -/
theorem validators_exact (s : Bytes) :
    isValidUtf8 s = utf8Valid s ∧
    (utf8Valid s = true ↔ ∃ cs : List Char, s = cs.flatMap String.utf8EncodeChar) ∧
    (isValidUtf8 (utf8Sanitize s) = true ∧ utf8Valid (utf8Sanitize s) = true) ∧
    (utf8Sanitize s = s ↔ utf8Valid s = true) ∧
    utf8Sanitize (utf8Sanitize s) = utf8Sanitize s := by
  have hagree (t : Bytes) : isValidUtf8 t = utf8Valid t := isValidUtf8Loop_eq t.length t
  have hsanitised : utf8Valid (utf8Sanitize s) = true := utf8Valid_iff.mpr (utf8_utf8Sanitize s)
  exact ⟨hagree s, utf8Valid_iff, ⟨(hagree _).trans hsanitised, hsanitised⟩,
    utf8Sanitize_eq_self_iff, utf8Sanitize_eq_self_iff.mpr hsanitised⟩

end JsonRpcBridge.Docs
