import JsonRpcBridge.OrderedMap
import Mathlib.Data.List.Basic
import Mathlib.Tactic.SplitIfs

/-!
# Byte strings

The bridge's `std::string` is a sequence of bytes with no encoding of its own. `Bytes` models it,
`str` gives the bytes of a literal, and `Utf8` says that a byte string is the UTF-8 encoding of
some sequence of Unicode scalar values (Lean's `Char`), which is what the strict serialiser asks of
every string it writes.
-/

namespace JsonRpcBridge

/-- A `std::string`. -/
abbrev Bytes := List UInt8

/-- The bytes of a string literal. -/
def str (s : String) : Bytes := s.toList.flatMap String.utf8EncodeChar

/-- `std::to_string`. -/
def toStr (n : Int) : Bytes := str (toString n)

/-- A lower-case hexadecimal digit. -/
def hexDigit (n : Nat) : UInt8 := UInt8.ofNat (if n < 10 then 0x30 + n else 0x57 + n)

/-- `s.rfind(p, 0) == 0`. -/
def startsWith (p s : Bytes) : Bool := p.isPrefixOf s

/-- `s.find(c)`; `none` is `npos`. -/
def find (c : UInt8) (s : Bytes) : Option Nat := s.idxOf? c

/-- The two sides of the first `c`, which must sit strictly inside. -/
def splitFirst (c : UInt8) (s : Bytes) : Option (Bytes × Bytes) :=
  match find c s with
  | none => none
  | some i => if i = 0 ∨ i + 1 ≥ s.length then none else some (s.take i, s.drop (i + 1))

/-- `std::less` on `std::string`: lexicographic, byte by byte. -/
def bytesLt : Bytes → Bytes → Bool
  | _, [] => false
  | [], _ :: _ => true
  | a :: as, b :: bs => a < b || (a == b && bytesLt as bs)

/-- Decided along the string, and not for each byte there is. -/
instance (priority := high) Bytes.decidableForall {p : UInt8 → Prop} [DecidablePred p] (s : Bytes) :
    Decidable (∀ c ∈ s, p c) := List.decidableBAll p s

/-- Different literals have different bytes. -/
theorem str_inj {s t : String} : str s = str t ↔ s = t := by
  constructor
  · intro h
    have hencode : s.toList.utf8Encode = t.toList.utf8Encode := congrArg List.toByteArray h
    rw [String.utf8Encode_toList, String.utf8Encode_toList] at hencode
    exact String.toByteArray_inj.mp hencode
  · rintro rfl
    rfl

/-! ### Prefixes and separators

`startsWith` and `find` are given their meaning in `++`, so that no later proof looks at an
index. A prefix without the separator is what stands before the first one. -/

theorem startsWith_iff {p s : Bytes} : startsWith p s = true ↔ ∃ rest, s = p ++ rest := by
  rw [startsWith, List.isPrefixOf_iff_prefix]
  exact ⟨fun ⟨rest, h⟩ => ⟨rest, h.symm⟩, fun ⟨rest, h⟩ => ⟨rest, h.symm⟩⟩

theorem find_append {c : UInt8} {m x : Bytes} (h : c ∉ m) :
    find c (m ++ c :: x) = some m.length := by
  unfold find
  induction m with
  | nil => simp [List.idxOf?_cons]
  | cons a m ih =>
      have ha : (a == c) = false := by
        rw [beq_eq_false_iff_ne]
        exact fun hac => h (hac ▸ List.mem_cons_self)
      rw [List.cons_append, List.idxOf?_cons, ha, ih fun hm => h (List.mem_cons_of_mem _ hm)]
      rfl

theorem splitFirst_append {c : UInt8} {m x : Bytes} (h : c ∉ m) (hx : x ≠ []) :
    splitFirst c (m ++ c :: x) = if m = [] then none else some (m, x) := by
  have hlength : 0 < x.length := List.length_pos_iff.mpr hx
  rw [splitFirst, find_append h]
  dsimp only
  by_cases hm : m = []
  · rw [if_pos (Or.inl (by simp [hm])), if_pos hm]
  · have hinside : ¬(m.length = 0 ∨ m.length + 1 ≥ (m ++ c :: x).length) := by
      have := List.length_pos_iff.mpr hm
      simp only [List.length_append, List.length_cons]
      omega
    rw [if_neg hinside, if_neg hm]
    simp

theorem splitFirst_ne_nil {c : UInt8} {s m x : Bytes} (h : splitFirst c s = some (m, x)) : m ≠ [] := by
  unfold splitFirst at h
  split at h
  · cases h
  · rename_i i _
    split at h <;> cases h
    rename_i hinside
    rw [not_or, Nat.not_le] at hinside
    apply List.ne_nil_of_length_pos
    rw [List.length_take]
    omega

/-! ## Well-formed UTF-8 -/

/-- `b` encodes a sequence of Unicode scalar values. -/
def Utf8 (b : Bytes) : Prop := ∃ cs : List Char, b = cs.flatMap String.utf8EncodeChar

theorem utf8_iff_isValidUTF8 {b : Bytes} : Utf8 b ↔ b.toByteArray.IsValidUTF8 := by
  have hencode : ∀ cs : List Char, cs.utf8Encode = (cs.flatMap String.utf8EncodeChar).toByteArray :=
    fun cs => rfl
  constructor
  · rintro ⟨cs, rfl⟩
    rw [← hencode]
    exact ByteArray.isValidUTF8_utf8Encode
  · rintro ⟨cs, hcs⟩
    refine ⟨cs, ?_⟩
    rw [hencode] at hcs
    simpa using congrArg (fun a => a.data.toList) hcs

instance (b : Bytes) : Decidable (Utf8 b) := decidable_of_iff' _ utf8_iff_isValidUTF8

/-! ### Texts that are well formed

Literals, numbers and ASCII, and what is appended from such parts. The error texts of the bridge
are built of these and of names that were checked. -/

theorem utf8_nil : Utf8 [] := ⟨[], rfl⟩

theorem Utf8.append {a b : Bytes} (ha : Utf8 a) (hb : Utf8 b) : Utf8 (a ++ b) := by
  obtain ⟨cs, rfl⟩ := ha
  obtain ⟨ds, rfl⟩ := hb
  exact ⟨cs ++ ds, by rw [List.flatMap_append]⟩

/-- A literal is well formed. -/
theorem utf8_str (s : String) : Utf8 (str s) := ⟨s.toList, rfl⟩

theorem utf8_toStr (n : Int) : Utf8 (toStr n) := utf8_str _

theorem str_ne_nil {s : String} (h : s ≠ "") : str s ≠ [] := by
  intro hnil
  refine h (String.toList_eq_nil_iff.mp (List.eq_nil_iff_forall_not_mem.mpr fun c hc => ?_))
  exact String.utf8EncodeChar_ne_nil (List.flatMap_eq_nil_iff.mp hnil c hc)

theorem utf8_of_ascii : ∀ {b : Bytes}, (∀ x ∈ b, x.toNat < 0x80) → Utf8 b
  | [], _ => utf8_nil
  | x :: b, h => by
    have hx : x.toNat < 0x80 := h x (List.mem_cons_self ..)
    have hchar : String.utf8EncodeChar (Char.ofNat x.toNat) = [x] := by
      have hval : (Char.ofNat x.toNat).val.toNat = x.toNat := by
        have hvalid : x.toNat.isValidChar := Or.inl (by omega)
        rw [Char.ofNat, dif_pos hvalid]
        rfl
      simp only [String.utf8EncodeChar, hval]
      rw [if_pos (by omega), UInt8.ofNat_toNat]
    have hhead : Utf8 [x] := ⟨[Char.ofNat x.toNat], by simp [hchar]⟩
    exact hhead.append (utf8_of_ascii fun y hy => h y (List.mem_cons_of_mem _ hy))

/-! ## The order of the strings -/

theorem bytesLt_irrefl (a : Bytes) : bytesLt a a = false := by
  induction a with
  | nil => rfl
  | cons c a ih => simp [bytesLt, ih]

theorem bytesLt_trans {a b c : Bytes} (hab : bytesLt a b = true) (hbc : bytesLt b c = true) :
    bytesLt a c = true := by
  induction a generalizing b c with
  | nil =>
      cases c with
      | nil => simp [bytesLt] at hbc
      | cons z c => rfl
  | cons x a ih =>
      cases b with
      | nil => simp [bytesLt] at hab
      | cons y b =>
          cases c with
          | nil => simp [bytesLt] at hbc
          | cons z c =>
              simp only [bytesLt, Bool.or_eq_true, Bool.and_eq_true, decide_eq_true_eq,
                beq_iff_eq] at hab hbc ⊢
              rcases hab with hxy | ⟨rfl, hab⟩
              · rcases hbc with hyz | ⟨rfl, -⟩
                · exact Or.inl (UInt8.lt_trans hxy hyz)
                · exact Or.inl hxy
              · rcases hbc with hyz | ⟨rfl, hbc⟩
                · exact Or.inl hyz
                · exact Or.inr ⟨rfl, ih hab hbc⟩

theorem bytesLt_total {a b : Bytes} (h : a ≠ b) (hab : bytesLt a b = false) :
    bytesLt b a = true := by
  induction a generalizing b with
  | nil =>
      cases b with
      | nil => exact absurd rfl h
      | cons y b => simp [bytesLt] at hab
  | cons x a ih =>
      cases b with
      | nil => rfl
      | cons y b =>
          simp only [bytesLt, Bool.or_eq_false_iff, Bool.and_eq_false_iff, decide_eq_false_iff_not,
            beq_eq_false_iff_ne, Bool.or_eq_true, Bool.and_eq_true, decide_eq_true_eq,
            beq_iff_eq] at hab ⊢
          by_cases hxy : x = y
          · subst hxy
            have hne : a ≠ b := fun heq => h (by rw [heq])
            exact Or.inr ⟨rfl, ih hne (hab.2.resolve_left fun hx => hx rfl)⟩
          · left
            have hlt := hab.1
            rw [UInt8.lt_iff_toNat_lt] at hlt ⊢
            have hnat : x.toNat ≠ y.toNat := fun heq => hxy (UInt8.toNat_inj.mp heq)
            omega

instance : OrderedMap.StrictOrder bytesLt where
  irrefl := bytesLt_irrefl
  trans := bytesLt_trans
  total := bytesLt_total

end JsonRpcBridge
