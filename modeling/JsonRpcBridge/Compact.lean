import JsonRpcBridge.Json
import Mathlib.Data.Set.Function

/-!
# Compact JSON text

`Json.compact` writes a value the way `dump()` does: no blanks, `"`, `\` and the control characters
escaped, everything else verbatim. A float has no text here.

* `compact_injOn`: a value made of strings, booleans, integers and arrays can be told from its text.
-/

namespace JsonRpcBridge.Json

/-- The bytes that a literal escapes, each with what stands for it; the first entry counts. -/
def escapes : List (UInt8 × Bytes) :=
  [(0x22, JsonRpcBridge.str "\\\""), (0x5C, JsonRpcBridge.str "\\\\"),
    (0x08, JsonRpcBridge.str "\\b"), (0x0C, JsonRpcBridge.str "\\f"),
    (0x0A, JsonRpcBridge.str "\\n"), (0x0D, JsonRpcBridge.str "\\r"),
    (0x09, JsonRpcBridge.str "\\t")] ++
  (List.range 0x20).map fun n =>
    (UInt8.ofNat n, JsonRpcBridge.str "\\u00" ++ [hexDigit (n / 16), hexDigit (n % 16)])

def escapeByte (b : UInt8) : Bytes := (escapes.lookup b).getD [b]

def literal (s : Bytes) : Bytes := 0x22 :: (s.flatMap escapeByte ++ [0x22])

mutual
def compact : Json → Bytes
  | .null => JsonRpcBridge.str "null"
  | .bool true => JsonRpcBridge.str "true"
  | .bool false => JsonRpcBridge.str "false"
  | .int n => toStr n
  | .uint n => toStr n
  | .float _ => []
  | .str s => literal s
  | .arr xs => 0x5B :: compactItems [] xs
  | .obj ms => 0x7B :: compactMembers [] ms
/-- The rest of an array; `sep` stands before its next element. -/
def compactItems (sep : Bytes) : List Json → Bytes
  | [] => [0x5D]
  | x :: xs => sep ++ (compact x ++ compactItems [0x2C] xs)
def compactMembers (sep : Bytes) : List (Bytes × Json) → Bytes
  | [] => [0x7D]
  | (k, v) :: ms => sep ++ (literal k ++ 0x3A :: (compact v ++ compactMembers [0x2C] ms))
end

/-- Strings, booleans, signed integers and arrays of them. -/
inductive Plain : Json → Prop
  | str {s : Bytes} : Utf8 s → Plain (.str s)
  | bool (b : Bool) : Plain (.bool b)
  | int (n : Int) : Plain (.int n)
  | arr {xs : List Json} : (∀ x ∈ xs, Plain x) → Plain (.arr xs)

/-! ## Literals

No escape is the beginning of another, and a string ends at the first quote that is not escaped. -/

theorem escapeByte_cases (b : UInt8) :
    (escapeByte b = [b] ∧ b ≠ 0x22 ∧ b ≠ 0x5C) ∨ (b, escapeByte b) ∈ escapes := by
  unfold escapeByte
  cases h : escapes.lookup b with
  | some t => exact Or.inr (List.mem_of_lookup h)
  | none =>
      refine Or.inl ⟨rfl, ?_, ?_⟩
      · rintro rfl
        exact absurd h (by decide)
      · rintro rfl
        exact absurd h (by decide)

theorem head_of_mem_escapes : ∀ p ∈ escapes, ∃ t, p.2 = 0x5C :: t := by
  have h : ∀ p ∈ escapes, p.2.head? = some 0x5C := by decide +kernel
  intro p hp
  exact ⟨_, (List.head?_eq_some_iff.mp (h p hp)).choose_spec⟩

/-- No escape is the beginning of another one. -/
theorem escapes_prefix_free : ∀ p ∈ escapes, ∀ q ∈ escapes, p.2 <+: q.2 → p.1 = q.1 := by
  decide +kernel

theorem escapeByte_append_inj {b b' : UInt8} {x x' : Bytes}
    (h : escapeByte b ++ x = escapeByte b' ++ x') : b = b' ∧ x = x' := by
  have hb : b = b' := by
    rcases escapeByte_cases b with ⟨hplain, hne, hslash⟩ | hmem
    · rcases escapeByte_cases b' with ⟨hplain', -, -⟩ | hmem'
      · rw [hplain, hplain'] at h
        exact (List.cons.inj h).1
      · obtain ⟨t, ht⟩ := head_of_mem_escapes _ hmem'
        rw [hplain, show escapeByte b' = 0x5C :: t from ht] at h
        exact absurd (List.cons.inj h).1 hslash
    · rcases escapeByte_cases b' with ⟨hplain', -, hslash'⟩ | hmem'
      · obtain ⟨t, ht⟩ := head_of_mem_escapes _ hmem
        rw [hplain', show escapeByte b = 0x5C :: t from ht] at h
        exact absurd (List.cons.inj h).1.symm hslash'
      · have hle := List.prefix_append (escapeByte b) x
        have hle' := List.prefix_append (escapeByte b') x'
        rw [h] at hle
        rcases List.prefix_or_prefix_of_prefix hle hle' with hpre | hpre
        · exact escapes_prefix_free _ hmem _ hmem' hpre
        · exact (escapes_prefix_free _ hmem' _ hmem hpre).symm
  subst hb
  exact ⟨rfl, List.append_cancel_left h⟩

/-! ### The end of a literal

The closing quote is the first quote outside an escape, so what follows a literal does not change
what it says. -/

/-- An escaped byte does not look like the end of its literal. -/
theorem quote_ne_escapeByte {b : UInt8} {x y : Bytes} : 0x22 :: x ≠ escapeByte b ++ y := by
  intro h
  rcases escapeByte_cases b with ⟨hplain, hne, -⟩ | hmem
  · rw [hplain] at h
    exact hne (List.cons.inj h).1.symm
  · obtain ⟨t, ht⟩ := head_of_mem_escapes _ hmem
    rw [show escapeByte b = 0x5C :: t from ht] at h
    exact absurd (List.cons.inj h).1 (by decide)

theorem literal_append_inj {s s' r r' : Bytes} (h : literal s ++ r = literal s' ++ r') :
    s = s' ∧ r = r' := by
  have hbody : s.flatMap escapeByte ++ 0x22 :: r = s'.flatMap escapeByte ++ 0x22 :: r' := by
    simpa [literal] using h
  clear h
  induction s generalizing s' with
  | nil =>
      cases s' with
      | nil => exact ⟨rfl, (List.cons.inj hbody).2⟩
      | cons b' s' =>
          rw [List.flatMap_cons, List.append_assoc] at hbody
          exact absurd hbody quote_ne_escapeByte
  | cons b s ih =>
      cases s' with
      | nil =>
          rw [List.flatMap_cons, List.append_assoc] at hbody
          exact absurd hbody.symm quote_ne_escapeByte
      | cons b' s' =>
          rw [List.flatMap_cons, List.flatMap_cons, List.append_assoc, List.append_assoc] at hbody
          obtain ⟨rfl, hrest⟩ := escapeByte_append_inj hbody
          obtain ⟨rfl, hr⟩ := ih hrest
          exact ⟨rfl, hr⟩

/-! ## Numbers

A number ends where no digit follows. -/

/-- A byte of the text of an integer. -/
def isNumeral (c : UInt8) : Prop := c = 0x2D ∨ (0x30 ≤ c ∧ c ≤ 0x39)

instance (c : UInt8) : Decidable (isNumeral c) := inferInstanceAs (Decidable (_ ∨ _))

theorem isNumeral_of_isDigit {c : Char} (h : c.isDigit = true) :
    ∀ b ∈ String.utf8EncodeChar c, isNumeral b := by
  have hrange : 48 ≤ c.toNat ∧ c.toNat ≤ 57 := Char.isDigit_iff_toNat.mp h
  have hdigits : ∀ k < 10, ∀ b ∈ String.utf8EncodeChar (Char.ofNat (48 + k)), isNumeral b := by
    decide
  have hc : c = Char.ofNat (48 + (c.toNat - 48)) := by
    rw [Nat.add_sub_cancel' hrange.1, Char.ofNat_toNat]
  rw [hc]
  exact hdigits _ (by omega)

theorem isNumeral_of_mem_toStr {n : Int} {b : UInt8} (h : b ∈ toStr n) : isNumeral b := by
  rw [toStr, JsonRpcBridge.str, Int.toString_eq_repr] at h
  obtain ⟨c, hc, hb⟩ := List.mem_flatMap.mp h
  have hdigit : ∀ m : Nat, c ∈ (Nat.repr m).toList → isNumeral b := by
    intro m hm
    refine isNumeral_of_isDigit ?_ b hb
    rw [Nat.repr, String.toList_ofList] at hm
    exact Nat.isDigit_of_mem_toDigits (by decide) (by decide) hm
  cases n with
  | ofNat m => exact hdigit m hc
  | negSucc m =>
      rw [Int.repr, String.toList_append] at hc
      rcases List.mem_append.mp hc with hminus | hm
      · obtain rfl : c = '-' := by simpa using hminus
        rw [show String.utf8EncodeChar '-' = [0x2D] by decide] at hb
        exact Or.inl (List.mem_singleton.mp hb)
      · exact hdigit _ hm

/-! ### Digits of a number

A numeral is determined by its digits, and the sign by the first byte. -/

theorem repr_inj {m m' : Nat} (h : Nat.repr m = Nat.repr m') : m = m' := by
  have hdigits : Nat.toDigits 10 m = Nat.toDigits 10 m' := by
    exact String.ofList_injective h
  rw [← Nat.ofDigitChars_toDigits (b := 10) (n := m) (by decide) (by decide), hdigits,
    Nat.ofDigitChars_toDigits (by decide) (by decide)]

theorem toStr_inj {n n' : Int} (h : toStr n = toStr n') : n = n' := by
  have hrepr : Int.repr n = Int.repr n' := by
    have htext := str_inj.mp h
    rwa [Int.toString_eq_repr, Int.toString_eq_repr] at htext
  have hminus : ∀ m k : Nat, Nat.repr m ≠ "-" ++ Nat.repr k := by
    intro m k heq
    have hmem : '-' ∈ (Nat.repr m).toList := by
      rw [heq, String.toList_append]
      exact List.mem_append_left _ (by decide)
    rw [Nat.repr, String.toList_ofList] at hmem
    exact absurd (Nat.isDigit_of_mem_toDigits (by decide) (by decide) hmem) (by decide)
  cases n with
  | ofNat m =>
      cases n' with
      | ofNat m' => rw [repr_inj hrepr]
      | negSucc m' => exact absurd hrepr (hminus m _)
  | negSucc m =>
      cases n' with
      | ofNat m' => exact absurd hrepr.symm (hminus m' _)
      | negSucc m' =>
          have htail := congrArg String.toList hrepr
          rw [Int.repr, Int.repr, String.toList_append, String.toList_append] at htail
          have hsucc := repr_inj (String.toList_injective (List.append_cancel_left htail))
          rw [Nat.succ.inj hsucc]

theorem toStr_ne_nil (n : Int) : toStr n ≠ [] := by
  intro h
  have hempty : toString n = "" := str_inj.mp (h.trans (by decide))
  rw [Int.toString_eq_repr] at hempty
  cases n with
  | ofNat m =>
      have hdigits : Nat.toDigits 10 m = [] := String.ofList_injective hempty
      exact Nat.toDigits_ne_nil hdigits
  | negSucc m => simp [Int.repr] at hempty

/-- What may follow a number without being taken for a part of it. -/
def Ends (r : Bytes) : Prop := ∀ b t, r = b :: t → ¬isNumeral b

theorem toStr_append_inj {n n' : Int} {r r' : Bytes} (hr : Ends r) (hr' : Ends r')
    (h : toStr n ++ r = toStr n' ++ r') : n = n' ∧ r = r' := by
  have htake : ∀ {m : Int} {t : Bytes}, Ends t →
      (toStr m ++ t).takeWhile (fun b => decide (isNumeral b)) = toStr m := by
    intro m t ht
    rw [List.takeWhile_append_of_pos fun b hb => decide_eq_true (isNumeral_of_mem_toStr hb)]
    cases t with
    | nil => rw [List.takeWhile_nil, List.append_nil]
    | cons b t => rw [List.takeWhile_cons_of_neg (by simpa using ht b t rfl), List.append_nil]
  have hn : toStr n = toStr n' := by
    rw [← htake hr, h, htake hr']
  rw [hn] at h
  exact ⟨toStr_inj hn, List.append_cancel_left h⟩

/-! ## Values

The first byte of a text tells its kind. So two texts that may be followed by anything that ends
a value are equal only where the values are. -/

theorem ends_cons {b : UInt8} {t : Bytes} (h : ¬isNumeral b) : Ends (b :: t) := by
  rintro b' t' heq
  cases heq
  exact h

theorem ends_compactItems {xs : List Json} {r : Bytes} : Ends (compactItems [0x2C] xs ++ r) := by
  cases xs with
  | nil => exact ends_cons (by decide)
  | cons x xs => exact ends_cons (by decide)

/-- What a value that begins with `b` is. -/
def kindOf (b : UInt8) : Nat :=
  if b = 0x22 then 1 else if b = 0x5B then 2 else if isNumeral b then 3
  else if b = 0x74 then 4 else if b = 0x66 then 5 else 0

def kind : Json → Nat
  | .str _ => 1
  | .arr _ => 2
  | .int _ => 3
  | .bool true => 4
  | .bool false => 5
  | _ => 0

theorem Plain.head {j : Json} (h : j.Plain) :
    ∃ b t, compact j = b :: t ∧ kindOf b = kind j ∧ 0 < kind j := by
  cases h with
  | str hs => exact ⟨_, _, rfl, rfl, Nat.succ_pos _⟩
  | bool b => cases b <;> exact ⟨_, _, rfl, rfl, Nat.succ_pos _⟩
  | arr hxs => exact ⟨_, _, rfl, rfl, Nat.succ_pos _⟩
  | int n =>
      obtain ⟨b, t, ht⟩ := List.exists_cons_of_ne_nil (toStr_ne_nil n)
      have hb : isNumeral b := isNumeral_of_mem_toStr (ht ▸ List.mem_cons_self)
      refine ⟨b, t, ht, ?_, Nat.succ_pos _⟩
      have hquote : b ≠ 0x22 := by
        rintro rfl
        exact absurd hb (by decide)
      have hbracket : b ≠ 0x5B := by
        rintro rfl
        exact absurd hb (by decide)
      rw [kindOf, if_neg hquote, if_neg hbracket, if_pos hb, kind]

theorem kind_eq {j j' : Json} {r r' : Bytes} (h : j.Plain) (h' : j'.Plain)
    (heq : compact j ++ r = compact j' ++ r') : kind j = kind j' := by
  obtain ⟨b, t, ht, hb, -⟩ := h.head
  obtain ⟨b', t', ht', hb', -⟩ := h'.head
  rw [ht, ht'] at heq
  obtain rfl : b = b' := (List.cons.inj heq).1
  rw [← hb, ← hb']

theorem bracket_ne_compact {j : Json} (h : j.Plain) {x y : Bytes} : 0x5D :: x ≠ compact j ++ y := by
  intro heq
  obtain ⟨b, t, ht, hb, hpos⟩ := h.head
  rw [ht] at heq
  obtain rfl : 0x5D = b := (List.cons.inj heq).1
  have hzero : kindOf 0x5D = 0 := by decide
  omega

/-! ### Texts followed by a rest

The statements carry what follows the text, which lets them pass through the elements of an
array: the rest of one element is the separator and the other elements. -/

theorem compactItems_append_inj {xs : List Json}
    (ih : ∀ x ∈ xs, ∀ {y r r'}, Plain y → Ends r → Ends r' →
      compact x ++ r = compact y ++ r' → x = y ∧ r = r')
    (hxs : ∀ x ∈ xs, Plain x) {ys : List Json} (hys : ∀ y ∈ ys, Plain y) {sep r r' : Bytes}
    (hsep : sep = [] ∨ sep = [0x2C]) (h : compactItems sep xs ++ r = compactItems sep ys ++ r') :
    xs = ys ∧ r = r' := by
  have hend : ∀ {z : Json} {x y : Bytes}, z.Plain → 0x5D :: x ≠ sep ++ (compact z ++ y) := by
    intro z x y hz
    rcases hsep with rfl | rfl
    · exact bracket_ne_compact hz
    · intro heq
      exact absurd (List.cons.inj heq).1 (by decide)
  induction xs generalizing ys sep with
  | nil =>
      cases ys with
      | nil => exact ⟨rfl, (List.cons.inj h).2⟩
      | cons y ys =>
          rw [compactItems, compactItems, List.append_assoc, List.append_assoc] at h
          exact absurd h (hend (hys y List.mem_cons_self))
  | cons x xs ihs =>
      cases ys with
      | nil =>
          rw [compactItems, compactItems, List.append_assoc, List.append_assoc] at h
          exact absurd h.symm (hend (hxs x List.mem_cons_self))
      | cons y ys =>
          simp only [compactItems, List.append_assoc] at h
          obtain ⟨rfl, hrest⟩ := ih x List.mem_cons_self (hys y List.mem_cons_self)
            ends_compactItems ends_compactItems (List.append_cancel_left h)
          obtain ⟨rfl, hr⟩ := ihs (fun z hz => ih z (List.mem_cons_of_mem _ hz))
            (fun z hz => hxs z (List.mem_cons_of_mem _ hz))
            (fun z hz => hys z (List.mem_cons_of_mem _ hz)) (Or.inr rfl) hrest (by
              intro z x y _ heq
              exact absurd (List.cons.inj heq).1 (by decide))
          exact ⟨rfl, hr⟩

theorem compact_append_inj {j : Json} (h : j.Plain) : ∀ {j' r r'}, Plain j' → Ends r → Ends r' →
    compact j ++ r = compact j' ++ r' → j = j' ∧ r = r' := by
  -- by induction on the first value; the first byte rules out a second one of another kind
  induction h with
  | str hs =>
      intro j' r r' h' _ _ heq
      have hkind := kind_eq (.str hs) h' heq
      cases h' with
      | str hs' =>
          obtain ⟨rfl, hr⟩ := literal_append_inj heq
          exact ⟨rfl, hr⟩
      | bool b => cases b <;> cases hkind
      -- a number is the only value without a mark at its end, so here the rests have to end it
      | int n => cases hkind
      | arr _ => cases hkind
  | bool b =>
      intro j' r r' h' _ _ heq
      have hkind := kind_eq (.bool b) h' heq
      have hsame : j' = .bool b := by
        cases h' with
        | bool b' => cases b <;> cases b' <;> first | rfl | cases hkind
        | str _ => cases b <;> cases hkind
        | int _ => cases b <;> cases hkind
        | arr _ => cases b <;> cases hkind
      subst hsame
      exact ⟨rfl, List.append_cancel_left heq⟩
  | int n =>
      intro j' r r' h' hr hr' heq
      have hkind := kind_eq (.int n) h' heq
      cases h' with
      | int n' =>
          obtain ⟨rfl, hrest⟩ := toStr_append_inj hr hr' heq
          exact ⟨rfl, hrest⟩
      | bool b => cases b <;> cases hkind
      | str _ => cases hkind
      | arr _ => cases hkind
  | arr hxs ih =>
      intro j' r r' h' _ _ heq
      have hkind := kind_eq (.arr hxs) h' heq
      cases h' with
      | arr hys =>
          obtain ⟨rfl, hrest⟩ := compactItems_append_inj (fun x hx => ih x hx) hxs hys (Or.inl rfl)
            (List.cons.inj heq).2
          exact ⟨rfl, hrest⟩
      | bool b => cases b <;> cases hkind
      | str _ => cases hkind
      | int _ => cases hkind

/-- A plain value is all its text says. -/
theorem compact_injOn : Set.InjOn compact {j | Plain j} := by
  intro j hj j' hj' heq
  have hnil : Ends [] := fun b t h => by cases h
  exact (compact_append_inj hj hj' hnil hnil (congrArg (· ++ []) heq)).1

end JsonRpcBridge.Json
