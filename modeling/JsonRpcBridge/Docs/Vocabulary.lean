import JsonRpcBridge.Docs.Validity
import JsonRpcBridge.Pointer
import Mathlib.Algebra.Order.Field.Rat
import Mathlib.Order.FixedPoints

/-!
# The standard vocabulary

What the keywords mean that `Validity` leaves open, as far as the schemas of types use them: bounds
of numbers, one pattern, annotations, and `$ref`, which is what its target in the document accepts.

* `Vocabulary.Standard`: a vocabulary that reads these keywords as JSON Schema does.
* `valid_mono`: a vocabulary that accepts more makes more values valid.
* `standard_standard`: every document has such a vocabulary.
-/

namespace JsonRpcBridge

/-! ## Numbers

A JSON number is compared as a rational, whichever way it is written, so that `1` and `1.0` are
one value. -/

/-- The value of an IEEE double; none for infinities and NaN. -/
def floatValue (bits : UInt64) : Option ℚ :=
  let sign : ℚ := if bits.toNat / 2 ^ 63 = 0 then 1 else -1
  let exponent : ℕ := bits.toNat / 2 ^ 52 % 2 ^ 11
  let fraction : ℕ := bits.toNat % 2 ^ 52
  if exponent = 2047 then none
  -- a subnormal has the exponent of the least normal and no leading one
  else if exponent = 0 then some (sign * (fraction : ℚ) / 2 ^ 1074)
  else some (sign * (2 ^ 52 + (fraction : ℚ)) * 2 ^ exponent / 2 ^ 1075)

namespace Json

/-- The value of a number, however it is written. -/
def number? : Json → Option ℚ
  | .int n => some (n : ℚ)
  | .uint n => some (n : ℚ)
  | .float bits => floatValue bits
  | _ => none

end Json

example : (Json.float 0x3FF8000000000000).number? = some (3 / 2) := by decide +kernel

end JsonRpcBridge

namespace JsonRpcBridge.Docs

/-! ## What the keywords mean

A vocabulary is standard when it reads the bounds, the pattern, the annotations and the
references as JSON Schema does. Of all other keywords nothing is asked, so a vocabulary is free
to do anything with them. -/

/-- The alphabet of base64url (RFC 4648 section 5), without padding. -/
def isBase64Url (c : UInt8) : Bool :=
  (c ≥ 0x61 && c ≤ 0x7A) || (c ≥ 0x41 && c ≤ 0x5A) || (c ≥ 0x30 && c ≤ 0x39) ||
    c == 0x2D || c == 0x5F

def kBase64UrlPattern : Bytes := str "^[A-Za-z0-9_-]*$"

/-- Keywords that constrain nothing. The formats of the documents are annotations. -/
def annotations : List Bytes :=
  [str "title", str "description", str "format", kUnknownTypeKey, kMapKeyTypeKey]

/-- The vocabulary reads the keywords of type schemas as JSON Schema does, with references into
`doc`. -/
structure Vocabulary.Standard (V : Vocabulary) (d : Dialect) (doc : Json) : Prop where
  /-- A float is an integer when it has no fractional part. -/
  integer : ∀ schema bits, schema.find? (str "type") = some (text "integer") →
    (V.holds schema (str "type") (.float bits) ↔ ∃ n : ℤ, floatValue bits = some (n : ℚ))
  minimum : ∀ schema bound q value, schema.find? (str "minimum") = some bound →
    bound.number? = some q →
    (V.holds schema (str "minimum") value ↔ ∀ x, value.number? = some x → q ≤ x)
  maximum : ∀ schema bound q value, schema.find? (str "maximum") = some bound →
    bound.number? = some q →
    (V.holds schema (str "maximum") value ↔ ∀ x, value.number? = some x → x ≤ q)
  pattern : ∀ schema value, schema.find? (str "pattern") = some (.str kBase64UrlPattern) →
    (V.holds schema (str "pattern") value ↔ ∀ s, value = .str s → s.all isBase64Url = true)
  note : ∀ schema value, ∀ k ∈ annotations, V.holds schema k value
  reference : ∀ schema ref value, schema.find? (str "$ref") = some (.str ref) →
    (V.holds schema (str "$ref") value ↔
      ∃ target, doc.resolve ref = some target ∧ Valid V d target value)

/-! ## More is valid where a vocabulary accepts more

A reference means what its target accepts, which may contain the reference. So the meaning of
`$ref` is a fixed point, and for that everything has to be monotone. It is, because no keyword
here negates. -/

section Mono

variable {V W : Vocabulary} {d : Dialect}

theorem hasType_mono (h : ∀ schema k value, V.holds schema k value → W.holds schema k value)
    {schema value : Json} {name : Bytes} (hv : HasType V schema name value) :
    HasType W schema name value := by
  unfold HasType at hv ⊢
  split_ifs at hv ⊢ <;> try exact hv
  · cases value with
    | float bits => exact h _ _ _ hv
    | _ => exact hv
  · exact h _ _ _ hv

/-- Keyword by keyword. -/
theorem obeys_mono (h : ∀ schema k value, V.holds schema k value → W.holds schema k value)
    {accepts accepts' : Json → Json → Prop} (ha : ∀ s x, accepts s x → accepts' s x)
    {schema argument value : Json} {k : Bytes} (hv : Obeys V d accepts schema k argument value) :
    Obeys W d accepts' schema k argument value := by
  unfold Obeys at hv ⊢
  cases hk : Keyword.of d k with
  -- the vocabulary is asked only for what is not understood here
  | type =>
      simp only [hk] at hv ⊢
      cases argument with
      | str name => exact hasType_mono h hv
      | _ => exact h _ _ _ hv
  | anyOf =>
      simp only [hk] at hv ⊢
      obtain ⟨s, hs, hx⟩ := hv
      exact ⟨s, hs, ha _ _ hx⟩
  | properties =>
      simp only [hk] at hv ⊢
      exact fun name s x hs hx => ha _ _ (hv name s x hs hx)
  | required =>
      simp only [hk] at hv ⊢
      exact hv
  | additionalProperties =>
      simp only [hk] at hv ⊢
      split_ifs at hv ⊢
      · exact h _ _ _ hv
      · exact fun name x hx hnone => ha _ _ (hv name x hx hnone)
  | places =>
      simp only [hk] at hv ⊢
      cases argument with
      | arr ss => exact fun i s x hs hx => ha _ _ (hv i s x hs hx)
      | _ => exact fun x hx => ha _ _ (hv x hx)
  | beyond =>
      simp only [hk] at hv ⊢
      cases hplaces : arrayField schema (placesKey d) with
      | some ss =>
          simp only [hplaces] at hv ⊢
          exact fun x hx => ha _ _ (hv x hx)
      | none =>
          simp only [hplaces] at hv ⊢
          exact fun hd x hx => ha _ _ (hv hd x hx)
  | minItems | maxItems =>
      simp only [hk] at hv ⊢
      cases hcount : countOf argument with
      | some n =>
          simp only [hcount] at hv ⊢
          exact hv
      | none =>
          simp only [hcount] at hv ⊢
          exact h _ _ _ hv
  | other =>
      simp only [hk] at hv ⊢
      exact h _ _ _ hv

/-- Schema by schema. -/
theorem valid_mono (h : ∀ schema k value, V.holds schema k value → W.holds schema k value)
    {schema value : Json} (hv : Valid V d schema value) : Valid W d schema value := by
  induction hn : sizeOf schema using Nat.strong_induction_on generalizing schema value with
  | h n ih =>
      subst hn
      cases schema with
      | bool b =>
          rw [valid_bool] at hv ⊢
          exact hv
      | obj ms =>
          rw [Valid] at hv ⊢
          split_ifs at hv ⊢ with href
          · exact h _ _ _ hv
          · exact fun k argument hfind => obeys_mono h
              (fun s x hx => ⟨hx.1, ih _ hx.1 hx.2 rfl⟩) (hv k argument hfind)
      | _ => simp [Valid] at hv

end Mono

/-! ## There is such a vocabulary

The least fixed point of one step of following references. A reference that only leads back to
itself accepts nothing there; every other one means its target. -/

/-- The keywords other than `$ref`. -/
def standardKeyword (schema : Json) (k : Bytes) (value : Json) : Prop :=
  if k = str "type" then ∃ n : ℤ, value.number? = some (n : ℚ)
  else if k = str "minimum" then
    ∀ q x, (schema.find? k).bind Json.number? = some q → value.number? = some x → q ≤ x
  else if k = str "maximum" then
    ∀ q x, (schema.find? k).bind Json.number? = some q → value.number? = some x → x ≤ q
  else if k = str "pattern" then ∀ s, value = .str s → s.all isBase64Url = true
  else True

/-- References that are followed once, and what they refer to judged by `holds`. -/
def standardStep (d : Dialect) (doc : Json) :
    (Json → Bytes → Json → Prop) →o (Json → Bytes → Json → Prop) where
  toFun holds schema k value :=
    if k = str "$ref" then
      ∃ ref target, schema.find? k = some (.str ref) ∧ doc.resolve ref = some target ∧
        Valid ⟨holds⟩ d target value
    else standardKeyword schema k value
  monotone' := by
    intro holds holds' hle schema k value hv
    show if k = str "$ref" then _ else _
    have hv : if k = str "$ref" then _ else _ := hv
    split_ifs at hv ⊢ with href
    · obtain ⟨ref, target, hfind, hresolve, hvalid⟩ := hv
      exact ⟨ref, target, hfind, hresolve, valid_mono hle hvalid⟩
    · exact hv

/-- The least reading of the references of a document: what is accepted is so for a finite reason.
-/
noncomputable def standard (d : Dialect) (doc : Json) : Vocabulary :=
  ⟨OrderHom.lfp (standardStep d doc)⟩

/-! ### It is standard -/

theorem standard_holds (d : Dialect) (doc schema value : Json) (k : Bytes) :
    (standard d doc).holds schema k value =
      standardStep d doc (standard d doc).holds schema k value := by
  exact congrFun (congrFun (congrFun (OrderHom.map_lfp (standardStep d doc)).symm schema) k) value

/-- Each requirement is one step of unfolding. -/
theorem standard_standard (d : Dialect) (doc : Json) : (standard d doc).Standard d doc where
  integer schema bits _ := by
    rw [standard_holds]
    rfl
  minimum schema bound q value hbound hq := by
    rw [standard_holds]
    show (∀ q x, (schema.find? (str "minimum")).bind Json.number? = some q → _) ↔ _
    rw [hbound, Option.bind_some, hq]
    exact ⟨fun h x => h q x rfl, fun h q x heq => Option.some.inj heq ▸ h x⟩
  maximum schema bound q value hbound hq := by
    rw [standard_holds]
    show (∀ q x, (schema.find? (str "maximum")).bind Json.number? = some q → _) ↔ _
    rw [hbound, Option.bind_some, hq]
    exact ⟨fun h x => h q x rfl, fun h q x heq => Option.some.inj heq ▸ h x⟩
  pattern schema value _ := by
    rw [standard_holds]
    rfl
  note schema value k hk := by
    have hnone : ∀ k ∈ annotations, k ≠ str "$ref" ∧ k ≠ str "type" ∧ k ≠ str "minimum" ∧
        k ≠ str "maximum" ∧ k ≠ str "pattern" := by decide
    obtain ⟨href, htype, hmin, hmax, hpattern⟩ := hnone k hk
    rw [standard_holds]
    show if k = str "$ref" then _ else _
    rw [if_neg href, standardKeyword, if_neg htype, if_neg hmin, if_neg hmax, if_neg hpattern]
    trivial
  reference schema ref value href := by
    rw [standard_holds]
    show (∃ ref target, schema.find? (str "$ref") = some (.str ref) ∧ _) ↔ _
    constructor
    · rintro ⟨ref', target, hfind, hresolve, hvalid⟩
      rw [href] at hfind
      cases hfind
      exact ⟨target, hresolve, hvalid⟩
    · rintro ⟨target, hresolve, hvalid⟩
      exact ⟨ref, target, href, hresolve, hvalid⟩

end JsonRpcBridge.Docs
