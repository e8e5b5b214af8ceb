import JsonRpcBridge.Docs.Vocabulary

/-!
# Types and their encodings

`LidlType` is what a type expression of the AST says, and `Encodes` which JSON values stand for a
value of it: one rule for each form of type, in terms of nothing the schemas are made of.

* `encodes_optional_optional`, `encodes_optional_any`: `??T` is `?T`, and `?any` is `any`.
* `encodes_stripOptional`: an optional node admits null and what is under all its optionals.
-/

namespace JsonRpcBridge.Docs

/-! ## Types and their encodings

The relation is the specification that schemas are measured against. It reads like the table of
the contract language: a string is a string, bytes are an object with their base64url, an array
is an array of encodings, a record an object with its fields. A type that is not known, or not
declared, admits any value. -/

/-- A LIDL type. `unknown` is what the mapping has no word for. -/
inductive LidlType where
  | tstr
  | bstr
  | int
  | uint
  | float64
  | bool
  | any
  | result
  | array (element : LidlType)
  | map (values : LidlType)
  | optional (type : LidlType)
  | named (name : Bytes)
  | unknown
  deriving DecidableEq

/-- Whether the outermost form is an optional. -/
def LidlType.isOptional : LidlType → Bool
  | .optional _ => true
  | _ => false

/-- The primitives by name. Any other name is unknown. -/
def LidlType.primitive (name : Bytes) : LidlType :=
  if name = str "tstr" then .tstr
  else if name = str "bstr" then .bstr
  else if name = str "int" then .int
  else if name = str "uint" then .uint
  else if name = str "float64" then .float64
  else if name = str "bool" then .bool
  else if name = str "any" then .any
  else if name = str "result" then .result
  else .unknown

/-- What a node of the AST says. A node without the elements its kind needs says nothing, except
that an optional of nothing is still optional. -/
def LidlType.of (type : Json) : LidlType :=
  if _h : type.isObject = true then
    if kindOf type = str "primitive" then .primitive (strField type (str "name"))
    else if kindOf type = str "array" then
      if elementCount type < 1 then .unknown else .array (of (elementAt type 0))
    else if kindOf type = str "map" then
      if elementCount type < 2 then .unknown else .map (of (elementAt type 1))
    else if kindOf type = str "optional" then .optional (of (elementAt type 0))
    else if kindOf type = str "named" then .named (strField type (str "name"))
    else .unknown
  else .unknown
termination_by sizeOf type
decreasing_by
  · exact sizeOf_elementAt _h 0
  · exact sizeOf_elementAt _h 1
  · exact sizeOf_elementAt _h 0

/-! ### Records -/

/-- A field as it is declared. -/
structure LidlField where
  name : Bytes
  type : LidlType
  flag : Bool

/-- A field is optional by its flag or by its type. -/
def LidlField.isOptional (f : LidlField) : Bool := f.flag || f.type.isOptional

/-- What a field that is present holds: an optional one may hold null. -/
def LidlField.slot (f : LidlField) : LidlType :=
  if f.isOptional = true then .optional f.type else f.type

/-- The field that a declaration describes. -/
def LidlField.of (f : Json) : LidlField where
  name := strField f (str "name")
  type := .of ((f.find? (str "type")).getD .null)
  flag := boolField f (str "optional")

/-- The fields of each record, by its name. -/
abbrev LidlRecords := Bytes → Option (List LidlField)

/-- The records that an interface declares. What has no name is not declared. -/
def LidlRecords.of (interface : Json) : LidlRecords := fun name =>
  if name = [] then none
  else (((arrayField interface (str "types")).getD []).find? fun t =>
    strField t (str "name") == name).map fun t =>
      ((arrayField t (str "fields")).getD []).map LidlField.of

/-- The field of a name is the first one declared. -/
def fieldOf (fields : List LidlField) (name : Bytes) : Option LidlField :=
  fields.find? fun f => f.name == name

/-- The JSON values that encode a type. -/
inductive Encodes (records : LidlRecords) : LidlType → Json → Prop
  | tstr (s : Bytes) : Encodes records .tstr (.str s)
  /-- The bytes as base64url, as the object's only key. -/
  | bstr {value : Json} {s : Bytes} (tag : value.find? (str "_bytes") = some (.str s))
      (only : ∀ k, value.contains k = true → k = str "_bytes")
      (alphabet : s.all isBase64Url = true) : Encodes records .bstr value
  | int {value : Json} {n : ℤ} (number : value.number? = some (n : ℚ)) (min : -2 ^ 63 ≤ n)
      (max : n < 2 ^ 63) : Encodes records .int value
  | uint {value : Json} {n : ℤ} (number : value.number? = some (n : ℚ)) (min : 0 ≤ n)
      (max : n < 2 ^ 64) : Encodes records .uint value
  | float64 {value : Json} (number : value.isNumber = true) : Encodes records .float64 value
  | bool (b : Bool) : Encodes records .bool (.bool b)
  | any (value : Json) : Encodes records .any value
  | result {value : Json} {b : Bool} (success : value.find? (str "success") = some (.bool b)) :
      Encodes records .result value
  | array {element : LidlType} {xs : List Json} (each : ∀ x ∈ xs, Encodes records element x) :
      Encodes records (.array element) (.arr xs)
  | map {values : LidlType} {value : Json} (object : value.isObject = true)
      (each : ∀ k x, value.find? k = some x → Encodes records values x) :
      Encodes records (.map values) value
  | absent (type : LidlType) : Encodes records (.optional type) .null
  | present {type : LidlType} {value : Json} (inner : Encodes records type value) :
      Encodes records (.optional type) value
  | record {name : Bytes} {fields : List LidlField} {value : Json}
      (declared : records name = some fields) (object : value.isObject = true)
      (needed : ∀ k f, fieldOf fields k = some f → f.isOptional = false → value.contains k = true)
      (each : ∀ k f x, fieldOf fields k = some f → value.find? k = some x →
        Encodes records f.slot x) :
      Encodes records (.named name) value
  | undeclared {name : Bytes} (value : Json) (none : records name = none) :
      Encodes records (.named name) value
  | unknown (value : Json) : Encodes records .unknown value

section Encodes

variable {records : LidlRecords} {type : LidlType} {value : Json}

/-- Null, or the value itself. -/
theorem encodes_optional :
    Encodes records (.optional type) value ↔ value = .null ∨ Encodes records type value := by
  constructor
  · intro h
    cases h with
    | absent => exact Or.inl rfl
    | present inner => exact Or.inr inner
  · rintro (rfl | h)
    · exact .absent type
    · exact .present h

/-- `??T` is `?T`. -/
theorem encodes_optional_optional :
    Encodes records (.optional (.optional type)) value ↔ Encodes records (.optional type) value := by
  rw [encodes_optional, encodes_optional, or_self_left]

/-- `?any` is `any`. -/
theorem encodes_optional_any : Encodes records (.optional .any) value ↔ Encodes records .any value :=
  ⟨fun _ => .any value, fun h => .present h⟩

end Encodes

/-! ## What the nodes of the AST say

One equation for each kind of node. The kinds are told apart by a string, so the order of the
tests does not matter; what matters is that a node without its elements is unknown. -/

section Nodes

variable {type value : Json} {records : LidlRecords}

/-- All kinds at once. -/
theorem of_kind (h : type.isObject = true) : LidlType.of type =
    if kindOf type = str "primitive" then .primitive (strField type (str "name"))
    else if kindOf type = str "array" then
      if elementCount type < 1 then .unknown else .array (.of (elementAt type 0))
    else if kindOf type = str "map" then
      if elementCount type < 2 then .unknown else .map (.of (elementAt type 1))
    else if kindOf type = str "optional" then .optional (.of (elementAt type 0))
    else if kindOf type = str "named" then .named (strField type (str "name"))
    else .unknown := by
  rw [LidlType.of, dif_pos h]

theorem of_primitive (h : kindOf type = str "primitive") :
    LidlType.of type = .primitive (strField type (str "name")) := by
  rw [of_kind (isObject_of_kindOf (h ▸ List.cons_ne_nil _ _)), h]
  rfl

theorem of_array (h : kindOf type = str "array") : LidlType.of type =
    if elementCount type < 1 then .unknown else .array (.of (elementAt type 0)) := by
  rw [of_kind (isObject_of_kindOf (h ▸ List.cons_ne_nil _ _)), h]
  rfl

theorem of_map (h : kindOf type = str "map") : LidlType.of type =
    if elementCount type < 2 then .unknown else .map (.of (elementAt type 1)) := by
  rw [of_kind (isObject_of_kindOf (h ▸ List.cons_ne_nil _ _)), h]
  rfl

theorem of_named (h : kindOf type = str "named") :
    LidlType.of type = .named (strField type (str "name")) := by
  rw [of_kind (isObject_of_kindOf (h ▸ List.cons_ne_nil _ _)), h]
  rfl

theorem of_optional (h : kindOf type = str "optional") :
    LidlType.of type = .optional (.of (elementAt type 0)) := by
  rw [of_kind (isObject_of_optional h), h]
  rfl

theorem isOptional_of (type : Json) :
    (LidlType.of type).isOptional = (kindOf type == str "optional") := by
  by_cases hkind : kindOf type = str "optional"
  · rw [of_optional hkind, hkind, beq_self_eq_true]
    rfl
  · have hother : (kindOf type == str "optional") = false := by simpa using hkind
    rw [hother, LidlType.of]
    unfold LidlType.primitive
    split_ifs <;> rfl

/-- Nothing is taken off a type that is no optional. -/
theorem stripOptional_of_ne (h : kindOf type ≠ str "optional") : stripOptional type = type := by
  rw [stripOptional, dif_neg fun hopt => h hopt.1]

/-- Everything encodes an optional of nothing. -/
theorem encodes_nothing (h : kindOf type = str "optional") (hnone : ¬elementCount type > 0) :
    Encodes records (.of type) value := by
  have hempty : elements type = [] := List.length_eq_zero_iff.mp (Nat.eq_zero_of_not_pos hnone)
  have hnull : LidlType.of (elementAt type 0) = .unknown := by
    rw [elementAt, hempty]
    show LidlType.of .null = .unknown
    rw [LidlType.of, dif_neg (by decide)]
  rw [of_optional h, hnull]
  exact .present (.unknown value)

/-- What is still optional under all the optionals is an optional of nothing. -/
theorem encodes_of_stripOptional (h : kindOf (stripOptional type) = str "optional") :
    Encodes records (.of (stripOptional type)) value := by
  induction type using stripOptional.induct with
  | case1 type hsome ih =>
      rw [stripOptional, dif_pos hsome] at h ⊢
      exact ih h
  | case2 type hnone =>
      rw [stripOptional, dif_neg hnone] at h ⊢
      exact encodes_nothing h fun hcount => hnone ⟨h, hcount⟩

/-- An optional admits null and what is under all the optionals. -/
theorem encodes_stripOptional (h : kindOf type = str "optional") :
    Encodes records (.of type) value ↔
      value = .null ∨ Encodes records (.of (stripOptional type)) value := by
  induction type using stripOptional.induct with
  | case1 type hsome ih =>
      rw [of_optional h, encodes_optional, stripOptional, dif_pos hsome]
      by_cases hinner : kindOf (elementAt type 0) = str "optional"
      · rw [ih hinner, or_self_left]
      · rw [stripOptional_of_ne hinner]
  | case2 type hnone =>
      have hall : Encodes records (.of type) value :=
        encodes_nothing h fun hcount => hnone ⟨h, hcount⟩
      rw [stripOptional, dif_neg hnone]
      exact ⟨Or.inr, fun _ => hall⟩

end Nodes

end JsonRpcBridge.Docs
