import JsonRpcBridge.Json

/-!
# Schemas

`schema_ir.h`: the types of a LIDL JSON AST as JSON Schema. The AST is whatever the contract reader
printed, so every access stands behind its own check, and an unknown spelling degrades to a schema
that only names it.

What the OpenRPC document takes of it is here. `clean_typeSchema` and the lemmas after it: the
schema of a clean AST is clean.
-/

namespace JsonRpcBridge.Docs

/-- The two forms of JSON Schema that the documents use. They differ in how a tuple is written. -/
inductive Dialect where
  | draft07
  | draft2020_12
  deriving DecidableEq, Repr

def kSchemasPrefix : Bytes := str "#/components/schemas/"
def kUnknownTypeKey : Bytes := str "x-logos-unknown-type"
def kMapKeyTypeKey : Bytes := str "x-logos-map-key-type"

/-- A string literal as JSON. -/
def text (s : String) : Json := .str (str s)

/-! ## Reading the AST

Every access asks for the kind of value it wants and takes a default otherwise, so that reading
never fails. A default is an empty string, `false`, an empty list or null. What is read is
smaller than what it is read from, which is what the recursions on types rest on. -/

/-- A string member, or the empty string. -/
def strField (j : Json) (key : Bytes) : Bytes :=
  match j.find? key with
  | some (.str s) => s
  | _ => []

/-- A boolean member, or `false`. -/
def boolField (j : Json) (key : Bytes) : Bool :=
  match j.find? key with
  | some (.bool b) => b
  | _ => false

/-- An array member, if there is one. -/
def arrayField (j : Json) (key : Bytes) : Option (List Json) :=
  match j.find? key with
  | some (.arr xs) => some xs
  | _ => none

/-- The element types of a type expression. -/
def elements (type : Json) : List Json := (arrayField type (str "elements")).getD []

def elementAt (type : Json) (i : Nat) : Json := (elements type).getD i .null

def elementCount (type : Json) : Nat := (elements type).length

def kindOf (type : Json) : Bytes := strField type (str "kind")

def isPrimitive (type : Json) (name : Bytes) : Bool :=
  kindOf type == str "primitive" && strField type (str "name") == name

theorem exists_of_contains {j : Json} {k : Bytes} (h : j.contains k = true) :
    ∃ v, j.find? k = some v := Option.isSome_iff_exists.mp h

/-! ### Sizes

The functions on types recurse on elements, which are smaller by these lemmas. -/

/-- A member is smaller than its object. -/
theorem sizeOf_find? {j v : Json} {key : Bytes} (h : j.find? key = some v) : sizeOf v < sizeOf j := by
  cases j with
  | obj ms =>
      have hmem : (key, v) ∈ ms := List.mem_of_lookup h
      have hlt := List.sizeOf_lt_of_mem hmem
      simp only [Prod.mk.sizeOf_spec, Json.obj.sizeOf_spec] at hlt ⊢
      omega
  | _ => cases h

theorem sizeOf_elements {type x : Json} (h : x ∈ elements type) : sizeOf x < sizeOf type := by
  rw [elements, arrayField] at h
  split at h
  · rename_i xs hfind
    have hlt := List.sizeOf_lt_of_mem (show x ∈ xs from h)
    have hxs := sizeOf_find? hfind
    simp only [Json.arr.sizeOf_spec] at hxs
    omega
  · cases h

/-- An element of a type is smaller, and so is the null that stands for a missing one. -/
theorem sizeOf_elementAt {type : Json} (h : type.isObject = true) (i : Nat) :
    sizeOf (elementAt type i) < sizeOf type := by
  rw [elementAt, List.getD_eq_getElem?_getD]
  cases hget : (elements type)[i]? with
  | some x => exact sizeOf_elements (List.mem_of_getElem? hget)
  | none =>
      obtain ⟨ms, rfl⟩ := Json.eq_obj_of_isObject h
      show sizeOf Json.null < _
      simp only [Json.null.sizeOf_spec, Json.obj.sizeOf_spec]
      cases ms with
      | nil => simp
      | cons => simp only [List.cons.sizeOf_spec]; omega

/-! ## Names

A component is stored under a key that JSON pointers and the OpenAPI grammar accept. The key is
made byte by byte, so that two names of the same length may get one key. -/

/-- `[a-zA-Z0-9._-]` -/
def isKeyChar (c : UInt8) : Bool :=
  (c ≥ 0x61 && c ≤ 0x7A) || (c ≥ 0x41 && c ≤ 0x5A) || (c ≥ 0x30 && c ≤ 0x39) ||
    c == 0x2E || c == 0x2D || c == 0x5F

/-- Component keys must match `^[a-zA-Z0-9._-]+$`; anything else becomes `_`. -/
def componentKey (raw : Bytes) : Bytes :=
  (if raw.isEmpty then str "_" else raw).map fun c => if isKeyChar c then c else 0x5F

def recordComponentName (module type : Bytes) : Bytes := componentKey (module ++ str "." ++ type)

def schemaRef (componentName : Bytes) : Json :=
  Json.object [(str "$ref", .str (kSchemasPrefix ++ componentKey componentName))]

/-! ### Schemas put together -/

/-- A description never sits next to `$ref`: a reference is wrapped in `allOf` first. -/
def describe (schema : Json) (description : Bytes) : Json :=
  if description.isEmpty then schema
  else
    let schema := if !schema.isObject || schema.contains (str "$ref") then
      Json.object [(str "allOf", .arr [schema])] else schema
    schema.set (str "description") (.str description)

/-- `?T`: the value or null. `{}` already admits null. -/
def nullable (schema : Json) : Json :=
  if schema.isObject && schema.size == 0 then schema
  else Json.object [(str "anyOf", .arr [schema, Json.object [(str "type", text "null")]])]

/-- A positional array of exactly these values, in the dialect's tuple form. -/
def tupleSchema (items : List Json) (dialect : Dialect) : Json :=
  let s := Json.object [(str "type", text "array")]
  if items.isEmpty then s.set (str "maxItems") (.int 0)
  else
    let s := match dialect with
      | .draft07 => (s.set (str "items") (.arr items)).set (str "additionalItems") (.bool false)
      | .draft2020_12 => (s.set (str "prefixItems") (.arr items)).set (str "items") (.bool false)
    (s.set (str "minItems") (.uint items.length)).set (str "maxItems") (.uint items.length)

def unknownType (spelling : Bytes) : Json := Json.object [(kUnknownTypeKey, .str spelling)]

def missing : Bytes := str "(missing)"

def orMissing (name : Bytes) : Bytes := if name.isEmpty then missing else name

/-- The LIDL text of a type expression, for diagnostics. -/
def typeSpelling (type : Json) : Bytes :=
  if h : type.isObject = true then
    let kind := kindOf type
    let name := strField type (str "name")
    if kind == str "primitive" || kind == str "named" then orMissing name
    else if kind == str "array" then str "[" ++ typeSpelling (elementAt type 0) ++ str "]"
    else if kind == str "map" then
      str "\x7b" ++ typeSpelling (elementAt type 0) ++ str ": " ++
        typeSpelling (elementAt type 1) ++ str "\x7d"
    else if kind == str "optional" then str "? " ++ typeSpelling (elementAt type 0)
    else if kind.isEmpty then str "(missing kind)"
    else if name.isEmpty then kind
    else kind ++ str ":" ++ name
  else missing
termination_by sizeOf type
decreasing_by all_goals exact sizeOf_elementAt h _

/-! ## Types

A type of the contract becomes a schema by recursion on its elements. What the contract leaves
open, a kind that is unknown, an array without an element type, a name that the scope does not
have, is not refused but marked: the schema accepts everything and holds the spelling of the
type. An optional is spelled once, however often it is nested. -/

/-- The records a module declares, for resolving named references. -/
structure TypeScope where
  module : Bytes
  records : List Bytes := []

def TypeScope.of (module : Bytes) (interface : Json) : TypeScope where
  module := module
  records := (((arrayField interface (str "types")).getD []).map fun t =>
    strField t (str "name")).filter fun name => !name.isEmpty

/-- The primitives. The bounds of the integers are those of 64 bits, and bytes are the shared
object. -/
def primitiveSchema (name : Bytes) : Json :=
  if name == str "tstr" then Json.object [(str "type", text "string")]
  else if name == str "bstr" then schemaRef (str "Bytes")
  else if name == str "int" then
    Json.object [(str "type", text "integer"), (str "format", text "int64"),
      (str "minimum", .int (-9223372036854775808)), (str "maximum", .int 9223372036854775807)]
  else if name == str "uint" then
    Json.object [(str "type", text "integer"), (str "format", text "uint64"),
      (str "minimum", .int 0), (str "maximum", .uint 18446744073709551615)]
  else if name == str "float64" then
    Json.object [(str "type", text "number"), (str "format", text "double")]
  else if name == str "bool" then Json.object [(str "type", text "boolean")]
  else if name == str "any" then Json.object []
  else if name == str "result" then schemaRef (str "LogosResult")
  else unknownType (orMissing name)

theorem isObject_of_kindOf {type : Json} (h : kindOf type ≠ []) : type.isObject = true := by
  rw [kindOf, strField] at h
  split at h
  · rename_i hfind
    exact Json.isObject_of_find hfind
  · exact absurd rfl h

theorem isObject_of_optional {type : Json} (h : kindOf type = str "optional") :
    type.isObject = true :=
  isObject_of_kindOf (h ▸ List.cons_ne_nil _ _)

/-- `??T` is `?T`: what is under all the optionals of a type. -/
def stripOptional (type : Json) : Json :=
  if h : kindOf type = str "optional" ∧ elementCount type > 0 then
    stripOptional (elementAt type 0)
  else type
termination_by sizeOf type
decreasing_by exact sizeOf_elementAt (isObject_of_optional h.1) 0

theorem sizeOf_stripOptional_le (type : Json) : sizeOf (stripOptional type) ≤ sizeOf type := by
  induction type using stripOptional.induct with
  | case1 type h ih =>
      rw [stripOptional, dif_pos h]
      exact Nat.le_trans ih (Nat.le_of_lt (sizeOf_elementAt (isObject_of_optional h.1) 0))
  | case2 type h =>
      have hsame : stripOptional type = type := by rw [stripOptional, dif_neg h]
      exact Nat.le_of_eq (congrArg sizeOf hsame)

/-- Under the optionals there is less, unless they hold nothing. -/
theorem sizeOf_stripOptional {type : Json} (h : kindOf type = str "optional")
    (hstrip : kindOf (stripOptional type) ≠ str "optional") :
    sizeOf (stripOptional type) < sizeOf type := by
  rw [stripOptional] at hstrip ⊢
  split at hstrip
  · rename_i hsome
    rw [dif_pos hsome]
    exact Nat.lt_of_le_of_lt (sizeOf_stripOptional_le _)
      (sizeOf_elementAt (isObject_of_optional h) 0)
  · exact absurd h hstrip

def typeSchema (scope : TypeScope) (dialect : Dialect) (type : Json) : Json :=
  if h : type.isObject = true then
    let kind := kindOf type
    let n := elementCount type
    if kind == str "primitive" then primitiveSchema (strField type (str "name"))
    else if kind == str "array" then
      if n < 1 then unknownType (typeSpelling type)
      else Json.object [(str "type", text "array"),
        (str "items", typeSchema scope dialect (elementAt type 0))]
    else if kind == str "map" then
      if n < 2 then unknownType (typeSpelling type)
      else
        let s := Json.object [(str "type", text "object"),
          (str "additionalProperties", typeSchema scope dialect (elementAt type 1))]
        let key := elementAt type 0
        if isPrimitive key (str "tstr") then s
        else s.set kMapKeyTypeKey (.str (typeSpelling key))
    else if hopt : kindOf type = str "optional" then
      if hin : kindOf (stripOptional type) = str "optional" then unknownType (typeSpelling type)
      else
        nullable (typeSchema scope dialect (stripOptional type))
    else if kind == str "named" then
      let name := strField type (str "name")
      if scope.records.contains name then schemaRef (recordComponentName scope.module name)
      else unknownType (orMissing name)
    else unknownType (typeSpelling type)
  else unknownType missing
termination_by sizeOf type
decreasing_by
  · exact sizeOf_elementAt h 0
  · exact sizeOf_elementAt h 1
  · exact sizeOf_stripOptional hopt hin

/-! ## Slots, results and records

A slot is a field, a parameter or a result. It holds its value type, and an optional one also
takes null. A record becomes an object of its fields, a method a tuple and an object of its
parameters; where two fields have one name the first stands. -/

def slotIsOptional (slot : Json) : Bool := boolField slot (str "isOptional")

/-- What a slot holds: its value type, else its type, else itself. -/
def slotType (slot : Json) : Json :=
  match slot.find? (str "valueType") with
  | some type => type
  | none => (slot.find? (str "type")).getD slot

/-- A field or parameter: the value type's schema, null-able when the slot is optional. -/
def slotSchema (slot : Json) (scope : TypeScope) (dialect : Dialect) : Json :=
  let s := typeSchema scope dialect (slotType slot)
  if slotIsOptional slot then nullable s else s

/-- False for a no-return method, including the legacy `void` spelling. -/
def methodReturns (method : Json) : Bool :=
  match method.find? (str "returnType") with
  | none | some .null => false
  | some type =>
    !((kindOf type == str "primitive" || kindOf type == str "named") &&
      strField type (str "name") == str "void" && elementCount type == 0)

/-- The value a successful call returns; a no-return method answers `true`. -/
def returnSchema (method : Json) (scope : TypeScope) (dialect : Dialect) : Json :=
  if !methodReturns method then Json.object [(str "const", .bool true)]
  else
    let valueType := match method.find? (str "returnValueType") with
      | some type => type
      | none => (method.find? (str "returnType")).getD .null
    let s := typeSchema scope dialect valueType
    if boolField method (str "returnIsOptional") then nullable s else s

/-- `anyOf`, not `oneOf`: an `any` return also matches the rejection shape. -/
def resultSchema (value : Json) : Json :=
  Json.object [(str "anyOf", .arr [value, schemaRef (str "ProviderRejection")])]

/-- What a successful call answers with: the value, or the rejection of the provider. -/
def methodResultSchema (method : Json) (scope : TypeScope) (dialect : Dialect) : Json :=
  resultSchema (returnSchema method scope dialect)

/-! ### Parameters and fields -/

/-- The parameters of a declaration. -/
def paramsOf (decl : Json) : List Json := (arrayField decl (str "params")).getD []

/-- The params array: every declared parameter, in order. -/
def paramsTuple (decl : Json) (scope : TypeScope) (dialect : Dialect) : Json :=
  tupleSchema ((paramsOf decl).map fun p => slotSchema p scope dialect) dialect

/-- The properties of a record or of the params so far, and the names of the required ones. -/
def addField (scope : TypeScope) (dialect : Dialect) (acc : Json × List Json) (f : Json) :
    Json × List Json :=
  let name := strField f (str "name")
  if acc.1.contains name then acc
  else (acc.1.set name (slotSchema f scope dialect),
    if slotIsOptional f then acc.2 else acc.2 ++ [.str name])

def anyRequiredParam (decl : Json) : Bool := (paramsOf decl).any fun p => !slotIsOptional p

/-- The by-name params object: declared names only, required unless optional. -/
def paramsObject (decl : Json) (scope : TypeScope) (dialect : Dialect) : Json :=
  let (properties, required) := (paramsOf decl).foldl (addField scope dialect)
    (Json.object [], [])
  let s := Json.object [(str "type", text "object"), (str "properties", properties),
    (str "additionalProperties", .bool false)]
  if required.isEmpty then s else s.set (str "required") (.arr required)

/-- A record. It is left open, so that a provider may add a field. -/
def recordSchema (typeDecl : Json) (scope : TypeScope) (dialect : Dialect) : Json :=
  let (properties, required) := ((arrayField typeDecl (str "fields")).getD []).foldl
    (addField scope dialect) (Json.object [], [])
  let s := Json.object [(str "type", text "object"),
    (str "title", .str (strField typeDecl (str "name"))), (str "properties", properties)]
  if required.isEmpty then s else s.set (str "required") (.arr required)

/-- Every record the contract declares, used by an exposed member or not. -/
def addRecordComponents (schemas : Json) (module : Bytes) (interface : Json) (dialect : Dialect) :
    Json :=
  let scope := TypeScope.of module interface
  ((arrayField interface (str "types")).getD []).foldl (fun schemas t =>
    let name := strField t (str "name")
    if name.isEmpty then schemas
    else schemas.set (recordComponentName module name) (recordSchema t scope dialect)) schemas

/-! ## Shared LIDL components

Three shapes that LIDL itself defines and every document refers to: bytes, the result of a method
that may fail, and the refusal of a provider. -/

def bytesSchema : Json :=
  Json.object [
    (str "title", text "Bytes"),
    (str "description", text ("A LIDL bstr: the bytes as base64url without padding (RFC 4648 " ++
      "section 5), carried as the object's only key. Do not name a map key \"_bytes\".")),
    (str "type", text "object"),
    (str "properties", Json.object [(str "_bytes", Json.object [
      (str "type", text "string"), (str "pattern", text "^[A-Za-z0-9_-]*$")])]),
    (str "required", .arr [text "_bytes"]),
    (str "additionalProperties", .bool false)]

/-- The `{success, value, error}` object every SDK emits for a LIDL `result`. -/
def logosResultSchema : Json :=
  Json.object [
    (str "title", text "LogosResult"),
    (str "description", text ("A LIDL result. A provider that ran and failed answers " ++
      "success=false here: an application failure is a successful call, never a JSON-RPC error.")),
    (str "type", text "object"),
    (str "properties", Json.object [
      (str "success", Json.object [(str "type", text "boolean")]),
      (str "value", Json.object [
        (str "description", text "The payload; any JSON value, null when absent.")]),
      (str "error", Json.object [
        (str "description", text "The failure message as a string; null when there is none.")])]),
    (str "required", .arr [text "success"])]

def providerRejectionSchema : Json :=
  Json.object [
    (str "title", text "ProviderRejection"),
    (str "description", text ("The provider refused the call and said why. It arrives as the " ++
      "call's result, not as a JSON-RPC error.")),
    (str "type", text "object"),
    (str "properties", Json.object [
      (str "code", Json.object [
        (str "type", text "string"),
        (str "description", text ("Known codes: dispatch_failed (the argument values were " ++
          "refused) and invalid_args (wrong argument count). Treat any other code as a refusal " ++
          "too. unknown_method (no method by that name) never arrives here: the bridge answers " ++
          "it with the -32601 MethodNotFound error."))]),
      (str "message", Json.object [(str "type", text "string")]),
      (str "origin", Json.object [
        (str "type", text "string"), (str "description", text "The module that refused.")])]),
    (str "required", .arr [text "code", text "message", text "origin"]),
    (str "additionalProperties", .bool false)]

/-! ## Schemas of a clean AST are clean

A schema takes names and spellings over from the contract without sanitising them. That is sound
because a contract is only accepted when it is clean; so here each emitter is shown to keep clean
what it is given. -/

section Clean

variable {j type schema : Json} {key name : Bytes}

theorem clean_text (s : String) : (text s).Clean := Json.clean_str_iff.mpr (utf8_str s)

theorem utf8_strField (h : j.Clean) (key : Bytes) : Utf8 (strField j key) := by
  rw [strField]
  split
  · rename_i hfind
    exact Json.clean_str_iff.mp (h.find? hfind)
  · exact utf8_nil

theorem clean_arrayField {xs : List Json} (h : j.Clean) (hxs : arrayField j key = some xs) :
    ∀ x ∈ xs, x.Clean := by
  rw [arrayField] at hxs
  split at hxs <;> cases hxs
  rename_i hfind
  exact Json.clean_arr_iff.mp (h.find? hfind)

theorem clean_arrayField_getD (h : j.Clean) (key : Bytes) :
    ∀ x ∈ (arrayField j key).getD [], x.Clean := by
  cases hxs : arrayField j key with
  | none => exact fun x hx => nomatch hx
  | some xs => exact clean_arrayField h hxs

theorem clean_elementAt (h : type.Clean) (i : Nat) : (elementAt type i).Clean := by
  rw [elementAt, List.getD_eq_getElem?_getD]
  cases hget : (elements type)[i]? with
  | none => exact Json.clean_null
  | some x => exact clean_arrayField_getD h _ x (List.mem_of_getElem? hget)

theorem utf8_componentKey (raw : Bytes) : Utf8 (componentKey raw) := by
  apply utf8_of_ascii
  intro x hx
  obtain ⟨c, _, rfl⟩ := List.mem_map.mp hx
  by_cases hc : isKeyChar c = true
  · rw [if_pos hc]
    simp only [isKeyChar, ge_iff_le, Bool.or_eq_true, Bool.and_eq_true, decide_eq_true_eq,
      beq_iff_eq, UInt8.le_iff_toNat_le, ← UInt8.toNat_inj] at hc
    simp at hc
    omega
  · rw [if_neg hc]
    decide

/-! ### Schema by schema -/

theorem clean_schemaRef (name : Bytes) : (schemaRef name).Clean := by
  apply Json.clean_object
  have hprefix : Utf8 kSchemasPrefix := utf8_str _
  simpa [utf8_str] using hprefix.append (utf8_componentKey name)

theorem clean_nullable (h : schema.Clean) : (nullable schema).Clean := by
  rw [nullable]
  split
  · exact h
  · apply Json.clean_object
    have hnull : (Json.object [(str "type", text "null")]).Clean :=
      Json.clean_object (by simp [utf8_str, clean_text])
    simp [utf8_str, h, hnull]

theorem clean_describe {description : Bytes} (h : schema.Clean) (hd : Utf8 description) :
    (describe schema description).Clean := by
  rw [describe]
  split
  · exact h
  · refine Json.Clean.set ?_ (utf8_str _) (Json.clean_str_iff.mpr hd)
    split
    · exact Json.clean_object (by simp [utf8_str, h])
    · exact h

theorem clean_tupleSchema {items : List Json} (h : ∀ x ∈ items, x.Clean) (dialect : Dialect) :
    (tupleSchema items dialect).Clean := by
  have hbase : (Json.object [(str "type", text "array")]).Clean :=
    Json.clean_object (by simp [utf8_str, clean_text])
  have hitems : (Json.arr items).Clean := Json.clean_arr_iff.mpr h
  unfold tupleSchema
  split
  · exact hbase.set (utf8_str _) (Json.clean_int _)
  · refine Json.Clean.set (Json.Clean.set ?_ (utf8_str _) (Json.clean_uint _)) (utf8_str _)
      (Json.clean_uint _)
    cases dialect with
    | draft07 => exact (hbase.set (utf8_str _) hitems).set (utf8_str _) (Json.clean_bool _)
    | draft2020_12 => exact (hbase.set (utf8_str _) hitems).set (utf8_str _) (Json.clean_bool _)

theorem clean_unknownType (h : Utf8 name) : (unknownType name).Clean := by
  apply Json.clean_object
  simpa [kUnknownTypeKey, utf8_str] using h

theorem utf8_orMissing (h : Utf8 name) : Utf8 (orMissing name) := by
  rw [orMissing]
  split
  · exact utf8_str _
  · exact h

/-! ### Types -/

theorem utf8_typeSpelling (h : type.Clean) : Utf8 (typeSpelling type) := by
  have hname : Utf8 (strField type (str "name")) := utf8_strField h _
  have hkind : Utf8 (kindOf type) := utf8_strField h _
  fun_induction typeSpelling type with
  | case1 => exact utf8_orMissing hname
  | case2 type _ _ _ _ ih =>
      have h₀ := clean_elementAt h 0
      have hel := ih h₀ (utf8_strField h₀ _) (utf8_strField h₀ _)
      exact ((utf8_str _).append hel).append (utf8_str _)
  | case3 type _ _ _ _ _ ih₀ ih₁ =>
      have h₀ := clean_elementAt h 0
      have h₁ := clean_elementAt h 1
      have hkey := ih₀ h₀ (utf8_strField h₀ _) (utf8_strField h₀ _)
      have hval := ih₁ h₁ (utf8_strField h₁ _) (utf8_strField h₁ _)
      exact ((((utf8_str _).append hkey).append (utf8_str _)).append hval).append (utf8_str _)
  | case4 type _ _ _ _ _ _ ih =>
      have h₀ := clean_elementAt h 0
      exact (utf8_str _).append (ih h₀ (utf8_strField h₀ _) (utf8_strField h₀ _))
  | case5 => exact utf8_str _
  | case6 => exact hkind
  | case7 => exact (hkind.append (utf8_str _)).append hname
  | case8 => exact utf8_str _

theorem clean_primitiveSchema (h : Utf8 name) : (primitiveSchema name).Clean := by
  unfold primitiveSchema
  split_ifs
  · exact Json.clean_object (by simp [utf8_str, clean_text])
  · exact clean_schemaRef _
  · exact Json.clean_object (by simp [utf8_str, clean_text])
  · exact Json.clean_object (by simp [utf8_str, clean_text])
  · exact Json.clean_object (by simp [utf8_str, clean_text])
  · exact Json.clean_object (by simp [utf8_str, clean_text])
  · exact Json.clean_object (by simp)
  · exact clean_schemaRef _
  · exact clean_unknownType (utf8_orMissing h)

theorem clean_stripOptional (h : type.Clean) : (stripOptional type).Clean := by
  fun_induction stripOptional type with
  | case1 type hopt ih => exact ih (clean_elementAt h 0)
  | case2 => exact h

theorem clean_typeSchema (scope : TypeScope) (dialect : Dialect) (h : type.Clean) :
    (typeSchema scope dialect type).Clean := by
  fun_induction typeSchema scope dialect type with
  | case1 => exact clean_primitiveSchema (utf8_strField h _)
  | case2 => exact clean_unknownType (utf8_typeSpelling h)
  | case3 type _ _ _ _ _ _ ih =>
      exact Json.clean_object (by simp [utf8_str, clean_text, ih (clean_elementAt h 0)])
  | case4 => exact clean_unknownType (utf8_typeSpelling h)
  | case5 type _ _ _ _ _ _ _ _ _ _ ih =>
      exact Json.clean_object (by simp [utf8_str, clean_text, ih (clean_elementAt h 1)])
  | case6 type _ _ _ _ _ _ _ _ _ _ ih =>
      have hmap : (Json.object [(str "type", text "object"),
          (str "additionalProperties", typeSchema scope dialect (elementAt type 1))]).Clean :=
        Json.clean_object (by simp [utf8_str, clean_text, ih (clean_elementAt h 1)])
      exact hmap.set (utf8_str _) (Json.clean_str_iff.mpr (utf8_typeSpelling (clean_elementAt h 0)))
  | case7 => exact clean_unknownType (utf8_typeSpelling h)
  | case8 type _ _ _ _ _ _ _ ih => exact clean_nullable (ih (clean_stripOptional h))
  | case9 => exact clean_schemaRef _
  | case10 => exact clean_unknownType (utf8_orMissing (utf8_strField h _))
  | case11 => exact clean_unknownType (utf8_typeSpelling h)
  | case12 => exact clean_unknownType (utf8_str _)

theorem clean_slotType (h : j.Clean) : (slotType j).Clean := by
  rw [slotType]
  split
  · rename_i hfind
    exact h.find? hfind
  · cases hfind : j.find? (str "type") with
    | none => exact h
    | some type => exact h.find? hfind

theorem clean_slotSchema (scope : TypeScope) (dialect : Dialect) (h : j.Clean) :
    (slotSchema j scope dialect).Clean := by
  have htype := clean_typeSchema scope dialect (clean_slotType h)
  unfold slotSchema
  split
  · exact clean_nullable htype
  · exact htype

theorem clean_returnSchema (scope : TypeScope) (dialect : Dialect) (h : j.Clean) :
    (returnSchema j scope dialect).Clean := by
  have hvalue : (match j.find? (str "returnValueType") with
      | some type => type
      | none => (j.find? (str "returnType")).getD .null).Clean := by
    split
    · rename_i hfind
      exact h.find? hfind
    · cases hfind : j.find? (str "returnType") with
      | none => exact Json.clean_null
      | some type => exact h.find? hfind
  have htype := clean_typeSchema scope dialect hvalue
  unfold returnSchema
  split
  · exact Json.clean_object (by simp [utf8_str])
  · dsimp only
    split
    · exact clean_nullable htype
    · exact htype

theorem clean_methodResultSchema (scope : TypeScope) (dialect : Dialect) (h : j.Clean) :
    (methodResultSchema j scope dialect).Clean :=
  Json.clean_object (by simp [utf8_str, clean_returnSchema scope dialect h, clean_schemaRef])

theorem clean_paramsTuple (scope : TypeScope) (dialect : Dialect) (h : j.Clean) :
    (paramsTuple j scope dialect).Clean := by
  apply clean_tupleSchema
  intro x hx
  obtain ⟨p, hp, rfl⟩ := List.mem_map.mp hx
  exact clean_slotSchema scope dialect (clean_arrayField_getD h _ p hp)

/-- What the fields of a record come to is clean, whatever the fields are. -/
theorem clean_addField (scope : TypeScope) (dialect : Dialect) {acc : Json × List Json}
    (h : acc.1.Clean ∧ ∀ x ∈ acc.2, x.Clean) (hj : j.Clean) :
    (addField scope dialect acc j).1.Clean ∧ ∀ x ∈ (addField scope dialect acc j).2, x.Clean := by
  have hname : Utf8 (strField j (str "name")) := utf8_strField hj _
  unfold addField
  dsimp only
  split
  · exact h
  · refine ⟨h.1.set hname (clean_slotSchema scope dialect hj), ?_⟩
    split
    · exact h.2
    · intro x hx
      rcases List.mem_append.mp hx with hx | hx
      · exact h.2 x hx
      · rw [List.mem_singleton.mp hx]
        exact Json.clean_str_iff.mpr hname

theorem clean_recordSchema (scope : TypeScope) (dialect : Dialect) (h : j.Clean) :
    (recordSchema j scope dialect).Clean := by
  have hfold : ∀ (fields : List Json) (acc : Json × List Json), (∀ f ∈ fields, f.Clean) →
      (acc.1.Clean ∧ ∀ x ∈ acc.2, x.Clean) →
      (fields.foldl (addField scope dialect) acc).1.Clean ∧
        ∀ x ∈ (fields.foldl (addField scope dialect) acc).2, x.Clean := by
    intro fields
    induction fields with
    | nil => exact fun acc _ hacc => hacc
    | cons f fields ih =>
        intro acc hfields hacc
        exact ih _ (fun x hx => hfields x (List.mem_cons_of_mem _ hx))
          (clean_addField scope dialect hacc (hfields f (List.mem_cons_self ..)))
  obtain ⟨hproperties, hrequired⟩ := hfold _ (Json.object [], [])
    (clean_arrayField_getD h (str "fields")) ⟨Json.clean_object (by simp), by simp⟩
  have htitle : Utf8 (strField j (str "name")) := utf8_strField h _
  have hbase : ∀ properties : Json, properties.Clean → (Json.object [(str "type", text "object"),
      (str "title", .str (strField j (str "name"))), (str "properties", properties)]).Clean :=
    fun properties hp => Json.clean_object (by simp [utf8_str, clean_text, htitle, hp])
  unfold recordSchema
  dsimp only
  split
  · exact hbase _ hproperties
  · exact (hbase _ hproperties).set (utf8_str _) (Json.clean_arr_iff.mpr hrequired)

theorem clean_addRecordComponents {schemas interface : Json} (module : Bytes) (dialect : Dialect)
    (hs : schemas.Clean) (h : interface.Clean) :
    (addRecordComponents schemas module interface dialect).Clean := by
  have htypes := clean_arrayField_getD h (str "types")
  unfold addRecordComponents
  dsimp only
  generalize (arrayField interface (str "types")).getD [] = types at htypes
  induction types generalizing schemas with
  | nil => exact hs
  | cons t types ih =>
      rw [List.foldl_cons]
      refine ih ?_ fun x hx => htypes x (List.mem_cons_of_mem _ hx)
      split
      · exact hs
      · exact hs.set (utf8_componentKey _)
          (clean_recordSchema _ dialect (htypes t (List.mem_cons_self ..)))

theorem clean_bytesSchema : bytesSchema.Clean :=
  Json.clean_object (by simp [utf8_str, clean_text, Json.clean_object])

theorem clean_logosResultSchema : logosResultSchema.Clean :=
  Json.clean_object (by simp [utf8_str, clean_text, Json.clean_object])

theorem clean_providerRejectionSchema : providerRejectionSchema.Clean :=
  Json.clean_object (by simp [utf8_str, clean_text, Json.clean_object, -String.reduceAppend])

end Clean

end JsonRpcBridge.Docs
