import JsonRpcBridge.Docs.Apart
import JsonRpcBridge.Docs.AsyncRefs
import JsonRpcBridge.Docs.Forms

/-!
# Type schemas mean the type

`Carries`: a document with the shared schemas and the records of its modules among its components,
as all three documents have them. `KeysDistinct` and `FieldsDerived` are what the reader promises of
the modules.

* `find?_recordSchemas`: every declared record has its own component.
* `valid_slotSchema`, `valid_record`: a slot and a record, given the types inside them.
* `typeSchema_means`: a value is valid for the schema of a type when it encodes the type, by
  induction on the value and, under an optional, on the type.

The schemas are recursive through references: the schema of a record refers to itself where a field
does. A value is finite, so the induction is on the value; it goes through a reference without
getting smaller only at an optional and at a name, where the type does.
-/

namespace JsonRpcBridge.Docs

/-! ## The components

What is assumed of a document is small enough to hold of all three: that it starts from the
shared schemas and adds the records of its modules. It is not assumed that two records have
different keys; that is `KeysDistinct`, a condition on names, under which each reference leads to
the record it was written for. -/

section Components

variable {doc base j : Json} {d : Dialect} {modules : List ModuleDoc} {m : ModuleDoc}

/-- The schemas of a document: what it starts with, and the records of its modules. -/
def recordSchemas (base : Json) (d : Dialect) (modules : List ModuleDoc) : Json :=
  modules.foldl (fun schemas m => addRecordComponents schemas m.name m.interface d) base

/-- The document has the shared schemas and the records of the modules among its components. -/
def Carries (doc : Json) (d : Dialect) (modules : List ModuleDoc) : Prop :=
  ∃ base comps, base.isObject = true ∧ base.find? (str "Bytes") = some bytesSchema ∧
    base.find? (str "LogosResult") = some logosResultSchema ∧
    doc.find? (str "components") = some comps ∧
    comps.find? (str "schemas") = some (recordSchemas base d modules)

/-- No two declared records have one component key. -/
def KeysDistinct (modules : List ModuleDoc) : Prop :=
  (modules.flatMap fun m =>
    (TypeScope.of m.name m.interface).records.map (recordComponentName m.name)).Nodup

/-- The OpenRPC document. -/
theorem carries_buildOpenRpc (ctx : DocContext) :
    Carries (buildOpenRpc ctx) .draft07 (ctx.modules.filter isTyped) :=
  ⟨_, _, rfl, rfl, rfl, OpenRpc.find?_components, OpenRpc.find?_schemas⟩

/-- The OpenAPI document, in the newer dialect. -/
theorem carries_buildOpenApi (ctx : DocContext) :
    Carries (buildOpenApi ctx) .draft2020_12 (ctx.modules.filter isTyped) :=
  ⟨_, _, rfl, rfl, rfl, OpenApi.find?_components, OpenApi.find?_schemas⟩

/-- The AsyncAPI document. -/
theorem carries_buildAsyncApi (ctx : DocContext) :
    Carries (buildAsyncApi ctx) .draft07 (ctx.modules.filter isTyped) :=
  ⟨_, _, rfl, rfl, rfl, AsyncApi.find?_components, AsyncApi.find?_schemas⟩

/-- Members assigned one after another, each key once. -/
theorem find?_assigns {kvs : List (Bytes × Json)} (hj : j.isObject = true)
    (hkeys : (kvs.map Prod.fst).Nodup) (k : Bytes) :
    (kvs.foldl (fun j kv => j.set kv.1 kv.2) j).find? k = (kvs.lookup k).or (j.find? k) := by
  induction kvs generalizing j with
  | nil => rfl
  | cons kv kvs ih =>
      obtain ⟨hfirst, hrest⟩ := List.nodup_cons.mp hkeys
      rw [List.foldl_cons, ih (Json.isObject_set hj) hrest, Json.find?_set hj, List.lookup_cons_if]
      by_cases hk : k = kv.1
      · have hgone : kvs.lookup k = none := by
          refine List.lookup_eq_none_iff.mpr fun e he => ?_
          rw [bne_iff_ne, hk]
          exact fun heq => hfirst (heq ▸ List.mem_map_of_mem he)
        rw [hgone, if_pos hk, if_pos hk]
        rfl
      · rw [if_neg hk, if_neg hk]

/-! ### Records among the components

Records come after the shared schemas. Their keys have a dot, which no shared key has. -/

/-- Adding the records is assigning them one after the other. -/
theorem recordSchemas_eq (base : Json) (d : Dialect) (modules : List ModuleDoc) :
    recordSchemas base d modules =
      (modules.flatMap (recordAssignments d)).foldl (fun j kv => j.set kv.1 kv.2) base := by
  rw [recordSchemas, List.foldl_flatMap]
  congr
  funext schemas m
  rw [recordAssignments, List.foldl_flatMap, addRecordComponents]
  congr
  funext schemas t
  by_cases hname : (strField t (str "name")).isEmpty = true
  · simp only [if_pos hname, List.foldl_nil]
  · simp only [if_neg hname, List.foldl_cons, List.foldl_nil]

theorem keys_recordSchemas (d : Dialect) (modules : List ModuleDoc) :
    (modules.flatMap (recordAssignments d)).map Prod.fst = modules.flatMap fun m =>
      (TypeScope.of m.name m.interface).records.map (recordComponentName m.name) := by
  rw [List.map_flatMap]
  simp only [keys_recordAssignments]

/-- Every declared record has its own component. -/
theorem find?_recordSchemas {t : Json} (hbase : base.isObject = true) (hkeys : KeysDistinct modules)
    (hm : m ∈ modules) (ht : t ∈ (arrayField m.interface (str "types")).getD [])
    (hname : strField t (str "name") ≠ []) :
    (recordSchemas base d modules).find? (recordComponentName m.name (strField t (str "name"))) =
      some (recordSchema t (TypeScope.of m.name m.interface) d) := by
  have hdistinct : ((modules.flatMap (recordAssignments d)).map Prod.fst).Nodup := by
    rw [keys_recordSchemas]
    exact hkeys
  have hmem : (recordComponentName m.name (strField t (str "name")),
      recordSchema t (TypeScope.of m.name m.interface) d) ∈
      modules.flatMap (recordAssignments d) := by
    refine List.mem_flatMap.mpr ⟨m, hm, List.mem_flatMap.mpr ⟨t, ht, ?_⟩⟩
    rw [if_neg (by simpa using hname)]
    exact List.mem_singleton_self _
  rw [recordSchemas_eq, find?_assigns hbase hdistinct, List.lookup_of_mem hdistinct hmem]
  rfl

/-- A record's key has a dot, so what the document starts with stays. -/
theorem find?_recordSchemas_shared {k : Bytes} (hbase : base.isObject = true)
    (hkeys : KeysDistinct modules) (hk : k.contains 0x2E = false) :
    (recordSchemas base d modules).find? k = base.find? k := by
  have hdistinct : ((modules.flatMap (recordAssignments d)).map Prod.fst).Nodup := by
    rw [keys_recordSchemas]
    exact hkeys
  have hnone : (modules.flatMap (recordAssignments d)).lookup k = none := by
    refine List.lookup_eq_none_iff.mpr fun e he => ?_
    have hkey : e.1 ∈ (modules.flatMap (recordAssignments d)).map Prod.fst :=
      List.mem_map_of_mem he
    rw [keys_recordSchemas] at hkey
    obtain ⟨m, -, hkey⟩ := List.mem_flatMap.mp hkey
    obtain ⟨name, -, hkey⟩ := List.mem_map.mp hkey
    rw [bne_iff_ne]
    rintro rfl
    rw [← hkey, dot_mem_recordComponentName] at hk
    cases hk
  rw [recordSchemas_eq, find?_assigns hbase hdistinct, hnone]
  rfl

end Components

/-! ## Slots

The reader of a contract writes three things of a field that depend on each other: its type, the
type under its optionals, and whether it is optional. A slot is shown to accept what the
specification says under the assumption that the three agree. -/

/-- What the reader derives from a field's type: whether it is optional, and what it holds. -/
def Derived (f : Json) : Prop :=
  ∃ type, f.find? (str "type") = some type ∧
    f.find? (str "valueType") = some (stripOptional type) ∧
    f.find? (str "isOptional") =
      some (.bool (boolField f (str "optional") || kindOf type == str "optional"))

section Slots

variable {V : Vocabulary} {d : Dialect} {scope : TypeScope} {f value : Json} {records : LidlRecords}

/-- A field is optional by a flag of its own or by its type. -/
theorem Derived.isOptional (h : Derived f) : slotIsOptional f = (LidlField.of f).isOptional := by
  obtain ⟨type, htype, -, hoptional⟩ := h
  rw [slotIsOptional, boolField, hoptional, LidlField.isOptional, LidlField.of, htype]
  dsimp only [Option.getD_some]
  rw [isOptional_of]

/-- What a slot accepts, given what the type under its optionals does. -/
theorem valid_slotSchema (h : Derived f) (hinner : ∀ type, f.find? (str "type") = some type →
      (Valid V d (typeSchema scope d (stripOptional type)) value ↔
        Encodes records (.of (stripOptional type)) value)) :
    Valid V d (slotSchema f scope d) value ↔ Encodes records (LidlField.of f).slot value := by
  have hoptional := h.isOptional
  obtain ⟨type, htype, hvalue, hflag⟩ := h
  have hslot : slotType f = stripOptional type := by rw [slotType, hvalue]
  have hfield : (LidlField.of f).type = .of type := by rw [LidlField.of, htype]; rfl
  have hinner := hinner type htype
  rw [slotSchema, LidlField.slot, ← hoptional, hslot, hfield]
  by_cases hkind : kindOf type = str "optional"
  · have htrue : slotIsOptional f = true := by
      rw [slotIsOptional, boolField, hflag, hkind]
      simp
    rw [if_pos htrue, if_pos htrue, valid_nullable, hinner, encodes_optional,
      encodes_stripOptional hkind, or_self_left]
  · rw [stripOptional_of_ne hkind] at hinner ⊢
    split_ifs
    · rw [valid_nullable, hinner, encodes_optional]
    · exact hinner

end Slots

/-! ## Named types

A name means the record that the contract declares under it, the first one if there are several;
the component of that name is built from the same declaration. -/

section Named

variable {V : Vocabulary} {d : Dialect} {doc value : Json} {records : LidlRecords}
  {modules : List ModuleDoc} {m : ModuleDoc} {name : Bytes}

/-- A value encodes a record when it is an object with the required fields, each of which encodes
its own type. Members that are no field are not looked at. -/
theorem encodes_record {fields : List LidlField} (h : records name = some fields) :
    Encodes records (.named name) value ↔ value.isObject = true ∧
      (∀ k f, fieldOf fields k = some f → f.isOptional = false → value.contains k = true) ∧
      ∀ k f x, fieldOf fields k = some f → value.find? k = some x → Encodes records f.slot x := by
  constructor
  · intro henc
    cases henc with
    | record declared object needed each =>
        obtain rfl := Option.some.inj (h.symm.trans declared)
        exact ⟨object, needed, each⟩
    | undeclared _ none =>
        rw [h] at none
        cases none
  · exact fun ⟨object, needed, each⟩ => .record h object needed each

theorem fieldOf_map (fs : List Json) (k : Bytes) :
    fieldOf (fs.map LidlField.of) k = (fieldNamed fs k).map LidlField.of := by
  rw [fieldOf, fieldNamed, List.find?_map]
  rfl

/-- A name in scope is declared, once, by a record with that name. -/
theorem records_of_mem (h : name ∈ (TypeScope.of m.name m.interface).records) :
    ∃ t ∈ (arrayField m.interface (str "types")).getD [], strField t (str "name") = name ∧
      name ≠ [] ∧
      LidlRecords.of m.interface name = some ((fieldDecls t).map LidlField.of) := by
  obtain ⟨hmem, hne⟩ := List.mem_filter.mp h
  obtain ⟨t₀, ht₀, hname⟩ := List.mem_map.mp hmem
  have hsome : (((arrayField m.interface (str "types")).getD []).find? fun t =>
      strField t (str "name") == name).isSome = true :=
    List.find?_isSome.mpr ⟨t₀, ht₀, beq_iff_eq.mpr hname⟩
  obtain ⟨t, ht⟩ := Option.isSome_iff_exists.mp hsome
  have hnonempty : name ≠ [] := by simpa using hne
  refine ⟨t, List.mem_of_find?_eq_some ht, by simpa using List.find?_some ht, hnonempty, ?_⟩
  rw [LidlRecords.of, if_neg hnonempty, ht]
  rfl

theorem records_of_not_mem (h : name ∉ (TypeScope.of m.name m.interface).records) :
    LidlRecords.of m.interface name = none := by
  unfold LidlRecords.of
  split_ifs with hempty
  · rfl
  · rw [Option.map_eq_none_iff, List.find?_eq_none]
    intro t ht hname
    refine h (List.mem_filter.mpr ⟨List.mem_map.mpr ⟨t, ht, beq_iff_eq.mp hname⟩, ?_⟩)
    simpa using hempty

/-! ### Following a reference -/

/-- Where the reference to a declared record points. -/
theorem resolve_record {t : Json} (hdoc : Carries doc d modules) (hkeys : KeysDistinct modules)
    (hm : m ∈ modules) (ht : t ∈ (arrayField m.interface (str "types")).getD [])
    (hname : strField t (str "name") ≠ []) :
    doc.resolve (kSchemasPrefix ++
      componentKey (recordComponentName m.name (strField t (str "name")))) =
      some (recordSchema t (TypeScope.of m.name m.interface) d) := by
  obtain ⟨base, comps, hbase, -, -, hcomps, hschemas⟩ := hdoc
  refine resolve_schemaRef hcomps hschemas ?_
  rw [recordComponentName, componentKey_idem, ← recordComponentName]
  exact find?_recordSchemas hbase hkeys hm ht hname

/-- Where the reference to the shared `Bytes` points. -/
theorem resolve_bytes (hdoc : Carries doc d modules) (hkeys : KeysDistinct modules) :
    doc.resolve (kSchemasPrefix ++ componentKey (str "Bytes")) = some bytesSchema := by
  obtain ⟨base, comps, hbase, hbytes, -, hcomps, hschemas⟩ := hdoc
  refine resolve_schemaRef hcomps hschemas ?_
  rw [find?_recordSchemas_shared hbase hkeys (by decide)]
  exact hbytes

theorem resolve_logosResult (hdoc : Carries doc d modules) (hkeys : KeysDistinct modules) :
    doc.resolve (kSchemasPrefix ++ componentKey (str "LogosResult")) = some logosResultSchema := by
  obtain ⟨base, comps, hbase, -, hresult, hcomps, hschemas⟩ := hdoc
  refine resolve_schemaRef hcomps hschemas ?_
  rw [find?_recordSchemas_shared hbase hkeys (by decide)]
  exact hresult

end Named

/-! ## Adequacy

One lemma for each kind of type, and the induction that puts them together. A kind the emitter
does not know, and an array or a map without its elements, mean `unknown` on the other side too;
such a schema accepts everything, and so does the type. -/

section Adequacy

variable {V : Vocabulary} {d : Dialect} {doc value type : Json} {records : LidlRecords}
  {modules : List ModuleDoc} {m : ModuleDoc}

/-- The fields of every declared record are as the reader writes them. -/
def FieldsDerived (modules : List ModuleDoc) : Prop :=
  ∀ m ∈ modules, ∀ t ∈ (arrayField m.interface (str "types")).getD [],
    ∀ f ∈ fieldDecls t, Derived f

theorem sizeOf_slot {x : Json} {xs : List Json} (h : x ∈ xs) : sizeOf x < sizeOf (Json.arr xs) := by
  have hlt := List.sizeOf_lt_of_mem h
  rw [Json.arr.sizeOf_spec]
  omega

theorem isObject_nullable {schema : Json} (h : schema.isObject = true) :
    (nullable schema).isObject = true := Json.isObject_ite h rfl

theorem isObject_primitiveSchema (name : Bytes) : (primitiveSchema name).isObject = true := by
  unfold primitiveSchema
  split_ifs <;> rfl

theorem isObject_typeSchema (scope : TypeScope) (d : Dialect) (type : Json) :
    (typeSchema scope d type).isObject = true := by
  fun_induction typeSchema scope d type with
  | case1 => exact isObject_primitiveSchema _
  | case8 type _ _ _ _ _ _ _ ih => exact isObject_nullable ih
  | case2 | case3 | case4 | case5 | case6 | case7 | case9 | case10 | case11 | case12 => rfl

/-! ### Kind by kind -/

/-- The primitives, and every other spelling of one. The cases follow the tests of
`primitiveSchema`. -/
theorem valid_primitiveSchema (hV : V.Standard d doc) (hdoc : Carries doc d modules)
    (hkeys : KeysDistinct modules) (name : Bytes) :
    Valid V d (primitiveSchema name) value ↔ Encodes records (.primitive name) value := by
  unfold primitiveSchema LidlType.primitive
  simp only [beq_iff_eq]
  split_ifs
  -- `tstr`
  · rw [valid_typeIs, hasType_string]
    constructor
    · rintro ⟨s, rfl⟩
      exact .tstr s
    · intro h
      cases h
      exact ⟨_, rfl⟩
  -- `bstr`
  · rw [valid_schemaRef hV (resolve_bytes hdoc hkeys)]
    exact valid_bytesSchema hV
  -- `int`: the bounds are those of 64 bits, and both ends are inside
  · have hmin : (Json.int (-9223372036854775808)).number? =
        some ((-9223372036854775808 : ℤ) : ℚ) := rfl
    have hmax : (Json.int 9223372036854775807).number? =
        some ((9223372036854775807 : ℤ) : ℚ) := rfl
    rw [valid_integerSchema hV hmin hmax]
    constructor
    · rintro ⟨n, hn, hle, hge⟩
      exact .int hn (by omega) (by omega)
    · intro h
      cases h with | int hn hle hlt => exact ⟨_, hn, by omega, by omega⟩
  -- `uint`
  · have hmin : (Json.int 0).number? = some ((0 : ℤ) : ℚ) := rfl
    have hmax : (Json.uint 18446744073709551615).number? =
        some ((18446744073709551615 : ℤ) : ℚ) := by simp [Json.number?]
    rw [valid_integerSchema hV hmin hmax]
    constructor
    · rintro ⟨n, hn, hle, hge⟩
      exact .uint hn (by omega) (by omega)
    · intro h
      cases h with | uint hn hle hlt => exact ⟨_, hn, by omega, by omega⟩
  -- `float64`: the format is an annotation, so any number will do
  · have hformat : str "format" ∈ annotations := by decide
    rw [valid_object_iff (by decide) (by rfl), List.forall_mem_cons, List.forall_mem_singleton]
    dsimp only
    constructor
    · rintro ⟨htype, _⟩
      exact .float64 (hasType_number.mp (obeys_type.mp htype))
    · intro h
      cases h with | float64 number =>
      exact ⟨obeys_type.mpr (hasType_number.mpr number), obeys_note hV hformat⟩
  -- `bool`
  · rw [valid_typeIs, hasType_boolean]
    constructor
    · rintro ⟨b, rfl⟩
      exact .bool b
    · intro h
      cases h
      exact ⟨_, rfl⟩
  -- `any`
  · exact ⟨fun _ => .any value, fun _ => valid_empty value⟩
  -- `result`
  · rw [valid_schemaRef hV (resolve_logosResult hdoc hkeys)]
    exact valid_logosResultSchema hV
  · exact ⟨fun _ => .unknown value, fun _ => valid_unknownType hV _⟩

/-- A declared record accepts its encodings, given what the fields do that are smaller. -/
theorem valid_record (hV : V.Standard d doc) (hdoc : Carries doc d modules)
    (hkeys : KeysDistinct modules) (hfields : FieldsDerived modules) (hm : m ∈ modules)
    {name : Bytes} (hname : name ∈ (TypeScope.of m.name m.interface).records)
    (ih : ∀ x, sizeOf x < sizeOf value → ∀ type,
      (Valid V d (typeSchema (TypeScope.of m.name m.interface) d type) x ↔
        Encodes (LidlRecords.of m.interface) (.of type) x)) :
    Valid V d (schemaRef (recordComponentName m.name name)) value ↔
      Encodes (LidlRecords.of m.interface) (.named name) value := by
  obtain ⟨t, ht, rfl, hne, hrecord⟩ := records_of_mem hname
  rw [valid_schemaRef hV (resolve_record hdoc hkeys hm ht hne), valid_recordSchema hV,
    encodes_record hrecord]
  have hderived {k : Bytes} {f : Json} (hf : fieldNamed (fieldDecls t) k = some f) : Derived f :=
    hfields m hm t ht f (of_fieldNamed hf).1
  refine and_congr_right fun _ => and_congr ?_ ?_
  · simp only [fieldOf_map, Option.map_eq_some_iff]
    constructor
    · rintro h k _ ⟨f, hf, rfl⟩ hrequired
      exact h k f hf ((hderived hf).isOptional.trans hrequired)
    · exact fun h k f hf hrequired =>
        h k _ ⟨f, hf, rfl⟩ ((hderived hf).isOptional.symm.trans hrequired)
  · simp only [fieldOf_map, Option.map_eq_some_iff]
    constructor
    · rintro h k _ x ⟨f, hf, rfl⟩ hx
      exact (valid_slotSchema (hderived hf) fun type _ => ih x (sizeOf_find? hx) _).mp
        (h k f x hf hx)
    · exact fun h k f x hf hx =>
        (valid_slotSchema (hderived hf) fun type _ => ih x (sizeOf_find? hx) _).mpr
          (h k _ x ⟨f, hf, rfl⟩ hx)

theorem find?_mapMembers (values : Json) (k : Bytes) : (Json.object [(str "type", text "object"),
    (str "additionalProperties", values)]).find? k = (mapMembers values none).lookup k :=
  Json.find?_object (by
    show [str "type", str "additionalProperties"].Nodup
    decide) k

/-- The same for a map, given what its values do. -/
theorem valid_map (key : Option Bytes) (hV : V.Standard d doc) {schema values : Json}
    {t : LidlType} (hobj : schema.isObject = true)
    (hfind : ∀ k, schema.find? k = (mapMembers values key).lookup k)
    (ih : ∀ x, sizeOf x < sizeOf value → (Valid V d values x ↔ Encodes records t x)) :
    Valid V d schema value ↔ Encodes records (.map t) value := by
  rw [valid_mapSchema hV hobj hfind]
  constructor
  · exact fun ⟨hvalue, h⟩ => .map hvalue fun k x hx => (ih x (sizeOf_find? hx)).mp (h k x hx)
  · intro henc
    cases henc with | map object each =>
    exact ⟨object, fun k x hx => (ih x (sizeOf_find? hx)).mpr (each k x hx)⟩

/-- The schema of a type accepts the encodings of the type, and nothing else. -/
theorem valid_typeSchema (hV : V.Standard d doc) (hdoc : Carries doc d modules)
    (hkeys : KeysDistinct modules) (hfields : FieldsDerived modules) (hm : m ∈ modules)
    (value type : Json) :
    Valid V d (typeSchema (TypeScope.of m.name m.interface) d type) value ↔
      Encodes (LidlRecords.of m.interface) (.of type) value := by
  -- on the size of the value, for all types at once; under an optional it is the type that gets
  -- smaller
  induction hn : sizeOf value using Nat.strong_induction_on generalizing value type with
  | h n ih =>
      subst hn
      have ih (x : Json) (hx : sizeOf x < sizeOf value) (type : Json) := ih _ hx x type rfl
      fun_induction typeSchema (TypeScope.of m.name m.interface) d type with
      | case1 type h kind hkind =>
          rw [of_primitive (beq_iff_eq.mp hkind)]
          exact valid_primitiveSchema hV hdoc hkeys _
      | case2 type h kind n _ hkind hfew =>
          rw [of_array (beq_iff_eq.mp hkind), if_pos hfew]
          exact ⟨fun _ => .unknown value, fun _ => valid_unknownType hV _⟩
      | case3 type h kind n _ hkind henough _ =>
          rw [of_array (beq_iff_eq.mp hkind), if_neg henough,
            valid_arraySchema (isObject_typeSchema _ _ _)]
          constructor
          · rintro ⟨xs, rfl, hxs⟩
            exact .array fun x hx => (ih x (sizeOf_slot hx) _).mp (hxs x hx)
          · intro henc
            cases henc with | array each =>
            exact ⟨_, rfl, fun x hx => (ih x (sizeOf_slot hx) _).mpr (each x hx)⟩
      | case4 type h kind n _ _ hkind hfew =>
          rw [of_map (beq_iff_eq.mp hkind), if_pos hfew]
          exact ⟨fun _ => .unknown value, fun _ => valid_unknownType hV _⟩
      -- a map with string keys
      | case5 type h kind n _ _ hkind henough =>
          rw [of_map (beq_iff_eq.mp hkind), if_neg henough]
          exact valid_map none hV rfl (find?_mapMembers _) fun x hx => ih x hx _
      -- any other key is noted beside the schema, which does not ask for it
      | case6 type h kind n _ _ hkind henough =>
          rw [of_map (beq_iff_eq.mp hkind), if_neg henough]
          refine valid_map (some (typeSpelling (elementAt type 0))) hV rfl (fun k => ?_)
            fun x hx => ih x hx _
          rw [Json.find?_set rfl, find?_mapMembers]
          exact (List.lookup_cons_if ..).symm
      -- an optional that holds nothing but optionals
      | case7 type h kind _ _ _ hkind hstuck =>
          have hall : Encodes (LidlRecords.of m.interface) (.of (stripOptional type)) value :=
            encodes_of_stripOptional hstuck
          rw [encodes_stripOptional hkind]
          exact ⟨fun _ => Or.inr hall, fun _ => valid_unknownType hV _⟩
      | case8 type h kind _ _ _ hkind _ ihinner =>
          refine valid_nullable.trans ?_
          rw [encodes_stripOptional hkind]
          exact or_congr_right ihinner
      | case9 type h kind _ _ _ _ hkind name hname =>
          rw [of_named (beq_iff_eq.mp hkind)]
          exact valid_record hV hdoc hkeys hfields hm (List.contains_iff_mem.mp hname) ih
      -- a name that the contract does not declare
      | case10 type h kind _ _ _ _ hkind name hname =>
          have hnone := records_of_not_mem (mt List.contains_iff_mem.mpr hname)
          rw [of_named (beq_iff_eq.mp hkind)]
          exact ⟨fun _ => .undeclared value hnone, fun _ => valid_unknownType hV _⟩
      | case11 type h kind hprimitive harray hmap hoptional hnamed =>
          rw [beq_iff_eq] at hprimitive harray hmap hnamed
          have hunknown : LidlType.of type = .unknown := by
            rw [of_kind h, if_neg hprimitive, if_neg harray, if_neg hmap, if_neg hoptional,
              if_neg hnamed]
          rw [hunknown]
          exact ⟨fun _ => .unknown value, fun _ => valid_unknownType hV _⟩
      | case12 type h =>
          rw [LidlType.of, dif_neg h]
          exact ⟨fun _ => .unknown value, fun _ => valid_unknownType hV _⟩

/-- **Type schemas mean the type.** A value is valid for the schema of a type, references followed
into a document that carries the components, exactly when it encodes the type; so both dialects,
whatever the documents, give the same verdict. -/
theorem typeSchema_means (hV : V.Standard d doc) (hdoc : Carries doc d modules)
    (hkeys : KeysDistinct modules) (hfields : FieldsDerived modules) (hm : m ∈ modules)
    (type value : Json) :
    (Valid V d (typeSchema (TypeScope.of m.name m.interface) d type) value ↔
      Encodes (LidlRecords.of m.interface) (.of type) value) ∧
    (∀ (V' : Vocabulary) (d' : Dialect) (doc' : Json), V'.Standard d' doc' →
      Carries doc' d' modules →
      (Valid V d (typeSchema (TypeScope.of m.name m.interface) d type) value ↔
        Valid V' d' (typeSchema (TypeScope.of m.name m.interface) d' type) value)) ∧
    (∀ t, Encodes (LidlRecords.of m.interface) (.optional (.optional t)) value ↔
      Encodes (LidlRecords.of m.interface) (.optional t) value) ∧
    (Encodes (LidlRecords.of m.interface) (.optional .any) value ↔
      Encodes (LidlRecords.of m.interface) .any value) := by
  have hmeans := valid_typeSchema hV hdoc hkeys hfields hm value type
  refine ⟨hmeans, fun V' d' doc' hV' hdoc' => ?_, fun t => encodes_optional_optional,
    encodes_optional_any⟩
  exact hmeans.trans (valid_typeSchema hV' hdoc' hkeys hfields hm value type).symm

end Adequacy

/-! ## A recursive record

A record whose field refers to the record itself, optionally: the shape for which no induction on
the schema would end. -/

def treeType : Json := Json.object [(str "kind", text "named"), (str "name", text "Tree")]

def treeValueField : Json :=
  let type := Json.object [(str "kind", text "primitive"), (str "name", text "int")]
  Json.object [(str "name", text "value"), (str "type", type), (str "valueType", type),
    (str "optional", .bool false), (str "isOptional", .bool false)]

def treeLeftField : Json :=
  Json.object [(str "name", text "left"), (str "type", Json.object [(str "kind", text "optional"),
      (str "elements", .arr [treeType])]), (str "valueType", treeType),
    (str "optional", .bool false), (str "isOptional", .bool true)]

/-- `Tree {value: int, left: ?Tree}` -/
def treeModule : ModuleDoc where
  name := str "forest"
  status := str "ok"
  interface := Json.object [(str "types", .arr [Json.object [(str "name", text "Tree"),
    (str "fields", .arr [treeValueField, treeLeftField])]])]

def treeContext : DocContext where
  bridgeVersion := str "1.0.0"
  modules := [treeModule]

def treeFields : List LidlField :=
  [⟨str "value", .int, false⟩, ⟨str "left", .optional (.named (str "Tree")), false⟩]

theorem of_treeType : LidlType.of treeType = .named (str "Tree") := of_named rfl

theorem records_tree : LidlRecords.of treeModule.interface (str "Tree") = some treeFields := by
  have hvalue : LidlField.of treeValueField = ⟨str "value", .int, false⟩ := by
    show LidlField.mk (str "value") (LidlType.of (Json.object _)) false = _
    rw [of_primitive rfl]
    rfl
  have hleft : LidlField.of treeLeftField =
      ⟨str "left", .optional (.named (str "Tree")), false⟩ := by
    show LidlField.mk (str "left") (LidlType.of (Json.object _)) false = _
    rw [of_optional rfl]
    show LidlField.mk _ (.optional (LidlType.of treeType)) _ = _
    rw [of_treeType]
  show some [LidlField.of treeValueField, LidlField.of treeLeftField] = _
  rw [hvalue, hleft]
  rfl

theorem derived_tree : ∀ f ∈ [treeValueField, treeLeftField], Derived f := by
  simp only [List.forall_mem_cons, List.not_mem_nil, false_imp_iff, implies_true, and_true]
  refine ⟨⟨_, rfl, ?_, rfl⟩, ⟨_, rfl, ?_, rfl⟩⟩
  · rw [stripOptional_of_ne (by decide)]
    rfl
  · have hinner : stripOptional treeType = treeType := stripOptional_of_ne (by decide)
    rw [stripOptional, dif_pos (by decide)]
    exact congrArg some hinner.symm

theorem encodes_tree {n left : Json} (hn : Encodes (LidlRecords.of treeModule.interface) .int n)
    (hleft : left = .null ∨
      Encodes (LidlRecords.of treeModule.interface) (.named (str "Tree")) left) :
    Encodes (LidlRecords.of treeModule.interface) (.named (str "Tree"))
      (Json.object [(str "value", n), (str "left", left)]) := by
  have hfield {k : Bytes} {f : LidlField} (h : fieldOf treeFields k = some f) :
      (k = str "value" ∧ f = ⟨str "value", .int, false⟩) ∨
        (k = str "left" ∧ f = ⟨str "left", .optional (.named (str "Tree")), false⟩) := by
    have hname : f.name = k := by simpa using List.find?_some h
    rcases List.mem_pair.mp (List.mem_of_find?_eq_some h) with rfl | rfl
    · exact Or.inl ⟨hname.symm, rfl⟩
    · exact Or.inr ⟨hname.symm, rfl⟩
  refine .record records_tree rfl (fun k f h hrequired => ?_) fun k f x h hx => ?_
  · rcases hfield h with ⟨rfl, rfl⟩ | ⟨rfl, rfl⟩
    · rfl
    · cases hrequired
  · rcases hfield h with ⟨rfl, rfl⟩ | ⟨rfl, rfl⟩
    · obtain rfl : n = x := Option.some.inj hx
      exact hn
    · obtain rfl : left = x := Option.some.inj hx
      exact .present (encodes_optional.mpr hleft)

/-- A tree with one branch is described, by a document that refers to its record from inside it. -/
theorem typeSchema_means_tree :
    Valid (standard .draft07 (buildOpenRpc treeContext)) .draft07
      (typeSchema (TypeScope.of treeModule.name treeModule.interface) .draft07 treeType)
      (Json.object [(str "value", .uint 1),
        (str "left", Json.object [(str "value", .int (-2)), (str "left", .null)])]) := by
  have hcarries : Carries (buildOpenRpc treeContext) .draft07 [treeModule] :=
    carries_buildOpenRpc treeContext
  have hkeys : KeysDistinct [treeModule] := by
    show [recordComponentName (str "forest") (str "Tree")].Nodup
    exact List.nodup_singleton _
  have hfields : FieldsDerived [treeModule] := by
    intro m hm t ht f hf
    obtain rfl := List.mem_singleton.mp hm
    obtain rfl := List.mem_singleton.mp ht
    exact derived_tree f hf
  refine (typeSchema_means (standard_standard _ _) hcarries hkeys hfields
    (List.mem_singleton_self _) _ _).1.mpr ?_
  rw [of_treeType]
  have hone : (Json.uint 1).number? = some ((1 : ℤ) : ℚ) := by simp [Json.number?]
  have htwo : (Json.int (-2)).number? = some ((-2 : ℤ) : ℚ) := rfl
  have hleaf := encodes_tree (.int htwo (by decide) (by decide)) (Or.inl rfl)
  exact encodes_tree (.int hone (by decide) (by decide)) (Or.inr hleaf)

end JsonRpcBridge.Docs
