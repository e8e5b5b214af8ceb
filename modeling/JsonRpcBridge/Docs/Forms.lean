import JsonRpcBridge.Docs.Encoding
import JsonRpcBridge.Docs.Params

/-!
# What the schema of each form accepts

One lemma for each form of schema that the types are made of, given what the schemas inside it do:
`valid_nullable`, `valid_schemaRef`, `valid_integerSchema`, `valid_arraySchema`, `valid_mapSchema`,
`valid_bytesSchema`, `valid_logosResultSchema`.

* `valid_recordSchema`: a record accepts the objects that have what is required, with valid fields.
-/

namespace JsonRpcBridge.Docs

/-! ## Keywords, references and null

A schema with distinct keywords is valid keyword by keyword. A reference stands alone, which both
dialects need: there, keywords beside `$ref` would be ignored in one of them. Descriptions and
titles ask for nothing. -/

section Forms

variable {V : Vocabulary} {d : Dialect} {doc schema value : Json} {records : LidlRecords}

/-- A literal schema, keyword by keyword. -/
theorem valid_object_iff {kvs : List (Bytes × Json)} (hkeys : (kvs.map Prod.fst).Nodup)
    (href : kvs.lookup (str "$ref") = none) :
    Valid V d (Json.object kvs) value ↔
      ∀ kv ∈ kvs, Obeys V d (Valid V d) (Json.object kvs) kv.1 kv.2 value :=
  valid_iff_of_members rfl hkeys href (Json.find?_object hkeys)

/-- A keyword that `Validity` leaves open. -/
theorem obeys_other {accepts : Json → Json → Prop} {argument : Json} {k : Bytes}
    (h : Keyword.of d k = .other) :
    Obeys V d accepts schema k argument value ↔ V.holds schema k value := by
  unfold Obeys
  simp only [h]

/-- A keyword that constrains nothing. -/
theorem obeys_note {accepts : Json → Json → Prop} {argument : Json} {k : Bytes}
    (hV : V.Standard d doc) (h : k ∈ annotations) :
    Obeys V d accepts schema k argument value := by
  have hother : ∀ k ∈ annotations, Keyword.of d k = .other := by cases d <;> decide
  exact (obeys_other (hother k h)).mpr (hV.note _ _ k h)

/-- The marker of an unknown type is no keyword, so everything is valid. -/
theorem valid_unknownType (hV : V.Standard d doc) (spelling : Bytes) :
    Valid V d (unknownType spelling) value := by
  refine (valid_object_iff (by simp) (by rfl)).mpr ?_
  rw [List.forall_mem_singleton]
  have hlisted : kUnknownTypeKey ∈ annotations := by decide
  exact obeys_note hV hlisted

/-- A nullable schema accepts null and what the schema accepts. -/
theorem valid_nullable :
    Valid V d (nullable schema) value ↔ value = .null ∨ Valid V d schema value := by
  constructor
  · intro h
    unfold nullable at h
    split_ifs at h with hempty
    · exact Or.inr h
    · rw [valid_object_iff (by simp) (by rfl), List.forall_mem_singleton] at h
      obtain ⟨s, hs, hvalid⟩ := obeys_anyOf.mp h
      rcases List.mem_pair.mp hs with rfl | rfl
      · exact Or.inr hvalid
      · left
        rw [valid_object_iff (by simp) (by rfl), List.forall_mem_singleton] at hvalid
        have hnull : value.isNull = true := obeys_type.mp hvalid
        cases value <;> first | rfl | cases hnull
  · rintro (rfl | h)
    · exact valid_nullable_null schema
    · unfold nullable
      split_ifs with hempty
      · exact h
      · refine (valid_object_iff (by simp) (by rfl)).mpr ?_
        rw [List.forall_mem_singleton]
        exact obeys_anyOf.mpr ⟨schema, List.mem_cons_self .., h⟩

/-- What has no keyword but `$ref` is judged by it, in either dialect. -/
theorem valid_iff_ref {ref : Json} (hobj : schema.isObject = true)
    (hfind : ∀ k, schema.find? k = [(str "$ref", ref)].lookup k) :
    Valid V d schema value ↔ V.holds schema (str "$ref") value := by
  obtain ⟨ms, rfl⟩ := Json.eq_obj_of_isObject hobj
  have hother : Keyword.of d (str "$ref") = .other := by cases d <;> decide
  rw [Valid]
  split_ifs
  · rfl
  · constructor
    · exact fun h => (obeys_other hother).mp (h (str "$ref") ref (hfind _))
    · intro h k argument hk
      have hmem : (k, argument) ∈ [(str "$ref", ref)] :=
        List.mem_of_lookup ((hfind k).symm.trans hk)
      obtain ⟨rfl, -⟩ := Prod.mk.inj (List.mem_singleton.mp hmem)
      exact (obeys_other hother).mpr h

/-- A reference accepts what its target in the document accepts. -/
theorem valid_schemaRef {target : Json} {name : Bytes} (hV : V.Standard d doc)
    (hresolve : doc.resolve (kSchemasPrefix ++ componentKey name) = some target) :
    Valid V d (schemaRef name) value ↔ Valid V d target value := by
  rw [schemaRef, valid_iff_ref rfl fun k => find?_single _ k _, hV.reference _ _ _ rfl, hresolve]
  simp

/-! ## Primitives

Strings, booleans and numbers are told apart by `type`. An integer is a number without a
fractional part, written as an integer or not; its bounds are those of the schema. -/

/-- `type` alone. -/
theorem valid_typeIs (name : String) :
    Valid V d (Json.object [(str "type", text name)]) value ↔
      HasType V (Json.object [(str "type", text name)]) (str name) value := by
  rw [valid_object_iff (by simp) (by rfl), List.forall_mem_singleton]
  exact obeys_type

/-- `type: integer` is about the value of the number, not about how it is written. -/
theorem hasType_integer (hV : V.Standard d doc)
    (h : schema.find? (str "type") = some (text "integer")) :
    HasType V schema (str "integer") value ↔ ∃ n : ℤ, value.number? = some (n : ℚ) := by
  unfold HasType
  rw [if_neg (by decide), if_neg (by decide), if_neg (by decide), if_neg (by decide),
    if_neg (by decide), if_neg (by decide), if_pos rfl]
  cases value with
  | int n => simp [Json.number?]
  | uint n => exact ⟨fun _ => ⟨n, by simp [Json.number?]⟩, fun _ => trivial⟩
  | float bits => exact hV.integer schema bits h
  | _ => simp [Json.number?]

/-- An integer between bounds. -/
theorem valid_integerSchema (hV : V.Standard d doc) {format lo hi : Json} {a b : ℤ}
    (hlo : lo.number? = some (a : ℚ)) (hhi : hi.number? = some (b : ℚ)) :
    Valid V d (Json.object [(str "type", text "integer"), (str "format", format),
      (str "minimum", lo), (str "maximum", hi)]) value ↔
      ∃ n : ℤ, value.number? = some (n : ℚ) ∧ a ≤ n ∧ n ≤ b := by
  have hkeys : ([(str "type", text "integer"), (str "format", format), (str "minimum", lo),
      (str "maximum", hi)].map Prod.fst).Nodup := by
    show [str "type", str "format", str "minimum", str "maximum"].Nodup
    decide
  have hfind := Json.find?_object hkeys
  have hmin : Keyword.of d (str "minimum") = .other := by cases d <;> decide
  have hmax : Keyword.of d (str "maximum") = .other := by cases d <;> decide
  have hformat : str "format" ∈ annotations := by decide
  rw [valid_object_iff hkeys (by rfl), List.forall_mem_cons, List.forall_mem_cons,
    List.forall_mem_cons, List.forall_mem_singleton]
  dsimp only
  rw [obeys_other hmin, obeys_other hmax, hV.minimum _ _ _ _ (hfind _) hlo,
    hV.maximum _ _ _ _ (hfind _) hhi]
  refine (and_congr_left' (obeys_type.trans (hasType_integer hV (hfind _)))).trans ?_
  constructor
  · rintro ⟨⟨n, hn⟩, -, hle, hge⟩
    exact ⟨n, hn, by exact_mod_cast hle n hn, by exact_mod_cast hge n hn⟩
  · rintro ⟨n, hn, hle, hge⟩
    refine ⟨⟨n, hn⟩, obeys_note hV hformat, ?_, ?_⟩
    · intro x hx
      obtain rfl : (n : ℚ) = x := Option.some.inj (hn.symm.trans hx)
      exact_mod_cast hle
    · intro x hx
      obtain rfl : (n : ℚ) = x := Option.some.inj (hn.symm.trans hx)
      exact_mod_cast hge

/-! ## Arrays and maps

An array has one schema for its items, a map one for all of its values. The type of a key is only
noted, since a key of an object is always a string. -/

/-- One schema for every slot of an array: `items` means that in both dialects, as long as it is
not a list of schemas. -/
theorem valid_arraySchema (hobj : schema.isObject = true) :
    Valid V d (Json.object [(str "type", text "array"), (str "items", schema)]) value ↔
      ∃ xs, value = .arr xs ∧ ∀ x ∈ xs, Valid V d schema x := by
  obtain ⟨ms, rfl⟩ := Json.eq_obj_of_isObject hobj
  have hkeys : ([(str "type", text "array"), (str "items", Json.obj ms)].map Prod.fst).Nodup := by
    show [str "type", str "items"].Nodup
    decide
  have hitems : Obeys V d (Valid V d)
      (Json.object [(str "type", text "array"), (str "items", .obj ms)]) (str "items") (.obj ms)
      value ↔ ∀ x ∈ slotsOf value, Valid V d (.obj ms) x := by
    cases d with
    | draft07 => rfl
    | draft2020_12 => exact ⟨fun h => h rfl, fun h _ => h⟩
  rw [valid_object_iff hkeys (by rfl), List.forall_mem_cons, List.forall_mem_singleton]
  dsimp only
  rw [hitems]
  refine (and_congr_left' (obeys_type.trans hasType_array)).trans ?_
  constructor
  · rintro ⟨⟨xs, rfl⟩, h⟩
    exact ⟨xs, rfl, h⟩
  · rintro ⟨xs, rfl, h⟩
    exact ⟨⟨xs, rfl⟩, h⟩

/-- The keywords of a map: a key type that is not `tstr` is named beside them. -/
def mapMembers (values : Json) (key : Option Bytes) : List (Bytes × Json) :=
  (key.toList.map fun spelling => (kMapKeyTypeKey, .str spelling)) ++
    [(str "type", text "object"), (str "additionalProperties", values)]

/-- Without `properties`, `additionalProperties` is about every member. -/
theorem obeys_additional {accepts : Json → Json → Prop} {argument : Json}
    (hpattern : schema.find? (str "patternProperties") = none)
    (hproperties : schema.find? (str "properties") = none) :
    Obeys V d accepts schema (str "additionalProperties") argument value ↔
      ∀ k x, value.find? k = some x → accepts argument x := by
  show (if schema.contains (str "patternProperties") then _ else _) ↔ _
  rw [Json.contains, hpattern, hproperties, if_neg (by simp)]
  simp

/-- A map accepts the objects whose values its value schema accepts. -/
theorem valid_mapSchema {values : Json} {key : Option Bytes} (hV : V.Standard d doc)
    (hobj : schema.isObject = true)
    (hfind : ∀ k, schema.find? k = (mapMembers values key).lookup k) :
    Valid V d schema value ↔
      value.isObject = true ∧ ∀ k x, value.find? k = some x → Valid V d values x := by
  have hkeys : ((mapMembers values key).map Prod.fst).Nodup := by
    cases key with
    | none =>
        show [str "type", str "additionalProperties"].Nodup
        decide
    | some spelling =>
        show [kMapKeyTypeKey, str "type", str "additionalProperties"].Nodup
        decide
  obtain ⟨href, hpattern, hproperties⟩ :
      (mapMembers values key).lookup (str "$ref") = none ∧
        (mapMembers values key).lookup (str "patternProperties") = none ∧
        (mapMembers values key).lookup (str "properties") = none := by
    cases key <;> exact ⟨rfl, rfl, rfl⟩
  have hlisted : kMapKeyTypeKey ∈ annotations := by decide
  rw [valid_iff_of_members hobj hkeys href hfind, mapMembers, List.forall_mem_append,
    List.forall_mem_map, List.forall_mem_cons, List.forall_mem_singleton]
  dsimp only
  rw [obeys_additional ((hfind _).trans hpattern) ((hfind _).trans hproperties)]
  constructor
  · rintro ⟨-, htype, h⟩
    exact ⟨hasType_object.mp (obeys_type.mp htype), h⟩
  · rintro ⟨htype, h⟩
    exact ⟨fun _ _ => obeys_note hV hlisted, obeys_type.mpr (hasType_object.mpr htype), h⟩

/-! ## Shared components

The targets of three references. Each is a fixed schema, so its keywords are gone through by
hand. -/

theorem hasType_string : HasType V schema (str "string") value ↔ ∃ s, value = .str s := by
  unfold HasType
  rw [if_neg (by decide), if_neg (by decide), if_neg (by decide), if_pos rfl]
  cases value <;> simp [Json.isString]

theorem hasType_number : HasType V schema (str "number") value ↔ value.isNumber = true := by
  rfl

theorem hasType_boolean : HasType V schema (str "boolean") value ↔ ∃ b, value = .bool b := by
  rfl

/-- The text of a `_bytes` member. -/
theorem valid_base64Url (hV : V.Standard d doc) :
    Valid V d (Json.object [(str "type", text "string"),
      (str "pattern", text "^[A-Za-z0-9_-]*$")]) value ↔
      ∃ s, value = .str s ∧ s.all isBase64Url = true := by
  have hother : Keyword.of d (str "pattern") = .other := by cases d <;> decide
  rw [valid_object_iff (by decide) (by rfl), List.forall_mem_cons, List.forall_mem_singleton]
  dsimp only
  rw [obeys_other hother, hV.pattern _ _ rfl]
  refine (and_congr_left' (obeys_type.trans hasType_string)).trans ?_
  constructor
  · rintro ⟨⟨s, rfl⟩, h⟩
    exact ⟨s, rfl, h s rfl⟩
  · rintro ⟨s, rfl, h⟩
    exact ⟨⟨s, rfl⟩, fun s' hs => Json.str.inj hs ▸ h⟩

/-- `Bytes`: an object whose only member is the text. -/
theorem valid_bytesSchema (hV : V.Standard d doc) :
    Valid V d bytesSchema value ↔ Encodes records .bstr value := by
  have htitle : str "title" ∈ annotations := by decide
  have hdescription : str "description" ∈ annotations := by decide
  have hmember (k : Bytes) : ((bytesSchema.find? (str "properties")).bind (Json.find? k)).isSome =
      true ↔ k = str "_bytes" := by
    show (([(str "_bytes", _)] : List (Bytes × Json)).lookup k).isSome = true ↔ _
    rw [List.lookup_cons_if]
    split_ifs with hk <;> simp [hk]
  rw [bytesSchema, valid_object_iff (by decide) (by rfl), ← bytesSchema]
  simp only [List.forall_mem_cons]
  constructor
  · rintro ⟨-, -, htype, hproperties, hrequired, hadditional, -⟩
    have hobj : value.isObject = true := hasType_object.mp (obeys_type.mp htype)
    have hthere : value.contains (str "_bytes") = true :=
      obeys_required.mp hrequired hobj _ (List.mem_singleton_self _)
    obtain ⟨x, hx⟩ := exists_of_contains hthere
    obtain ⟨s, rfl, hs⟩ := (valid_base64Url hV).mp (obeys_properties.mp hproperties _ _ x rfl hx)
    refine .bstr hx (fun k hk => ?_) hs
    obtain ⟨y, hy⟩ := exists_of_contains hk
    exact (hmember k).mp ((obeys_additionalProperties rfl).mp hadditional k y hy)
  · intro h
    cases h with | bstr tag only alphabet =>
    refine ⟨obeys_note hV htitle, obeys_note hV hdescription,
      obeys_type.mpr (hasType_object.mpr (Json.isObject_of_find tag)),
      obeys_properties.mpr ?_, obeys_required.mpr ?_, (obeys_additionalProperties rfl).mpr ?_,
      nofun⟩
    · intro k t x ht hx
      obtain rfl : k = str "_bytes" := only k (Option.isSome_iff_exists.mpr ⟨x, hx⟩)
      obtain rfl := Option.some.inj (tag.symm.trans hx)
      cases ht
      exact (valid_base64Url hV).mpr ⟨_, rfl, alphabet⟩
    · intro _ k hk
      obtain rfl : k = str "_bytes" := Json.str.inj (List.mem_singleton.mp hk)
      exact Option.isSome_iff_exists.mpr ⟨_, tag⟩
    · intro k x hx
      exact (hmember k).mpr (only k (Option.isSome_iff_exists.mpr ⟨x, hx⟩))

/-- A schema that is only described. -/
theorem valid_described (hV : V.Standard d doc) (s : String) :
    Valid V d (Json.object [(str "description", text s)]) value := by
  have hdescription : str "description" ∈ annotations := by decide
  rw [valid_object_iff (by simp) (by rfl), List.forall_mem_singleton]
  exact obeys_note hV hdescription

/-- `LogosResult`: an object with `success`, and whatever else. -/
theorem valid_logosResultSchema (hV : V.Standard d doc) :
    Valid V d logosResultSchema value ↔ Encodes records .result value := by
  have htitle : str "title" ∈ annotations := by decide
  have hdescription : str "description" ∈ annotations := by decide
  rw [logosResultSchema, valid_object_iff (by decide) (by rfl), ← logosResultSchema]
  simp only [List.forall_mem_cons]
  constructor
  · rintro ⟨-, -, htype, hproperties, hrequired, -⟩
    have hobj : value.isObject = true := hasType_object.mp (obeys_type.mp htype)
    have hthere : value.contains (str "success") = true :=
      obeys_required.mp hrequired hobj _ (List.mem_singleton_self _)
    obtain ⟨x, hx⟩ := exists_of_contains hthere
    have hvalid := obeys_properties.mp hproperties (str "success") _ x rfl hx
    obtain ⟨b, rfl⟩ := hasType_boolean.mp ((valid_typeIs "boolean").mp hvalid)
    exact .result hx
  · intro h
    cases h with | result success =>
    refine ⟨obeys_note hV htitle, obeys_note hV hdescription,
      obeys_type.mpr (hasType_object.mpr (Json.isObject_of_find success)),
      obeys_properties.mpr ?_, obeys_required.mpr ?_, nofun⟩
    · intro k t x ht hx
      have hmem := List.mem_of_lookup ((Json.find?_object (by decide) k).symm.trans ht)
      simp only [List.mem_cons, Prod.mk.injEq, List.not_mem_nil, or_false] at hmem
      rcases hmem with ⟨rfl, rfl⟩ | ⟨rfl, rfl⟩ | ⟨rfl, rfl⟩
      · obtain rfl := Option.some.inj (success.symm.trans hx)
        exact (valid_typeIs "boolean").mpr (hasType_boolean.mpr ⟨_, rfl⟩)
      · exact valid_described hV _
      · exact valid_described hV _
    · intro _ k hk
      obtain rfl : k = str "success" := Json.str.inj (List.mem_singleton.mp hk)
      exact Option.isSome_iff_exists.mpr ⟨_, success⟩

/-! ## Records

A record is an open object: declared fields have to be valid, the required ones have to be there,
and other members are not looked at. -/

/-- The declared fields. -/
def fieldDecls (typeDecl : Json) : List Json := (arrayField typeDecl (str "fields")).getD []

/-- The keywords of a record. -/
def recordMembers (title properties : Json) (required : List Json) : List (Bytes × Json) :=
  (if required.isEmpty then [] else [(str "required", .arr required)]) ++
    [(str "type", text "object"), (str "title", title), (str "properties", properties)]

/-- The members of the schema of a record. `required` is among them only when something is. -/
theorem find?_recordSchema (scope : TypeScope) (typeDecl : Json) (k : Bytes) :
    (recordSchema typeDecl scope d).find? k =
      (recordMembers (.str (strField typeDecl (str "name")))
        ((fieldDecls typeDecl).foldl (addField scope d) (Json.object [], [])).1
        ((fieldDecls typeDecl).foldl (addField scope d) (Json.object [], [])).2).lookup k := by
  have hbase (title properties : Json) : (Json.object [(str "type", text "object"),
      (str "title", title), (str "properties", properties)]).find? k =
      [(str "type", text "object"), (str "title", title), (str "properties", properties)].lookup k :=
    Json.find?_object (by
      show [str "type", str "title", str "properties"].Nodup
      decide) k
  unfold recordSchema recordMembers
  rw [← fieldDecls]
  dsimp only
  split_ifs with hempty
  · exact hbase _ _
  · rw [Json.find?_set rfl, List.singleton_append, List.lookup_cons_if, hbase]

/-- **A record** accepts the objects that have what is required and hold in each field that is
present what its slot accepts. -/
theorem valid_recordSchema (hV : V.Standard d doc) (scope : TypeScope) (typeDecl : Json) :
    Valid V d (recordSchema typeDecl scope d) value ↔ value.isObject = true ∧
      (∀ k f, fieldNamed (fieldDecls typeDecl) k = some f → slotIsOptional f = false →
        value.contains k = true) ∧
      ∀ k f x, fieldNamed (fieldDecls typeDecl) k = some f → value.find? k = some x →
        Valid V d (slotSchema f scope d) x := by
  have hfind := find?_recordSchema (d := d) scope typeDecl
  have hslot (k : Bytes) : ((fieldDecls typeDecl).foldl (addField scope d)
      (Json.object [], [])).1.find? k =
      (fieldNamed (fieldDecls typeDecl) k).map fun f => slotSchema f scope d :=
    find?_addFields rfl k
  -- what the fold over the fields leaves: the schema of each name, and the names that are required
  have hneeded (k : Bytes) : .str k ∈ ((fieldDecls typeDecl).foldl (addField scope d)
      (Json.object [], [])).2 ↔
      ∃ f, fieldNamed (fieldDecls typeDecl) k = some f ∧ slotIsOptional f = false := by
    rw [mem_addFields rfl]
    simp [Json.find?, Json.object]
  generalize (fieldDecls typeDecl).foldl (addField scope d) (Json.object [], []) = acc at *
  obtain ⟨properties, required⟩ := acc
  have hobj : (recordSchema typeDecl scope d).isObject = true := Json.isObject_ite rfl rfl
  have hkeys : ((recordMembers (.str (strField typeDecl (str "name"))) properties
      required).map Prod.fst).Nodup := by
    unfold recordMembers
    split_ifs
    · show [str "type", str "title", str "properties"].Nodup
      decide
    · show [str "required", str "type", str "title", str "properties"].Nodup
      decide
  have href : (recordMembers (.str (strField typeDecl (str "name"))) properties required).lookup
      (str "$ref") = none := by
    unfold recordMembers
    split_ifs <;> rfl
  -- a record without required fields has no `required` at all
  have hrequired : (∀ kv ∈ if required.isEmpty then [] else [(str "required", Json.arr required)],
      Obeys V d (Valid V d) (recordSchema typeDecl scope d) kv.1 kv.2 value) ↔
      (value.isObject = true → ∀ k, .str k ∈ required → value.contains k = true) := by
    split_ifs with hempty
    · rw [List.isEmpty_iff.mp hempty]
      simp
    · rw [List.forall_mem_singleton]
      exact obeys_required
  have htitle : str "title" ∈ annotations := by decide
  -- member by member: what the schema says is then what the two folds have collected
  rw [valid_iff_of_members hobj hkeys href hfind, recordMembers, List.forall_mem_append,
    List.forall_mem_cons, List.forall_mem_cons, List.forall_mem_singleton]
  rw [hrequired]
  dsimp only
  rw [obeys_properties]
  constructor
  · rintro ⟨hthere, htype, -, hvalues⟩
    have hvalue : value.isObject = true := hasType_object.mp (obeys_type.mp htype)
    refine ⟨hvalue, fun k f hf hreq => ?_, fun k f x hf hx => ?_⟩
    · exact hthere hvalue k ((hneeded k).mpr ⟨f, hf, hreq⟩)
    · exact hvalues k _ x ((hslot k).trans (by rw [hf]; rfl)) hx
  · rintro ⟨hvalue, hthere, hvalues⟩
    refine ⟨fun _ k hk => ?_, obeys_type.mpr (hasType_object.mpr hvalue),
      obeys_note hV htitle, fun k s x hs hx => ?_⟩
    · obtain ⟨f, hf, hreq⟩ := (hneeded k).mp hk
      exact hthere k f hf hreq
    · rw [hslot k] at hs
      obtain ⟨f, hf, rfl⟩ := Option.map_eq_some_iff.mp hs
      exact hvalues k f x hf hx

end Forms

end JsonRpcBridge.Docs
