import JsonRpcBridge.Docs.Schema
import Mathlib.Data.List.Forall2

/-!
# Validity

What a JSON Schema accepts. `Obeys` is what one keyword asks of a value, in terms of what the
schemas under it accept, and `Valid` closes the recursion: a value is valid when it obeys every
keyword.

The keywords that put arrays and objects together are given here, in the two dialects of the
documents. Every other one (`$ref`, `const`, `minimum`, a vendor key, …) is left to a `Vocabulary`,
so what is proved holds for every reading of them.

* `valid_iff`: an object schema, keyword by keyword.
* `valid_tupleSchema`: a tuple accepts the arrays of its length, slot by slot.
-/

namespace JsonRpcBridge.Docs

/-- What a keyword that is not treated here says about a value. -/
structure Vocabulary where
  holds : (schema : Json) → (keyword : Bytes) → (value : Json) → Prop

/-- The schemas of an array of them. -/
def schemasOf : Json → List Json
  | .arr ss => ss
  | _ => []

/-- The elements of an array; other values have none. -/
def slotsOf : Json → List Json
  | .arr xs => xs
  | _ => []

/-- `type`, with one name. Whether a float is an integer is for the vocabulary. -/
def HasType (V : Vocabulary) (schema : Json) (name : Bytes) (value : Json) : Prop :=
  if name = str "null" then value.isNull = true
  else if name = str "array" then value.isArray = true
  else if name = str "object" then value.isObject = true
  else if name = str "string" then value.isString = true
  else if name = str "number" then value.isNumber = true
  else if name = str "boolean" then ∃ b, value = .bool b
  else if name = str "integer" then
    match value with
    | .int _ | .uint _ => True
    | .float _ => V.holds schema (str "type") value
    | _ => False
  else V.holds schema (str "type") value

/-- The slots are valid for the schemas of their places; what is beyond either list is not
constrained. -/
def InPlace (accepts : Json → Json → Prop) (ss xs : List Json) : Prop :=
  ∀ (i : Nat) (s x : Json), ss[i]? = some s → xs[i]? = some x → accepts s x

/-- `minItems` and `maxItems` of an integer. -/
def countOf : Json → Option Int
  | .int n => some n
  | .uint n => some n
  | _ => none

/-- The keywords that are treated here. -/
inductive Keyword where
  | type
  | anyOf
  | properties
  | required
  | additionalProperties
  /-- The schemas of an array slot by slot: `items`, or `prefixItems`. -/
  | places
  /-- What is beyond those: `additionalItems`, or `items`. -/
  | beyond
  | minItems
  | maxItems
  | other
  deriving DecidableEq

/-- The keyword for the slots of a tuple. -/
def placesKey : Dialect → Bytes
  | .draft07 => str "items"
  | .draft2020_12 => str "prefixItems"

/-- The keyword for what comes after them. -/
def beyondKey : Dialect → Bytes
  | .draft07 => str "additionalItems"
  | .draft2020_12 => str "items"

def Keyword.of (d : Dialect) (k : Bytes) : Keyword :=
  if k = str "type" then .type
  else if k = str "anyOf" then .anyOf
  else if k = str "properties" then .properties
  else if k = str "required" then .required
  else if k = str "additionalProperties" then .additionalProperties
  else if k = str "minItems" then .minItems
  else if k = str "maxItems" then .maxItems
  else if k = placesKey d then .places
  else if k = beyondKey d then .beyond
  else .other

variable (V : Vocabulary) (d : Dialect)

/-- What the keyword `k` of `schema`, with its `argument`, asks of a value. Without positional
schemas, `items` of 2020-12 is about every slot and `additionalItems` of draft 07 about none;
`additionalProperties` beside `patternProperties` is left to the vocabulary. -/
def Obeys (accepts : Json → Json → Prop) (schema : Json) (k : Bytes) (argument value : Json) :
    Prop :=
  match Keyword.of d k with
  | .type =>
    match argument with
    | .str name => HasType V schema name value
    | _ => V.holds schema k value
  | .anyOf => ∃ s ∈ schemasOf argument, accepts s value
  | .properties =>
    ∀ name s x, argument.find? name = some s → value.find? name = some x → accepts s x
  | .required =>
    value.isObject = true → ∀ name, .str name ∈ schemasOf argument → value.contains name = true
  | .additionalProperties =>
    if schema.contains (str "patternProperties") then V.holds schema k value
    else
      ∀ name x, value.find? name = some x →
        ((schema.find? (str "properties")).bind (Json.find? name)).isSome = false →
        accepts argument x
  | .places =>
    match argument with
    | .arr ss => InPlace accepts ss (slotsOf value)
    | s => ∀ x ∈ slotsOf value, accepts s x
  | .beyond =>
    match arrayField schema (placesKey d) with
    | some ss => ∀ x ∈ (slotsOf value).drop ss.length, accepts argument x
    | none => d = .draft2020_12 → ∀ x ∈ slotsOf value, accepts argument x
  | .minItems =>
    match countOf argument with
    | some n => value.isArray = true → n ≤ (slotsOf value).length
    | none => V.holds schema k value
  | .maxItems =>
    match countOf argument with
    | some n => value.isArray = true → ((slotsOf value).length : Int) ≤ n
    | none => V.holds schema k value
  | .other => V.holds schema k value

/-- The schema accepts the value. A reference of draft 07 hides the keywords beside it. -/
def Valid (schema value : Json) : Prop :=
  match schema with
  | .bool b => b = true
  | .obj ms =>
    if d = .draft07 ∧ (Json.obj ms).contains (str "$ref") = true then
      V.holds (.obj ms) (str "$ref") value
    else
      ∀ k argument, (Json.obj ms).find? k = some argument →
        Obeys V d (fun s x => ∃ _ : sizeOf s < sizeOf (Json.obj ms), Valid s x) (.obj ms) k
          argument value
  | _ => False
termination_by sizeOf schema
decreasing_by
  rename_i hlt
  simpa only [Json.obj.sizeOf_spec] using hlt

/-! ## Keyword by keyword

`Valid` is defined by recursion on the schema, with a bound. The lemmas here do away with the
bound: a schema is valid when every keyword it has is obeyed, where "obeyed" speaks of `Valid`
again. -/

section Keywords

variable {V : Vocabulary} {d : Dialect}

/-- The schemas under a keyword are smaller. -/
theorem sizeOf_schemasOf {a s : Json} (h : s ∈ schemasOf a) : sizeOf s < sizeOf a := by
  cases a with
  | arr ss =>
      have hlt := List.sizeOf_lt_of_mem (show s ∈ ss from h)
      simp only [Json.arr.sizeOf_spec]
      omega
  | _ => cases h

/-- A keyword asks only what the schemas under it accept. -/
theorem obeys_congr {accepts accepts' : Json → Json → Prop} {schema argument : Json}
    (k : Bytes) (value : Json)
    (h : ∀ s x, sizeOf s ≤ sizeOf argument → (accepts s x ↔ accepts' s x)) :
    Obeys V d accepts schema k argument value ↔ Obeys V d accepts' schema k argument value := by
  have hmem {s x : Json} (hs : s ∈ schemasOf argument) : accepts s x ↔ accepts' s x :=
    h s x (Nat.le_of_lt (sizeOf_schemasOf hs))
  have hplace {ss xs : List Json} (hss : ∀ s ∈ ss, s ∈ schemasOf argument) :
      InPlace accepts ss xs ↔ InPlace accepts' ss xs := by
    constructor
    · exact fun hp i s x hs hx =>
        (hmem (hss s (List.mem_of_getElem? hs))).mp (hp i s x hs hx)
    · exact fun hp i s x hs hx =>
        (hmem (hss s (List.mem_of_getElem? hs))).mpr (hp i s x hs hx)
  have hself (x : Json) : accepts argument x ↔ accepts' argument x := h argument x (Nat.le_refl _)
  unfold Obeys
  cases Keyword.of d k with
  | anyOf =>
      exact ⟨fun ⟨s, hs, hx⟩ => ⟨s, hs, (hmem hs).mp hx⟩,
        fun ⟨s, hs, hx⟩ => ⟨s, hs, (hmem hs).mpr hx⟩⟩
  | properties =>
      constructor
      · exact fun hp name s x hs hx =>
          (h s x (Nat.le_of_lt (sizeOf_find? hs))).mp (hp name s x hs hx)
      · exact fun hp name s x hs hx =>
          (h s x (Nat.le_of_lt (sizeOf_find? hs))).mpr (hp name s x hs hx)
  | places =>
      cases argument with
      | arr ss => exact hplace fun s hs => hs
      | _ => simp only [hself]
  | additionalProperties | beyond => simp only [hself]
  | type | required | minItems | maxItems | other => rfl

/-- An object schema without a reference accepts what obeys each of its keywords. -/
theorem valid_iff {schema value : Json} (hobj : schema.isObject = true)
    (href : schema.find? (str "$ref") = none) :
    Valid V d schema value ↔ ∀ k argument, schema.find? k = some argument →
      Obeys V d (Valid V d) schema k argument value := by
  obtain ⟨ms, rfl⟩ := Json.eq_obj_of_isObject hobj
  rw [Valid, if_neg (by simp [Json.contains, href])]
  refine forall_congr' fun k => forall_congr' fun argument => forall_congr' fun hfind => ?_
  refine obeys_congr k value fun s x hs => ?_
  have hlt := sizeOf_find? hfind
  exact ⟨fun ⟨_, hx⟩ => hx, fun hx => ⟨by omega, hx⟩⟩

/-- The same for a schema whose keywords are listed. -/
theorem valid_iff_of_members {schema value : Json} {members : List (Bytes × Json)}
    (hobj : schema.isObject = true) (hkeys : (members.map Prod.fst).Nodup)
    (href : members.lookup (str "$ref") = none)
    (hfind : ∀ k, schema.find? k = members.lookup k) :
    Valid V d schema value ↔
      ∀ kv ∈ members, Obeys V d (Valid V d) schema kv.1 kv.2 value := by
  rw [valid_iff hobj ((hfind _).trans href)]
  constructor
  · intro h kv hkv
    exact h kv.1 kv.2 ((hfind _).trans (List.lookup_of_mem hkeys hkv))
  · intro h k argument hk
    exact h (k, argument) (List.mem_of_lookup ((hfind k).symm.trans hk))

theorem valid_bool (b : Bool) (value : Json) : Valid V d (.bool b) value ↔ b = true := by
  rw [Valid]

/-- `{}` accepts everything. -/
theorem valid_empty (value : Json) : Valid V d (.obj []) value :=
  (valid_iff rfl rfl).mpr nofun

section Keyword

variable {accepts : Json → Json → Prop} {schema argument value : Json}

/-! ### One lemma for each keyword -/

theorem of_placesKey (d : Dialect) : Keyword.of d (placesKey d) = .places := by cases d <;> decide

theorem of_beyondKey (d : Dialect) : Keyword.of d (beyondKey d) = .beyond := by cases d <;> decide

theorem obeys_type {name : Bytes} :
    Obeys V d accepts schema (str "type") (.str name) value ↔ HasType V schema name value := by
  rfl

theorem obeys_anyOf {ss : List Json} :
    Obeys V d accepts schema (str "anyOf") (.arr ss) value ↔ ∃ s ∈ ss, accepts s value := by
  rfl

/-- A property has to be valid if it is there. -/
theorem obeys_properties :
    Obeys V d accepts schema (str "properties") argument value ↔
      ∀ name s x, argument.find? name = some s → value.find? name = some x → accepts s x := by
  rfl

/-- A name that is required has to be there, if the value is an object at all. -/
theorem obeys_required {names : List Json} :
    Obeys V d accepts schema (str "required") (.arr names) value ↔
      (value.isObject = true → ∀ name, .str name ∈ names → value.contains name = true) := by
  rfl

/-- `additionalProperties: false`: every member is among the properties. -/
theorem obeys_additionalProperties (h : schema.contains (str "patternProperties") = false) :
    Obeys V d (Valid V d) schema (str "additionalProperties") (.bool false) value ↔
      ∀ name x, value.find? name = some x →
        ((schema.find? (str "properties")).bind (Json.find? name)).isSome = true := by
  show (if schema.contains (str "patternProperties") then _ else _) ↔ _
  rw [h, if_neg Bool.false_ne_true]
  refine forall_congr' fun name => forall_congr' fun x => imp_congr_right fun _ => ?_
  rw [valid_bool]
  cases (schema.find? (str "properties")).bind (Json.find? name) <;> simp

theorem obeys_places {ss : List Json} :
    Obeys V d accepts schema (placesKey d) (.arr ss) value ↔
      InPlace accepts ss (slotsOf value) := by
  rw [Obeys, of_placesKey]

/-- `false` beyond the last place: there are no more slots than places. -/
theorem obeys_beyond {ss : List Json} (h : schema.find? (placesKey d) = some (.arr ss)) :
    Obeys V d (Valid V d) schema (beyondKey d) (.bool false) value ↔
      (slotsOf value).length ≤ ss.length := by
  unfold Obeys
  simp only [of_beyondKey, arrayField, h, valid_bool, Bool.false_eq_true, imp_false]
  rw [← List.eq_nil_iff_forall_not_mem, List.drop_eq_nil_iff]

theorem obeys_minItems {n : Nat} :
    Obeys V d accepts schema (str "minItems") (.uint n) value ↔
      (value.isArray = true → n ≤ (slotsOf value).length) := by
  show (value.isArray = true → (n : Int) ≤ (slotsOf value).length) ↔ _
  rw [Int.ofNat_le]

theorem obeys_maxItems {n : Nat} :
    Obeys V d accepts schema (str "maxItems") (.uint n) value ↔
      (value.isArray = true → (slotsOf value).length ≤ n) := by
  show (value.isArray = true → ((slotsOf value).length : Int) ≤ n) ↔ _
  rw [Int.ofNat_le]

/-- `type: array`. -/
theorem hasType_array : HasType V schema (str "array") value ↔ ∃ xs, value = .arr xs := by
  unfold HasType
  rw [if_neg (by decide), if_pos rfl]
  cases value <;> simp [Json.isArray]

/-- `type: object`. -/
theorem hasType_object : HasType V schema (str "object") value ↔ value.isObject = true := by
  unfold HasType
  rw [if_neg (by decide), if_neg (by decide), if_pos rfl]

end Keyword

/-! ## Null

Whether null is accepted is what an optional slot is about. -/

/-- A literal with one member. -/
theorem find?_single (k k' : Bytes) (v : Json) :
    (Json.object [(k, v)]).find? k' = [(k, v)].lookup k' := by
  rfl

/-- `{"type": "null"}` accepts null. -/
theorem valid_null : Valid V d (Json.object [(str "type", text "null")]) .null := by
  refine (valid_iff_of_members rfl (by simp) (by decide) fun k => find?_single _ k _).mpr ?_
  simp only [List.forall_mem_singleton]
  exact obeys_type.mpr rfl

/-- An optional slot accepts null. -/
theorem valid_nullable_null (schema : Json) : Valid V d (nullable schema) .null := by
  unfold nullable
  split_ifs with hempty
  · obtain ⟨hobj, hsize⟩ := Bool.and_eq_true_iff.mp hempty
    obtain ⟨ms, rfl⟩ := Json.eq_obj_of_isObject hobj
    obtain rfl : ms = [] := List.eq_nil_of_length_eq_zero (beq_iff_eq.mp hsize)
    exact valid_empty _
  · refine (valid_iff_of_members rfl (by simp) (by rfl) fun k => find?_single _ k _).mpr ?_
    simp only [List.forall_mem_singleton]
    exact obeys_anyOf.mpr ⟨_, List.mem_cons_of_mem _ (List.mem_singleton_self _), valid_null⟩

/-! ## Tuples

The two dialects spell a tuple differently and mean the same: each slot has its schema, and the
length is fixed from both sides. Three keywords say so between them, which is why the proof goes
by the length of the value. -/

/-- The keywords of a tuple. -/
def tupleMembers (items : List Json) (d : Dialect) : List (Bytes × Json) :=
  [(str "maxItems", .uint items.length), (str "minItems", .uint items.length),
    (beyondKey d, .bool false), (placesKey d, .arr items), (str "type", text "array")]

/-- The members of a tuple with slots. -/
theorem find?_tupleSchema {items : List Json} (h : items ≠ []) (d : Dialect) (k : Bytes) :
    (tupleSchema items d).find? k = (tupleMembers items d).lookup k := by
  have hset : tupleSchema items d = ((((Json.object [(str "type", text "array")]).set (placesKey d)
      (.arr items)).set (beyondKey d) (.bool false)).set (str "minItems")
      (.uint items.length)).set (str "maxItems") (.uint items.length) := by
    unfold tupleSchema
    rw [if_neg (by simpa using h)]
    cases d <;> rfl
  rw [hset, Json.find?_set rfl, Json.find?_set rfl, Json.find?_set rfl, Json.find?_set rfl,
    find?_single]
  simp only [tupleMembers, List.lookup_cons_if]

/-- Slots in place, of the same number, are slots one by one. -/
theorem inPlace_iff_forall₂ {accepts : Json → Json → Prop} {ss xs : List Json}
    (h : xs.length = ss.length) : InPlace accepts ss xs ↔ List.Forall₂ accepts ss xs := by
  rw [List.forall₂_iff_get]
  constructor
  · intro hp
    refine ⟨h.symm, fun i hi hj => hp i _ _ ?_ ?_⟩
    · exact List.getElem?_eq_getElem hi
    · exact List.getElem?_eq_getElem hj
  · rintro ⟨-, hp⟩ i s x hs hx
    obtain ⟨hi, rfl⟩ := List.getElem?_eq_some_iff.mp hs
    obtain ⟨hj, rfl⟩ := List.getElem?_eq_some_iff.mp hx
    exact hp i hi hj

/-- **A tuple** accepts the arrays of its length whose slots are valid, in either dialect. -/
theorem valid_tupleSchema (items : List Json) (value : Json) :
    Valid V d (tupleSchema items d) value ↔
      ∃ xs, value = .arr xs ∧ List.Forall₂ (Valid V d) items xs := by
  by_cases hitems : items = []
  -- the empty tuple has no places; it is an array of at most no items
  · subst hitems
    have hfind (k : Bytes) : (tupleSchema [] d).find? k =
        [(str "maxItems", .int 0), (str "type", text "array")].lookup k := by
      show ((Json.object [(str "type", text "array")]).set (str "maxItems") (.int 0)).find? k = _
      rw [Json.find?_set rfl, find?_single]
      simp only [List.lookup_cons_if]
    rw [valid_iff_of_members rfl (by decide) (by rfl) hfind]
    rw [List.forall_mem_cons, List.forall_mem_singleton]
    have htype : Obeys V d (Valid V d) (tupleSchema [] d) (str "type") (text "array") value ↔
        ∃ xs, value = .arr xs := obeys_type.trans hasType_array
    refine (and_congr_right' htype).trans ?_
    constructor
    · rintro ⟨hnone, xs, rfl⟩
      have hlen : ((xs.length : Nat) : Int) ≤ 0 := hnone rfl
      obtain rfl : xs = [] := List.eq_nil_of_length_eq_zero (by omega)
      exact ⟨[], rfl, .nil⟩
    · rintro ⟨xs, rfl, hxs⟩
      cases hxs
      exact ⟨fun _ => Int.le_refl 0, [], rfl⟩
  · have hkeys : ((tupleMembers items d).map Prod.fst).Nodup := by
      have hnames : ((tupleMembers [] d).map Prod.fst).Nodup := by cases d <;> decide
      exact hnames
    have hobj : (tupleSchema items d).isObject = true := by
      unfold tupleSchema
      rw [if_neg (by simpa using hitems)]
      cases d <;> rfl
    -- the dialects name the places differently, and agree on what they mean
    have hplaces : (tupleSchema items d).find? (placesKey d) = some (.arr items) := by
      rw [find?_tupleSchema hitems]
      cases d <;> rfl
    rw [valid_iff_of_members hobj hkeys (by cases d <;> rfl) (find?_tupleSchema hitems d)]
    rw [tupleMembers, List.forall_mem_cons, List.forall_mem_cons, List.forall_mem_cons,
      List.forall_mem_cons, List.forall_mem_singleton]
    dsimp only
    rw [obeys_maxItems, obeys_minItems, obeys_beyond hplaces, obeys_places, text, obeys_type,
      hasType_array]
    constructor
    · rintro ⟨hmax, hmin, -, hplace, xs, rfl⟩
      have hlen : xs.length = items.length := Nat.le_antisymm (hmax rfl) (hmin rfl)
      exact ⟨xs, rfl, (inPlace_iff_forall₂ hlen).mp hplace⟩
    · rintro ⟨xs, rfl, hxs⟩
      have hlen : xs.length = items.length := hxs.length_eq.symm
      exact ⟨fun _ => Nat.le_of_eq hlen, fun _ => Nat.le_of_eq hlen.symm, Nat.le_of_eq hlen,
        (inPlace_iff_forall₂ hlen).mpr hxs, xs, rfl⟩

end Keywords

end JsonRpcBridge.Docs
