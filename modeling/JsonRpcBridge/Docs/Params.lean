import JsonRpcBridge.Discovery.Model
import JsonRpcBridge.Docs.Validity

/-!
# Calls by name

The dispatcher turns named arguments into positions (`typedPositional`, over the reader's
`ContractMethod`); the documents describe them (`paramsObject` and `paramsTuple`, over the AST).
`Lists` is what the reader promises: both are the same declaration.

* `find?_addFields`, `mem_addFields`: the properties and the required names of a list of fields.
* `valid_paramsObject`: the described object is one whose names the dispatcher takes, with valid
  values.
* `by_name_agrees`: what the documents describe is accepted, and becomes a described array.

The dispatcher and the documents never meet in the code. One works on the declaration as the reader
of contracts gave it, the other on the AST that the reader printed. `Lists` ties the two, and
everything below is a consequence.
-/

namespace JsonRpcBridge.Docs

/-! ## Two lists of parameters

The reader lists the parameters for the dispatcher and prints them for the documents. `Lists`
says that both are of one method. -/

/-- The parameter that a declaration lists. -/
def paramOf (p : Json) : ContractParam where
  name := strField p (str "name")
  optional := slotIsOptional p

/-- A contract method and an AST declaration list the same parameters, each name once. -/
structure Lists (m : ContractMethod) (decl : Json) : Prop where
  params : m.params = (paramsOf decl).map paramOf
  distinct : ((paramsOf decl).map fun p => strField p (str "name")).Nodup

/-! ## The properties of a list of fields

The fold over the fields sets a property for each name it has not had before, and collects the
names of those that are required. So a name has the schema of its first field, and is required if
that field is. -/

section Fields

variable {scope : TypeScope} {d : Dialect} {fs : List Json} {acc : Json × List Json}

/-- The field that has a name. -/
def fieldNamed (fs : List Json) (name : Bytes) : Option Json :=
  fs.find? fun f => strField f (str "name") == name

/-- A field whose name is taken is skipped. -/
theorem addField_taken {f : Json} (h : acc.1.contains (strField f (str "name")) = true) :
    addField scope d acc f = acc := by
  unfold addField
  simp only [h, if_true]

/-- A new name gets its schema. -/
theorem addField_new {f : Json} (h : acc.1.contains (strField f (str "name")) = false) :
    addField scope d acc f = (acc.1.set (strField f (str "name")) (slotSchema f scope d),
      if slotIsOptional f then acc.2 else acc.2 ++ [.str (strField f (str "name"))]) := by
  unfold addField
  simp only [h, Bool.false_eq_true, if_false]

theorem isObject_addField (h : acc.1.isObject = true) (f : Json) :
    (addField scope d acc f).1.isObject = true := by
  cases htaken : acc.1.contains (strField f (str "name")) with
  | true => rw [addField_taken htaken]; exact h
  | false => rw [addField_new htaken]; exact Json.isObject_set h

/-- The first field of the name is the one that counts. -/
theorem fieldNamed_cons (f : Json) (name : Bytes) : fieldNamed (f :: fs) name =
    if strField f (str "name") = name then some f else fieldNamed fs name := by
  by_cases hname : strField f (str "name") = name
  · rw [if_pos hname]
    exact List.find?_cons_of_pos (by simp [hname])
  · rw [if_neg hname]
    exact List.find?_cons_of_neg (by simpa using hname)

/-- The property of a name is the slot of the first field with it. -/
theorem find?_addFields (h : acc.1.isObject = true) (name : Bytes) :
    (fs.foldl (addField scope d) acc).1.find? name =
      (acc.1.find? name).or ((fieldNamed fs name).map fun f => slotSchema f scope d) := by
  induction fs generalizing acc with
  | nil => exact Option.or_none.symm
  | cons f fs ih =>
      rw [List.foldl_cons, ih (isObject_addField h f), fieldNamed_cons]
      cases htaken : acc.1.contains (strField f (str "name")) with
      | true =>
          rw [addField_taken htaken]
          split_ifs with hname
          · obtain ⟨v, hv⟩ := Option.isSome_iff_exists.mp (hname ▸ htaken)
            rw [hv]
            rfl
          · rfl
      | false =>
          rw [addField_new htaken, Json.find?_set h]
          by_cases hname : strField f (str "name") = name
          · have hnone : acc.1.find? name = none := by
              rw [← hname]
              simpa [Json.contains] using htaken
            rw [if_pos hname.symm, if_pos hname, hnone]
            rfl
          · rw [if_neg (Ne.symm hname), if_neg hname]

/-- The first field of a name says whether it is required. -/
theorem mem_addFields (h : acc.1.isObject = true) (name : Bytes) :
    .str name ∈ (fs.foldl (addField scope d) acc).2 ↔ .str name ∈ acc.2 ∨
      acc.1.find? name = none ∧ ∃ f, fieldNamed fs name = some f ∧ slotIsOptional f = false := by
  induction fs generalizing acc with
  | nil => simp [fieldNamed]
  | cons f fs ih =>
      rw [List.foldl_cons, ih (isObject_addField h f), fieldNamed_cons]
      cases htaken : acc.1.contains (strField f (str "name")) with
      | true =>
          rw [addField_taken htaken]
          by_cases hname : strField f (str "name") = name
          · obtain ⟨v, hv⟩ := Option.isSome_iff_exists.mp (hname ▸ htaken)
            rw [hv]
            simp
          · rw [if_neg hname]
      | false =>
          rw [addField_new htaken, Json.find?_set h]
          dsimp only
          by_cases hname : strField f (str "name") = name
          · have hnone : acc.1.find? name = none := by
              rw [← hname]
              simpa [Json.contains] using htaken
            rw [if_pos hname.symm, if_pos hname, hnone, hname]
            cases hopt : slotIsOptional f <;> simp [hopt]
          · rw [if_neg (Ne.symm hname), if_neg hname]
            have hother : ¬name = strField f (str "name") := Ne.symm hname
            cases slotIsOptional f <;> simp [hother]

theorem of_fieldNamed {f : Json} {name : Bytes} (h : fieldNamed fs name = some f) :
    f ∈ fs ∧ strField f (str "name") = name := by
  unfold fieldNamed at h
  exact ⟨List.mem_of_find?_eq_some h, by simpa using List.find?_some h⟩

/-- A field is the one of its name. -/
theorem fieldNamed_of_mem {f : Json} (h : (fs.map fun f => strField f (str "name")).Nodup)
    (hf : f ∈ fs) : fieldNamed fs (strField f (str "name")) = some f := by
  induction fs with
  | nil => cases hf
  | cons g fs ih =>
      obtain ⟨hfirst, hrest⟩ := List.nodup_cons.mp h
      rcases List.mem_cons.mp hf with rfl | hf
      · exact List.find?_cons_of_pos (beq_self_eq_true _)
      · have hne : strField g (str "name") ≠ strField f (str "name") :=
          fun heq => hfirst (List.mem_map.mpr ⟨f, hf, heq.symm⟩)
        exact (List.find?_cons_of_neg (by simpa using hne)).trans (ih hrest hf)

end Fields

/-! ## The params object

The object that describes named arguments is closed: no other names, and all that are required.
Its keywords are taken one at a time (`Demands`), then put together. A document that asks for
nothing leaves `required` out, which accepts the same objects. -/

section Params

variable {V : Vocabulary} {d : Dialect} {scope : TypeScope} {decl : Json} {m : ContractMethod}
  {byName : List (Bytes × Json)}

/-- The properties and the required names of a declaration's parameters. -/
def fieldsOf (scope : TypeScope) (d : Dialect) (decl : Json) : Json × List Json :=
  (paramsOf decl).foldl (addField scope d) (Json.object [], [])

/-- The schema of a declared name. -/
theorem find?_fieldsOf (name : Bytes) : (fieldsOf scope d decl).1.find? name =
    (fieldNamed (paramsOf decl) name).map fun p => slotSchema p scope d :=
  find?_addFields rfl name

theorem mem_fieldsOf (h : ((paramsOf decl).map fun p => strField p (str "name")).Nodup)
    (name : Bytes) : Json.str name ∈ (fieldsOf scope d decl).2 ↔
      ∃ p ∈ paramsOf decl, slotIsOptional p = false ∧ strField p (str "name") = name := by
  refine (mem_addFields rfl name).trans ?_
  constructor
  · rintro (hnone | ⟨-, p, hp, hrequired⟩)
    · cases hnone
    · obtain ⟨hmem, hname⟩ := of_fieldNamed hp
      exact ⟨p, hmem, hrequired, hname⟩
  · rintro ⟨p, hmem, hrequired, rfl⟩
    exact Or.inr ⟨rfl, p, fieldNamed_of_mem h hmem, hrequired⟩

/-- The keywords of a params object. -/
def objectMembers (properties : Json) (required : List Json) : List (Bytes × Json) :=
  (if required.isEmpty then [] else [(str "required", .arr required)]) ++
    [(str "additionalProperties", .bool false), (str "properties", properties),
      (str "type", text "object")]

theorem find?_paramsObject (k : Bytes) : (paramsObject decl scope d).find? k =
    (objectMembers (fieldsOf scope d decl).1 (fieldsOf scope d decl).2).lookup k := by
  have hbase (properties : Json) : (Json.object [(str "type", text "object"),
      (str "properties", properties), (str "additionalProperties", .bool false)]).find? k =
      [(str "additionalProperties", .bool false), (str "properties", properties),
        (str "type", text "object")].lookup k := by
    rfl
  unfold paramsObject objectMembers
  show Json.find? k (if (fieldsOf scope d decl).2.isEmpty then _ else _) = _
  split_ifs with hempty
  · exact hbase _
  · rw [Json.find?_set rfl, List.singleton_append, List.lookup_cons_if]
    rw [← hbase]
    rfl

/-! ### What each keyword asks -/

/-- What the keyword `k` of a schema asks of a value, when the schema has it. -/
def Demands (V : Vocabulary) (d : Dialect) (schema : Json) (k : Bytes) (value : Json) : Prop :=
  ∀ argument, schema.find? k = some argument → Obeys V d (Valid V d) schema k argument value

/-- Every given name is declared. -/
def Declared (decl : Json) (byName : List (Bytes × Json)) : Prop :=
  ∀ kv ∈ byName, ∃ p ∈ paramsOf decl, strField p (str "name") = kv.1

/-- Every required name is given. -/
def Complete (decl : Json) (byName : List (Bytes × Json)) : Prop :=
  ∀ p ∈ paramsOf decl, slotIsOptional p = false → (byName.lookup (strField p (str "name"))).isSome

theorem find?_paramsObject_properties :
    (paramsObject decl scope d).find? (str "properties") = some (fieldsOf scope d decl).1 := by
  rw [find?_paramsObject, objectMembers]
  split_ifs <;> rfl

/-- No name beyond the declared ones. -/
theorem demands_additionalProperties :
    Demands V d (paramsObject decl scope d) (str "additionalProperties") (.obj byName) ↔
      Declared decl byName := by
  have hfalse : (paramsObject decl scope d).find? (str "additionalProperties") =
      some (.bool false) := by
    rw [find?_paramsObject, objectMembers]
    split_ifs <;> rfl
  have hplain : (paramsObject decl scope d).contains (str "patternProperties") = false := by
    rw [Json.contains, find?_paramsObject, objectMembers]
    split_ifs <;> rfl
  have hdeclared (name : Bytes) : (((paramsObject decl scope d).find? (str "properties")).bind
      (Json.find? name)).isSome = true ↔
      ∃ p ∈ paramsOf decl, strField p (str "name") = name := by
    rw [find?_paramsObject_properties, Option.bind_some, find?_fieldsOf, Option.isSome_map,
      fieldNamed, List.find?_isSome]
    simp only [beq_iff_eq]
  have hdemands : Demands V d (paramsObject decl scope d) (str "additionalProperties")
      (.obj byName) ↔ Obeys V d (Valid V d) (paramsObject decl scope d)
        (str "additionalProperties") (.bool false) (.obj byName) := by
    constructor
    · exact fun hd => hd _ hfalse
    · intro hd argument hargument
      rw [hfalse] at hargument
      exact Option.some.inj hargument ▸ hd
  rw [hdemands, obeys_additionalProperties hplain]
  constructor
  · intro hd kv hkv
    obtain ⟨x, hx⟩ := Option.isSome_iff_exists.mp (List.lookup_isSome_iff.mpr ⟨kv, hkv, beq_self_eq_true kv.1⟩)
    exact (hdeclared _).mp (hd kv.1 x hx)
  · intro hd name x hx
    exact (hdeclared _).mpr (hd (name, x) (List.mem_of_lookup hx))

/-- Every name that is not optional is there. -/
theorem demands_required (h : ((paramsOf decl).map fun p => strField p (str "name")).Nodup) :
    Demands V d (paramsObject decl scope d) (str "required") (.obj byName) ↔
      Complete decl byName := by
  have hnames (name : Bytes) : Json.str name ∈ (fieldsOf scope d decl).2 ↔
      ∃ p ∈ paramsOf decl, slotIsOptional p = false ∧ strField p (str "name") = name :=
    mem_fieldsOf h name
  have hfind (argument : Json) : (paramsObject decl scope d).find? (str "required") =
      some argument ↔ (fieldsOf scope d decl).2 ≠ [] ∧
        argument = .arr (fieldsOf scope d decl).2 := by
    rw [find?_paramsObject, objectMembers]
    split_ifs with hempty
    · have hnil := List.isEmpty_iff.mp hempty
      exact ⟨nofun, fun hne => absurd hnil hne.1⟩
    · have hne := mt List.isEmpty_iff.mpr hempty
      exact ⟨fun hsome => ⟨hne, (Option.some.inj hsome).symm⟩, fun hsome => hsome.2 ▸ rfl⟩
  constructor
  · intro hd p hp hrequired
    have hmem := (hnames _).mpr ⟨p, hp, hrequired, rfl⟩
    have hobeys := hd _ ((hfind _).mpr ⟨List.ne_nil_of_mem hmem, rfl⟩)
    exact obeys_required.mp hobeys rfl _ hmem
  · intro hc argument hargument
    obtain ⟨-, rfl⟩ := (hfind _).mp hargument
    refine obeys_required.mpr fun _ name hname => ?_
    obtain ⟨p, hp, hrequired, rfl⟩ := (hnames name).mp hname
    exact hc p hp hrequired

/-- Each value is valid for the slot of its name. -/
theorem demands_properties (h : ((paramsOf decl).map fun p => strField p (str "name")).Nodup) :
    Demands V d (paramsObject decl scope d) (str "properties") (.obj byName) ↔
      ∀ p ∈ paramsOf decl, ∀ x, byName.lookup (strField p (str "name")) = some x →
        Valid V d (slotSchema p scope d) x := by
  constructor
  · intro hd p hp x hx
    have hfield : (fieldsOf scope d decl).1.find? (strField p (str "name")) =
        some (slotSchema p scope d) :=
      (find?_fieldsOf _).trans (congrArg (Option.map _) (fieldNamed_of_mem h hp))
    exact obeys_properties.mp (hd _ find?_paramsObject_properties) _ _ _ hfield hx
  · intro hd argument hargument
    rw [find?_paramsObject_properties] at hargument
    obtain rfl := Option.some.inj hargument
    refine obeys_properties.mpr fun name s x hs hx => ?_
    obtain ⟨p, hp, rfl⟩ := Option.map_eq_some_iff.mp ((find?_fieldsOf name).symm.trans hs)
    obtain ⟨hmem, rfl⟩ := of_fieldNamed hp
    exact hd p hmem x hx

/-- **The described object**: declared names only, every required one, and valid values. -/
theorem valid_paramsObject (h : ((paramsOf decl).map fun p => strField p (str "name")).Nodup) :
    Valid V d (paramsObject decl scope d) (.obj byName) ↔
      Declared decl byName ∧ Complete decl byName ∧
        ∀ p ∈ paramsOf decl, ∀ x, byName.lookup (strField p (str "name")) = some x →
          Valid V d (slotSchema p scope d) x := by
  have hobj : (paramsObject decl scope d).isObject = true := by
    unfold paramsObject
    dsimp only
    split_ifs <;> rfl
  have href : (paramsObject decl scope d).find? (str "$ref") = none := by
    rw [find?_paramsObject, objectMembers]
    split_ifs <;> rfl
  rw [valid_iff hobj href]
  constructor
  · exact fun hall => ⟨demands_additionalProperties.mp (hall _),
      (demands_required h).mp (hall _), (demands_properties h).mp (hall _)⟩
  · rintro ⟨hdeclared, hcomplete, hvalues⟩ k argument hk
    have hmem := List.mem_of_lookup ((find?_paramsObject k).symm.trans hk)
    unfold objectMembers at hmem
    rcases List.mem_append.mp hmem with hmem | hmem
    · obtain rfl : k = str "required" := by
        split_ifs at hmem with hempty
        · cases hmem
        · exact (Prod.mk.inj (List.mem_singleton.mp hmem)).1
      exact (demands_required h).mpr hcomplete argument hk
    · rcases List.mem_cons.mp hmem with heq | hmem
      · obtain ⟨rfl, -⟩ := Prod.mk.inj heq
        exact demands_additionalProperties.mpr hdeclared argument hk
      · rcases List.mem_cons.mp hmem with heq | hmem
        · obtain ⟨rfl, -⟩ := Prod.mk.inj heq
          exact (demands_properties h).mpr hvalues argument hk
        · obtain ⟨rfl, rfl⟩ := Prod.mk.inj (List.mem_singleton.mp hmem)
          exact obeys_type.mpr (hasType_object.mpr rfl)

/-! ## The dispatcher

`typedPositional` walks over the declared parameters and takes the argument of each name, or null
for an optional one that is missing. It refuses a name that nobody declared and a missing one
that is required. These are the two conditions of the params object, and the array it makes is
described by the tuple. -/

/-- The arguments are there when every required one is. -/
theorem typedArguments_ok {ps : List ContractParam}
    (h : ∀ p ∈ ps, p.optional = false → (byName.lookup p.name).isSome) :
    ∃ out, typedArguments byName ps = .ok out := by
  induction ps with
  | nil => exact ⟨[], rfl⟩
  | cons p ps ih =>
      obtain ⟨out, hout⟩ := ih fun q hq => h q (List.mem_cons_of_mem _ hq)
      rw [typedArguments, hout]
      cases hp : byName.lookup p.name with
      | some x => exact ⟨x :: out, rfl⟩
      | none =>
          have hoptional : p.optional = true := by
            by_contra hno
            have hsome := h p (List.mem_cons_self ..) (by simpa using hno)
            rw [hp] at hsome
            cases hsome
          exact ⟨.null :: out, if_pos hoptional⟩

/-- Each slot has its value, or null when it is optional. -/
theorem forall₂_of_typedArguments {ps : List ContractParam} {out : List Json}
    (h : typedArguments byName ps = .ok out) :
    List.Forall₂ (fun p x => byName.lookup p.name = some x ∨ p.optional = true ∧ x = .null)
      ps out := by
  induction ps generalizing out with
  | nil =>
      cases h
      exact .nil
  | cons p ps ih =>
      rw [typedArguments] at h
      cases hp : byName.lookup p.name with
      | some x =>
          rw [hp] at h
          obtain ⟨rest, hrest, rfl⟩ := of_map_eq_ok h
          exact .cons (.inl hp) (ih hrest)
      | none =>
          rw [hp] at h
          dsimp only at h
          split_ifs at h with hoptional
          obtain ⟨rest, hrest, rfl⟩ := of_map_eq_ok h
          exact .cons (.inr ⟨hoptional, rfl⟩) (ih hrest)

/-- What is required has a value. -/
theorem complete_of_typedArguments {ps : List ContractParam} {out : List Json}
    (h : typedArguments byName ps = .ok out) :
    ∀ p ∈ ps, p.optional = false → (byName.lookup p.name).isSome := by
  have hslots := forall₂_of_typedArguments h
  clear h
  induction hslots with
  | nil => exact fun p hp => absurd hp List.not_mem_nil
  | cons hslot _ ih =>
      intro q hq hrequired
      rcases List.mem_cons.mp hq with rfl | hq
      · rcases hslot with hgiven | ⟨hoptional, -⟩
        · rw [hgiven]
          rfl
        · rw [hoptional] at hrequired
          cases hrequired
      · exact ih q hq hrequired

/-- The dispatcher takes an object whose names are declared and complete, and gives each slot its
value, or null. -/
theorem typedPositional_iff (h : Lists m decl) :
    (∃ out, typedPositional m byName = .ok out) ↔ Declared decl byName ∧ Complete decl byName := by
  have hknown : (∀ kv ∈ byName, (m.params.any fun p => p.name == kv.1) = true) ↔
      Declared decl byName := by
    refine forall_congr' fun kv => imp_congr_right fun _ => ?_
    rw [h.params, List.any_map, List.any_eq_true]
    exact exists_congr fun p => and_congr_right' beq_iff_eq
  have hgiven : (∀ p ∈ m.params, p.optional = false → (byName.lookup p.name).isSome) ↔
      Complete decl byName := by
    rw [h.params, List.forall_mem_map]
    rfl
  rw [← hknown, ← hgiven]
  unfold typedPositional
  cases hfind : byName.find? fun kv => !(m.params.any fun p => p.name == kv.1) with
  | some kv =>
      have hno := List.find?_some hfind
      have hmem := List.mem_of_find?_eq_some hfind
      refine ⟨nofun, fun hall => ?_⟩
      rw [hall.1 kv hmem] at hno
      cases hno
  | none =>
      have hall := List.find?_eq_none.mp hfind
      constructor
      · rintro ⟨out, hout⟩
        exact ⟨fun kv hkv => by simpa using hall kv hkv, complete_of_typedArguments hout⟩
      · rintro ⟨-, hcomplete⟩
        exact typedArguments_ok hcomplete

/-- An array that the dispatcher makes of valid values is a described one. -/
theorem valid_paramsTuple (h : Lists m decl) {out : List Json}
    (hout : typedPositional m byName = .ok out)
    (hvalues : ∀ p ∈ paramsOf decl, ∀ x, byName.lookup (strField p (str "name")) = some x →
      Valid V d (slotSchema p scope d) x) :
    Valid V d (paramsTuple decl scope d) (.arr out) := by
  have harguments : typedArguments byName ((paramsOf decl).map paramOf) = .ok out := by
    unfold typedPositional at hout
    split at hout
    · cases hout
    · rw [← h.params]
      exact hout
  have hslots := List.forall₂_map_left_iff.mp (forall₂_of_typedArguments harguments)
  refine (valid_tupleSchema _ _).mpr ⟨out, rfl, List.forall₂_map_left_iff.mpr ?_⟩
  refine ((List.forall₂_and_left _ _).mpr ⟨fun p hp => hp, hslots⟩).imp ?_
  rintro p x ⟨hp, hgiven | ⟨hoptional, rfl⟩⟩
  · exact hvalues p hp x hgiven
  · -- a missing optional argument is null, which its slot admits
    rw [slotSchema, if_pos (show slotIsOptional p = true from hoptional)]
    exact valid_nullable_null _

end Params

/-- **By-name calls accept what the documents describe.** The dispatcher takes an object exactly
when its names are declared and complete, which is what the described object asks of the names; a
described object becomes a described array; and a tuple accepts the arrays of its length whose slots
are valid. Whatever the other keywords say, and in either dialect. -/
theorem by_name_agrees (V : Vocabulary) (d : Dialect) (scope : TypeScope) (decl : Json)
    (m : ContractMethod) (h : Lists m decl) (byName : List (Bytes × Json)) :
    ((∃ out, typedPositional m byName = .ok out) ↔ Declared decl byName ∧ Complete decl byName) ∧
    ((∃ out, typedPositional m byName = .ok out) ↔
      Demands V d (paramsObject decl scope d) (str "additionalProperties") (.obj byName) ∧
        Demands V d (paramsObject decl scope d) (str "required") (.obj byName)) ∧
    (Valid V d (paramsObject decl scope d) (.obj byName) ↔
      (∃ out, typedPositional m byName = .ok out) ∧
        Demands V d (paramsObject decl scope d) (str "properties") (.obj byName)) ∧
    (Valid V d (paramsObject decl scope d) (.obj byName) →
      ∃ out, typedPositional m byName = .ok out ∧
        Valid V d (paramsTuple decl scope d) (.arr out)) ∧
    ∀ (items : List Json) (value : Json), Valid V d (tupleSchema items d) value ↔
      ∃ xs, value = .arr xs ∧ List.Forall₂ (Valid V d) items xs := by
  refine ⟨typedPositional_iff h, ?_, ?_, fun hvalid => ?_, valid_tupleSchema⟩
  · rw [demands_additionalProperties, demands_required h.distinct]
    exact typedPositional_iff h
  · rw [valid_paramsObject h.distinct, typedPositional_iff h, demands_properties h.distinct,
      and_assoc]
  · obtain ⟨hdeclared, hcomplete, hvalues⟩ := (valid_paramsObject h.distinct).mp hvalid
    obtain ⟨out, hout⟩ := (typedPositional_iff h).mpr ⟨hdeclared, hcomplete⟩
    exact ⟨out, hout, valid_paramsTuple h hout hvalues⟩

/-! ## An optional parameter -/

/-- `add(a, ?b)`: declared as the reader and the AST list it. -/
def addDecl : Json :=
  Json.object [(str "name", text "add"), (str "params", .arr [
    Json.object [(str "name", text "a"), (str "type",
      Json.object [(str "kind", text "primitive"), (str "name", text "int")])],
    Json.object [(str "name", text "b"), (str "isOptional", .bool true), (str "type",
      Json.object [(str "kind", text "primitive"), (str "name", text "int")])]])]

def addMethod : ContractMethod where
  name := str "add"
  params := [{ name := str "a" }, { name := str "b", optional := true }]

/-- `{"a": 7}` becomes `[7, null]`. -/
theorem by_name_agrees_add :
    typedPositional addMethod [(str "a", .uint 7)] = .ok [.uint 7, .null] ∧
    Declared addDecl [(str "a", .uint 7)] ∧ Complete addDecl [(str "a", .uint 7)] := by
  have hout : typedPositional addMethod [(str "a", .uint 7)] = .ok [.uint 7, .null] := by rfl
  exact ⟨hout, (by_name_agrees ⟨fun _ _ _ => True⟩ .draft07 { module := str "m1" } addDecl addMethod
    ⟨by rfl, by decide⟩ [(str "a", .uint 7)]).1.mp ⟨_, hout⟩⟩

end JsonRpcBridge.Docs
