import JsonRpcBridge.Docs.AsyncApi
import JsonRpcBridge.Docs.OpenApi
import JsonRpcBridge.Docs.OpenRpc
import JsonRpcBridge.Pointer

/-!
# References resolve

Every `$ref` of the three documents points inside its own document. What an emitter may refer to is
kept as a predicate on references (`ok`): one lemma for each emitter says which references it needs,
and the document says which of them resolve.

`refs_resolve`: all three documents, for every context.
-/

namespace JsonRpcBridge.Docs

/-! ## Schemas

The emitters of types, from the inside out. A named type of the scope gives a reference, and any
other name is spelled out as unknown; so what a schema refers to is settled by its scope. The one
thing a contract could do is to call a parameter or a field `$ref`, which would make a reference
out of an object of properties. `ParamsNamed` and `FieldsNamed` exclude it. -/

/-- The reference to the component schema of this name is accepted. -/
def Defined (ok : Bytes → Prop) (name : Bytes) : Prop := ok (kSchemasPrefix ++ componentKey name)

/-- What the schemas of a scope refer to. -/
structure Components (ok : Bytes → Prop) (scope : TypeScope) : Prop where
  bytes : Defined ok (str "Bytes")
  logosResult : Defined ok (str "LogosResult")
  providerRejection : Defined ok (str "ProviderRejection")
  records : ∀ name ∈ scope.records, Defined ok (recordComponentName scope.module name)

/-- No parameter of a declaration is named `$ref`. -/
def ParamsNamed (decl : Json) : Prop := ∀ p ∈ paramsOf decl, strField p (str "name") ≠ kRef

/-- No field of a record is named `$ref`. -/
def FieldsNamed (typeDecl : Json) : Prop :=
  ∀ f ∈ (arrayField typeDecl (str "fields")).getD [], strField f (str "name") ≠ kRef

section Schemas

variable {ok : Bytes → Prop} {scope : TypeScope} {schema decl : Json} {name : Bytes}

@[simp] theorem refsIn_text (s : String) : (text s).RefsIn ok := Json.refsIn_str _

@[simp] theorem refsIn_texts (ss : List String) : (texts ss).RefsIn ok := by
  apply Json.refsIn_arr_iff.mpr
  intro x hx
  obtain ⟨s, -, rfl⟩ := List.mem_map.mp hx
  exact refsIn_text s

/-- The emitted reference is the one `Defined` speaks of. -/
theorem refsIn_schemaRef (h : Defined ok name) : (schemaRef name).RefsIn ok := Json.refsIn_ref h

theorem bare_typeIs (type : String) : (typeIs type).Bare ok :=
  Json.bare_object (by simp)

theorem bare_unknownType (spelling : Bytes) : (unknownType spelling).Bare ok :=
  Json.bare_object (by simp [kUnknownTypeKey])

theorem refsIn_nullable (h : schema.RefsIn ok) : (nullable schema).RefsIn ok := by
  have hnull : (Json.object [(str "type", text "null")]).RefsIn ok := (bare_typeIs "null").refs
  rw [nullable]
  split
  · exact h
  · exact (Json.bare_object (by simp [h, hnull])).refs

/-- A description goes beside no reference: the reference is under `allOf` by then. -/
theorem refsIn_describe (h : schema.RefsIn ok) (description : Bytes) :
    (describe schema description).RefsIn ok := by
  rw [describe]
  split
  · exact h
  · refine (Json.Bare.set ?_ (by simp) (Json.refsIn_str _)).refs
    split
    · exact Json.bare_object (by simp [h])
    · rename_i hnoref
      refine ⟨h, ?_⟩
      rintro ms rfl kv hkv hk
      obtain ⟨p, hms, -⟩ := h ms kv.2 .self (hk ▸ hkv)
      apply hnoref
      rw [hms]
      rfl

theorem bare_tupleSchema {items : List Json} (h : ∀ x ∈ items, x.RefsIn ok) (dialect : Dialect) :
    (tupleSchema items dialect).Bare ok := by
  have hbase : (Json.object [(str "type", text "array")]).Bare ok := bare_typeIs "array"
  have hitems : (Json.arr items).RefsIn ok := Json.refsIn_arr_iff.mpr h
  unfold tupleSchema
  split
  · exact hbase.set (by simp) (Json.refsIn_int _)
  · refine Json.Bare.set (Json.Bare.set ?_ (by simp) (Json.refsIn_uint _))
      (by simp) (Json.refsIn_uint _)
    cases dialect with
    | draft07 =>
        exact (hbase.set (by simp) hitems).set (by simp) (Json.refsIn_bool _)
    | draft2020_12 =>
        exact (hbase.set (by simp) hitems).set (by simp) (Json.refsIn_bool _)

/-! ### Types -/

theorem refsIn_primitiveSchema (hc : Components ok scope) (name : Bytes) :
    (primitiveSchema name).RefsIn ok := by
  unfold primitiveSchema
  split_ifs
  · exact (bare_typeIs "string").refs
  · exact refsIn_schemaRef hc.bytes
  · exact (Json.bare_object (by simp)).refs
  · exact (Json.bare_object (by simp)).refs
  · exact (Json.bare_object (by simp)).refs
  · exact (bare_typeIs "boolean").refs
  · exact (Json.bare_object (by simp)).refs
  · exact refsIn_schemaRef hc.logosResult
  · exact (bare_unknownType _).refs

/-- A named type is referred to only when its scope declares it. -/
theorem refsIn_typeSchema (hc : Components ok scope) (dialect : Dialect) (type : Json) :
    (typeSchema scope dialect type).RefsIn ok := by
  fun_induction typeSchema scope dialect type with
  | case1 => exact refsIn_primitiveSchema hc _
  | case2 => exact (bare_unknownType _).refs
  | case3 _ _ _ _ _ _ _ ih => exact (Json.bare_object (by simp [ih])).refs
  | case4 => exact (bare_unknownType _).refs
  | case5 _ _ _ _ _ _ _ _ _ _ _ ih =>
      exact (Json.bare_object (by simp [ih])).refs
  | case6 type _ _ _ _ _ _ _ _ _ _ ih =>
      have hmap : (Json.object [(str "type", text "object"),
          (str "additionalProperties", typeSchema scope dialect (elementAt type 1))]).Bare ok :=
        Json.bare_object (by simp [ih])
      exact (hmap.set (by simp [kMapKeyTypeKey]) (Json.refsIn_str _)).refs
  | case7 => exact (bare_unknownType _).refs
  | case8 _ _ _ _ _ _ _ _ ih => exact refsIn_nullable ih
  | case9 _ _ _ _ _ _ _ _ _ hname => exact refsIn_schemaRef (hc.records _ (List.contains_iff_mem.mp hname))
  | case10 => exact (bare_unknownType _).refs
  | case11 => exact (bare_unknownType _).refs
  | case12 => exact (bare_unknownType _).refs

theorem refsIn_slotSchema (hc : Components ok scope) (dialect : Dialect) (slot : Json) :
    (slotSchema slot scope dialect).RefsIn ok := by
  have htype := refsIn_typeSchema hc dialect (slotType slot)
  unfold slotSchema
  split
  · exact refsIn_nullable htype
  · exact htype

theorem refsIn_returnSchema (hc : Components ok scope) (dialect : Dialect) (method : Json) :
    (returnSchema method scope dialect).RefsIn ok := by
  unfold returnSchema
  split
  · exact (Json.bare_object (by simp)).refs
  · dsimp only
    split
    · exact refsIn_nullable (refsIn_typeSchema hc dialect _)
    · exact refsIn_typeSchema hc dialect _

theorem refsIn_methodResultSchema (hc : Components ok scope) (dialect : Dialect) (method : Json) :
    (methodResultSchema method scope dialect).RefsIn ok :=
  (Json.bare_object (by
    simp [refsIn_returnSchema hc, refsIn_schemaRef hc.providerRejection])).refs

/-! ### Parameters and fields

Here the names of the contract become members, and one of them might be `$ref`. -/

/-- By position no name becomes a member. -/
theorem bare_paramsTuple (hc : Components ok scope) (dialect : Dialect) (decl : Json) :
    (paramsTuple decl scope dialect).Bare ok := by
  apply bare_tupleSchema
  intro x hx
  obtain ⟨p, -, rfl⟩ := List.mem_map.mp hx
  exact refsIn_slotSchema hc dialect p

/-- Fields that are not named `$ref` make properties that are no reference. -/
theorem bare_addFields (hc : Components ok scope) (dialect : Dialect) {fields : List Json}
    (h : ∀ f ∈ fields, strField f (str "name") ≠ kRef) :
    (fields.foldl (addField scope dialect) (Json.object [], [])).1.Bare ok ∧
      (Json.arr (fields.foldl (addField scope dialect) (Json.object [], [])).2).RefsIn ok := by
  refine List.foldlRecOn fields (addField scope dialect)
    (motive := fun acc => acc.1.Bare ok ∧ (Json.arr acc.2).RefsIn ok) ?_ ?_
  · exact ⟨Json.bare_object (by simp), by simp⟩
  · rintro acc ⟨hproperties, hrequired⟩ f hf
    unfold addField
    dsimp only
    split
    · exact ⟨hproperties, hrequired⟩
    · refine ⟨hproperties.set (h f hf) (refsIn_slotSchema hc dialect f), ?_⟩
      split
      · exact hrequired
      · simpa [or_imp, forall_and] using hrequired

/-- By name each parameter becomes one. -/
theorem bare_paramsObject (hc : Components ok scope) (dialect : Dialect) (h : ParamsNamed decl) :
    (paramsObject decl scope dialect).Bare ok := by
  obtain ⟨hproperties, hrequired⟩ := bare_addFields hc dialect h
  unfold paramsObject
  dsimp only
  split
  · exact Json.bare_object (by simp [hproperties.refs])
  · refine Json.Bare.set ?_ (by simp) hrequired
    exact Json.bare_object (by simp [hproperties.refs])

/-- The same for the fields of a record. -/
theorem bare_recordSchema (hc : Components ok scope) (dialect : Dialect) (h : FieldsNamed decl) :
    (recordSchema decl scope dialect).Bare ok := by
  obtain ⟨hproperties, hrequired⟩ := bare_addFields hc dialect h
  unfold recordSchema
  dsimp only
  split
  · exact Json.bare_object (by simp [hproperties.refs])
  · refine Json.Bare.set ?_ (by simp) hrequired
    exact Json.bare_object (by simp [hproperties.refs])

end Schemas

/-! ## Component schemas

A component is stored under `componentKey` of its name, and referred to by the same key. Keys
consist of characters that a pointer takes as they are. `addRecordComponents` adds the records of
one contract: no record is lost by those added after it, and each that the scope knows is there. -/

section Components

variable {schemas interface : Json} {module name key : Bytes} {dialect : Dialect} {m : ModuleDoc}
  {modules : List ModuleDoc}

/-- Every other character has been replaced. -/
theorem isKeyChar_of_componentKey {raw : Bytes} : ∀ c ∈ componentKey raw, isKeyChar c = true := by
  intro c hc
  obtain ⟨c', -, rfl⟩ := List.mem_map.mp hc
  split
  · assumption
  · rfl

theorem plainByte_of_isKeyChar {c : UInt8} (h : isKeyChar c = true) : plainByte c = true := by
  simp only [plainByte, Bool.and_eq_true, bne_iff_ne]
  refine ⟨⟨?_, ?_⟩, ?_⟩
  all_goals
    rintro rfl
    revert h
    decide

/-- An empty name is given a key all the same. -/
theorem componentKey_ne_nil (raw : Bytes) : componentKey raw ≠ [] := by
  rw [componentKey, Ne, List.map_eq_nil_iff]
  split
  · exact List.cons_ne_nil _ _
  · rename_i h
    rintro rfl
    exact h rfl

/-- A key is its own key. -/
theorem componentKey_idem (raw : Bytes) : componentKey (componentKey raw) = componentKey raw := by
  conv => lhs; rw [componentKey]
  rw [if_neg (by simpa using componentKey_ne_nil raw)]
  refine (List.map_congr_left fun c hc => ?_).trans (List.map_id _)
  exact if_pos (isKeyChar_of_componentKey c hc)

theorem contains_set {j v : Json} (hj : j.isObject = true) (k k' : Bytes) :
    (j.set k v).contains k' = true ↔ k' = k ∨ j.contains k' = true := by
  rw [Json.contains, Json.find?_set hj, Json.contains]
  by_cases hk : k' = k
  · simp [hk]
  · simp [hk]

/-- A fold has what one of its elements brings, when no element takes it away. -/
theorem foldl_has {α β : Type} {f : β → α → β} {I P : β → Prop} (hI : ∀ b a, I b → I (f b a))
    (hkeep : ∀ b a, I b → P b → P (f b a)) {l : List α} {b : β} (hb : I b)
    (h : P b ∨ ∃ a ∈ l, ∀ b, I b → P (f b a)) : P (l.foldl f b) := by
  induction l generalizing b with
  | nil =>
      rcases h with h | ⟨a, ha, -⟩
      · exact h
      · cases ha
  | cons a l ih =>
      apply ih (hI b a hb)
      rcases h with h | ⟨a', ha', h⟩
      · exact Or.inl (hkeep b a hb h)
      · rcases List.mem_cons.mp ha' with rfl | ha'
        · exact Or.inl (h b hb)
        · exact Or.inr ⟨a', ha', h⟩

theorem isObject_addRecordComponents (h : schemas.isObject = true) :
    (addRecordComponents schemas module interface dialect).isObject = true := by
  unfold addRecordComponents
  refine List.foldlRecOn (motive := fun s : Json => s.isObject = true) _ _ h ?_
  intro s hs t _
  dsimp only
  split
  · exact hs
  · exact Json.isObject_set hs

/-- The records of a contract have their components, and the others stay. -/
theorem contains_addRecordComponents (h : schemas.isObject = true)
    (hkey : schemas.contains key = true ∨
      ∃ name ∈ (TypeScope.of module interface).records, key = recordComponentName module name) :
    (addRecordComponents schemas module interface dialect).contains key = true := by
  unfold addRecordComponents
  refine foldl_has (I := fun s : Json => s.isObject = true)
    (P := fun s : Json => s.contains key = true)
    ?_ ?_ h ?_
  · intro s t hs
    dsimp only
    split
    · exact hs
    · exact Json.isObject_set hs
  · intro s t hs hc
    dsimp only
    split
    · exact hc
    · exact (contains_set hs _ _).mpr (Or.inr hc)
  · rcases hkey with hc | ⟨name, hname, rfl⟩
    · exact Or.inl hc
    · obtain ⟨hmem, hne⟩ := List.mem_filter.mp hname
      obtain ⟨t, ht, rfl⟩ := List.mem_map.mp hmem
      refine Or.inr ⟨t, ht, fun s hs => ?_⟩
      dsimp only
      rw [if_neg (by simpa using hne)]
      exact (contains_set hs _ _).mpr (Or.inl rfl)

/-- The component schemas that a document starts with, and the records of its modules. -/
theorem contains_records (h : schemas.isObject = true)
    (hkey : schemas.contains key = true ∨ ∃ m ∈ modules,
      ∃ name ∈ (TypeScope.of m.name m.interface).records, key = recordComponentName m.name name) :
    (modules.foldl (fun s m => addRecordComponents s m.name m.interface dialect)
      schemas).contains key = true := by
  refine foldl_has (I := fun s : Json => s.isObject = true)
    (P := fun s : Json => s.contains key = true)
    (fun s m hs => isObject_addRecordComponents hs)
    (fun s m hs hc => contains_addRecordComponents hs (Or.inl hc)) h ?_
  rcases hkey with hc | ⟨m, hm, hname⟩
  · exact Or.inl hc
  · exact Or.inr ⟨m, hm, fun s hs => contains_addRecordComponents hs (Or.inr hname)⟩

variable {ok : Bytes → Prop}

/-- A record refers to the types of the contract that declares it. -/
theorem bare_addRecordComponents (hc : Components ok (TypeScope.of module interface))
    (hfields : ∀ t ∈ (arrayField interface (str "types")).getD [], FieldsNamed t)
    (h : schemas.Bare ok) : (addRecordComponents schemas module interface dialect).Bare ok := by
  unfold addRecordComponents
  refine List.foldlRecOn (motive := fun s : Json => s.Bare ok) _ _ h ?_
  intro s hs t ht
  dsimp only
  split
  · exact hs
  · refine hs.set ?_ (bare_recordSchema hc dialect (hfields t ht)).refs
    intro heq
    have hdollar : (0x24 : UInt8) ∈ recordComponentName module (strField t (str "name")) := by
      rw [heq]
      decide
    exact absurd (isKeyChar_of_componentKey _ hdollar) (by decide)

/-- The records of typed modules refer to what their scopes may refer to. -/
theorem bare_records (hc : ∀ m ∈ modules, Components ok (TypeScope.of m.name m.interface))
    (hfields : ∀ m ∈ modules, ∀ t ∈ (arrayField m.interface (str "types")).getD [], FieldsNamed t)
    (h : schemas.Bare ok) :
    (modules.foldl (fun s m => addRecordComponents s m.name m.interface dialect) schemas).Bare ok :=
  List.foldlRecOn (motive := fun s : Json => s.Bare ok) _ _ h fun _ hs m hm =>
    bare_addRecordComponents (hc m hm) (hfields m hm) hs

end Components

/-! ## What the documents share

`Named` is what is assumed of the modules of a document. The rest is common to the
three builders: the entries and where they come from, titles and descriptions, and the listing of
the modules. -/

/-- Nothing that becomes a member is named `$ref`: no record field and no method parameter. -/
structure Named (m : ModuleDoc) : Prop where
  fields : ∀ t ∈ (arrayField m.interface (str "types")).getD [], FieldsNamed t
  params : ∀ decl ∈ (arrayField m.interface (str "methods")).getD [], ParamsNamed decl

section Common

variable {ok : Bytes → Prop} {ctx : DocContext} {obj v : Json} {k : Bytes}

/-- An entry declares what its module declares. -/
theorem paramsNamed_decl (h : ∀ m ∈ ctx.modules, Named m) {e : MethodEntry}
    (he : e ∈ methodEntries ctx) {decl : Json} (hdecl : e.decl = some decl) : ParamsNamed decl := by
  obtain ⟨m, hm, he⟩ := List.mem_flatMap.mp he
  obtain ⟨name, -, rfl⟩ := List.mem_map.mp he
  unfold methodEntry at hdecl
  dsimp only at hdecl
  split at hdecl
  · exact (h m (List.mem_filter.mp hm).1).params decl (List.mem_of_find?_eq_some hdecl)
  · cases hdecl

/-- The scope of an entry is that of a module of the document. -/
theorem scope_of_method {e : MethodEntry} (he : e ∈ methodEntries ctx) :
    ∃ m ∈ ctx.modules, e.scope = moduleScope m := by
  obtain ⟨m, hm, he⟩ := List.mem_flatMap.mp he
  obtain ⟨name, -, rfl⟩ := List.mem_map.mp he
  exact ⟨m, (List.mem_filter.mp hm).1, rfl⟩

theorem scope_of_event {e : EventEntry} (he : e ∈ eventEntries ctx) :
    ∃ m ∈ ctx.modules, e.scope = moduleScope m := by
  obtain ⟨m, hm, he⟩ := List.mem_flatMap.mp he
  obtain ⟨name, -, rfl⟩ := List.mem_map.mp he
  exact ⟨m, (List.mem_filter.mp hm).1, rfl⟩

/-- The shared components and the records of every typed module serve every scope of the document.
-/
theorem components_moduleScope (hbytes : Defined ok (str "Bytes"))
    (hresult : Defined ok (str "LogosResult")) (hrejection : Defined ok (str "ProviderRejection"))
    (hrecords : ∀ m ∈ ctx.modules.filter isTyped,
      ∀ name ∈ (TypeScope.of m.name m.interface).records, Defined ok (recordComponentName m.name name))
    {m : ModuleDoc} (hm : m ∈ ctx.modules) : Components ok (moduleScope m) := by
  refine ⟨hbytes, hresult, hrejection, ?_⟩
  unfold moduleScope
  split
  · rename_i htyped
    exact hrecords m (List.mem_filter.mpr ⟨hm, htyped⟩)
  · intro name hname
    cases hname

/-- A member that is set or left out. -/
theorem Bare.setIf {c : Prop} [Decidable c] (hj : obj.Bare ok) (hk : k ≠ kRef) (hv : v.RefsIn ok) :
    (if c then obj.set k v else obj).Bare ok := by
  split
  · exact hj.set hk hv
  · exact hj

theorem bare_addText (h : obj.Bare ok) (raw : Bytes) : (addText obj raw).Bare ok := by
  have hsummary : (if (summary raw).isEmpty then obj
      else obj.set (str "summary") (.str (summary raw))).Bare ok := by
    split
    · exact h
    · exact h.set (by simp) (Json.refsIn_str _)
  unfold addText
  exact Bare.setIf hsummary (by simp) (Json.refsIn_str _)

theorem refsIn_namesJson (names : List Bytes) : (namesJson names).RefsIn ok := by
  apply Json.refsIn_arr_iff.mpr
  intro x hx
  obtain ⟨n, -, rfl⟩ := List.mem_map.mp hx
  exact Json.refsIn_str n

theorem refsIn_xLogosModules (ctx : DocContext) : (xLogosModules ctx).RefsIn ok := by
  apply Json.refsIn_arr_iff.mpr
  intro x hx
  obtain ⟨m, -, rfl⟩ := List.mem_map.mp hx
  have hexposure : (Json.object [(str "methods", safeList m.exposedMethods),
      (str "events", safeList m.exposedEvents)]).RefsIn ok :=
    (Json.bare_object (by simp [safeList, refsIn_namesJson])).refs
  refine (Json.Bare.set ?_ (by simp) hexposure).refs
  refine Bare.setIf ?_ (by simp) (Json.refsIn_str _)
  refine Bare.setIf ?_ (by simp) (Json.refsIn_str _)
  refine Bare.setIf ?_ (by simp) (Json.refsIn_str _)
  exact Json.bare_object (by simp)

end Common

end JsonRpcBridge.Docs
