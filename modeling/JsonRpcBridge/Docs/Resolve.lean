import JsonRpcBridge.Docs.Refs

/-!
# Every reference of a document resolves

For each document: which references it can follow, then that its emitters write no other.

The first half of each is a matter of walking: `components` and the members below it are found by
unfolding the builder, and a name that needs no escaping is a token of a pointer as it is. The
second half goes over the emitters from the inside out, each under the hypothesis that what its
parts refer to is accepted.
-/

namespace JsonRpcBridge.Docs

/-! ## Following references

A reference goes through `components`, then through the kind of component, to the member of its
key. -/

/-- `ref` is `#/…` and points into the document. -/
def Resolves (doc : Json) (ref : Bytes) : Prop :=
  startsWith (str "#/") ref = true ∧ ∃ target, doc.resolve ref = some target

/-- Every member `$ref` is alone in its object, a string, and points into the document. -/
def RefsResolve (doc : Json) : Prop := doc.RefsIn (Resolves doc)

section Resolves

variable {doc a b : Json} {k₁ k₂ k₃ : Bytes}

/-- One step of a walk. -/
theorem follow_cons {j v : Json} {k : Bytes} (h : j.find? k = some v) (tokens : List Bytes) :
    j.follow (k :: tokens) = v.follow tokens := by
  have hchild : j.child k = some v := by
    cases j with
    | obj ms => exact h
    | _ => cases h
  show (j.child k).bind _ = _
  rw [hchild]
  rfl

/-- A walk along plain tokens is what the pointer made of them spells. -/
theorem resolves_of_follow {tokens : List Bytes} {target : Json} (hne : tokens ≠ [])
    (hplain : ∀ t ∈ tokens, ∀ c ∈ t, plainByte c = true) (h : doc.follow tokens = some target) :
    Resolves doc (0x23 :: 0x2F :: [0x2F].intercalate tokens) :=
  ⟨rfl, target, (resolve_plain doc hne hplain).trans h⟩

/-- Where a reference to a member of a member of `components` points. -/
theorem resolve_component {comps members target : Json} {kind key : Bytes}
    (hcomps : doc.find? (str "components") = some comps) (hkind : comps.find? kind = some members)
    (hkey : members.find? key = some target) (hk : ∀ c ∈ kind, plainByte c = true)
    (hplain : ∀ c ∈ key, plainByte c = true) :
    doc.resolve (str "#/components/" ++ kind ++ str "/" ++ key) = some target := by
  have hfollow : doc.follow [str "components", kind, key] = some target := by
    rw [follow_cons hcomps, follow_cons hkind, follow_cons hkey]
    rfl
  have htokens : ∀ t ∈ [str "components", kind, key], ∀ c ∈ t, plainByte c = true := by
    simp only [List.forall_mem_cons, List.not_mem_nil, false_imp_iff, implies_true, and_true]
    exact ⟨by decide, hk, hplain⟩
  have hspelling : str "#/components/" ++ kind ++ str "/" ++ key =
      0x23 :: 0x2F :: [0x2F].intercalate [str "components", kind, key] := by
    rw [List.intercalate_cons_of_ne_nil (by simp), List.intercalate_cons_of_ne_nil (by simp)]
    have hhead : str "#/components/" = 0x23 :: 0x2F :: (str "components" ++ [0x2F]) := by decide
    have hslash : str "/" = [0x2F] := by decide
    rw [hhead, hslash]
    simp
  rw [hspelling, resolve_plain doc (List.cons_ne_nil _ _) htokens, hfollow]

/-- A reference to a member of a member of `components`. -/
theorem resolves_component {comps members : Json} {kind key : Bytes}
    (hcomps : doc.find? (str "components") = some comps) (hkind : comps.find? kind = some members)
    (hkey : members.contains key = true) (hk : ∀ c ∈ kind, plainByte c = true)
    (hplain : ∀ c ∈ key, plainByte c = true) :
    Resolves doc (str "#/components/" ++ kind ++ str "/" ++ key) := by
  obtain ⟨target, htarget⟩ := exists_of_contains hkey
  exact ⟨rfl, target, resolve_component hcomps hkind htarget hk hplain⟩

/-- Where a reference to a component schema points. -/
theorem resolve_schemaRef {comps schemas target : Json} {name : Bytes}
    (hcomps : doc.find? (str "components") = some comps)
    (hschemas : comps.find? (str "schemas") = some schemas)
    (h : schemas.find? (componentKey name) = some target) :
    doc.resolve (kSchemasPrefix ++ componentKey name) = some target := by
  have hspelling : kSchemasPrefix = str "#/components/" ++ str "schemas" ++ str "/" := by decide
  rw [hspelling]
  exact resolve_component hcomps hschemas h (by decide)
    fun c hc => plainByte_of_isKeyChar (isKeyChar_of_componentKey c hc)

/-- A component schema that a document has can be referred to. -/
theorem defined_of_contains {comps schemas : Json} {name : Bytes}
    (hcomps : doc.find? (str "components") = some comps)
    (hschemas : comps.find? (str "schemas") = some schemas)
    (h : schemas.contains (componentKey name) = true) : Defined (Resolves doc) name := by
  have hspelling : kSchemasPrefix = str "#/components/" ++ str "schemas" ++ str "/" := by decide
  rw [Defined, hspelling]
  exact resolves_component hcomps hschemas h (by decide)
    fun c hc => plainByte_of_isKeyChar (isKeyChar_of_componentKey c hc)

/-- A record component is referred to by its own key: taking the key of it again changes nothing. -/
theorem defined_record {comps schemas : Json} {module name : Bytes}
    (hcomps : doc.find? (str "components") = some comps)
    (hschemas : comps.find? (str "schemas") = some schemas)
    (h : schemas.contains (recordComponentName module name) = true) :
    Defined (Resolves doc) (recordComponentName module name) :=
  defined_of_contains hcomps hschemas (by rwa [recordComponentName, componentKey_idem])

end Resolves

/-! ## OpenRPC

The document refers to its schemas and to its catalogue of errors. The methods of the bridge only
refer to errors; those of a module also refer to the named types of its contract. -/

namespace OpenRpc

variable {ok : Bytes → Prop} {ctx : DocContext} {schema params desc errors : Json}

def components (ctx : DocContext) : Json :=
  Json.object [(str "schemas", openRpcSchemas ctx), (str "errors", errorComponents)]

theorem find?_components : (buildOpenRpc ctx).find? (str "components") = some (components ctx) := rfl

theorem find?_schemas : (components ctx).find? (str "schemas") = some (openRpcSchemas ctx) := rfl

theorem find?_errors : (components ctx).find? (str "errors") = some errorComponents := rfl

/-- Each entry of the catalogue is a component. -/
theorem errors_resolve : ∀ e ∈ errorCatalog, Resolves (buildOpenRpc ctx) (kErrorsPrefix ++ e.key) := by
  intro e he
  have hkeys : ∀ e ∈ errorCatalog, errorComponents.contains e.key = true ∧
      ∀ c ∈ e.key, plainByte c = true := by decide
  have hspelling : kErrorsPrefix = str "#/components/" ++ str "errors" ++ str "/" := by decide
  rw [hspelling]
  exact resolves_component find?_components find?_errors (hkeys e he).1 (by decide) (hkeys e he).2

theorem components_scope {m : ModuleDoc} (hm : m ∈ ctx.modules) :
    Components (Resolves (buildOpenRpc ctx)) (moduleScope m) := by
  have hshared : ∀ {name : Bytes}, (Json.object [(str "Bytes", bytesSchema),
      (str "LogosResult", logosResultSchema),
      (str "ProviderRejection", providerRejectionSchema)]).contains (componentKey name) = true →
      Defined (Resolves (buildOpenRpc ctx)) name :=
    fun h => defined_of_contains find?_components find?_schemas (contains_records rfl (Or.inl h))
  refine components_moduleScope (hshared (by decide)) (hshared (by decide)) (hshared (by decide))
    ?_ hm
  intro m hm name hname
  exact defined_record find?_components find?_schemas
    (contains_records rfl (Or.inr ⟨m, hm, name, hname, rfl⟩))

theorem refsIn_errorRefs (h : ∀ e ∈ errorCatalog, ok (kErrorsPrefix ++ e.key)) (codes : List Int) :
    (errorRefs codes).RefsIn ok := by
  apply Json.refsIn_arr_iff.mpr
  intro x hx
  obtain ⟨e, he, rfl⟩ := List.mem_map.mp hx
  exact Json.refsIn_ref (h e (List.mem_filter.mp he).1)

theorem refsIn_allErrorRefs (h : ∀ e ∈ errorCatalog, ok (kErrorsPrefix ++ e.key)) :
    allErrorRefs.RefsIn ok := by
  apply Json.refsIn_arr_iff.mpr
  intro x hx
  obtain ⟨e, he, rfl⟩ := List.mem_map.mp hx
  exact Json.refsIn_ref (h e he)

theorem refsIn_param (name : Bytes) (hs : schema.RefsIn ok) (required : Bool)
    (description : Bytes := []) : (param name schema required description).RefsIn ok := by
  have hbase : (Json.object [(str "name", .str name), (str "schema", schema),
      (str "required", .bool required)]).Bare ok := Json.bare_object (by simp [hs])
  unfold param
  dsimp only
  split
  · exact hbase.refs
  · exact (hbase.set (by simp) (Json.refsIn_str _)).refs

theorem refsIn_result (name : Bytes) (hs : schema.RefsIn ok) : (result name schema).RefsIn ok :=
  (Json.bare_object (by simp [hs])).refs

theorem refsIn_tag (name : Bytes) : (tag name).RefsIn ok := (Json.bare_object (by simp)).refs

theorem refsIn_bridgeMethod (name : Bytes) (hp : params.RefsIn ok) (structure_ : String)
    (hr : desc.RefsIn ok) (he : errors.RefsIn ok) :
    (bridgeMethod name params structure_ desc errors).RefsIn ok := by
  have hbase : (Json.object [
      (str "name", .str name), (str "params", params), (str "paramStructure", text structure_),
      (str "result", desc), (str "errors", errors), (str "tags", .arr [tag (str "bridge")]),
      (str "x-logos-bridge-op", .bool true)]).Bare ok :=
    Json.bare_object (by simp [hp, hr, he, refsIn_tag])
  unfold bridgeMethod
  dsimp only
  split
  · exact ((hbase.set (by simp) (Json.refsIn_str _)).set (by simp) (Json.refsIn_str _)).refs
  · exact hbase.refs

/-- The bridge's own methods refer to errors only. -/
theorem refsIn_bridgeMethods (h : ∀ e ∈ errorCatalog, ok (kErrorsPrefix ++ e.key)) :
    ∀ m ∈ bridgeMethods, m.RefsIn ok := by
  simp only [bridgeMethods, List.forall_mem_cons, List.not_mem_nil, false_imp_iff, implies_true,
    and_true]
  refine ⟨?call, ?subscribe, ?unsubscribe, ?schema, ?list, ?ping, ?cancel, ?discover⟩
  case call =>
    exact refsIn_bridgeMethod _ (Json.refsIn_of_noRefs (by decide)) _ (Json.refsIn_of_noRefs (by decide)) (refsIn_allErrorRefs h)
  all_goals
    exact refsIn_bridgeMethod _ (Json.refsIn_of_noRefs (by decide)) _ (Json.refsIn_of_noRefs (by decide)) (refsIn_errorRefs h _)

/-- The result and the parameters of a method refer to its scope, typed or not. -/
theorem refsIn_methodBody {e : MethodEntry} (hc : Components ok e.scope) {m : Json} (hm : m.Bare ok) :
    (methodBody e m).1.Bare ok ∧ ∀ p ∈ (methodBody e m).2.1, p.RefsIn ok := by
  unfold methodBody
  split
  · rename_i decl hdecl
    have hresult := hm.set (k := str "result") (by simp)
      (refsIn_result (str "result") (refsIn_methodResultSchema hc .draft07 decl))
    refine ⟨?_, ?_⟩
    · exact Bare.setIf hresult (by simp) (Json.refsIn_bool _)
    · intro p hp
      obtain ⟨i, hi, rfl⟩ := List.mem_mapIdx.mp hp
      exact refsIn_param _ (refsIn_slotSchema hc .draft07 _) _
  · have hempty : (Json.object []).RefsIn ok := (Json.bare_object (by simp)).refs
    have hresult := hm.set (k := str "result") (by simp) (refsIn_result (str "result") hempty)
    refine ⟨hresult.set (by simp) (Json.refsIn_bool _), ?_⟩
    intro p hp
    obtain ⟨n, -, rfl⟩ := List.mem_map.mp hp
    exact (Json.bare_object (by simp [hempty])).refs

theorem refsIn_moduleMethod (h : ∀ e ∈ errorCatalog, ok (kErrorsPrefix ++ e.key)) {e : MethodEntry}
    (hc : Components ok e.scope) : (moduleMethod e).RefsIn ok := by
  have hname : (Json.object [(str "name", .str (qualified (safe e.module.name) e.method))]).Bare ok :=
    Json.bare_object (by simp)
  have htags : (Json.arr [tag (safe e.module.name)]).RefsIn ok := by simp [refsIn_tag]
  obtain ⟨hm, hparams⟩ := refsIn_methodBody hc
    ((bare_addText hname (methodText e)).set (k := str "tags") (by simp) htags)
  exact (((((hm.set (by simp) (Json.refsIn_arr_iff.mpr hparams)).set (by simp)
    (Json.refsIn_str _)).set (by simp) (refsIn_allErrorRefs h)).set (by simp)
    (Json.refsIn_str _)).set (by simp) (Json.refsIn_str _)).refs

theorem refsIn_eventDescriptor {e : EventEntry} (hc : Components ok e.scope) :
    (eventDescriptor e).RefsIn ok := by
  have hbase : (Json.object [
      (str "name", .str (qualified (safe e.module.name) e.event)),
      (str "module", .str (safe e.module.name)), (str "event", .str (safe e.event)),
      (str "subscribe", text "rpc.subscribe"), (str "notification", text "rpc.event")]).Bare ok :=
    Json.bare_object (by simp)
  have htext := bare_addText hbase (eventText e)
  unfold eventDescriptor
  dsimp only
  split
  · rename_i decl _
    exact ((htext.set (by simp) (refsIn_namesJson _)).set (by simp)
      (bare_paramsTuple hc .draft07 decl).refs).refs
  · exact ((htext.set (by simp) (Json.bare_object (by simp)).refs).set (by simp)
      (Json.refsIn_bool _)).refs

theorem refsIn_servers : (openRpcServers ctx).RefsIn ok := by
  apply Json.refsIn_arr_iff.mpr
  simp only [List.forall_mem_cons, List.not_mem_nil, false_imp_iff, implies_true, and_true]
  exact ⟨(Json.bare_object (by simp)).refs, (Json.bare_object (by simp)).refs⟩

end OpenRpc

/-- **The OpenRPC document.** -/
theorem refsResolve_buildOpenRpc {ctx : DocContext} (h : ∀ m ∈ ctx.modules, Named m) :
    RefsResolve (buildOpenRpc ctx) := by
  have hinfo : (Json.object [(str "title", .str (safe ctx.title)),
      (str "version", .str (safe ctx.bridgeVersion)),
      (str "description", .str OpenRpc.kInfoDescription)]).RefsIn (Resolves (buildOpenRpc ctx)) :=
    (Json.bare_object (by simp)).refs
  -- the methods are those of the bridge and one for each entry
  have hmethods : ∀ x ∈ OpenRpc.bridgeMethods ++ (methodEntries ctx).map OpenRpc.moduleMethod,
      x.RefsIn (Resolves (buildOpenRpc ctx)) := by
    intro x hx
    rcases List.mem_append.mp hx with hx | hx
    · exact OpenRpc.refsIn_bridgeMethods OpenRpc.errors_resolve x hx
    · obtain ⟨e, he, rfl⟩ := List.mem_map.mp hx
      obtain ⟨m, hm, hscope⟩ := scope_of_method he
      exact OpenRpc.refsIn_moduleMethod OpenRpc.errors_resolve
        (hscope ▸ OpenRpc.components_scope hm)
  have hschemas : (openRpcSchemas ctx).Bare (Resolves (buildOpenRpc ctx)) := by
    refine bare_records (fun m hm => ?_) (fun m hm => (h m (List.mem_filter.mp hm).1).fields)
      (Json.bare_of_noRefs (by decide))
    have hscope := OpenRpc.components_scope (List.mem_filter.mp hm).1
    rwa [moduleScope, if_pos (List.mem_filter.mp hm).2] at hscope
  have hcomponents : (OpenRpc.components ctx).RefsIn (Resolves (buildOpenRpc ctx)) := by
    have herrors : OpenRpc.errorComponents.noRefs = true := by decide
    exact (Json.bare_object (by simp [hschemas.refs, (Json.bare_of_noRefs herrors).refs])).refs
  have hevents : ∀ x ∈ (eventEntries ctx).map OpenRpc.eventDescriptor,
      x.RefsIn (Resolves (buildOpenRpc ctx)) := by
    intro x hx
    obtain ⟨e, he, rfl⟩ := List.mem_map.mp hx
    obtain ⟨m, hm, hscope⟩ := scope_of_event he
    exact OpenRpc.refsIn_eventDescriptor (hscope ▸ OpenRpc.components_scope hm)
  have hmethods' := Json.refsIn_arr_iff.mpr hmethods
  have hevents' := Json.refsIn_arr_iff.mpr hevents
  -- from here on only `ok` is known of what resolves
  unfold RefsResolve
  generalize Resolves (buildOpenRpc ctx) = ok at *
  unfold buildOpenRpc
  refine (Json.bare_object ?_).refs
  simp only [List.forall_mem_cons, List.not_mem_nil, false_imp_iff, implies_true, and_true]
  exact ⟨⟨by simp, by simp⟩, ⟨by simp, hinfo⟩, ⟨by simp, OpenRpc.refsIn_servers⟩,
    ⟨by simp, hmethods'⟩, ⟨by simp, hcomponents⟩, ⟨by simp, hevents'⟩,
    ⟨by simp, refsIn_xLogosModules ctx⟩⟩

/-! ## OpenAPI

Responses and request bodies are components of their own here, next to the schemas. Two methods
may share a path when their names do; the later one then takes its place, which is why the paths
carry an invariant (`Paths`) through the fold. -/

namespace OpenApi

variable {ok : Bytes → Prop} {ctx : DocContext} {schema decl : Json}

def components (ctx : DocContext) : Json :=
  Json.object [(str "schemas", openApiSchemas ctx), (str "responses", responseComponents),
    (str "requestBodies", requestBodyComponents)]

theorem find?_components : (buildOpenApi ctx).find? (str "components") = some (components ctx) := rfl

theorem find?_schemas : (components ctx).find? (str "schemas") = some (openApiSchemas ctx) := rfl

theorem find?_responses : (components ctx).find? (str "responses") = some responseComponents := rfl

theorem find?_requestBodies :
    (components ctx).find? (str "requestBodies") = some requestBodyComponents := rfl

/-- What the emitters of this document refer to, besides the schemas of a scope. -/
structure Targets (ok : Bytes → Prop) : Prop where
  schemas : ∀ name ∈ [str "JsonRpcId", str "JsonRpcError", str "JsonRpcErrorResponse",
    str "ErrorBody", str "ProviderRejection"], Defined ok name
  responses : ∀ name ∈ ["Unauthorized", "Forbidden", "LengthRequired", "UnsupportedMediaType",
    "UntypedCallResult"], ok (str "#/components/responses/" ++ str name)
  requestBodies : ∀ name ∈ ["NoParams", "UntypedParams"],
    ok (str "#/components/requestBodies/" ++ str name)

theorem defined_shared {name : Bytes} (h : schemaComponents.contains (componentKey name) = true) :
    Defined (Resolves (buildOpenApi ctx)) name :=
  defined_of_contains find?_components find?_schemas (contains_records rfl (Or.inl h))

/-- The names are those of the component tables, which decides each case. -/
theorem targets (ctx : DocContext) : Targets (Resolves (buildOpenApi ctx)) := by
  refine ⟨?_, ?_, ?_⟩
  · have hnames : ∀ name ∈ [str "JsonRpcId", str "JsonRpcError", str "JsonRpcErrorResponse",
        str "ErrorBody", str "ProviderRejection"],
        schemaComponents.contains (componentKey name) = true := by decide
    exact fun name hname => defined_shared (hnames name hname)
  · have hnames : ∀ name ∈ ["Unauthorized", "Forbidden", "LengthRequired", "UnsupportedMediaType",
        "UntypedCallResult"], responseComponents.contains (str name) = true ∧
        ∀ c ∈ str name, plainByte c = true := by decide
    have hspelling : str "#/components/responses/" =
        str "#/components/" ++ str "responses" ++ str "/" := by decide
    intro name hname
    rw [hspelling]
    exact resolves_component find?_components find?_responses (hnames name hname).1 (by decide)
      (hnames name hname).2
  · have hnames : ∀ name ∈ ["NoParams", "UntypedParams"],
        requestBodyComponents.contains (str name) = true ∧ ∀ c ∈ str name, plainByte c = true := by
      decide
    have hspelling : str "#/components/requestBodies/" =
        str "#/components/" ++ str "requestBodies" ++ str "/" := by decide
    intro name hname
    rw [hspelling]
    exact resolves_component find?_components find?_requestBodies (hnames name hname).1 (by decide)
      (hnames name hname).2

theorem components_scope {m : ModuleDoc} (hm : m ∈ ctx.modules) :
    Components (Resolves (buildOpenApi ctx)) (moduleScope m) := by
  refine components_moduleScope (defined_shared (by decide)) (defined_shared (by decide))
    (defined_shared (by decide)) ?_ hm
  intro m hm name hname
  exact defined_record find?_components find?_schemas
    (contains_records rfl (Or.inr ⟨m, hm, name, hname, rfl⟩))

theorem refsIn_jsonContent (h : schema.RefsIn ok) : (jsonContent schema).RefsIn ok := by
  have hinner : (Json.object [(str "schema", schema)]).RefsIn ok :=
    (Json.bare_object (by simp [h])).refs
  exact (Json.bare_object (by simp [kJson, hinner])).refs

theorem bare_gateResponses (ht : Targets ok) (post : Bool) : (gateResponses post).Bare ok := by
  have href : ∀ name ∈ ["Unauthorized", "Forbidden", "LengthRequired", "UnsupportedMediaType",
      "UntypedCallResult"], (responseRef name).RefsIn ok :=
    fun name hname => Json.refsIn_ref (ht.responses name hname)
  have hbase : (Json.object [(str "401", responseRef "Unauthorized"),
      (str "403", responseRef "Forbidden")]).Bare ok := Json.bare_object (by simp [href])
  unfold gateResponses
  dsimp only
  split
  · exact (hbase.set (by simp) (href _ (by simp))).set (by simp) (href _ (by simp))
  · exact hbase

/-- What a call answers with: the result, a rejection or the error body. -/
theorem refsIn_callResponse (ht : Targets ok) (h : schema.RefsIn ok) :
    (callResponse schema).RefsIn ok := by
  have herror : (schemaRef (str "ErrorBody")).RefsIn ok :=
    refsIn_schemaRef (ht.schemas _ (by simp))
  have henvelope : (schemaRef (str "JsonRpcErrorResponse")).RefsIn ok :=
    refsIn_schemaRef (ht.schemas _ (by simp))
  have hresult : (Json.object [(str "result", schema)]).RefsIn ok :=
    (Json.bare_object (by simp [h])).refs
  have hobject : (Json.object [(str "type", text "object"),
      (str "properties", Json.object [(str "result", schema)]),
      (str "required", texts ["result"]), (str "additionalProperties", .bool false)]).RefsIn ok :=
    (Json.bare_object (by simp [hresult])).refs
  have hone : (Json.object [(str "oneOf", .arr [Json.object [(str "type", text "object"),
      (str "properties", Json.object [(str "result", schema)]),
      (str "required", texts ["result"]), (str "additionalProperties", .bool false)],
      schemaRef (str "ErrorBody"), schemaRef (str "JsonRpcErrorResponse")])]).RefsIn ok :=
    (Json.bare_object (by simp [hobject, herror, henvelope])).refs
  refine (Json.bare_object ?_).refs
  simp only [List.forall_mem_cons, List.not_mem_nil, false_imp_iff, implies_true, and_true]
  exact ⟨⟨by simp, refsIn_text _⟩, ⟨by simp, refsIn_jsonContent hone⟩⟩

theorem refsIn_paramsBody {scope : TypeScope} (hc : Components ok scope) (h : ParamsNamed decl) :
    (paramsBody decl scope).RefsIn ok := by
  have hone : (Json.object [(str "oneOf", .arr [paramsObject decl scope .draft2020_12,
      paramsTuple decl scope .draft2020_12])]).RefsIn ok :=
    (Json.bare_object (by
      simp [(bare_paramsObject hc .draft2020_12 h).refs,
        (bare_paramsTuple hc .draft2020_12 decl).refs])).refs
  refine (Json.bare_object ?_).refs
  simp only [List.forall_mem_cons, List.not_mem_nil, false_imp_iff, implies_true, and_true]
  exact ⟨⟨by simp, Json.refsIn_str _⟩, ⟨by simp, Json.refsIn_bool _⟩,
    ⟨by simp, refsIn_jsonContent hone⟩⟩

/-- One operation of a module. -/
theorem refsIn_moduleOperation (ht : Targets ok) {e : MethodEntry} (hc : Components ok e.scope)
    (h : ∀ decl, e.decl = some decl → ParamsNamed decl) : (moduleOperation e).RefsIn ok := by
  have hbase : (Json.object [(str "operationId", .str (qualified (safe e.module.name) e.method)),
      (str "tags", .arr [.str (safe e.module.name)])]).Bare ok := Json.bare_object (by simp)
  have hop := bare_addText hbase (methodText e)
  have hgate := bare_gateResponses ht true
  have hbody : ∀ name ∈ ["NoParams", "UntypedParams"], (requestBodyRef name).RefsIn ok :=
    fun name hname => Json.refsIn_ref (ht.requestBodies name hname)
  unfold moduleOperation
  dsimp only
  split
  -- an untyped method: the shared response and the shared body
  · have hresponses := hgate.set (k := str "200") (by simp)
      (Json.refsIn_ref (ht.responses "UntypedCallResult" (by simp)))
    refine (((Json.Bare.set ?_ (by simp) hresponses.refs).set (by simp) (Json.refsIn_str _)).set
      (by simp) (Json.refsIn_str _)).refs
    exact (hop.set (by simp) (hbody _ (by simp))).set (by simp) (Json.refsIn_bool _)
  -- a typed one: the result and the parameters of its declaration
  · rename_i decl hdecl
    have hresponses := hgate.set (k := str "200") (by simp)
      (refsIn_callResponse ht (refsIn_methodResultSchema hc .draft2020_12 decl))
    refine (((Json.Bare.set ?_ (by simp) hresponses.refs).set (by simp) (Json.refsIn_str _)).set
      (by simp) (Json.refsIn_str _)).refs
    refine Bare.setIf (hop.set (by simp) ?_) (by simp) (Json.refsIn_bool _)
    split
    · exact hbody _ (by simp)
    · exact refsIn_paramsBody hc (h decl hdecl)

theorem bare_getOperation (ht : Targets ok) (id summary description : String)
    (h : schema.RefsIn ok) (okDescription : String) :
    (getOperation id summary description schema okDescription).Bare ok := by
  have hok : (Json.object [(str "description", text okDescription),
      (str "content", jsonContent schema)]).RefsIn ok :=
    (Json.bare_object (by simp [refsIn_jsonContent h])).refs
  have hresponses := (bare_gateResponses ht false).set (k := str "200") (by simp) hok
  exact Json.bare_object (by simp [hresponses.refs])

theorem refsIn_getModule (ht : Targets ok) : getModule.RefsIn ok := by
  have hone := bare_getOperation ht "getModule" "Describe one exposed module."
    ("The rpc.schema view: interface_status, the complete LIDL contract as `interface` when ok, " ++
      "this bridge's exposure, the digests and the live report.")
    (Json.refsIn_of_noRefs (j := moduleViewSchema true) (by decide)) "The module view."
  have hparameters : (Json.arr [Json.object [(str "name", text "module"), (str "in", text "path"),
      (str "required", .bool true), (str "schema", typeIs "string")]]).noRefs = true := by decide
  have hmissing : notFoundResponse.RefsIn ok := by
    have herror : (schemaRef (str "JsonRpcError")).RefsIn ok :=
      refsIn_schemaRef (ht.schemas _ (by simp))
    exact (Json.bare_object (by simp [refsIn_jsonContent herror])).refs
  have hset := hone.set (k := str "parameters") (by simp) (Json.refsIn_of_noRefs hparameters)
  -- the responses are those of `getOperation`, which hold no reference themselves
  have hok : (Json.object [(str "description", text "The module view."),
      (str "content", jsonContent (moduleViewSchema true))]).noRefs = true := by decide
  have hresponses := (bare_gateResponses ht false).set (k := str "200") (by simp) (Json.refsIn_of_noRefs hok)
  exact (hset.set (by simp) (hresponses.set (by simp) hmissing).refs).refs

theorem refsIn_jsonRpcErrorResponseSchema (ht : Targets ok) :
    jsonRpcErrorResponseSchema.RefsIn ok := by
  have hid : (schemaRef (str "JsonRpcId")).RefsIn ok := refsIn_schemaRef (ht.schemas _ (by simp))
  have herror : (schemaRef (str "JsonRpcError")).RefsIn ok :=
    refsIn_schemaRef (ht.schemas _ (by simp))
  have hversion : (Json.object [(str "const", text "2.0")]).RefsIn ok :=
    (Json.bare_object (by simp)).refs
  have hproperties : (Json.object [(str "jsonrpc", Json.object [(str "const", text "2.0")]),
      (str "id", schemaRef (str "JsonRpcId")),
      (str "error", schemaRef (str "JsonRpcError"))]).RefsIn ok :=
    (Json.bare_object (by simp [hid, herror, hversion])).refs
  exact (Json.bare_object (by simp [hproperties])).refs

theorem refsIn_batchOf {item : Json} (h : item.RefsIn ok) : (batchOf item).RefsIn ok := by
  have harray : (Json.object [(str "type", text "array"), (str "minItems", .int 1),
      (str "items", item)]).RefsIn ok := (Json.bare_object (by simp [h])).refs
  exact (Json.bare_object (by simp [h, harray])).refs

/-- `POST /rpc`: the envelope of a request and of a response, alone or in a batch. -/
theorem refsIn_postRpc (ht : Targets ok) : postRpc.RefsIn ok := by
  have hid : (schemaRef (str "JsonRpcId")).RefsIn ok := refsIn_schemaRef (ht.schemas _ (by simp))
  have henvelope : (schemaRef (str "JsonRpcErrorResponse")).RefsIn ok :=
    refsIn_schemaRef (ht.schemas _ (by simp))
  have hversion : (Json.object [(str "const", text "2.0")]).RefsIn ok :=
    (Json.bare_object (by simp)).refs
  have hparams : (Json.object [(str "type", texts ["object", "array"])]).RefsIn ok :=
    (Json.bare_object (by simp)).refs
  have hempty : (Json.object []).RefsIn ok := (Json.bare_object (by simp)).refs
  have hrequest : rpcRequest.RefsIn ok := by
    refine (Json.bare_object ?_).refs
    simp only [List.forall_mem_cons, List.not_mem_nil, false_imp_iff, implies_true, and_true]
    refine ⟨⟨by simp, refsIn_text _⟩, ⟨by simp, ?_⟩, ⟨by simp, refsIn_texts _⟩⟩
    exact (Json.bare_object (by simp [hid, hversion, hparams, (bare_typeIs "string").refs])).refs
  have hresponse : rpcResponse.RefsIn ok := by
    have hsuccess : rpcSuccess.RefsIn ok := by
      refine (Json.bare_object ?_).refs
      simp only [List.forall_mem_cons, List.not_mem_nil, false_imp_iff, implies_true, and_true]
      refine ⟨⟨by simp, refsIn_text _⟩, ⟨by simp, ?_⟩, ⟨by simp, refsIn_texts _⟩,
        ⟨by simp, Json.refsIn_bool _⟩⟩
      exact (Json.bare_object (by simp [hid, hversion, hempty])).refs
    exact (Json.bare_object (by simp [hsuccess, henvelope])).refs
  have hbody := refsIn_jsonContent (refsIn_batchOf hrequest)
  have hanswer := refsIn_jsonContent (refsIn_batchOf hresponse)
  have hok : (Json.object [(str "description", text ("The response, or the batch of responses. " ++
      "JSON-RPC failures ride in the body at 200.")),
      (str "content", jsonContent (batchOf rpcResponse))]).RefsIn ok := by
    refine (Json.bare_object ?_).refs
    simp only [List.forall_mem_cons, List.not_mem_nil, false_imp_iff, implies_true, and_true]
    exact ⟨⟨by simp, refsIn_text _⟩, ⟨by simp, hanswer⟩⟩
  have hresponses := (bare_gateResponses ht true).set (k := str "200") (by simp) hok
  have hrequestBody : (Json.object [(str "required", .bool true),
      (str "content", jsonContent (batchOf rpcRequest))]).RefsIn ok :=
    (Json.bare_object (by simp [hbody])).refs
  refine (Json.Bare.set (Json.bare_object ?_) (by simp) hresponses.refs).refs
  simp only [List.forall_mem_cons, List.not_mem_nil, false_imp_iff, implies_true, and_true]
  exact ⟨⟨by simp, refsIn_text _⟩, ⟨by simp, refsIn_texts _⟩, ⟨by simp, refsIn_text _⟩,
    ⟨by simp, refsIn_text _⟩, ⟨by simp, hrequestBody⟩, ⟨by simp, Json.refsIn_bool _⟩⟩

/-- The paths so far: an object of objects, none of them a reference. -/
structure Paths (ok : Bytes → Prop) (paths : Json) : Prop where
  isObject : paths.isObject = true
  bare : paths.Bare ok
  items : ∀ path item, paths.find? path = some item → item.Bare ok

/-- An operation goes into the item of its path, which may be there already. -/
theorem Paths.setOperation {paths operation : Json} {path : Bytes} {verb : String} (h : Paths ok paths)
    (hpath : path ≠ kRef) (hverb : verb ≠ "$ref") (hop : operation.RefsIn ok) :
    Paths ok (setOperation paths path verb operation) := by
  have hitem : (((paths.find? path).getD .null).set (str verb) operation).Bare ok := by
    refine Json.Bare.set ?_ (by simpa using hverb) hop
    cases hfind : paths.find? path with
    | none => exact Json.bare_null
    | some item => exact h.items path item hfind
  refine ⟨Json.isObject_set h.isObject, h.bare.set hpath hitem.refs, ?_⟩
  intro path' item' hfind
  rw [OpenApi.setOperation, Json.find?_set h.isObject] at hfind
  split at hfind
  · cases hfind
    exact hitem
  · exact h.items path' item' hfind

theorem paths_fixedPaths (ht : Targets ok) : Paths ok fixedPaths := by
  have hempty : Paths ok (Json.object []) :=
    ⟨rfl, Json.bare_object (by simp), fun path item h => by cases h⟩
  have hhealth : getHealth.RefsIn ok :=
    (bare_getOperation ht _ _ _ (Json.refsIn_of_noRefs (by decide)) _).refs
  have hlist : listModules.RefsIn ok :=
    (bare_getOperation ht _ _ _ (Json.refsIn_of_noRefs (by decide)) _).refs
  have hopenApi : getOpenApi.RefsIn ok :=
    (bare_getOperation ht _ _ _ (bare_typeIs "object").refs _).refs
  have hasyncApi : getAsyncApi.RefsIn ok :=
    (bare_getOperation ht _ _ _ (bare_typeIs "object").refs _).refs
  exact (((((hempty.setOperation (by simp) (by decide) hhealth).setOperation (by simp) (by decide)
    hlist).setOperation (by simp) (by decide) (refsIn_getModule ht)).setOperation (by simp)
    (by decide) hopenApi).setOperation (by simp) (by decide) hasyncApi).setOperation (by simp)
    (by decide) (refsIn_postRpc ht)

/-- A path starts with a slash. -/
theorem modulePath_ne_ref (e : MethodEntry) : modulePath e ≠ kRef := by
  intro h
  have hhead : (modulePath e).head? = some 0x2F := rfl
  rw [h] at hhead
  revert hhead
  decide

theorem refsIn_moduleTag (m : ModuleDoc) : (moduleTag m).RefsIn ok := by
  have hbase : (Json.object [(str "name", .str (safe m.name))]).Bare ok :=
    Json.bare_object (by simp)
  unfold moduleTag
  dsimp only
  split
  · split
    · exact hbase.refs
    · exact (hbase.set (by simp) (Json.refsIn_str _)).refs
  · split
    · exact hbase.refs
    · exact (hbase.set (by simp) (Json.refsIn_str _)).refs

theorem refsIn_openApiTags (ctx : DocContext) : (openApiTags ctx).RefsIn ok := by
  apply Json.refsIn_arr_iff.mpr
  intro x hx
  rcases List.mem_cons.mp hx with rfl | hx
  · exact (Json.bare_object (by simp)).refs
  · obtain ⟨m, -, rfl⟩ := List.mem_map.mp hx
    exact refsIn_moduleTag m

theorem bare_schemaComponents (ht : Targets ok) : schemaComponents.Bare ok := by
  have herror : (schemaRef (str "JsonRpcError")).RefsIn ok :=
    refsIn_schemaRef (ht.schemas _ (by simp))
  have hbody : errorBodySchema.RefsIn ok := by
    have hproperties : (Json.object [(str "error", schemaRef (str "JsonRpcError"))]).RefsIn ok :=
      (Json.bare_object (by simp [herror])).refs
    refine (Json.bare_object ?_).refs
    simp only [List.forall_mem_cons, List.not_mem_nil, false_imp_iff, implies_true, and_true]
    exact ⟨⟨by simp, refsIn_text _⟩, ⟨by simp, refsIn_text _⟩, ⟨by simp, refsIn_text _⟩,
      ⟨by simp, hproperties⟩, ⟨by simp, refsIn_texts _⟩, ⟨by simp, Json.refsIn_bool _⟩⟩
  refine Json.bare_object ?_
  simp only [List.forall_mem_cons, List.not_mem_nil, false_imp_iff, implies_true, and_true]
  exact ⟨⟨by simp, Json.refsIn_of_noRefs (by decide)⟩, ⟨by simp, Json.refsIn_of_noRefs (by decide)⟩,
    ⟨by simp, Json.refsIn_of_noRefs (by decide)⟩, ⟨by simp, Json.refsIn_of_noRefs (by decide)⟩,
    ⟨by simp, Json.refsIn_of_noRefs (by decide)⟩, ⟨by simp, refsIn_jsonRpcErrorResponseSchema ht⟩,
    ⟨by simp, hbody⟩⟩

theorem refsIn_responseComponents (ht : Targets ok) : responseComponents.RefsIn ok := by
  have hempty : (Json.object []).RefsIn ok := (Json.bare_object (by simp)).refs
  have hpage : ∀ description, (htmlResponse description).RefsIn ok := by
    intro description
    have hcontent : htmlPage.RefsIn ok := Json.refsIn_of_noRefs (by decide)
    exact (Json.bare_object (by simp [hcontent])).refs
  refine (Json.bare_object ?_).refs
  simp only [List.forall_mem_cons, List.not_mem_nil, false_imp_iff, implies_true, and_true]
  exact ⟨⟨by simp, hpage _⟩, ⟨by simp, hpage _⟩, ⟨by simp, hpage _⟩, ⟨by simp, hpage _⟩,
    ⟨by simp, refsIn_callResponse ht hempty⟩⟩

end OpenApi

/-- **The OpenAPI document.** -/
theorem refsResolve_buildOpenApi {ctx : DocContext} (h : ∀ m ∈ ctx.modules, Named m) :
    RefsResolve (buildOpenApi ctx) := by
  have ht := OpenApi.targets ctx
  have hinfo : (Json.object [(str "title", .str (safe ctx.title)),
      (str "version", .str (safe ctx.bridgeVersion)),
      (str "description", .str OpenApi.kInfoDescription)]).RefsIn (Resolves (buildOpenApi ctx)) :=
    (Json.bare_object (by simp)).refs
  have hserver : (Json.object [(str "url", .str (httpOrigin ctx)),
      (str "description", text "Loopback only.")]).RefsIn (Resolves (buildOpenApi ctx)) :=
    (Json.bare_object (by simp)).refs
  -- the fixed paths, then one operation for each entry
  have hpaths : OpenApi.Paths (Resolves (buildOpenApi ctx)) (openApiPaths ctx) := by
    refine List.foldlRecOn _ _ (OpenApi.paths_fixedPaths ht) fun paths hpaths e he => ?_
    obtain ⟨m, hm, hscope⟩ := scope_of_method he
    exact hpaths.setOperation (OpenApi.modulePath_ne_ref e) (by decide)
      (OpenApi.refsIn_moduleOperation ht (hscope ▸ OpenApi.components_scope hm)
        fun decl => paramsNamed_decl h he)
  have hschemas : (openApiSchemas ctx).Bare (Resolves (buildOpenApi ctx)) := by
    refine bare_records (fun m hm => ?_) (fun m hm => (h m (List.mem_filter.mp hm).1).fields)
      (OpenApi.bare_schemaComponents ht)
    have hscope := OpenApi.components_scope (List.mem_filter.mp hm).1
    rwa [moduleScope, if_pos (List.mem_filter.mp hm).2] at hscope
  have hbodies : OpenApi.requestBodyComponents.noRefs = true := by decide
  have hcomponents : (OpenApi.components ctx).RefsIn (Resolves (buildOpenApi ctx)) :=
    (Json.bare_object (by simp [hschemas.refs, OpenApi.refsIn_responseComponents ht,
      Json.refsIn_of_noRefs hbodies])).refs
  unfold RefsResolve
  generalize Resolves (buildOpenApi ctx) = ok at *
  unfold buildOpenApi
  refine (Json.bare_object ?_).refs
  simp only [List.forall_mem_cons, List.not_mem_nil, false_imp_iff, implies_true, and_true]
  exact ⟨⟨by simp, by simp⟩, ⟨by simp, by simp⟩, ⟨by simp, hinfo⟩, ⟨by simp, by simp [hserver]⟩,
    ⟨by simp, OpenApi.refsIn_openApiTags ctx⟩, ⟨by simp, hpaths.bare.refs⟩, ⟨by simp, hcomponents⟩,
    ⟨by simp, refsIn_xLogosModules ctx⟩⟩

end JsonRpcBridge.Docs
