import JsonRpcBridge.Docs.Common

/-!
# The OpenRPC document

`doc_openrpc.h`: what `rpc.discover` answers, a pure function of the document context.

`clean_buildOpenRpc`: the document is clean when every module's interface is.

The document lists the methods of the bridge, then one method for each exposed one, and beside them
the events, which OpenRPC has no place for. The errors form a catalogue under `components`, which
every method refers to.
-/

namespace JsonRpcBridge.Docs

def kOpenRpcVersion : Bytes := str "1.3.2"
def kErrorsPrefix : Bytes := str "#/components/errors/"

namespace OpenRpc

/-! ## Errors

The catalogue is that of the dispatcher, keyed by its stable names. A method of the bridge names
the errors it can answer with; a method of a module may answer with any. -/

/-- `components.errors`: the catalog, keyed by its stable names. -/
def errorComponents : Json :=
  errorCatalog.foldl (fun out e => out.set e.key e.error.toJson) (Json.object [])

def errorRef (e : CatalogError) : Json := Json.object [(str "$ref", .str (kErrorsPrefix ++ e.key))]

/-- References to the catalog entries for these codes, in catalog order. -/
def errorRefs (codes : List Int) : Json :=
  .arr ((errorCatalog.filter fun e => codes.contains e.error.jsonRpcCode).map errorRef)

def allErrorRefs : Json := .arr (errorCatalog.map errorRef)

/-! ## Methods of the bridge

The table of operations once more, now with parameters and results. The texts are those of
`bridgeOps`; what is added here is the shape. -/

/-- A content descriptor for one parameter. -/
def param (name : Bytes) (schema : Json) (required : Bool) (description : Bytes := []) : Json :=
  let p := Json.object [(str "name", .str name), (str "schema", schema),
    (str "required", .bool required)]
  if description.isEmpty then p else p.set (str "description") (.str description)

/-- A content descriptor for the result. -/
def result (name : Bytes) (schema : Json) : Json :=
  Json.object [(str "name", .str name), (str "schema", schema)]

def stringSchema : Json := typeIs "string"

/-- A tag. -/
def tag (name : Bytes) : Json := Json.object [(str "name", .str name)]

/-- A method under `rpc.`, with the texts of its operation. -/
def bridgeMethod (name : Bytes) (params : Json) (structure_ : String) (resultDesc errors : Json) :
    Json :=
  let m := Json.object [
    (str "name", .str name),
    (str "params", params),
    (str "paramStructure", text structure_),
    (str "result", resultDesc),
    (str "errors", errors),
    (str "tags", .arr [tag (str "bridge")]),
    (str "x-logos-bridge-op", .bool true)]
  match bridgeOp name with
  | some op => (m.set (str "summary") (.str op.summary)).set (str "description") (.str op.description)
  | none => m

/-- `{"const": …}`. -/
def constIs (value : Json) : Json := Json.object [(str "const", value)]

/-- A closed object: its properties, and which of them are required. -/
def closedObject (properties required : Json) : Json :=
  Json.object [(str "type", text "object"), (str "properties", properties),
    (str "required", required), (str "additionalProperties", .bool false)]

/-! ### Answers of the bridge -/

def subscribeAckSchema : Json :=
  closedObject (Json.object [
      (str "subscription", subscriptionIdSchema),
      (str "operation", constIs (text "subscribe")),
      (str "module", stringSchema),
      (str "event", stringSchema),
      (str "state", Json.object [
        (str "type", text "string"),
        (str "enum", texts ["registered", "active"]),
        (str "description", text ("registered: held, arms when the provider appears; " ++
          "active: this id was already subscribed."))])])
    (texts ["subscription", "operation", "module", "event", "state"])

def unsubscribeAckSchema : Json :=
  closedObject (Json.object [
      (str "subscription", subscriptionIdSchema),
      (str "operation", constIs (text "unsubscribe"))])
    (texts ["subscription", "operation"])

def cancelAnswerSchema : Json :=
  closedObject (Json.object [
      (str "cancelled", constIs (.bool false)),
      (str "reason", constIs (text "not_supported_upstream"))])
    (texts ["cancelled", "reason"])

/-- The errors any operation may answer with. -/
def small : List Int := [kParseError, kInvalidRequest, kShuttingDown, kOverloaded]

/-- The methods of the bridge, in the order of the table. -/
def bridgeMethods : List Json := [
  bridgeMethod (str "rpc.call")
    (.arr [param (str "module") stringSchema true, param (str "method") stringSchema true,
      param (str "params") (Json.object [(str "type", texts ["object", "array"])]) false
        (str "By name (object) or by position (array); absent means [].")])
    "by-name"
    (result (str "result") (describe (Json.object [])
      (str ("The method's return value (see the <module>.<method> methods for typed results), " ++
        "or a ProviderRejection."))))
    allErrorRefs,
  bridgeMethod (str "rpc.subscribe")
    (.arr [param (str "subscription") subscriptionIdSchema true,
      param (str "module") stringSchema true, param (str "event") stringSchema true])
    "by-name" (result (str "subscribed") subscribeAckSchema)
    (errorRefs [kParseError, kInvalidRequest, kMethodNotFound, kInvalidParams, kShuttingDown,
      kOverloaded]),
  bridgeMethod (str "rpc.unsubscribe")
    (.arr [param (str "subscription") subscriptionIdSchema true])
    "by-name" (result (str "unsubscribed") unsubscribeAckSchema)
    (errorRefs [kParseError, kInvalidRequest, kInvalidParams, kShuttingDown, kOverloaded]),
  bridgeMethod (str "rpc.schema") (.arr [param (str "module") stringSchema true]) "by-name"
    (result (str "view") (moduleViewSchema true))
    (errorRefs [kParseError, kInvalidRequest, kMethodNotFound, kInvalidParams, kShuttingDown,
      kOverloaded]),
  bridgeMethod (str "rpc.list_modules") (.arr []) "either"
    (result (str "views") (Json.object [(str "type", text "array"),
      (str "items", moduleViewSchema false)]))
    (errorRefs small),
  bridgeMethod (str "rpc.ping") (.arr []) "either" (result (str "pong") (constIs (text "pong")))
    (errorRefs small),
  bridgeMethod (str "rpc.cancel")
    (.arr [param (str "id") jsonRpcIdSchema false (str "The id of the request to cancel.")])
    "by-name" (result (str "cancellation") cancelAnswerSchema) (errorRefs small),
  bridgeMethod (str "rpc.discover") (.arr []) "either"
    (result (str "OpenRPC Schema") (Json.object [(str "type", text "object"),
      (str "description", text ("An OpenRPC 1.3.2 document: this one. Its meta-schema is " ++
        "https://meta.open-rpc.org/."))]))
    (errorRefs small)]

/-! ## Methods and events of modules

Both start from an entry. A typed method lists its parameters with their schemas and may be
called either way; of one known by name only the parameter names are listed, and where a slot has
no name it can only be called by position. -/

/-- A parameter without a name is called after its position. -/
def paramName (p : Json) (index : Nat) : Bytes :=
  let name := safe (strField p (str "name"))
  if name.isEmpty then argName index else name

/-- What only a typed or only a names-only method has; with it its params, and how they are given.
-/
def methodBody (e : MethodEntry) (m : Json) : Json × List Json × Bytes :=
  match e.decl with
  | some decl =>
    let params := (paramsOf decl).mapIdx fun i p =>
      param (paramName p i) (slotSchema p e.scope .draft07) (!slotIsOptional p)
    let m := m.set (str "result") (result (str "result") (methodResultSchema decl e.scope .draft07))
    (if boolField decl (str "derived") then m.set (str "x-logos-derived") (.bool true) else m,
      params, str "either")
  | none =>
    let params := (liveParamNames e).map fun name =>
      Json.object [(str "name", .str name), (str "schema", Json.object [])]
    let m := m.set (str "result") (result (str "result") (Json.object []))
    (m.set (str "x-logos-untyped") (.bool true), params,
      if allNamed e then str "either" else str "by-position")

/-- The alias of an exposed method. -/
def moduleMethod (e : MethodEntry) : Json :=
  let module := safe e.module.name
  let m := addText (Json.object [(str "name", .str (qualified module e.method))]) (methodText e)
  let (m, params, structure_) := methodBody e (m.set (str "tags") (.arr [tag module]))
  let m := m.set (str "params") (.arr params)
  let m := m.set (str "paramStructure") (.str structure_)
  let m := m.set (str "errors") allErrorRefs
  let m := m.set (str "x-logos-module") (.str module)
  m.set (str "x-logos-method") (.str (safe e.method))

/-- An event, with the method that subscribes to it and the notification it comes in. -/
def eventDescriptor (e : EventEntry) : Json :=
  let module := safe e.module.name
  let v := Json.object [
    (str "name", .str (qualified module e.event)),
    (str "module", .str module),
    (str "event", .str (safe e.event)),
    (str "subscribe", text "rpc.subscribe"),
    (str "notification", text "rpc.event")]
  let v := addText v (eventText e)
  match e.decl with
  | some decl =>
    (v.set (str "params") (namesJson (declParamNames decl))).set (str "dataSchema")
      (paramsTuple decl e.scope .draft07)
  | none =>
    (v.set (str "dataSchema") (Json.object [])).set (str "x-logos-untyped") (.bool true)

def kInfoDescription : Bytes :=
  str ("JSON-RPC 2.0 access to Logos modules. The `rpc.*` methods are the bridge's own operations " ++
    "(x-logos-bridge-op). Every exposed module method is listed as `<module>.<method>`, an exact " ++
    "alias for `rpc.call`, typed from the module's canonical LIDL contract when it has one; " ++
    "x-logos-untyped marks names-only modules. A result is the method's value or a " ++
    "ProviderRejection, and bytes travel as `\x7b\"_bytes\": \"<base64url>\"\x7d`. x-logos-events " ++
    "lists the subscribable events, delivered over WebSocket as `rpc.event`; x-logos-modules gives " ++
    "every module's status, digests and exposure. Policy restricts calls, not knowledge: methods " ++
    "cover what this bridge lets you call, while component schemas cover every record in each " ++
    "contract.")

end OpenRpc

/-! ## The document

The methods of the bridge come first, then those of the modules in the order of their entries. -/

/-- The shared components, and the records of every typed module. -/
def openRpcSchemas (ctx : DocContext) : Json :=
  (ctx.modules.filter isTyped).foldl
    (fun schemas m => addRecordComponents schemas m.name m.interface .draft07)
    (Json.object [(str "Bytes", bytesSchema), (str "LogosResult", logosResultSchema),
      (str "ProviderRejection", providerRejectionSchema)])

def openRpcServers (ctx : DocContext) : Json := .arr [
  Json.object [
    (str "name", text "http"),
    (str "url", .str (rpcUrl ctx)),
    (str "description", text ("JSON-RPC 2.0 over HTTP POST with Content-Type: " ++
      "application/json. Events are not delivered over HTTP."))],
  Json.object [
    (str "name", text "ws"),
    (str "url", .str (wsUrl ctx)),
    (str "description", .str (str "JSON-RPC 2.0 over WebSocket, subprotocol " ++
      safe ctx.subprotocol ++ str ": calls, subscriptions and rpc.event notifications."))]]

def buildOpenRpc (ctx : DocContext) : Json :=
  Json.object [
    (str "openrpc", .str kOpenRpcVersion),
    (str "info", Json.object [
      (str "title", .str (safe ctx.title)),
      (str "version", .str (safe ctx.bridgeVersion)),
      (str "description", .str OpenRpc.kInfoDescription)]),
    (str "servers", openRpcServers ctx),
    (str "methods", .arr (OpenRpc.bridgeMethods ++
      (methodEntries ctx).map OpenRpc.moduleMethod)),
    (str "components", Json.object [
      (str "schemas", openRpcSchemas ctx), (str "errors", OpenRpc.errorComponents)]),
    (str "x-logos-events", .arr ((eventEntries ctx).map OpenRpc.eventDescriptor)),
    (str "x-logos-modules", xLogosModules ctx)]

/-! ## The document of clean modules is clean

One lemma for each emitter, from the parts to the whole. The texts of the bridge are constants,
and names from outside have been sanitised. -/

namespace OpenRpc

variable {ctx : DocContext} {schema errors desc params : Json} {name description : Bytes}

theorem clean_errorComponents : errorComponents.Clean := by
  have hfold : ∀ (es : List CatalogError) (out : Json), out.Clean →
      (∀ e ∈ es, Utf8 e.key ∧ Utf8 e.error.message) →
      (es.foldl (fun out e => out.set e.key e.error.toJson) out).Clean := by
    intro es
    induction es with
    | nil => exact fun out hout _ => hout
    | cons e es ih =>
        intro out hout hes
        obtain ⟨hkey, hmessage⟩ := hes e (List.mem_cons_self ..)
        exact ih _ (hout.set hkey (MappedError.clean_toJson hmessage))
          fun x hx => hes x (List.mem_cons_of_mem _ hx)
  exact hfold _ _ (Json.clean_object (by simp)) utf8_errorCatalog

theorem clean_errorRef {e : CatalogError} (h : Utf8 e.key) : (errorRef e).Clean := by
  have hprefix : Utf8 kErrorsPrefix := utf8_str _
  exact Json.clean_object (by simp [utf8_str, hprefix.append h])

theorem clean_errorRefs (codes : List Int) : (errorRefs codes).Clean := by
  apply Json.clean_arr_iff.mpr
  intro x hx
  obtain ⟨e, he, rfl⟩ := List.mem_map.mp hx
  exact clean_errorRef (utf8_errorCatalog e (List.mem_filter.mp he).1).1

theorem clean_allErrorRefs : allErrorRefs.Clean := by
  apply Json.clean_arr_iff.mpr
  intro x hx
  obtain ⟨e, he, rfl⟩ := List.mem_map.mp hx
  exact clean_errorRef (utf8_errorCatalog e he).1

theorem clean_param (hn : Utf8 name) (hs : schema.Clean) (required : Bool) (hd : Utf8 description) :
    (param name schema required description).Clean := by
  have hbase : (Json.object [(str "name", .str name), (str "schema", schema),
      (str "required", .bool required)]).Clean :=
    Json.clean_object (by simp [utf8_str, hn, hs])
  unfold param
  dsimp only
  split
  · exact hbase
  · exact hbase.set (utf8_str _) (Json.clean_str_iff.mpr hd)

theorem clean_result (hn : Utf8 name) (hs : schema.Clean) : (result name schema).Clean :=
  Json.clean_object (by simp [utf8_str, hn, hs])

theorem clean_tag (hn : Utf8 name) : (tag name).Clean :=
  Json.clean_object (by simp [utf8_str, hn])

theorem clean_bridgeMethod (hn : Utf8 name) (hp : params.Clean) (structure_ : String)
    (hr : desc.Clean) (he : errors.Clean) :
    (bridgeMethod name params structure_ desc errors).Clean := by
  have hbase : (Json.object [
      (str "name", .str name), (str "params", params), (str "paramStructure", text structure_),
      (str "result", desc), (str "errors", errors), (str "tags", .arr [tag (str "bridge")]),
      (str "x-logos-bridge-op", .bool true)]).Clean :=
    Json.clean_object (by simp [utf8_str, clean_text, hn, hp, hr, he, clean_tag])
  unfold bridgeMethod
  dsimp only
  split
  · rename_i op hop
    obtain ⟨hsummary, hdescription⟩ := utf8_bridgeOps op (List.mem_of_find?_eq_some hop)
    exact (hbase.set (utf8_str _) (Json.clean_str_iff.mpr hsummary)).set (utf8_str _)
      (Json.clean_str_iff.mpr hdescription)
  · exact hbase

theorem clean_constIs (h : schema.Clean) : (constIs schema).Clean :=
  Json.clean_object (by simp [utf8_str, h])

theorem clean_closedObject {properties required : Json} (hp : properties.Clean)
    (hr : required.Clean) : (closedObject properties required).Clean :=
  Json.clean_object (by simp [utf8_str, clean_text, hp, hr])

theorem clean_bridgeMethods : ∀ m ∈ bridgeMethods, m.Clean := by
  have hstring : stringSchema.Clean := clean_typeIs _
  have hsubscribe : subscribeAckSchema.Clean :=
    clean_closedObject (Json.clean_object (by
      simp [utf8_str, clean_text, clean_texts, clean_subscriptionIdSchema, clean_constIs, hstring,
        Json.clean_object])) (clean_texts _)
  have hunsubscribe : unsubscribeAckSchema.Clean :=
    clean_closedObject (Json.clean_object (by
      simp [utf8_str, clean_text, clean_subscriptionIdSchema, clean_constIs])) (clean_texts _)
  have hcancel : cancelAnswerSchema.Clean :=
    clean_closedObject (Json.clean_object (by simp [utf8_str, clean_text, clean_constIs]))
      (clean_texts _)
  have hempty : (Json.arr []).Clean := by simp
  have hparams : ∀ ps : List Json, (∀ p ∈ ps, p.Clean) → (Json.arr ps).Clean :=
    fun ps h => Json.clean_arr_iff.mpr h
  have hmodule := clean_param (utf8_str "module") hstring true utf8_nil
  have hid := clean_param (utf8_str "subscription") clean_subscriptionIdSchema true utf8_nil
  -- one case for each operation: its parameters and its result
  simp only [bridgeMethods, List.forall_mem_cons, List.not_mem_nil, false_imp_iff, implies_true,
    and_true]
  refine ⟨?call, ?subscribe, ?unsubscribe, ?schema, ?list, ?ping, ?cancel, ?discover⟩
  case call =>
    refine clean_bridgeMethod (utf8_str _) ?_ _ (clean_result (utf8_str _) ?_) clean_allErrorRefs
    · have hmethod := clean_param (utf8_str "method") hstring true utf8_nil
      have htypes : (Json.object [(str "type", texts ["object", "array"])]).Clean :=
        Json.clean_object (by simp [utf8_str, clean_texts])
      have hps := clean_param (utf8_str "params") htypes false
        (utf8_str "By name (object) or by position (array); absent means [].")
      exact hparams _ (by simp [hmodule, hmethod, hps])
    · exact clean_describe (Json.clean_object (by simp)) (utf8_str _)
  case subscribe =>
    have hevent := clean_param (utf8_str "event") hstring true utf8_nil
    exact clean_bridgeMethod (utf8_str _) (hparams _ (by simp [hid, hmodule, hevent])) _
      (clean_result (utf8_str _) hsubscribe) (clean_errorRefs _)
  case unsubscribe =>
    exact clean_bridgeMethod (utf8_str _) (hparams _ (by simp [hid])) _
      (clean_result (utf8_str _) hunsubscribe) (clean_errorRefs _)
  case schema =>
    exact clean_bridgeMethod (utf8_str _) (hparams _ (by simp [hmodule])) _
      (clean_result (utf8_str _) (clean_moduleViewSchema _)) (clean_errorRefs _)
  case list =>
    refine clean_bridgeMethod (utf8_str _) hempty _ (clean_result (utf8_str _) ?_) (clean_errorRefs _)
    exact Json.clean_object (by simp [utf8_str, clean_text, clean_moduleViewSchema])
  case ping =>
    exact clean_bridgeMethod (utf8_str _) hempty _
      (clean_result (utf8_str _) (clean_constIs (clean_text _))) (clean_errorRefs _)
  case cancel =>
    have hcancelled := clean_param (utf8_str "id") clean_jsonRpcIdSchema false
      (utf8_str "The id of the request to cancel.")
    exact clean_bridgeMethod (utf8_str _) (hparams _ (by simp [hcancelled])) _
      (clean_result (utf8_str _) hcancel) (clean_errorRefs _)
  case discover =>
    refine clean_bridgeMethod (utf8_str _) hempty _ (clean_result (utf8_str _) ?_) (clean_errorRefs _)
    exact Json.clean_object (by simp [utf8_str, clean_text])

theorem utf8_paramName (p : Json) (i : Nat) : Utf8 (paramName p i) := by
  unfold paramName
  dsimp only
  split
  · exact utf8_argName i
  · exact utf8_safe _

theorem clean_methodBody {e : MethodEntry} {m : Json} (h : ∀ decl, e.decl = some decl → decl.Clean)
    (hm : m.Clean) : (methodBody e m).1.Clean ∧ (∀ p ∈ (methodBody e m).2.1, p.Clean) ∧
      Utf8 (methodBody e m).2.2 := by
  unfold methodBody
  split
  · rename_i decl hdecl
    have hclean : decl.Clean := h decl hdecl
    have hresult := hm.set (utf8_str "result")
      (clean_result (utf8_str "result") (clean_methodResultSchema e.scope .draft07 hclean))
    refine ⟨?_, ?_, utf8_str _⟩
    · dsimp only
      split
      · exact hresult.set (utf8_str _) (Json.clean_bool _)
      · exact hresult
    · intro p hp
      obtain ⟨i, hi, rfl⟩ := List.mem_mapIdx.mp hp
      have hslot := clean_arrayField_getD hclean (str "params") _ (List.getElem_mem hi)
      exact clean_param (utf8_paramName _ i) (clean_slotSchema e.scope .draft07 hslot) _ utf8_nil
  · have hempty : (Json.object []).Clean := Json.clean_object (by simp)
    have hresult := hm.set (utf8_str "result") (clean_result (utf8_str "result") hempty)
    refine ⟨hresult.set (utf8_str _) (Json.clean_bool _), ?_, ?_⟩
    · intro p hp
      obtain ⟨n, hn, rfl⟩ := List.mem_map.mp hp
      exact Json.clean_object (by simp [utf8_str, utf8_liveParamNames e n hn, hempty])
    · dsimp only
      split <;> exact utf8_str _

theorem clean_moduleMethod (h : ∀ m ∈ ctx.modules, m.Clean) {e : MethodEntry}
    (he : e ∈ methodEntries ctx) : (moduleMethod e).Clean := by
  have hname : (Json.object [(str "name", .str (qualified (safe e.module.name) e.method))]).Clean :=
    Json.clean_object (by simp [utf8_str, utf8_qualified])
  have htags : (Json.arr [tag (safe e.module.name)]).Clean := by
    simp [clean_tag (utf8_safe e.module.name)]
  obtain ⟨hm, hparams, hstructure⟩ := clean_methodBody (fun decl => clean_decl_of_method h he)
    ((clean_addText hname (methodText e)).set (utf8_str "tags") htags)
  exact ((((hm.set (utf8_str _) (Json.clean_arr_iff.mpr hparams)).set (utf8_str _)
    (Json.clean_str_iff.mpr hstructure)).set (utf8_str _) clean_allErrorRefs).set (utf8_str _)
    (Json.clean_str_iff.mpr (utf8_safe _))).set (utf8_str _) (Json.clean_str_iff.mpr (utf8_safe _))

theorem clean_eventDescriptor (h : ∀ m ∈ ctx.modules, m.Clean) {e : EventEntry}
    (he : e ∈ eventEntries ctx) : (eventDescriptor e).Clean := by
  have hbase : (Json.object [
      (str "name", .str (qualified (safe e.module.name) e.event)),
      (str "module", .str (safe e.module.name)), (str "event", .str (safe e.event)),
      (str "subscribe", text "rpc.subscribe"), (str "notification", text "rpc.event")]).Clean :=
    Json.clean_object (by simp [utf8_str, clean_text, utf8_qualified, utf8_safe])
  have htext := clean_addText hbase (eventText e)
  unfold eventDescriptor
  dsimp only
  cases hdecl : e.decl with
  | some decl =>
      have hnames : (namesJson (declParamNames decl)).Clean := by
        apply clean_namesJson
        intro n hn
        obtain ⟨p, -, rfl⟩ := List.mem_map.mp hn
        exact utf8_safe _
      exact (htext.set (utf8_str _) hnames).set (utf8_str _)
        (clean_paramsTuple e.scope .draft07 (clean_decl_of_event h he hdecl))
  | none =>
      exact (htext.set (utf8_str _) (Json.clean_object (by simp))).set (utf8_str _) (Json.clean_bool _)

end OpenRpc

theorem clean_openRpcSchemas {ctx : DocContext} (h : ∀ m ∈ ctx.modules, m.Clean) :
    (openRpcSchemas ctx).Clean := by
  have hfold : ∀ (ms : List ModuleDoc) (schemas : Json), schemas.Clean → (∀ m ∈ ms, m.Clean) →
      (ms.foldl (fun schemas m => addRecordComponents schemas m.name m.interface .draft07)
        schemas).Clean := by
    intro ms
    induction ms with
    | nil => exact fun schemas hs _ => hs
    | cons m ms ih =>
        intro schemas hs hms
        exact ih _ (clean_addRecordComponents m.name .draft07 hs (hms m (List.mem_cons_self ..)))
          fun x hx => hms x (List.mem_cons_of_mem _ hx)
  refine hfold _ _ (Json.clean_object ?_) fun m hm => h m (List.mem_filter.mp hm).1
  simp [utf8_str, clean_bytesSchema, clean_logosResultSchema, clean_providerRejectionSchema]

theorem clean_openRpcServers (ctx : DocContext) : (openRpcServers ctx).Clean := by
  have hdescription : Utf8 (str "JSON-RPC 2.0 over WebSocket, subprotocol " ++
      safe ctx.subprotocol ++ str ": calls, subscriptions and rpc.event notifications.") :=
    ((utf8_str _).append (utf8_safe _)).append (utf8_str _)
  apply Json.clean_arr_iff.mpr
  simp only [List.forall_mem_cons, List.not_mem_nil, false_imp_iff, implies_true, and_true]
  exact ⟨Json.clean_object (by simp [utf8_str, clean_text, utf8_rpcUrl]),
    Json.clean_object (by simpa [utf8_str, clean_text, utf8_wsUrl] using hdescription)⟩

/-- **The document of clean modules is clean**, whatever else the context says. -/
theorem clean_buildOpenRpc {ctx : DocContext} (h : ∀ m ∈ ctx.modules, m.Clean) :
    (buildOpenRpc ctx).Clean := by
  have hinfo : (Json.object [(str "title", .str (safe ctx.title)),
      (str "version", .str (safe ctx.bridgeVersion)),
      (str "description", .str OpenRpc.kInfoDescription)]).Clean := by
    have hdescription : Utf8 OpenRpc.kInfoDescription := utf8_str _
    exact Json.clean_object (by simp [utf8_str, utf8_safe, hdescription])
  have hmethods : (Json.arr (OpenRpc.bridgeMethods ++
      (methodEntries ctx).map OpenRpc.moduleMethod)).Clean := by
    apply Json.clean_arr_iff.mpr
    intro x hx
    rcases List.mem_append.mp hx with hx | hx
    · exact OpenRpc.clean_bridgeMethods x hx
    · obtain ⟨e, he, rfl⟩ := List.mem_map.mp hx
      exact OpenRpc.clean_moduleMethod h he
  have hcomponents : (Json.object [(str "schemas", openRpcSchemas ctx),
      (str "errors", OpenRpc.errorComponents)]).Clean :=
    Json.clean_object (by simp [utf8_str, clean_openRpcSchemas h, OpenRpc.clean_errorComponents])
  have hevents : (Json.arr ((eventEntries ctx).map OpenRpc.eventDescriptor)).Clean := by
    apply Json.clean_arr_iff.mpr
    intro x hx
    obtain ⟨e, he, rfl⟩ := List.mem_map.mp hx
    exact OpenRpc.clean_eventDescriptor h he
  have hversion : Utf8 kOpenRpcVersion := utf8_str _
  exact Json.clean_object (by
    simp [utf8_str, hversion, hinfo, clean_openRpcServers, hmethods, hcomponents, hevents,
      clean_xLogosModules])

end JsonRpcBridge.Docs
