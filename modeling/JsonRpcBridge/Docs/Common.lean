import JsonRpcBridge.Config
import JsonRpcBridge.Docs.Schema
import JsonRpcBridge.Docs.Text
import JsonRpcBridge.ErrorMap
import JsonRpcBridge.Exposure

/-!
# What the documents share

`doc_common.h`: the builders' input, the exposed surface flattened into entries, the bridge's own
operations, and the schemas every document defines.

A `ModuleDoc` is `Clean` when its interface is: everything else a document says of a module is
sanitised on the way in.
-/

namespace JsonRpcBridge.Docs

/-! ## What a builder is given -/

/-- An untyped method: its live name and parameter names. -/
structure LiveMethod where
  name : Bytes
  params : List Bytes

/-- One module as a document shows it. `interface` is the contract itself; the other members are
what discovery and the exposure say of the module. -/
structure ModuleDoc where
  name : Bytes := []
  status : Bytes := []
  /-- ok: the full LIDL JSON AST; else null. -/
  interface : Json := .null
  exposedMethods : List Bytes := []
  exposedEvents : List Bytes := []
  liveMethods : List LiveMethod := []
  interfaceSha256 : Bytes := []
  contractSha256 : Bytes := []
  interfaceError : Bytes := []

/-- What the three builders are given: the addresses and limits of the bridge, and its modules in
configuration order. -/
structure DocContext where
  bridgeVersion : Bytes
  title : Bytes := str "Logos JSON-RPC bridge"
  host : Bytes := str "127.0.0.1"
  port : Nat := 8645
  wsPath : Bytes := str "/ws"
  rpcPath : Bytes := str "/rpc"
  subprotocol : Bytes := str "jsonrpc-bridge.v1"
  limits : Limits := {}
  modules : List ModuleDoc := []

/-- The four statuses of a view; the documents tell them apart. -/
def kStatusPending : Bytes := str "pending"
def kStatusOk : Bytes := str "ok"
def kStatusUntyped : Bytes := str "untyped"
def kStatusInvalid : Bytes := str "invalid"

/-- Typed: operations come from `interface`. -/
def isTyped (m : ModuleDoc) : Bool := m.status == kStatusOk && m.interface.isObject

/-- Names-only operations. An ok view without an interface degrades here too. -/
def isNamesOnly (m : ModuleDoc) : Bool :=
  m.status == kStatusUntyped || m.status == kStatusInvalid ||
    (m.status == kStatusOk && !m.interface.isObject)

/-- Pending modules appear only in `x-logos-modules`. -/
def hasOperations (m : ModuleDoc) : Bool := isTyped m || isNamesOnly m

/-- Everything a builder takes from outside goes through this, so that a document never holds a
string that is not UTF-8. -/
def safe (s : Bytes) : Bytes := utf8Sanitize s

def kLidlBuiltinText : Bytes := str "The module's canonical LIDL interface document."

def kLidlContractNote : Bytes :=
  str ("Returns this module's full canonical LIDL contract: the exact `.lidl` text its build " ++
    "published, never filtered by this bridge's policy.")

def kBuiltinNote : Bytes :=
  str "Built-in: always callable for an exposed module, whatever this bridge's method policy."

/-! ## The exposed surface, flattened

An entry is one exposed member together with what is known about it: its declaration when the
module is typed, or the name and the parameter names that a live report gave. The builders walk
the entries and no longer look at the modules, so that a module lacking a declaration takes the
same path in all three documents. -/

/-- `decl` is there when the method is typed, `live` when a names-only report named it. -/
structure MethodEntry where
  module : ModuleDoc
  method : Bytes
  decl : Option Json := none
  live : Option LiveMethod := none
  scope : TypeScope

/-- An exposed event. A live report says nothing of events beyond their names, so there is no `live`
here. -/
structure EventEntry where
  module : ModuleDoc
  event : Bytes
  decl : Option Json := none
  scope : TypeScope

/-- The first declaration of that name. A contract that declares a name twice shows the first. -/
def findDecl (interface : Json) (list name : Bytes) : Option Json :=
  ((arrayField interface list).getD []).find? fun item => strField item (str "name") == name

/-- Each name once, in order; the empty one never. -/
def distinctNames (names : List Bytes) : List Bytes :=
  names.foldl (fun seen name => if name.isEmpty then seen else addOnce seen name) []

/-- Where the named types of a member are looked up. A names-only module has none. -/
def moduleScope (m : ModuleDoc) : TypeScope :=
  if isTyped m then TypeScope.of m.name m.interface else { module := m.name }

/-- The entry of one exposed method. The live report is only asked where the contract has nothing.
-/
def methodEntry (m : ModuleDoc) (name : Bytes) : MethodEntry :=
  let decl := if isTyped m then findDecl m.interface (str "methods") name else none
  { module := m, method := name, decl, scope := moduleScope m
    live := if decl.isNone then m.liveMethods.find? fun lm => lm.name == name else none }

/-- The entry of one exposed event. -/
def eventEntry (m : ModuleDoc) (name : Bytes) : EventEntry :=
  { module := m, event := name, scope := moduleScope m
    decl := if isTyped m then findDecl m.interface (str "events") name else none }

/-- Exposed methods with an operation: modules in config order, members in exposure order. -/
def methodEntries (ctx : DocContext) : List MethodEntry :=
  (ctx.modules.filter hasOperations).flatMap fun m =>
    (distinctNames m.exposedMethods).map (methodEntry m)

/-- Exposed events with an operation, in the order of `methodEntries`. -/
def eventEntries (ctx : DocContext) : List EventEntry :=
  (ctx.modules.filter hasOperations).flatMap fun m =>
    (distinctNames m.exposedEvents).map (eventEntry m)

/-! ### Texts of an entry

What the contract says of a member, or that nothing is known of it but the name. -/

/-- `module.member`, both sanitised. Two names may come out equal; that is what `Surface` is about.
-/
def qualified (module member : Bytes) : Bytes := safe module ++ str "." ++ safe member

/-- Paragraphs are separated by an empty line, and an empty one is left out. -/
def appendParagraph (text paragraph : Bytes) : Bytes :=
  if paragraph.isEmpty then text
  else if text.isEmpty then paragraph
  else text ++ [0x0A, 0x0A] ++ paragraph

/-- Why a member is names-only. A typed module lacking it means the exposure outran its contract. -/
def untypedNote (m : ModuleDoc) : Bytes :=
  if isTyped m then str "Untyped: this member is not declared in the module's contract."
  else if m.status == kStatusInvalid then
    str ("Untyped: the module's lidl() contract was refused (see interface_error in " ++
      "x-logos-modules), so only names are known.")
  else str "Untyped: the module publishes no lidl() contract, so only names are known."

/-- The raw (Doxygen) text for a method. -/
def methodText (e : MethodEntry) : Bytes :=
  let text := match e.decl with
    | some decl => strField decl (str "description")
    | none => untypedNote e.module
  let text := if e.method == str "lidl" && e.decl.isSome then
    appendParagraph (if text.isEmpty then kLidlBuiltinText else text) kLidlContractNote
    else text
  if isBuiltinMethod e.method then appendParagraph text kBuiltinNote else text

/-- The raw (Doxygen) text for an event. -/
def eventText (e : EventEntry) : Bytes :=
  match e.decl with
  | some decl => strField decl (str "description")
  | none => untypedNote e.module

/-- `arg` and the position of a slot without a name. -/
def argName (i : Nat) : Bytes := str "arg" ++ toStr i

/-- Live parameter names for a names-only method; unnamed slots become `argN`. -/
def liveParamNames (e : MethodEntry) : List Bytes :=
  match e.live with
  | none => []
  | some lm => lm.params.mapIdx fun i p => if (safe p).isEmpty then argName i else safe p

/-- Whether no slot was unnamed. -/
def allNamed (e : MethodEntry) : Bool :=
  match e.live with
  | none => true
  | some lm => lm.params.all fun p => !(safe p).isEmpty

/-- The parameter names of a declaration, sanitised. -/
def declParamNames (decl : Json) : List Bytes :=
  (paramsOf decl).map fun p => safe (strField p (str "name"))

/-- Adds a summary, and a description only when it says more than the summary. -/
def addText (obj : Json) (raw : Bytes) : Json :=
  let s := summary raw
  let d := description raw
  let obj := if s.isEmpty then obj else obj.set (str "summary") (.str s)
  if !d.isEmpty && d != s then obj.set (str "description") (.str d) else obj

/-! ## `x-logos-modules`

Every module is listed here, those without operations too, with its status and what is known to
be wrong with it. Digests are shown with `ok`, the refusal with `invalid`. -/

def safeList (names : List Bytes) : Json := namesJson (names.map safe)

def xLogosModule (m : ModuleDoc) : Json :=
  let v := Json.object [(str "name", .str (safe m.name)), (str "status", .str (safe m.status))]
  let v := if m.status == kStatusOk && !m.interfaceSha256.isEmpty then
    v.set (str "interface_sha256") (.str (safe m.interfaceSha256)) else v
  let v := if m.status == kStatusOk && !m.contractSha256.isEmpty then
    v.set (str "contract_sha256") (.str (safe m.contractSha256)) else v
  let v := if m.status == kStatusInvalid && !m.interfaceError.isEmpty then
    v.set (str "interface_error") (.str (safe m.interfaceError)) else v
  v.set (str "exposure") (Json.object [(str "methods", safeList m.exposedMethods),
    (str "events", safeList m.exposedEvents)])

def xLogosModules (ctx : DocContext) : Json := .arr (ctx.modules.map xLogosModule)

/-! ## Servers

The addresses that a document names. The host is the configured one, bracketed where it is an
IPv6 literal; the port is decimal. -/

/-- An IPv6 literal is bracketed in a URL authority. -/
def urlHost (host : Bytes) : Bytes :=
  let bracketed := host.length ≥ 2 && host.head? == some 0x5B && host.getLast? == some 0x5D
  if !bracketed && host.contains 0x3A then str "[" ++ host ++ str "]" else host

def hostPort (ctx : DocContext) : Bytes := safe (urlHost ctx.host) ++ str ":" ++ toStr ctx.port

def httpOrigin (ctx : DocContext) : Bytes := str "http://" ++ hostPort ctx

def rpcUrl (ctx : DocContext) : Bytes := httpOrigin ctx ++ safe ctx.rpcPath

def wsUrl (ctx : DocContext) : Bytes := str "ws://" ++ hostPort ctx ++ safe ctx.wsPath

/-! ## WebSocket close codes

The codes that a client may see, with the limits that lead to them written into the text. Both
documents that describe the WebSocket endpoint carry the same list. -/

/-- One entry of the list of close codes. -/
def closeCode (code : Nat) (name : String) (description : Bytes) : Json :=
  Json.object [(str "code", .int code), (str "name", text name),
    (str "description", .str description)]

def closeCodes (limits : Limits) : Json := .arr [
  closeCode 1003 "unsupported_data"
    (str "Binary frame refused: the bridge accepts text frames only."),
  closeCode 1006 "abnormal_closure"
    (str ("Bridge stopped: connections are dropped without a close frame. 1006 is what a client " ++
      "reports; it is never sent.")),
  closeCode 1008 "policy_violation"
    (str "Outbound queue overflow: more than max_queued_frames_per_connection (" ++
      toStr limits.maxQueuedFramesPerConnection ++ str (") frames were waiting. A slow reader is " ++
      "closed rather than silently missing events.")),
  closeCode 1009 "message_too_big"
    (str "Inbound message larger than max_frame_bytes (" ++ toStr limits.maxFrameBytes ++
      str " bytes).")]

/-! ## Bridge operations

The methods of the bridge itself, under `rpc.`. Their texts are kept in one table, from which
each builder takes the summary and the description. -/

structure BridgeOpText where
  name : Bytes
  summary : Bytes
  description : Bytes

def bridgeOps : List BridgeOpText := [
  ⟨str "rpc.call",
    str "Call a method on an exposed module.",
    str ("Calls `method` on `module` with `params`: an object (by name) or an array (by " ++
      "position); absent means `[]`. The result is the method's return value, or a " ++
      "ProviderRejection when the provider refused the arguments. An application failure " ++
      "(a LogosResult with success=false) is a successful call. Denied, unexposed and " ++
      "unknown targets all get the same -32601. Every module method below is also " ++
      "callable as `<module>.<method>`, an exact alias for this operation; notifications " ++
      "are refused.")⟩,
  ⟨str "rpc.subscribe",
    str "Subscribe to an exposed module event.",
    str ("Registers the caller-assigned `subscription` id for `event` on `module`. Events " ++
      "arrive as `rpc.event` notifications on the WebSocket connection that subscribed, " ++
      "so this is WebSocket-only in practice: an HTTP request has no channel to deliver " ++
      "them on. The ack says `registered` because the upstream subscription arms when " ++
      "the provider appears; re-subscribing an id this connection already holds answers " ++
      "`active` and never double-delivers. A lost provider ends the subscription with " ++
      "`rpc.subscription_terminated`. See x-logos-events for each event's data.")⟩,
  ⟨str "rpc.unsubscribe",
    str "Drop a subscription.",
    str ("Stops the subscription with this caller-assigned id. Idempotent: an unknown id is " ++
      "acknowledged too.")⟩,
  ⟨str "rpc.schema",
    str "Describe one exposed module.",
    str ("The bridge's view of `module`: interface_status (pending, ok, untyped or " ++
      "invalid), the complete LIDL contract as `interface` when ok, this bridge's " ++
      "`exposure` (what can be called or subscribed to), the interface_sha256 and " ++
      "contract_sha256 digests, and the live report. Policy restricts calls, not " ++
      "knowledge: `interface` is never filtered. Unexposed and unknown modules get " ++
      "-32601.")⟩,
  ⟨str "rpc.list_modules",
    str "Describe every exposed module.",
    str "The same views as rpc.schema, in configuration order, without `interface`."⟩,
  ⟨str "rpc.ping",
    str "Check that the bridge answers.",
    str "Answers \"pong\"."⟩,
  ⟨str "rpc.cancel",
    str "Cancel a request (not supported upstream).",
    str ("The module ABI has no cancel primitive, so this always answers " ++
      "`\x7b\"cancelled\": false, \"reason\": \"not_supported_upstream\"\x7d`. A request " ++
      "is never known to have had no effect.")⟩,
  ⟨str "rpc.discover",
    str "Describe this bridge (this document).",
    str ("Returns the OpenRPC 1.3.2 description of this bridge: its operations, every " ++
      "exposed module method (typed from the module's lidl() contract where it has one), " ++
      "x-logos-events and x-logos-modules.")⟩]

/-- The text of one operation; `none` for a name that is not in the table. -/
def bridgeOp (name : Bytes) : Option BridgeOpText := bridgeOps.find? fun op => name == op.name

/-! ## JSON-RPC shapes

The envelope of JSON-RPC 2.0, written out once per document under `components` and referred to
from everywhere else. -/

/-- An array of string literals. -/
def texts (ss : List String) : Json := .arr (ss.map text)

/-- `{"type": …}`. -/
def typeIs (type : String) : Json := Json.object [(str "type", text type)]

def jsonRpcIdSchema : Json :=
  Json.object [(str "title", text "JsonRpcId"),
    (str "description", text "A JSON-RPC request id; a reply echoes it."),
    (str "type", texts ["string", "number", "null"])]

def subscriptionIdSchema : Json :=
  Json.object [(str "title", text "SubscriptionId"),
    (str "description", text "The caller-assigned subscription id."),
    (str "type", texts ["string", "number"])]

def jsonRpcErrorSchema : Json :=
  Json.object [
    (str "title", text "JsonRpcError"),
    (str "description",
      text "A JSON-RPC 2.0 error object, with the Logos error taxonomy in data."),
    (str "type", text "object"),
    (str "properties", Json.object [
      (str "code", typeIs "integer"),
      (str "message", typeIs "string"),
      (str "data", Json.object [
        (str "type", text "object"),
        (str "properties", Json.object [
          (str "logos_error_code", typeIs "integer"),
          (str "logos_error_name", typeIs "string"),
          (str "invalid_params_detail", Json.object [
            (str "type", text "object"),
            (str "properties", Json.object [
              (str "reason", Json.object [
                (str "type", text "string"),
                (str "description",
                  text "schema-mismatch, malformed-cbor or non-deterministic-cbor.")]),
              (str "path", typeIs "string")]),
            (str "required", texts ["reason"])])]),
        (str "required", texts ["logos_error_code", "logos_error_name"])])]),
    (str "required", texts ["code", "message"])]

def jsonRpcErrorResponseSchema : Json :=
  Json.object [
    (str "title", text "JsonRpcErrorResponse"),
    (str "description", text "A complete JSON-RPC 2.0 error response."),
    (str "type", text "object"),
    (str "properties", Json.object [
      (str "jsonrpc", Json.object [(str "const", text "2.0")]),
      (str "id", schemaRef (str "JsonRpcId")),
      (str "error", schemaRef (str "JsonRpcError"))]),
    (str "required", texts ["jsonrpc", "id", "error"]),
    (str "additionalProperties", .bool false)]

/-! ## Shared schemas, defined once per document and referenced

Shapes that are not of JSON-RPC but of the bridge: the state of a subscription, the generation
and the time of an event, and the view of a module as `rpc.schema` returns it. -/

def noParamsSchema : Json :=
  Json.object [
    (str "title", text "NoParams"),
    (str "description", text "No parameters: an empty object or an empty array."),
    (str "oneOf", .arr [
      Json.object [(str "type", text "object"), (str "maxProperties", .int 0)],
      Json.object [(str "type", text "array"), (str "maxItems", .int 0)]])]

def subscriptionStateSchema : Json :=
  Json.object [
    (str "title", text "SubscriptionState"),
    (str "description", text ("registered: the upstream subscription is held and arms when the " ++
      "provider appears. active: this connection already held the id, so nothing new was " ++
      "registered and nothing is delivered twice.")),
    (str "type", text "string"),
    (str "enum", texts ["registered", "active"])]

def eventGenerationSchema : Json :=
  Json.object [
    (str "title", text "EventGeneration"),
    (str "description", text ("The upstream subscription's incarnation; it grows each time the " ++
      "provider is lost.")),
    (str "type", text "integer"),
    (str "minimum", .int 0)]

def eventTimestampSchema : Json :=
  Json.object [
    (str "title", text "EventTimestamp"),
    (str "description", text "Delivery time, in milliseconds since the Unix epoch."),
    (str "type", text "integer"),
    (str "minimum", .int 0)]

/-- Digests are null until the view has them. -/
def digestSchema : Json :=
  Json.object [(str "type", texts ["string", "null"]), (str "pattern", text "^[0-9a-f]\x7b64\x7d$")]

def namesSchema : Json :=
  Json.object [(str "type", text "array"), (str "items", typeIs "string")]

def moduleViewProperties : Json :=
  Json.object [
    (str "module", typeIs "string"),
    (str "interface_status", Json.object [(str "type", text "string"),
      (str "enum", .arr [.str kStatusPending, .str kStatusOk, .str kStatusUntyped,
        .str kStatusInvalid])]),
    (str "exposure", Json.object [(str "type", text "object"),
      (str "properties", Json.object [(str "methods", namesSchema), (str "events", namesSchema)])]),
    (str "interface_sha256", digestSchema),
    (str "contract_sha256", digestSchema),
    (str "interface_error", typeIs "string"),
    (str "cross_check", Json.object [(str "type", texts ["object", "null"])]),
    (str "source", typeIs "string"),
    (str "authoritative", typeIs "boolean")]

def interfaceProperty : Json :=
  Json.object [(str "type", text "object"),
    (str "description", text ("The complete LIDL JSON AST (as `lidl json --identity` prints it); " ++
      "present only when interface_status is ok."))]

/-- A loose description of `rpc.schema` views; the runtime owns the full shape. -/
def moduleViewSchema (withInterface : Bool) : Json :=
  let properties := if withInterface then
    moduleViewProperties.set (str "interface") interfaceProperty else moduleViewProperties
  Json.object [
    (str "type", text "object"),
    (str "description", text (if withInterface then
      "The bridge's view of one module. Keys not listed here are the live report."
      else "The bridge's view of one module, without `interface`.")),
    (str "properties", properties),
    (str "required", texts ["module"])]

/-! ## What is said of a clean module is clean

The dump of a document throws at a string that is not UTF-8. A builder takes two kinds of text:
literals of its own, and what it has sanitised. The exception is the contract, which is put into
the document as it is, and of which the bridge has checked that it is clean. The lemmas below
follow the definitions above one by one; the builders of the three documents only cite them. -/

/-- Everything but the interface is sanitised by the builders. -/
def ModuleDoc.Clean (m : ModuleDoc) : Prop := m.interface.Clean

section Clean

variable {m : ModuleDoc} {ctx : DocContext} {j decl : Json}

/-- Sanitised text is UTF-8. -/
theorem utf8_safe (s : Bytes) : Utf8 (safe s) := utf8_utf8Sanitize s

theorem utf8_argName (i : Nat) : Utf8 (argName i) := (utf8_str _).append (utf8_toStr i)

theorem utf8_qualified (module member : Bytes) : Utf8 (qualified module member) :=
  ((utf8_safe module).append (utf8_str _)).append (utf8_safe member)

theorem clean_findDecl {list name : Bytes} (h : j.Clean) (hfind : findDecl j list name = some decl) :
    decl.Clean :=
  clean_arrayField_getD h list decl (List.mem_of_find?_eq_some hfind)

/-- A declaration that an entry carries comes out of its module's interface. -/
theorem clean_decl_of_method (h : ∀ m ∈ ctx.modules, m.Clean) {e : MethodEntry}
    (he : e ∈ methodEntries ctx) (hdecl : e.decl = some decl) : decl.Clean := by
  obtain ⟨m, hm, he⟩ := List.mem_flatMap.mp he
  obtain ⟨name, -, rfl⟩ := List.mem_map.mp he
  unfold methodEntry at hdecl
  dsimp only at hdecl
  split at hdecl
  · exact clean_findDecl (h m (List.mem_filter.mp hm).1) hdecl
  · cases hdecl

theorem clean_decl_of_event (h : ∀ m ∈ ctx.modules, m.Clean) {e : EventEntry}
    (he : e ∈ eventEntries ctx) (hdecl : e.decl = some decl) : decl.Clean := by
  obtain ⟨m, hm, he⟩ := List.mem_flatMap.mp he
  obtain ⟨name, -, rfl⟩ := List.mem_map.mp he
  unfold eventEntry at hdecl
  dsimp only at hdecl
  split at hdecl
  · exact clean_findDecl (h m (List.mem_filter.mp hm).1) hdecl
  · cases hdecl

/-! ### Names and texts -/

/-- An unnamed slot gets an ASCII name, and any other is sanitised. -/
theorem utf8_liveParamNames (e : MethodEntry) : ∀ n ∈ liveParamNames e, Utf8 n := by
  unfold liveParamNames
  split
  · intro n hn
    cases hn
  · intro n hn
    obtain ⟨i, hi, rfl⟩ := List.mem_mapIdx.mp hn
    split
    · exact utf8_argName i
    · exact utf8_safe _

/-- A summary and a description are made of sanitised text. -/
theorem clean_addText (h : j.Clean) (raw : Bytes) : (addText j raw).Clean := by
  have hsummary : (if (summary raw).isEmpty then j
      else j.set (str "summary") (.str (summary raw))).Clean := by
    split
    · exact h
    · exact h.set (utf8_str _) (Json.clean_str_iff.mpr (utf8_summary raw))
  unfold addText
  dsimp only
  split
  · exact hsummary.set (utf8_str _) (Json.clean_str_iff.mpr (utf8_description raw))
  · exact hsummary

theorem clean_namesJson {names : List Bytes} (h : ∀ n ∈ names, Utf8 n) : (namesJson names).Clean := by
  apply Json.clean_arr_iff.mpr
  intro x hx
  obtain ⟨n, hn, rfl⟩ := List.mem_map.mp hx
  exact Json.clean_str_iff.mpr (h n hn)

theorem clean_safeList (names : List Bytes) : (safeList names).Clean := by
  apply clean_namesJson
  intro n hn
  obtain ⟨n', -, rfl⟩ := List.mem_map.mp hn
  exact utf8_safe n'

/-- Setting a member, or not, keeps a clean value clean. -/
theorem clean_set_if {c : Prop} [Decidable c] {k s : Bytes} (h : j.Clean) (hk : Utf8 k)
    (hs : Utf8 s) : (if c then j.set k (.str s) else j).Clean := by
  split
  · exact h.set hk (Json.clean_str_iff.mpr hs)
  · exact h

/-- Every member of the listing is sanitised or a literal, whatever the module. -/
theorem clean_xLogosModule (m : ModuleDoc) : (xLogosModule m).Clean := by
  have hexposure : (Json.object [(str "methods", safeList m.exposedMethods),
      (str "events", safeList m.exposedEvents)]).Clean :=
    Json.clean_object (by simp [utf8_str, clean_safeList])
  refine Json.Clean.set ?_ (utf8_str _) hexposure
  refine clean_set_if ?_ (utf8_str _) (utf8_safe _)
  refine clean_set_if ?_ (utf8_str _) (utf8_safe _)
  refine clean_set_if ?_ (utf8_str _) (utf8_safe _)
  exact Json.clean_object (by simp [utf8_str, utf8_safe])

theorem clean_xLogosModules (ctx : DocContext) : (xLogosModules ctx).Clean := by
  apply Json.clean_arr_iff.mpr
  intro x hx
  obtain ⟨m, -, rfl⟩ := List.mem_map.mp hx
  exact clean_xLogosModule m

theorem utf8_hostPort (ctx : DocContext) : Utf8 (hostPort ctx) :=
  ((utf8_safe _).append (utf8_str _)).append (utf8_toStr _)

theorem utf8_rpcUrl (ctx : DocContext) : Utf8 (rpcUrl ctx) :=
  ((utf8_str _).append (utf8_hostPort ctx)).append (utf8_safe _)

theorem utf8_wsUrl (ctx : DocContext) : Utf8 (wsUrl ctx) :=
  ((utf8_str _).append (utf8_hostPort ctx)).append (utf8_safe _)

/-- The table is made of literals. -/
theorem utf8_bridgeOps : ∀ op ∈ bridgeOps, Utf8 op.summary ∧ Utf8 op.description := by
  simp [bridgeOps, utf8_str, -String.reduceAppend]

theorem clean_texts (ss : List String) : (texts ss).Clean := by
  apply Json.clean_arr_iff.mpr
  intro x hx
  obtain ⟨s, -, rfl⟩ := List.mem_map.mp hx
  exact clean_text s

theorem clean_typeIs (type : String) : (typeIs type).Clean :=
  Json.clean_object (by simp [utf8_str, clean_text])

theorem clean_jsonRpcIdSchema : jsonRpcIdSchema.Clean :=
  Json.clean_object (by simp [utf8_str, clean_text, clean_texts])

theorem clean_subscriptionIdSchema : subscriptionIdSchema.Clean :=
  Json.clean_object (by simp [utf8_str, clean_text, clean_texts])

theorem clean_moduleViewProperties : moduleViewProperties.Clean := by
  have hdigest : digestSchema.Clean :=
    Json.clean_object (by simp [utf8_str, clean_text, clean_texts])
  have hnames : namesSchema.Clean :=
    Json.clean_object (by simp [utf8_str, clean_text, clean_typeIs])
  exact Json.clean_object (by
    simp [utf8_str, clean_text, clean_texts, clean_typeIs, hdigest, hnames, Json.clean_object,
      kStatusPending, kStatusOk, kStatusUntyped, kStatusInvalid])

theorem clean_moduleViewSchema (withInterface : Bool) : (moduleViewSchema withInterface).Clean := by
  have hproperties : (if withInterface then
      moduleViewProperties.set (str "interface") interfaceProperty
      else moduleViewProperties).Clean := by
    have hinterface : interfaceProperty.Clean := Json.clean_object (by simp [utf8_str, clean_text])
    split
    · exact clean_moduleViewProperties.set (utf8_str _) hinterface
    · exact clean_moduleViewProperties
  exact Json.clean_object (by simp [utf8_str, clean_text, clean_texts, hproperties])

end Clean

end JsonRpcBridge.Docs
