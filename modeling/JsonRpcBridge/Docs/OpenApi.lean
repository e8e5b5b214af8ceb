import JsonRpcBridge.Docs.Common

/-!
# The OpenAPI document

`doc_openapi.h`: what `GET /openapi.json` answers, the HTTP surface with JSON Schema 2020-12
schemas. Anything identical across paths is a referenced component.

The document knows two kinds of paths. Those of the bridge itself are fixed and written out here;
below them stands one path for each exposed method, with a single `post`. The refusals that come
before routing are the same for every path, and so are the answers of a method that is known by
name only.
-/

namespace JsonRpcBridge.Docs

def kOpenApiVersion : Bytes := str "3.1.1"
def kOasDialect : Bytes := str "https://spec.openapis.org/oas/3.1/dialect/base"

namespace OpenApi

def kJson : Bytes := str "application/json"

/-! ## Requests and responses -/

/-- A body of JSON with this schema. -/
def jsonContent (schema : Json) : Json :=
  Json.object [(kJson, Json.object [(str "schema", schema)])]

def responseRef (name : String) : Json :=
  Json.object [(str "$ref", .str (str "#/components/responses/" ++ str name))]

def requestBodyRef (name : String) : Json :=
  Json.object [(str "$ref", .str (str "#/components/requestBodies/" ++ str name))]

/-- Refusals before routing, each a small HTML page. -/
def gateResponses (post : Bool) : Json :=
  let r := Json.object [(str "401", responseRef "Unauthorized"),
    (str "403", responseRef "Forbidden")]
  if post then
    (r.set (str "411") (responseRef "LengthRequired")).set (str "415")
      (responseRef "UnsupportedMediaType")
  else r

/-- The REST projection answers 200 with `{result}`, `{error}`, or a full error envelope. -/
def callResponse (result : Json) : Json :=
  let resultObject := Json.object [
    (str "type", text "object"),
    (str "properties", Json.object [(str "result", result)]),
    (str "required", texts ["result"]),
    (str "additionalProperties", .bool false)]
  Json.object [
    (str "description", text ("The call's outcome: the method's value (or a ProviderRejection), or " ++
      "a JSON-RPC error.")),
    (str "content", jsonContent (Json.object [(str "oneOf", .arr [resultObject,
      schemaRef (str "ErrorBody"), schemaRef (str "JsonRpcErrorResponse")])]))]

/-- The request body of a method with parameters. -/
def paramsBody (decl : Json) (scope : TypeScope) : Json :=
  let required := anyRequiredParam decl
  let description := str ("The parameters, by name (an object) or by position (an array of exactly " ++
    "the declared arity, null for an empty optional slot).")
  let description := if required then description
    else description ++ str " With no required parameter the body may be empty."
  let body := Json.object [(str "oneOf", .arr [paramsObject decl scope .draft2020_12,
    paramsTuple decl scope .draft2020_12])]
  Json.object [
    (str "description", .str description),
    (str "required", .bool required),
    (str "content", jsonContent body)]

/-- What is posted to the path of a method. An untyped one takes anything and answers anything; a
typed one takes its parameters, and no body at all if it has none. -/
def moduleOperation (e : MethodEntry) : Json :=
  let module := safe e.module.name
  let op := Json.object [(str "operationId", .str (qualified module e.method)),
    (str "tags", .arr [.str module])]
  let op := addText op (methodText e)
  let responses := gateResponses true
  let (op, responses) := match e.decl with
    | none =>
      ((op.set (str "requestBody") (requestBodyRef "UntypedParams")).set (str "x-logos-untyped")
        (.bool true), responses.set (str "200") (responseRef "UntypedCallResult"))
    | some decl =>
      let op := op.set (str "requestBody")
        (if (paramsOf decl).isEmpty then requestBodyRef "NoParams" else paramsBody decl e.scope)
      (if boolField decl (str "derived") then op.set (str "x-logos-derived") (.bool true) else op,
        responses.set (str "200")
          (callResponse (methodResultSchema decl e.scope .draft2020_12)))
  let op := op.set (str "responses") responses
  let op := op.set (str "x-logos-module") (.str module)
  op.set (str "x-logos-method") (.str (safe e.method))

/-! ## The bridge's own routes

Six routes that are there whatever is exposed. A module may not shadow one of them: a path of a
module has a second slash after `/modules/`, and none of these has. -/

/-- A `GET` of the bridge, gated like every other route. -/
def getOperation (id summary description : String) (okSchema : Json) (okDescription : String) :
    Json :=
  let responses := (gateResponses false).set (str "200") (Json.object [
    (str "description", text okDescription), (str "content", jsonContent okSchema)])
  Json.object [
    (str "operationId", text id),
    (str "tags", texts ["bridge"]),
    (str "summary", text summary),
    (str "description", text description),
    (str "responses", responses),
    (str "x-logos-bridge-op", .bool true)]

def getHealth : Json := getOperation
  "getHealth" "Bridge health." "Liveness and draining state. Gated like every other route."
  (Json.object [
    (str "type", text "object"),
    (str "properties", Json.object [
      (str "status", Json.object [(str "type", text "string"),
        (str "enum", texts ["ok", "draining"])]),
      (str "uptime_seconds", Json.object [(str "type", text "integer"), (str "minimum", .int 0)]),
      (str "protocol", Json.object [(str "const", text "json-rpc-2.0")])]),
    (str "required", texts ["status", "uptime_seconds", "protocol"])])
  "The bridge is serving."

def listModules : Json := getOperation
  "listModules" "Describe every exposed module."
  "The rpc.list_modules views, in configuration order, without `interface`."
  (Json.object [(str "type", text "array"), (str "items", moduleViewSchema false)])
  "The module views."

/-- `one["responses"]["404"]`, on the responses that `getOperation` made. -/
def notFoundResponse : Json :=
  Json.object [
    (str "description", text ("Not exposed or unknown: the same -32601 error object a denied call " ++
      "gets.")),
    (str "content", jsonContent (schemaRef (str "JsonRpcError")))]

/-- The one route that answers 404 itself. -/
def getModule : Json :=
  let one := getOperation "getModule" "Describe one exposed module."
    ("The rpc.schema view: interface_status, the complete LIDL contract as `interface` when ok, " ++
      "this bridge's exposure, the digests and the live report.")
    (moduleViewSchema true) "The module view."
  let one := one.set (str "parameters") (.arr [Json.object [
    (str "name", text "module"),
    (str "in", text "path"),
    (str "required", .bool true),
    (str "schema", typeIs "string")]])
  one.set (str "responses")
    (((one.find? (str "responses")).getD .null).set (str "404") notFoundResponse)

def getOpenApi : Json := getOperation
  "getOpenApi" "This document." "The OpenAPI 3.1.1 description of this bridge."
  (typeIs "object") "This OpenAPI document."

def getAsyncApi : Json := getOperation
  "getAsyncApi" "The WebSocket description."
  "The AsyncAPI 3.0.0 description of this bridge's WebSocket endpoint."
  (typeIs "object") "The AsyncAPI document."

/-! ### The endpoint -/

/-- One item, or a batch of them. -/
def batchOf (item : Json) : Json :=
  Json.object [(str "oneOf", .arr [item, Json.object [
    (str "type", text "array"), (str "minItems", .int 1), (str "items", item)]])]

def rpcRequest : Json :=
  Json.object [
    (str "type", text "object"),
    (str "properties", Json.object [
      (str "jsonrpc", Json.object [(str "const", text "2.0")]),
      (str "id", schemaRef (str "JsonRpcId")),
      (str "method", typeIs "string"),
      (str "params", Json.object [(str "type", texts ["object", "array"])])]),
    (str "required", texts ["jsonrpc", "method"])]

def rpcSuccess : Json :=
  Json.object [
    (str "type", text "object"),
    (str "properties", Json.object [
      (str "jsonrpc", Json.object [(str "const", text "2.0")]),
      (str "id", schemaRef (str "JsonRpcId")),
      (str "result", Json.object [])]),
    (str "required", texts ["jsonrpc", "id", "result"]),
    (str "additionalProperties", .bool false)]

/-- A response is a success or an error, told apart by their members. -/
def rpcResponse : Json :=
  Json.object [(str "oneOf", .arr [rpcSuccess, schemaRef (str "JsonRpcErrorResponse")])]

/-- `POST /rpc`. Failures of JSON-RPC are part of the body, so that the only status besides the
refusals is 200. -/
def postRpc : Json :=
  let rpc := Json.object [
    (str "operationId", text "postRpc"),
    (str "tags", texts ["bridge"]),
    (str "summary", text "JSON-RPC 2.0 endpoint."),
    (str "description", text ("One request or a batch. Every rpc.* operation and every " ++
      "`<module>.<method>` alias (see rpc.discover) is accepted here; events need the WebSocket " ++
      "endpoint (see /asyncapi.json). A request without an id is still answered, with id null: a " ++
      "module call is refused with -32600, and any other operation runs.")),
    (str "requestBody", Json.object [
      (str "required", .bool true), (str "content", jsonContent (batchOf rpcRequest))]),
    (str "x-logos-bridge-op", .bool true)]
  rpc.set (str "responses") ((gateResponses true).set (str "200") (Json.object [
    (str "description", text ("The response, or the batch of responses. JSON-RPC failures ride in " ++
      "the body at 200.")),
    (str "content", jsonContent (batchOf rpcResponse))]))

/-- `paths[path][verb] = operation`. -/
def setOperation (paths : Json) (path : Bytes) (verb : String) (operation : Json) : Json :=
  paths.set path (((paths.find? path).getD .null).set (str verb) operation)

/-- The paths before the first module. -/
def fixedPaths : Json :=
  let paths := Json.object []
  let paths := setOperation paths (str "/healthz") "get" getHealth
  let paths := setOperation paths (str "/modules") "get" listModules
  let paths := setOperation paths (str "/modules/\x7bmodule\x7d") "get" getModule
  let paths := setOperation paths (str "/openapi.json") "get" getOpenApi
  let paths := setOperation paths (str "/asyncapi.json") "get" getAsyncApi
  setOperation paths (str "/rpc") "post" postRpc

/-! ## Components

What is identical across paths: the refusals, which are small HTML pages, the answers and bodies
of untyped methods, and the schemas that all three documents have. -/

def errorBodySchema : Json :=
  Json.object [
    (str "title", text "ErrorBody"),
    (str "description", text ("A module route's refusal: the JSON-RPC error alone. Denied, " ++
      "unexposed and unknown targets all get the same -32601.")),
    (str "type", text "object"),
    (str "properties", Json.object [(str "error", schemaRef (str "JsonRpcError"))]),
    (str "required", texts ["error"]),
    (str "additionalProperties", .bool false)]

def schemaComponents : Json :=
  Json.object [
    (str "Bytes", bytesSchema),
    (str "LogosResult", logosResultSchema),
    (str "ProviderRejection", providerRejectionSchema),
    (str "JsonRpcId", jsonRpcIdSchema),
    (str "JsonRpcError", jsonRpcErrorSchema),
    (str "JsonRpcErrorResponse", jsonRpcErrorResponseSchema),
    (str "ErrorBody", errorBodySchema)]

def htmlPage : Json :=
  Json.object [(str "text/html", Json.object [(str "schema", typeIs "string")])]

def htmlResponse (description : String) : Json :=
  Json.object [(str "description", text description), (str "content", htmlPage)]

def responseComponents : Json :=
  Json.object [
    (str "Unauthorized", htmlResponse ("auth.mode is bearer and the request carries no valid " ++
      "`Authorization: Bearer` token.")),
    (str "Forbidden", htmlResponse ("Refused before routing: the Host header is not a loopback " ++
      "literal this bridge bound, or the Origin is not in http.allowed_origins.")),
    (str "LengthRequired", htmlResponse ("The request states no valid Content-Length, or has a " ++
      "Transfer-Encoding: the bridge reads no chunked body. The connection is closed.")),
    (str "UnsupportedMediaType", htmlResponse ("The Content-Type is not application/json, which " ++
      "is required even for an empty body.")),
    (str "UntypedCallResult", callResponse (Json.object []))]

def requestBodyComponents : Json :=
  Json.object [
    (str "NoParams", Json.object [
      (str "description", text "No parameters: send no body, \x7b\x7d or []."),
      (str "required", .bool false),
      (str "content", jsonContent noParamsSchema)]),
    (str "UntypedParams", Json.object [
      (str "description", text ("Untyped: the parameters by name (an object) or by position (an " ++
        "array).")),
      (str "required", .bool false),
      (str "content", jsonContent (Json.object []))])]

def kInfoDescription : Bytes :=
  str ("The HTTP surface of the Logos JSON-RPC bridge. `POST /modules/<module>/<method>` calls an " ++
    "exposed module method with its parameters as the body, typed from the module's canonical " ++
    "LIDL contract when it has one (x-logos-untyped marks names-only modules). `POST /rpc` speaks " ++
    "JSON-RPC 2.0 (see rpc.discover). Every route checks Host and Origin and sends no CORS " ++
    "headers. A refusal (401, 403, 411, 415) leaves the request body unread, so when the request " ++
    "declares a body the connection closes after the refusal. Operations cover what this bridge " ++
    "lets you call; component schemas cover every record in each contract, and x-logos-modules " ++
    "gives each module's status, digests and exposure.")

/-- A tag of a typed module carries the description of its contract; any other says why there is
none. -/
def moduleTag (m : ModuleDoc) : Json :=
  let tag := Json.object [(str "name", .str (safe m.name))]
  let raw := if isTyped m then strField m.interface (str "description") else untypedNote m
  if raw.isEmpty then tag else tag.set (str "description") (.str (description raw))

/-- The path of a module operation. -/
def modulePath (e : MethodEntry) : Bytes :=
  str "/modules/" ++ safe e.module.name ++ str "/" ++ safe e.method

end OpenApi

/-! ## The document

The operations of the modules are put into the paths one after the other. Two methods whose names
give one path have one operation, the later of the two. -/

def openApiTags (ctx : DocContext) : Json :=
  .arr (Json.object [(str "name", text "bridge"),
      (str "description", text "The bridge's own routes.")] ::
    (ctx.modules.filter hasOperations).map OpenApi.moduleTag)

def openApiPaths (ctx : DocContext) : Json :=
  (methodEntries ctx).foldl (fun paths e =>
    OpenApi.setOperation paths (OpenApi.modulePath e) "post" (OpenApi.moduleOperation e))
    OpenApi.fixedPaths

/-- The shared components, and the records of every typed module. -/
def openApiSchemas (ctx : DocContext) : Json :=
  (ctx.modules.filter isTyped).foldl
    (fun schemas m => addRecordComponents schemas m.name m.interface .draft2020_12)
    OpenApi.schemaComponents

/-- `buildOpenApi`. -/
def buildOpenApi (ctx : DocContext) : Json :=
  Json.object [
    (str "openapi", .str kOpenApiVersion),
    (str "jsonSchemaDialect", .str kOasDialect),
    (str "info", Json.object [
      (str "title", .str (safe ctx.title)),
      (str "version", .str (safe ctx.bridgeVersion)),
      (str "description", .str OpenApi.kInfoDescription)]),
    (str "servers", .arr [Json.object [(str "url", .str (httpOrigin ctx)),
      (str "description", text "Loopback only.")]]),
    (str "tags", openApiTags ctx),
    (str "paths", openApiPaths ctx),
    (str "components", Json.object [
      (str "schemas", openApiSchemas ctx),
      (str "responses", OpenApi.responseComponents),
      (str "requestBodies", OpenApi.requestBodyComponents)]),
    (str "x-logos-modules", xLogosModules ctx)]

end JsonRpcBridge.Docs
