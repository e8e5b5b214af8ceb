import JsonRpcBridge.Discovery.Model
import JsonRpcBridge.Dispatcher.Request
import JsonRpcBridge.Subscriptions.Table

/-!
# Handling a request

`BridgeCore::onBody`, `handleOne` and `dispatchCall`. For each request `handleOne` either fills the
slot of its batch or hands the pump a `Job` that will; `Job.response` is what the job fills it
with, once its upstream has answered.

`Bridge` is what a request finds. Other threads change it between the requests of one body, so
each of them gets a `Bridge` of its own; how subscriptions interleave is `Subscriptions.Bridge`.
-/

namespace JsonRpcBridge.Dispatcher

open Subscriptions

/-! ## What a request finds

The handlers read the policies and views, and claim subscriptions. Both are inputs here, so that
what is proved holds for any state of the rest of the bridge. -/

/-- An entry of `m_subscribers`. -/
structure Subscriber where
  conn : Nat
  clientId : Json
  key : Upstream.Key

/-- The bridge as a request on connection `conn` finds it. Discovery may publish after the gate was
asked, so a request reads the views twice: `gate`, then `view`. `leased` is history: the modules
`m_clients->get` was asked for. -/
structure Bridge where
  gate : Bytes → ModuleView
  view : Bytes → ModuleView
  /-- `m_docs.current()->openrpc`. -/
  openrpc : Json := .null
  /-- Whether `m_clients->get` gives a client, and what `m_pump.submit` answers. -/
  client : Bytes → Bool := fun _ => true
  queued : Bool := true
  conn : Nat := 0
  subs : SubscriptionTable := []
  subscribers : Nat → Option Subscriber := fun _ => none
  nextSubscriberId : Nat := 1
  hub : Upstream.Hub := {}
  leased : List Bytes := []

/-- A bridge whose discovery has not answered yet. -/
def Bridge.undiscovered : Bridge where
  gate := pendingView
  view := pendingView

/-- What a request hands to the pump. -/
inductive Job where
  | discover (id openrpc : Json)
  | subscribe (id : Json) (t : SubscribeTarget) (sid : Nat)
  | call (id : Json) (t : CallTarget) (args : Json) (timeoutMs : Int)

/-- What becomes of a slot. -/
inductive Outcome where
  | fill (response : Json)
  | submit (job : Job)

/-! ## Answers of a job

A job has been submitted with what it needs; what upstream says decides its response. -/

/-- What upstream says to a job: `m_hub.add`, or the answer of a call. -/
structure Upstreamed where
  added : Bool := true
  value : Json := .null
  error : CallError := {}

def SubscribeTarget.key (t : SubscribeTarget) : Upstream.Key := ⟨t.module, t.event⟩

def subscribeAck (t : SubscribeTarget) (state : Bytes) : Json :=
  Json.object [(str "subscription", t.subscription), (str "operation", .str (str "subscribe")),
    (str "module", .str t.module), (str "event", .str t.event), (str "state", .str state)]

/-- An application-level failure is a successful call: its payload is the result. -/
def callResponse (id value : Json) (e : CallError) : Json :=
  if !e.ok then makeError id (mapCallError e.code e.message)
  else if isUnknownMethodRefusal value then makeError id notFound
  else makeResult id value

/-- What a job fills its slot with. -/
def Job.response (a : Upstreamed) : Job → Json
  | .discover id openrpc => makeResult id openrpc
  | .subscribe id t _ =>
    if a.added then makeResult id (subscribeAck t (str "registered")) else makeError id notFound
  | .call id _ _ _ => callResponse id a.value a.error

/-! ## `dispatchCall`

Every call ends here, by whichever name it was made. -/

/-- By-name parameters become positional; `.error` is the bad path. -/
def callArguments (b : Bridge) (t : CallTarget) : Except Bytes Json :=
  match t.params with
  | .obj byName => (toPositional (b.view t.module) t.method byName).map .arr
  | args => .ok args

/-- The one module-call path, shared by `rpc.call` and the alias. -/
def dispatchCall (cfg : BridgeConfig) (b : Bridge) (id : Json) (t : CallTarget) :
    Outcome × Bridge :=
  if !methodPermitted cfg (b.gate t.module) t.method then (.fill (makeError id notFound), b)
  else
    match callArguments b t with
    | .error badPath =>
      (.fill (makeErrorRaw id (invalidParamsJson (str "schema-mismatch") badPath)), b)
    | .ok args =>
      let b := { b with leased := b.leased ++ [t.module] }
      if !b.client t.module then (.fill (makeError id notFound), b)
      else if b.queued then (.submit (.call id t args cfg.limits.callTimeoutMs), b)
      else (.fill (makeError id shuttingDown), b)

/-! ## Bridge operations

The methods under `rpc.`, in the order of the source. -/

/-- `describe`: null when the module is not exposed. -/
def describe (cfg : BridgeConfig) (view : Bytes → ModuleView) (module : Bytes) : Json :=
  match cfg.find module with
  | none => .null
  | some em => describeView em (view module)

def listModules (cfg : BridgeConfig) (view : Bytes → ModuleView) : Json :=
  .arr (cfg.modules.map fun em => listView em (view em.name))

def handleSchema (cfg : BridgeConfig) (b : Bridge) (req : RpcRequest) : Except JsonError Outcome := do
  if !req.params.isObject || !(← req.params.memberIs (str "module") Json.isString) then
    return .fill (makeError req.id (invalidParams (str "rpc.schema requires a string \"module\"")))
  let d := describe cfg b.view (← (← req.params.member (str "module")).getString)
  return .fill (if d.isNull then makeError req.id notFound else makeResult req.id d)

/-- `rpc.discover`: the pump copies the document. -/
def handleDiscover (b : Bridge) (req : RpcRequest) : Outcome :=
  if b.queued then .submit (.discover req.id b.openrpc) else .fill (makeError req.id shuttingDown)

def handleCall (cfg : BridgeConfig) (b : Bridge) (req : RpcRequest) :
    Except JsonError (Outcome × Bridge) := do
  match ← parseCallTarget req.params with
  | .error err => return (.fill (makeError req.id err), b)
  | .ok t => return dispatchCall cfg b req.id t

def tooManySubscriptions : MappedError := ⟨kOverloaded, .notReady, str "too many subscriptions"⟩

def Bridge.register (b : Bridge) (sid : Nat) (s : Subscriber) : Bridge :=
  { b with subscribers := Function.update b.subscribers sid (some s) }

/-- `m_subscribers.erase(sid)`. -/
def Bridge.forget (b : Bridge) (sid : Nat) : Bridge :=
  { b with subscribers := Function.update b.subscribers sid none }

/-- Undo a subscribe that never reached the hub. -/
def Bridge.abandonSubscribe (b : Bridge) (key : ClientId) (sid : Nat) : Bridge :=
  { b.forget sid with subs := b.subs.release key sid }

/-! ### Subscriptions

The claim and the registration happen before the job is submitted, so a submit that fails has
both to undo. -/

/-- A permitted `rpc.subscribe`, from the claim on; `key` is the dump of the client's id. -/
def claimSubscription (cfg : BridgeConfig) (b : Bridge) (id : Json) (t : SubscribeTarget)
    (key : ClientId) : Outcome × Bridge :=
  let sid := b.nextSubscriberId
  let b := { b with nextSubscriberId := sid + 1 }
  match b.subs.claim key t.key sid cfg.limits.maxSubscriptionsPerConnection with
  | (.full, _) => (.fill (makeError id tooManySubscriptions), b)
  | (.duplicate, _) => (.fill (makeResult id (subscribeAck t (str "active"))), b)
  | (.fresh, subs) =>
    let b := { b with subs }.register sid ⟨b.conn, t.subscription, t.key⟩
    if b.queued then (.submit (.subscribe id t sid), b)
    else (.fill (makeError id shuttingDown), b.abandonSubscribe key sid)

def handleSubscribe (cfg : BridgeConfig) (lib : Nlohmann) (b : Bridge) (req : RpcRequest) :
    Except JsonError (Outcome × Bridge) := do
  match ← parseSubscribeTarget req.params true with
  | .error err => return (.fill (makeError req.id err), b)
  | .ok t =>
    if !eventPermitted cfg (b.gate t.module) t.event then
      return (.fill (makeError req.id notFound), b)
    return claimSubscription cfg b req.id t (← lib.dump t.subscription)

/-- Drop what the table held for an id. -/
def Bridge.drop (b : Bridge) (held : Entry) : Bridge :=
  let b := b.forget held.owner
  match b.hub.exec (.remove held.key held.owner : Upstream.Pc Unit) true with
  | some (hub, _) => { b with hub }
  | none => b

/-- An unknown id is acked, not an error. -/
def handleUnsubscribe (lib : Nlohmann) (b : Bridge) (req : RpcRequest) :
    Except JsonError (Outcome × Bridge) := do
  match ← parseSubscribeTarget req.params false with
  | .error err => return (.fill (makeError req.id err), b)
  | .ok t =>
    let ack := makeResult req.id (Json.object [(str "subscription", t.subscription),
      (str "operation", .str (str "unsubscribe"))])
    match b.subs.take (← lib.dump t.subscription) with
    | (none, _) => return (.fill ack, b)
    | (some held, subs) => return (.fill ack, { b with subs }.drop held)

def notCancelled : Json :=
  Json.object [(str "cancelled", .bool false), (str "reason", .str (str "not_supported_upstream"))]

/-! ### By method name -/

/-- The operations of the `rpc.` namespace. -/
def handleOp (cfg : BridgeConfig) (lib : Nlohmann) (b : Bridge) (req : RpcRequest) :
    Except JsonError (Outcome × Bridge) :=
  if req.method == kPing then .ok (.fill (makeResult req.id (.str (str "pong"))), b)
  else if req.method == kListModules then
    .ok (.fill (makeResult req.id (listModules cfg b.view)), b)
  else if req.method == kSchema then (handleSchema cfg b req).map fun out => (out, b)
  else if req.method == kDiscover then .ok (handleDiscover b req, b)
  else if req.method == kCall then handleCall cfg b req
  else if req.method == kSubscribe then handleSubscribe cfg lib b req
  else if req.method == kUnsubscribe then handleUnsubscribe lib b req
  else if req.method == kCancel then .ok (.fill (makeResult req.id notCancelled), b)
  else .ok (.fill (makeError req.id notFound), b)

/-! ## `handleOne`

A request is parsed, and goes to its operation. -/

/-- What the rest of `handleOne` does with a request that parsed. -/
def handleRequest (cfg : BridgeConfig) (lib : Nlohmann) (b : Bridge) (req : RpcRequest) :
    Except JsonError (Outcome × Bridge) :=
  if !isBridgeOp req.method then
    match parseAliasCall req with
    | .error err => .ok (.fill (makeError req.id err), b)
    | .ok t => .ok (dispatchCall cfg b req.id t)
  else if req.isNotification && req.method == kCall then
    .ok (.fill (makeError .null (invalidRequest kCallNotificationRefused)), b)
  else handleOp cfg lib b req

def handleOne (cfg : BridgeConfig) (lib : Nlohmann) (b : Bridge) (raw : Json) :
    Except JsonError (Outcome × Bridge) := do
  match ← parseRequest raw with
  | .error err => return (.fill (makeError .null err), b)
  | .ok req => handleRequest cfg lib b req

theorem handleOne_of_parse {cfg : BridgeConfig} {lib : Nlohmann} {b : Bridge} {raw : Json}
    {req : RpcRequest} (h : parseRequest raw = .ok (.ok req)) :
    handleOne cfg lib b raw = handleRequest cfg lib b req := by
  rw [handleOne, h]
  rfl

theorem handleOne_of_refused {cfg : BridgeConfig} {lib : Nlohmann} {b : Bridge} {raw : Json}
    {err : MappedError} (h : parseRequest raw = .ok (.error err)) :
    handleOne cfg lib b raw = .ok (.fill (makeError .null err), b) := by
  rw [handleOne, h]
  rfl

/-! ## `onBody`

A body over HTTP may name the method in its path, and a batch is a list of requests. -/

/-- What `onBody` makes of a body: an answer it sends at once, or requests for a batch. -/
inductive Body where
  | answer (response : Json)
  | dispatch (requests : List Json) (single restShape : Bool)

def kModulesPrefix : Bytes := str "/modules/"

/-! ### A REST call

The path gives the module and the method, the body the params. Together they are the request
`rpc.call` with these. -/

/-- The params of the `rpc.call` that a REST call stands for. -/
def restTarget (module method : Bytes) (inner : Json) : Json :=
  Json.object [(str "module", .str module), (str "method", .str method), (str "params", inner)]

theorem find_module_restTarget (module method : Bytes) (inner : Json) :
    (restTarget module method inner).find? (str "module") = some (.str module) := rfl

theorem find_method_restTarget (module method : Bytes) (inner : Json) :
    (restTarget module method inner).find? (str "method") = some (.str method) := rfl

theorem find_params_restTarget (module method : Bytes) (inner : Json) :
    (restTarget module method inner).find? (str "params") = some inner := rfl

/-- The request that a REST call stands for. -/
def restRequest (module method : Bytes) (inner : Json) : Json :=
  Json.object [(str "jsonrpc", .str (str "2.0")), (str "id", .int 1), (str "method", .str kCall),
    (str "params", restTarget module method inner)]

theorem parseRequest_restRequest (module method : Bytes) (inner : Json) :
    parseRequest (restRequest module method inner) = .ok (.ok {
      id := .int 1, isNotification := false, method := kCall
      params := restTarget module method inner, hasParams := true }) := by
  have hmethod : (restRequest module method inner).find? (str "method") = some (.str kCall) := rfl
  rw [parseRequest_eq (by rfl) hmethod]
  rfl

/-- `{module}/{method}`, split at the first `/`. -/
def splitRest (rest : Bytes) : Option (Bytes × Bytes) := splitFirst 0x2f rest

/-- The inner params of a REST call; an empty body means `{}`. -/
def restParams (lib : Nlohmann) (body : Bytes) : Option Json :=
  if body.isEmpty then some (.obj []) else lib.parse body

/-- `POST /modules/{module}/{method}`. -/
def readRest (lib : Nlohmann) (rest body : Bytes) : Body :=
  match splitRest rest with
  | none => .answer (makeError .null notFound)
  | some (module, method) =>
    match restParams lib body with
    | none => .answer (makeError .null parseError)
    | some inner => .dispatch [restRequest module method inner] true true

def batchTooLarge : MappedError := ⟨kOverloaded, .notReady, str "batch too large"⟩

/-! ### A body of requests

The size of a batch is checked before any of its requests. -/

/-- A body of JSON-RPC requests. -/
def readRpc (cfg : BridgeConfig) (lib : Nlohmann) (body : Bytes) : Body :=
  match splitBody lib body with
  | .error protoErr => .answer protoErr
  | .ok (requests, single) =>
    if (requests.length : Int) > cfg.limits.maxInFlightPerConnection then
      .answer (makeError .null batchTooLarge)
    else .dispatch requests single false

/-- The route of the REST projection. -/
def isRest (route : Bytes) : Bool := startsWith kModulesPrefix route

/-- `onBody` up to the batch; `route` is the path of an HTTP request. -/
def readBody (cfg : BridgeConfig) (lib : Nlohmann) (draining : Bool) (route body : Bytes) : Body :=
  if draining then .answer (makeError .null shuttingDown)
  else if isRest route then readRest lib (route.drop kModulesPrefix.length) body
  else readRpc cfg lib body

/-- The requests of a body, handled in order; `now i` is the bridge as request `i` finds it. -/
def handleAll (cfg : BridgeConfig) (lib : Nlohmann) (now : Nat → Bridge) :
    Nat → List Json → Except JsonError (List Outcome)
  | _, [] => .ok []
  | i, raw :: requests => do
    let (out, _) ← handleOne cfg lib (now i) raw
    return out :: (← handleAll cfg lib now (i + 1) requests)

/-- What `onBody` leaves behind: bytes it sent, or one outcome for each request of a batch. -/
inductive Served where
  | sent (bytes : Bytes)
  | batch (outcomes : List Outcome) (single restShape : Bool)

def onBody (cfg : BridgeConfig) (lib : Nlohmann) (now : Nat → Bridge) (draining : Bool)
    (route body : Bytes) : Except JsonError Served :=
  match readBody cfg lib draining route body with
  | .answer response => (lib.dump response).map .sent
  | .dispatch requests single restShape =>
    (handleAll cfg lib now 0 requests).map fun outcomes => .batch outcomes single restShape

/-! ## The answer of a batch

The slots that were filled, as an array or by themselves. -/

/-- The bare object the REST projection promises. -/
def restAnswer (response : Json) : Json :=
  match response.find? (str "error") with
  | some e => Json.object [(str "error", e)]
  | none =>
    match response.find? (str "result") with
    | some r => Json.object [(str "result", r)]
    | none => Json.object []

/-- `flush`: the value it dumps, `none` when every slot is null. -/
def flushed (single restShape : Bool) (slots : List Json) : Option Json :=
  match slots.filter fun s => !s.isNull with
  | [] => none
  | out :: more =>
    if restShape then some (restAnswer out)
    else if single && more.isEmpty then some out
    else some (.arr (out :: more))

/-- The frame a full batch sends. -/
def flush (lib : Nlohmann) (single restShape : Bool) (slots : List Json) : Except JsonError Bytes :=
  match flushed single restShape slots with
  | none => .ok []
  | some answer => lib.dump answer

end JsonRpcBridge.Dispatcher
