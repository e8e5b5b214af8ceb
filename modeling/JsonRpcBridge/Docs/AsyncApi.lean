import JsonRpcBridge.Docs.Common

/-!
# The AsyncAPI document

`doc_asyncapi.h`: what `GET /asyncapi.json` answers, the WebSocket endpoint from the bridge's side.
Payloads are draft-07 schemas. A `Builder` collects messages and operations under keys made of
module and member names.

The document is written from the side of the bridge: a request is received, and its answer, an
event or a notice is sent. A message is collected under its key the first time it is needed; the
operations refer to the messages by that key, and the channel lists them all.
-/

namespace JsonRpcBridge.Docs

def kAsyncApiVersion : Bytes := str "3.0.0"

namespace AsyncApi

/-- The only channel, which is the WebSocket endpoint. -/
def kChannel : Bytes := str "ws"
def kChannelRef : Bytes := str "#/channels/ws"
def kErrorMessage : Bytes := str "rpc.error"
def kUnsubscribeMessage : Bytes := str "rpc.unsubscribe"
def kUnsubscribedMessage : Bytes := str "rpc.unsubscribed"
def kTerminatedMessage : Bytes := str "rpc.subscription_terminated"

/-- A reference object. -/
def refTo (pointer : Bytes) : Json := Json.object [(str "$ref", .str pointer)]

/-- A message is referred to through the channel that lists it. -/
def messageRef (key : Bytes) : Json := refTo (kChannelRef ++ str "/messages/" ++ key)

def byRequestId : Json := refTo (str "#/components/correlationIds/requestId")

def bySubscription : Json := refTo (str "#/components/correlationIds/subscriptionId")

/-- Only this string. -/
def constSchema (value : Bytes) : Json := Json.object [(str "const", .str value)]

/-- An object with these members and no others. -/
def closedObject (properties required : Json) : Json :=
  Json.object [(str "type", text "object"), (str "properties", properties),
    (str "required", required), (str "additionalProperties", .bool false)]

/-! ### Payloads

Requests, results and notifications are JSON-RPC envelopes around what the contract describes. -/

/-- The payload of a request. `params` is required only where the method has a parameter. -/
def requestPayload (method : Bytes) (params : Json) (paramsRequired : Bool) : Json :=
  closedObject (Json.object [
      (str "jsonrpc", constSchema (str "2.0")),
      (str "id", schemaRef (str "JsonRpcId")),
      (str "method", constSchema method),
      (str "params", params)])
    (texts (["jsonrpc", "id", "method"] ++ if paramsRequired then ["params"] else []))

def resultPayload (result : Json) : Json :=
  closedObject (Json.object [
      (str "jsonrpc", constSchema (str "2.0")),
      (str "id", schemaRef (str "JsonRpcId")),
      (str "result", result)])
    (texts ["jsonrpc", "id", "result"])

def notificationPayload (method : Bytes) (params : Json) : Json :=
  closedObject (Json.object [
      (str "jsonrpc", constSchema (str "2.0")),
      (str "method", constSchema method),
      (str "params", params)])
    (texts ["jsonrpc", "method", "params"])

/-- A message carries a one-line summary; the operation using it carries the description. -/
def message (key title raw : Bytes) (payload correlationId : Json) : Json :=
  let m := Json.object [(str "name", .str key), (str "title", .str title), (str "payload", payload),
    (str "correlationId", correlationId)]
  let s := summary raw
  if s.isEmpty then m else m.set (str "summary") (.str s)

/-- Tags group the operations of one module in a viewer. -/
def tagged (obj : Json) (module : Bytes) : Json :=
  obj.set (str "tags") (.arr [Json.object [(str "name", .str module)]])

/-! ### Operations

An operation that is answered names the messages of its reply. A notification has none. -/

/-- An operation that the bridge answers, with the messages the answer may be. -/
def receiveWithReply (request : Bytes) (replies : List Bytes) : Json :=
  Json.object [
    (str "action", text "receive"),
    (str "channel", refTo kChannelRef),
    (str "messages", .arr [messageRef request]),
    (str "reply", Json.object [
      (str "channel", refTo kChannelRef), (str "messages", .arr (replies.map messageRef))])]

/-- An operation that the bridge starts, and to which nothing is answered. -/
def sendOnly (notification : Bytes) : Json :=
  Json.object [
    (str "action", text "send"),
    (str "channel", refTo kChannelRef),
    (str "messages", .arr [messageRef notification])]

/-- `x-logos-module` and the member that an object is about. -/
def about (obj : Json) (module : Bytes) (kind : String) (member : Bytes) : Json :=
  (obj.set (str "x-logos-module") (.str module)).set (str kind) (.str member)

/-- A flag is there or absent, never false. -/
def flag (obj : Json) (key : String) (on : Bool) : Json :=
  if on then obj.set (str key) (.bool true) else obj

/-- The messages and the operations that have been collected. -/
structure Builder where
  messages : Json := Json.object []
  operations : Json := Json.object []

/-! ## Methods

A method gives two messages, its request and its result, and one operation that ties them
together. The key of both is made of the sanitised names by `componentKey`, so that it may stand
in a JSON pointer as it is. -/

/-- What every object about a method says. -/
def aboutMethod (e : MethodEntry) (obj : Json) : Json :=
  let obj := about obj (safe e.module.name) "x-logos-method" (safe e.method)
  let obj := flag obj "x-logos-derived" (e.decl.any fun decl => boolField decl (str "derived"))
  flag obj "x-logos-untyped" e.decl.isNone

/-- What a client calls: the alias of the method. -/
def methodName (e : MethodEntry) : Bytes := qualified (safe e.module.name) e.method

def methodKey (e : MethodEntry) : Bytes := componentKey (methodName e)

def requestKey (e : MethodEntry) : Bytes := methodKey e ++ str ".request"

def resultKey (e : MethodEntry) : Bytes := methodKey e ++ str ".result"

/-- Absent params mean `[]`, which only fits zero arity. -/
def methodParams (e : MethodEntry) : Json × Bool :=
  match e.decl with
  | none => (Json.object [], false)
  | some decl =>
    if (paramsOf decl).isEmpty then (schemaRef (str "NoParams"), false)
    else
      (Json.object [(str "oneOf", .arr [paramsObject decl e.scope .draft07,
        paramsTuple decl e.scope .draft07])], true)

def methodResult (e : MethodEntry) : Json :=
  match e.decl with
  | none => Json.object []
  | some decl => methodResultSchema decl e.scope .draft07

/-- The request: the alias as its method, and the parameters in either form. -/
def requestMessage (e : MethodEntry) : Json :=
  aboutMethod e (message (requestKey e) (str "Call " ++ methodName e) (methodText e)
    (requestPayload (methodName e) (methodParams e).1 (methodParams e).2) byRequestId)

/-- Its answer. The id ties the two together. -/
def resultMessage (e : MethodEntry) : Json :=
  aboutMethod e (message (resultKey e) (methodName e ++ str " result")
    (str "The value " ++ methodName e ++ str " returned, or a ProviderRejection.")
    (resultPayload (methodResult e)) byRequestId)

/-- The operation carries the description; its messages only have a summary. -/
def methodOperation (e : MethodEntry) : Json :=
  let op := tagged (receiveWithReply (requestKey e) [resultKey e, kErrorMessage])
    (safe e.module.name)
  aboutMethod e (addText (op.set (str "title") (.str (methodName e))) (methodText e))

/-- Two messages and an operation. Where two methods have one key the later one replaces the
earlier. -/
def Builder.addMethod (b : Builder) (e : MethodEntry) : Builder where
  messages := (b.messages.set (requestKey e) (requestMessage e)).set (resultKey e) (resultMessage e)
  operations := b.operations.set (methodKey e) (methodOperation e)

/-! ## Events

An event gives three messages: the subscribe request, its acknowledgement, and the event itself,
which is sent for as long as the subscription lives. There are two operations, one that the
client starts and one that the bridge does. -/

/-- What every object about an event says. -/
def aboutEvent (e : EventEntry) (obj : Json) : Json :=
  flag (about obj (safe e.module.name) "x-logos-event" (safe e.event)) "x-logos-untyped"
    e.decl.isNone

def eventName (e : EventEntry) : Bytes := qualified (safe e.module.name) e.event

/-- The common start of the keys of the three messages and of the two operations. -/
def eventBase (e : EventEntry) : Bytes := componentKey (eventName e)

def subscribeKey (e : EventEntry) : Bytes := eventBase e ++ str ".subscribe"

def subscribedKey (e : EventEntry) : Bytes := eventBase e ++ str ".subscribed"

def eventKey (e : EventEntry) : Bytes := eventBase e ++ str ".event"

/-! ### Messages and operations of an event -/

/-- The target is constant; only the id of the subscription is the client's. -/
def subscribeParams (e : EventEntry) : Json :=
  closedObject (Json.object [
      (str "subscription", schemaRef (str "SubscriptionId")),
      (str "module", constSchema (safe e.module.name)),
      (str "event", constSchema (safe e.event))])
    (texts ["subscription", "module", "event"])

/-- What `rpc.subscribe` answers when the subscription is held. -/
def subscribeAck (e : EventEntry) : Json :=
  closedObject (Json.object [
      (str "subscription", schemaRef (str "SubscriptionId")),
      (str "operation", constSchema (str "subscribe")),
      (str "module", constSchema (safe e.module.name)),
      (str "event", constSchema (safe e.event)),
      (str "state", schemaRef (str "SubscriptionState"))])
    (texts ["subscription", "operation", "module", "event", "state"])

/-- The values of the event. Of an event known by name only nothing is said. -/
def eventData (e : EventEntry) : Json :=
  match e.decl with
  | some decl => paramsTuple decl e.scope .draft07
  | none => Json.object []

/-- What `rpc.event` carries. -/
def eventParams (e : EventEntry) : Json :=
  closedObject (Json.object [
      (str "subscription", schemaRef (str "SubscriptionId")),
      (str "module", constSchema (safe e.module.name)),
      (str "event", constSchema (safe e.event)),
      (str "data", describe (eventData e) (str "The event's parameters, by position.")),
      (str "generation", schemaRef (str "EventGeneration")),
      (str "ts", schemaRef (str "EventTimestamp"))])
    (texts ["subscription", "module", "event", "data", "generation", "ts"])

def subscribeMessage (e : EventEntry) : Json :=
  aboutEvent e (message (subscribeKey e) (str "Subscribe to " ++ eventName e) []
    (requestPayload (str "rpc.subscribe") (subscribeParams e) true) byRequestId)

def subscribedMessage (e : EventEntry) : Json :=
  aboutEvent e (message (subscribedKey e) (eventName e ++ str " subscribed") []
    (resultPayload (subscribeAck e)) byRequestId)

/-- The parameter names are listed beside the schema, since the values come by position. -/
def eventMessage (e : EventEntry) : Json :=
  let m := message (eventKey e) (eventName e) (eventText e)
    (notificationPayload (str "rpc.event") (eventParams e)) bySubscription
  aboutEvent e (match e.decl with
    | some decl => m.set (str "x-logos-params") (namesJson (declParamNames decl))
    | none => m)

def subscribeOperation (e : EventEntry) : Json :=
  let op := tagged (receiveWithReply (subscribeKey e) [subscribedKey e, kErrorMessage])
    (safe e.module.name)
  aboutEvent e ((op.set (str "title") (.str (str "Subscribe to " ++ eventName e))).set
    (str "summary")
    (.str (str "Subscribe to " ++ eventName e ++ str " with a caller-assigned subscription id.")))

def eventOperation (e : EventEntry) : Json :=
  let op := tagged (sendOnly (eventKey e)) (safe e.module.name)
  aboutEvent e (addText (op.set (str "title") (.str (eventName e))) (eventText e))

/-- Three messages and two operations. -/
def Builder.addEvent (b : Builder) (e : EventEntry) : Builder where
  messages := ((b.messages.set (subscribeKey e) (subscribeMessage e)).set (subscribedKey e)
    (subscribedMessage e)).set (eventKey e) (eventMessage e)
  operations := (b.operations.set (subscribeKey e) (subscribeOperation e)).set (eventKey e)
    (eventOperation e)

/-! ## What is no module's

Four messages and two operations are there once per document: the error reply, the unsubscribe
request with its answer, and the notice that a subscription has ended. They are put in last, so
that a member of a module whose key is one of theirs gives way to them. -/

/-- Marks what belongs to the bridge and not to a module. -/
def bridgeOwn (obj : Json) : Json := obj.set (str "x-logos-bridge-op") (.bool true)

/-- The one reply every request can get instead of its result; it has no operation of its own, so
it keeps its description. -/
def errorMessage : Json :=
  bridgeOwn (addText (message kErrorMessage (str "JSON-RPC error") []
    (closedObject (Json.object [
        (str "jsonrpc", constSchema (str "2.0")),
        (str "id", schemaRef (str "JsonRpcId")),
        (str "error", schemaRef (str "JsonRpcError"))])
      (texts ["jsonrpc", "id", "error"]))
    byRequestId)
    (str ("The bridge refused or could not complete a request. Denied, unexposed and unknown " ++
      "targets all get the same -32601.")))

def unsubscribeMessage : Json :=
  bridgeOwn (message kUnsubscribeMessage (str "Unsubscribe") []
    (requestPayload (str "rpc.unsubscribe")
      (closedObject (Json.object [(str "subscription", schemaRef (str "SubscriptionId"))])
        (texts ["subscription"])) true)
    byRequestId)

def unsubscribedMessage : Json :=
  bridgeOwn (message kUnsubscribedMessage (str "Unsubscribed")
    (str "The subscription is gone (or never was).")
    (resultPayload (closedObject (Json.object [
        (str "subscription", schemaRef (str "SubscriptionId")),
        (str "operation", constSchema (str "unsubscribe"))])
      (texts ["subscription", "operation"])))
    byRequestId)

def terminatedMessage : Json :=
  bridgeOwn (message kTerminatedMessage (str "Subscription terminated") []
    (notificationPayload kTerminatedMessage
      (closedObject (Json.object [
          (str "subscription", schemaRef (str "SubscriptionId")),
          (str "module", typeIs "string"),
          (str "event", typeIs "string"),
          (str "reason", Json.object [
            (str "type", text "string"),
            (str "description", text ("provider_unavailable (the provider went away) or " ++
              "provider_changed (a different build replaced it); other reasons may be added."))])])
        (texts ["subscription", "module", "event", "reason"])))
    bySubscription)

/-- A shared operation, described. -/
def describedOperation (op : Json) (title summary description : Bytes) : Json :=
  bridgeOwn (((op.set (str "title") (.str title)).set (str "summary") (.str summary)).set
    (str "description") (.str description))

def unsubscribeText : BridgeOpText := (bridgeOp (str "rpc.unsubscribe")).getD ⟨[], [], []⟩

def unsubscribeOperation : Json :=
  describedOperation (receiveWithReply kUnsubscribeMessage [kUnsubscribedMessage, kErrorMessage])
    kUnsubscribeMessage unsubscribeText.summary unsubscribeText.description

def terminatedOperation : Json :=
  describedOperation (sendOnly kTerminatedMessage) kTerminatedMessage
    (str "Tell a subscriber its subscription ended.")
    (str ("The provider went away or was replaced by a different build, so the subscription ended " ++
      "rather than silently resuming with a gap. Subscribe again (with any id) to resume, and " ++
      "refetch state."))

/-- The four messages, and the operations of two of them. -/
def Builder.addShared (b : Builder) : Builder where
  messages := (((b.messages.set kErrorMessage errorMessage).set kUnsubscribeMessage
    unsubscribeMessage).set kUnsubscribedMessage unsubscribedMessage).set kTerminatedMessage
    terminatedMessage
  operations := (b.operations.set kUnsubscribeMessage unsubscribeOperation).set kTerminatedMessage
    terminatedOperation

/-! ## Components

The schemas that the payloads refer to, and where in a message its correlation id is found. The
record types of the typed modules are added to the schemas module by module. -/

/-- The schemas that every document of the bridge has. -/
def schemaComponents : Json :=
  Json.object [
    (str "Bytes", bytesSchema),
    (str "LogosResult", logosResultSchema),
    (str "ProviderRejection", providerRejectionSchema),
    (str "JsonRpcError", jsonRpcErrorSchema),
    (str "JsonRpcId", jsonRpcIdSchema),
    (str "SubscriptionId", subscriptionIdSchema),
    (str "SubscriptionState", subscriptionStateSchema),
    (str "NoParams", noParamsSchema),
    (str "EventGeneration", eventGenerationSchema),
    (str "EventTimestamp", eventTimestampSchema)]

def correlationIds : Json :=
  Json.object [
    (str "requestId", Json.object [
      (str "location", text "$message.payload#/id"),
      (str "description", text "The JSON-RPC id: a reply echoes its request's id.")]),
    (str "subscriptionId", Json.object [
      (str "location", text "$message.payload#/params/subscription"),
      (str "description", text "The caller-assigned subscription id from rpc.subscribe.")])]

def kInfoDescription : Bytes :=
  str ("The WebSocket endpoint of the Logos JSON-RPC bridge. Operations are the bridge's: it " ++
    "receives requests, each answered by a reply carrying the result or an rpc.error, and it " ++
    "sends event notifications and subscription terminations. Replies are correlated with " ++
    "requests by the JSON-RPC id, events by the caller-assigned subscription id. Module methods " ++
    "use the `<module>.<method>` alias of rpc.call, typed from the module's canonical LIDL " ++
    "contract when it has one (x-logos-untyped marks names-only modules). The other bridge " ++
    "operations (rpc.call, rpc.schema, rpc.ping, ...) are described by rpc.discover.")

/-- The messages of the channel: a reference to each one there is. -/
def channelMessages (messages : Json) : Json :=
  match messages with
  | .obj ms => ms.foldl (fun out kv =>
      out.set kv.1 (refTo (str "#/components/messages/" ++ kv.1))) (Json.object [])
  | _ => Json.object []

end AsyncApi

/-! ## The document

The builder runs over all methods, then over all events, and ends with what is shared. The
channel lists whatever has been collected by then. -/

/-- What is collected in the end. -/
def asyncApiBuilder (ctx : DocContext) : AsyncApi.Builder :=
  ((eventEntries ctx).foldl AsyncApi.Builder.addEvent
    ((methodEntries ctx).foldl AsyncApi.Builder.addMethod {})).addShared

/-- The shared components, and the records of every typed module. -/
def asyncApiSchemas (ctx : DocContext) : Json :=
  (ctx.modules.filter isTyped).foldl
    (fun schemas m => addRecordComponents schemas m.name m.interface .draft07)
    AsyncApi.schemaComponents

def asyncApiServers (ctx : DocContext) : Json :=
  Json.object [(str "bridge", Json.object [
    (str "host", .str (hostPort ctx)),
    (str "protocol", text "ws"),
    (str "description", text ("Loopback only. Text frames only; Host and Origin are checked on " ++
      "the upgrade."))])]

def asyncApiHeaders (ctx : DocContext) : Json :=
  Json.object [
    (str "type", text "object"),
    (str "properties", Json.object [(str "Sec-WebSocket-Protocol", Json.object [
      (str "type", text "string"),
      (str "const", .str (safe ctx.subprotocol)),
      (str "description", text "The subprotocol to offer.")])])]

def asyncApiChannels (ctx : DocContext) (messages : Json) : Json :=
  Json.object [(AsyncApi.kChannel, Json.object [
    (str "address", .str (safe ctx.wsPath)),
    (str "title", text "JSON-RPC 2.0 over WebSocket"),
    (str "description", text ("Every request, reply and notification travels on this one " ++
      "connection. A slow reader is closed, not silently skipped; see x-logos-ws-close-codes.")),
    (str "messages", AsyncApi.channelMessages messages),
    (str "bindings", Json.object [(str "ws", Json.object [
      (str "method", text "GET"),
      (str "headers", asyncApiHeaders ctx),
      (str "bindingVersion", text "0.1.0")])])])]

/-- `buildAsyncApi`. -/
def buildAsyncApi (ctx : DocContext) : Json :=
  let b := asyncApiBuilder ctx
  Json.object [
    (str "asyncapi", .str kAsyncApiVersion),
    (str "info", Json.object [
      (str "title", .str (safe ctx.title)),
      (str "version", .str (safe ctx.bridgeVersion)),
      (str "description", .str AsyncApi.kInfoDescription)]),
    (str "defaultContentType", text "application/json"),
    (str "servers", asyncApiServers ctx),
    (str "channels", asyncApiChannels ctx b.messages),
    (str "operations", b.operations),
    (str "components", Json.object [
      (str "schemas", asyncApiSchemas ctx),
      (str "messages", b.messages),
      (str "correlationIds", AsyncApi.correlationIds)]),
    (str "x-logos-ws-close-codes", closeCodes ctx.limits),
    (str "x-logos-modules", xLogosModules ctx)]

end JsonRpcBridge.Docs
