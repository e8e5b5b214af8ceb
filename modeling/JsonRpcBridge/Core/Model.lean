import JsonRpcBridge.Dispatcher.Batch
import JsonRpcBridge.Interleaving.Lift
import JsonRpcBridge.Server.Responses

/-!
# The core of the bridge

`BridgeCore` between the server and the dispatcher. A body that lws has read comes to `onBody` with
its connection; batches, deliveries and losses give `send` a frame for a connection; and the service
thread writes what comes first in the queue of the connection. `core` is the program of all of them,
over any number of connections.

A request finds the subscribers as they are, and what it does to them is kept. The rest of the bridge
it finds, what upstream answers, and which subscribers the hub tells of an event or a loss is open.
-/

namespace JsonRpcBridge.Core

open Interleaving Dispatcher Server

/-! ## Notifications

The two messages that no request asked for. -/

/-- An event on its way to a subscriber. -/
structure Delivery where
  subscriberId : Nat
  module : Bytes
  event : Bytes
  data : Json
  generation : Nat

def kEvent : Bytes := str "rpc.event"
def kTerminated : Bytes := str "rpc.subscription_terminated"

def makeNotification (method : Bytes) (params : Json) : Json :=
  Json.object [(str "jsonrpc", .str (str "2.0")), (str "method", .str method), (str "params", params)]

/-- What `onEvent` makes of a delivery. -/
def eventNotice (clientId : Json) (d : Delivery) (ts : Int) : Json :=
  makeNotification kEvent (Json.object [(str "subscription", clientId), (str "module", .str d.module),
    (str "event", .str d.event), (str "data", d.data), (str "generation", .uint d.generation),
    (str "ts", .int ts)])

def terminationNotice (subscription : Json) (module event why : Bytes) : Json :=
  makeNotification kTerminated (Json.object [(str "subscription", subscription),
    (str "module", .str module), (str "event", .str event), (str "reason", .str why)])

/-! ## The state

The transport, the batches with the connection of each, and the subscribers. The rest is history:
what was handed to `onBody`, what was put into a queue and what was answered. -/

/-- What a frame in the queue of a connection is. -/
inductive Origin where
  /-- The refusal of a body that makes no batch. -/
  | refusal (route body : Bytes)
  | batch (k : Nat)
  /-- The body of a `GET`. -/
  | page
  | event (sid : Nat)
  | terminated (sid : Nat)
  deriving DecidableEq

/-- `rpc.event` and `rpc.subscription_terminated`. -/
def Origin.isNotification : Origin → Bool
  | .event _ | .terminated _ => true
  | _ => false

/-- A frame for the connection `conn`. -/
structure Queued where
  conn : Nat
  origin : Origin
  frame : Bytes

/-- What `onBody` is called with. -/
structure Posted where
  conn : Nat
  route : Bytes
  body : Bytes

/-- `conn` is `m_conn` of each batch. The fields below `nextSubscriberId` are history: the
connections as `attach` left them, the bodies read, the frames put into a queue and the responses
begun. -/
structure Shared where
  world : World := {}
  batches : Batches := {}
  conn : Nat → Nat := fun _ => 0
  /-- `m_subscribers`. -/
  subscribers : Nat → Option Subscriber := fun _ => none
  nextSubscriberId : Nat := 1
  opened : Nat → Option Conn := fun _ => none
  bodies : List Posted := []
  queued : List Queued := []
  responses : List Response := []

inductive Section where
  /-- `onBody`, up to its batch. -/
  | body (p : Posted)
  | batch (x : Dispatcher.Section)
  /-- `m_server->send`. -/
  | send (q : Queued)

/-- `draining` is what `onBody` reads of `m_draining`. -/
structure Choice extends Dispatcher.Choice where
  draining : Bool := false

inductive Entry where
  | transport (ev : Server.Event)
  | event (d : Delivery) (ts : Int)
  | lost (sid : Nat) (module event why : Bytes)
  /-- `onClosed` or `shutdown` erases a subscriber. -/
  | forget (sid : Nat)

namespace Shared

variable (cfg : BridgeConfig) (checkBearer : Option (Bytes → Bool)) (lib : Nlohmann) (sh : Shared)

def crash : Shared := { sh with batches := sh.batches.crash }

/-- `m_subscribers.erase(sid)`. -/
def forget (sid : Nat) : Shared :=
  { sh with subscribers := Function.update sh.subscribers sid none }

/-! ## Frames

A frame is dumped in the section that made it and put into the queue in the next, under the lock
of the server. -/

/-- `WsServer::send`. -/
def send (q : Queued) : Shared :=
  { sh with
    world := { sh.world with server := sh.world.server.send cfg q.conn q.frame }
    queued := if sh.world.server.takes cfg q.conn then sh.queued ++ [q] else sh.queued }

/-- A frame is dumped and sent, or the process ends. -/
def sends (conn : Nat) (origin : Origin) (notice : Json) : Effect Shared Section :=
  match lib.dump notice with
  | .ok frame => { shared := sh, next := [.send ⟨conn, origin, frame⟩] }
  | .error _ => { shared := sh.crash }

/-! ## Notices

A delivery is dropped where its subscriber is not in the table any more. -/

/-- A subscriber whose connection has gone is not told: `send` finds it no more. -/
def onEvent (d : Delivery) (ts : Int) : Effect Shared Section :=
  match sh.subscribers d.subscriberId with
  | none => { shared := sh }
  | some s => sh.sends lib s.conn (.event d.subscriberId) (eventNotice s.clientId d ts)

def onSubscriptionLost (sid : Nat) (module event why : Bytes) : Effect Shared Section :=
  match sh.subscribers sid with
  | none => { shared := sh }
  | some s =>
    (sh.forget sid).sends lib s.conn (.terminated sid)
      (terminationNotice s.clientId module event why)

/-! ## Bodies

A body gets a refusal or a batch. A section of the batch is then one of `Dispatcher`, which finds
the subscribers that are in the table. -/

def onBody (p : Posted) (draining : Bool) : Effect Shared Section :=
  match readBody cfg lib draining p.route p.body with
  | .answer response => sh.sends lib p.conn (.refusal p.route p.body) response
  | .dispatch requests single restShape =>
    { shared :=
        { sh with
          batches := sh.batches.add (newBatch p.route p.body requests single restShape)
          conn := Function.update sh.conn sh.batches.made p.conn }
      next := requests.mapIdx fun i raw => .batch (.handle sh.batches.made i raw) }

/-- The bridge as a request of batch `k` finds it. -/
def bridge (k : Nat) (b : Bridge) : Bridge :=
  { b with
    conn := sh.conn k
    subscribers := sh.subscribers
    nextSubscriberId := sh.nextSubscriberId }

/-- What a section does to the subscribers: `handleOne` may register or erase one, and a
subscription that the hub did not take is abandoned. -/
def subscribed (x : Dispatcher.Section) (c : Choice) : Shared :=
  match x with
  | .handle k _ raw =>
    match handleOne cfg lib (sh.bridge k c.bridge) raw with
    | .ok (_, now) =>
      { sh with subscribers := now.subscribers, nextSubscriberId := now.nextSubscriberId }
    | .error _ => sh
  | .job _ _ (.subscribe _ _ sid) => if c.told.added then sh else sh.forget sid
  | _ => sh

/-- What `flush` sends. -/
def answer : Dispatcher.Section → List Section
  | .send k slots =>
    match sh.batches.batch k with
    | none => []
    | some b =>
      match flush lib b.single b.restShape slots with
      | .ok frame => [.send ⟨sh.conn k, .batch k, frame⟩]
      | .error _ => []
  | _ => []

/-- A section of a batch. -/
def ofBatch (x : Dispatcher.Section) (c : Choice) : Option (Effect Shared Section) :=
  (Dispatcher.exec cfg lib sh.batches x { c with bridge := sh.bridge x.batch c.bridge }).map
    fun e =>
      let lifted : Effect Shared Section :=
        e.lift (fun batches => { sh.subscribed cfg lib x c with batches }) .batch
      { lifted with next := lifted.next ++ sh.answer lib x }

/-! ## Callbacks

What a callback of lws does is in `Server`; the bodies it hands over become sections here. -/

/-- The bodies among what callbacks handed out. -/
def bodiesOf (handed : List Handed) : List Posted :=
  handed.filterMap fun e =>
    match e.output with
    | .onBody c body _ => some ⟨c.id, c.httpRoute, body⟩
    | _ => none

/-- What the history keeps of a connection that the table has now and did not have before. -/
def opens (c : Conn) : Shared :=
  { sh with
    opened := Function.update sh.opened c.id (some c)
    queued := sh.queued ++ c.outbound.map (⟨c.id, .page, ·⟩) }

/-- One callback, and what it hands to `onBody`. -/
def callback (wsi : Nat) (cb : Callback) (a : Answers) : Option (Effect Shared Section) :=
  (sh.world.step cfg checkBearer (.callback wsi cb a)).map fun w =>
    let posted := bodiesOf (w.history.drop sh.world.history.length)
    let sh' : Shared :=
      { sh with
        world := w
        bodies := sh.bodies ++ posted
        responses := sh.responses ++ (begun sh.world.server wsi a cb).toList }
    { shared :=
        if w.server.nextConnId = sh.world.server.nextConnId then sh'
        else
          match w.server.lookup wsi with
          | none => sh'
          | some c => sh'.opens c
      next := posted.map .body }

end Shared

/-! ## The program

A choice is what the environment answers: lws, the bridge that a request finds, upstream. -/

section

variable (cfg : BridgeConfig) (checkBearer : Option (Bytes → Bool)) (lib : Nlohmann)

def exec (sh : Shared) (x : Section) (c : Choice) : Option (Effect Shared Section) :=
  if sh.batches.crashed then none
  else
    match x with
    | .body p => some (sh.onBody cfg lib p c.draining)
    | .batch x => sh.ofBatch cfg lib x c
    | .send q => some { shared := sh.send cfg q }

/-- Frames are sent by sections alone, and no thread but the service thread asks for a close. -/
def enter (sh : Shared) (ev : Entry) : Option (Effect Shared Section) :=
  if sh.batches.crashed then none
  else
    match ev with
    | .transport (.callback wsi cb a) => sh.callback cfg checkBearer wsi cb a
    | .transport (.send _ _) | .transport (.requestClose _ _) => none
    | .transport ev =>
      (sh.world.step cfg checkBearer ev).map fun w => { shared := { sh with world := w } }
    | .event d ts => some (sh.onEvent lib d ts)
    | .lost sid module event why => some (sh.onSubscriptionLost lib sid module event why)
    | .forget sid => some { shared := sh.forget sid }

/-- Any number of connections, batches and subscribers. -/
def core : Program Shared Section Choice Entry where
  exec := exec cfg lib
  enter := enter cfg checkBearer lib

abbrev start : State Shared Section := { shared := {} }

end

end JsonRpcBridge.Core
