import JsonRpcBridge.ErrorMap
import JsonRpcBridge.Interleaving.Basic
import JsonRpcBridge.Subscriptions.Table
import JsonRpcBridge.Upstream.Members
import JsonRpcBridge.Upstream.Threads

/-!
# Subscriptions across the bridge

What `BridgeCore` does with subscriptions, over the hub, the tables of all connections and
`m_subscribers`, as a program of atomic sections.

Three kinds of thread take part. The *service thread* of libwebsockets runs `attach`, `detach`,
`onClosed` and the subscribe and unsubscribe requests of `handleOne`; there is one, and `Service`
says where it stands. *Pump jobs* run `add` and what follows it. *Delivery threads* bring losses and
events. A thread outside the service thread is a list of `Section`s.

Some choices of the model:

* Requests are those that passed their checks (`parseRequest`, `eventPermitted`).
* `Batch` decides when an answer that has been filled in is sent. Here each answer is sent by a
  thread of its own, at any later time and in any order, which covers every batch.
* A socket is a fresh name for each connection accepted, where the source reuses `wsi` pointers.
* `unsubscribed`, `claimed` and `closed` are history, which the source does not keep.
-/

namespace JsonRpcBridge.Subscriptions

open Interleaving Upstream

/-! ## State

The tables of the connections, `m_subscribers`, and the hub of `Upstream`, with the numbers that
are given out. -/

/-- One fresh claim: what the pump job of an `rpc.subscribe` captures, and what `m_subscribers`
holds of it. `owner` is the subscriber id. -/
structure Subscription where
  owner : Nat
  conn : Nat
  clientId : ClientId
  key : Key
  deriving DecidableEq

structure Conn where
  socket : Nat := 0
  isWebsocket : Bool := false
  subs : SubscriptionTable := []

/-- A frame about a subscription that is passed to `send`. -/
inductive Message where
  | registered (sub : Subscription)
  | active (id : ClientId) (key : Key)
  /-- `removed` is the subscription the request took, if there was one. -/
  | unsubscribed (id : ClientId) (removed : Option Subscription)
  | refused (err : MappedError)
  | terminated (sub : Subscription) (key : Key) (why : Bytes)
  | event (sub : Subscription) (key : Key) (payload : Json) (generation : Nat)

inductive Request where
  | subscribe (id : ClientId) (key : Key)
  | unsubscribe (id : ClientId)

/-- Where the service thread stands, with the requests of the same body still to handle. -/
inductive Service where
  | idle
  | requests (c : Nat) (rest : List Request)
  /-- Before `m_subscribers[sid] = …`. -/
  | register (sub : Subscription) (rest : List Request)
  /-- Before `m_pump.submit`. -/
  | submit (sub : Subscription) (rest : List Request)
  /-- `abandonSubscribe` of a job the pump did not take, in two steps. -/
  | dropSubscriber (sub : Subscription) (rest : List Request)
  | releaseKey (sub : Subscription) (rest : List Request)
  /-- Unsubscribe, before `m_subscribers.erase`. -/
  | forget (sub : Subscription) (rest : List Request)
  /-- Unsubscribe, before `m_hub.remove`. -/
  | unhook (sub : Subscription) (rest : List Request)
  /-- `onClosed`, before it takes `m_subMu`. -/
  | sweep (socket c : Nat)
  /-- `onClosed`, with the ids still to remove from the hub. -/
  | unhookAll (socket : Nat) (ids : List Nat)

structure Shared where
  hub : Hub := {}
  conns : Nat → Conn := fun _ => {}
  nextConn : Nat := 0
  /-- `m_conns`. -/
  current : Nat → Option Nat := fun _ => none
  /-- The sockets whose `detach` has returned. -/
  closed : Nat → Bool := fun _ => false
  /-- `m_subscribers`. -/
  subscribers : Nat → Option Subscription := fun _ => none
  nextSubscriberId : Nat := 1
  service : Service := .idle
  /-- What has been passed to `send`, and on which connection. -/
  sent : List (Nat × Message) := []
  claimed : Nat → Option Subscription := fun _ => none
  unsubscribed : List Subscription := []

/-- What a thread other than the service thread does next. -/
inductive Section where
  | hub (x : Pc Subscription)
  /-- `abandonSubscribe` of a job whose `add` failed, in two steps. -/
  | dropSubscriber (sub : Subscription)
  | releaseKey (sub : Subscription)
  /-- `onSubscriptionLost`, after it released `m_subMu`. -/
  | release (sub : Subscription) (key : Key) (why : Bytes)
  | send (c : Nat) (m : Message)

namespace Shared

def setSubs (sh : Shared) (c : Nat) (subs : SubscriptionTable) : Shared :=
  { sh with conns := Function.update sh.conns c { sh.conns c with subs } }

/-- `m_subscribers.erase(sid)`. -/
def eraseSubscriber (sh : Shared) (sid : Nat) : Shared :=
  { sh with subscribers := Function.update sh.subscribers sid none }

/-- `conn->subs.release(key, sid)`. -/
def releaseKey (sh : Shared) (sub : Subscription) : Shared :=
  sh.setSubs sub.conn ((sh.conns sub.conn).subs.release sub.clientId sub.owner)

/-- `m_conns` holds the connection. -/
def attached (sh : Shared) (c : Nat) : Bool := sh.current (sh.conns c).socket == some c

/-- The subscribers of a connection. -/
def subscribersOf (sh : Shared) (c : Nat) : List Nat :=
  (List.range sh.nextSubscriberId).filter fun sid => (sh.subscribers sid).any (·.conn == c)

end Shared

/-! ## Sections

Everything that runs on other threads than the service thread: jobs of the pump, the hub, notices
and sends. -/

/-- What the environment decides inside a section. `valid` is the answer of a client's `subscribe`.
`alive` says whether a connection that `m_conns` no longer holds still exists. -/
structure Choice where
  valid : Bool := true
  alive : Bool := false

def exec (sh : Shared) (x : Section) (ch : Choice) : Option (Effect Shared Section) :=
  match x with
  | .hub (.added sub true) => some { shared := sh, next := [.send sub.conn (.registered sub)] }
  | .hub (.added sub false) => some { shared := sh, next := [.dropSubscriber sub] }
  | .hub (.onLost sid key why) =>
    match sh.subscribers sid with
    | none => some { shared := sh }
    | some sub =>
      some { shared := sh.eraseSubscriber sid
             next := if ch.alive || sh.attached sub.conn then [.release sub key why] else [] }
  | .hub (.sink sid key payload generation) =>
    match sh.subscribers sid with
    | none => some { shared := sh }
    | some sub =>
      some { shared := sh
             next := if ch.alive || sh.attached sub.conn then
               [.send sub.conn (.event sub key payload generation)] else [] }
  | .hub x =>
    (sh.hub.exec x ch.valid).map fun r =>
      { shared := { sh with hub := r.1 }, next := r.2.map .hub }
  | .dropSubscriber sub =>
    some { shared := sh.eraseSubscriber sub.owner, next := [.releaseKey sub] }
  | .releaseKey sub =>
    some { shared := sh.releaseKey sub, next := [.send sub.conn (.refused notFound)] }
  | .release sub key why =>
    some { shared := sh.releaseKey sub, next := [.send sub.conn (.terminated sub key why)] }
  | .send c m => some { shared := { sh with sent := sh.sent ++ [(c, m)] } }

/-! ## The service thread

It handles one request after another, and cleans up after a socket that has closed. Each critical
section of it is a state of `Service`. -/

def tooManySubscriptions : MappedError := ⟨kOverloaded, .notReady, str "too many subscriptions"⟩
def shuttingDown : MappedError := ⟨kShuttingDown, .notReady, str "shutting down"⟩

/-- `rpc.subscribe`, up to the claim. -/
def subscribe (limit : Int) (sh : Shared) (c : Nat) (id : ClientId) (key : Key)
    (rest : List Request) : Effect Shared Section :=
  let sid := sh.nextSubscriberId
  let next := { sh with nextSubscriberId := sid + 1, service := .requests c rest }
  match (sh.conns c).subs.claim id key sid limit with
  | (.full, _) => { shared := next, spawn := [[.send c (.refused tooManySubscriptions)]] }
  | (.duplicate, _) => { shared := next, spawn := [[.send c (.active id key)]] }
  | (.fresh, subs) =>
    let sub : Subscription := ⟨sid, c, id, key⟩
    { shared := { next.setSubs c subs with
        service := .register sub rest, claimed := Function.update sh.claimed sid (some sub) } }

/-- `rpc.unsubscribe`, up to the table. -/
def unsubscribe (sh : Shared) (c : Nat) (id : ClientId) (rest : List Request) :
    Effect Shared Section :=
  match (sh.conns c).subs.take id with
  | (none, _) =>
    { shared := { sh with service := .requests c rest }, spawn := [[.send c (.unsubscribed id none)]] }
  | (some held, subs) =>
    { shared := { sh.setSubs c subs with service := .forget ⟨held.owner, c, id, held.key⟩ rest } }

/-- The next step of the service thread. `queued` is what `m_pump.submit` answers. -/
def serve (limit : Int) (sh : Shared) (queued : Bool) : Option (Effect Shared Section) :=
  match sh.service with
  | .idle => none
  | .requests _ [] => some { shared := { sh with service := .idle } }
  | .requests c (.subscribe id key :: rest) => some (subscribe limit sh c id key rest)
  | .requests c (.unsubscribe id :: rest) => some (unsubscribe sh c id rest)
  | .register sub rest =>
    some { shared := { sh with
      subscribers := Function.update sh.subscribers sub.owner (some sub), service := .submit sub rest } }
  | .submit sub rest =>
    if queued then
      some { shared := { sh with service := .requests sub.conn rest }
             spawn := [[.hub (.add sub sub.key sub.owner)]] }
    else some { shared := { sh with service := .dropSubscriber sub rest } }
  | .dropSubscriber sub rest =>
    some { shared := { sh.eraseSubscriber sub.owner with service := .releaseKey sub rest } }
  | .releaseKey sub rest =>
    some { shared := { sh.releaseKey sub with service := .requests sub.conn rest }
           spawn := [[.send sub.conn (.refused shuttingDown)]] }
  | .forget sub rest =>
    some { shared := { sh.eraseSubscriber sub.owner with service := .unhook sub rest } }
  | .unhook sub rest =>
    (sh.hub.exec (.remove sub.key sub.owner : Pc Subscription) true).map fun r =>
      { shared := { sh with
          hub := r.1, service := .requests sub.conn rest, unsubscribed := sub :: sh.unsubscribed }
        spawn := [[.send sub.conn (.unsubscribed sub.clientId (some sub))]] }
  | .sweep socket c =>
    some { shared := { sh with
      subscribers := fun sid => (sh.subscribers sid).filter fun sub => sub.conn != c
      service := .unhookAll socket (sh.subscribersOf c) } }
  | .unhookAll socket [] =>
    some { shared := { sh with closed := Function.update sh.closed socket true, service := .idle } }
  | .unhookAll socket (sid :: ids) =>
    (sh.hub.exec (.removeEverywhere sid : Pc Subscription) true).map fun r =>
      { shared := { sh with hub := r.1, service := .unhookAll socket ids } }

/-- The request that the service thread handles next. -/
def Service.next? : Service → Option (Nat × Request)
  | .requests c (r :: _) => some (c, r)
  | _ => none

theorem Service.next?_eq_some {sv : Service} {c : Nat} {r : Request} :
    sv.next? = some (c, r) ↔ ∃ rest, sv = .requests c (r :: rest) := by
  constructor
  · intro h
    unfold Service.next? at h
    split at h
    · cases h
      exact ⟨_, rfl⟩
    · cases h
  · rintro ⟨rest, rfl⟩
    rfl

/-! ## Entry points

What lws does with sockets and requests, and what comes from upstream. -/

inductive BridgeEntry where
  /-- An HTTP request begins on a socket, or a WebSocket is established on it. -/
  | attach (socket : Nat) (isWebsocket : Bool)
  | body (c : Nat) (requests : List Request)
  | detach (socket : Nat)
  | serve (queued : Bool)
  | status (module : Bytes) (epoch : Nat) (gone : Bool)
  | moduleLost (module : Bytes) (why : Bytes)
  | deliver (a : Nat) (payload : Json)
  | replace (module : Bytes)

/-- The service thread goes on. -/
def BridgeEntry.serves : BridgeEntry → Bool
  | .serve _ => true
  | _ => false

/-- `attach`, `onBody` and `detach` begin on an idle service thread. A socket that carries a
WebSocket is not attached again. -/
def enter (limit : Int) (sh : Shared) : BridgeEntry → Option (Effect Shared Section)
  | .attach socket isWebsocket =>
    match sh.service, sh.closed socket,
      (sh.current socket).any fun c => (sh.conns c).isWebsocket with
    | .idle, false, false =>
      some { shared := { sh with
        conns := Function.update sh.conns sh.nextConn { socket, isWebsocket }
        nextConn := sh.nextConn + 1
        current := Function.update sh.current socket (some sh.nextConn) } }
    | _, _, _ => none
  | .body c requests =>
    match sh.service, sh.attached c with
    | .idle, true => some { shared := { sh with service := .requests c requests } }
    | _, _ => none
  | .detach socket =>
    match sh.service, sh.current socket with
    | .idle, some c =>
      let sh := { sh with current := Function.update sh.current socket none }
      some { shared :=
        if (sh.conns c).isWebsocket then { sh with service := .sweep socket c }
        else { sh with closed := Function.update sh.closed socket true } }
    | _, _ => none
  | .serve queued => serve limit sh queued
  | .status m epoch gone => some { shared := sh, next := [.hub (.status m epoch gone)] }
  | .moduleLost m why => some { shared := sh, next := [.hub (.moduleLost m why)] }
  | .deliver a payload => some { shared := sh, next := [.hub (.deliver a payload)] }
  | .replace m =>
    let clients := sh.hub.clients.replace m
    some { shared := { sh with hub := { sh.hub with clients } }
           next := [.hub (.retire m (clients.epoch m)), .hub (.rebind m)] }

/-- The subscription side of the bridge; `limit` is `maxSubscriptionsPerConnection`. -/
def bridge (limit : Int) : Program Shared Section Choice BridgeEntry where
  exec := exec
  enter := enter limit

def start : State Shared Section where
  shared := {}

/-! ## A run to start from

One connection with one subscription, up to its acknowledgement. -/

/-- The event the example runs subscribe to. -/
def someEvent : Key := ⟨str "m", str "e"⟩

/-- A WebSocket is established and subscribes to `someEvent` as `s`; its job, thread 5, is queued.
-/
def subscribing : List (Move Choice BridgeEntry) :=
  [.enter (.attach 0 true), .enter (.body 0 [.subscribe (str "s") someEvent]),
   .enter (.serve true), .enter (.serve true), .enter (.serve true), .enter (.serve true)]

/-- The job runs, up to the answer it sends. -/
def subscribed : List (Move Choice BridgeEntry) := subscribing ++ List.replicate 8 (.run 5 {})

end JsonRpcBridge.Subscriptions
