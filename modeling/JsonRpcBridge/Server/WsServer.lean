import JsonRpcBridge.Assoc
import JsonRpcBridge.Server.Http
import Mathlib.Algebra.Group.Int.Defs

/-!
# The WebSocket and HTTP transport

`WsServer` of `ws_server.cpp`: the connection table, and what `dispatch` does in each lws callback.
What lws and the hooks answer inside a callback is `Answers`; what a callback hands to the hooks and
to lws is a list of `Output`s. `send` and `requestClose`, which other threads call, are one step
each: the connection they find is still the one they write to, or it has gone and the write is lost
either way.
-/

namespace JsonRpcBridge.Server

/-! ## State

The table and the connections in it, what lws says of a socket, and what a callback answers and
puts out. -/

inductive CloseReason where
  | none
  | policy
  | tooBig
  | unsupported
  | shutdown
  deriving DecidableEq

/-- Per-connection state. -/
structure Conn where
  id : Nat
  isWebsocket : Bool
  authenticated : Bool
  peer : Bytes
  /-- Complete frames, oldest first. -/
  outbound : List Bytes := []
  /-- A frame that lws took only part of, up to `partialOffset`. -/
  partialFrame : Bytes := []
  partialOffset : Nat := 0
  wantClose : CloseReason := .none
  /-- The POST body, or the message, being assembled. -/
  httpBody : Bytes := []
  httpRoute : Bytes := []
  httpStatus : Nat := 200
  httpClose : Bool := false
  httpOut : Option HttpBodyWriter := none

/-- The connection table; sockets and connections are numbered. -/
structure WsServer where
  conns : List (Nat × Conn) := []
  peerSlots : PeerSlots := {}
  nextConnId : Nat := 1
  /-- The sockets to poke after a cross-thread wake. -/
  pending : List Nat := []

/-- The socket of a callback, and what lws knows about it. -/
structure Lws where
  wsi : Nat
  peer : Bytes
  /-- `lws_get_network_wsi(wsi) != wsi`. -/
  h2Stream : Bool
  headers : Headers

/-- What lws and the hooks answer inside one callback. -/
structure Answers where
  /-- The body and the status of the `onGet` hook. -/
  onGet : Bytes × Nat := ([], 404)
  /-- The headers, or the page of `writeStatus`, are written. -/
  writeOk : Bool := true
  /-- What `lws_write` took; `none` is a failure. -/
  wrote : Option Nat := some 0
  /-- `lws_http_transaction_completed` returns 0: lws keeps the socket for the next request. -/
  keepAlive : Bool := true

/-- What a callback hands to the hooks and to lws. -/
inductive Output where
  | onBody (c : Conn) (body : Bytes) (isWebsocket : Bool)
  | onGet (path : Bytes)
  | onClosed (c : Conn)
  | statusPage (code : Nat) (close : Bool)
  | httpHeaders (status length : Nat) (close : Bool)
  | httpSlice (slice : Bytes) (last : Bool)
  | frame (taken : Bytes)
  | closeReason (why : CloseReason)

/-- The end of a callback. `completed` says that `lws_http_transaction_completed` returned 0. -/
structure Outcome where
  server : WsServer
  ret : Int := 0
  completed : Bool := false
  outputs : List Output := []

/-- `static_cast<std::size_t>(n)`. -/
def sizeT (n : Int) : Nat := (n % 2 ^ 64).toNat

namespace WsServer

variable (cfg : BridgeConfig) (checkBearer : Option (Bytes → Bool))

/-! ## The connection table

`m_conns` is a list of sockets and connections, with the operations of the source on it. A
connection is found by its socket in a callback, and by its number from other threads. -/

def lookup (s : WsServer) (wsi : Nat) : Option Conn := s.conns.lookup wsi

/-- `m_conns[wsi] = c`, and every change to the connection of `wsi`. -/
def put (s : WsServer) (wsi : Nat) (c : Conn) : WsServer :=
  { s with conns := (s.conns.filter fun e => e.1 != wsi) ++ [(wsi, c)] }

/-- A change to the connection `id`, whatever its socket. -/
def update (s : WsServer) (id : Nat) (f : Conn → Conn) : WsServer :=
  { s with conns := s.conns.map fun e => (e.1, if e.2.id = id then f e.2 else e.2) }

/-- The first socket of the connection `id`. -/
def socketOf (s : WsServer) (id : Nat) : Option Nat :=
  (s.conns.find? fun e => e.2.id == id).map Prod.fst

def wake (s : WsServer) (wsi : Nat) : WsServer :=
  { s with pending := if wsi ∈ s.pending then s.pending else wsi :: s.pending }

def attach (s : WsServer) (v : Lws) (isWebsocket : Bool) : Conn × WsServer :=
  let c : Conn :=
    { id := s.nextConnId
      isWebsocket := isWebsocket
      authenticated := cfg.authMode == .none
      peer := v.peer }
  (c, { s.put v.wsi c with
    nextConnId := s.nextConnId + 1
    peerSlots := s.peerSlots.acquire v.wsi v.peer })

def detach (s : WsServer) (wsi : Nat) : Outcome :=
  let s := { s with peerSlots := s.peerSlots.release wsi }
  match s.lookup wsi with
  | none => { server := s }
  | some c =>
    { server :=
        { s with
          conns := s.conns.filter fun e => e.1 != wsi
          pending := s.pending.filter (· != wsi) }
      outputs := if c.isWebsocket then [.onClosed c] else [] }

/-! ## From any thread

Both put the socket into `m_pending` and wake the service thread, which asks lws for a writeable
callback. -/

/-- Queue a frame for one connection. -/
def send (s : WsServer) (id : Nat) (frame : Bytes) : WsServer :=
  match s.socketOf id with
  | none => s
  | some wsi =>
    (s.update id fun c =>
      if (c.outbound.length : Int) ≥ cfg.limits.maxQueuedFramesPerConnection then
        -- closing the slow reader: a dropped frame would be a silent gap
        { c with wantClose := .policy }
      else { c with outbound := c.outbound ++ [frame] }).wake wsi

/-- Request a close; the service thread performs it. -/
def requestClose (s : WsServer) (id : Nat) (why : CloseReason) : WsServer :=
  let s := s.update id fun c => { c with wantClose := why }
  match s.socketOf id with
  | none => s
  | some wsi => s.wake wsi

/-! ## HTTP callbacks

A request is checked and refused, or it gets a connection of its own; a `GET` is answered at
once, a `POST` after its body. -/

/-- Answer without reading the body. -/
def refuse (s : WsServer) (v : Lws) (a : Answers) (code : Nat) : Outcome :=
  let close := !v.h2Stream && bodyFollows (framing v.headers)
  if !a.writeOk then { server := s, ret := -1 }
  else if close then { server := s, ret := -1, outputs := [.statusPage code true] }
  else
    { server := s
      ret := if a.keepAlive then 0 else -1
      completed := a.keepAlive
      outputs := [.statusPage code false] }

def http (s : WsServer) (v : Lws) (a : Answers) (path : Option Bytes) : Outcome :=
  let path := path.getD (str "/")
  if !hostAllowed cfg v.headers || !originAllowed cfg v.headers then s.refuse v a 403
  else if !authorized cfg checkBearer v.headers then s.refuse v a 401
  else if v.headers.postUri.isEmpty then
    let status := if a.onGet.1.isEmpty && a.onGet.2 == 200 then 404 else a.onGet.2
    let (c, s) := s.attach cfg v false
    { server := s.put v.wsi
        { c with
          httpClose := !v.h2Stream && bodyFollows (framing v.headers)
          httpStatus := status
          outbound := [a.onGet.1] }
      outputs := [.onGet path] }
  else if !startsWith (str "application/json") v.headers.contentType then s.refuse v a 415
  else if !usableLength (framing v.headers) then s.refuse v a 411
  else
    let (c, s) := s.attach cfg v false
    { server := s.put v.wsi { c with httpRoute := path } }

def httpBody (s : WsServer) (v : Lws) (data : Bytes) : Outcome :=
  match s.lookup v.wsi with
  | none => { server := s }
  | some c =>
    if c.httpRoute.isEmpty then { server := s }   -- only a POST has a route
    else if c.httpBody.length + data.length > sizeT cfg.limits.maxBodyBytes then
      { server := s, ret := 1 }
    else { server := s.put v.wsi { c with httpBody := c.httpBody ++ data } }

def httpBodyCompletion (s : WsServer) (v : Lws) : Outcome :=
  match s.lookup v.wsi with
  | none => { server := s }
  | some c =>
    if c.httpRoute.isEmpty then { server := s }
    else
      let c' := { c with httpBody := [] }
      { server := s.put v.wsi c', outputs := [.onBody c' c.httpBody false] }

/-- One slice of the response. -/
def writeSlice (s : WsServer) (v : Lws) (a : Answers) (c : Conn) (w : HttpBodyWriter) : Outcome :=
  let (slice, last, w) := w.next
  match a.wrote with
  | none => { server := s.put v.wsi { c with httpOut := some w }, ret := 1 }
  | some _ =>
    if !last then
      { server := s.put v.wsi { c with httpOut := some w }, outputs := [.httpSlice slice false] }
    else
      let s := s.put v.wsi { c with httpOut := none }
      if c.httpClose then { server := s, ret := -1, outputs := [.httpSlice slice true] }
      else
        { server := s
          ret := if a.keepAlive then 0 else -1
          completed := a.keepAlive
          outputs := [.httpSlice slice true] }

def httpWriteable (s : WsServer) (v : Lws) (a : Answers) : Outcome :=
  match s.lookup v.wsi with
  | none => { server := s }
  | some c =>
    match c.httpOut with
    | some w => s.writeSlice v a c w
    | none =>
      match c.outbound with
      | [] => { server := s }
      | body :: rest =>
        let c := { c with outbound := rest }
        if !a.writeOk then { server := s.put v.wsi c, ret := 1 }
        else
          let o := s.writeSlice v a c { body := body }
          { o with outputs := .httpHeaders c.httpStatus body.length c.httpClose :: o.outputs }

/-! ## WebSocket callbacks

An upgrade is checked in the filter and attached by `ESTABLISHED`. Its messages are collected,
and its queue is written one frame for each callback. -/

/-- The bounds on connections leave room for this socket, or it has its place already. -/
def hasRoom (s : WsServer) (v : Lws) : Bool :=
  ((s.lookup v.wsi).isSome || (s.conns.length : Int) < cfg.limits.maxConnections) &&
    (s.peerSlots.holds v.wsi || s.peerSlots.admits v.peer cfg.limits.maxConnectionsPerPeer)

def filterProtocolConnection (s : WsServer) (v : Lws) : Outcome :=
  if !hostAllowed cfg v.headers || !originAllowed cfg v.headers then { server := s, ret := 1 }
  else if !authorized cfg checkBearer v.headers && cfg.authMode == .bearer &&
      v.headers.origin.isEmpty then { server := s, ret := 1 }
  else { server := s, ret := if s.hasRoom cfg v then 0 else 1 }

def established (s : WsServer) (v : Lws) : Outcome :=
  let (c, s) := s.attach cfg v true
  { server := s.put v.wsi { c with authenticated := authorized cfg checkBearer v.headers } }

def receive (s : WsServer) (v : Lws) (data : Bytes) (binary final : Bool) : Outcome :=
  match s.lookup v.wsi with
  | none => { server := s }
  | some c =>
    if binary then { server := s.requestClose c.id .unsupported }
    else
      let body := c.httpBody ++ data
      if body.length > sizeT cfg.limits.maxFrameBytes then
        { server := (s.put v.wsi { c with httpBody := [] }).requestClose c.id .tooBig }
      else if !final then { server := s.put v.wsi { c with httpBody := body } }
      else
        let c' := { c with httpBody := [] }
        { server := s.put v.wsi c', outputs := [.onBody c' body true] }

/-- Offers lws the next frame, or what it left of one. -/
def writeQueued (s : WsServer) (v : Lws) (a : Answers) (c : Conn) : Outcome :=
  let go (c : Conn) (frame : Bytes) (offset : Nat) : Outcome :=
    match a.wrote with
    | none => { server := s.put v.wsi c, ret := -1 }
    | some n =>
      { server := s.put v.wsi
          (if n < frame.length - offset then
            { c with partialFrame := frame, partialOffset := offset + n }
          else { c with partialFrame := [], partialOffset := 0 })
        outputs := [.frame ((frame.drop offset).take n)] }
  if !c.partialFrame.isEmpty then go c c.partialFrame c.partialOffset
  else
    match c.outbound with
    | [] => { server := s }
    | frame :: rest => go { c with outbound := rest } frame 0

def serverWriteable (s : WsServer) (v : Lws) (a : Answers) : Outcome :=
  match s.lookup v.wsi with
  | none => { server := s }
  | some c =>
    if c.wantClose != .none then { server := s, ret := -1, outputs := [.closeReason c.wantClose] }
    else s.writeQueued v a c

end WsServer

/-! ## Dispatch

`dispatch` of the source switches on the reason, and so does this. -/

/-- The lws callbacks about one socket. -/
inductive Callback where
  | http (path : Option Bytes)
  | httpBody (data : Bytes)
  | httpBodyCompletion
  | httpWriteable
  | closedHttp
  | filterProtocolConnection
  | established
  | receive (data : Bytes) (binary final : Bool)
  | serverWriteable
  | closed
  | wsiDestroy

def WsServer.dispatch (cfg : BridgeConfig) (checkBearer : Option (Bytes → Bool)) (s : WsServer)
    (v : Lws) (a : Answers) : Callback → Outcome
  | .http path => s.http cfg checkBearer v a path
  | .httpBody data => s.httpBody cfg v data
  | .httpBodyCompletion => s.httpBodyCompletion v
  | .httpWriteable => s.httpWriteable v a
  | .closedHttp => s.detach v.wsi
  | .filterProtocolConnection => s.filterProtocolConnection cfg checkBearer v
  | .established => s.established cfg checkBearer v
  | .receive data binary final => s.receive cfg v data binary final
  | .serverWriteable => s.serverWriteable v a
  | .closed => s.detach v.wsi
  | .wsiDestroy => s.detach v.wsi

end JsonRpcBridge.Server
