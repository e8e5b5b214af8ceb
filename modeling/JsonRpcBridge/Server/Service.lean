import JsonRpcBridge.Server.Outbound

/-!
# The service thread and those who wake it

Only the service thread may call lws. Another thread that has something for a connection puts its
socket into `m_pending` and calls `lws_cancel_service`; lws then delivers
`LWS_CALLBACK_EVENT_WAIT_CANCELLED`, in which the service thread asks for a writeable callback for
every socket in there.

`service` is `transport` with this in it: `send` and `requestClose` take their locks one after
another, so that callbacks come between, and lws delivers what it owes.
-/

namespace JsonRpcBridge.Server

open Interleaving

/-! ## The two sides -/

/-- `writable` are the sockets that lws owes a writeable callback; `cancelled` says that it owes
`LWS_CALLBACK_EVENT_WAIT_CANCELLED`. The last two fields are history: the sockets that came into
`m_pending` when they were not in the table any more, and those that the service thread named to lws
when lws had freed them. -/
structure Service where
  world : World := {}
  writable : List Nat := []
  cancelled : Bool := false
  overtaken : List Nat := []
  stray : List Nat := []

/-- What a thread does in `send` or `requestClose` under one lock, or in one call. -/
inductive Caller where
  /-- `send` looks for its connection. -/
  | find (id : Nat) (frame : Bytes)
  /-- `send`, under `Conn::mu`. -/
  | enqueue (id wsi : Nat) (frame : Bytes)
  /-- `wantClose.store(why)`. -/
  | want (id : Nat) (why : CloseReason)
  /-- `requestClose` looks for its connection. -/
  | findClosing (id : Nat)
  /-- `m_pending.insert(wsi)`. -/
  | insert (wsi : Nat)
  /-- `lws_cancel_service`. -/
  | cancel

/-- What lws does, and the calls of other threads. -/
inductive Called where
  | event (ev : Event)
  /-- `LWS_CALLBACK_EVENT_WAIT_CANCELLED`. -/
  | waitCancelled
  | send (id : Nat) (frame : Bytes)
  | requestClose (id : Nat) (why : CloseReason)

variable (cfg : BridgeConfig) (checkBearer : Option (Bytes → Bool))

/-! ## The sections of a caller -/

/-- `send`, under `Conn::mu`; a connection that has left the table is written to all the same, and
nobody reads it. -/
def WsServer.enqueue (s : WsServer) (id : Nat) (frame : Bytes) : WsServer :=
  s.update id fun c => (c.offer cfg.limits.maxQueuedFramesPerConnection frame).1

def Service.withServer (s : Service) (server : WsServer) : Service :=
  { s with world := { s.world with server } }

/-- One section of a caller. -/
def Service.exec (s : Service) : Caller → Effect Service Caller
  | .find id frame =>
    match s.world.server.socketOf id with
    | none => { shared := s }
    | some wsi => { shared := s, next := [.enqueue id wsi frame] }
  | .enqueue id wsi frame =>
    { shared := s.withServer (s.world.server.enqueue cfg id frame), next := [.insert wsi] }
  | .want id why =>
    { shared := s.withServer (s.world.server.update id fun c => { c with wantClose := why })
      next := [.findClosing id] }
  | .findClosing id =>
    match s.world.server.socketOf id with
    | none => { shared := s }
    | some wsi => { shared := s, next := [.insert wsi] }
  | .insert wsi =>
    { shared :=
        { s.withServer (s.world.server.wake wsi) with
          overtaken :=
            if (s.world.server.lookup wsi).isSome then s.overtaken else wsi :: s.overtaken }
      next := [.cancel] }
  | .cancel => { shared := { s with cancelled := true } }

/-! ## The service thread

lws clears what it owed a socket before it calls back, so a request made during the callback
counts for the next one. -/

/-- The callback ends with `lws_callback_on_writable`. -/
def Outcome.rearms (o : Outcome) (wsi : Nat) : Callback → Bool
  | .http _ => o.outputs.any fun | .onGet _ => true | _ => false
  | .httpWriteable => o.outputs.any fun | .httpSlice _ false => true | _ => false
  | .serverWriteable =>
    (o.outputs.any fun | .frame _ => true | _ => false) &&
      (o.server.lookup wsi).any fun c => !c.partialFrame.isEmpty || !c.outbound.isEmpty
  | _ => false

/-- The callback calls `requestClose`, and with it `lws_cancel_service`. -/
def WsServer.asksClose (s : WsServer) (wsi : Nat) : Callback → Bool
  | .receive data binary _ =>
    (s.lookup wsi).any fun c =>
      binary || decide ((c.httpBody ++ data).length > sizeT cfg.limits.maxFrameBytes)
  | _ => false

def Callback.isWriteable : Callback → Bool
  | .httpWriteable | .serverWriteable => true
  | _ => false

/-- A callback on the socket `k`. lws forgets that it owes a writeable callback when it makes it,
and everything about a socket that it frees. -/
def Service.callback (s : Service) (wsi : Nat) (k : Socket) (cb : Callback) (a : Answers) : Service :=
  let o := s.world.server.dispatch cfg checkBearer (k.lws wsi) a cb
  let owed := if cb.isWriteable then s.writable.filter (· != wsi) else s.writable
  let owed := if o.rearms wsi cb then wsi :: owed else owed
  { s with
    world := s.world.deliver cfg checkBearer wsi k cb a
    writable := if (k.phase.after cb o).isSome then owed else owed.filter (· != wsi)
    cancelled := s.cancelled || s.world.server.asksClose cfg wsi cb }

/-- `pending.swap(m_pending)`, and `lws_callback_on_writable` for each socket in it. -/
def Service.waitCancelled (s : Service) : Service :=
  { s.withServer { s.world.server with pending := [] } with
    writable := s.world.server.pending ++ s.writable
    cancelled := false
    stray := s.stray ++ s.world.server.pending.filter fun wsi => (s.world.sockets wsi).isNone }

def Service.enter (s : Service) : Called → Option (Effect Service Caller)
  | .event (.callback wsi cb a) =>
    match s.world.sockets wsi with
    | none => none
    | some k =>
      if k.phase.delivers cb then some { shared := s.callback cfg checkBearer wsi k cb a } else none
  | .event (.connect wsi peer h2Stream) =>
    (s.world.step cfg checkBearer (.connect wsi peer h2Stream)).map fun world =>
      { shared := { s with world } }
  | .event (.headers wsi h) =>
    (s.world.step cfg checkBearer (.headers wsi h)).map fun world => { shared := { s with world } }
  | .event _ => none
  | .waitCancelled => if s.cancelled then some { shared := s.waitCancelled } else none
  | .send id frame => some { shared := s, next := [.find id frame] }
  | .requestClose id why => some { shared := s, next := [.want id why] }

def service : Program Service Caller Unit Called where
  exec s x _ := some (s.exec cfg x)
  enter := Service.enter cfg checkBearer

/-- The sections of `send`, run one after another, do to the server what `send` does. -/
theorem enqueue_insert {s : Service} {id wsi : Nat} (frame : Bytes)
    (h : s.world.server.socketOf id = some wsi) :
    ((s.exec cfg (.enqueue id wsi frame)).shared.exec cfg (.insert wsi)).shared.world.server =
      s.world.server.send cfg id frame := by
  rw [send_eq_offer, h]
  rfl

end JsonRpcBridge.Server
