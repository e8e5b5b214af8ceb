import JsonRpcBridge.Interleaving.Basic
import JsonRpcBridge.Server.WsServer

/-!
# Runs of the transport

`WsServer` under the callbacks lws can deliver. For each socket `Phase` says where lws is: it reads
the headers of a request, hands the request over (an HTTP request or an upgrade), then its body or
the frames, until `lws_http_transaction_completed` makes it read the next request, or a callback
that does not return 0 makes it close the socket. The close callbacks come in any phase, in any
order and number, until the socket is destroyed; its number may then be used again.

`transport` is the program of one service thread: every callback, and every `send` or
`requestClose` of another thread, is one step. `World.history` keeps what each callback handed out.
-/

namespace JsonRpcBridge.Server

/-! ## Phases

A socket is with one request at a time, or it is a WebSocket, or it is being upgraded. Which
callbacks lws delivers depends on nothing else. -/

/-- Where lws is with a socket, and the request it is about. -/
inductive Phase where
  | idle
  | parsed (h : Headers)
  | request (h : Headers)
  | upgrading (h : Headers)
  | websocket (h : Headers)
  | closing

/-- What `hdr` reads. On a WebSocket lws has dropped the headers of the upgrade; they are kept here
for what is said about it, and no callback of a WebSocket reads them. -/
def Phase.headers : Phase → Headers
  | .idle => {}
  | .parsed h => h
  | .request h => h
  | .upgrading h => h
  | .websocket h => h
  | .closing => {}

structure Socket where
  peer : Bytes
  h2Stream : Bool
  phase : Phase := .idle

/-- The callbacks that lws delivers in a phase. -/
def Phase.delivers : Phase → Callback → Bool
  | _, .closedHttp | _, .closed | _, .wsiDestroy => true
  | .parsed _, .http _ | .parsed _, .filterProtocolConnection => true
  | .request _, .httpBody _ | .request _, .httpBodyCompletion | .request _, .httpWriteable => true
  | .upgrading _, .established => true
  | .websocket _, .receive _ _ _ | .websocket _, .serverWriteable => true
  | _, _ => false

/-- The phase after a callback that lets the socket go on. -/
def Phase.next : Phase → Callback → Phase
  | .parsed h, .http _ => .request h
  | .parsed h, .filterProtocolConnection => .upgrading h
  | .upgrading h, .established => .websocket h
  | p, _ => p

/-- The phase after a callback; `none` when the socket is gone. -/
def Phase.after (p : Phase) (cb : Callback) (o : Outcome) : Option Phase :=
  match cb with
  | .wsiDestroy => none
  | .closed | .closedHttp => some .closing
  | _ =>
    if o.ret ≠ 0 then some .closing
    else if o.completed then some .idle
    else some (p.next cb)

/-- The callbacks about a body, a frame or an answer of the request at hand. -/
def Callback.inPlace : Callback → Bool
  | .httpBody _ | .httpBodyCompletion | .httpWriteable | .receive _ _ _ | .serverWriteable => true
  | _ => false

theorem Phase.next_of_inPlace {cb : Callback} (h : cb.inPlace = true) (p : Phase) :
    p.next cb = p := by
  cases cb with
  | httpBody _ | httpBodyCompletion | httpWriteable | receive _ _ _ | serverWriteable =>
      cases p <;> rfl
  | _ => cases h

theorem Phase.after_cases {p p' : Phase} {cb : Callback} {o : Outcome}
    (h : p.after cb o = some p') :
    p' = .closing ∨ p' = .idle ∨ o.ret = 0 ∧ o.completed = false ∧ p' = p.next cb := by
  unfold Phase.after at h
  split at h
  · cases h
  · exact .inl (Option.some.inj h).symm
  · exact .inl (Option.some.inj h).symm
  · split_ifs at h with hret hdone
    · exact .inl (Option.some.inj h).symm
    · exact .inr (.inl (Option.some.inj h).symm)
    · refine .inr (.inr ⟨?_, ?_, (Option.some.inj h).symm⟩)
      · simpa using hret
      · simpa using hdone

/-! ## The program

A step is a callback with its answers, a call of another thread, or something that happens to a
socket while lws calls nobody. -/

/-- What a callback handed out, and the headers of the request the socket was about. -/
structure Handed where
  wsi : Nat
  callback : Callback
  headers : Headers
  output : Output

structure World where
  server : WsServer := {}
  sockets : Nat → Option Socket := fun _ => none
  history : List Handed := []

def World.setSocket (w : World) (wsi : Nat) (k : Option Socket) : World :=
  { w with sockets := fun i => if i = wsi then k else w.sockets i }

/-- What happens to the transport: a peer connects, lws has read the headers of a request, lws makes
a callback, the service thread wakes, or another thread calls in. -/
inductive Event where
  | connect (wsi : Nat) (peer : Bytes) (h2Stream : Bool)
  | headers (wsi : Nat) (h : Headers)
  | callback (wsi : Nat) (cb : Callback) (a : Answers)
  | woken
  | send (id : Nat) (frame : Bytes)
  | requestClose (id : Nat) (why : CloseReason)

/-- The socket as a callback sees it. -/
def Socket.lws (k : Socket) (wsi : Nat) : Lws where
  wsi := wsi
  peer := k.peer
  h2Stream := k.h2Stream
  headers := k.phase.headers

variable (cfg : BridgeConfig) (checkBearer : Option (Bytes → Bool))

/-- One callback on the socket `k`, numbered `wsi`. -/
def World.deliver (w : World) (wsi : Nat) (k : Socket) (cb : Callback) (a : Answers) : World :=
  let o := w.server.dispatch cfg checkBearer (k.lws wsi) a cb
  { w.setSocket wsi ((k.phase.after cb o).map fun p => { k with phase := p }) with
    server := o.server
    history := w.history ++
      o.outputs.map fun x => ⟨wsi, cb, k.phase.headers, x⟩ }

def World.step (w : World) : Event → Option World
  | .connect wsi peer h2Stream =>
    match w.sockets wsi with
    | some _ => none
    | none => some (w.setSocket wsi (some { peer := peer, h2Stream := h2Stream }))
  | .headers wsi h =>
    match w.sockets wsi with
    | some { peer, h2Stream, phase := .idle } =>
      some (w.setSocket wsi (some { peer := peer, h2Stream := h2Stream, phase := .parsed h }))
    | _ => none
  | .callback wsi cb a =>
    match w.sockets wsi with
    | none => none
    | some k => if k.phase.delivers cb then some (w.deliver cfg checkBearer wsi k cb a) else none
  | .woken => some { w with server := { w.server with pending := [] } }
  | .send id frame => some { w with server := w.server.send cfg id frame }
  | .requestClose id why => some { w with server := w.server.requestClose id why }

/-- The transport, every event of which runs to its end. -/
def transport : Interleaving.Program World Empty Unit Event where
  exec _ a _ := nomatch a
  enter w ev := (w.step cfg checkBearer ev).map fun w' => { shared := w' }

abbrev start : Interleaving.State World Empty := { shared := {} }

/-- What every event keeps, under a guard, holds in every state of a run. -/
theorem transport_invariant {G : Interleaving.Guard World Empty Unit Event}
    {s : Interleaving.State World Empty} {I : World → Prop} (h₀ : I {})
    (hstep : ∀ {w w' : World} {ev : Event} {p : Multiset Empty}, I w → G.enter w p ev →
      w.step cfg checkBearer ev = some w' → I w')
    (hrun : Interleaving.Run (transport cfg checkBearer) G start s) : I s.shared := by
  apply Interleaving.Run.invariant (I := fun w _ => I w) h₀ _ _ hrun
  · intro sh a
    exact a.elim
  · intro sh ev e p hI hG he
    obtain ⟨w', hw, rfl⟩ := Option.map_eq_some_iff.mp he
    exact hstep hI hG hw

end JsonRpcBridge.Server
