import JsonRpcBridge.Config

/-!
# Requests, peers and response bodies

The pure parts of the transport: what `hdr` reads of a request and the checks made on it
(`ws_server.cpp`), how its body is framed and its answer sliced (`http_body.h`), and the connections
counted for each peer (`peer_slots.h`).
-/

namespace JsonRpcBridge.Server

/-- What `hdr` reads of a request. An absent header is empty. -/
structure Headers where
  host : Bytes := []
  origin : Bytes := []
  authorization : Bytes := []
  postUri : Bytes := []
  putUri : Bytes := []
  patchUri : Bytes := []
  contentType : Bytes := []
  contentLength : Bytes := []
  transferEncoding : Bytes := []
  deriving DecidableEq

/-! ## Admission

`hostAllowed` and `originAllowed` keep out pages of other sites, and `authorized` callers without
the token. Hosts and origins are compared as whole strings. -/

variable (cfg : BridgeConfig) (checkBearer : Option (Bytes → Bool))

/-- A request without an `Origin` does not come from a browser. -/
def originAllowed (h : Headers) : Bool :=
  h.origin.isEmpty || cfg.allowedOrigins.any fun allowed => h.origin == allowed

def hostAllowed (h : Headers) : Bool :=
  !h.host.isEmpty &&
    [str "127.0.0.1", str "localhost", str "[::1]"].any fun l =>
      h.host == l ++ str ":" ++ str (toString cfg.port) || h.host == l

def authorized (h : Headers) : Bool :=
  match cfg.authMode with
  | .none => true
  | .bearer =>
    startsWith (str "Bearer ") h.authorization &&
      match checkBearer with
      | none => false
      | some check => check (h.authorization.drop (str "Bearer ").length)

/-- The three checks an HTTP request has to pass. -/
def admitted (h : Headers) : Bool :=
  hostAllowed cfg h && originAllowed cfg h && authorized cfg checkBearer h

/-- An upgrade from a browser, which cannot set an `Authorization` header on a WebSocket. -/
def browserException (h : Headers) : Bool :=
  !authorized cfg checkBearer h && cfg.authMode == .bearer && !h.origin.isEmpty

/-! ## Framing

What lws is going to read, and whether the bridge can read it, is decided by the headers alone,
before any of the body has come. -/

/-- What lws parsed about a request's body, before reading any of it. -/
structure RequestFraming where
  transferEncoding : Bool
  hasLength : Bool
  length : Bytes
  bodyMethod : Bool

def framing (h : Headers) : RequestFraming where
  transferEncoding := !h.transferEncoding.isEmpty
  hasLength := !h.contentLength.isEmpty
  length := h.contentLength
  bodyMethod := !h.postUri.isEmpty || !h.putUri.isEmpty || !h.patchUri.isEmpty

/-- Whether lws reads a body after the headers. -/
def bodyFollows (f : RequestFraming) : Bool :=
  if f.transferEncoding then true
  else if f.hasLength then f.length.isEmpty || f.length.any (· != 0x30)
  else f.bodyMethod

/-- The only POST body the bridge reads: a plain `Content-Length`, and no `Transfer-Encoding`. -/
def usableLength (f : RequestFraming) : Bool :=
  !f.transferEncoding && f.hasLength && !f.length.isEmpty &&
    f.length.all fun c => 0x30 ≤ c && c ≤ 0x39

/-- A response body handed to lws one slice per writeable callback. -/
structure HttpBodyWriter where
  body : Bytes
  slice : Nat := 16 * 1024
  offset : Nat := 0
  isDone : Bool := false

/-- The next slice, whether it is the last one, and the writer after it. -/
def HttpBodyWriter.next (w : HttpBodyWriter) : Bytes × Bool × HttpBodyWriter :=
  let n := min w.slice (w.body.length - w.offset)
  let done := decide (w.offset + n ≥ w.body.length)
  ((w.body.drop w.offset).take n, done, { w with offset := w.offset + n, isDone := done })

/-! ## Peer slots

A slot belongs to the socket it was taken for, so that it goes back to the peer that paid for it. -/

/-- One slot per connection, under the handle of its socket. -/
structure PeerSlots where
  owner : List (Nat × Bytes) := []
  counts : List (Bytes × Int) := []

def PeerSlots.count (p : PeerSlots) (peer : Bytes) : Int := (p.counts.lookup peer).getD 0

def PeerSlots.holds (p : PeerSlots) (handle : Nat) : Bool := (p.owner.lookup handle).isSome

def PeerSlots.admits (p : PeerSlots) (peer : Bytes) (limit : Int) : Bool := p.count peer < limit

/-- Idempotent per handle. -/
def PeerSlots.acquire (p : PeerSlots) (handle : Nat) (peer : Bytes) : PeerSlots :=
  if p.holds handle then p
  else
    { owner := p.owner ++ [(handle, peer)]
      counts := (p.counts.filter fun e => e.1 != peer) ++ [(peer, p.count peer + 1)] }

/-- Returns the slot to the peer recorded at `acquire`. -/
def PeerSlots.release (p : PeerSlots) (handle : Nat) : PeerSlots :=
  match p.owner.lookup handle with
  | none => p
  | some peer =>
    { owner := p.owner.filter fun e => e.1 != handle
      counts :=
        match p.counts.lookup peer with
        | none => p.counts
        | some n =>
          if n - 1 ≤ 0 then p.counts.filter fun e => e.1 != peer
          else (p.counts.filter fun e => e.1 != peer) ++ [(peer, n - 1)] }

end JsonRpcBridge.Server
