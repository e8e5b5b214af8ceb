import JsonRpcBridge.Config.Parse
import JsonRpcBridge.Server.Responses

/-!
# Bodies of requests

lws delivers the body of a `POST` in pieces, and the bridge collects them on the connection of the
request. A socket that is kept alive carries one request after another, so a piece that is read for
the wrong request, or a body that nobody reads, would turn the bytes of one request into another.

* `posts_of_run`: what `onBody` gets over HTTP are the bodies that lws read to their end, each put
  together from the pieces of its own request, under the path of that request, within the limit.
* `passed_of_run`: without HTTP/2, lws goes on to the next request of a socket after a body only when
  the body was that of a `POST` and has been read to its end.
-/

namespace JsonRpcBridge.Server

open Interleaving

/-! ## What lws has read

`Posting` is the transport of `Transport` with a record beside it of what lws delivered. The
record is kept from the callbacks alone: the bridge neither reads it nor decides what is put
there, so that it can be held against what `onBody` is handed. -/

/-- A `POST` on the socket `wsi`, and the pieces of its body that lws has delivered. -/
structure Post where
  wsi : Nat
  headers : Headers
  path : Bytes
  chunks : List Bytes := []
  /-- lws has reported the end of the body. -/
  ended : Bool := false

/-- `HTTP_BODY` brings another piece. -/
def Post.add (p : Post) (data : Bytes) : Post := { p with chunks := p.chunks ++ [data] }

/-- `HTTP_BODY_COMPLETION` ends the body, and later pieces would begin another one. -/
def Post.finish (p : Post) : Post := { p with chunks := [], ended := true }

/-- A request that lws was done with when it went on to the next one. -/
structure Passed where
  h2Stream : Bool
  headers : Headers
  post : Option Post

/-- What `onBody` is handed over HTTP. -/
structure Body where
  wsi : Nat
  headers : Headers
  route : Bytes
  body : Bytes
  deriving DecidableEq

def Post.body (p : Post) : Body where
  wsi := p.wsi
  headers := p.headers
  route := p.path
  body := p.chunks.flatten

def Handed.posted (e : Handed) : Option Body :=
  match e.output with
  | .onBody c body false => some ⟨e.wsi, e.headers, c.httpRoute, body⟩
  | _ => none

def Phase.isIdle : Phase → Bool
  | .idle => true
  | _ => false

/-! ### The program -/

/-- The transport, with the `POST` that each socket is at, the bodies that lws has read to their
end, and the requests that lws has left behind. -/
structure Posting where
  world : World := {}
  reading : Nat → Option Post := fun _ => none
  posts : List Post := []
  passed : List Passed := []

section

variable (cfg : BridgeConfig) (checkBearer : Option (Bytes → Bool))

/-- The request is a `POST` that is accepted. -/
def readsBody (h : Headers) (path : Bytes) : Bool :=
  opensHttp cfg checkBearer h && !h.postUri.isEmpty && !path.isEmpty

/-- The `POST` at hand after a callback. -/
def Callback.reading (wsi : Nat) (h : Headers) (post : Option Post) : Callback → Option Post
  | .http path =>
    if readsBody cfg checkBearer h (path.getD (str "/")) then
      some { wsi := wsi, headers := h, path := path.getD (str "/") }
    else none
  | .httpBody data => post.map fun p => p.add data
  | .httpBodyCompletion => post.map Post.finish
  | _ => post

/-- The body that ends with a callback. -/
def Callback.endOf (post : Option Post) : Callback → List Post
  | .httpBodyCompletion => post.toList
  | _ => []

/-- A callback on the socket `wsi`, and what lws has then read. lws goes on to the next request when
the socket has become idle. -/
def Posting.deliver (t : Posting) (wsi : Nat) (k : Socket) (cb : Callback) (a : Answers) : Posting :=
  let w := t.world.deliver cfg checkBearer wsi k cb a
  let post := cb.reading cfg checkBearer wsi k.phase.headers (t.reading wsi)
  { world := w
    reading := Function.update t.reading wsi post
    posts := t.posts ++ cb.endOf (t.reading wsi)
    passed := t.passed ++
      (if (w.sockets wsi).any fun k' => k'.phase.isIdle then [⟨k.h2Stream, k.phase.headers, post⟩]
        else []) }

def Posting.step (t : Posting) (ev : Event) : Option Posting :=
  (t.world.step cfg checkBearer ev).map fun w =>
    match ev with
    | .callback wsi cb a =>
      match t.world.sockets wsi with
      | none => { t with world := w }
      | some k => t.deliver cfg checkBearer wsi k cb a
    | _ => { t with world := w }

def posting : Program Posting Empty Unit Event where
  exec _ x _ := nomatch x
  enter t ev := (t.step cfg checkBearer ev).map fun t' => { shared := t' }

end

/-- The connection that an output hands to the bridge. -/
def Output.hands : Output → Option Nat
  | .onBody c _ _ => some c.id
  | _ => none

/-- `onBody` was handed the connection `id`. -/
def World.hasHanded (w : World) (id : Nat) : Bool :=
  w.history.any fun e => e.output.hands == some id

/-- The bridge sends on connections that it got from `onBody`. -/
def answersHanded : Guard Posting Empty Unit Event where
  run _ _ _ _ := True
  enter t _ ev :=
    match ev with
    | .send id _ => t.world.hasHanded id = true
    | _ => True

instance : answersHanded.Decided where
  run _ _ _ _ := isTrue trivial
  enter t _ ev := by
    induction ev using Event.casesOn with
    | send id frame => exact (inferInstance : Decidable (t.world.hasHanded id = true))
    | _ => exact isTrue trivial

/-! ## One callback

What a callback does to the connection of its own socket, branch by branch of the source, and
that it does little to any other. -/

section

variable {cfg : BridgeConfig} {checkBearer : Option (Bytes → Bool)} {s t : WsServer} {v : Lws}
  {a : Answers} {cb : Callback} {c : Conn}

/-- Of the other connections a callback at most asks to close one. -/
theorem Alters.elsewhere (h : Alters cfg checkBearer s v cb t) {i : Nat} (hi : i ≠ v.wsi)
    (hc : s.lookup i = some c) : ∃ why, t.lookup i = some { c with wantClose := why } := by
  have hclose : ∀ {u : WsServer} {id : Nat} {why : CloseReason}, u.lookup i = some c →
      ∃ why', (u.requestClose id why).lookup i = some { c with wantClose := why' } := by
    intro u id why hu
    rw [WsServer.lookup_requestClose, hu, Option.map_some]
    split
    · exact ⟨why, rfl⟩
    · exact ⟨c.wantClose, rfl⟩
  have hput : ∀ {d : Conn}, (s.put v.wsi d).lookup i = some c := by
    intro d
    rw [WsServer.lookup_put, if_neg hi]
    exact hc
  cases h with
  | same _ => exact ⟨c.wantClose, hc⟩
  | touches _ _ _ => exact ⟨c.wantClose, hput⟩
  | asks _ _ _ => exact hclose hc
  | touchesAsks _ _ _ _ => exact hclose hput
  | opens _ _ _ _ _ =>
      refine ⟨c.wantClose, ?_⟩
      rw [WsServer.lookup_attach, if_neg hi]
      exact hc
  | closes _ =>
      refine ⟨c.wantClose, ?_⟩
      rw [WsServer.lookup_detach, if_neg hi]
      exact hc

/-- The connection that an HTTP request opens. -/
structure Opened (cfg : BridgeConfig) (checkBearer : Option (Bytes → Bool)) (s : WsServer) (v : Lws)
    (path : Bytes) (c : Conn) : Prop where
  id : c.id = s.nextConnId
  httpBody : c.httpBody = []
  get : v.headers.postUri.isEmpty = true →
    c.httpRoute = [] ∧ c.httpClose = (!v.h2Stream && bodyFollows (framing v.headers))
  post : v.headers.postUri.isEmpty = false → opensHttp cfg checkBearer v.headers = true ∧
    c.httpRoute = path ∧ c.outbound = [] ∧ c.httpOut = none

variable (cfg checkBearer s v a) in
/-- An HTTP request is refused, or it opens a connection. -/
theorem http_opened (path : Option Bytes) :
    (∃ code, s.http cfg checkBearer v a path = s.refuse v a code) ∨
      (s.http cfg checkBearer v a path).completed = false ∧
        ∃ c, (s.http cfg checkBearer v a path).server.lookup v.wsi = some c ∧
          Opened cfg checkBearer s v (path.getD (str "/")) c := by
  have hself : ∀ c, ((s.attach cfg v false).2.put v.wsi c).lookup v.wsi = some c := by
    intro c
    rw [WsServer.lookup_put, if_pos rfl]
  unfold WsServer.http
  dsimp only
  split
  · exact .inl ⟨403, rfl⟩
  · rename_i horigin
    split
    · exact .inl ⟨401, rfl⟩
    · rename_i hauthorized
      split
      · rename_i hget
        -- a `GET`: the body of one is never collected, for its connection has no route
        refine .inr ⟨rfl, _, hself _, rfl, rfl, fun _ => ⟨rfl, rfl⟩, fun hpost => ?_⟩
        rw [hpost] at hget
        cases hget
      · rename_i hpost
        split
        · exact .inl ⟨415, rfl⟩
        · rename_i htype
          split
          · exact .inl ⟨411, rfl⟩
          · rename_i hlength
            -- a `POST` that has passed every check
            refine .inr ⟨rfl, _, hself _, rfl, rfl, fun hget => absurd hget hpost, fun _ => ?_⟩
            simp only [Bool.or_eq_true, Bool.not_eq_true', not_or, Bool.not_eq_false] at horigin
            simp only [Bool.not_eq_true', Bool.not_eq_false] at hauthorized htype hlength
            refine ⟨?_, rfl, rfl, rfl⟩
            simp only [opensHttp, admitted, horigin.1, horigin.2, hauthorized, htype, hlength,
              Bool.or_true, Bool.and_self]

/-- A piece of a body is kept on its connection, unless it has no route or the body gets too long.
-/
theorem httpBody_spec (hc : s.lookup v.wsi = some c) (data : Bytes)
    (hret : (s.httpBody cfg v data).ret = 0) :
    (c.httpRoute = [] ∧ (s.httpBody cfg v data).server = s) ∨
      (c.httpBody ++ data).length ≤ sizeT cfg.limits.maxBodyBytes ∧
        (s.httpBody cfg v data).server = s.put v.wsi { c with httpBody := c.httpBody ++ data } := by
  unfold WsServer.httpBody at hret ⊢
  rw [hc] at hret ⊢
  dsimp only at hret ⊢
  split
  · rename_i hroute
    exact .inl ⟨List.isEmpty_iff.mp hroute, rfl⟩
  · rename_i hroute
    rw [if_neg hroute] at hret
    split
    · rename_i hover
      rw [if_pos hover] at hret
      cases hret
    · rename_i hover
      refine .inr ⟨?_, rfl⟩
      rw [List.length_append]
      omega

/-- The end of a body hands it over, unless its connection has no route. -/
theorem httpBodyCompletion_spec (hc : s.lookup v.wsi = some c) :
    (c.httpRoute = [] ∧ s.httpBodyCompletion v = { server := s }) ∨
      c.httpRoute ≠ [] ∧ s.httpBodyCompletion v =
        { server := s.put v.wsi { c with httpBody := [] }
          outputs := [.onBody { c with httpBody := [] } c.httpBody false] } := by
  unfold WsServer.httpBodyCompletion
  rw [hc]
  dsimp only
  split
  · rename_i hroute
    exact .inl ⟨List.isEmpty_iff.mp hroute, rfl⟩
  · rename_i hroute
    exact .inr ⟨fun hempty => hroute (List.isEmpty_iff.mpr hempty), rfl⟩

/-- `c'` differs from `c` in what is queued and being written. -/
structure Conn.Written (c c' : Conn) : Prop where
  id : c'.id = c.id
  route : c'.httpRoute = c.httpRoute
  body : c'.httpBody = c.httpBody
  close : c'.httpClose = c.httpClose

theorem writeSlice_spec {c' : Conn} (hwritten : c.Written c') (w : HttpBodyWriter) :
    (∃ d, (s.writeSlice v a c' w).server.lookup v.wsi = some d ∧ c.Written d) ∧
      ((s.writeSlice v a c' w).completed = true → c.httpClose = false) := by
  have hput : ∀ {out : Option HttpBodyWriter}, ∃ d,
      (s.put v.wsi { c' with httpOut := out }).lookup v.wsi = some d ∧ c.Written d := by
    intro out
    rw [WsServer.lookup_put, if_pos rfl]
    exact ⟨_, rfl, hwritten.id, hwritten.route, hwritten.body, hwritten.close⟩
  unfold WsServer.writeSlice
  dsimp only
  split
  · exact ⟨hput, fun h => by cases h⟩
  · split
    · exact ⟨hput, fun h => by cases h⟩
    · split
      · exact ⟨hput, fun h => by cases h⟩
      · rename_i hclose
        refine ⟨hput, fun _ => ?_⟩
        rw [← hwritten.close]
        simpa using hclose

/-- `HTTP_WRITEABLE` leaves a connection alone on which nothing is queued or being written, and it
ends a transaction only when the connection may stay. -/
theorem httpWriteable_spec (hc : s.lookup v.wsi = some c) :
    (∃ c', (s.httpWriteable v a).server.lookup v.wsi = some c' ∧ c.Written c' ∧
      (c.outbound = [] → c.httpOut = none → c' = c)) ∧
    ((s.httpWriteable v a).completed = true →
      c.httpClose = false ∧ ¬(c.outbound = [] ∧ c.httpOut = none)) := by
  have hself : c.Written c := ⟨rfl, rfl, rfl, rfl⟩
  unfold WsServer.httpWriteable
  rw [hc]
  dsimp only
  split
  -- a response is under way, and its next slice goes out
  · rename_i w hout
    obtain ⟨⟨d, hd, hwritten⟩, hcompleted⟩ := writeSlice_spec (s := s) (v := v) (a := a) hself w
    refine ⟨⟨d, hd, hwritten, fun _ hnone => ?_⟩, fun h => ⟨hcompleted h, fun hnone => ?_⟩⟩
    · rw [hout] at hnone
      cases hnone
    · rw [hout] at hnone
      cases hnone.2
  · rename_i hout
    split
    · exact ⟨⟨c, hc, hself, fun _ _ => rfl⟩, fun h => by cases h⟩
    -- the next response begins, if its headers can be written
    · rename_i body rest hqueue
      have hne : c.outbound ≠ [] := by
        rw [hqueue]
        exact List.cons_ne_nil _ _
      split
      · refine ⟨⟨{ c with outbound := rest }, ?_, ⟨rfl, rfl, rfl, rfl⟩, fun h => absurd h hne⟩,
          fun h => by cases h⟩
        rw [WsServer.lookup_put, if_pos rfl]
      · obtain ⟨⟨d, hd, hwritten⟩, hcompleted⟩ := writeSlice_spec (s := s) (v := v) (a := a)
          (c := c) (show c.Written { c with outbound := rest } from ⟨rfl, rfl, rfl, rfl⟩) { body := body }
        exact ⟨⟨d, hd, hwritten, fun h => absurd h hne⟩,
          fun h => ⟨hcompleted h, fun hnone => hne hnone.1⟩⟩

/-- A refusal lets lws go on only when no body follows. -/
theorem refuse_completed {code : Nat} (h : (s.refuse v a code).completed = true)
    (hstream : v.h2Stream = false) : bodyFollows (framing v.headers) = false := by
  unfold WsServer.refuse at h
  dsimp only at h
  split at h
  · cases h
  · split at h
    · cases h
    · rename_i hclose
      rw [hstream] at hclose
      simpa using hclose

/-- An HTTP request is not handed over before its body. -/
theorem http_hands (path : Option Bytes) {o : Output}
    (h : o ∈ (s.http cfg checkBearer v a path).outputs) : o.hands = none := by
  have hrefuse : ∀ {code : Nat}, o ∈ (s.refuse v a code).outputs → o.hands = none := by
    intro code ho
    have hacts := s.refuse_outputs v a ho
    cases o with
    | onBody _ _ _ => cases hacts
    | _ => rfl
  unfold WsServer.http at h
  dsimp only at h
  split at h
  · exact hrefuse h
  · split at h
    · exact hrefuse h
    · split at h
      · rw [List.mem_singleton.mp h]
        rfl
      · split at h
        · exact hrefuse h
        · split at h
          · exact hrefuse h
          · cases h

/-- A connection that a callback hands over is that of its socket. Over HTTP it is handed over at
the end of a body. -/
theorem onBody_dispatch {d : Conn} {body : Bytes} {isWebsocket : Bool}
    (h : .onBody d body isWebsocket ∈ (s.dispatch cfg checkBearer v a cb).outputs) :
    (∃ c, s.lookup v.wsi = some c ∧ d.id = c.id) ∧
      (isWebsocket = false → cb = .httpBodyCompletion) := by
  -- three callbacks may hand something over: a request, the end of a body, and a message
  rcases s.dispatch_outputs cfg checkBearer v a cb h rfl with
    ⟨⟨path, rfl⟩, -⟩ | rfl | ⟨⟨data, binary, final, rfl⟩, -⟩
  · cases http_hands path h
  · refine ⟨?_, fun _ => rfl⟩
    have h : _ ∈ (s.httpBodyCompletion v).outputs := h
    cases hc : s.lookup v.wsi with
    | none =>
        rw [WsServer.httpBodyCompletion, hc] at h
        cases h
    | some c =>
        rcases httpBodyCompletion_spec hc with ⟨-, hspec⟩ | ⟨-, hspec⟩
        · rw [hspec] at h
          cases h
        · rw [hspec] at h
          cases List.mem_singleton.mp h
          exact ⟨c, rfl, rfl⟩
  · have h : _ ∈ (s.receive cfg v data binary final).outputs := h
    unfold WsServer.receive at h
    split at h
    · cases h
    · rename_i c hc
      dsimp only at h
      split_ifs at h
      · cases h
      · cases h
      · cases h
      · cases List.mem_singleton.mp h
        exact ⟨⟨c, hc, rfl⟩, fun hhttp => by cases hhttp⟩

end

/-! ## Phases

Which callback can have led to a request that goes on, and which to the next one. -/

section

variable {p : Phase} {cb : Callback} {o : Outcome}

/-- lws is at a request that it has just handed over, or at one that goes on. -/
theorem Phase.request_after (hd : p.delivers cb = true) {h : Headers}
    (hafter : p.after cb o = some (.request h)) : o.ret = 0 ∧ o.completed = false ∧
      ((∃ path, cb = .http path) ∧ p = .parsed h ∨
        p = .request h ∧ (cb = .httpBodyCompletion ∨ cb = .httpWriteable ∨ ∃ data, cb = .httpBody data)) := by
  obtain hclosing | hidle | ⟨hret, hcompleted, hnext⟩ := Phase.after_cases hafter
  · cases hclosing
  · cases hidle
  refine ⟨hret, hcompleted, ?_⟩
  cases p with
  | parsed h' =>
      cases cb with
      | http path =>
          cases hnext
          exact .inl ⟨⟨path, rfl⟩, rfl⟩
      | _ => cases hnext
  | request h' =>
      right
      cases cb with
      | httpBody data =>
          cases hnext
          exact ⟨rfl, .inr (.inr ⟨data, rfl⟩)⟩
      | httpBodyCompletion =>
          cases hnext
          exact ⟨rfl, .inl rfl⟩
      | httpWriteable =>
          cases hnext
          exact ⟨rfl, .inr (.inl rfl)⟩
      | closedHttp | closed | wsiDestroy => cases hafter
      | _ => cases hd
  | upgrading h' =>
      cases cb <;> cases hnext
  | _ => cases hnext

/-- lws goes on to the next request when it is told that this one is completed. -/
theorem Phase.idle_after (hd : p.delivers cb = true) (hafter : p.after cb o = some .idle) :
    o.completed = true := by
  unfold Phase.after at hafter
  split at hafter
  · cases hafter
  · cases hafter
  · cases hafter
  · rename_i hdestroy hclosed hclosedHttp
    by_cases hret : o.ret ≠ 0
    · rw [if_pos hret] at hafter
      cases hafter
    · by_cases hdone : o.completed = true
      · exact hdone
      · rw [if_neg hret, if_neg hdone] at hafter
        have hnext : p.next cb = .idle := Option.some.inj hafter
        cases p with
        | idle =>
            -- in this phase lws delivers nothing but the end of the socket
            cases cb with
            | closedHttp => exact absurd rfl hclosedHttp
            | closed => exact absurd rfl hclosed
            | wsiDestroy => exact absurd rfl hdestroy
            | _ => cases hd
        | _ => cases cb <;> cases hnext

end

/-! ## What the connections hold

`Posted` is the invariant: a connection at a request holds the pieces of that request, from its
own `POST`, and nothing else. Only the socket of the callback is at issue in a step, since of the
other connections at most `wantClose` changes. -/

section

variable (cfg : BridgeConfig) (checkBearer : Option (Bytes → Bool))

/-- The connection of the request `h` on the socket `wsi` holds what lws has read of its body. -/
inductive Conn.Reads (c : Conn) (wsi : Nat) (h : Headers) : Option Post → Prop
  | none : c.httpRoute = [] → c.Reads wsi h none
  | post {p : Post} : p.wsi = wsi → p.headers = h → readsBody cfg checkBearer h p.path = true →
      c.httpRoute = p.path → c.httpBody = p.chunks.flatten →
      c.httpBody.length ≤ sizeT cfg.limits.maxBodyBytes → c.Reads wsi h (some p)

/-- The bodies handed over are those that lws has read to their end, and the request at hand of each
socket has a connection that holds what was read of it. -/
structure Posted (t : Posting) : Prop where
  conn : ∀ wsi k h, t.world.sockets wsi = some k → k.phase = .request h →
    ∃ c, t.world.server.lookup wsi = some c ∧ c.Reads cfg checkBearer wsi h (t.reading wsi)
  bodies : t.world.history.filterMap Handed.posted = t.posts.map Post.body
  within : ∀ p ∈ t.posts, readsBody cfg checkBearer p.headers p.path = true ∧
    p.chunks.flatten.length ≤ sizeT cfg.limits.maxBodyBytes

end

section

variable {cfg : BridgeConfig} {checkBearer : Option (Bytes → Bool)} {t t' : Posting} {wsi : Nat}
  {k : Socket} {cb : Callback} {a : Answers} {c c' : Conn} {h : Headers} {post : Option Post}

/-! ### Step by step -/

theorem posted_start : Posted cfg checkBearer {} where
  conn _ _ _ hk := by cases hk
  bodies := rfl
  within _ hp := (List.not_mem_nil hp).elim

theorem path_ne_nil {path : Bytes} (hreads : readsBody cfg checkBearer h path = true) : path ≠ [] := by
  intro hempty
  rw [readsBody, hempty] at hreads
  simp at hreads

/-- What a connection reads does not depend on what is queued on it, or whether it is to close. -/
theorem Conn.Reads.congr (hreads : c.Reads cfg checkBearer wsi h post)
    (hroute : c'.httpRoute = c.httpRoute) (hbody : c'.httpBody = c.httpBody) :
    c'.Reads cfg checkBearer wsi h post := by
  cases hreads with
  | none hempty => exact .none (hroute.trans hempty)
  | post hwsi hheaders haccepted hpath hchunks hlength =>
      exact .post hwsi hheaders haccepted (hroute.trans hpath) (hbody.trans hchunks)
        (hbody ▸ hlength)

/-- A request that opens a connection. -/
theorem reads_opened {s : WsServer} {path : Option Bytes} (post : Option Post)
    (hopened : Opened cfg checkBearer s (k.lws wsi) (path.getD (str "/")) c) :
    c.Reads cfg checkBearer wsi k.phase.headers
      ((Callback.http path).reading cfg checkBearer wsi k.phase.headers post) := by
  show c.Reads cfg checkBearer wsi k.phase.headers (if readsBody cfg checkBearer k.phase.headers
    (path.getD (str "/")) then some _ else none)
  cases hmethod : k.phase.headers.postUri.isEmpty with
  | true =>
      rw [if_neg (by rw [readsBody, hmethod]; simp)]
      exact .none (hopened.get hmethod).1
  | false =>
      obtain ⟨hopens, hroute, -, -⟩ := hopened.post hmethod
      split
      · rename_i haccepted
        refine .post rfl rfl haccepted hroute hopened.httpBody ?_
        rw [hopened.httpBody]
        exact Nat.zero_le _
      · rename_i haccepted
        refine .none (hroute.trans ?_)
        have hopens : opensHttp cfg checkBearer k.phase.headers = true := hopens
        rw [readsBody, hopens, hmethod] at haccepted
        simpa using haccepted

/-- The request goes on: its connection is there after the callback, and holds what was read. -/
theorem reads_dispatch {s : WsServer} (hc : s.lookup wsi = some c)
    (hreads : c.Reads cfg checkBearer wsi h post)
    (hcb : cb = .httpBodyCompletion ∨ cb = .httpWriteable ∨ ∃ data, cb = .httpBody data)
    (hret : (s.dispatch cfg checkBearer (k.lws wsi) a cb).ret = 0) (hh : Headers) :
    ∃ c', (s.dispatch cfg checkBearer (k.lws wsi) a cb).server.lookup wsi = some c' ∧
      c'.Reads cfg checkBearer wsi h (cb.reading cfg checkBearer wsi hh post) := by
  have hc' : s.lookup (k.lws wsi).wsi = some c := hc
  have hput : ∀ d, (s.put (k.lws wsi).wsi d).lookup wsi = some d := by
    intro d
    rw [WsServer.lookup_put]
    exact if_pos rfl
  rcases hcb with rfl | rfl | ⟨data, rfl⟩
  -- the end of a body leaves the connection with an empty one
  · rcases httpBodyCompletion_spec hc' with ⟨hroute, hspec⟩ | ⟨-, hspec⟩
    · rw [WsServer.dispatch, hspec]
      refine ⟨c, hc, ?_⟩
      cases hreads with
      | none hempty => exact .none hempty
      | post _ _ haccepted hpath _ _ => exact absurd (hpath.symm.trans hroute) (path_ne_nil haccepted)
    · rw [WsServer.dispatch, hspec]
      refine ⟨_, hput _, ?_⟩
      cases hreads with
      | none hempty => exact .none hempty
      | post hwsi hheaders haccepted hpath _ _ =>
          exact .post hwsi hheaders haccepted hpath rfl (Nat.zero_le _)
  · obtain ⟨⟨d, hd, hwritten, -⟩, -⟩ := httpWriteable_spec (a := a) hc'
    exact ⟨d, hd, hreads.congr hwritten.route hwritten.body⟩
  -- a piece is appended on both sides
  · rcases httpBody_spec hc' data hret with ⟨hroute, hspec⟩ | ⟨hlength, hspec⟩
    · rw [WsServer.dispatch, hspec]
      refine ⟨c, hc, ?_⟩
      cases hreads with
      | none hempty => exact .none hempty
      | post _ _ haccepted hpath _ _ => exact absurd (hpath.symm.trans hroute) (path_ne_nil haccepted)
    · rw [WsServer.dispatch, hspec]
      refine ⟨_, hput _, ?_⟩
      cases hreads with
      | none hempty => exact .none hempty
      | post hwsi hheaders haccepted hpath hchunks _ =>
          refine .post hwsi hheaders haccepted hpath ?_ hlength
          show c.httpBody ++ data = (_ ++ [data]).flatten
          rw [List.flatten_append, List.flatten_singleton, ← hchunks]

/-- What a callback hands over is the body that ends with it. -/
theorem posted_dispatch (hposted : Posted cfg checkBearer t) (hk : t.world.sockets wsi = some k)
    (hd : k.phase.delivers cb = true) :
    ((t.world.server.dispatch cfg checkBearer (k.lws wsi) a cb).outputs.map fun x =>
        (⟨wsi, cb, k.phase.headers, x⟩ : Handed)).filterMap Handed.posted =
      (cb.endOf (t.reading wsi)).map Post.body := by
  by_cases hcb : cb = .httpBodyCompletion
  · subst hcb
    obtain ⟨h, hphase⟩ : ∃ h, k.phase = .request h := by
      cases hphase : k.phase with
      | request h => exact ⟨h, rfl⟩
      | _ => rw [hphase] at hd; cases hd
    obtain ⟨c, hc, hreads⟩ := hposted.conn wsi k h hk hphase
    have hc' : t.world.server.lookup (k.lws wsi).wsi = some c := hc
    have hend : Callback.endOf (t.reading wsi) .httpBodyCompletion = (t.reading wsi).toList := rfl
    rw [hend]
    -- without a route nothing is handed over, and then lws was not at a `POST` either
    rcases httpBodyCompletion_spec hc' with ⟨hroute, hspec⟩ | ⟨hroute, hspec⟩
    · rw [WsServer.dispatch, hspec]
      cases hpost : t.reading wsi with
      | none => rfl
      | some p =>
          rw [hpost] at hreads
          cases hreads with
          | post _ _ haccepted hpath _ _ =>
              exact absurd (hpath.symm.trans hroute) (path_ne_nil haccepted)
    · rw [WsServer.dispatch, hspec]
      cases hpost : t.reading wsi with
      | none =>
          rw [hpost] at hreads
          cases hreads with
          | none hempty => exact absurd hempty hroute
      | some p =>
          rw [hpost] at hreads
          cases hreads with
          | post hwsi hheaders _ hpath hchunks _ =>
              show [(⟨wsi, k.phase.headers, c.httpRoute, c.httpBody⟩ : Body)] = [p.body]
              rw [Post.body, hwsi, hheaders, hpath, hchunks, hphase]
              rfl
  · have hend : cb.endOf (t.reading wsi) = [] := by
      cases cb with
      | httpBodyCompletion => exact absurd rfl hcb
      | _ => rfl
    rw [hend, List.map_nil, List.filterMap_eq_nil_iff]
    intro e he
    obtain ⟨o, ho, rfl⟩ := List.mem_map.mp he
    cases o with
    | onBody d body isWebsocket =>
        cases isWebsocket with
        | true => rfl
        | false => exact absurd ((onBody_dispatch ho).2 rfl) hcb
    | _ => rfl

/-- The connection of the request that lws is at after a callback. -/
theorem Posted.deliver (hposted : Posted cfg checkBearer t) (hk : t.world.sockets wsi = some k)
    (hd : k.phase.delivers cb = true) :
    Posted cfg checkBearer (t.deliver cfg checkBearer wsi k cb a) := by
  refine ⟨fun i k' h hk' hphase => ?_, ?_, fun p hp => ?_⟩
  -- the socket of the callback: it came to this request just now, or was at it before
  · by_cases hi : i = wsi
    · subst hi
      have hk' : (if i = i then (k.phase.after cb _).map _ else _) = some k' := hk'
      rw [if_pos rfl] at hk'
      obtain ⟨p, hp, rfl⟩ := Option.map_eq_some_iff.mp hk'
      have hphase : p = .request h := hphase
      subst hphase
      show ∃ c : Conn, _ ∧ c.Reads cfg checkBearer i h (Function.update t.reading i _ i)
      rw [Function.update_self]
      obtain ⟨hret, hcompleted, ⟨⟨path, rfl⟩, hparsed⟩ | ⟨hrequest, hcb⟩⟩ :=
        Phase.request_after hd hp
      · rcases http_opened cfg checkBearer t.world.server (k.lws i) a path with ⟨code, hrefuse⟩ | ⟨-, c, hc, hopened⟩
        · have hends := t.world.server.refuse_ends (k.lws i) a code
          rw [← hrefuse] at hends
          rcases hends with hends | hends
          · exact absurd hret hends
          · cases hcompleted.symm.trans hends
        · refine ⟨c, hc, ?_⟩
          have hreads := reads_opened (t.reading i) hopened
          rw [hparsed] at hreads ⊢
          exact hreads
      · obtain ⟨c, hc, hreads⟩ := hposted.conn i k h hk hrequest
        exact reads_dispatch hc hreads hcb hret _
    · have hk' : t.world.sockets i = some k' := (if_neg hi).symm.trans hk'
      obtain ⟨c, hc, hreads⟩ := hposted.conn i k' h hk' hphase
      obtain ⟨why, hc'⟩ := (alters_dispatch cfg checkBearer t.world.server (k.lws wsi) a cb).elsewhere
        hi hc
      refine ⟨_, hc', ?_⟩
      show Conn.Reads cfg checkBearer _ i h (Function.update t.reading wsi _ i)
      rw [Function.update_of_ne hi]
      exact hreads.congr rfl rfl
  · show (t.world.history ++ _).filterMap Handed.posted = (t.posts ++ _).map Post.body
    rw [List.filterMap_append, List.map_append, hposted.bodies, posted_dispatch hposted hk hd]
  -- a body that ends now was held by the connection of its socket
  · have hp : p ∈ t.posts ++ cb.endOf (t.reading wsi) := hp
    rcases List.mem_append.mp hp with hp | hp
    · exact hposted.within p hp
    · cases cb with
      | httpBodyCompletion =>
          cases hphase : k.phase with
          | request h =>
              obtain ⟨c, -, hreads⟩ := hposted.conn wsi k h hk hphase
              rw [Option.mem_toList.mp hp] at hreads
              cases hreads with
              | post _ hheaders haccepted _ hchunks hlength =>
                  rw [hheaders, ← hchunks]
                  exact ⟨haccepted, hlength⟩
          | _ => rw [hphase] at hd; cases hd
      | _ => cases hp

/-- Any other event changes at most what is queued on a connection, and whether it is to close. -/
theorem Posted.keep (hposted : Posted cfg checkBearer t) {w' : World}
    (hhistory : w'.history = t.world.history)
    (hconn : ∀ i k h, w'.sockets i = some k → k.phase = .request h → t.world.sockets i = some k ∧
      ∀ c, t.world.server.lookup i = some c → ∃ c', w'.server.lookup i = some c' ∧ c.Written c') :
    Posted cfg checkBearer { t with world := w' } where
  conn i k h hk hphase := by
    obtain ⟨hk, hlookup⟩ := hconn i k h hk hphase
    obtain ⟨c, hc, hreads⟩ := hposted.conn i k h hk hphase
    obtain ⟨c', hc', hwritten⟩ := hlookup c hc
    exact ⟨c', hc', hreads.congr hwritten.route hwritten.body⟩
  bodies := by
    show w'.history.filterMap Handed.posted = _
    rw [hhistory]
    exact hposted.bodies
  within := hposted.within

end

/-! ## Other events

Between the callbacks the bridge may send, ask for a close, or wake the service; sockets come,
and lws parses headers. -/

section

variable {cfg : BridgeConfig} {checkBearer : Option (Bytes → Bool)} {s : WsServer} {w w' : World}
  {c : Conn} {i : Nat}

theorem Conn.written_self (c : Conn) : c.Written c := ⟨rfl, rfl, rfl, rfl⟩

variable (cfg) in
theorem written_send (hc : s.lookup i = some c) (id : Nat) (frame : Bytes) :
    ∃ c', (s.send cfg id frame).lookup i = some c' ∧ c.Written c' ∧ (c.id ≠ id → c' = c) := by
  rcases s.lookup_send cfg id frame i with hsame | hsend
  · exact ⟨c, hsame.trans hc, c.written_self, fun _ => rfl⟩
  · rw [hsend, hc, Option.map_some]
    refine ⟨_, rfl, ?_, fun hne => if_neg hne⟩
    split
    · split <;> exact ⟨rfl, rfl, rfl, rfl⟩
    · exact c.written_self

theorem lookup_requestClose_of_some (hc : s.lookup i = some c) (id : Nat) (why : CloseReason) :
    ∃ why', (s.requestClose id why).lookup i = some { c with wantClose := why' } := by
  rw [WsServer.lookup_requestClose, hc, Option.map_some]
  split
  · exact ⟨why, rfl⟩
  · exact ⟨c.wantClose, rfl⟩

/-- An event that is no callback hands nothing over. Requests stay as they are, and so do their
connections but for what `send` queues, and whether they are to close. -/
theorem step_elsewhere {ev : Event} (hstep : w.step cfg checkBearer ev = some w')
    (hcallback : ∀ wsi cb a, ev ≠ .callback wsi cb a) : w'.history = w.history ∧
      ∀ i k h, w'.sockets i = some k → k.phase = .request h → w.sockets i = some k ∧
        ∀ c, w.server.lookup i = some c → ∃ c', w'.server.lookup i = some c' ∧ c.Written c' ∧
          ((∀ frame, ev ≠ .send c.id frame) → c'.outbound = c.outbound ∧ c'.httpOut = c.httpOut) := by
  -- a socket that is new, or has its headers now, has no request yet
  have hsocket : ∀ {wsi : Nat} {k : Socket}, (∀ h, k.phase ≠ .request h) →
      ∀ i k' h, (w.setSocket wsi (some k)).sockets i = some k' → k'.phase = .request h →
        w.sockets i = some k' ∧ ∀ c, w.server.lookup i = some c →
          ∃ c', w.server.lookup i = some c' ∧ c.Written c' ∧
            ((∀ frame, ev ≠ .send c.id frame) → c'.outbound = c.outbound ∧ c'.httpOut = c.httpOut) := by
    intro wsi k hphase i k' h hk' hrequest
    refine ⟨?_, fun c hc => ⟨c, hc, c.written_self, fun _ => ⟨rfl, rfl⟩⟩⟩
    have hk' : (if i = wsi then some k else w.sockets i) = some k' := hk'
    split at hk'
    · cases hk'
      exact absurd hrequest (hphase h)
    · exact hk'
  cases ev with
  | callback wsi cb a => exact absurd rfl (hcallback wsi cb a)
  | connect wsi peer h2Stream =>
      simp only [World.step] at hstep
      split at hstep
      · cases hstep
      · cases hstep
        exact ⟨rfl, hsocket fun _ hphase => by cases hphase⟩
  | headers wsi hd =>
      simp only [World.step] at hstep
      split at hstep
      · cases hstep
        exact ⟨rfl, hsocket fun _ hphase => by cases hphase⟩
      · cases hstep
  | woken =>
      cases hstep
      exact ⟨rfl, fun i k h hk _ => ⟨hk, fun c hc => ⟨c, hc, c.written_self, fun _ => ⟨rfl, rfl⟩⟩⟩⟩
  | send id frame =>
      cases hstep
      refine ⟨rfl, fun i k h hk _ => ⟨hk, fun c hc => ?_⟩⟩
      obtain ⟨c', hc', hwritten, hsame⟩ := written_send cfg hc id frame
      refine ⟨c', hc', hwritten, fun hother => ?_⟩
      rw [hsame fun hid => hother frame (by rw [hid])]
      exact ⟨rfl, rfl⟩
  | requestClose id why =>
      cases hstep
      refine ⟨rfl, fun i k h hk _ => ⟨hk, fun c hc => ?_⟩⟩
      obtain ⟨why', hc'⟩ := lookup_requestClose_of_some hc id why
      exact ⟨_, hc', ⟨rfl, rfl, rfl, rfl⟩, fun _ => ⟨rfl, rfl⟩⟩

/-- A step of the program is a step of the transport; a callback is delivered to its socket. -/
theorem posting_cases {t t' : Posting} {ev : Event} (hstep : t.step cfg checkBearer ev = some t') :
    (∃ wsi cb a k, ev = .callback wsi cb a ∧ t.world.sockets wsi = some k ∧
      k.phase.delivers cb = true ∧ t' = t.deliver cfg checkBearer wsi k cb a) ∨
    (∀ wsi cb a, ev ≠ .callback wsi cb a) ∧
      ∃ w', t.world.step cfg checkBearer ev = some w' ∧ t' = { t with world := w' } := by
  obtain ⟨w', hw', rfl⟩ := Option.map_eq_some_iff.mp hstep
  cases ev with
  | callback wsi cb a =>
      left
      simp only [World.step] at hw'
      split at hw'
      · cases hw'
      · rename_i k hk
        split_ifs at hw' with hd
        refine ⟨wsi, cb, a, k, rfl, hk, hd, ?_⟩
        simp only [hk]
  | _ => exact .inr ⟨fun _ _ _ hev => (by cases hev), w', hw', rfl⟩

theorem Posted.step {t t' : Posting} {ev : Event} (hposted : Posted cfg checkBearer t)
    (hstep : t.step cfg checkBearer ev = some t') : Posted cfg checkBearer t' := by
  rcases posting_cases hstep with ⟨wsi, cb, a, k, rfl, hk, hd, rfl⟩ | ⟨hcallback, w', hw', rfl⟩
  · exact hposted.deliver hk hd
  · obtain ⟨hhistory, hconn⟩ := step_elsewhere hw' hcallback
    refine hposted.keep hhistory fun i k h hk hphase => ?_
    obtain ⟨hk, hlookup⟩ := hconn i k h hk hphase
    refine ⟨hk, fun c hc => ?_⟩
    obtain ⟨c', hc', hwritten, -⟩ := hlookup c hc
    exact ⟨c', hc', hwritten⟩

end

/-! ## Requests that lws leaves behind

lws may go on to the next request of a socket once a response has been written in full. That this
does not happen in the middle of a body rests on `Waits`: before the end of a body the bridge has
not been given the connection, so nothing is queued on it that could be written. -/

section

variable (cfg : BridgeConfig) (checkBearer : Option (Bytes → Bool))

/-- A `GET` with a body closes its socket, and on the connection of a `POST` whose body has not come
to its end there is nothing to write. -/
structure Conn.Waits (c : Conn) (w : World) (h2Stream : Bool) (h : Headers) (post : Option Post) :
    Prop where
  get : h.postUri.isEmpty = true → c.httpClose = (!h2Stream && bodyFollows (framing h))
  post : h.postUri.isEmpty = false → (∃ p, post = some p ∧ p.ended = true) ∨
    c.outbound = [] ∧ c.httpOut = none ∧ w.hasHanded c.id = false

/-- The body of a request has been read to its end, if there was one. -/
def Passed.Read (x : Passed) : Prop :=
  x.h2Stream = false → bodyFollows (framing x.headers) = true → ∃ p, x.post = some p ∧
    p.ended = true ∧ p.headers = x.headers ∧ usableLength (framing x.headers) = true

/-- What holds after every event: the connections hold what was read, connection ids are those of
the table, and no request is left with a body unread. -/
structure Settled (t : Posting) : Prop where
  posted : Posted cfg checkBearer t
  wired : Wired t.world
  handed : ∀ id, t.world.hasHanded id = true → id < t.world.server.nextConnId
  waits : ∀ wsi k h c, t.world.sockets wsi = some k → k.phase = .request h →
    t.world.server.lookup wsi = some c → c.Waits t.world k.h2Stream h (t.reading wsi)
  passed : ∀ x ∈ t.passed, x.Read

end

section

variable {cfg : BridgeConfig} {checkBearer : Option (Bytes → Bool)} {t t' : Posting} {w : World}
  {s : WsServer} {wsi : Nat} {k : Socket} {cb : Callback} {a : Answers} {c c' : Conn} {h : Headers}
  {post : Option Post}

/-! ### Step by step -/

theorem settled_start : Settled cfg checkBearer {} where
  posted := posted_start
  wired := wired_start
  handed _ h := by cases h
  waits _ _ _ _ hk := by cases hk
  passed _ hx := (List.not_mem_nil hx).elim

theorem usableLength_of_readsBody {path : Bytes} (hreads : readsBody cfg checkBearer h path = true) :
    usableLength (framing h) = true := by
  simp only [readsBody, opensHttp, Bool.and_eq_true, Bool.or_eq_true, Bool.not_eq_true'] at hreads
  obtain ⟨⟨⟨-, hget | ⟨-, hlength⟩⟩, hpost⟩, -⟩ := hreads
  · cases hget.symm.trans hpost
  · exact hlength

/-- Only the end of a body and a message hand a connection over, and it is that of the socket. -/
theorem hands_dispatch {v : Lws} {o : Output} {id : Nat}
    (ho : o ∈ (s.dispatch cfg checkBearer v a cb).outputs) (hid : o.hands = some id) :
    (cb = .httpBodyCompletion ∨ ∃ data binary final, cb = .receive data binary final) ∧
      ∃ c, s.lookup v.wsi = some c ∧ c.id = id := by
  cases o with
  | onBody d body isWebsocket =>
      cases hid
      obtain ⟨⟨c, hc, hid⟩, -⟩ := onBody_dispatch ho
      refine ⟨?_, c, hc, hid.symm⟩
      rcases s.dispatch_outputs cfg checkBearer v a cb ho rfl with
        ⟨⟨path, rfl⟩, -⟩ | rfl | ⟨⟨data, binary, final, rfl⟩, -⟩
      · cases http_hands path ho
      · exact .inl rfl
      · exact .inr ⟨data, binary, final, rfl⟩
  | _ => cases hid

theorem hasHanded_deliver (id : Nat) :
    (w.deliver cfg checkBearer wsi k cb a).hasHanded id = true ↔ w.hasHanded id = true ∨
      ∃ o ∈ (w.server.dispatch cfg checkBearer (k.lws wsi) a cb).outputs, o.hands = some id := by
  simp only [World.hasHanded, World.deliver, List.any_append, Bool.or_eq_true, List.any_eq_true,
    List.mem_map, beq_iff_eq]
  constructor
  · rintro (hold | ⟨e, ⟨o, ho, rfl⟩, hid⟩)
    · exact .inl hold
    · exact .inr ⟨o, ho, hid⟩
  · rintro (hold | ⟨o, ho, hid⟩)
    · exact .inl hold
    · exact .inr ⟨_, ⟨o, ho, rfl⟩, hid⟩

/-- A callback that hands nothing over. -/
theorem hasHanded_quiet (hcb : cb ≠ .httpBodyCompletion)
    (hreceive : ∀ data binary final, cb ≠ .receive data binary final) (id : Nat) :
    (w.deliver cfg checkBearer wsi k cb a).hasHanded id = w.hasHanded id := by
  rw [Bool.eq_iff_iff, hasHanded_deliver]
  refine ⟨fun hor => hor.resolve_right ?_, .inl⟩
  rintro ⟨o, ho, hid⟩
  obtain ⟨rfl | ⟨data, binary, final, rfl⟩, -⟩ := hands_dispatch ho hid
  · exact hcb rfl
  · exact hreceive data binary final rfl

/-- Only an HTTP request that is refused and a response that is written end a transaction. -/
theorem completed_dispatch {v : Lws} (hdone : (s.dispatch cfg checkBearer v a cb).completed = true) :
    (∃ path, cb = .http path) ∨ cb = .httpWriteable := by
  have hno : (s.dispatch cfg checkBearer v a cb).completed ≠ false := by
    rw [hdone]
    exact Bool.noConfusion
  cases cb with
  | http path => exact .inl ⟨path, rfl⟩
  | httpWriteable => exact .inr rfl
  -- a body leaves its transaction open: its response is written by a later callback
  | httpBody data =>
      exfalso
      apply hno
      show (s.httpBody cfg v data).completed = false
      unfold WsServer.httpBody
      split
      · rfl
      · split_ifs <;> rfl
  | httpBodyCompletion =>
      exfalso
      apply hno
      show (s.httpBodyCompletion v).completed = false
      unfold WsServer.httpBodyCompletion
      split
      · rfl
      · split <;> rfl
  | filterProtocolConnection =>
      exfalso
      apply hno
      show (s.filterProtocolConnection cfg checkBearer v).completed = false
      unfold WsServer.filterProtocolConnection
      split_ifs <;> rfl
  | established => cases hdone
  | receive data binary final => exact absurd (completed_receive cfg s v data binary final) hno
  | serverWriteable => exact absurd (completed_serverWriteable s v a) hno
  | closedHttp | closed | wsiDestroy =>
      exfalso
      apply hno
      show (s.detach v.wsi).completed = false
      unfold WsServer.detach
      dsimp only
      split <;> rfl

/-- The request goes on, and its connection with it. -/
theorem waits_dispatch (hc : w.server.lookup wsi = some c)
    (hreads : c.Reads cfg checkBearer wsi h post) (hwaits : c.Waits w k.h2Stream h post)
    (hcb : cb = .httpBodyCompletion ∨ cb = .httpWriteable ∨ ∃ data, cb = .httpBody data)
    (hret : (w.server.dispatch cfg checkBearer (k.lws wsi) a cb).ret = 0)
    (hc' : (w.server.dispatch cfg checkBearer (k.lws wsi) a cb).server.lookup wsi = some c')
    (hh : Headers) :
    c'.Waits (w.deliver cfg checkBearer wsi k cb a) k.h2Stream h
      (cb.reading cfg checkBearer wsi hh post) := by
  have hself : w.server.lookup (k.lws wsi).wsi = some c := hc
  have hput : ∀ {d : Conn}, (w.server.put (k.lws wsi).wsi d).lookup wsi = some c' → c' = d := by
    intro d hd
    rw [WsServer.lookup_put] at hd
    exact (Option.some.inj ((if_pos rfl).symm.trans hd)).symm
  -- the end of the body hands the connection over, so that what is queued no longer matters; the
  -- other two callbacks leave it to lws
  rcases hcb with rfl | rfl | ⟨data, rfl⟩
  · have hget : c'.httpClose = c.httpClose ∧ (post = none → c' = c ∧
        (w.server.dispatch cfg checkBearer (k.lws wsi) a .httpBodyCompletion).outputs = []) := by
      rcases httpBodyCompletion_spec hself with ⟨-, hspec⟩ | ⟨hroute, hspec⟩
      · rw [WsServer.dispatch, hspec] at hc'
        rw [WsServer.dispatch, hspec]
        cases hc.symm.trans hc'
        exact ⟨rfl, fun _ => ⟨rfl, rfl⟩⟩
      · rw [WsServer.dispatch, hspec] at hc'
        rw [hput hc']
        refine ⟨rfl, fun hnone => ?_⟩
        rw [hnone] at hreads
        cases hreads with
        | none hempty => exact absurd hempty hroute
    refine ⟨fun hmethod => hget.1.trans (hwaits.get hmethod), fun hmethod => ?_⟩
    cases hpost : post with
    | some p => exact .inl ⟨p.finish, rfl, rfl⟩
    | none =>
        right
        obtain ⟨rfl, houtputs⟩ := hget.2 hpost
        obtain ⟨p, hp, -⟩ | ⟨hqueue, hout, hhanded⟩ := hwaits.post hmethod
        · cases hpost.symm.trans hp
        · refine ⟨hqueue, hout, ?_⟩
          rw [Bool.eq_false_iff] at hhanded ⊢
          rw [ne_eq, hasHanded_deliver, houtputs]
          rintro (hold | ⟨o, ho, -⟩)
          · exact hhanded hold
          · cases ho
  · obtain ⟨⟨d, hd, hwritten, hquiet⟩, -⟩ := httpWriteable_spec (a := a) hself
    obtain rfl : d = c' := Option.some.inj (hd.symm.trans hc')
    refine ⟨fun hmethod => hwritten.close.trans (hwaits.get hmethod), fun hmethod => ?_⟩
    rcases hwaits.post hmethod with hended | ⟨hqueue, hout, hhanded⟩
    · exact .inl hended
    · right
      rw [hquiet hqueue hout, hasHanded_quiet (fun hcb => by cases hcb) (fun _ _ _ hcb => by cases hcb)]
      exact ⟨hqueue, hout, hhanded⟩
  · have hsame : c'.httpClose = c.httpClose ∧ c'.outbound = c.outbound ∧ c'.httpOut = c.httpOut ∧
        c'.id = c.id := by
      rcases httpBody_spec hself data hret with ⟨-, hspec⟩ | ⟨-, hspec⟩
      · rw [WsServer.dispatch, hspec] at hc'
        cases hc.symm.trans hc'
        exact ⟨rfl, rfl, rfl, rfl⟩
      · rw [WsServer.dispatch, hspec] at hc'
        rw [hput hc']
        exact ⟨rfl, rfl, rfl, rfl⟩
    obtain ⟨hclose, hqueue', hout', hid⟩ := hsame
    refine ⟨fun hmethod => hclose.trans (hwaits.get hmethod), fun hmethod => ?_⟩
    rcases hwaits.post hmethod with ⟨p, rfl, hended⟩ | ⟨hqueue, hout, hhanded⟩
    · exact .inl ⟨p.add data, rfl, hended⟩
    · right
      rw [hqueue', hout', hid,
        hasHanded_quiet (fun hcb => by cases hcb) (fun _ _ _ hcb => by cases hcb)]
      exact ⟨hqueue, hout, hhanded⟩

/-- lws goes on to the next request after this callback. -/
theorem read_of_idle (hsettled : Settled cfg checkBearer t) (hk : t.world.sockets wsi = some k)
    (hd : k.phase.delivers cb = true)
    (hidle : k.phase.after cb (t.world.server.dispatch cfg checkBearer (k.lws wsi) a cb) =
      some .idle) :
    Passed.Read ⟨k.h2Stream, k.phase.headers,
      cb.reading cfg checkBearer wsi k.phase.headers (t.reading wsi)⟩ := by
  intro hplain hfollows
  have hstream : k.h2Stream = false := hplain
  have hbody : bodyFollows (framing k.phase.headers) = true := hfollows
  have hdone := Phase.idle_after hd hidle
  -- a refusal tells lws to close when a body follows; a response is written after the body, or to a
  -- `GET` whose connection closes
  rcases completed_dispatch hdone with ⟨path, rfl⟩ | rfl
  · rcases http_opened cfg checkBearer t.world.server (k.lws wsi) a path with ⟨code, hrefuse⟩ | ⟨hgoes, -⟩
    · rw [WsServer.dispatch, hrefuse] at hdone
      cases (refuse_completed hdone hstream).symm.trans hbody
    · cases hdone.symm.trans hgoes
  · obtain ⟨h, hphase⟩ : ∃ h, k.phase = .request h := by
      cases hphase : k.phase with
      | request h => exact ⟨h, rfl⟩
      | _ => rw [hphase] at hd; cases hd
    obtain ⟨c, hc, hreads⟩ := hsettled.posted.conn wsi k h hk hphase
    have hwaits := hsettled.waits wsi k h c hk hphase hc
    obtain ⟨hclose, hbusy⟩ := (httpWriteable_spec (s := t.world.server) (v := k.lws wsi) hc).2 hdone
    rw [hphase] at hbody
    have hbody : bodyFollows (framing h) = true := hbody
    show ∃ p, t.reading wsi = some p ∧ p.ended = true ∧ p.headers = k.phase.headers ∧ _
    rw [hphase]
    cases hmethod : h.postUri.isEmpty with
    | true =>
        have hget := hwaits.get hmethod
        rw [hclose, hstream, hbody] at hget
        cases hget
    | false =>
        rcases hwaits.post hmethod with ⟨p, hp, hended⟩ | ⟨hqueue, hout, -⟩
        · rw [hp] at hreads
          cases hreads with
          | post _ hheaders haccepted _ _ _ =>
              exact ⟨p, hp, hended, hheaders, usableLength_of_readsBody haccepted⟩
        · exact absurd ⟨hqueue, hout⟩ hbusy

/-- The connection of the request that lws is at after a callback on its socket. -/
theorem waits_self (hsettled : Settled cfg checkBearer t) (hk : t.world.sockets wsi = some k)
    (hd : k.phase.delivers cb = true)
    (hafter : k.phase.after cb (t.world.server.dispatch cfg checkBearer (k.lws wsi) a cb) =
      some (.request h))
    (hc' : (t.world.server.dispatch cfg checkBearer (k.lws wsi) a cb).server.lookup wsi = some c') :
    c'.Waits (t.world.deliver cfg checkBearer wsi k cb a) k.h2Stream h
      (cb.reading cfg checkBearer wsi k.phase.headers (t.reading wsi)) := by
  obtain ⟨hret, hcompleted, ⟨⟨path, rfl⟩, hparsed⟩ | ⟨hrequest, hcb⟩⟩ := Phase.request_after hd hafter
  · rcases http_opened cfg checkBearer t.world.server (k.lws wsi) a path with ⟨code, hrefuse⟩ | ⟨-, c, hc, hopened⟩
    · have hends := t.world.server.refuse_ends (k.lws wsi) a code
      rw [← hrefuse] at hends
      rcases hends with hends | hends
      · exact absurd hret hends
      · cases hcompleted.symm.trans hends
    · obtain rfl : c = c' := Option.some.inj (hc.symm.trans hc')
      -- the connection is new: its id was never handed over
      have hheaders : (k.lws wsi).headers = h := by
        show k.phase.headers = h
        rw [hparsed]
        rfl
      refine ⟨fun hmethod => ?_, fun hmethod => .inr ?_⟩
      · rw [← hheaders] at hmethod ⊢
        exact (hopened.get hmethod).2
      · rw [← hheaders] at hmethod
        obtain ⟨-, -, hqueue, hout⟩ := hopened.post hmethod
        refine ⟨hqueue, hout, ?_⟩
        rw [hasHanded_quiet (fun hcb => by cases hcb) (fun _ _ _ hcb => by cases hcb), hopened.id,
          Bool.eq_false_iff]
        exact fun hold => absurd (hsettled.handed _ hold) (Nat.lt_irrefl _)
  · obtain ⟨c, hc, hreads⟩ := hsettled.posted.conn wsi k h hk hrequest
    exact waits_dispatch hc hreads (hsettled.waits wsi k h c hk hrequest hc) hcb hret hc' _

theorem Settled.deliver (hsettled : Settled cfg checkBearer t) (hk : t.world.sockets wsi = some k)
    (hd : k.phase.delivers cb = true) :
    Settled cfg checkBearer (t.deliver cfg checkBearer wsi k cb a) := by
  have halters := alters_dispatch cfg checkBearer t.world.server (k.lws wsi) a cb
  refine ⟨hsettled.posted.deliver hk hd, hsettled.wired.deliver cfg checkBearer hk hd,
    fun id hid => ?_, fun i k' h c' hk' hphase hc' => ?_, fun x hx => ?_⟩
  · refine Nat.lt_of_lt_of_le ?_ halters.le_nextConnId
    rcases (hasHanded_deliver id).mp hid with hold | ⟨o, ho, ho'⟩
    · exact hsettled.handed id hold
    · obtain ⟨-, c, hc, rfl⟩ := hands_dispatch ho ho'
      exact hsettled.wired.numbered wsi c.tag (by rw [WsServer.tag]; exact congrArg _ hc)
  -- the socket of the callback is at its request by `waits_self`; nothing happens to the others
  · by_cases hi : i = wsi
    · subst hi
      have hk' : (if i = i then (k.phase.after cb _).map _ else _) = some k' := hk'
      rw [if_pos rfl] at hk'
      obtain ⟨p, hp, rfl⟩ := Option.map_eq_some_iff.mp hk'
      have hphase : p = .request h := hphase
      subst hphase
      show c'.Waits _ k.h2Stream h (Function.update t.reading i _ i)
      rw [Function.update_self]
      exact waits_self hsettled hk hd hp hc'
    · have hk' : t.world.sockets i = some k' := (if_neg hi).symm.trans hk'
      obtain ⟨c, hc, -⟩ := hsettled.posted.conn i k' h hk' hphase
      have hwaits := hsettled.waits i k' h c hk' hphase hc
      obtain ⟨why, hsame⟩ := halters.elsewhere hi hc
      obtain rfl := Option.some.inj (hsame.symm.trans hc')
      show Conn.Waits _ _ _ _ (Function.update t.reading wsi _ i)
      rw [Function.update_of_ne hi]
      refine ⟨hwaits.get, fun hmethod => ?_⟩
      rcases hwaits.post hmethod with hended | ⟨hqueue, hout, hhanded⟩
      · exact .inl hended
      · refine .inr ⟨hqueue, hout, ?_⟩
        rw [Bool.eq_false_iff] at hhanded ⊢
        intro hnew
        rcases (hasHanded_deliver c.id).mp hnew with hold | ⟨o, ho, ho'⟩
        · exact hhanded hold
        · -- what is handed over is the connection of the other socket
          obtain ⟨-, d, hdc, hid⟩ := hands_dispatch ho ho'
          apply hi
          exact hsettled.wired.distinct i wsi c.tag d.tag (by rw [WsServer.tag, hc]; rfl)
            (by rw [WsServer.tag]; exact congrArg _ hdc) hid.symm
  · have hx : x ∈ t.passed ++ _ := hx
    rcases List.mem_append.mp hx with hx | hx
    · exact hsettled.passed x hx
    · split at hx
      · rename_i hidle
        obtain rfl := List.mem_singleton.mp hx
        apply read_of_idle (a := a) hsettled hk hd
        have hself : (t.world.deliver cfg checkBearer wsi k cb a).sockets wsi =
            (k.phase.after cb _).map fun p => { k with phase := p } := if_pos rfl
        rw [hself] at hidle
        cases hafter : k.phase.after cb
            (t.world.server.dispatch cfg checkBearer (k.lws wsi) a cb) with
        | none =>
            rw [hafter] at hidle
            cases hidle
        | some p =>
            rw [hafter] at hidle
            cases p with
            | idle => rfl
            | _ => cases hidle
      · cases hx

theorem Settled.step {ev : Event} {p : Multiset Empty} (hsettled : Settled cfg checkBearer t)
    (hok : answersHanded.enter t p ev) (hstep : t.step cfg checkBearer ev = some t') :
    Settled cfg checkBearer t' := by
  rcases posting_cases hstep with ⟨wsi, cb, a, k, rfl, hk, hd, rfl⟩ | ⟨hcallback, w', hw', rfl⟩
  · exact hsettled.deliver hk hd
  · obtain ⟨hhistory, hconn⟩ := step_elsewhere hw' hcallback
    have hhas : ∀ id, w'.hasHanded id = t.world.hasHanded id := by
      intro id
      rw [World.hasHanded, hhistory]
      rfl
    have hnext : w'.server.nextConnId = t.world.server.nextConnId := by
      cases ev with
      | callback wsi cb a => exact absurd rfl (hcallback wsi cb a)
      | send id frame =>
          cases hw'
          exact nextConnId_send cfg _ id frame
      | requestClose id why =>
          cases hw'
          exact nextConnId_requestClose _ id why
      | _ => exact (conns_step hcallback (fun _ _ hev => by cases hev) (fun _ _ hev => by cases hev) hw').2
    refine ⟨hsettled.posted.step hstep, hsettled.wired.step cfg checkBearer hw', fun id hid => ?_,
      fun i k h c' hk hphase hc' => ?_, hsettled.passed⟩
    · have hold : t.world.hasHanded id = true := (hhas id).symm.trans hid
      exact lt_of_lt_of_eq (hsettled.handed id hold) hnext.symm
    · obtain ⟨hk, hlookup⟩ := hconn i k h hk hphase
      obtain ⟨c, hc, -⟩ := hsettled.posted.conn i k h hk hphase
      obtain ⟨d, hd, hwritten, hsame⟩ := hlookup c hc
      obtain rfl : d = c' := Option.some.inj (hd.symm.trans hc')
      have hwaits := hsettled.waits i k h c hk hphase hc
      refine ⟨fun hmethod => hwritten.close.trans (hwaits.get hmethod), fun hmethod => ?_⟩
      rcases hwaits.post hmethod with hended | ⟨hqueue, hout, hhanded⟩
      · exact .inl hended
      · right
        -- by the guard the bridge sends to no connection that it has not been given
        have hother : ∀ frame, ev ≠ .send c.id frame := by
          rintro frame rfl
          have hok : t.world.hasHanded c.id = true := hok
          cases hok.symm.trans hhanded
        rw [(hsame hother).1, (hsame hother).2, hwritten.id]
        exact ⟨hqueue, hout, (hhas c.id).trans hhanded⟩

end

/-! ## Runs

Both results for a bridge that was started on any configuration. -/

/-- **A body is read whole, and for its own request**: what `onBody` is handed over HTTP are exactly
the bodies that lws read to their end, in their order. Each is put together from the pieces of its
own request alone, under the path of that request, and none is longer than the limit. -/
theorem posts_of_run (lib : Nlohmann) (own text : Bytes) (cfg : BridgeConfig)
    (hcfg : parseBridgeConfig lib own text = .ok cfg) (checkBearer : Option (Bytes → Bool))
    (s : State Posting Empty)
    (hrun : Run (posting cfg checkBearer) Guard.any { shared := {} } s) :
    s.shared.world.history.filterMap Handed.posted = s.shared.posts.map Post.body ∧
      ∀ p ∈ s.shared.posts, readsBody cfg checkBearer p.headers p.path = true ∧
        (p.chunks.flatten.length : Int) ≤ cfg.limits.maxBodyBytes := by
  have hposted : Posted cfg checkBearer s.shared := by
    apply Run.invariant (I := fun t _ => Posted cfg checkBearer t) posted_start _ _ hrun
    · intro sh x
      exact x.elim
    · intro sh ev e p h _ he
      obtain ⟨t', ht', rfl⟩ := Option.map_eq_some_iff.mp he
      exact h.step ht'
  have hlimit : (sizeT cfg.limits.maxBodyBytes : Int) = cfg.limits.maxBodyBytes := by
    have hmem : (str "max_body_bytes", cfg.limits.maxBodyBytes) ∈ cfg.limits.named := by
      simp [Limits.named]
    have hpositive := (accepted_of_parse hcfg).positive _ hmem
    have hint := limits_lt_of_parse hcfg _ hmem
    unfold sizeT
    omega
  refine ⟨hposted.bodies, fun p hp => ?_⟩
  obtain ⟨haccepted, hlength⟩ := hposted.within p hp
  refine ⟨haccepted, ?_⟩
  rw [← hlimit]
  exact Int.ofNat_le.mpr hlength

/-- `{"expose":{"modules":["m1"]},"limits":{"max_body_bytes":4}}`, and its value. -/
def shortBodiesText : Bytes := str
  "\x7b\"expose\":\x7b\"modules\":[\"m1\"]\x7d,\"limits\":\x7b\"max_body_bytes\":4\x7d\x7d"

def shortBodiesJson : Json :=
  Json.object [(str "expose", Json.object [(str "modules", .arr [.str (str "m1")])]),
    (str "limits", Json.object [(str "max_body_bytes", .uint 4)])]

def shortBodiesLib : Nlohmann := .only shortBodiesText shortBodiesJson (by decide)

def shortBodiesConfig : BridgeConfig :=
  { modules := [{ name := str "m1" }], limits := { maxBodyBytes := 4 } }

theorem parse_shortBodies :
    parseBridgeConfig shortBodiesLib (str "json_rpc_bridge") shortBodiesText = .ok shortBodiesConfig := by
  rfl

/-- A `POST` of four bytes in two pieces, its answer, and a second one of which three bytes and then
two arrive. -/
def twoPosts : List (Move Unit Event) :=
  let post : Headers :=
    { host := str "localhost", postUri := str "/rpc", contentType := str "application/json"
      contentLength := str "4" }
  [.enter (.connect 1 (str "127.0.0.1") false),
   .enter (.headers 1 post),
   .enter (.callback 1 (.http (some (str "/rpc"))) {}),
   .enter (.callback 1 (.httpBody (str "[ ")) {}),
   .enter (.callback 1 (.httpBody (str " ]")) {}),
   .enter (.callback 1 .httpBodyCompletion {}),
   .enter (.send 1 (str "[]")),
   .enter (.callback 1 .httpWriteable {}),
   .enter (.headers 1 post),
   .enter (.callback 1 (.http (some (str "/rpc"))) {}),
   .enter (.callback 1 (.httpBody (str "[ ]")) {}),
   .enter (.callback 1 (.httpBody (str "[]")) {})]

/-- The body of the first, and nothing of the second. -/
theorem posts_of_run_short : ∃ s,
    Run (posting shortBodiesConfig none) Guard.any { shared := {} } s ∧
    s.shared.posts.map (fun p => p.chunks) = [[str "[ ", str " ]"]] ∧
    s.shared.world.history.filterMap Handed.posted = s.shared.posts.map Post.body := by
  have hmoves : ((posting shortBodiesConfig none).replay { shared := {} } twoPosts).map
      (fun s => s.shared.posts.map fun p => p.chunks) = some [[str "[ ", str " ]"]] := by rfl
  obtain ⟨s, hs, hposts⟩ := Option.map_eq_some_iff.mp hmoves
  have hrun := Run.start.replay hs
  exact ⟨s, hrun, hposts, (posts_of_run shortBodiesLib (str "json_rpc_bridge") shortBodiesText
    shortBodiesConfig parse_shortBodies none s hrun).1⟩

/-- **No body is taken for a request**: when the bridge sends only on connections that `onBody`
handed it, lws goes on to the next request of a socket without HTTP/2 only when no body followed the
last one, or when that was a `POST` of a plain length whose body has been read to its end. -/
theorem passed_of_run (cfg : BridgeConfig) (checkBearer : Option (Bytes → Bool))
    (s : State Posting Empty)
    (hrun : Run (posting cfg checkBearer) answersHanded { shared := {} } s) :
    ∀ x ∈ s.shared.passed, x.Read := by
  have hsettled : Settled cfg checkBearer s.shared := by
    apply Run.invariant (I := fun t _ => Settled cfg checkBearer t) settled_start _ _ hrun
    · intro sh x
      exact x.elim
    · intro sh ev e p h hok he
      obtain ⟨t', ht', rfl⟩ := Option.map_eq_some_iff.mp he
      exact h.step hok ht'
  exact hsettled.passed

/-- The first of two `POST`s is left behind with its body read. -/
theorem passed_of_run_post : ∃ s,
    Run (posting shortBodiesConfig none) answersHanded { shared := {} } s ∧
    s.shared.passed.map (fun x => bodyFollows (framing x.headers)) = [true] ∧
    ∀ x ∈ s.shared.passed, x.Read := by
  have hmoves : ((posting shortBodiesConfig none).replayUnder answersHanded { shared := {} }
      twoPosts).map (fun s => s.shared.passed.map fun x => bodyFollows (framing x.headers)) =
      some [true] := by rfl
  obtain ⟨s, hs, hpassed⟩ := Option.map_eq_some_iff.mp hmoves
  have hrun := Run.start.replayUnder hs
  exact ⟨s, hrun, hpassed, passed_of_run shortBodiesConfig none s hrun⟩

end JsonRpcBridge.Server
