import JsonRpcBridge.Server.Gate
import JsonRpcBridge.Server.Table

/-!
# Queues and responses

Every connection has one queue. A `GET` and `send` put frames into it, a WebSocket writes them all,
and `HTTP_WRITEABLE` begins a response with whatever comes first. A callback puts nothing into the
queue of a connection that it finds in the table (`draws_dispatch`), and while lws is at an HTTP
request, a response that has begun is not over (`response_dispatch`): when it is, lws reads the next
request, or closes the socket.
-/

namespace JsonRpcBridge.Server

/-! ## Responses, and frames that are taken -/

/-- A response that began with `body`. -/
structure Response where
  conn : Nat
  body : Bytes

/-- The response that a callback begins: the headers are written, and the first frame is taken. -/
def begun (s : WsServer) (wsi : Nat) (a : Answers) : Callback → Option Response
  | .httpWriteable =>
    match s.lookup wsi with
    | none => none
    | some c => if c.httpOut.isNone && a.writeOk then c.outbound.head?.map (⟨c.id, ·⟩) else none
  | _ => none

/-- `send` finds the connection in the table, and its queue not full. -/
def WsServer.takes (cfg : BridgeConfig) (s : WsServer) (id : Nat) : Bool :=
  s.conns.any fun e =>
    e.2.id == id && decide ((e.2.outbound.length : Int) < cfg.limits.maxQueuedFramesPerConnection)

variable (cfg : BridgeConfig) (checkBearer : Option (Bytes → Bool))

/-! ## What is in the queues

Frames come in through `send` and with a new connection, and go out through the writeable
callbacks. -/

/-- `c'` is the connection `c` after a callback, which may have taken frames out of its queue. -/
structure Conn.Drawn (c c' : Conn) : Prop where
  id : c'.id = c.id
  kind : c'.isWebsocket = c.isWebsocket
  route : c'.httpRoute = c.httpRoute
  outbound : c'.outbound ⊆ c.outbound

theorem Conn.drawn_self (c : Conn) : c.Drawn c := ⟨rfl, rfl, rfl, fun _ h => h⟩

/-- The connections of `t` are those of `s`, frames perhaps taken out, and a new one: that of a
`POST` has an empty queue. -/
def Draws (s t : WsServer) (wsi : Nat) : Prop :=
  ∀ i c', t.lookup i = some c' → (∃ c, s.lookup i = some c ∧ c.Drawn c') ∨
    (i = wsi ∧ t.nextConnId = s.nextConnId + 1 ∧ c'.id = s.nextConnId ∧
      (c'.httpRoute = [] ∨ c'.outbound = []))

section

variable (s : WsServer) (v : Lws) (a : Answers) {wsi : Nat}

theorem draws_self : Draws s s wsi := fun _ c' hc' => .inl ⟨c', hc', c'.drawn_self⟩

variable {s} in
theorem draws_put {c c' : Conn} (hc : s.lookup wsi = some c) (hdrawn : c.Drawn c') (w : Nat) :
    Draws s (s.put wsi c') w := by
  intro i d hd
  rw [WsServer.lookup_put] at hd
  split at hd
  · rename_i hi
    cases hd
    exact .inl ⟨c, hi ▸ hc, hdrawn⟩
  · exact .inl ⟨d, hd, d.drawn_self⟩

variable {s} in
theorem Draws.requestClose {t : WsServer} (h : Draws s t wsi) (id : Nat) (why : CloseReason) :
    Draws s (t.requestClose id why) wsi := by
  intro i d hd
  have hnext : (t.requestClose id why).nextConnId = t.nextConnId := nextConnId_requestClose t id why
  obtain ⟨c, hc, rfl | rfl⟩ := lookup_requestClose_some hd
  · exact hnext ▸ h i _ hc
  · rcases h i c hc with ⟨c₀, hc₀, hid, hkind, hroute, hout⟩ | ⟨hi, hgrows, hid, hempty⟩
    · exact .inl ⟨c₀, hc₀, hid, hkind, hroute, hout⟩
    · exact .inr ⟨hi, hnext.trans hgrows, hid, hempty⟩

theorem draws_attach (isWebsocket : Bool) {c : Conn} (hid : c.id = s.nextConnId)
    (hempty : c.httpRoute = [] ∨ c.outbound = []) :
    Draws s ((s.attach cfg v isWebsocket).2.put v.wsi c) v.wsi := by
  intro i d hd
  rw [WsServer.lookup_attach] at hd
  split at hd
  · rename_i hi
    cases hd
    exact .inr ⟨hi, rfl, hid, hempty⟩
  · exact .inl ⟨d, hd, d.drawn_self⟩

theorem draws_detach (w : Nat) : Draws s (s.detach wsi).server w := by
  intro i d hd
  rw [WsServer.lookup_detach] at hd
  split at hd
  · cases hd
  · exact .inl ⟨d, hd, d.drawn_self⟩

/-- An HTTP request is refused, or its socket has a new connection that writes nothing yet. -/
theorem http_opens (path : Option Bytes) :
    (∃ code, s.http cfg checkBearer v a path = s.refuse v a code) ∨
      ∃ c, (s.http cfg checkBearer v a path).server = (s.attach cfg v false).2.put v.wsi c ∧
        c.id = s.nextConnId ∧ c.httpOut = none ∧ (c.httpRoute = [] ∨ c.outbound = []) := by
  unfold WsServer.http
  dsimp only
  split
  · exact .inl ⟨403, rfl⟩
  · split
    · exact .inl ⟨401, rfl⟩
    · split
      · exact .inr ⟨_, rfl, rfl, rfl, .inl rfl⟩
      · split
        · exact .inl ⟨415, rfl⟩
        · split
          · exact .inl ⟨411, rfl⟩
          · exact .inr ⟨_, rfl, rfl, rfl, .inr rfl⟩

/-! ### Callback by callback -/

theorem draws_http (path : Option Bytes) :
    Draws s (s.http cfg checkBearer v a path).server v.wsi := by
  rcases http_opens cfg checkBearer s v a path with
    ⟨code, hrefuse⟩ | ⟨c, hopens, hid, -, hempty⟩
  · rw [hrefuse, WsServer.refuse_server]
    exact draws_self s
  · rw [hopens]
    exact draws_attach cfg s v false hid hempty

theorem draws_httpBody (data : Bytes) : Draws s (s.httpBody cfg v data).server v.wsi := by
  unfold WsServer.httpBody
  split
  · exact draws_self s
  · rename_i c hc
    split_ifs
    · exact draws_self s
    · exact draws_self s
    · exact draws_put hc (by exact ⟨rfl, rfl, rfl, fun _ h => h⟩) _

theorem draws_httpBodyCompletion : Draws s (s.httpBodyCompletion v).server v.wsi := by
  unfold WsServer.httpBodyCompletion
  split
  · exact draws_self s
  · rename_i c hc
    split
    · exact draws_self s
    · exact draws_put hc (by exact ⟨rfl, rfl, rfl, fun _ h => h⟩) _

variable {s} in
theorem draws_writeSlice {c c' : Conn} (hc : s.lookup v.wsi = some c) (hdrawn : c.Drawn c')
    (w : HttpBodyWriter) : Draws s (s.writeSlice v a c' w).server v.wsi := by
  have hwith : ∀ out, c.Drawn { c' with httpOut := out } :=
    fun _ => ⟨hdrawn.id, hdrawn.kind, hdrawn.route, hdrawn.outbound⟩
  unfold WsServer.writeSlice
  dsimp only
  split
  · exact draws_put hc (hwith _) _
  · split
    · exact draws_put hc (hwith _) _
    · split <;> exact draws_put hc (hwith _) _

theorem draws_httpWriteable : Draws s (s.httpWriteable v a).server v.wsi := by
  unfold WsServer.httpWriteable
  split
  · exact draws_self s
  · rename_i c hc
    split
    · exact draws_writeSlice v a hc c.drawn_self _
    · split
      · exact draws_self s
      · rename_i body rest hout
        have hrest : c.Drawn { c with outbound := rest } :=
          ⟨rfl, rfl, rfl, fun f hf => hout ▸ List.mem_cons_of_mem _ hf⟩
        dsimp only
        split
        · exact draws_put hc hrest _
        · exact draws_writeSlice v a hc hrest _

theorem draws_receive (data : Bytes) (binary final : Bool) :
    Draws s (s.receive cfg v data binary final).server v.wsi := by
  unfold WsServer.receive
  split
  · exact draws_self s
  · rename_i c hc
    have hbuffer : ∀ body, c.Drawn { c with httpBody := body } :=
      fun _ => ⟨rfl, rfl, rfl, fun _ h => h⟩
    dsimp only
    split_ifs
    · exact (draws_self s).requestClose _ _
    · exact (draws_put hc (hbuffer _) _).requestClose _ _
    · exact draws_put hc (hbuffer _) _
    · exact draws_put hc (hbuffer _) _

theorem draws_serverWriteable : Draws s (s.serverWriteable v a).server v.wsi := by
  unfold WsServer.serverWriteable
  split
  · exact draws_self s
  · rename_i c hc
    split
    · exact draws_self s
    · unfold WsServer.writeQueued
      dsimp only
      split
      · split
        · exact draws_put hc c.drawn_self _
        · refine draws_put hc ?_ _
          split <;> exact ⟨rfl, rfl, rfl, fun _ h => h⟩
      · split
        · exact draws_self s
        · rename_i frame rest hout
          have hrest : rest ⊆ c.outbound := fun f hf => hout ▸ List.mem_cons_of_mem _ hf
          split
          · exact draws_put hc (by exact ⟨rfl, rfl, rfl, hrest⟩) _
          · refine draws_put hc ?_ _
            split <;> exact ⟨rfl, rfl, rfl, hrest⟩

/-- **A callback queues nothing**, but on the connection it makes. -/
theorem draws_dispatch (cb : Callback) :
    Draws s (s.dispatch cfg checkBearer v a cb).server v.wsi := by
  cases cb with
  | http path => exact draws_http cfg checkBearer s v a path
  | httpBody data => exact draws_httpBody cfg s v data
  | httpBodyCompletion => exact draws_httpBodyCompletion s v
  | httpWriteable => exact draws_httpWriteable s v a
  | filterProtocolConnection =>
      show Draws s (s.filterProtocolConnection cfg checkBearer v).server v.wsi
      rw [(s.filterProtocolConnection_server cfg checkBearer v).1]
      exact draws_self s
  | established => exact draws_attach cfg s v true rfl (.inl rfl)
  | receive data binary final => exact draws_receive cfg s v data binary final
  | serverWriteable => exact draws_serverWriteable s v a
  | closedHttp | closed | wsiDestroy => exact draws_detach s v.wsi

end

/-- `send` puts the frame at the end of one queue, or into none. -/
theorem lookup_send_takes {cfg : BridgeConfig} {s : WsServer} {id i : Nat} {frame : Bytes}
    {c' : Conn} (h : (s.send cfg id frame).lookup i = some c') :
    ∃ c, s.lookup i = some c ∧ c'.tag = c.tag ∧ c'.httpOut = c.httpOut ∧
      (c'.outbound = c.outbound ∨
        c.id = id ∧ s.takes cfg id = true ∧ c'.outbound = c.outbound ++ [frame]) := by
  unfold WsServer.send at h
  split at h
  · exact ⟨c', h, rfl, rfl, .inl rfl⟩
  · rw [WsServer.lookup_wake, WsServer.lookup_update] at h
    obtain ⟨c, hc, rfl⟩ := Option.map_eq_some_iff.mp h
    refine ⟨c, hc, ?_⟩
    split_ifs with hid hfull
    · exact ⟨rfl, rfl, .inl rfl⟩
    · refine ⟨rfl, rfl, .inr ⟨hid, ?_, rfl⟩⟩
      apply List.any_eq_true.mpr
      refine ⟨(i, c), List.mem_of_lookup hc, ?_⟩
      rw [Bool.and_eq_true, beq_iff_eq, decide_eq_true_eq]
      exact ⟨hid, Int.not_le.mp hfull⟩
    · exact ⟨rfl, rfl, .inl rfl⟩

/-! ## Responses

A response has begun once its headers are written. From there the connection writes it, slice by
slice, and lws does not go on to another request before it is done. -/

section

variable {s : WsServer} {v : Lws} {a : Answers}

/-- A response begins with the first frame of the queue, and none was being written. -/
theorem begun_some {wsi : Nat} {cb : Callback} {r : Response} (h : begun s wsi a cb = some r) :
    cb = .httpWriteable ∧ a.writeOk = true ∧ ∃ c rest, s.lookup wsi = some c ∧ c.httpOut = none ∧
      c.outbound = r.body :: rest ∧ r.conn = c.id := by
  cases cb with
  | httpWriteable =>
      rw [begun] at h
      split at h
      · cases h
      · rename_i c hc
        split at h
        · rename_i hbegins
          rw [Bool.and_eq_true, Option.isNone_iff_eq_none] at hbegins
          obtain ⟨body, hbody, rfl⟩ := Option.map_eq_some_iff.mp h
          obtain ⟨rest, hout⟩ := List.head?_eq_some_iff.mp hbody
          exact ⟨rfl, hbegins.2, c, rest, hc, hbegins.1, hout, rfl⟩
        · cases h
  | _ => cases h

/-- What became of the response at hand, on a connection that goes on with its request. -/
structure Responds (s : WsServer) (wsi : Nat) (a : Answers) (cb : Callback) (c c' : Conn) : Prop where
  id : c'.id = c.id
  writing : c'.httpOut.isSome = (c.httpOut.isSome || (begun s wsi a cb).isSome)

/-- A slice that is not the last leaves the response being written. -/
theorem writeSlice_goes_on {c : Conn} {w : HttpBodyWriter} {d : Conn}
    (hret : (s.writeSlice v a c w).ret = 0) (hcompleted : (s.writeSlice v a c w).completed = false)
    (hd : (s.writeSlice v a c w).server.lookup v.wsi = some d) :
    d.id = c.id ∧ d.httpOut.isSome = true := by
  unfold WsServer.writeSlice at hret hcompleted hd
  dsimp only at hret hcompleted hd
  split at hret
  · cases hret
  · rename_i n hwrote
    rw [hwrote] at hcompleted hd
    dsimp only at hcompleted hd
    by_cases hlast : (!w.next.2.1) = true
    · rw [if_pos hlast, WsServer.lookup_put, if_pos rfl] at hd
      cases hd
      exact ⟨rfl, rfl⟩
    · rw [if_neg hlast] at hret hcompleted
      by_cases hclose : c.httpClose = true
      · rw [if_pos hclose] at hret
        cases hret
      · rw [if_neg hclose] at hret hcompleted
        have hkeep : a.keepAlive = false := hcompleted
        rw [hkeep] at hret
        cases hret

theorem responds_httpWriteable {d : Conn} (hret : (s.httpWriteable v a).ret = 0)
    (hcompleted : (s.httpWriteable v a).completed = false)
    (hd : (s.httpWriteable v a).server.lookup v.wsi = some d) :
    ∃ c, s.lookup v.wsi = some c ∧ Responds s v.wsi a .httpWriteable c d := by
  have hbegun : begun s v.wsi a .httpWriteable =
      match s.lookup v.wsi with
      | none => none
      | some c =>
        if c.httpOut.isNone && a.writeOk then c.outbound.head?.map (⟨c.id, ·⟩) else none := rfl
  unfold WsServer.httpWriteable at hret hcompleted hd
  split at hd
  · rename_i hnone
    rw [hnone] at hd
    cases hd
  · rename_i c hc
    refine ⟨c, hc, ?_⟩
    rw [hc] at hret hcompleted hbegun
    dsimp only at hret hcompleted hbegun
    split at hd
    -- a response is being written; none begins
    · rename_i w hw
      rw [hw] at hret hcompleted hbegun
      obtain ⟨hid, hwriting⟩ := writeSlice_goes_on hret hcompleted hd
      exact ⟨hid, by rw [hwriting, hw]; rfl⟩
    · rename_i hw
      rw [hw] at hret hcompleted hbegun
      dsimp only at hret hcompleted hbegun
      split at hd
      · rename_i hempty
        rw [hempty] at hbegun
        rw [hc] at hd
        cases hd
        exact ⟨rfl, by rw [hbegun, hw]; simp⟩
      · rename_i body rest hout
        rw [hout] at hret hcompleted hbegun
        dsimp only at hret hcompleted hbegun hd
        by_cases hok : a.writeOk = true
        · rw [hok] at hret hcompleted hd hbegun
          obtain ⟨hid, hwriting⟩ := writeSlice_goes_on hret hcompleted hd
          exact ⟨hid, by rw [hwriting, hbegun, hw]; rfl⟩
        · rw [if_pos (by simpa using hok)] at hret
          cases hret

theorem responds_httpBody (cfg : BridgeConfig) {data : Bytes} {d : Conn}
    (hd : (s.httpBody cfg v data).server.lookup v.wsi = some d) :
    ∃ c, s.lookup v.wsi = some c ∧ Responds s v.wsi a (.httpBody data) c d := by
  unfold WsServer.httpBody at hd
  split at hd
  · exact ⟨d, hd, rfl, (Bool.or_false _).symm⟩
  · rename_i c hc
    refine ⟨c, hc, ?_⟩
    split_ifs at hd
    · cases hc.symm.trans hd
      exact ⟨rfl, (Bool.or_false _).symm⟩
    · cases hc.symm.trans hd
      exact ⟨rfl, (Bool.or_false _).symm⟩
    · rw [WsServer.lookup_put, if_pos rfl] at hd
      cases hd
      exact ⟨rfl, (Bool.or_false _).symm⟩

theorem responds_httpBodyCompletion {d : Conn}
    (hd : (s.httpBodyCompletion v).server.lookup v.wsi = some d) :
    ∃ c, s.lookup v.wsi = some c ∧ Responds s v.wsi a .httpBodyCompletion c d := by
  unfold WsServer.httpBodyCompletion at hd
  split at hd
  · exact ⟨d, hd, rfl, (Bool.or_false _).symm⟩
  · rename_i c hc
    refine ⟨c, hc, ?_⟩
    split at hd
    · cases hc.symm.trans hd
      exact ⟨rfl, (Bool.or_false _).symm⟩
    · have hd : (s.put v.wsi { c with httpBody := [] }).lookup v.wsi = some d := hd
      rw [WsServer.lookup_put, if_pos rfl] at hd
      cases hd
      exact ⟨rfl, (Bool.or_false _).symm⟩

/-- **While lws is at an HTTP request**, its connection is new, or it goes on with the response that
it was writing or begins now. -/
theorem response_dispatch (cfg : BridgeConfig) (checkBearer : Option (Bytes → Bool)) {k : Socket}
    {wsi : Nat} {cb : Callback} (hd : k.phase.delivers cb = true) {h : Headers}
    (hafter : k.phase.after cb (s.dispatch cfg checkBearer (k.lws wsi) a cb) = some (.request h))
    {c' : Conn} (hc' : (s.dispatch cfg checkBearer (k.lws wsi) a cb).server.lookup wsi = some c') :
    (c'.id = s.nextConnId ∧ c'.httpOut = none ∧ begun s wsi a cb = none) ∨
      ∃ c, k.phase = .request h ∧ s.lookup wsi = some c ∧ Responds s wsi a cb c c' := by
  obtain hclosing | hidle | ⟨hret, hcompleted, hnext⟩ := Phase.after_cases hafter
  · cases hclosing
  · cases hidle
  -- lws goes on: with a request that it hands over now, or with the one it is at
  have hsame (hplace : cb.inPlace = true) : k.phase = .request h := by
    rw [hnext, Phase.next_of_inPlace hplace]
  cases cb with
  | http path =>
      left
      rcases http_opens cfg checkBearer s (k.lws wsi) a path with
        ⟨code, hrefuse⟩ | ⟨c, hopens, hid, hout, -⟩
      · have hends := s.refuse_ends (k.lws wsi) a code
        rw [← hrefuse] at hends
        rcases hends with hends | hends
        · exact absurd hret hends
        · cases hcompleted.symm.trans hends
      · have hc' : ((s.attach cfg (k.lws wsi) false).2.put wsi c).lookup wsi = some c' :=
          hopens ▸ hc'
        rw [WsServer.lookup_put, if_pos rfl] at hc'
        cases hc'
        exact ⟨hid, hout, rfl⟩
  | httpBody data =>
      obtain ⟨c, hc, hresponds⟩ := responds_httpBody cfg hc'
      exact .inr ⟨c, hsame rfl, hc, hresponds⟩
  | httpBodyCompletion =>
      obtain ⟨c, hc, hresponds⟩ := responds_httpBodyCompletion hc'
      exact .inr ⟨c, hsame rfl, hc, hresponds⟩
  | httpWriteable =>
      obtain ⟨c, hc, hresponds⟩ := responds_httpWriteable hret hcompleted hc'
      exact .inr ⟨c, hsame rfl, hc, hresponds⟩
  | receive data binary final =>
      rw [hsame rfl] at hd
      cases hd
  | serverWriteable =>
      rw [hsame rfl] at hd
      cases hd
  | filterProtocolConnection =>
      cases hphase : k.phase with
      | parsed _ =>
          rw [hphase] at hnext
          cases hnext
      | _ =>
          rw [hphase] at hd
          cases hd
  | established =>
      cases hphase : k.phase with
      | upgrading _ =>
          rw [hphase] at hnext
          cases hnext
      | _ =>
          rw [hphase] at hd
          cases hd
  | closedHttp | closed | wsiDestroy => cases hafter

end

/-! ## At most one response

Connections are per request: a second response on one would have to begin while the first is
being written. -/

/-- The responses that began on the connection `id`. -/
def begunOn (rs : List Response) (id : Nat) : Nat := rs.countP fun r => r.conn == id

/-- Of the responses that have begun: each is on a connection there was, each connection has one at
most, and while lws is at an HTTP request it is the one being written. -/
structure Served (w : World) (rs : List Response) : Prop where
  wired : Wired w
  asked : ∀ r ∈ rs, r.conn < w.server.nextConnId
  once : ∀ id, begunOn rs id ≤ 1
  serving : ∀ wsi k h c, w.sockets wsi = some k → k.phase = .request h →
    w.server.lookup wsi = some c → begunOn rs c.id = if c.httpOut.isSome then 1 else 0

section

variable {cfg : BridgeConfig} {checkBearer : Option (Bytes → Bool)} {s t : WsServer} {v : Lws}
  {a : Answers} {cb : Callback} {w : World} {rs : List Response}

/-! ### Every event -/

theorem served_start : Served {} [] where
  wired := wired_start
  asked _ hr := (List.not_mem_nil hr).elim
  once _ := Nat.zero_le _
  serving _ _ _ _ hk := nomatch hk

/-- The other sockets keep their connections and the responses on them. -/
theorem Alters.other (h : Alters cfg checkBearer s v cb t) {i : Nat} (hi : i ≠ v.wsi) {c' : Conn}
    (hc' : t.lookup i = some c') :
    ∃ c, s.lookup i = some c ∧ c'.tag = c.tag ∧ c'.httpOut = c.httpOut := by
  have hput : ∀ {d c' : Conn}, (s.put v.wsi d).lookup i = some c' →
      ∃ c, s.lookup i = some c ∧ c'.tag = c.tag ∧ c'.httpOut = c.httpOut := by
    intro d c' hc'
    rw [WsServer.lookup_put, if_neg hi] at hc'
    exact ⟨c', hc', rfl, rfl⟩
  cases h with
  | same _ => exact ⟨c', hc', rfl, rfl⟩
  | touches _ _ _ => exact hput hc'
  | asks _ _ _ =>
      obtain ⟨c, hc, rfl | rfl⟩ := lookup_requestClose_some hc'
      · exact ⟨_, hc, rfl, rfl⟩
      · exact ⟨c, hc, rfl, rfl⟩
  | touchesAsks _ _ _ _ =>
      obtain ⟨c, hc, rfl | rfl⟩ := lookup_requestClose_some hc'
      · exact hput hc
      · obtain ⟨d, hd, htag, hout⟩ := hput hc
        exact ⟨d, hd, htag, hout⟩
  | opens _ _ _ _ _ =>
      rw [WsServer.lookup_attach, if_neg hi] at hc'
      exact ⟨c', hc', rfl, rfl⟩
  | closes _ =>
      rw [WsServer.lookup_detach, if_neg hi] at hc'
      exact ⟨c', hc', rfl, rfl⟩

/-- Connections are numbered upwards. -/
theorem Alters.le_nextConnId (h : Alters cfg checkBearer s v cb t) :
    s.nextConnId ≤ t.nextConnId := by
  rcases h.tags with ⟨-, hnext, -⟩ | ⟨-, -, -, hnext, -⟩ | ⟨-, hnext, -⟩
  · exact hnext.ge
  · exact hnext ▸ Nat.le_succ _
  · exact hnext.ge

theorem begunOn_append (rs rs' : List Response) (id : Nat) :
    begunOn (rs ++ rs') id = begunOn rs id + begunOn rs' id := List.countP_append

theorem begunOn_of_ne {r? : Option Response} {id : Nat} (h : ∀ r ∈ r?, r.conn ≠ id) :
    begunOn r?.toList id = 0 := by
  cases r? with
  | none => rfl
  | some r => simp [begunOn, h r rfl]

theorem begunOn_self {r : Response} : begunOn (some r).toList r.conn = 1 := by simp [begunOn]

/-- No response has begun on a connection that is not there yet. -/
theorem Served.fresh (h : Served w rs) {id : Nat} (hid : w.server.nextConnId ≤ id) :
    begunOn rs id = 0 := by
  apply List.countP_eq_zero.mpr
  intro r hr heq
  have hlt := h.asked r hr
  rw [beq_iff_eq.mp heq] at hlt
  omega

/-- A response begins while lws is at an HTTP request. -/
theorem request_of_begun {k : Socket} (hd : k.phase.delivers cb = true) {wsi : Nat} {r : Response}
    (hr : begun s wsi a cb = some r) : ∃ hh, k.phase = .request hh := by
  obtain ⟨rfl, -⟩ := begun_some hr
  cases hphase : k.phase with
  | request hh => exact ⟨hh, rfl⟩
  | _ =>
      rw [hphase] at hd
      cases hd

/-- An HTTP response begins while lws is at the request, and none has begun on its connection. -/
theorem Served.begins (h : Served w rs) {wsi : Nat} {k : Socket} (hk : w.sockets wsi = some k)
    (hd : k.phase.delivers cb = true) {r : Response} (hr : begun w.server wsi a cb = some r) :
    ∃ c, w.server.lookup wsi = some c ∧ r.conn = c.id ∧ begunOn rs c.id = 0 := by
  obtain ⟨-, -, c, rest, hc, hout, -, hconn⟩ := begun_some hr
  obtain ⟨hh, hphase⟩ := request_of_begun hd hr
  refine ⟨c, hc, hconn, ?_⟩
  have hserving := h.serving wsi k hh c hk hphase hc
  rw [hout] at hserving
  exact hserving

/-- **A callback** begins one response at most, and on a connection that has none. -/
theorem Served.deliver (h : Served w rs) {wsi : Nat} {k : Socket} (hk : w.sockets wsi = some k)
    (hd : k.phase.delivers cb = true) :
    Served (w.deliver cfg checkBearer wsi k cb a) (rs ++ (begun w.server wsi a cb).toList) := by
  have halters := alters_dispatch cfg checkBearer w.server (k.lws wsi) a cb
  have hnext := halters.le_nextConnId
  refine ⟨h.wired.deliver cfg checkBearer hk hd, fun r hr => ?_, fun id => ?_, ?_⟩
  · refine Nat.lt_of_lt_of_le ?_ hnext
    rcases List.mem_append.mp hr with hr | hr
    · exact h.asked r hr
    · obtain ⟨c, hc, hconn, -⟩ := h.begins hk hd (Option.mem_toList.mp hr)
      rw [hconn]
      exact h.wired.numbered wsi c.tag (by rw [WsServer.tag, hc]; rfl)
  · rw [begunOn_append]
    cases hr : begun w.server wsi a cb with
    | none => exact h.once id
    | some r =>
        obtain ⟨c, -, hconn, hzero⟩ := h.begins hk hd hr
        -- the response that begins here is the first of its connection
        by_cases hid : r.conn = id
        · rw [← hid, begunOn_self, hconn, hzero]
        · rw [begunOn_of_ne fun r' hr' => by cases hr'; exact hid]
          exact h.once id
  · intro i k' hh c' hk' hphase hc'
    rw [begunOn_append]
    by_cases hi : i = wsi
    · subst hi
      -- lws goes on with the request: its connection is new, or it was at it before
      have hafter : k.phase.after cb (w.server.dispatch cfg checkBearer (k.lws i) a cb) =
          some (.request hh) := by
        have hself : (w.deliver cfg checkBearer i k cb a).sockets i =
            (k.phase.after cb (w.server.dispatch cfg checkBearer (k.lws i) a cb)).map
              fun p => { k with phase := p } := if_pos rfl
        obtain ⟨p, hp, rfl⟩ := Option.map_eq_some_iff.mp (hself.symm.trans hk')
        exact hp.trans (congrArg some hphase)
      rcases response_dispatch cfg checkBearer hd hafter hc' with
        ⟨hid, hout, hnone⟩ | ⟨c, hrequest, hc, hid, hwriting⟩
      · rw [hnone, hout, h.fresh hid.ge]
        rfl
      · have hserving := h.serving i k hh c hk hrequest hc
        cases hr : begun w.server i a cb with
        | none =>
            rw [hr, Option.isSome_none, Bool.or_false] at hwriting
            rw [hid, hwriting, hserving]
            rfl
        | some r =>
            obtain ⟨d, hlookup, hconn, hzero⟩ := h.begins hk hd hr
            obtain rfl : c = d := Option.some.inj (hc.symm.trans hlookup)
            rw [hr, Option.isSome_some, Bool.or_true] at hwriting
            rw [hid, hwriting, hzero, ← hconn, begunOn_self]
            rfl
    · have hsocket : w.sockets i = some k' := (if_neg hi).symm.trans hk'
      obtain ⟨c, hc, htag, hout⟩ := halters.other hi hc'
      have hid : c'.id = c.id := congrArg Prod.fst htag
      have hzero : begunOn (begun w.server wsi a cb).toList c'.id = 0 := by
        refine begunOn_of_ne fun r hr => ?_
        obtain ⟨d, hlookup, hconn, -⟩ := h.begins hk hd hr
        rw [hconn, hid]
        intro heq
        refine hi (h.wired.distinct i wsi c.tag d.tag ?_ ?_ heq.symm)
        · rw [WsServer.tag, hc]
          rfl
        · rw [WsServer.tag, hlookup]
          rfl
      rw [hzero, hid, hout]
      exact h.serving i k' hh c hsocket hphase hc

/-- An event that is no callback begins no response. -/
theorem Served.quiet {w' : World} (h : Served w rs) (hwired : Wired w')
    (hnext : w'.server.nextConnId = w.server.nextConnId)
    (hserving : ∀ wsi k' hh c', w'.sockets wsi = some k' → k'.phase = .request hh →
      w'.server.lookup wsi = some c' → ∃ k c, w.sockets wsi = some k ∧ k.phase = .request hh ∧
        w.server.lookup wsi = some c ∧ c'.id = c.id ∧ c'.httpOut = c.httpOut) : Served w' rs where
  wired := hwired
  asked r hr := hnext ▸ h.asked r hr
  once := h.once
  serving wsi k' hh c' hk' hphase hc' := by
    obtain ⟨k, c, hk, hphase, hc, hid, hout⟩ := hserving wsi k' hh c' hk' hphase hc'
    rw [hid, hout]
    exact h.serving wsi k hh c hk hphase hc

theorem Served.send (h : Served w rs) (id : Nat) (frame : Bytes) :
    Served { w with server := w.server.send cfg id frame } rs := by
  have hstep : w.step cfg none (.send id frame) =
      some { w with server := w.server.send cfg id frame } := rfl
  refine h.quiet (h.wired.step cfg none hstep) (nextConnId_send cfg w.server id frame) ?_
  intro wsi k hh c' hk hphase hc'
  obtain ⟨c, hc, htag, hout, -⟩ := lookup_send_takes hc'
  exact ⟨k, c, hk, hphase, hc, congrArg Prod.fst htag, hout⟩

/-- A socket that connects, headers that lws has read and a thread that wakes leave the connections
alone. -/
theorem conns_step {w' : World} {ev : Event} (hcallback : ∀ wsi cb a, ev ≠ .callback wsi cb a)
    (hsend : ∀ id frame, ev ≠ .send id frame) (hclose : ∀ id why, ev ≠ .requestClose id why)
    (hstep : w.step cfg checkBearer ev = some w') :
    w'.server.conns = w.server.conns ∧ w'.server.nextConnId = w.server.nextConnId := by
  cases ev with
  | callback wsi cb a => exact absurd rfl (hcallback wsi cb a)
  | send id frame => exact absurd rfl (hsend id frame)
  | requestClose id why => exact absurd rfl (hclose id why)
  | woken =>
      cases hstep
      exact ⟨rfl, rfl⟩
  | connect wsi peer h2Stream =>
      simp only [World.step] at hstep
      split at hstep
      · cases hstep
      · cases hstep
        exact ⟨rfl, rfl⟩
  | headers wsi hd =>
      simp only [World.step] at hstep
      split at hstep
      · cases hstep
        exact ⟨rfl, rfl⟩
      · cases hstep

/-- A socket connects, lws has read headers, or the service thread wakes. -/
theorem Served.step {w' : World} {ev : Event} (h : Served w rs)
    (hcallback : ∀ wsi cb a, ev ≠ .callback wsi cb a) (hsend : ∀ id frame, ev ≠ .send id frame)
    (hclose : ∀ id why, ev ≠ .requestClose id why)
    (hstep : w.step cfg checkBearer ev = some w') : Served w' rs := by
  have hwired := h.wired.step cfg checkBearer hstep
  have hset {wsi : Nat} {k : Socket} (hphase : ∀ hh, k.phase ≠ .request hh)
      (heq : w' = w.setSocket wsi (some k)) : Served w' rs := by
    subst heq
    refine h.quiet hwired rfl fun i k' hh c' hk' hrequest hc' => ?_
    have hk' : (if i = wsi then some k else w.sockets i) = some k' := hk'
    split at hk'
    · cases hk'
      exact absurd hrequest (hphase hh)
    · exact ⟨k', c', hk', hrequest, hc', rfl, rfl⟩
  cases ev with
  | callback wsi cb a => exact absurd rfl (hcallback wsi cb a)
  | send id frame => exact absurd rfl (hsend id frame)
  | requestClose id why => exact absurd rfl (hclose id why)
  | woken =>
      cases hstep
      exact h.quiet hwired rfl fun _ k _ c hk hphase hc => ⟨k, c, hk, hphase, hc, rfl, rfl⟩
  | connect wsi peer h2Stream =>
      simp only [World.step] at hstep
      split at hstep
      · cases hstep
      · exact hset (fun _ hphase => by cases hphase) (Option.some.inj hstep).symm
  | headers wsi hd =>
      simp only [World.step] at hstep
      split at hstep
      · exact hset (fun _ hphase => by cases hphase) (Option.some.inj hstep).symm
      · cases hstep

end

end JsonRpcBridge.Server
