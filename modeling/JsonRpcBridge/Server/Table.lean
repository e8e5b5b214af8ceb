import JsonRpcBridge.Server.Transport

/-!
# What a callback does to the connection table

Every callback leaves the table alone, changes the connection of its socket, asks to close it, gives
the socket a new connection, or takes its connection away (`alters_dispatch`). What is kept over runs
is proved from these five, not from the callbacks.
-/

namespace JsonRpcBridge.Server

variable (cfg : BridgeConfig) (checkBearer : Option (Bytes → Bool))

/-! ## Kinds of callbacks

Which callbacks may open a connection, read into one, close one, and leave everything as it is. -/

/-- The HTTP request is answered with a connection of its own: a `GET` that passed the checks, or a
`POST` whose body will be read. -/
def opensHttp (h : Headers) : Bool :=
  admitted cfg checkBearer h &&
    (h.postUri.isEmpty ||
      startsWith (str "application/json") h.contentType && usableLength (framing h))

/-- The callbacks that put a new connection into the table. -/
def Callback.opens (h : Headers) : Callback → Bool
  | .http _ => opensHttp cfg checkBearer h
  | .established => true
  | _ => false

/-- The callbacks that read a body or a message. -/
def Callback.reads : Callback → Bool
  | .httpBody _ | .httpBodyCompletion | .receive _ _ _ => true
  | _ => false

/-- The callbacks that take a connection away. -/
def Callback.closes : Callback → Bool
  | .closedHttp | .closed | .wsiDestroy => true
  | _ => false

/-- The callbacks that may leave the connections of the table as they are. -/
def Callback.keeps : Callback → Bool
  | .closedHttp | .closed | .wsiDestroy | .established => false
  | _ => true

/-- `c'` is the connection `c` after the callback. -/
structure Conn.Touched (cb : Callback) (c c' : Conn) : Prop where
  id : c'.id = c.id
  kind : c'.isWebsocket = c.isWebsocket
  httpBody : cb.reads = false → c'.httpBody = c.httpBody

/-- What a callback about the socket of `v` may do to the table. -/
inductive Alters (s : WsServer) (v : Lws) (cb : Callback) : WsServer → Prop
  | same : cb.keeps = true → Alters s v cb s
  | touches {c c' : Conn} : cb.keeps = true → s.lookup v.wsi = some c → c.Touched cb c' →
      Alters s v cb (s.put v.wsi c')
  | asks {c : Conn} {why : CloseReason} : cb.keeps = true → s.lookup v.wsi = some c →
      why ≠ .none → Alters s v cb (s.requestClose c.id why)
  | touchesAsks {c c' : Conn} {why : CloseReason} : cb.keeps = true →
      s.lookup v.wsi = some c → c.Touched cb c' → why ≠ .none →
      Alters s v cb ((s.put v.wsi c').requestClose c.id why)
  | opens {isWebsocket : Bool} {c : Conn} : cb.opens cfg checkBearer v.headers = true →
      c.id = s.nextConnId → c.isWebsocket = isWebsocket → c.httpBody = [] →
      (isWebsocket = true ↔ cb = .established) →
      Alters s v cb ((s.attach cfg v isWebsocket).2.put v.wsi c)
  | closes : cb.closes = true → Alters s v cb (s.detach v.wsi).server

section

variable (s : WsServer) (v : Lws) (a : Answers) {cb : Callback}

theorem Conn.touched_self (c : Conn) : c.Touched cb c := ⟨rfl, rfl, fun _ => rfl⟩

/-! ### Callback by callback -/

theorem alters_refuse (h : cb.keeps = true) (code : Nat) :
    Alters cfg checkBearer s v cb (s.refuse v a code).server := by
  unfold WsServer.refuse
  dsimp only
  split_ifs <;> exact .same h

theorem alters_http (path : Option Bytes) :
    Alters cfg checkBearer s v (.http path) (s.http cfg checkBearer v a path).server := by
  have hkind : (false = true) ↔ Callback.http path = .established := by
    constructor <;> intro h <;> cases h
  unfold WsServer.http
  dsimp only
  split
  · exact alters_refuse cfg checkBearer s v a rfl 403
  · rename_i horigin
    split
    · exact alters_refuse cfg checkBearer s v a rfl 401
    · rename_i hauthorized
      have hadmitted : admitted cfg checkBearer v.headers = true := by
        simp only [Bool.or_eq_true, Bool.not_eq_true', not_or, Bool.not_eq_false] at horigin
        simp only [Bool.not_eq_true', Bool.not_eq_false] at hauthorized
        simp only [admitted, horigin.1, horigin.2, hauthorized, Bool.and_self]
      split
      · rename_i hget
        refine .opens ?_ rfl rfl rfl hkind
        simp only [Callback.opens, opensHttp, hadmitted, hget, Bool.true_or, Bool.and_self]
      · split
        · exact alters_refuse cfg checkBearer s v a rfl 415
        · rename_i htype
          split
          · exact alters_refuse cfg checkBearer s v a rfl 411
          · rename_i hlength
            simp only [Bool.not_eq_true', Bool.not_eq_false] at htype hlength
            refine .opens ?_ rfl rfl rfl hkind
            simp only [Callback.opens, opensHttp, hadmitted, htype, hlength, Bool.or_true,
              Bool.and_self]

theorem alters_httpBody (data : Bytes) :
    Alters cfg checkBearer s v (.httpBody data) (s.httpBody cfg v data).server := by
  unfold WsServer.httpBody
  split
  · exact .same rfl
  · rename_i c hc
    split_ifs
    · exact .same rfl
    · exact .same rfl
    · exact .touches rfl hc ⟨rfl, rfl, fun h => by cases h⟩

theorem alters_httpBodyCompletion :
    Alters cfg checkBearer s v .httpBodyCompletion (s.httpBodyCompletion v).server := by
  unfold WsServer.httpBodyCompletion
  split
  · exact .same rfl
  · rename_i c hc
    split
    · exact .same rfl
    · exact .touches rfl hc ⟨rfl, rfl, fun h => by cases h⟩

theorem alters_writeSlice {c c' : Conn} (hc : s.lookup v.wsi = some c)
    (htouched : c.Touched .httpWriteable c') (w : HttpBodyWriter) :
    Alters cfg checkBearer s v .httpWriteable (s.writeSlice v a c' w).server := by
  have hwith : ∀ out, Conn.Touched .httpWriteable c { c' with httpOut := out } :=
    fun _ => ⟨htouched.id, htouched.kind, htouched.httpBody⟩
  unfold WsServer.writeSlice
  dsimp only
  split
  · exact .touches rfl hc (hwith _)
  · split
    · exact .touches rfl hc (hwith _)
    · split
      · exact .touches rfl hc (hwith _)
      · exact .touches rfl hc (hwith _)

theorem alters_httpWriteable :
    Alters cfg checkBearer s v .httpWriteable (s.httpWriteable v a).server := by
  unfold WsServer.httpWriteable
  split
  · exact .same rfl
  · rename_i c hc
    split
    · exact alters_writeSlice cfg checkBearer s v a hc c.touched_self _
    · split
      · exact .same rfl
      · dsimp only
        split
        · exact .touches rfl hc ⟨rfl, rfl, fun _ => rfl⟩
        · exact alters_writeSlice cfg checkBearer s v a hc (by exact ⟨rfl, rfl, fun _ => rfl⟩) _

theorem alters_filterProtocolConnection :
    Alters cfg checkBearer s v .filterProtocolConnection
      (s.filterProtocolConnection cfg checkBearer v).server := by
  unfold WsServer.filterProtocolConnection
  split_ifs <;> exact .same rfl

theorem alters_receive (data : Bytes) (binary final : Bool) :
    Alters cfg checkBearer s v (.receive data binary final)
      (s.receive cfg v data binary final).server := by
  unfold WsServer.receive
  split
  · exact .same rfl
  · rename_i c hc
    split
    · exact .asks rfl hc (by decide)
    · dsimp only
      split
      · exact .touchesAsks rfl hc ⟨rfl, rfl, fun h => by cases h⟩ (by decide)
      · split
        · exact .touches rfl hc ⟨rfl, rfl, fun h => by cases h⟩
        · exact .touches rfl hc ⟨rfl, rfl, fun h => by cases h⟩

theorem alters_serverWriteable :
    Alters cfg checkBearer s v .serverWriteable (s.serverWriteable v a).server := by
  unfold WsServer.serverWriteable
  split
  · exact .same rfl
  · rename_i c hc
    split
    · exact .same rfl
    · unfold WsServer.writeQueued
      dsimp only
      split
      · split
        · exact .touches rfl hc ⟨rfl, rfl, fun _ => rfl⟩
        · refine .touches rfl hc ?_
          split <;> exact ⟨rfl, rfl, fun _ => rfl⟩
      · split
        · exact .same rfl
        · split
          · exact .touches rfl hc ⟨rfl, rfl, fun _ => rfl⟩
          · refine .touches rfl hc ?_
            split <;> exact ⟨rfl, rfl, fun _ => rfl⟩

/-- **What a callback does to the table.** -/
theorem alters_dispatch (cb : Callback) :
    Alters cfg checkBearer s v cb (s.dispatch cfg checkBearer v a cb).server := by
  cases cb with
  | http path => exact alters_http cfg checkBearer s v a path
  | httpBody data => exact alters_httpBody cfg checkBearer s v data
  | httpBodyCompletion => exact alters_httpBodyCompletion cfg checkBearer s v
  | httpWriteable => exact alters_httpWriteable cfg checkBearer s v a
  | filterProtocolConnection => exact alters_filterProtocolConnection cfg checkBearer s v
  | established => exact .opens rfl rfl rfl rfl ⟨fun _ => rfl, fun _ => rfl⟩
  | receive data binary final => exact alters_receive cfg checkBearer s v data binary final
  | serverWriteable => exact alters_serverWriteable cfg checkBearer s v a
  | closedHttp | closed | wsiDestroy => exact .closes rfl

end

/-! ## Lookups

What each operation on the table does to what is found in it. -/

namespace WsServer

theorem lookup_put (s : WsServer) (wsi : Nat) (c : Conn) (w : Nat) :
    (s.put wsi c).lookup w = if w = wsi then some c else s.lookup w :=
  List.lookup_assign s.conns wsi c w

theorem lookup_update (s : WsServer) (id : Nat) (f : Conn → Conn) (w : Nat) :
    (s.update id f).lookup w = (s.lookup w).map fun c => if c.id = id then f c else c :=
  List.lookup_map_snd s.conns (fun c => if c.id = id then f c else c) w

theorem lookup_wake (s : WsServer) (wsi w : Nat) : (s.wake wsi).lookup w = s.lookup w := rfl

theorem lookup_requestClose (s : WsServer) (id : Nat) (why : CloseReason) (w : Nat) :
    (s.requestClose id why).lookup w =
      (s.lookup w).map fun c => if c.id = id then { c with wantClose := why } else c := by
  unfold requestClose
  dsimp only
  split
  · exact s.lookup_update id _ w
  · rw [lookup_wake, lookup_update]

/-- `send` leaves a connection as it is, queues the frame on it, or asks to close it. -/
theorem lookup_send (s : WsServer) (id : Nat) (frame : Bytes) (w : Nat) :
    (s.send cfg id frame).lookup w = s.lookup w ∨
      (s.send cfg id frame).lookup w = (s.lookup w).map fun c => if c.id = id then
        (if (c.outbound.length : Int) ≥ cfg.limits.maxQueuedFramesPerConnection then
          { c with wantClose := .policy }
        else { c with outbound := c.outbound ++ [frame] }) else c := by
  unfold send
  split
  · exact .inl rfl
  · right
    rw [lookup_wake, lookup_update]

theorem lookup_detach (s : WsServer) (wsi w : Nat) :
    (s.detach wsi).server.lookup w = if w = wsi then none else s.lookup w := by
  unfold detach
  dsimp only
  split
  · rename_i hnone
    have hnone : s.lookup wsi = none := hnone
    by_cases hw : w = wsi
    · rw [if_pos hw, hw]
      exact hnone
    · rw [if_neg hw]
      rfl
  · exact List.lookup_filter_ne s.conns wsi w

theorem lookup_attach (s : WsServer) (v : Lws) (isWebsocket : Bool) (c : Conn) (w : Nat) :
    ((s.attach cfg v isWebsocket).2.put v.wsi c).lookup w =
      if w = v.wsi then some c else s.lookup w := by
  rw [lookup_put]
  by_cases hw : w = v.wsi
  · rw [if_pos hw, if_pos hw]
  · rw [if_neg hw, if_neg hw]
    exact (s.lookup_put v.wsi _ w).trans (if_neg hw)

end WsServer

/-! ## The table over runs

Connections are numbered upwards, a number is in the table once, and the kind of a connection
goes with the phase of its socket. -/

/-- The kind of connection a socket can have in a phase. -/
def Phase.Fits : Phase → Option Bool → Prop
  | .websocket _, kind => kind ≠ some false
  | .closing, _ => True
  | _, kind => kind ≠ some true

theorem Phase.fits_none (p : Phase) : p.Fits none := by
  cases p with
  | closing => trivial
  | _ => exact nofun

/-- The number of a connection, and whether it is a WebSocket. -/
def Conn.tag (c : Conn) : Nat × Bool := (c.id, c.isWebsocket)

def WsServer.tag (s : WsServer) (wsi : Nat) : Option (Nat × Bool) := (s.lookup wsi).map Conn.tag

/-- A connection has one socket, a number below the next one, and the kind its socket is for. -/
structure Wired (w : World) : Prop where
  numbered : ∀ wsi e, w.server.tag wsi = some e → e.1 < w.server.nextConnId
  distinct : ∀ wsi wsi' e e', w.server.tag wsi = some e → w.server.tag wsi' = some e' →
    e.1 = e'.1 → wsi = wsi'
  gone : ∀ wsi, w.sockets wsi = none → w.server.tag wsi = none
  fits : ∀ wsi k, w.sockets wsi = some k → k.phase.Fits ((w.server.tag wsi).map Prod.snd)

section

variable {s t : WsServer} {v : Lws} {a : Answers} {cb : Callback} {w w' : World}

/-! ### Tags -/

theorem tag_requestClose (s : WsServer) (id : Nat) (why : CloseReason) (wsi : Nat) :
    (s.requestClose id why).tag wsi = s.tag wsi := by
  rw [WsServer.tag, WsServer.tag, WsServer.lookup_requestClose, Option.map_map]
  congr 1
  funext c
  rw [Function.comp_apply]
  split <;> rfl

theorem tag_send (s : WsServer) (id : Nat) (frame : Bytes) (wsi : Nat) :
    (s.send cfg id frame).tag wsi = s.tag wsi := by
  unfold WsServer.tag
  rcases s.lookup_send cfg id frame wsi with h | h
  · rw [h]
  · rw [h, Option.map_map]
    congr 1
    funext c
    rw [Function.comp_apply]
    split
    · split <;> rfl
    · rfl

theorem tag_put {wsi : Nat} {c c' : Conn} (hc : s.lookup wsi = some c) (htag : c'.tag = c.tag)
    (i : Nat) : (s.put wsi c').tag i = s.tag i := by
  rw [WsServer.tag, WsServer.tag, WsServer.lookup_put]
  by_cases hi : i = wsi
  · rw [if_pos hi, hi, hc, Option.map_some, Option.map_some, htag]
  · rw [if_neg hi]

theorem Conn.Touched.tag {c c' : Conn} (h : c.Touched cb c') : c'.tag = c.tag :=
  Prod.ext h.id h.kind

variable {cfg checkBearer} in
/-- A callback keeps the tags of all sockets, or it gives its own a new connection, or takes it
away. -/
theorem Alters.tags (h : Alters cfg checkBearer s v cb t) :
    (cb.keeps = true ∧ t.nextConnId = s.nextConnId ∧
      ∀ i, t.tag i = s.tag i) ∨
    (∃ isWebsocket, (isWebsocket = true ↔ cb = .established) ∧
      cb.opens cfg checkBearer v.headers = true ∧ t.nextConnId = s.nextConnId + 1 ∧
      ∀ i, t.tag i = if i = v.wsi then some (s.nextConnId, isWebsocket) else s.tag i) ∨
    (cb.closes = true ∧ t.nextConnId = s.nextConnId ∧
      ∀ i, t.tag i = if i = v.wsi then none else s.tag i) := by
  have hnext : ∀ (r : WsServer) id why, (r.requestClose id why).nextConnId = r.nextConnId := by
    intro r id why
    unfold WsServer.requestClose
    dsimp only
    split <;> rfl
  cases h with
  | same hcloses => exact .inl ⟨hcloses, rfl, fun _ => rfl⟩
  | touches hcloses hc htouched => exact .inl ⟨hcloses, rfl, tag_put hc htouched.tag⟩
  | asks hcloses hc _ => exact .inl ⟨hcloses, hnext _ _ _, tag_requestClose s _ _⟩
  | touchesAsks hcloses hc htouched _ =>
      refine .inl ⟨hcloses, hnext _ _ _, fun i => ?_⟩
      rw [tag_requestClose]
      exact tag_put hc htouched.tag i
  | @opens isWebsocket c hopens hid hkind _ hiff =>
      refine .inr (.inl ⟨isWebsocket, hiff, hopens, rfl, fun i => ?_⟩)
      rw [WsServer.tag, WsServer.lookup_attach]
      split
      · rw [Option.map_some, Conn.tag, hid, hkind]
      · rfl
  | closes hcloses =>
      refine .inr (.inr ⟨hcloses, ?_, fun i => ?_⟩)
      · unfold WsServer.detach
        dsimp only
        split <;> rfl
      · rw [WsServer.tag, WsServer.lookup_detach]
        split <;> rfl

/-- A connection that is asked to close keeps everything else. -/
theorem lookup_requestClose_some {id i : Nat} {why : CloseReason} {c' : Conn}
    (h : (s.requestClose id why).lookup i = some c') :
    ∃ c, s.lookup i = some c ∧ (c' = c ∨ c' = { c with wantClose := why }) := by
  rw [WsServer.lookup_requestClose] at h
  obtain ⟨c, hc, hc'⟩ := Option.map_eq_some_iff.mp h
  refine ⟨c, hc, ?_⟩
  split at hc'
  · exact .inr hc'.symm
  · exact .inl hc'.symm

variable {cfg} in
theorem lookup_send_some {id i : Nat} {frame : Bytes} {c' : Conn}
    (h : (s.send cfg id frame).lookup i = some c') :
    ∃ c, s.lookup i = some c ∧ (c' = c ∨ c' = { c with wantClose := .policy } ∨
      c' = { c with outbound := c.outbound ++ [frame] }) := by
  rcases s.lookup_send cfg id frame i with hsame | hsend
  · exact ⟨c', hsame.symm.trans h, .inl rfl⟩
  · rw [hsend] at h
    obtain ⟨c, hc, hc'⟩ := Option.map_eq_some_iff.mp h
    refine ⟨c, hc, ?_⟩
    split at hc'
    · split at hc'
      · exact .inr (.inl hc'.symm)
      · exact .inr (.inr hc'.symm)
    · exact .inl hc'.symm

variable {cfg checkBearer} in
/-- A connection after a callback was there before with the same tag, or it is new. A callback that
reads a body changes the buffer of its own socket alone. -/
theorem Alters.conn (h : Alters cfg checkBearer s v cb t) {i : Nat} {c' : Conn}
    (hc' : t.lookup i = some c') :
    (∃ c, s.lookup i = some c ∧ c'.tag = c.tag ∧
      (i ≠ v.wsi ∨ cb.reads = false → c'.httpBody = c.httpBody)) ∨
    (i = v.wsi ∧ c'.id = s.nextConnId ∧ c'.httpBody = []) := by
  -- a connection that is touched keeps its tag, and its body but where the callback reads
  have hput : ∀ {c₁ c₂ c' : Conn}, s.lookup v.wsi = some c₁ → c₁.Touched cb c₂ →
      (s.put v.wsi c₂).lookup i = some c' → ∃ c, s.lookup i = some c ∧ c'.tag = c.tag ∧
        (i ≠ v.wsi ∨ cb.reads = false → c'.httpBody = c.httpBody) := by
    intro c₁ c₂ c' hc₁ htouched hc'
    rw [WsServer.lookup_put] at hc'
    split at hc'
    · rename_i hi
      cases hc'
      refine ⟨c₁, hi ▸ hc₁, htouched.tag, fun hor => ?_⟩
      exact htouched.httpBody (hor.resolve_left fun hne => hne hi)
    · exact ⟨c', hc', rfl, fun _ => rfl⟩
  cases h with
  | same _ => exact .inl ⟨c', hc', rfl, fun _ => rfl⟩
  | touches _ hc htouched => exact .inl (hput hc htouched hc')
  | asks _ _ _ =>
      obtain ⟨c, hc, rfl | rfl⟩ := lookup_requestClose_some hc'
      · exact .inl ⟨_, hc, rfl, fun _ => rfl⟩
      · exact .inl ⟨c, hc, rfl, fun _ => rfl⟩
  | touchesAsks _ hc htouched _ =>
      obtain ⟨c, hmid, rfl | rfl⟩ := lookup_requestClose_some hc'
      · exact .inl (hput hc htouched hmid)
      · obtain ⟨c₀, hc₀, htag, hbody⟩ := hput hc htouched hmid
        exact .inl ⟨c₀, hc₀, htag, hbody⟩
  | opens _ hid _ hbody _ =>
      rw [WsServer.lookup_attach] at hc'
      split at hc'
      · rename_i hi
        cases hc'
        exact .inr ⟨hi, hid, hbody⟩
      · exact .inl ⟨c', hc', rfl, fun _ => rfl⟩
  | closes _ =>
      rw [WsServer.lookup_detach] at hc'
      split at hc'
      · cases hc'
      · exact .inl ⟨c', hc', rfl, fun _ => rfl⟩

/-! ### One event -/

theorem nextConnId_send (s : WsServer) (id : Nat) (frame : Bytes) :
    (s.send cfg id frame).nextConnId = s.nextConnId := by
  unfold WsServer.send
  split <;> rfl

theorem nextConnId_requestClose (s : WsServer) (id : Nat) (why : CloseReason) :
    (s.requestClose id why).nextConnId = s.nextConnId := by
  unfold WsServer.requestClose
  dsimp only
  split <;> rfl

theorem completed_receive (s : WsServer) (v : Lws) (data : Bytes) (binary final : Bool) :
    (s.receive cfg v data binary final).completed = false := by
  unfold WsServer.receive
  split
  · rfl
  · dsimp only
    split_ifs <;> rfl

theorem completed_serverWriteable (s : WsServer) (v : Lws) (a : Answers) :
    (s.serverWriteable v a).completed = false := by
  unfold WsServer.serverWriteable
  split
  · rfl
  · split
    · rfl
    · unfold WsServer.writeQueued
      dsimp only
      split
      · split <;> rfl
      · split
        · rfl
        · split <;> rfl

/-- A callback that neither attaches nor detaches leads to a phase that fits the same kind. -/
theorem Phase.Fits.after {kind : Option Bool} {p p' : Phase} (h : p.Fits kind)
    (hd : p.delivers cb = true) (hkeeps : cb.keeps = true)
    (hp : p.after cb (s.dispatch cfg checkBearer v a cb) = some p') : p'.Fits kind := by
  cases p with
  | websocket hd' =>
      have hdone : (s.dispatch cfg checkBearer v a cb).completed = false ∧
          (Phase.websocket hd').next cb = .websocket hd' := by
        cases cb with
        | receive data binary final =>
            exact ⟨completed_receive cfg s v data binary final, rfl⟩
        | serverWriteable => exact ⟨completed_serverWriteable s v a, rfl⟩
        | closedHttp | closed | wsiDestroy => cases hkeeps
        | _ => cases hd
      have hcases : p' = .closing ∨ p' = .websocket hd' := by
        unfold Phase.after at hp
        rw [hdone.1, hdone.2, if_neg Bool.false_ne_true] at hp
        split at hp
        · cases hkeeps
        · cases hkeeps
        · cases hkeeps
        · split_ifs at hp with hret
          · exact .inl (Option.some.inj hp).symm
          · exact .inr (Option.some.inj hp).symm
      rcases hcases with rfl | rfl
      · trivial
      · exact h
  | closing =>
      cases cb with
      | closedHttp | closed | wsiDestroy => cases hkeeps
      | _ => cases hd
  | _ =>
      rcases Phase.after_cases hp with rfl | rfl | ⟨-, -, rfl⟩
      · trivial
      · exact h
      · cases cb with
        | closedHttp | closed | wsiDestroy | established => cases hkeeps
        | _ => exact h

/-- A callback that attaches leads to a phase for the kind it attaches. -/
theorem Phase.fits_opened {h : Headers} {isWebsocket : Bool} {p p' : Phase}
    (hd : p.delivers cb = true) (hopens : cb.opens cfg checkBearer h = true)
    (hiff : isWebsocket = true ↔ cb = .established)
    (hp : p.after cb (s.dispatch cfg checkBearer v a cb) = some p') :
    p'.Fits (some isWebsocket) := by
  cases cb with
  | http path =>
      obtain rfl : isWebsocket = false := by
        cases isWebsocket with
        | false => rfl
        | true => cases hiff.mp rfl
      rcases Phase.after_cases hp with rfl | rfl | ⟨-, -, rfl⟩
      · trivial
      · exact nofun
      · cases p with
        | parsed hd' => exact nofun
        | _ => cases hd
  | established =>
      obtain rfl : isWebsocket = true := hiff.mpr rfl
      cases p with
      | upgrading hd' =>
          have hafter : (Phase.upgrading hd').after .established
              (s.dispatch cfg checkBearer v a .established) = some (.websocket hd') := by rfl
          rw [hafter] at hp
          cases hp
          exact nofun
      | _ => cases hd
  | _ => cases hopens

theorem Phase.after_none {p : Phase} {o : Outcome} (h : p.after cb o = none) :
    cb = .wsiDestroy := by
  unfold Phase.after at h
  split at h
  · rfl
  · cases h
  · cases h
  · split_ifs at h

variable {w w' : World} {ev : Event}

/-- An event about one socket: its tag stays, goes, or becomes one with the next number. -/
theorem Wired.assign (h : Wired w) (wsi : Nat) {e₀ : Option (Nat × Bool)}
    (htags : ∀ i, w'.server.tag i = if i = wsi then e₀ else w.server.tag i)
    (hnext : w.server.nextConnId ≤ w'.server.nextConnId)
    (hnew : ∀ e, e₀ = some e → w.server.tag wsi = some e ∨
      e.1 = w.server.nextConnId ∧ w.server.nextConnId < w'.server.nextConnId)
    (hsockets : ∀ i, i ≠ wsi → w'.sockets i = w.sockets i)
    (hgone : w'.sockets wsi = none → e₀ = none)
    (hfits : ∀ k, w'.sockets wsi = some k → k.phase.Fits (e₀.map Prod.snd)) : Wired w' := by
  have hself : w'.server.tag wsi = e₀ := (htags wsi).trans (if_pos rfl)
  have hother : ∀ i, i ≠ wsi → w'.server.tag i = w.server.tag i :=
    fun i hi => (htags i).trans (if_neg hi)
  -- a tag of the socket is its old one, or has a number no other has
  have hold : ∀ i e, w'.server.tag i = some e → w.server.tag i = some e ∨
      i = wsi ∧ e.1 = w.server.nextConnId ∧ w.server.nextConnId < w'.server.nextConnId := by
    intro i e he
    by_cases hi : i = wsi
    · subst hi
      rw [hself] at he
      exact (hnew e he).imp id fun hnumber => ⟨rfl, hnumber⟩
    · rw [hother i hi] at he
      exact .inl he
  refine ⟨fun i e he => ?_, fun i i' e e' he he' hid => ?_, fun i hi => ?_, fun i k hk => ?_⟩
  · rcases hold i e he with he | ⟨-, hid, hlt⟩
    · exact Nat.lt_of_lt_of_le (h.numbered i e he) hnext
    · rwa [hid]
  · rcases hold i e he with he | ⟨hi, hnumber, -⟩ <;>
      rcases hold i' e' he' with he' | ⟨hi', hnumber', -⟩
    · exact h.distinct i i' e e' he he' hid
    · have hlt := h.numbered i e he
      omega
    · have hlt := h.numbered i' e' he'
      omega
    · exact hi.trans hi'.symm
  · by_cases hwsi : i = wsi
    · subst hwsi
      rw [hself]
      exact hgone hi
    · rw [hsockets i hwsi] at hi
      rw [hother i hwsi]
      exact h.gone i hi
  · by_cases hwsi : i = wsi
    · subst hwsi
      rw [hself]
      exact hfits k hk
    · rw [hsockets i hwsi] at hk
      rw [hother i hwsi]
      exact h.fits i k hk

theorem Wired.congr (h : Wired w) (htags : ∀ i, w'.server.tag i = w.server.tag i)
    (hnext : w'.server.nextConnId = w.server.nextConnId) (hsockets : w'.sockets = w.sockets) :
    Wired w' := by
  refine ⟨fun i e he => ?_, fun i i' e e' he he' => ?_, fun i hi => ?_, fun i k hk => ?_⟩
  · exact hnext ▸ h.numbered i e (htags i ▸ he)
  · exact h.distinct i i' e e' (htags i ▸ he) (htags i' ▸ he')
  · exact htags i ▸ h.gone i (hsockets ▸ hi)
  · exact htags i ▸ h.fits i k (hsockets ▸ hk)

theorem Wired.setSocket (h : Wired w) {wsi : Nat} {k : Socket}
    (hk : k.phase.Fits ((w.server.tag wsi).map Prod.snd)) : Wired (w.setSocket wsi (some k)) := by
  refine h.assign wsi (fun i => ?_) (Nat.le_refl _) (fun e he => .inl he)
    (fun i hi => if_neg hi) (fun hnone => ?_) (fun k' hk' => ?_)
  · by_cases hi : i = wsi
    · rw [if_pos hi, hi]
      rfl
    · rw [if_neg hi]
      rfl
  · have hsome : (w.setSocket wsi (some k)).sockets wsi = some k := if_pos rfl
    rw [hsome] at hnone
    cases hnone
  · have hsome : (w.setSocket wsi (some k)).sockets wsi = some k := if_pos rfl
    rw [hsome] at hk'
    cases hk'
    exact hk

theorem Wired.deliver (h : Wired w) {wsi : Nat} {k : Socket} (hk : w.sockets wsi = some k)
    (hd : k.phase.delivers cb = true) : Wired (w.deliver cfg checkBearer wsi k cb a) := by
  have hself : (w.deliver cfg checkBearer wsi k cb a).sockets wsi =
      (k.phase.after cb (w.server.dispatch cfg checkBearer (k.lws wsi) a cb)).map
        fun p => { k with phase := p } := if_pos rfl
  have hother : ∀ i, i ≠ wsi → (w.deliver cfg checkBearer wsi k cb a).sockets i = w.sockets i :=
    fun i hi => if_neg hi
  have hgone : (w.deliver cfg checkBearer wsi k cb a).sockets wsi = none → cb = .wsiDestroy := by
    intro hnone
    rw [hself] at hnone
    exact Phase.after_none (Option.map_eq_none_iff.mp hnone)
  rcases (alters_dispatch cfg checkBearer w.server (k.lws wsi) a cb).tags with
    ⟨hkeeps, hnext, htags⟩ | ⟨isWebsocket, hiff, hopens, hnext, htags⟩ | ⟨hcloses, hnext, htags⟩
  · refine h.assign wsi (fun i => ?_) hnext.ge (fun e he => .inl he) hother
      (fun hnone => ?_) (fun k' hk' => ?_)
    · rw [World.deliver, htags]
      by_cases hi : i = wsi
      · rw [if_pos hi, hi]
      · rw [if_neg hi]
    · rw [hgone hnone] at hkeeps
      cases hkeeps
    · rw [hself] at hk'
      obtain ⟨p, hp, rfl⟩ := Option.map_eq_some_iff.mp hk'
      exact (h.fits wsi k hk).after cfg checkBearer hd hkeeps hp
  · refine h.assign wsi htags ?_ (fun e he => ?_) hother (fun hnone => ?_) (fun k' hk' => ?_)
    · exact hnext ▸ Nat.le_succ _
    · cases he
      exact .inr ⟨rfl, hnext ▸ Nat.lt_succ_self _⟩
    · rw [hgone hnone] at hopens
      cases hopens
    · rw [hself] at hk'
      obtain ⟨p, hp, rfl⟩ := Option.map_eq_some_iff.mp hk'
      exact Phase.fits_opened cfg checkBearer hd hopens hiff hp
  · exact h.assign wsi htags hnext.ge (fun e he => by cases he) hother (fun _ => rfl)
      fun k' _ => k'.phase.fits_none

theorem Wired.step (h : Wired w) (hstep : w.step cfg checkBearer ev = some w') : Wired w' := by
  cases ev with
  | connect wsi peer h2Stream =>
      simp only [World.step] at hstep
      split at hstep
      · cases hstep
      · rename_i hnone
        cases hstep
        apply h.setSocket
        rw [h.gone wsi hnone]
        exact Phase.fits_none _
  | headers wsi hd =>
      simp only [World.step] at hstep
      split at hstep
      · rename_i hk
        cases hstep
        have hidle := h.fits wsi _ hk
        apply h.setSocket
        exact hidle
      · cases hstep
  | callback wsi cb a =>
      simp only [World.step] at hstep
      split at hstep
      · cases hstep
      · rename_i k hk
        split_ifs at hstep with hd
        cases hstep
        exact h.deliver cfg checkBearer hk hd
  | woken =>
      cases hstep
      exact h.congr (fun _ => rfl) rfl rfl
  | send id frame =>
      cases hstep
      exact h.congr (tag_send cfg w.server id frame) (nextConnId_send cfg w.server id frame) rfl
  | requestClose id why =>
      cases hstep
      exact h.congr (tag_requestClose w.server id why) (nextConnId_requestClose w.server id why) rfl

/-! ### The empty table -/

theorem wired_start : Wired {} where
  numbered _ _ h := nomatch h
  distinct _ _ _ _ h := nomatch h
  gone _ _ := rfl
  fits _ _ h := nomatch h

end

end JsonRpcBridge.Server
