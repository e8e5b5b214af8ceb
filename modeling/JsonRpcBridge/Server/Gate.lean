import JsonRpcBridge.Server.Table

/-!
# The authentication gate

Which requests and frames reach the bridge. HTTP requests are checked one by one, a WebSocket once,
at its upgrade: `FILTER_PROTOCOL_CONNECTION` lets an upgrade with an allowed `Origin` through
without a token, so that a browser may authenticate with its first frame, and `RECEIVE` hands every
message over without a look at `Conn.authenticated`.

* `gate_holds`: in a run in which no upgrade is admitted through that exception, `onBody` and
  `onGet` are called only for an HTTP request that passed all three checks, or for a frame of an
  authenticated WebSocket.
* `not_gate_holds`: with the exception, a message of a connection that is not authenticated is
  handed to `onBody`.
-/

namespace JsonRpcBridge.Server

variable (cfg : BridgeConfig) (checkBearer : Option (Bytes → Bool))

/-- The hook of an output that makes the bridge act on a request. -/
def Output.acts : Output → Bool
  | .onBody _ _ _ | .onGet _ => true
  | _ => false

/-- The hook was called for an HTTP request whose own headers passed the checks. -/
def Handed.OfRequest (e : Handed) : Prop :=
  ((∃ path, e.callback = .http path) ∨ e.callback = .httpBodyCompletion) ∧
    admitted cfg checkBearer e.headers = true

/-- The hook was called for a frame of a WebSocket connection that is authenticated, and whose
upgrade request was authorized. -/
def Handed.OfFrame (e : Handed) : Prop :=
  (∃ data binary final, e.callback = .receive data binary final) ∧
    ∃ c body, e.output = .onBody c body true ∧ c.isWebsocket = true ∧ c.authenticated = true ∧
      authorized cfg checkBearer e.headers = true

def Handed.Gated (e : Handed) : Prop :=
  e.output.acts = true → e.OfRequest cfg checkBearer ∨ e.OfFrame cfg checkBearer

/-! ## What a callback does

For each callback two questions: whose flags does it change, and what can it hand out. -/

/-- Whether a connection is a WebSocket, and whether it is authenticated. -/
def Conn.flags (c : Conn) : Bool × Bool := (c.isWebsocket, c.authenticated)

namespace WsServer

/-- The flags of the connection of a socket. -/
def flags (s : WsServer) (wsi : Nat) : Option (Bool × Bool) := (s.lookup wsi).map Conn.flags

/-! ### Changes of the table

Each of them keeps the flags of all connections, but for `attach` and `detach`, which leave the
other sockets alone. -/

theorem flags_put_self (s : WsServer) (wsi : Nat) (c : Conn) :
    (s.put wsi c).flags wsi = some c.flags := by
  rw [flags, lookup_put, if_pos rfl]
  rfl

theorem flags_put_of_ne (s : WsServer) {wsi w : Nat} (c : Conn) (h : w ≠ wsi) :
    (s.put wsi c).flags w = s.flags w := by
  rw [flags, lookup_put, if_neg h]
  rfl

/-- A change that keeps the flags of the connection found keeps all flags. -/
theorem flags_put_of_lookup {s : WsServer} {wsi : Nat} {c c' : Conn} (h : s.lookup wsi = some c)
    (hc : c'.flags = c.flags) (w : Nat) : (s.put wsi c').flags w = s.flags w := by
  by_cases hne : w = wsi
  · subst hne
    rw [flags_put_self, flags, h, hc]
    rfl
  · exact flags_put_of_ne s c' hne

theorem flags_update (s : WsServer) (id : Nat) {f : Conn → Conn} (hf : ∀ c, (f c).flags = c.flags)
    (w : Nat) : (s.update id f).flags w = s.flags w := by
  have hkeep : ∀ c : Conn, (if c.id = id then f c else c).flags = c.flags := by
    intro c
    split
    · exact hf c
    · rfl
  show ((s.conns.map fun e => (e.1, if e.2.id = id then f e.2 else e.2)).lookup w).map Conn.flags =
    (s.conns.lookup w).map Conn.flags
  rw [List.lookup_map_snd s.conns (fun c => if c.id = id then f c else c) w, Option.map_map]
  exact congrArg (fun g => (s.conns.lookup w).map g) (funext hkeep)

theorem flags_wake (s : WsServer) (wsi w : Nat) : (s.wake wsi).flags w = s.flags w := rfl

theorem flags_requestClose (s : WsServer) (id : Nat) (why : CloseReason) (w : Nat) :
    (s.requestClose id why).flags w = s.flags w := by
  have hupdate : (s.update id fun c => { c with wantClose := why }).flags w = s.flags w :=
    s.flags_update id (by exact fun c => rfl) w
  unfold requestClose
  dsimp only
  split
  · exact hupdate
  · exact hupdate

theorem flags_send (s : WsServer) (id : Nat) (frame : Bytes) (w : Nat) :
    (s.send cfg id frame).flags w = s.flags w := by
  unfold send
  split
  · rfl
  · rw [flags_wake]
    apply s.flags_update id
    intro c
    split
    · rfl
    · rfl

theorem flags_attach_of_ne (s : WsServer) (v : Lws) (isWebsocket : Bool) {w : Nat}
    (h : w ≠ v.wsi) : (s.attach cfg v isWebsocket).2.flags w = s.flags w :=
  s.flags_put_of_ne _ h

theorem flags_detach_of_ne (s : WsServer) {wsi w : Nat} (h : w ≠ wsi) :
    (s.detach wsi).server.flags w = s.flags w := by
  unfold detach
  dsimp only
  split
  · rfl
  · show ((s.conns.filter fun e => e.1 != wsi).lookup w).map _ = _
    rw [List.lookup_filter_ne, if_neg h]
    rfl

/-! ### Refusals and HTTP -/

section
variable (s : WsServer) (v : Lws) (a : Answers)

theorem refuse_server (code : Nat) : (s.refuse v a code).server = s := by
  unfold refuse
  dsimp only
  split_ifs <;> rfl

/-- After a refusal lws closes the socket or reads the next request. -/
theorem refuse_ends (code : Nat) :
    (s.refuse v a code).ret ≠ 0 ∨ (s.refuse v a code).completed = true := by
  unfold refuse
  dsimp only
  split
  · left
    simp
  · split
    · left
      simp
    · cases a.keepAlive with
      | false =>
          left
          simp
      | true => exact .inr rfl

theorem refuse_outputs {code : Nat} {o : Output} (h : o ∈ (s.refuse v a code).outputs) :
    o.acts = false := by
  unfold refuse at h
  dsimp only at h
  split_ifs at h
  · cases h
  all_goals
    rw [List.mem_singleton.mp h]
    rfl

/-- An HTTP request is refused, or it passed all three checks and its socket has a connection of its
own. -/
theorem http_cases (path : Option Bytes) :
    (∃ code, s.http cfg checkBearer v a path = s.refuse v a code) ∨
      admitted cfg checkBearer v.headers = true ∧
        ∃ c, (s.http cfg checkBearer v a path).server =
          (s.attach cfg v false).2.put v.wsi c := by
  have hpass (h₁ : ¬(!hostAllowed cfg v.headers || !originAllowed cfg v.headers) = true)
      (h₂ : ¬(!authorized cfg checkBearer v.headers) = true) :
      admitted cfg checkBearer v.headers = true := by
    simp only [Bool.or_eq_true, Bool.not_eq_true', not_or, Bool.not_eq_false] at h₁ h₂
    simp only [admitted, h₁.1, h₁.2, h₂, Bool.and_self]
  unfold http
  dsimp only
  split
  · exact .inl ⟨403, rfl⟩
  · rename_i h₁
    split
    · exact .inl ⟨401, rfl⟩
    · rename_i h₂
      split
      · exact .inr ⟨hpass h₁ h₂, _, rfl⟩
      · split
        · exact .inl ⟨415, rfl⟩
        · split
          · exact .inl ⟨411, rfl⟩
          · exact .inr ⟨hpass h₁ h₂, _, rfl⟩

theorem http_flags_of_ne (path : Option Bytes) {w : Nat} (h : w ≠ v.wsi) :
    (s.http cfg checkBearer v a path).server.flags w = s.flags w := by
  rcases s.http_cases cfg checkBearer v a path with ⟨code, hrefuse⟩ | ⟨-, c, hattach⟩
  · rw [hrefuse, refuse_server]
  · rw [hattach, flags_put_of_ne _ _ h, flags_attach_of_ne cfg s v _ h]

/-- What is handed out for an HTTP request that acts on the bridge passed all three checks. -/
theorem http_outputs {path : Option Bytes} {o : Output}
    (h : o ∈ (s.http cfg checkBearer v a path).outputs) (hacts : o.acts = true) :
    admitted cfg checkBearer v.headers = true := by
  rcases s.http_cases cfg checkBearer v a path with ⟨code, hrefuse⟩ | ⟨hpass, -⟩
  · rw [hrefuse] at h
    rw [s.refuse_outputs v a h] at hacts
    cases hacts
  · exact hpass

theorem httpBody_flags (data : Bytes) (w : Nat) :
    (s.httpBody cfg v data).server.flags w = s.flags w := by
  unfold httpBody
  split
  · rfl
  · rename_i c hc
    split_ifs
    · rfl
    · rfl
    · exact flags_put_of_lookup hc (by rfl) w

theorem httpBodyCompletion_flags (w : Nat) :
    (s.httpBodyCompletion v).server.flags w = s.flags w := by
  unfold httpBodyCompletion
  split
  · rfl
  · rename_i c hc
    split_ifs
    · rfl
    · exact flags_put_of_lookup hc (by rfl) w

theorem writeSlice_flags {c c' : Conn} (h : s.lookup v.wsi = some c) (hc : c'.flags = c.flags)
    (b : HttpBodyWriter) (w : Nat) : (s.writeSlice v a c' b).server.flags w = s.flags w := by
  unfold writeSlice
  dsimp only
  split
  · exact flags_put_of_lookup h (by exact hc) w
  · split
    · exact flags_put_of_lookup h (by exact hc) w
    · split
      · exact flags_put_of_lookup h (by exact hc) w
      · exact flags_put_of_lookup h (by exact hc) w

theorem writeSlice_outputs {c : Conn} {b : HttpBodyWriter} {o : Output}
    (h : o ∈ (s.writeSlice v a c b).outputs) : o.acts = false := by
  unfold writeSlice at h
  dsimp only at h
  split at h
  · cases h
  · split_ifs at h
    all_goals
      rw [List.mem_singleton.mp h]
      rfl

theorem httpWriteable_flags (w : Nat) : (s.httpWriteable v a).server.flags w = s.flags w := by
  unfold httpWriteable
  split
  · rfl
  · rename_i c hc
    split
    · exact s.writeSlice_flags v a hc (by rfl) _ w
    · split
      · rfl
      · dsimp only
        split_ifs
        · exact flags_put_of_lookup hc (by rfl) w
        · exact s.writeSlice_flags v a hc (by rfl) _ w

theorem httpWriteable_outputs {o : Output} (h : o ∈ (s.httpWriteable v a).outputs) :
    o.acts = false := by
  unfold httpWriteable at h
  split at h
  · cases h
  · split at h
    · exact s.writeSlice_outputs v a h
    · split at h
      · cases h
      · dsimp only at h
        split_ifs at h
        · cases h
        · rcases List.mem_cons.mp h with rfl | h
          · rfl
          · exact s.writeSlice_outputs v a h

/-! ### WebSockets -/

/-- An upgrade that is admitted passed the host and origin checks and found room, and it was
authorized or let through as a browser's. -/
theorem filterProtocolConnection_admits
    (h : (s.filterProtocolConnection cfg checkBearer v).ret = 0) :
    hostAllowed cfg v.headers = true ∧ originAllowed cfg v.headers = true ∧
      s.hasRoom cfg v = true ∧
      (authorized cfg checkBearer v.headers = true ∨
        browserException cfg checkBearer v.headers = true) := by
  unfold filterProtocolConnection at h
  split_ifs at h with h₁ h₂ hroom
  · simp at h
  · simp at h
  · simp only [Bool.or_eq_true, Bool.not_eq_true', not_or, Bool.not_eq_false] at h₁
    refine ⟨h₁.1, h₁.2, hroom, ?_⟩
    by_cases hauth : authorized cfg checkBearer v.headers = true
    · exact .inl hauth
    · right
      have hmode : cfg.authMode = .bearer := by
        cases hm : cfg.authMode with
        | none => exact absurd (by simp [authorized, hm]) hauth
        | bearer => rfl
      simpa [browserException, hauth, hmode] using h₂
  · simp at h

theorem filterProtocolConnection_server :
    (s.filterProtocolConnection cfg checkBearer v).server = s ∧
      (s.filterProtocolConnection cfg checkBearer v).outputs = [] := by
  unfold filterProtocolConnection
  split_ifs <;> exact ⟨rfl, rfl⟩

theorem established_flags_self :
    (s.established cfg checkBearer v).server.flags v.wsi =
      some (true, authorized cfg checkBearer v.headers) :=
  flags_put_self _ _ _

theorem established_flags_of_ne {w : Nat} (h : w ≠ v.wsi) :
    (s.established cfg checkBearer v).server.flags w = s.flags w := by
  show ((s.attach cfg v true).2.put v.wsi _).flags w = s.flags w
  rw [flags_put_of_ne _ _ h, flags_attach_of_ne cfg s v _ h]

theorem receive_flags (data : Bytes) (binary final : Bool) (w : Nat) :
    (s.receive cfg v data binary final).server.flags w = s.flags w := by
  unfold receive
  split
  · rfl
  · rename_i c hc
    dsimp only
    split_ifs
    · exact flags_requestClose _ _ _ w
    · rw [flags_requestClose]
      exact flags_put_of_lookup hc (by rfl) w
    · exact flags_put_of_lookup hc (by rfl) w
    · exact flags_put_of_lookup hc (by rfl) w

/-- A message is handed over for the connection of its socket. -/
theorem receive_outputs {data : Bytes} {binary final : Bool} {o : Output}
    (h : o ∈ (s.receive cfg v data binary final).outputs) :
    ∃ c body, o = .onBody c body true ∧
      s.flags v.wsi = some c.flags := by
  unfold receive at h
  split at h
  · cases h
  · rename_i c hc
    dsimp only at h
    split_ifs at h
    · cases h
    · cases h
    · cases h
    · refine ⟨_, _, List.mem_singleton.mp h, ?_⟩
      rw [flags, hc]
      rfl

theorem writeQueued_flags {c : Conn} (h : s.lookup v.wsi = some c) (w : Nat) :
    (s.writeQueued v a c).server.flags w = s.flags w := by
  unfold writeQueued
  dsimp only
  split_ifs
  · split
    · exact flags_put_of_lookup h (by rfl) w
    · split_ifs
      · exact flags_put_of_lookup h (by rfl) w
      · exact flags_put_of_lookup h (by rfl) w
  · split
    · rfl
    · split
      · exact flags_put_of_lookup h (by rfl) w
      · split_ifs
        · exact flags_put_of_lookup h (by rfl) w
        · exact flags_put_of_lookup h (by rfl) w

theorem writeQueued_outputs {c : Conn} {o : Output} (h : o ∈ (s.writeQueued v a c).outputs) :
    o.acts = false := by
  unfold writeQueued at h
  dsimp only at h
  split_ifs at h
  · split at h
    · cases h
    · rw [List.mem_singleton.mp h]
      rfl
  · split at h
    · cases h
    · split at h
      · cases h
      · rw [List.mem_singleton.mp h]
        rfl

theorem serverWriteable_flags (w : Nat) :
    (s.serverWriteable v a).server.flags w = s.flags w := by
  unfold serverWriteable
  split
  · rfl
  · rename_i c hc
    split_ifs
    · rfl
    · exact s.writeQueued_flags v a hc w

theorem serverWriteable_outputs {o : Output} (h : o ∈ (s.serverWriteable v a).outputs) :
    o.acts = false := by
  unfold serverWriteable at h
  split at h
  · cases h
  · split_ifs at h
    · rw [List.mem_singleton.mp h]
      rfl
    · exact s.writeQueued_outputs v a h

theorem detach_outputs {wsi : Nat} {o : Output} (h : o ∈ (s.detach wsi).outputs) :
    o.acts = false := by
  unfold detach at h
  dsimp only at h
  split at h
  · cases h
  · split_ifs at h
    · rw [List.mem_singleton.mp h]
      rfl
    · cases h

/-! ### Any callback -/

variable (cb : Callback)

/-- A callback about the request at hand keeps all flags. -/
theorem dispatch_flags_of_inPlace (h : cb.inPlace = true) (w : Nat) :
    (s.dispatch cfg checkBearer v a cb).server.flags w = s.flags w := by
  cases cb with
  | httpBody data => exact s.httpBody_flags cfg v data w
  | httpBodyCompletion => exact s.httpBodyCompletion_flags v w
  | httpWriteable => exact s.httpWriteable_flags v a w
  | receive data binary final => exact s.receive_flags cfg v data binary final w
  | serverWriteable => exact s.serverWriteable_flags v a w
  | _ => cases h

/-- A callback leaves the flags of the other sockets alone. -/
theorem dispatch_flags_of_ne {w : Nat} (h : w ≠ v.wsi) :
    (s.dispatch cfg checkBearer v a cb).server.flags w = s.flags w := by
  by_cases hplace : cb.inPlace = true
  · exact s.dispatch_flags_of_inPlace cfg checkBearer v a cb hplace w
  · cases cb with
    | http path => exact s.http_flags_of_ne cfg checkBearer v a path h
    | filterProtocolConnection =>
        exact congrArg (fun t => t.flags w) (s.filterProtocolConnection_server cfg checkBearer v).1
    | established => exact s.established_flags_of_ne cfg checkBearer v h
    | closedHttp | closed | wsiDestroy => exact s.flags_detach_of_ne h
    | _ => exact absurd rfl hplace

/-- What makes the bridge act comes from an HTTP request, from the end of its body, or from a
message on the connection of the socket. -/
theorem dispatch_outputs {o : Output} (h : o ∈ (s.dispatch cfg checkBearer v a cb).outputs)
    (hacts : o.acts = true) :
    ((∃ path, cb = .http path) ∧ admitted cfg checkBearer v.headers = true) ∨
      cb = .httpBodyCompletion ∨
      (∃ data binary final, cb = .receive data binary final) ∧
        ∃ c body, o = .onBody c body true ∧ s.flags v.wsi = some c.flags := by
  have hnot : o.acts ≠ false := by rw [hacts]; decide
  cases cb with
  | http path => exact .inl ⟨⟨path, rfl⟩, s.http_outputs cfg checkBearer v a h hacts⟩
  | httpBody data =>
      have hnone : (s.httpBody cfg v data).outputs = [] := by
        unfold httpBody
        split
        · rfl
        · split_ifs <;> rfl
      rw [dispatch, hnone] at h
      cases h
  | httpBodyCompletion => exact .inr (.inl rfl)
  | httpWriteable => exact absurd (s.httpWriteable_outputs v a h) hnot
  | filterProtocolConnection =>
      rw [dispatch, (s.filterProtocolConnection_server cfg checkBearer v).2] at h
      cases h
  | established => cases h
  | receive data binary final =>
      exact .inr (.inr ⟨⟨data, binary, final, rfl⟩, s.receive_outputs cfg v h⟩)
  | serverWriteable => exact absurd (s.serverWriteable_outputs v a h) hnot
  | closedHttp | closed | wsiDestroy => exact absurd (s.detach_outputs h) hnot

end

end WsServer

/-! ## The gate

An HTTP request is checked in the callback that hands it over. A WebSocket is checked at its
upgrade, and its messages rest on what the flag was set to then; so the invariant ties the phase
of a socket to the flags of its connection. -/

/-- What is known of a socket from the phase lws is in with it: an HTTP request in progress was
admitted, an upgrade in progress was authorized, and so was a WebSocket, whose connection says so.
-/
def Phase.Vetted (s : WsServer) (wsi : Nat) : Phase → Prop
  | .request h => admitted cfg checkBearer h = true
  | .upgrading h => authorized cfg checkBearer h = true
  | .websocket h =>
    authorized cfg checkBearer h = true ∧ ∀ f, s.flags wsi = some f → f = (true, true)
  | _ => True

structure Vetted (w : World) : Prop where
  socket : ∀ wsi k, w.sockets wsi = some k → k.phase.Vetted cfg checkBearer w.server wsi
  gated : ∀ e ∈ w.history, e.Gated cfg checkBearer

/-- The vetting of a phase depends on the flags of its socket alone. -/
theorem Phase.Vetted.congr {s s' : WsServer} {wsi : Nat} {p : Phase}
    (h : p.Vetted cfg checkBearer s wsi) (hflags : s'.flags wsi = s.flags wsi) :
    p.Vetted cfg checkBearer s' wsi := by
  cases p with
  | websocket hd =>
      show _ ∧ ∀ f, s'.flags wsi = some f → _
      rw [hflags]
      exact h
  | _ => exact h

/-- The upgrades of a run never go through the exception for browsers: an upgrade that passes the
host and origin checks and finds room is authorized, or carries no `Origin`. -/
def tokenUpgrades : Interleaving.Guard World Empty Unit Event where
  run _ _ _ _ := True
  enter w _ ev :=
    match ev with
    | .callback wsi .filterProtocolConnection _ =>
      ∀ k, w.sockets wsi = some k → hostAllowed cfg k.phase.headers = true →
        originAllowed cfg k.phase.headers = true → w.server.hasRoom cfg (k.lws wsi) = true →
        browserException cfg checkBearer k.phase.headers = false
    | _ => True

instance : (tokenUpgrades cfg checkBearer).Decided where
  run _ _ _ _ := isTrue trivial
  enter w _ ev := by
    induction ev using Event.casesOn with
    | callback wsi cb a =>
        induction cb using Callback.casesOn with
        | filterProtocolConnection => exact (inferInstance :
            Decidable (∀ k ∈ w.sockets wsi, hostAllowed cfg k.phase.headers = true →
              originAllowed cfg k.phase.headers = true → w.server.hasRoom cfg (k.lws wsi) = true →
              browserException cfg checkBearer k.phase.headers = false))
        | _ => exact isTrue trivial
    | _ => exact isTrue trivial

/-- The phase a callback leads to is vetted. -/
theorem vetted_after {s : WsServer} {wsi : Nat} {k : Socket} {cb : Callback} {a : Answers}
    (hk : k.phase.Vetted cfg checkBearer s wsi) (hd : k.phase.delivers cb = true)
    (hG : cb = .filterProtocolConnection → hostAllowed cfg k.phase.headers = true →
      originAllowed cfg k.phase.headers = true → s.hasRoom cfg (k.lws wsi) = true →
      browserException cfg checkBearer k.phase.headers = false) {p : Phase}
    (hp : k.phase.after cb (s.dispatch cfg checkBearer (k.lws wsi) a cb) = some p) :
    p.Vetted cfg checkBearer (s.dispatch cfg checkBearer (k.lws wsi) a cb).server wsi := by
  rcases Phase.after_cases hp with rfl | rfl | ⟨hret, hdone, rfl⟩
  · trivial
  · trivial
  · cases cb with
    | http path =>
        cases hph : k.phase with
        | parsed h =>
            show admitted cfg checkBearer h = true
            rcases s.http_cases cfg checkBearer (k.lws wsi) a path with
              ⟨code, hrefuse⟩ | ⟨hpass, -⟩
            · rw [WsServer.dispatch, hrefuse] at hret hdone
              rcases s.refuse_ends (k.lws wsi) a code with hne | htrue
              · exact absurd hret hne
              · rw [hdone] at htrue
                cases htrue
            · rw [show h = (k.lws wsi).headers by rw [Socket.lws, hph]; rfl]
              exact hpass
        | _ => rw [hph] at hd; cases hd
    -- the upgrade is let through: by the guard it was authorized
    | filterProtocolConnection =>
        cases hph : k.phase with
        | parsed h =>
            show authorized cfg checkBearer h = true
            have hh : (k.lws wsi).headers = h := by rw [Socket.lws, hph]; rfl
            have hh' : k.phase.headers = h := by rw [hph]; rfl
            obtain ⟨hhost, horigin, hroom, hauth⟩ :=
              s.filterProtocolConnection_admits cfg checkBearer (k.lws wsi) hret
            have hnot := hG rfl hhost horigin hroom
            rw [hh] at hauth
            rw [hh'] at hnot
            rw [hnot] at hauth
            simpa using hauth
        | _ => rw [hph] at hd; cases hd
    -- `ESTABLISHED` asks again, with the same headers
    | established =>
        cases hph : k.phase with
        | upgrading h =>
            rw [hph] at hk
            have hh : (k.lws wsi).headers = h := by rw [Socket.lws, hph]; rfl
            refine ⟨hk, ?_⟩
            intro f hf
            have hself := s.established_flags_self cfg checkBearer (k.lws wsi)
            rw [hh, hk] at hself
            exact Option.some.inj (hf.symm.trans hself)
        | _ => rw [hph] at hd; cases hd
    | closedHttp | closed =>
        rw [← Option.some.inj hp]
        trivial
    | wsiDestroy => cases hp
    | httpBody _ | httpBodyCompletion | httpWriteable | receive _ _ _ | serverWriteable =>
        rw [Phase.next_of_inPlace rfl]
        exact hk.congr cfg checkBearer
          (s.dispatch_flags_of_inPlace cfg checkBearer (k.lws wsi) a _ rfl wsi)

/-- A socket set to a vetted phase. -/
theorem Vetted.setSocket {w : World} (h : Vetted cfg checkBearer w) {wsi : Nat} {k : Option Socket}
    (hk : ∀ k', k = some k' → k'.phase.Vetted cfg checkBearer w.server wsi) :
    Vetted cfg checkBearer (w.setSocket wsi k) := by
  refine ⟨?_, h.gated⟩
  intro i k' hi
  by_cases heq : i = wsi
  · simp only [World.setSocket, if_pos heq] at hi
    rw [heq]
    exact hk k' hi
  · simp only [World.setSocket, if_neg heq] at hi
    exact h.socket i k' hi

/-- A callback on a vetted socket. -/
theorem Vetted.deliver {w : World} (h : Vetted cfg checkBearer w) {wsi : Nat} {k : Socket}
    {cb : Callback} {a : Answers} (hk : w.sockets wsi = some k) (hd : k.phase.delivers cb = true)
    (hG : cb = .filterProtocolConnection → hostAllowed cfg k.phase.headers = true →
      originAllowed cfg k.phase.headers = true → w.server.hasRoom cfg (k.lws wsi) = true →
      browserException cfg checkBearer k.phase.headers = false) :
    Vetted cfg checkBearer (w.deliver cfg checkBearer wsi k cb a) := by
  have hvet := h.socket wsi k hk
  constructor
  · intro i k' hi
    by_cases heq : i = wsi
    · simp only [World.deliver, World.setSocket, if_pos heq] at hi
      obtain ⟨p, hp, rfl⟩ := Option.map_eq_some_iff.mp hi
      rw [heq]
      exact vetted_after cfg checkBearer hvet hd hG hp
    · simp only [World.deliver, World.setSocket, if_neg heq] at hi
      exact (h.socket i k' hi).congr cfg checkBearer
        (w.server.dispatch_flags_of_ne cfg checkBearer (k.lws wsi) a cb heq)
  · intro e he
    rcases List.mem_append.mp he with he | he
    · exact h.gated e he
    · obtain ⟨o, ho, rfl⟩ := List.mem_map.mp he
      intro hacts
      rcases w.server.dispatch_outputs cfg checkBearer (k.lws wsi) a cb ho hacts with
        ⟨hhttp, hpass⟩ | rfl | ⟨hreceive, c, body, rfl, hflags⟩
      · exact .inl ⟨.inl hhttp, hpass⟩
      · cases hph : k.phase with
        | request hd' =>
            rw [hph] at hvet
            exact .inl ⟨.inr rfl, hvet⟩
        | _ => rw [hph] at hd; cases hd
      · obtain ⟨data, binary, final, rfl⟩ := hreceive
        cases hph : k.phase with
        | websocket hd' =>
            rw [hph] at hvet
            obtain ⟨hws, hauth⟩ := Prod.mk.inj (hvet.2 _ hflags)
            exact .inr ⟨⟨data, binary, final, rfl⟩, c, body, rfl, hws, hauth, hvet.1⟩
        | _ => rw [hph] at hd; cases hd

/-- Every event of a run whose upgrades are authorized keeps the sockets vetted, and hands out only
what passes the gate. -/
theorem Vetted.step {w w' : World} {ev : Event} {p : Multiset Empty} (h : Vetted cfg checkBearer w)
    (hG : (tokenUpgrades cfg checkBearer).enter w p ev) (hw : w.step cfg checkBearer ev = some w') :
    Vetted cfg checkBearer w' := by
  cases ev with
  | connect wsi peer h2Stream =>
      simp only [World.step] at hw
      split at hw
      · cases hw
      · cases hw
        exact h.setSocket cfg checkBearer (by rintro k' ⟨⟩; trivial)
  | headers wsi hd =>
      simp only [World.step] at hw
      split at hw
      · cases hw
        exact h.setSocket cfg checkBearer (by rintro k' ⟨⟩; trivial)
      · cases hw
  | callback wsi cb a =>
      simp only [World.step] at hw
      split at hw
      · cases hw
      · rename_i k hk
        split_ifs at hw with hd
        cases hw
        apply h.deliver cfg checkBearer hk hd
        rintro rfl
        exact hG k hk
  | woken =>
      cases hw
      exact ⟨h.socket, h.gated⟩
  | send id frame =>
      cases hw
      refine ⟨?_, h.gated⟩
      intro i k hk
      exact (h.socket i k hk).congr cfg checkBearer (w.server.flags_send cfg id frame i)
  | requestClose id why =>
      cases hw
      refine ⟨?_, h.gated⟩
      intro i k hk
      exact (h.socket i k hk).congr cfg checkBearer (w.server.flags_requestClose id why i)

/-- **The gate holds where no upgrade is let through without a token.** In every run whose upgrades
never go through the exception for browsers, what makes the bridge act is an HTTP request that
passed all three checks, or a frame of an authenticated WebSocket. -/
theorem gate_holds {s : Interleaving.State World Empty}
    (h : Interleaving.Run (transport cfg checkBearer) (tokenUpgrades cfg checkBearer) start s) :
    ∀ e ∈ s.shared.history, e.Gated cfg checkBearer := by
  have hstart : Vetted cfg checkBearer {} := by
    constructor
    · intro wsi k hk
      cases hk
    · intro e he
      cases he
  exact (transport_invariant cfg checkBearer hstart
    (fun hI hG hw => Vetted.step cfg checkBearer hI hG hw) h).gated

/-- A bridge that asks for a token and serves one web page. -/
def bearerConfig : BridgeConfig :=
  { authMode := .bearer, allowedOrigins := [str "https://app"] }

/-- A peer opens a WebSocket with the headers `h` and sends a message. -/
def upgradeAndSend (h : Headers) : List (Interleaving.Move Unit Event) :=
  [.enter (.connect 1 (str "127.0.0.1") false),
   .enter (.headers 1 h),
   .enter (.callback 1 .filterProtocolConnection {}),
   .enter (.callback 1 .established {}),
   .enter (.callback 1 (.receive (str "[]") false true) {})]

theorem gate_holds_with_token :
    ∃ s, Interleaving.Run (transport bearerConfig (some (· == str "t")))
        (tokenUpgrades bearerConfig (some (· == str "t"))) start s ∧
      (s.shared.history.map fun e => e.output.acts) = [true] ∧
      ∀ e ∈ s.shared.history, e.Gated bearerConfig (some (· == str "t")) := by
  obtain ⟨s, hs⟩ : ∃ s, (transport bearerConfig (some (· == str "t"))).replayUnder
      (tokenUpgrades bearerConfig (some (· == str "t"))) start
      (upgradeAndSend { host := str "localhost", authorization := str "Bearer t" }) = some s :=
    ⟨_, rfl⟩
  have hacts : (s.shared.history.map fun e => e.output.acts) = [true] := by
    cases hs
    rfl
  have hrun := Interleaving.Run.start.replayUnder hs
  exact ⟨s, hrun, hacts, gate_holds bearerConfig (some (· == str "t")) hrun⟩

/-- **A browser's message is handed over without a token.** The page the bridge serves upgrades
with its `Origin` and no `Authorization`; its first message reaches `onBody` although the
connection is not authenticated. -/
theorem not_gate_holds :
    ¬ ∀ s, Interleaving.Run (transport bearerConfig (some fun _ => false))
        Interleaving.Guard.any start s →
      ∀ e ∈ s.shared.history, e.Gated bearerConfig (some fun _ => false) := by
  intro hall
  obtain ⟨s, hs⟩ : ∃ s, (transport bearerConfig (some fun _ => false)).replay start
      (upgradeAndSend { host := str "localhost", origin := str "https://app" }) = some s :=
    ⟨_, rfl⟩
  have hgated := hall s (Interleaving.Run.replay .start hs)
  cases hs
  rcases hgated _ (List.mem_singleton_self _) rfl with ⟨h | h, -⟩ | ⟨-, c, body, h, -, hauth, -⟩
  · obtain ⟨path, h⟩ := h
    cases h
  · cases h
  · cases h
    cases hauth

end JsonRpcBridge.Server
