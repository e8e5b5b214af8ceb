import JsonRpcBridge.Server.Bounds

/-!
# Peer slots and the connection table

A socket is attached once for each HTTP request and once more by an upgrade, and detached by up to
three callbacks. Both are idempotent for the slot of the socket, so that the two maps of `PeerSlots`
follow the table through every run of the transport (`peers_accounted`).
-/

namespace JsonRpcBridge.Server

/-! ## One slot

`acquire` and `release` as lookups. Taking a slot that is held, and giving up one that is not,
change nothing. -/

namespace PeerSlots

variable {p : PeerSlots} {handle : Nat} {peer : Bytes}

/-- A new slot is the peer's; a slot that is held stays with the peer it was taken for. -/
theorem lookup_acquire (p : PeerSlots) (handle : Nat) (peer : Bytes) (i : Nat) :
    (p.acquire handle peer).owner.lookup i =
      if i = handle ∧ p.holds handle = false then some peer else p.owner.lookup i := by
  cases hholds : p.holds handle with
  | true => simp [acquire_of_holds hholds]
  | false =>
      have hnone : p.owner.lookup handle = none := by
        simpa [holds] using hholds
      rw [acquire, if_neg (by rw [hholds]; exact Bool.false_ne_true)]
      rw [List.lookup_append_singleton peer hnone]
      simp

theorem lookup_release (p : PeerSlots) (handle i : Nat) :
    (p.release handle).owner.lookup i = if i = handle then none else p.owner.lookup i := by
  unfold release
  split
  · rename_i hnone
    by_cases hi : i = handle
    · rw [if_pos hi, hi, hnone]
    · rw [if_neg hi]
  · exact List.lookup_filter_ne p.owner handle i

/-- Every peer that is listed has a slot. -/
def Positive (p : PeerSlots) : Prop := ∀ e ∈ p.counts, 0 < e.2

theorem Positive.acquire (h : p.Positive) (hcounted : p.Counted) :
    (p.acquire handle peer).Positive := by
  unfold PeerSlots.acquire
  split
  · exact h
  · intro e he
    rcases List.mem_append.mp he with he | he
    · exact h e (List.mem_filter.mp he).1
    · rw [List.mem_singleton.mp he]
      have hcount := hcounted.counted peer
      omega

theorem Positive.release (h : p.Positive) (handle : Nat) : (p.release handle).Positive := by
  unfold PeerSlots.release
  split
  · exact h
  · intro e he
    dsimp only at he
    split at he
    · exact h e he
    · split at he
      · exact h e (List.mem_filter.mp he).1
      · rename_i n hn hpositive
        rcases List.mem_append.mp he with he | he
        · exact h e (List.mem_filter.mp he).1
        · rw [List.mem_singleton.mp he]
          omega

end PeerSlots

/-! ## The table

A callback does to the slots what it does to the table: nothing, or it adds or takes away its own
socket. -/

/-- What a callback does to the slots, and to the places in the table. -/
inductive Places (s t : WsServer) (v : Lws) (cb : Callback) : Prop
  | keeps : cb.keeps = true → t.peerSlots = s.peerSlots →
      (∀ i, (t.lookup i).isSome = (s.lookup i).isSome) → Places s t v cb
  | takes : cb ≠ .wsiDestroy → t.peerSlots = s.peerSlots.acquire v.wsi v.peer →
      (∀ i, (t.lookup i).isSome = if i = v.wsi then true else (s.lookup i).isSome) → Places s t v cb
  | gives : t.peerSlots = s.peerSlots.release v.wsi →
      (∀ i, (t.lookup i).isSome = if i = v.wsi then false else (s.lookup i).isSome) → Places s t v cb

section

variable {cfg : BridgeConfig} {checkBearer : Option (Bytes → Bool)} {s t : WsServer} {v : Lws}
  {a : Answers} {cb : Callback} {w w' : World}

/-! ### The operations on the table -/

theorem isSome_put {wsi : Nat} {c : Conn} (hc : s.lookup wsi = some c) (c' : Conn) (i : Nat) :
    ((s.put wsi c').lookup i).isSome = (s.lookup i).isSome := by
  rw [WsServer.lookup_put]
  split
  · rename_i hi
    rw [hi, hc]
    rfl
  · rfl

theorem isSome_requestClose (s : WsServer) (id : Nat) (why : CloseReason) (i : Nat) :
    ((s.requestClose id why).lookup i).isSome = (s.lookup i).isSome := by
  rw [WsServer.lookup_requestClose, Option.isSome_map]

theorem peerSlots_requestClose (s : WsServer) (id : Nat) (why : CloseReason) :
    (s.requestClose id why).peerSlots = s.peerSlots := by
  unfold WsServer.requestClose
  dsimp only
  split <;> rfl

theorem isSome_send (s : WsServer) (id : Nat) (frame : Bytes) (i : Nat) :
    ((s.send cfg id frame).lookup i).isSome = (s.lookup i).isSome := by
  rcases s.lookup_send cfg id frame i with h | h
  · rw [h]
  · rw [h, Option.isSome_map]

theorem peerSlots_send (s : WsServer) (id : Nat) (frame : Bytes) :
    (s.send cfg id frame).peerSlots = s.peerSlots := by
  unfold WsServer.send
  split <;> rfl

theorem peerSlots_detach (s : WsServer) (wsi : Nat) :
    (s.detach wsi).server.peerSlots = s.peerSlots.release wsi := by
  unfold WsServer.detach
  dsimp only
  split <;> rfl

theorem Alters.places (h : Alters cfg checkBearer s v cb t) : Places s t v cb := by
  cases h with
  | same hkeeps => exact .keeps hkeeps rfl fun _ => rfl
  | touches hkeeps hc _ => exact .keeps hkeeps rfl (isSome_put hc _)
  | asks hkeeps _ _ => exact .keeps hkeeps (peerSlots_requestClose s _ _) (isSome_requestClose s _ _)
  | touchesAsks hkeeps hc _ _ =>
      refine .keeps hkeeps (peerSlots_requestClose _ _ _) fun i => ?_
      rw [isSome_requestClose, isSome_put hc]
  | opens hopens _ _ _ _ =>
      refine .takes ?_ rfl fun i => ?_
      · rintro rfl
        cases hopens
      · rw [WsServer.lookup_attach]
        split <;> rfl
  | closes _ =>
      refine .gives (peerSlots_detach s _) fun i => ?_
      rw [WsServer.lookup_detach]
      split <;> rfl

/-! ## Runs

So the owners of slots are the sockets of the table, after every event. -/

/-- The handles that hold a slot are those of the table; each peer has as many as are held for it,
and no peer is listed without one; and a slot is held for the peer of the socket that has the handle
now. -/
structure SlotsFollow (w : World) : Prop where
  owners : ∀ wsi, w.server.peerSlots.holds wsi = (w.server.lookup wsi).isSome
  counted : w.server.peerSlots.Counted
  positive : w.server.peerSlots.Positive
  current : ∀ wsi peer, w.server.peerSlots.owner.lookup wsi = some peer →
    ∃ k, w.sockets wsi = some k ∧ k.peer = peer

/-! ### Every event -/

theorem slotsFollow_start : SlotsFollow {} where
  owners _ := rfl
  counted := PeerSlots.counted_empty
  positive _ he := (List.not_mem_nil he).elim
  current _ _ h := nomatch h

/-- A step that leaves the slots and the places alone. -/
theorem SlotsFollow.congr (h : SlotsFollow w) (hslots : w'.server.peerSlots = w.server.peerSlots)
    (hplaces : ∀ i, (w'.server.lookup i).isSome = (w.server.lookup i).isSome)
    (hsockets : ∀ i k, w.sockets i = some k → ∃ k', w'.sockets i = some k' ∧ k'.peer = k.peer) :
    SlotsFollow w' where
  owners wsi := by rw [hslots, hplaces, h.owners]
  counted := hslots ▸ h.counted
  positive := hslots ▸ h.positive
  current wsi peer hpeer := by
    rw [hslots] at hpeer
    obtain ⟨k, hk, rfl⟩ := h.current wsi peer hpeer
    exact hsockets wsi k hk

theorem SlotsFollow.deliver (h : SlotsFollow w) {wsi : Nat} {k : Socket} (hk : w.sockets wsi = some k) :
    SlotsFollow (w.deliver cfg checkBearer wsi k cb a) := by
  have hself : (w.deliver cfg checkBearer wsi k cb a).sockets wsi =
      (k.phase.after cb (w.server.dispatch cfg checkBearer (k.lws wsi) a cb)).map
        fun p => { k with phase := p } := if_pos rfl
  have hother : ∀ i, i ≠ wsi → (w.deliver cfg checkBearer wsi k cb a).sockets i = w.sockets i :=
    fun i hi => if_neg hi
  -- the socket stays, with its peer, unless it is destroyed
  have hstays (hcb : cb ≠ .wsiDestroy) :
      ∃ k', (w.deliver cfg checkBearer wsi k cb a).sockets wsi = some k' ∧ k'.peer = k.peer := by
    rw [hself]
    cases hafter : k.phase.after cb (w.server.dispatch cfg checkBearer (k.lws wsi) a cb) with
    | none => exact absurd (Phase.after_none hafter) hcb
    | some p => exact ⟨_, rfl, rfl⟩
  rcases (alters_dispatch cfg checkBearer w.server (k.lws wsi) a cb).places with
    ⟨hkeeps, hslots, hplaces⟩ | ⟨hcb, hslots, hplaces⟩ | ⟨hslots, hplaces⟩
  · refine h.congr hslots hplaces fun i k' hk' => ?_
    by_cases hi : i = wsi
    · subst hi
      obtain rfl : k = k' := Option.some.inj (hk.symm.trans hk')
      apply hstays
      rintro rfl
      cases hkeeps
    · exact ⟨k', (hother i hi).trans hk', rfl⟩
  · have hslots : (w.deliver cfg checkBearer wsi k cb a).server.peerSlots =
        w.server.peerSlots.acquire wsi k.peer := hslots
    have hplaces : ∀ i, ((w.deliver cfg checkBearer wsi k cb a).server.lookup i).isSome =
        if i = wsi then true else (w.server.lookup i).isSome := hplaces
    refine ⟨fun i => ?_, hslots ▸ h.counted.acquire, hslots ▸ h.positive.acquire h.counted,
      fun i peer hpeer => ?_⟩
    · rw [hslots, hplaces, PeerSlots.holds, PeerSlots.lookup_acquire]
      have howners := h.owners i
      rw [PeerSlots.holds] at howners
      by_cases hi : i = wsi
      · subst hi
        cases hholds : w.server.peerSlots.holds i with
        | true => simpa [PeerSlots.holds] using hholds
        | false => simp
      · simp [hi, howners]
    · rw [hslots, PeerSlots.lookup_acquire] at hpeer
      by_cases hi : i = wsi
      · subst hi
        obtain ⟨k', hk', hsame⟩ := hstays hcb
        refine ⟨k', hk', hsame.trans ?_⟩
        split at hpeer
        · exact Option.some.inj hpeer
        · obtain ⟨k₀, hk₀, hpeer₀⟩ := h.current i peer hpeer
          rw [← hpeer₀, Option.some.inj (hk.symm.trans hk₀)]
      · rw [if_neg fun hc => hi hc.1] at hpeer
        obtain ⟨k₀, hk₀, hpeer₀⟩ := h.current i peer hpeer
        exact ⟨k₀, (hother i hi).trans hk₀, hpeer₀⟩
  · have hslots : (w.deliver cfg checkBearer wsi k cb a).server.peerSlots =
        w.server.peerSlots.release wsi := hslots
    have hplaces : ∀ i, ((w.deliver cfg checkBearer wsi k cb a).server.lookup i).isSome =
        if i = wsi then false else (w.server.lookup i).isSome := hplaces
    refine ⟨fun i => ?_, hslots ▸ (h.counted.release wsi).1, hslots ▸ h.positive.release wsi,
      fun i peer hpeer => ?_⟩
    · rw [hslots, hplaces, PeerSlots.holds, PeerSlots.lookup_release]
      have howners := h.owners i
      rw [PeerSlots.holds] at howners
      split
      · rfl
      · exact howners
    · rw [hslots, PeerSlots.lookup_release] at hpeer
      split at hpeer
      · cases hpeer
      · rename_i hi
        obtain ⟨k₀, hk₀, hpeer₀⟩ := h.current i peer hpeer
        exact ⟨k₀, (hother i hi).trans hk₀, hpeer₀⟩

theorem SlotsFollow.setSocket (h : SlotsFollow w) {wsi : Nat} {k : Socket}
    (hpeer : ∀ k₀, w.sockets wsi = some k₀ → k.peer = k₀.peer) :
    SlotsFollow (w.setSocket wsi (some k)) := by
  refine h.congr rfl (fun _ => rfl) fun i k₀ hk₀ => ?_
  by_cases hi : i = wsi
  · exact ⟨k, if_pos hi, hpeer k₀ (hi ▸ hk₀)⟩
  · exact ⟨k₀, (if_neg hi).trans hk₀, rfl⟩

theorem SlotsFollow.step {ev : Event} (h : SlotsFollow w) (hstep : w.step cfg checkBearer ev = some w') :
    SlotsFollow w' := by
  have hsame : ∀ i k, w.sockets i = some k → ∃ k', w.sockets i = some k' ∧ k'.peer = k.peer :=
    fun i k hk => ⟨k, hk, rfl⟩
  cases ev with
  | connect wsi peer h2Stream =>
      simp only [World.step] at hstep
      split at hstep
      · cases hstep
      · rename_i hnone
        cases hstep
        exact h.setSocket fun k₀ hk₀ => by rw [hnone] at hk₀; cases hk₀
  | headers wsi hd =>
      simp only [World.step] at hstep
      split at hstep
      · rename_i hk
        cases hstep
        exact h.setSocket fun k₀ hk₀ => by rw [hk] at hk₀; cases hk₀; rfl
      · cases hstep
  | callback wsi cb a =>
      simp only [World.step] at hstep
      split at hstep
      · cases hstep
      · rename_i k hk
        split_ifs at hstep with hd
        cases hstep
        exact h.deliver hk
  | woken =>
      cases hstep
      exact h.congr rfl (fun _ => rfl) hsame
  | send id frame =>
      cases hstep
      exact h.congr (peerSlots_send w.server id frame) (isSome_send w.server id frame) hsame
  | requestClose id why =>
      cases hstep
      exact h.congr (peerSlots_requestClose w.server id why)
        (isSome_requestClose w.server id why) hsame

end

/-- **The slots follow the table** in every run of the transport. -/
theorem peers_accounted (cfg : BridgeConfig) (checkBearer : Option (Bytes → Bool))
    (s : Interleaving.State World Empty)
    (hrun : Interleaving.Run (transport cfg checkBearer) Interleaving.Guard.any start s) :
    (∀ wsi, s.shared.server.peerSlots.holds wsi = (s.shared.server.lookup wsi).isSome) ∧
    (s.shared.server.peerSlots.owner.map Prod.fst).Nodup ∧
    (∀ peer, s.shared.server.peerSlots.count peer = s.shared.server.peerSlots.heldBy peer) ∧
    (∀ e ∈ s.shared.server.peerSlots.counts, 0 < e.2) ∧
    ∀ wsi peer, s.shared.server.peerSlots.owner.lookup wsi = some peer →
      ∃ k, s.shared.sockets wsi = some k ∧ k.peer = peer := by
  have h : SlotsFollow s.shared := transport_invariant cfg checkBearer (I := SlotsFollow)
    slotsFollow_start (fun h _ hstep => h.step hstep) hrun
  exact ⟨h.owners, h.counted.owners, h.counted.counted, h.positive, h.current⟩

/-- A socket that is used twice and destroyed, and its handle used again by another peer. -/
def reusedMoves : List (Interleaving.Move Unit Event) :=
  getOn 1 ++
  [.enter (.callback 1 .httpWriteable {}),
   .enter (.headers 1 { host := str "localhost" }),
   .enter (.callback 1 (.http none) {}),
   .enter (.callback 1 .closedHttp {}),
   .enter (.callback 1 .wsiDestroy {}),
   .enter (.connect 1 (str "127.0.0.2") false),
   .enter (.headers 1 { host := str "localhost" }),
   .enter (.callback 1 (.http none) {})]

/-- The slot is the new peer's. -/
theorem peers_accounted_reused : ∃ s,
    Interleaving.Run (transport minimalConfig none) Interleaving.Guard.any start s ∧
    (s.shared.server.peerSlots.count (str "127.0.0.1") = 0 ∧
      s.shared.server.peerSlots.count (str "127.0.0.2") = 1) ∧
    (∀ wsi, s.shared.server.peerSlots.holds wsi = (s.shared.server.lookup wsi).isSome) ∧
    (s.shared.server.peerSlots.owner.map Prod.fst).Nodup ∧
    (∀ peer, s.shared.server.peerSlots.count peer = s.shared.server.peerSlots.heldBy peer) ∧
    (∀ e ∈ s.shared.server.peerSlots.counts, 0 < e.2) ∧
    ∀ wsi peer, s.shared.server.peerSlots.owner.lookup wsi = some peer →
      ∃ k, s.shared.sockets wsi = some k ∧ k.peer = peer := by
  have hmoves : ((transport minimalConfig none).replay start reusedMoves).map
      (fun s => (s.shared.server.peerSlots.count (str "127.0.0.1"),
        s.shared.server.peerSlots.count (str "127.0.0.2"))) = some (0, 1) := by rfl
  obtain ⟨s, hs, hcounts⟩ := Option.map_eq_some_iff.mp hmoves
  have hrun := Interleaving.Run.start.replay hs
  exact ⟨s, hrun, Prod.mk.inj hcounts, peers_accounted minimalConfig none s hrun⟩

end JsonRpcBridge.Server
