import JsonRpcBridge.Config.Parse
import JsonRpcBridge.Server.Table

/-!
# Bounds on connections

A socket gets its place in the table, and its slot, when a callback attaches it; the bounds are
looked at in `FILTER_PROTOCOL_CONNECTION` alone. A plain HTTP request attaches without a look, and
an upgrade attaches one callback after it.

So the look is good for the upgrades it is made for, as long as nobody else takes the room that was
seen. `Reserved` says this: the bounds hold, and every socket whose upgrade has passed the look still
has room. The look makes it true of the socket it lets pass, and then only another socket that is
attached can spoil it, which is what `roomy` excludes, beside HTTP requests that find no room.

* `bounded_of_run`: the bounds hold in every such run.
* `not_bounded_nineGets`: nine `GET`s of one peer hold nine slots.
-/

namespace JsonRpcBridge.Server

/-! ## Peer slots

`counts` is a count of `owner` kept beside it. The bound is read off `counts`, so it is `owner`
that has to be kept in step. -/

namespace PeerSlots

/-- The slots held by a peer. -/
def heldBy (p : PeerSlots) (peer : Bytes) : Nat := p.owner.countP fun e => e.2 = peer

/-- `counts` counts the slots of `owner`. -/
structure Counted (p : PeerSlots) : Prop where
  owners : (p.owner.map Prod.fst).Nodup
  counted : ∀ peer, p.count peer = p.heldBy peer

theorem counted_empty : Counted {} := ⟨List.nodup_nil, fun _ => rfl⟩

variable {p : PeerSlots} {handle : Nat} {peer : Bytes}

theorem acquire_of_holds (h : p.holds handle = true) : p.acquire handle peer = p := by
  rw [acquire, if_pos h]

theorem heldBy_acquire (h : p.holds handle = false) (peer' : Bytes) :
    (p.acquire handle peer).heldBy peer' = p.heldBy peer' + if peer = peer' then 1 else 0 := by
  rw [acquire, if_neg (by rw [h]; exact Bool.false_ne_true), heldBy, List.countP_append,
    List.countP_singleton]
  simp only [decide_eq_true_eq]
  rfl

theorem Counted.acquire (hp : p.Counted) : (p.acquire handle peer).Counted := by
  cases hholds : p.holds handle with
  | true => rwa [acquire_of_holds hholds]
  | false =>
      have hnone : p.owner.lookup handle = none := by
        simpa [holds] using hholds
      constructor
      · rw [PeerSlots.acquire, if_neg (by rw [hholds]; exact Bool.false_ne_true)]
        rw [List.map_append, List.map_singleton, List.nodup_append]
        refine ⟨hp.owners, List.nodup_singleton _, ?_⟩
        intro k hk k' hk'
        obtain ⟨e, he, rfl⟩ := List.mem_map.mp hk
        obtain rfl := List.mem_singleton.mp hk'
        have hne := List.lookup_eq_none_iff.mp hnone e he
        rintro rfl
        simp at hne
      · intro peer'
        rw [heldBy_acquire hholds]
        rw [PeerSlots.acquire, if_neg (by rw [hholds]; exact Bool.false_ne_true), PeerSlots.count,
          List.lookup_assign]
        have hcount := hp.counted peer'
        rw [PeerSlots.count] at hcount
        by_cases hpeer : peer' = peer
        · subst hpeer
          rw [if_pos rfl, if_pos rfl, Option.getD_some]
          show (p.counts.lookup peer').getD 0 + 1 = _
          omega
        · rw [if_neg hpeer, if_neg (Ne.symm hpeer), Nat.add_zero]
          exact hcount

theorem Counted.release (hp : p.Counted) (handle : Nat) :
    (p.release handle).Counted ∧ ∀ peer', (p.release handle).heldBy peer' ≤ p.heldBy peer' := by
  unfold PeerSlots.release
  split
  · exact ⟨hp, fun _ => Nat.le_refl _⟩
  · rename_i peer hpeer
    -- one slot less for the peer that is recorded
    have hheld : ∀ peer', p.heldBy peer' =
        (p.owner.filter fun e => e.1 != handle).countP (fun e => e.2 = peer') +
          if peer = peer' then 1 else 0 := by
      intro peer'
      rw [heldBy, List.countP_filter_ne hp.owners hpeer]
      simp only [decide_eq_true_eq]
    refine ⟨⟨hp.owners.sublist (List.filter_sublist.map _), fun peer' => ?_⟩, fun peer' => ?_⟩
    · have hcount := hp.counted peer'
      rw [hheld, PeerSlots.count] at hcount
      rw [PeerSlots.count, heldBy]
      dsimp only
      split
      · rename_i hnone
        by_cases hsame : peer = peer'
        · subst hsame
          rw [hnone, if_pos rfl, Option.getD_none] at hcount
          omega
        · rw [hcount, if_neg hsame, Nat.add_zero]
      · rename_i n hn
        by_cases hsame : peer = peer'
        · subst hsame
          rw [hn, if_pos rfl, Option.getD_some] at hcount
          split
          · rw [List.lookup_filter_ne, if_pos rfl, Option.getD_none]
            omega
          · rw [List.lookup_assign, if_pos rfl, Option.getD_some]
            omega
        · rw [if_neg hsame, Nat.add_zero] at hcount
          rw [← hcount]
          split
          · rw [List.lookup_filter_ne, if_neg (Ne.symm hsame)]
          · rw [List.lookup_assign, if_neg (Ne.symm hsame)]
    · rw [hheld]
      exact Nat.le_add_right _ _

end PeerSlots

/-! ## The table

Only `attach` can break a bound; whatever else happens to a connection, it has its place already. -/

/-- The bounds, and what they rest on: every socket has one place and one slot at most. -/
structure WsServer.Bounded (cfg : BridgeConfig) (s : WsServer) : Prop where
  sockets : (s.conns.map Prod.fst).Nodup
  conns : (s.conns.length : Int) ≤ cfg.limits.maxConnections
  slots : s.peerSlots.Counted
  peers : ∀ peer, (s.peerSlots.heldBy peer : Int) ≤ cfg.limits.maxConnectionsPerPeer

variable {cfg : BridgeConfig} {checkBearer : Option (Bytes → Bool)} {s t : WsServer} {v : Lws}

namespace WsServer

/-! ### Changes of the table -/

/-- What the bounds are about. -/
theorem Bounded.congr (h : s.Bounded cfg) (hconns : t.conns.map Prod.fst = s.conns.map Prod.fst)
    (hslots : t.peerSlots = s.peerSlots) : t.Bounded cfg := by
  have hlength : t.conns.length = s.conns.length := by
    rw [← List.length_map (f := Prod.fst), hconns, List.length_map]
  exact ⟨hconns ▸ h.sockets, hlength ▸ h.conns, hslots ▸ h.slots, hslots ▸ h.peers⟩

theorem Bounded.update (h : s.Bounded cfg) (id : Nat) (f : Conn → Conn) :
    (s.update id f).Bounded cfg := by
  refine h.congr ?_ rfl
  rw [WsServer.update, List.map_map]
  rfl

theorem Bounded.wake (h : s.Bounded cfg) (wsi : Nat) : (s.wake wsi).Bounded cfg := h.congr rfl rfl

theorem Bounded.requestClose (h : s.Bounded cfg) (id : Nat) (why : CloseReason) :
    (s.requestClose id why).Bounded cfg := by
  unfold WsServer.requestClose
  dsimp only
  split
  · exact h.update id _
  · exact (h.update id _).wake _

theorem Bounded.send (h : s.Bounded cfg) (id : Nat) (frame : Bytes) :
    (s.send cfg id frame).Bounded cfg := by
  unfold WsServer.send
  split
  · exact h
  · exact (h.update id _).wake _

/-- Assigning a socket that has its place, or finds room. -/
theorem sockets_put (h : (s.conns.map Prod.fst).Nodup) (wsi : Nat) (c : Conn) :
    ((s.put wsi c).conns.map Prod.fst).Nodup ∧
      (s.put wsi c).conns.length =
        if (s.lookup wsi).isSome then s.conns.length else s.conns.length + 1 := by
  constructor
  · rw [put, List.map_append, List.map_singleton, List.nodup_append]
    refine ⟨h.sublist (List.filter_sublist.map _), List.nodup_singleton _, ?_⟩
    intro k hk k' hk'
    obtain ⟨e, he, rfl⟩ := List.mem_map.mp hk
    rw [List.mem_singleton.mp hk']
    simpa using (List.mem_filter.mp he).2
  · rw [put, List.length_append, List.length_singleton, lookup]
    cases hlookup : s.conns.lookup wsi with
    | none => rw [List.filter_ne_of_lookup hlookup]; rfl
    | some c' =>
        have hcount := List.countP_filter_ne h hlookup fun _ => true
        rw [List.countP_true] at hcount
        exact hcount.symm

theorem Bounded.put (h : s.Bounded cfg) {wsi : Nat} {c c' : Conn} (hc : s.lookup wsi = some c) :
    (s.put wsi c').Bounded cfg := by
  obtain ⟨hsockets, hlength⟩ := sockets_put h.sockets wsi c'
  rw [hc, Option.isSome_some, if_pos rfl] at hlength
  refine ⟨hsockets, ?_, h.slots, h.peers⟩
  rw [hlength]
  exact h.conns

theorem Bounded.attach (h : s.Bounded cfg) (hroom : s.hasRoom cfg v = true) (isWebsocket : Bool) :
    (s.attach cfg v isWebsocket).2.Bounded cfg := by
  unfold hasRoom at hroom
  rw [Bool.and_eq_true, Bool.or_eq_true, Bool.or_eq_true] at hroom
  obtain ⟨hplace, hslot⟩ := hroom
  obtain ⟨hsockets, hlength⟩ := sockets_put h.sockets v.wsi (s.attach cfg v isWebsocket).1
  refine ⟨hsockets, ?_, h.slots.acquire, fun peer => ?_⟩
  · show ((s.put v.wsi (s.attach cfg v isWebsocket).1).conns.length : Int) ≤ _
    rw [hlength]
    have hconns := h.conns
    split
    · exact hconns
    · rename_i hnew
      have hlt := hplace.resolve_left hnew
      rw [decide_eq_true_eq] at hlt
      omega
  · show ((s.peerSlots.acquire v.wsi v.peer).heldBy peer : Int) ≤ _
    have hpeers := h.peers peer
    cases hholds : s.peerSlots.holds v.wsi with
    | true => rwa [PeerSlots.acquire_of_holds hholds]
    | false =>
        rw [hholds] at hslot
        have hadmits : s.peerSlots.count v.peer < cfg.limits.maxConnectionsPerPeer := by
          simpa [PeerSlots.admits] using hslot
        rw [h.slots.counted] at hadmits
        rw [PeerSlots.heldBy_acquire hholds]
        by_cases hpeer : v.peer = peer
        · subst hpeer
          rw [if_pos rfl]
          omega
        · rwa [if_neg hpeer]

theorem Bounded.detach (h : s.Bounded cfg) (wsi : Nat) : (s.detach wsi).server.Bounded cfg := by
  obtain ⟨hslots, hheld⟩ := h.slots.release wsi
  have hpeers : ∀ peer, ((s.peerSlots.release wsi).heldBy peer : Int) ≤
      cfg.limits.maxConnectionsPerPeer := by
    intro peer
    have hle := hheld peer
    have hbound := h.peers peer
    omega
  unfold WsServer.detach
  dsimp only
  split
  · exact ⟨h.sockets, h.conns, hslots, hpeers⟩
  · refine ⟨h.sockets.sublist (List.filter_sublist.map _), ?_, hslots, hpeers⟩
    have hle : (s.conns.filter fun e => e.1 != wsi).length ≤ s.conns.length :=
      List.length_filter_le _ _
    have hconns := h.conns
    show ((s.conns.filter fun e => e.1 != wsi).length : Int) ≤ _
    omega

/-- A callback keeps the bounds if there is room where it attaches. -/
theorem Bounded.alters {cb : Callback} (h : s.Bounded cfg) (halters : Alters cfg checkBearer s v cb t)
    (hroom : cb.opens cfg checkBearer v.headers = true → s.hasRoom cfg v = true) :
    t.Bounded cfg := by
  cases halters with
  | same _ => exact h
  | touches _ hc _ => exact h.put hc
  | asks _ hc _ => exact h.requestClose _ _
  | touchesAsks _ hc _ _ => exact (h.put hc).requestClose _ _
  | @opens isWebsocket c hopens _ _ _ _ =>
      have hlookup : (s.attach cfg v isWebsocket).2.lookup v.wsi =
          some (s.attach cfg v isWebsocket).1 :=
        (s.lookup_put v.wsi _ v.wsi).trans (if_pos rfl)
      exact (h.attach (hroom hopens) isWebsocket).put hlookup
  | closes _ => exact h.detach _

end WsServer

/-! ## Room

A socket has room if it has its place or there is a free one, and likewise for a slot of its
peer. Attaching another socket may take the last of either. -/

/-- Attaching the socket of `v` leaves room for the socket of `v'`: there are a place and a slot for
both, or one of them has its own already. -/
def WsServer.Spares (cfg : BridgeConfig) (s : WsServer) (v v' : Lws) : Prop :=
  ((s.lookup v.wsi).isSome = true ∨ (s.lookup v'.wsi).isSome = true ∨
    (s.conns.length : Int) + 1 < cfg.limits.maxConnections) ∧
  (s.peerSlots.holds v.wsi = true ∨ s.peerSlots.holds v'.wsi = true ∨ v.peer ≠ v'.peer ∨
    s.peerSlots.count v.peer + 1 < cfg.limits.maxConnectionsPerPeer)

instance (s : WsServer) (v v' : Lws) : Decidable (s.Spares cfg v v') :=
  inferInstanceAs (Decidable (_ ∧ _))

theorem PeerSlots.holds_acquire (p : PeerSlots) (handle : Nat) (peer : Bytes) (h : Nat) :
    (p.acquire handle peer).holds h = (p.holds h || h == handle) := by
  unfold acquire
  split
  · rename_i hholds
    by_cases hh : h = handle
    · subst hh
      rw [hholds, Bool.true_or]
    · rw [beq_false_of_ne hh, Bool.or_false]
  · rename_i hholds
    rw [holds, List.lookup_append_singleton peer (Option.not_isSome_iff_eq_none.mp hholds)]
    by_cases hh : h = handle
    · simp [hh]
    · simp [hh, holds]

theorem PeerSlots.count_acquire {p : PeerSlots} {handle : Nat} (h : p.holds handle = false)
    (peer peer' : Bytes) :
    (p.acquire handle peer).count peer' = p.count peer' + if peer' = peer then 1 else 0 := by
  rw [acquire, if_neg (by rw [h]; exact Bool.false_ne_true), count, List.lookup_assign]
  split
  · rename_i hpeer
    rw [hpeer]
    rfl
  · exact (add_zero _).symm

theorem PeerSlots.holds_release {p : PeerSlots} {handle h : Nat} (hne : h ≠ handle) :
    (p.release handle).holds h = p.holds h := by
  unfold release
  split
  · rfl
  · rw [holds, List.lookup_filter_ne, if_neg hne, holds]

namespace WsServer

/-! ### Room over a step -/

/-- Room stays where the socket keeps what it has and the table does not fill up. -/
theorem hasRoom_mono (hplace : (s.lookup v.wsi).isSome = true → (t.lookup v.wsi).isSome = true)
    (hlength : t.conns.length ≤ s.conns.length)
    (hslot : s.peerSlots.holds v.wsi = true → t.peerSlots.holds v.wsi = true)
    (hcount : t.peerSlots.count v.peer ≤ s.peerSlots.count v.peer) (h : s.hasRoom cfg v = true) :
    t.hasRoom cfg v = true := by
  unfold hasRoom PeerSlots.admits at h ⊢
  simp only [Bool.and_eq_true, Bool.or_eq_true, decide_eq_true_eq] at h ⊢
  refine ⟨h.1.imp hplace fun hfree => ?_, h.2.imp hslot fun hfree => ?_⟩
  · omega
  · omega

theorem hasRoom_congr (hplace : (t.lookup v.wsi).isSome = (s.lookup v.wsi).isSome)
    (hlength : t.conns.length = s.conns.length) (hslots : t.peerSlots = s.peerSlots) :
    t.hasRoom cfg v = s.hasRoom cfg v := by
  unfold hasRoom
  rw [hplace, hlength, hslots]

theorem hasRoom_requestClose (id : Nat) (why : CloseReason) :
    (s.requestClose id why).hasRoom cfg v = s.hasRoom cfg v := by
  refine hasRoom_congr ?_ ?_ ?_
  · rw [lookup_requestClose, Option.isSome_map]
  · unfold requestClose
    dsimp only
    split <;> exact List.length_map _
  · unfold requestClose
    dsimp only
    split <;> rfl

theorem hasRoom_send (id : Nat) (frame : Bytes) :
    (s.send cfg id frame).hasRoom cfg v = s.hasRoom cfg v := by
  refine hasRoom_congr ?_ ?_ ?_
  · rcases s.lookup_send cfg id frame v.wsi with h | h
    · rw [h]
    · rw [h, Option.isSome_map]
  · unfold send
    split
    · rfl
    · exact List.length_map _
  · unfold send
    split <;> rfl

theorem hasRoom_put (hsockets : (s.conns.map Prod.fst).Nodup) {wsi : Nat} {c c' : Conn}
    (hc : s.lookup wsi = some c) : (s.put wsi c').hasRoom cfg v = s.hasRoom cfg v := by
  refine hasRoom_congr ?_ ?_ rfl
  · rw [lookup_put]
    split
    · rename_i hsame
      rw [hsame, hc]
      rfl
    · rfl
  · rw [(sockets_put hsockets wsi c').2, hc, Option.isSome_some, if_pos rfl]

/-- What is attached leaves the room that it spares. -/
theorem hasRoom_attach {v' : Lws} (hsockets : (s.conns.map Prod.fst).Nodup)
    (hspares : s.Spares cfg v v') (isWebsocket : Bool) (h : s.hasRoom cfg v' = true) :
    (s.attach cfg v isWebsocket).2.hasRoom cfg v' = true := by
  obtain ⟨-, hlength⟩ := sockets_put hsockets v.wsi (s.attach cfg v isWebsocket).1
  have hlookup : (s.attach cfg v isWebsocket).2.lookup v'.wsi =
      if v'.wsi = v.wsi then some (s.attach cfg v isWebsocket).1 else s.lookup v'.wsi :=
    s.lookup_put v.wsi _ v'.wsi
  have hconns : (s.attach cfg v isWebsocket).2.conns.length =
      if (s.lookup v.wsi).isSome then s.conns.length else s.conns.length + 1 := hlength
  have hslots : (s.attach cfg v isWebsocket).2.peerSlots = s.peerSlots.acquire v.wsi v.peer := rfl
  obtain ⟨hplaces, hpeers⟩ := hspares
  unfold hasRoom PeerSlots.admits at h ⊢
  rw [hconns, hslots, PeerSlots.holds_acquire]
  simp only [Bool.and_eq_true, Bool.or_eq_true, decide_eq_true_eq] at h ⊢
  constructor
  · rw [hlookup]
    split
    · exact .inl rfl
    -- a place: its own, or one that is free and stays so
    · rcases h.1 with hplace | hfree
      · exact .inl hplace
      · rcases hplaces with hold | hplace | hboth
        · exact .inr (by rwa [if_pos hold])
        · exact .inl hplace
        · right
          split
          · exact hfree
          · push_cast
            exact hboth
  · rcases h.2 with hslot | hfree
    · exact .inl (.inl hslot)
    · cases hholds : s.peerSlots.holds v.wsi with
      | true =>
          rw [PeerSlots.acquire_of_holds hholds]
          exact .inr hfree
      | false =>
          rw [hholds] at hpeers
          rw [PeerSlots.count_acquire hholds]
          rcases hpeers with hcase | hslot | hother | hboth
          · cases hcase
          · exact .inl (.inl hslot)
          · rw [if_neg (Ne.symm hother), add_zero]
            exact .inr hfree
          · right
            split
            · rename_i hsame
              rwa [hsame]
            · rwa [add_zero]

theorem hasRoom_detach (hbounded : s.Bounded cfg) {wsi : Nat} (hne : v.wsi ≠ wsi)
    (h : s.hasRoom cfg v = true) : (s.detach wsi).server.hasRoom cfg v = true := by
  have hslots : (s.detach wsi).server.peerSlots = s.peerSlots.release wsi := by
    unfold detach
    dsimp only
    split <;> rfl
  refine hasRoom_mono ?_ ?_ ?_ ?_ h
  · rw [lookup_detach, if_neg hne]
    exact id
  · unfold detach
    dsimp only
    split
    · exact Nat.le_refl _
    · exact List.length_filter_le _ _
  · rw [hslots, PeerSlots.holds_release hne]
    exact id
  · obtain ⟨hreleased, hheld⟩ := hbounded.slots.release wsi
    rw [hslots, hreleased.counted, hbounded.slots.counted]
    exact_mod_cast hheld v.peer

/-- A callback leaves other sockets the room they have, if what it attaches spares it. -/
theorem hasRoom_alters {cb : Callback} {v' : Lws} (hbounded : s.Bounded cfg)
    (halters : Alters cfg checkBearer s v cb t) (hne : v'.wsi ≠ v.wsi)
    (hspares : cb.opens cfg checkBearer v.headers = true → s.Spares cfg v v')
    (h : s.hasRoom cfg v' = true) : t.hasRoom cfg v' = true := by
  cases halters with
  | same _ => exact h
  | touches _ hc _ => rwa [hasRoom_put hbounded.sockets hc]
  | asks _ _ _ => rwa [hasRoom_requestClose]
  | touchesAsks _ hc _ _ => rwa [hasRoom_requestClose, hasRoom_put hbounded.sockets hc]
  | @opens isWebsocket c hopens _ _ _ _ =>
      have hattached := hasRoom_attach hbounded.sockets (hspares hopens) isWebsocket h
      have hlookup : (s.attach cfg v isWebsocket).2.lookup v.wsi =
          some (s.attach cfg v isWebsocket).1 :=
        (s.lookup_put v.wsi _ v.wsi).trans (if_pos rfl)
      have hsockets : ((s.attach cfg v isWebsocket).2.conns.map Prod.fst).Nodup :=
        (sockets_put hbounded.sockets v.wsi _).1
      rwa [hasRoom_put hsockets hlookup]
  | closes _ => exact hasRoom_detach hbounded hne h

/-- The look that an upgrade passes. -/
theorem hasRoom_of_filter (h : (s.filterProtocolConnection cfg checkBearer v).ret = 0) :
    s.hasRoom cfg v = true := by
  unfold filterProtocolConnection at h
  split at h
  · cases h
  · split at h
    · cases h
    · dsimp only at h
      split at h
      · assumption
      · cases h

theorem server_filter : (s.filterProtocolConnection cfg checkBearer v).server = s := by
  unfold filterProtocolConnection
  split_ifs <;> rfl

end WsServer

/-! ## Upgrades

Between the look and `ESTABLISHED` the socket is in a phase of its own, by which the invariant
knows it. -/

/-- The upgrade of the socket has passed the look, and the socket is not attached yet. -/
def Phase.isUpgrading : Phase → Bool
  | .upgrading _ => true
  | _ => false

theorem upgrading_of_established {p : Phase} (h : p.delivers .established = true) :
    p.isUpgrading = true := by
  cases p with
  | upgrading _ => rfl
  | _ => cases h

/-- Only the look begins an upgrade. -/
theorem filter_of_upgrading {p p' : Phase} {cb : Callback} {o : Outcome}
    (hdelivers : p.delivers cb = true) (hafter : p.after cb o = some p')
    (hup : p'.isUpgrading = true) : cb = .filterProtocolConnection ∧ o.ret = 0 := by
  rcases Phase.after_cases hafter with rfl | rfl | ⟨hret, -, rfl⟩
  · cases hup
  · cases hup
  · refine ⟨?_, hret⟩
    cases cb with
    | filterProtocolConnection => rfl
    | closedHttp | closed =>
        rw [← Option.some.inj hafter] at hup
        cases hup
    | wsiDestroy => cases hafter
    | _ =>
        -- in the phases where such a callback comes, it ends the upgrade or begins none
        cases p <;> first | exact absurd hdelivers Bool.false_ne_true | exact absurd hup Bool.false_ne_true

/-! ## Runs

An attachment that is an upgrade had room when it was looked at, and the sockets attached since
have spared it; one that is an HTTP request has to find room by the guard. -/

/-- An HTTP request that is answered with a connection finds room for it; and what is attached, for
an HTTP request or for an upgrade, leaves room for the other sockets whose upgrade has passed the
look. -/
def roomy (cfg : BridgeConfig) (checkBearer : Option (Bytes → Bool)) :
    Interleaving.Guard World Empty Unit Event where
  run _ _ _ _ := True
  enter w _ ev :=
    match ev with
    | .callback wsi cb _ => ∀ k, w.sockets wsi = some k →
      cb.opens cfg checkBearer k.phase.headers = true →
        (cb ≠ .established → w.server.hasRoom cfg (k.lws wsi) = true) ∧
        ∀ wsi' k', wsi' ≠ wsi → w.sockets wsi' = some k' → k'.phase.isUpgrading = true →
          w.server.Spares cfg (k.lws wsi) (k'.lws wsi')
    | _ => True

/-- The bounds hold, and there is still room for every socket whose upgrade has passed the look. -/
structure Reserved (cfg : BridgeConfig) (w : World) : Prop where
  bounded : w.server.Bounded cfg
  waiting : ∀ wsi k, w.sockets wsi = some k → k.phase.isUpgrading = true →
    w.server.hasRoom cfg (k.lws wsi) = true

theorem Reserved.deliver {w : World} {wsi : Nat} {k : Socket} {cb : Callback} (h : Reserved cfg w)
    (hk : w.sockets wsi = some k) (hdelivers : k.phase.delivers cb = true) (a : Answers)
    {p : Multiset Empty} (hroomy : (roomy cfg checkBearer).enter w p (.callback wsi cb a)) :
    Reserved cfg (w.deliver cfg checkBearer wsi k cb a) := by
  have halters := alters_dispatch cfg checkBearer w.server (k.lws wsi) a cb
  constructor
  · -- an upgrade has its room from the look, an HTTP request from the condition
    refine h.bounded.alters halters fun hopens => ?_
    by_cases hcb : cb = .established
    · subst hcb
      exact h.waiting wsi k hk (upgrading_of_established hdelivers)
    · exact (hroomy k hk hopens).1 hcb
  · intro i k' hk' hup
    have hk' : (if i = wsi then (k.phase.after cb
        (w.server.dispatch cfg checkBearer (k.lws wsi) a cb)).map fun p => { k with phase := p }
        else w.sockets i) = some k' := hk'
    show (w.server.dispatch cfg checkBearer (k.lws wsi) a cb).server.hasRoom cfg (k'.lws i) = true
    split at hk'
    · rename_i hi
      subst hi
      obtain ⟨phase, hafter, rfl⟩ := Option.map_eq_some_iff.mp hk'
      obtain ⟨rfl, hret⟩ := filter_of_upgrading hdelivers hafter hup
      have hlook : w.server.hasRoom cfg (k.lws i) = true := WsServer.hasRoom_of_filter hret
      have hsame : (w.server.dispatch cfg checkBearer (k.lws i) a
          .filterProtocolConnection).server = w.server := WsServer.server_filter
      rw [hsame]
      exact hlook
    · rename_i hi
      refine WsServer.hasRoom_alters h.bounded halters hi (fun hopens => ?_) (h.waiting i k' hk' hup)
      exact (hroomy k hk hopens).2 i k' hi hk' hup

/-- Setting the phase of a socket outside an upgrade. -/
theorem Reserved.setSocket {w : World} {wsi : Nat} {k : Socket} (h : Reserved cfg w)
    (hk : k.phase.isUpgrading = false) : Reserved cfg (w.setSocket wsi (some k)) where
  bounded := h.bounded
  waiting i k' hk' hup := by
    have hk' : (if i = wsi then some k else w.sockets i) = some k' := hk'
    split at hk'
    · cases hk'
      rw [hk] at hup
      cases hup
    · exact h.waiting i k' hk' hup

theorem reserved_step {w w' : World} {ev : Event} {p : Multiset Empty}
    (h : Reserved cfg w) (hroomy : (roomy cfg checkBearer).enter w p ev)
    (hstep : w.step cfg checkBearer ev = some w') : Reserved cfg w' := by
  cases ev with
  | connect wsi peer h2Stream =>
      simp only [World.step] at hstep
      split at hstep <;> cases hstep
      exact h.setSocket rfl
  | headers wsi hd =>
      simp only [World.step] at hstep
      split at hstep <;> cases hstep
      exact h.setSocket rfl
  | callback wsi cb a =>
      simp only [World.step] at hstep
      split at hstep
      · cases hstep
      · rename_i k hk
        split at hstep
        · rename_i hdelivers
          cases hstep
          exact h.deliver hk hdelivers a hroomy
        · cases hstep
  | woken =>
      cases hstep
      refine ⟨h.bounded.congr rfl rfl, fun i k hk hup => ?_⟩
      exact (WsServer.hasRoom_congr rfl rfl rfl).trans (h.waiting i k hk hup)
  | send id frame =>
      cases hstep
      refine ⟨h.bounded.send id frame, fun i k hk hup => ?_⟩
      exact (WsServer.hasRoom_send id frame).trans (h.waiting i k hk hup)
  | requestClose id why =>
      cases hstep
      refine ⟨h.bounded.requestClose id why, fun i k hk hup => ?_⟩
      exact (WsServer.hasRoom_requestClose id why).trans (h.waiting i k hk hup)

/-- **The bounds on connections hold** in every run in which HTTP requests find room, and nothing
that is attached takes the room of an upgrade that has passed the look. -/
theorem bounded_of_run (lib : Nlohmann) (own text : Bytes) (cfg : BridgeConfig)
    (hcfg : parseBridgeConfig lib own text = .ok cfg) (checkBearer : Option (Bytes → Bool))
    (s : Interleaving.State World Empty)
    (hrun : Interleaving.Run (transport cfg checkBearer) (roomy cfg checkBearer) start s) :
    (s.shared.server.conns.length : Int) ≤ cfg.limits.maxConnections ∧
      ∀ peer, (s.shared.server.peerSlots.heldBy peer : Int) ≤ cfg.limits.maxConnectionsPerPeer := by
  have hpositive := (accepted_of_parse hcfg).positive
  have hempty : WsServer.Bounded cfg {} := by
    refine ⟨List.nodup_nil, ?_, PeerSlots.counted_empty, fun peer => ?_⟩
    · exact Int.le_of_lt (hpositive (str "max_connections", cfg.limits.maxConnections) (by simp [Limits.named]))
    · exact Int.le_of_lt (hpositive (str "max_connections_per_peer", cfg.limits.maxConnectionsPerPeer)
        (by simp [Limits.named]))
  have hstart : Reserved cfg {} := ⟨hempty, fun _ _ hk => by cases hk⟩
  have hreserved := transport_invariant cfg checkBearer (I := fun w => Reserved cfg w) hstart
    (fun h hroomy hstep => reserved_step h hroomy hstep) hrun
  exact ⟨hreserved.bounded.conns, hreserved.bounded.peers⟩

/-! ## Runs that are exhibited

The condition asks about every socket. To evaluate it, the sockets of a run are kept in a list. -/

/-- The sockets are those of the list. -/
def World.Among (w : World) (sockets : List Nat) : Prop := ∀ wsi ∉ sockets, w.sockets wsi = none

/-- Whether `roomy` admits an event, where the sockets are those of the list. -/
def roomyAmong (cfg : BridgeConfig) (checkBearer : Option (Bytes → Bool)) (sockets : List Nat)
    (s : Interleaving.State World Empty) : Interleaving.Move Unit Event → Bool
  | .enter (.connect wsi _ _) => sockets.contains wsi
  | .enter (.callback wsi cb _) =>
    match s.shared.sockets wsi with
    | none => true
    | some k =>
      !cb.opens cfg checkBearer k.phase.headers ||
        (match cb with
          | .established => true
          | _ => s.shared.server.hasRoom cfg (k.lws wsi)) &&
        sockets.all fun wsi' =>
          wsi' == wsi || (s.shared.sockets wsi').all fun k' =>
            !k'.phase.isUpgrading || decide (s.shared.server.Spares cfg (k.lws wsi) (k'.lws wsi'))
  | _ => true

theorem admits_of_roomyAmong {sockets : List Nat} {s : Interleaving.State World Empty}
    {m : Interleaving.Move Unit Event} (hamong : s.shared.Among sockets)
    (h : roomyAmong cfg checkBearer sockets s m = true) : (roomy cfg checkBearer).Admits s m := by
  cases m with
  | run i c => exact fun _ _ => trivial
  | enter ev =>
      cases ev with
      | callback wsi cb a =>
          intro k hk hopens
          simp only [roomyAmong, hk, hopens, Bool.not_true, Bool.false_or, Bool.and_eq_true,
            List.all_eq_true] at h
          obtain ⟨hroom, hspares⟩ := h
          refine ⟨fun hcb => ?_, fun wsi' k' hne hk' hup => ?_⟩
          · cases cb with
            | established => exact absurd rfl hcb
            | _ => exact hroom
          · have hmem : wsi' ∈ sockets := by
              by_contra hout
              cases (hamong wsi' hout).symm.trans hk'
            have hspared := hspares wsi' hmem
            rw [beq_false_of_ne hne, Bool.false_or, hk', Option.all_some, hup, Bool.not_true,
              Bool.false_or] at hspared
            exact of_decide_eq_true hspared
      | _ => trivial

theorem among_step {sockets : List Nat} {s s' : Interleaving.State World Empty}
    {m : Interleaving.Move Unit Event} (hamong : s.shared.Among sockets)
    (h : roomyAmong cfg checkBearer sockets s m = true)
    (hstep : (transport cfg checkBearer).step s m = some s') : s'.shared.Among sockets := by
  have hset (w : World) (hw : w.Among sockets) (wsi : Nat) (k : Option Socket)
      (hmem : k.isSome = true → wsi ∈ sockets) : (w.setSocket wsi k).Among sockets := by
    intro i hi
    show (if i = wsi then k else w.sockets i) = none
    split
    · rename_i hsame
      rw [← Option.not_isSome_iff_eq_none]
      exact fun hk => hi (hsame ▸ hmem hk)
    · exact hw i hi
  obtain ⟨i, c, rfl⟩ | ⟨ev, rfl⟩ : (∃ i c, m = .run i c) ∨ ∃ ev, m = .enter ev := by
    cases m with
    | run i c => exact .inl ⟨i, c, rfl⟩
    | enter ev => exact .inr ⟨ev, rfl⟩
  · obtain ⟨a, -⟩ := Interleaving.Program.step_run hstep
    exact a.elim
  obtain ⟨e, he, hshared, -⟩ := Interleaving.Program.step_enter hstep
  obtain ⟨w', hw, rfl⟩ := Option.map_eq_some_iff.mp he
  rw [hshared]
  -- only `connect` brings a socket that was not there, and the guard has looked at it
  cases ev with
  | connect wsi peer h2Stream =>
      simp only [World.step] at hw
      split at hw <;> cases hw
      exact hset _ hamong _ _ fun _ => by simpa [roomyAmong] using h
  | headers wsi hd =>
      simp only [World.step] at hw
      split at hw <;> cases hw
      rename_i hk
      refine hset _ hamong _ _ fun _ => ?_
      by_contra hout
      cases (hamong wsi hout).symm.trans hk
  | callback wsi cb a =>
      simp only [World.step] at hw
      split at hw
      · cases hw
      · rename_i k hk
        split at hw <;> cases hw
        refine hset _ hamong _ _ fun _ => ?_
        by_contra hout
        cases (hamong wsi hout).symm.trans hk
  | woken | send _ _ | requestClose _ _ =>
      cases hw
      exact hamong

/-- A peer opens socket `wsi`, and the headers of a request are read on it. -/
def asksOn (wsi : Nat) : List (Interleaving.Move Unit Event) :=
  [.enter (.connect wsi (str "127.0.0.1") false),
   .enter (.headers wsi { host := str "localhost" })]

/-- A peer opens socket `wsi` and asks for a page on it. -/
def getOn (wsi : Nat) : List (Interleaving.Move Unit Event) :=
  asksOn wsi ++ [.enter (.callback wsi (.http none) {})]

/-- Six `GET`s of one peer hold six slots. Two upgrades of it pass the look together, and are
attached; a third does not pass, for want of a slot, until one of the `GET`s is over. -/
def eightMoves : List (Interleaving.Move Unit Event) :=
  (List.range 6).flatMap getOn ++ asksOn 6 ++ asksOn 7 ++ asksOn 8 ++ asksOn 9 ++
    [.enter (.callback 6 .filterProtocolConnection {}),
     .enter (.callback 7 .filterProtocolConnection {}),
     .enter (.callback 7 .established {}), .enter (.callback 6 .established {}),
     .enter (.callback 8 .filterProtocolConnection {}),
     .enter (.callback 0 .closedHttp {}),
     .enter (.callback 9 .filterProtocolConnection {}), .enter (.callback 9 .established {})]

/-- Eight sockets of one peer, three of them WebSockets. -/
theorem bounded_of_run_eight : ∃ s,
    Interleaving.Run (transport minimalConfig none) (roomy minimalConfig none) start s ∧
    s.shared.server.peerSlots.heldBy (str "127.0.0.1") = 8 ∧
    s.shared.server.conns.countP (fun e => e.2.isWebsocket) = 3 ∧
    (s.shared.server.conns.length : Int) ≤ 128 ∧
    ∀ peer, (s.shared.server.peerSlots.heldBy peer : Int) ≤ 8 := by
  have hmoves : ((transport minimalConfig none).replayIf
      (roomyAmong minimalConfig none (List.range 10)) start eightMoves).map
      (fun s => (s.shared.server.peerSlots.heldBy (str "127.0.0.1"),
        s.shared.server.conns.countP (fun e => e.2.isWebsocket))) = some (8, 3) := by
    decide +kernel
  obtain ⟨s, hs, hend⟩ := Option.map_eq_some_iff.mp hmoves
  obtain ⟨hheld, hwebsockets⟩ := Prod.mk.inj hend
  have hrun := Interleaving.Run.start.replayIf_with (fun _ _ => admits_of_roomyAmong)
    (fun _ _ _ => among_step) (fun _ _ => rfl) hs
  have hbounds := bounded_of_run minimalLib (str "json_rpc_bridge") minimalText minimalConfig
    parse_minimal none s hrun
  exact ⟨s, hrun, hheld, hwebsockets, hbounds.1, hbounds.2⟩

/-- Nine are let in as well: an HTTP request attaches without a look at the bounds. -/
theorem not_bounded_nineGets :
    parseBridgeConfig minimalLib (str "json_rpc_bridge") minimalText = .ok minimalConfig ∧
    ¬∀ s, Interleaving.Run (transport minimalConfig none) Interleaving.Guard.any start s →
      ∀ peer, (s.shared.server.peerSlots.heldBy peer : Int) ≤
        minimalConfig.limits.maxConnectionsPerPeer := by
  refine ⟨parse_minimal, fun hall => ?_⟩
  have hmoves : ((transport minimalConfig none).replay start ((List.range 9).flatMap getOn)).map
      (fun s => s.shared.server.peerSlots.heldBy (str "127.0.0.1")) = some 9 := by rfl
  obtain ⟨s, hs, hheld⟩ := Option.map_eq_some_iff.mp hmoves
  have hbound := hall s (Interleaving.Run.replay .start hs) (str "127.0.0.1")
  rw [hheld] at hbound
  exact absurd hbound (by decide)

end JsonRpcBridge.Server
