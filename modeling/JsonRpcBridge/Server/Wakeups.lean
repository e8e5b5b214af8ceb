import JsonRpcBridge.Server.Bounds
import JsonRpcBridge.Server.Service

/-!
# No frame is stranded

* `Awake` is the invariant: an open WebSocket with a frame to write, or one to be closed, is owed a
  writeable callback, or somebody is on the way to ask for one.
* `no_frame_stranded`: so when nothing is under way any more, lws owes every such socket its callback.
  The service thread names a socket that lws has freed only if a call of `send` or `requestClose` put
  it into `m_pending` after its connection had left the table.
-/

namespace JsonRpcBridge.Server

open Interleaving

variable {cfg : BridgeConfig} {checkBearer : Option (Bytes → Bool)}

/-! ## The table

A socket is in the table once, so that the connection found for it is the one that is asked
about. -/

theorem nodup_update {s : WsServer} (h : (s.conns.map Prod.fst).Nodup) (id : Nat) (f : Conn → Conn) :
    ((s.update id f).conns.map Prod.fst).Nodup := by
  rw [WsServer.update, List.map_map]
  exact h

theorem nodup_requestClose {s : WsServer} (h : (s.conns.map Prod.fst).Nodup) (id : Nat)
    (why : CloseReason) : ((s.requestClose id why).conns.map Prod.fst).Nodup := by
  unfold WsServer.requestClose
  dsimp only
  have hupdate := nodup_update h id fun c => { c with wantClose := why }
  split
  · exact hupdate
  · exact hupdate

/-- Each socket stands once in the table. -/
theorem Alters.nodup {s t : WsServer} {v : Lws} {cb : Callback} (h : Alters cfg checkBearer s v cb t)
    (hs : (s.conns.map Prod.fst).Nodup) : (t.conns.map Prod.fst).Nodup := by
  cases h with
  | same _ => exact hs
  | touches _ _ _ => exact (WsServer.sockets_put hs _ _).1
  | asks _ _ _ => exact nodup_requestClose hs _ _
  | touchesAsks _ _ _ _ => exact nodup_requestClose (WsServer.sockets_put hs _ _).1 _ _
  | opens _ _ _ _ _ => exact (WsServer.sockets_put (WsServer.sockets_put hs _ _).1 _ _).1
  | closes _ =>
      unfold WsServer.detach
      dsimp only
      split
      · exact hs
      · exact hs.sublist (List.filter_sublist.map _)

/-- The search finds the socket of a connection that is in the table. -/
theorem socketOf_of_lookup {w : World} (hwired : Wired w) (hnodup : (w.server.conns.map Prod.fst).Nodup)
    {wsi : Nat} {c : Conn} (hc : w.server.lookup wsi = some c) :
    w.server.socketOf c.id = some wsi := by
  unfold WsServer.socketOf
  have hmem : (wsi, c) ∈ w.server.conns := List.mem_of_lookup hc
  have hfound : (w.server.conns.find? fun e => e.2.id == c.id).isSome = true :=
    List.find?_isSome.mpr ⟨(wsi, c), hmem, beq_self_eq_true c.id⟩
  obtain ⟨e, he⟩ := Option.isSome_iff_exists.mp hfound
  rw [he, Option.map_some]
  have hid := List.find?_some he
  have hlookup : w.server.lookup e.1 = some e.2 :=
    List.lookup_of_mem hnodup (List.mem_of_find?_eq_some he)
  have htag : ∀ {i : Nat} {d : Conn}, w.server.lookup i = some d → w.server.tag i = some d.tag := by
    intro i d hd
    rw [WsServer.tag, hd]
    rfl
  exact congrArg some (hwired.distinct e.1 wsi _ _ (htag hlookup) (htag hc) (beq_iff_eq.mp hid))

/-- A callback changes no connection but that of its own socket. -/
theorem lookup_dispatch_other {w : World} (hwired : Wired w) (v : Lws) (a : Answers) (cb : Callback)
    {i : Nat} (hi : i ≠ v.wsi) :
    (w.server.dispatch cfg checkBearer v a cb).server.lookup i = w.server.lookup i := by
  have hasks : ∀ (t : WsServer) (c : Conn) (why : CloseReason), t.lookup i = w.server.lookup i →
      w.server.lookup v.wsi = some c → (t.requestClose c.id why).lookup i = w.server.lookup i := by
    intro t c why ht hc
    rw [WsServer.lookup_requestClose, ht]
    cases hd : w.server.lookup i with
    | none => rfl
    | some d =>
        have hne : d.id ≠ c.id := by
          intro hid
          apply hi
          apply hwired.distinct i v.wsi d.tag c.tag
          · rw [WsServer.tag, hd]
            rfl
          · rw [WsServer.tag, hc]
            rfl
          · exact hid
        rw [Option.map_some, if_neg hne]
  have halters := alters_dispatch cfg checkBearer w.server v a cb
  generalize (w.server.dispatch cfg checkBearer v a cb).server = t at halters
  cases halters with
  | same _ => rfl
  | touches _ _ _ => rw [WsServer.lookup_put, if_neg hi]
  | asks _ hc _ => exact hasks _ _ _ rfl hc
  | touchesAsks _ hc _ _ =>
      apply hasks _ _ _ _ hc
      rw [WsServer.lookup_put, if_neg hi]
  | opens _ _ _ _ _ => rw [WsServer.lookup_attach, if_neg hi]
  | closes _ => rw [WsServer.lookup_detach, if_neg hi]

/-! ## A socket that has something to do

`Busy` is what the writeable callback would act on. -/

/-- There is a frame to write, or the connection is to be closed. -/
def Conn.Busy (c : Conn) : Prop := c.outbound ≠ [] ∨ c.partialFrame ≠ [] ∨ c.wantClose ≠ .none

/-- The writeable callback of a WebSocket writes the last frame, or asks to be called again. -/
theorem rearms_serverWriteable {s : WsServer} {v : Lws} {a : Answers} {c : Conn}
    (hret : (s.serverWriteable v a).ret = 0) (hc : (s.serverWriteable v a).server.lookup v.wsi = some c)
    (hbusy : c.Busy) : (s.serverWriteable v a).rearms v.wsi .serverWriteable = true := by
  -- a frame was written: whatever is left, of it or behind it, is asked for at once
  have hwrite : ∀ {b : Conn} {frame : Bytes} {offset : Nat}, b.wantClose = .none →
      (s.writeFrame v a b frame offset).ret = 0 →
      (s.writeFrame v a b frame offset).server.lookup v.wsi = some c →
      (s.writeFrame v a b frame offset).rearms v.wsi .serverWriteable = true := by
    intro b frame offset hopen hret hc
    unfold Outcome.rearms
    unfold WsServer.writeFrame at hret hc ⊢
    cases hw : a.wrote with
    | none =>
        rw [hw] at hret
        cases hret
    | some n =>
        rw [hw] at hc
        dsimp only at hc ⊢
        have hkeep : (b.keep frame offset n).wantClose = .none := by
          unfold Conn.keep
          split
          · exact hopen
          · exact hopen
        rw [WsServer.lookup_put, if_pos rfl] at hc ⊢
        obtain rfl := Option.some.inj hc
        rcases hbusy with hqueue | hhalf | hclose
        · simp [hqueue]
        · simp [hhalf]
        · exact absurd hkeep hclose
  unfold WsServer.serverWriteable at hret hc ⊢
  split at hc
  · rename_i hnone
    rw [hnone] at hc
    cases hc
  · rename_i b hb
    simp only [hb] at hret ⊢
    split at hc
    · rename_i hclose
      rw [if_pos hclose] at hret
      cases hret
    · rename_i hclose
      rw [if_neg hclose] at hret ⊢
      have hopen : b.wantClose = .none := by simpa using hclose
      rw [writeQueued_eq] at hret hc ⊢
      split at hc
      · rename_i hheld
        rw [if_pos hheld] at hret ⊢
        exact hwrite hopen hret hc
      · rename_i hheld
        rw [if_neg hheld] at hret ⊢
        cases hqueue : b.outbound with
        | nil =>
            rw [hqueue] at hc
            obtain rfl := Option.some.inj (hb.symm.trans hc)
            -- nothing was left to write, so the connection was not busy
            rcases hbusy with hne | hne | hne
            · exact absurd hqueue hne
            · exact absurd hne (by simpa using hheld)
            · exact absurd hopen hne
        | cons frame rest =>
            simp only [hqueue] at hret hc ⊢
            exact hwrite (b := { b with outbound := rest }) hopen hret hc

/-! ## The invariant

What is owed to a socket is with lws, in `m_pending`, or with a caller that has still to put the socket
there; and while `m_pending` is not empty the service thread has been woken, or is about to be. -/

/-- Somebody is on the way to the socket `wsi`, whose connection is `id`. -/
def Service.Served (s : Service) (p : Multiset Caller) (wsi id : Nat) : Prop :=
  wsi ∈ s.writable ∨ wsi ∈ s.world.server.pending ∨ .insert wsi ∈ p ∨ .findClosing id ∈ p

/-- A WebSocket is open on `wsi`, and `c` is its connection. -/
def World.Open (w : World) (wsi : Nat) (c : Conn) : Prop :=
  ∃ k h, w.sockets wsi = some k ∧ k.phase = .websocket h ∧ w.server.lookup wsi = some c

/-- What holds after every event and every section of a caller. -/
structure Awake (s : Service) (p : Multiset Caller) : Prop where
  wired : Wired s.world
  nodup : (s.world.server.conns.map Prod.fst).Nodup
  placed : ∀ id wsi frame, .enqueue id wsi frame ∈ p → id < s.world.server.nextConnId ∧
    ∀ i e, s.world.server.tag i = some e → e.1 = id → i = wsi
  woken : s.world.server.pending ≠ [] → s.cancelled = true ∨ .cancel ∈ p
  served : ∀ wsi c, s.world.Open wsi c → c.Busy → s.Served p wsi c.id
  known : ∀ i ∈ s.world.server.pending, (s.world.server.tag i).isSome = true ∨ i ∈ s.overtaken
  stray : ∀ i ∈ s.stray, i ∈ s.overtaken

theorem awake_start : Awake {} 0 where
  wired := wired_start
  nodup := List.nodup_nil
  placed _ _ _ h := absurd h (Multiset.notMem_zero _)
  woken h := absurd rfl h
  served _ _ h := by
    obtain ⟨k, _, hk, _⟩ := h
    cases hk
  known _ h := absurd h List.not_mem_nil
  stray _ h := absurd h List.not_mem_nil

section Sections

variable {s : Service} {p q : Multiset Caller}

/-! ### The sections of a caller -/

theorem tag_of_lookup {t : WsServer} {i : Nat} {c : Conn} (h : t.lookup i = some c) :
    t.tag i = some c.tag := by
  rw [WsServer.tag, h]
  rfl

theorem tag_update (t : WsServer) {id : Nat} {f : Conn → Conn} (hf : ∀ c, (f c).tag = c.tag) (i : Nat) :
    (t.update id f).tag i = t.tag i := by
  rw [WsServer.tag, WsServer.tag, WsServer.lookup_update, Option.map_map]
  congr 1
  funext c
  rw [Function.comp_apply]
  split
  · exact hf c
  · rfl

/-- A connection that is changed under its own lock stays where it is. -/
theorem Awake.update (h : Awake s p) {id : Nat} {f : Conn → Conn} (hf : ∀ c, (f c).tag = c.tag)
    (hp : ∀ i w frame, .enqueue i w frame ∈ q → .enqueue i w frame ∈ p)
    (hcancel : .cancel ∈ p → .cancel ∈ q)
    (hserved : ∀ wsi c, s.world.Open wsi c → c.id ≠ id → s.Served p wsi c.id → s.Served q wsi c.id)
    (hself : ∀ wsi c, s.world.Open wsi c → c.id = id → s.Served q wsi id) :
    Awake (s.withServer (s.world.server.update id f)) q where
  wired := h.wired.congr (tag_update _ hf) rfl rfl
  nodup := nodup_update h.nodup id f
  placed i wsi frame hmem := by
    obtain ⟨hlt, hat⟩ := h.placed i wsi frame (hp i wsi frame hmem)
    refine ⟨hlt, fun j e hj => hat j e ?_⟩
    exact (tag_update _ hf j).symm.trans hj
  woken hne := (h.woken hne).imp_right hcancel
  served wsi c hopen hbusy := by
    obtain ⟨k, hd, hk, hphase, hc⟩ := hopen
    have hc : (s.world.server.update id f).lookup wsi = some c := hc
    rw [WsServer.lookup_update] at hc
    obtain ⟨b, hb, hbc⟩ := Option.map_eq_some_iff.mp hc
    have hopen : s.world.Open wsi b := ⟨k, hd, hk, hphase, hb⟩
    by_cases hid : b.id = id
    · rw [if_pos hid] at hbc
      have htag : c.id = b.id := by
        rw [← hbc]
        exact congrArg Prod.fst (hf b)
      rw [htag, hid]
      exact hself wsi b hopen hid
    · rw [if_neg hid] at hbc
      subst hbc
      exact hserved wsi b hopen hid (h.served wsi b hopen hbusy)
  known i hi := by
    have hi : i ∈ s.world.server.pending := hi
    refine (h.known i hi).imp_left fun htag => ?_
    exact (congrArg Option.isSome (tag_update _ hf i)).trans htag
  stray := h.stray

/-- What is on the way stays on the way when another section runs. -/
theorem Service.Served.mono {x : Caller} {wsi id : Nat} (h : s.Served (x ::ₘ p) wsi id)
    (hinsert : x ≠ .insert wsi) (hfind : x ≠ .findClosing id) (hpq : ∀ y ∈ p, y ∈ q) :
    s.Served q wsi id := by
  rcases h with h | h | h | h
  · exact .inl h
  · exact .inr (.inl h)
  · exact .inr (.inr (.inl (hpq _ ((Multiset.mem_cons.mp h).resolve_left (Ne.symm hinsert)))))
  · exact .inr (.inr (.inr (hpq _ ((Multiset.mem_cons.mp h).resolve_left (Ne.symm hfind)))))

/-- A section that leaves the state alone. -/
theorem Awake.next (h : Awake s p)
    (hplaced : ∀ id wsi frame, .enqueue id wsi frame ∈ q → .enqueue id wsi frame ∈ p ∨
      s.world.server.socketOf id = some wsi)
    (hcancel : .cancel ∈ p → .cancel ∈ q)
    (hserved : ∀ wsi c, s.world.Open wsi c → s.Served p wsi c.id → s.Served q wsi c.id) :
    Awake s q := by
  refine { h with placed := ?_, woken := ?_, served := ?_ }
  · intro id wsi frame hmem
    rcases hplaced id wsi frame hmem with hold | hfound
    · exact h.placed id wsi frame hold
    · -- the search has just seen the connection in the table
      obtain ⟨e, he, hwsi⟩ := Option.map_eq_some_iff.mp hfound
      have hid : (e.2.id == id) = true := by simpa using List.find?_some he
      have hc : s.world.server.lookup e.1 = some e.2 :=
        List.lookup_of_mem h.nodup (List.mem_of_find?_eq_some he)
      have htag := tag_of_lookup hc
      have hid := beq_iff_eq.mp hid
      subst hid hwsi
      exact ⟨h.wired.numbered _ _ htag, fun i e' he' heq => h.wired.distinct _ _ _ _ he' htag heq⟩
  · exact fun hne => (h.woken hne).imp_right hcancel
  · exact fun wsi c hopen hbusy => hserved wsi c hopen (h.served wsi c hopen hbusy)

theorem Awake.insert {wsi : Nat} (h : Awake s (.insert wsi ::ₘ p)) :
    Awake (s.exec cfg (.insert wsi)).shared (.cancel ::ₘ p) where
  wired := h.wired.congr (fun _ => rfl) rfl rfl
  nodup := h.nodup
  placed id i frame hmem := by
    have hmem := (Multiset.mem_cons.mp hmem).resolve_left (by rintro ⟨⟩)
    exact h.placed id i frame (Multiset.mem_cons_of_mem hmem)
  woken _ := .inr (Multiset.mem_cons_self _ _)
  served i c hopen hbusy := by
    -- the socket is put into `m_pending` if it is not there, and the service thread is to be woken
    have hin : ∀ j, j = wsi ∨ j ∈ s.world.server.pending → j ∈ (s.world.server.wake wsi).pending := by
      intro j hj
      unfold WsServer.wake
      dsimp only
      split
      · rename_i hthere
        rcases hj with rfl | hj
        · exact hthere
        · exact hj
      · exact List.mem_cons.mpr hj
    rcases h.served i c hopen hbusy with hw | hp | hi | hf
    · exact .inl hw
    · exact .inr (.inl (hin i (.inr hp)))
    · rcases Multiset.mem_cons.mp hi with heq | hi
      · exact .inr (.inl (hin i (.inl (Caller.insert.inj heq))))
      · exact .inr (.inr (.inl (Multiset.mem_cons_of_mem hi)))
    · have hf := (Multiset.mem_cons.mp hf).resolve_left (by rintro ⟨⟩)
      exact .inr (.inr (.inr (Multiset.mem_cons_of_mem hf)))
  known i hi := by
    have hi : i ∈ (s.world.server.wake wsi).pending := hi
    have hcases : i = wsi ∨ i ∈ s.world.server.pending := by
      unfold WsServer.wake at hi
      dsimp only at hi
      split at hi
      · exact .inr hi
      · exact List.mem_cons.mp hi
    -- it may have closed meanwhile, and then it has overtaken its own detachment
    have hover : ∀ j ∈ s.overtaken, j ∈ (s.exec cfg (.insert wsi)).shared.overtaken := by
      intro j hj
      show j ∈ if _ then _ else _
      split
      · exact hj
      · exact List.mem_cons_of_mem _ hj
    rcases hcases with rfl | hold
    · cases hc : s.world.server.lookup i with
      | some c =>
          left
          show ((s.world.server.lookup i).map Conn.tag).isSome = true
          rw [hc]
          rfl
      | none =>
          right
          show i ∈ if (s.world.server.lookup i).isSome = true then _ else _
          rw [hc]
          exact List.mem_cons_self
    · exact (h.known i hold).imp_right (hover i)
  stray i hi := by
    show i ∈ if _ then _ else _
    split
    · exact h.stray i hi
    · exact List.mem_cons_of_mem _ (h.stray i hi)

theorem tag_offer (limit : Int) (c : Conn) (frame : Bytes) : (c.offer limit frame).1.tag = c.tag := by
  unfold Conn.offer
  split
  · rfl
  · rfl

theorem made_nothing (s : Service) (p : Multiset Caller) :
    ({ shared := s } : Effect Service Caller).made + p = p := Multiset.zero_add p

theorem made_one (s : Service) (x : Caller) (p : Multiset Caller) :
    ({ shared := s, next := [x] } : Effect Service Caller).made + p = x ::ₘ p :=
  Multiset.singleton_add x p

/-- A section of `send` or `requestClose` keeps the invariant. -/
theorem Awake.exec {x : Caller} (h : Awake s (x ::ₘ p)) :
    Awake (s.exec cfg x).shared ((s.exec cfg x).made + p) := by
  have hother : ∀ {y : Caller}, y ≠ x → y ∈ x ::ₘ p → y ∈ p :=
    fun hne hy => (Multiset.mem_cons.mp hy).resolve_left hne
  cases x with
  | find id frame =>
      simp only [Service.exec]
      cases hfound : s.world.server.socketOf id with
      | none =>
          rw [made_nothing]
          apply h.next
          · exact fun _ _ _ hmem => .inl (Multiset.mem_cons_of_mem hmem)
          · exact hother (by rintro ⟨⟩)
          · exact fun _ _ _ hs => hs.mono (by rintro ⟨⟩) (by rintro ⟨⟩) fun _ hy => hy
      | some wsi =>
          rw [made_one]
          apply h.next
          · intro i w f hmem
            rcases Multiset.mem_cons.mp hmem with heq | hold
            · cases heq
              exact .inr hfound
            · exact .inl (Multiset.mem_cons_of_mem hold)
          · exact fun hmem => Multiset.mem_cons_of_mem (hother (by rintro ⟨⟩) hmem)
          · exact fun _ _ _ hs => hs.mono (by rintro ⟨⟩) (by rintro ⟨⟩)
              fun _ hy => Multiset.mem_cons_of_mem hy
  | enqueue id wsi frame =>
      obtain ⟨_, hat⟩ := h.placed id wsi frame (Multiset.mem_cons_self _ _)
      simp only [Service.exec]
      rw [made_one]
      apply h.update fun c => tag_offer _ c frame
      · intro i w f hmem
        exact Multiset.mem_cons_of_mem ((Multiset.mem_cons.mp hmem).resolve_left (by rintro ⟨⟩))
      · exact fun hmem => Multiset.mem_cons_of_mem (hother (by rintro ⟨⟩) hmem)
      · exact fun _ _ _ _ hs => hs.mono (by rintro ⟨⟩) (by rintro ⟨⟩)
          fun _ hy => Multiset.mem_cons_of_mem hy
      · intro i c hopen hid
        obtain ⟨_, _, _, _, hc⟩ := hopen
        obtain rfl := hat i _ (tag_of_lookup hc) hid
        exact .inr (.inr (.inl (Multiset.mem_cons_self _ _)))
  | want id why =>
      simp only [Service.exec]
      rw [made_one]
      apply h.update (f := fun c => { c with wantClose := why }) fun _ => rfl
      · intro i w f hmem
        exact Multiset.mem_cons_of_mem ((Multiset.mem_cons.mp hmem).resolve_left (by rintro ⟨⟩))
      · exact fun hmem => Multiset.mem_cons_of_mem (hother (by rintro ⟨⟩) hmem)
      · exact fun _ _ _ _ hs => hs.mono (by rintro ⟨⟩) (by rintro ⟨⟩)
          fun _ hy => Multiset.mem_cons_of_mem hy
      · exact fun _ _ _ _ => .inr (.inr (.inr (Multiset.mem_cons_self _ _)))
  | findClosing id =>
      -- an open connection with this number is the one that the search finds
      have hfind : ∀ {wsi : Nat} {c : Conn}, s.world.Open wsi c → c.id = id →
          s.world.server.socketOf id = some wsi := by
        rintro wsi c ⟨_, _, _, _, hc⟩ rfl
        exact socketOf_of_lookup h.wired h.nodup hc
      simp only [Service.exec]
      cases hfound : s.world.server.socketOf id with
      | none =>
          rw [made_nothing]
          apply h.next
          · exact fun _ _ _ hmem => .inl (Multiset.mem_cons_of_mem hmem)
          · exact hother (by rintro ⟨⟩)
          · intro wsi c hopen hs
            refine hs.mono (by rintro ⟨⟩) ?_ fun _ hy => hy
            intro heq
            cases hfound.symm.trans (hfind hopen (Caller.findClosing.inj heq).symm)
      | some wsi =>
          rw [made_one]
          apply h.next
          · intro i w f hmem
            exact .inl (Multiset.mem_cons_of_mem
              ((Multiset.mem_cons.mp hmem).resolve_left (by rintro ⟨⟩)))
          · exact fun hmem => Multiset.mem_cons_of_mem (hother (by rintro ⟨⟩) hmem)
          · intro i c hopen hs
            by_cases hid : c.id = id
            · obtain rfl := Option.some.inj (hfound.symm.trans (hfind hopen hid))
              exact .inr (.inr (.inl (Multiset.mem_cons_self _ _)))
            · exact hs.mono (by rintro ⟨⟩) (fun heq => hid (Caller.findClosing.inj heq).symm)
                fun _ hy => Multiset.mem_cons_of_mem hy
  | insert wsi =>
      have hinsert : Awake (s.exec cfg (.insert wsi)).shared (.cancel ::ₘ _) := h.insert
      rwa [← made_one (s.exec cfg (.insert wsi)).shared] at hinsert
  | cancel =>
      simp only [Service.exec]
      rw [made_nothing]
      have hnext : Awake { s with cancelled := true } (.cancel ::ₘ p) :=
        { h with woken := fun _ => .inl rfl }
      refine { h with placed := ?_, woken := fun _ => .inl rfl, served := ?_ }
      · exact fun i w f hmem => h.placed i w f (Multiset.mem_cons_of_mem hmem)
      · intro wsi c hopen hbusy
        exact (hnext.served wsi c hopen hbusy).mono (by rintro ⟨⟩) (by rintro ⟨⟩) fun _ hy => hy

end Sections

/-! ## Callbacks

A callback that leaves something to be done asks for the writeable callback itself; nobody else
is asked to. -/

/-! ### What is pending -/

theorem mem_wake (t : WsServer) (wsi i : Nat) : i ∈ (t.wake wsi).pending ↔ i ∈ t.pending ∨ i = wsi := by
  unfold WsServer.wake
  dsimp only
  split
  · rename_i hthere
    refine ⟨.inl, ?_⟩
    rintro (hi | rfl)
    · exact hi
    · exact hthere
  · exact List.mem_cons.trans or_comm

theorem mem_requestClose {w : World} (hwired : Wired w) (hnodup : (w.server.conns.map Prod.fst).Nodup)
    {wsi : Nat} {c : Conn} (hc : w.server.lookup wsi = some c) (why : CloseReason) (i : Nat) :
    i ∈ (w.server.requestClose c.id why).pending ↔ i ∈ w.server.pending ∨ i = wsi := by
  let f : Conn → Conn := fun c => { c with wantClose := why }
  have hwired' : Wired { w with server := w.server.update c.id f } :=
    hwired.congr (tag_update w.server fun _ => rfl) rfl rfl
  have hc' : (w.server.update c.id f).lookup wsi = some (f c) := by
    rw [WsServer.lookup_update, hc, Option.map_some, if_pos rfl]
  have hfound := socketOf_of_lookup hwired' (nodup_update hnodup c.id f) hc'
  unfold WsServer.requestClose
  dsimp only
  rw [show c.id = (f c).id from rfl, hfound]
  exact mem_wake _ wsi i

/-- A message that is too long, or binary, wakes its own socket; no other message wakes any. -/
theorem mem_receive {w : World} (hwired : Wired w) (hnodup : (w.server.conns.map Prod.fst).Nodup)
    (v : Lws) (data : Bytes) (binary final : Bool) (i : Nat) :
    i ∈ (w.server.receive cfg v data binary final).server.pending ↔
      i ∈ w.server.pending ∨
        (w.server.asksClose cfg v.wsi (.receive data binary final) = true ∧ i = v.wsi) := by
  unfold WsServer.receive WsServer.asksClose
  cases hc : w.server.lookup v.wsi with
  | none => simp
  | some c =>
      dsimp only
      rw [Option.any_some]
      split
      · rename_i hbinary
        rw [mem_requestClose hwired hnodup hc]
        simp [hbinary]
      · rename_i hbinary
        split
        · rename_i hlong
          have htag : ∀ j, (w.server.put v.wsi { c with httpBody := [] }).tag j = w.server.tag j :=
            tag_put hc rfl
          have hput : Wired { w with server := w.server.put v.wsi { c with httpBody := [] } } :=
            hwired.congr htag rfl rfl
          have hself : (w.server.put v.wsi { c with httpBody := [] }).lookup v.wsi =
              some { c with httpBody := [] } := by
            rw [WsServer.lookup_put, if_pos rfl]
          rw [mem_requestClose hput (WsServer.sockets_put hnodup _ _).1 hself]
          rw [decide_eq_true hlong, Bool.or_true]
          simp [WsServer.put]
        · rename_i hlong
          rw [decide_eq_false hlong, Bool.or_false]
          split
          · simp [hbinary, WsServer.put]
          · simp [hbinary, WsServer.put]

theorem mem_detach (t : WsServer) (wsi i : Nat) :
    i ∈ (t.detach wsi).server.pending ↔ i ∈ t.pending ∧ (t.lookup wsi = none ∨ i ≠ wsi) := by
  unfold WsServer.detach
  dsimp only
  split
  · rename_i hnone
    exact (and_iff_left (.inl hnone)).symm
  · rename_i c hc
    have hc : t.lookup wsi = some c := hc
    simp [hc]

/-- No other callback changes `m_pending`. -/
theorem pending_quiet (t : WsServer) (v : Lws) (a : Answers) {cb : Callback}
    (hreceive : ∀ data binary final, cb ≠ .receive data binary final) (hcloses : cb.closes = false) :
    (t.dispatch cfg checkBearer v a cb).server.pending = t.pending := by
  -- what the callbacks share writes to lws and to the connection only
  have hrefuse : ∀ code, (t.refuse v a code).server = t := by
    intro code
    unfold WsServer.refuse
    dsimp only
    split_ifs <;> rfl
  have hslice : ∀ c w, (t.writeSlice v a c w).server.pending = t.pending := by
    intro c w
    unfold WsServer.writeSlice
    dsimp only
    split
    · rfl
    · split_ifs <;> rfl
  have hframe : ∀ c frame offset, (t.writeFrame v a c frame offset).server.pending = t.pending := by
    intro c frame offset
    unfold WsServer.writeFrame
    split <;> rfl
  cases cb with
  | http path =>
      unfold WsServer.dispatch WsServer.http
      dsimp only
      split
      · exact congrArg _ (hrefuse 403)
      · split
        · exact congrArg _ (hrefuse 401)
        · split
          · rfl
          · split
            · exact congrArg _ (hrefuse 415)
            · split
              · exact congrArg _ (hrefuse 411)
              · rfl
  | httpBody data =>
      simp only [WsServer.dispatch, WsServer.httpBody]
      split
      · rfl
      · split_ifs <;> rfl
  | httpBodyCompletion =>
      simp only [WsServer.dispatch, WsServer.httpBodyCompletion]
      split
      · rfl
      · split_ifs <;> rfl
  | httpWriteable =>
      simp only [WsServer.dispatch, WsServer.httpWriteable]
      split
      · rfl
      · split
        · exact hslice _ _
        · split
          · rfl
          · split
            · rfl
            · exact hslice _ _
  | filterProtocolConnection =>
      simp only [WsServer.dispatch, WsServer.filterProtocolConnection]
      split_ifs <;> rfl
  | established => rfl
  | receive data binary final => exact absurd rfl (hreceive data binary final)
  | serverWriteable =>
      simp only [WsServer.dispatch, WsServer.serverWriteable]
      split
      · rfl
      · split
        · rfl
        · rw [writeQueued_eq]
          split
          · exact hframe _ _ _
          · split
            · rfl
            · exact hframe _ _ _
  | closedHttp | closed | wsiDestroy => cases hcloses

/-- A message of the right size leaves alone what there is to write. -/
theorem busy_receive {t : WsServer} {v : Lws} {data : Bytes} {binary final : Bool} {c : Conn}
    (hc : (t.receive cfg v data binary final).server.lookup v.wsi = some c) (hbusy : c.Busy)
    (hasks : t.asksClose cfg v.wsi (.receive data binary final) = false) :
    ∃ b, t.lookup v.wsi = some b ∧ b.Busy ∧ b.id = c.id := by
  unfold WsServer.receive at hc
  unfold WsServer.asksClose at hasks
  cases hb : t.lookup v.wsi with
  | none =>
      rw [hb] at hc
      cases hb.symm.trans hc
  | some b =>
      rw [hb] at hasks
      simp only [Option.any_some, Bool.or_eq_false_iff, decide_eq_false_iff_not] at hasks
      simp only [hb, hasks.1, if_neg hasks.2, Bool.false_eq_true, if_false] at hc
      refine ⟨b, rfl, ?_⟩
      split at hc
      · rw [WsServer.lookup_put, if_pos rfl] at hc
        obtain rfl := Option.some.inj hc
        exact ⟨hbusy, rfl⟩
      · rw [WsServer.lookup_put, if_pos rfl] at hc
        obtain rfl := Option.some.inj hc
        exact ⟨hbusy, rfl⟩

/-- How a WebSocket comes out of a callback. -/
theorem websocket_after {ph : Phase} {cb : Callback} {o : Outcome} {h : Headers}
    (hd : ph.delivers cb = true) (hafter : ph.after cb o = some (.websocket h)) :
    cb = .established ∨
      ph = .websocket h ∧ o.ret = 0 ∧
        (cb = .serverWriteable ∨ ∃ data binary final, cb = .receive data binary final) := by
  rcases Phase.after_cases hafter with hclosing | hidle | ⟨hret, _, hnext⟩
  · cases hclosing
  · cases hidle
  · cases cb with
    | established => exact .inl rfl
    | serverWriteable =>
        cases ph with
        | websocket h' => exact .inr ⟨hnext.symm, hret, .inl rfl⟩
        | _ => cases hd
    | receive data binary final =>
        cases ph with
        | websocket h' => exact .inr ⟨hnext.symm, hret, .inr ⟨data, binary, final, rfl⟩⟩
        | _ => cases hd
    | closed | closedHttp | wsiDestroy => cases hafter
    | _ => cases ph <;> simp [Phase.delivers, Phase.next] at hd hnext

/-- The place of a connection that `send` is about to write to does not move. -/
theorem placed_dispatch {w : World} {v : Lws} {a : Answers} {cb : Callback} {id wsi : Nat}
    (hlt : id < w.server.nextConnId) (hat : ∀ i e, w.server.tag i = some e → e.1 = id → i = wsi) :
    id < (w.server.dispatch cfg checkBearer v a cb).server.nextConnId ∧
      ∀ i e, (w.server.dispatch cfg checkBearer v a cb).server.tag i = some e → e.1 = id → i = wsi := by
  rcases (alters_dispatch cfg checkBearer w.server v a cb).tags with
    ⟨_, hnext, htags⟩ | ⟨isWebsocket, _, _, hnext, htags⟩ | ⟨_, hnext, htags⟩
  · refine ⟨hnext ▸ hlt, fun i e he => ?_⟩
    rw [htags] at he
    exact hat i e he
  · refine ⟨hnext ▸ Nat.lt_succ_of_lt hlt, fun i e he hid => ?_⟩
    rw [htags] at he
    split at he
    · -- a new connection has a number that was never given out
      obtain rfl := Option.some.inj he
      exact absurd hid (Nat.ne_of_gt hlt)
    · exact hat i e he hid
  · refine ⟨hnext ▸ hlt, fun i e he => ?_⟩
    rw [htags] at he
    split at he
    · cases he
    · exact hat i e he

theorem tag_isSome {t : WsServer} {i : Nat} : (t.tag i).isSome = (t.lookup i).isSome :=
  Option.isSome_map

/-- What a callback does to `m_pending`: a close takes the socket out, a message that cannot be
taken puts it in. -/
theorem mem_dispatch {w : World} (hwired : Wired w) (hnodup : (w.server.conns.map Prod.fst).Nodup)
    (v : Lws) (a : Answers) (cb : Callback) (i : Nat) :
    i ∈ (w.server.dispatch cfg checkBearer v a cb).server.pending ↔
      (i ∈ w.server.pending ∧ (cb.closes = true → w.server.lookup v.wsi = none ∨ i ≠ v.wsi)) ∨
        (w.server.asksClose cfg v.wsi cb = true ∧ i = v.wsi) := by
  by_cases hreceive : ∃ data binary final, cb = .receive data binary final
  · obtain ⟨data, binary, final, rfl⟩ := hreceive
    rw [WsServer.dispatch, mem_receive hwired hnodup]
    exact or_congr_left (and_iff_left fun hcloses => by cases hcloses).symm
  · have hno : w.server.asksClose cfg v.wsi cb = false := by
      cases cb with
      | receive data binary final => exact absurd ⟨data, binary, final, rfl⟩ hreceive
      | _ => rfl
    rw [hno]
    cases hcloses : cb.closes with
    | true =>
        have hdetach : (w.server.dispatch cfg checkBearer v a cb).server =
            (w.server.detach v.wsi).server := by
          cases cb with
          | closedHttp | closed | wsiDestroy => rfl
          | _ => cases hcloses
        rw [hdetach, mem_detach]
        simp
    | false =>
        rw [pending_quiet w.server v a (fun d b f heq => hreceive ⟨d, b, f, heq⟩) hcloses]
        simp

/-- lws goes on owing a writeable callback. -/
theorem mem_writable_callback {s : Service} {wsi : Nat} {k : Socket} {cb : Callback} {a : Answers}
    {i : Nat} (hi : i = wsi →
      (k.phase.after cb (s.world.server.dispatch cfg checkBearer (k.lws wsi) a cb)).isSome = true)
    (howed : (s.world.server.dispatch cfg checkBearer (k.lws wsi) a cb).rearms wsi cb = true ∧ i = wsi ∨
      i ∈ s.writable ∧ (cb.isWriteable = true → i ≠ wsi)) :
    i ∈ (s.callback cfg checkBearer wsi k cb a).writable := by
  generalize hout : s.world.server.dispatch cfg checkBearer (k.lws wsi) a cb = o at hi howed
  let kept := if cb.isWriteable then s.writable.filter (· != wsi) else s.writable
  let owed := if o.rearms wsi cb then wsi :: kept else kept
  have hkept : i ∈ s.writable → (cb.isWriteable = true → i ≠ wsi) → i ∈ kept := by
    intro hin hne
    show i ∈ if _ then _ else _
    split
    · rename_i hw
      exact List.mem_filter.mpr ⟨hin, bne_iff_ne.mpr (hne hw)⟩
    · exact hin
  have hmem : i ∈ owed := by
    show i ∈ if _ then _ else _
    rcases howed with ⟨hrearms, rfl⟩ | ⟨hin, hne⟩
    · rw [if_pos hrearms]
      exact List.mem_cons_self
    · split
      · exact List.mem_cons_of_mem _ (hkept hin hne)
      · exact hkept hin hne
  show i ∈ if (k.phase.after cb (s.world.server.dispatch cfg checkBearer (k.lws wsi) a cb)).isSome = true
    then _ else _
  rw [hout]
  split
  · exact hmem
  · rename_i hgone
    exact List.mem_filter.mpr ⟨hmem, bne_iff_ne.mpr fun heq => hgone (hi heq)⟩

/-- A callback keeps the invariant. -/
theorem Awake.callback {s : Service} {p : Multiset Caller} (h : Awake s p) {wsi : Nat} {k : Socket}
    {cb : Callback} (hk : s.world.sockets wsi = some k) (hd : k.phase.delivers cb = true) (a : Answers) :
    Awake (s.callback cfg checkBearer wsi k cb a) p := by
  have hmem : ∀ i, i ∈ (s.world.server.dispatch cfg checkBearer (k.lws wsi) a cb).server.pending ↔ _ :=
    mem_dispatch h.wired h.nodup (k.lws wsi) a cb
  have hwired : Wired (s.world.deliver cfg checkBearer wsi k cb a) := h.wired.deliver cfg checkBearer hk hd
  refine ⟨hwired, ?nodup, ?placed, ?woken, ?served, ?known, h.stray⟩
  case nodup =>
    exact (alters_dispatch cfg checkBearer s.world.server (k.lws wsi) a cb).nodup h.nodup
  case placed =>
    intro id w frame hpending
    obtain ⟨hlt, hat⟩ := h.placed id w frame hpending
    exact placed_dispatch hlt hat
  case woken =>
    intro hne
    obtain ⟨i, hi⟩ := List.exists_mem_of_ne_nil _ hne
    rcases (hmem i).mp hi with ⟨hold, _⟩ | ⟨hasks, _⟩
    · refine (h.woken (List.ne_nil_of_mem hold)).imp_left fun hcancelled => ?_
      exact Bool.or_eq_true_iff.mpr (.inl hcancelled)
    · exact .inl (Bool.or_eq_true_iff.mpr (.inr hasks))
  case served =>
    rintro i c ⟨k', hd', hk', hphase, hc⟩ hbusy
    by_cases hi : i = wsi
    · subst hi
      have hself : (k.phase.after cb (s.world.server.dispatch cfg checkBearer (k.lws i) a cb)).map
          (fun ph => { k with phase := ph }) = some k' := (if_pos rfl).symm.trans hk'
      obtain ⟨ph, hafter, rfl⟩ := Option.map_eq_some_iff.mp hself
      obtain rfl : ph = .websocket hd' := hphase
      rcases websocket_after hd hafter with rfl | ⟨hwebsocket, hret, hcb⟩
      · -- a connection that has just come has nothing to write
        have hc : ((s.world.server.attach cfg (k.lws i) true).2.put i _).lookup i = some c := hc
        rw [WsServer.lookup_put, if_pos rfl] at hc
        obtain rfl := Option.some.inj hc
        rcases hbusy with hne | hne | hne
        · exact absurd rfl hne
        · exact absurd rfl hne
        · exact absurd rfl hne
      · have hsome : i = i → (k.phase.after cb _).isSome = true := fun _ => Option.isSome_of_mem hafter
        rcases hcb with rfl | ⟨data, binary, final, rfl⟩
        · exact .inl (mem_writable_callback hsome (.inl ⟨rearms_serverWriteable hret hc hbusy, rfl⟩))
        · cases hasks : s.world.server.asksClose cfg i (.receive data binary final) with
          | true => exact .inr (.inl ((hmem i).mpr (.inr ⟨hasks, rfl⟩)))
          | false =>
              obtain ⟨b, hb, hbusy', hid⟩ := busy_receive hc hbusy hasks
              have hbefore := h.served i b ⟨k, hd', hk, hwebsocket, hb⟩ hbusy'
              rw [hid] at hbefore
              rcases hbefore with hw | hp | hp | hp
              · exact .inl (mem_writable_callback hsome (.inr ⟨hw, fun hno => by cases hno⟩))
              · exact .inr (.inl ((hmem i).mpr (.inl ⟨hp, fun hno => by cases hno⟩)))
              · exact .inr (.inr (.inl hp))
              · exact .inr (.inr (.inr hp))
    · have hk' : s.world.sockets i = some k' := (if_neg hi).symm.trans hk'
      have hc : s.world.server.lookup i = some c :=
        (lookup_dispatch_other h.wired (k.lws wsi) a cb hi).symm.trans hc
      rcases h.served i c ⟨k', hd', hk', hphase, hc⟩ hbusy with hw | hp | hp | hp
      · exact .inl (mem_writable_callback (fun heq => absurd heq hi) (.inr ⟨hw, fun _ => hi⟩))
      · exact .inr (.inl ((hmem i).mpr (.inl ⟨hp, fun _ => .inr hi⟩)))
      · exact .inr (.inr (.inl hp))
      · exact .inr (.inr (.inr hp))
  case known =>
    intro i hi
    have htags := (alters_dispatch cfg checkBearer s.world.server (k.lws wsi) a cb).tags
    -- a socket that leaves the table leaves `m_pending` with it
    have hstays : (s.world.server.tag i).isSome = true →
        (cb.closes = true → s.world.server.lookup wsi = none ∨ i ≠ wsi) →
        ((s.callback cfg checkBearer wsi k cb a).world.server.tag i).isSome = true := by
      intro htag hor
      rcases htags with ⟨_, _, htags⟩ | ⟨_, _, _, _, htags⟩ | ⟨hcloses, _, htags⟩
      · exact (congrArg Option.isSome (htags i)).trans htag
      · refine (congrArg Option.isSome (htags i)).trans ?_
        split
        · rfl
        · exact htag
      · refine (congrArg Option.isSome (htags i)).trans ?_
        rw [if_neg]
        · exact htag
        · intro heq
          have heq : i = wsi := heq
          rcases hor hcloses with hnone | hne
          · rw [tag_isSome, heq, hnone] at htag
            cases htag
          · exact hne heq
    rcases (hmem i).mp hi with ⟨hold, hor⟩ | ⟨hasks, rfl⟩
    · rcases h.known i hold with htag | hover
      · exact .inl (hstays htag hor)
      · exact .inr hover
    · left
      cases cb with
      | receive data binary final =>
          refine hstays ?_ fun hno => by cases hno
          rw [tag_isSome]
          unfold WsServer.asksClose at hasks
          cases hc : s.world.server.lookup i with
          | none =>
              have hasks : (s.world.server.lookup i).any _ = true := hasks
              rw [hc] at hasks
              cases hasks
          | some c => rfl
      | _ => cases hasks

/-! ## Runs

With no caller under way and nothing pending, only lws is left to owe the callback. -/

/-- `LWS_CALLBACK_EVENT_WAIT_CANCELLED` passes on every socket in `m_pending`. -/
theorem Awake.waitCancelled {s : Service} {p : Multiset Caller} (h : Awake s p) :
    Awake s.waitCancelled p where
  wired := h.wired.congr (fun _ => rfl) rfl rfl
  nodup := h.nodup
  placed := h.placed
  woken hne := absurd rfl hne
  served wsi c hopen hbusy := by
    rcases h.served wsi c hopen hbusy with hw | hp | hp | hp
    · exact .inl (List.mem_append_right _ hw)
    · exact .inl (List.mem_append_left _ hp)
    · exact .inr (.inr (.inl hp))
    · exact .inr (.inr (.inr hp))
  known i hi := absurd hi List.not_mem_nil
  stray i hi := by
    rcases List.mem_append.mp hi with hold | hnew
    · exact h.stray i hold
    · obtain ⟨hpending, hgone⟩ := List.mem_filter.mp hnew
      refine (h.known i hpending).resolve_left fun htag => ?_
      rw [h.wired.gone i (Option.isNone_iff_eq_none.mp hgone)] at htag
      cases htag

/-- A socket that lws gives another phase before any WebSocket is open on it. -/
theorem Awake.setSocket {s : Service} {p : Multiset Caller} (h : Awake s p) {wsi : Nat} {k : Socket}
    (hwired : Wired (s.world.setSocket wsi (some k))) (hk : ∀ hd, k.phase ≠ .websocket hd) :
    Awake { s with world := s.world.setSocket wsi (some k) } p := by
  refine { h with wired := hwired, served := ?_ }
  rintro i c ⟨k', hd, hk', hphase, hc⟩ hbusy
  have hk' : (if i = wsi then some k else s.world.sockets i) = some k' := hk'
  split at hk'
  · obtain rfl := Option.some.inj hk'
    exact absurd hphase (hk hd)
  · exact h.served i c ⟨k', hd, hk', hphase, hc⟩ hbusy

theorem Awake.enter {s : Service} {p : Multiset Caller} (h : Awake s p) {ev : Called}
    {e : Effect Service Caller} (he : s.enter cfg checkBearer ev = some e) : Awake e.shared (e.made + p) := by
  -- a caller that has not done anything yet
  have hstart : ∀ {x : Caller}, (∀ i w f, x ≠ .enqueue i w f) → Awake s (x ::ₘ p) := by
    intro x hx
    apply h.next
    · exact fun i w f hmem => .inl ((Multiset.mem_cons.mp hmem).resolve_left (Ne.symm (hx i w f)))
    · exact Multiset.mem_cons_of_mem
    · intro _ _ _ hs
      rcases hs with hs | hs | hs | hs
      · exact .inl hs
      · exact .inr (.inl hs)
      · exact .inr (.inr (.inl (Multiset.mem_cons_of_mem hs)))
      · exact .inr (.inr (.inr (Multiset.mem_cons_of_mem hs)))
  unfold Service.enter at he
  split at he
  · split at he
    · cases he
    · rename_i k hk
      split_ifs at he with hd
      cases he
      rw [made_nothing]
      exact h.callback hk hd _
  · rename_i wsi peer h2Stream
    obtain ⟨w, hw, rfl⟩ := Option.map_eq_some_iff.mp he
    rw [made_nothing]
    have hwired := h.wired.step cfg checkBearer hw
    simp only [World.step] at hw
    split at hw
    · cases hw
    · cases hw
      exact h.setSocket hwired fun _ hphase => by cases hphase
  · rename_i wsi hd
    obtain ⟨w, hw, rfl⟩ := Option.map_eq_some_iff.mp he
    rw [made_nothing]
    have hwired := h.wired.step cfg checkBearer hw
    simp only [World.step] at hw
    split at hw
    · cases hw
      exact h.setSocket hwired fun _ hphase => by cases hphase
    · cases hw
  · cases he
  · split_ifs at he with hcancelled
    cases he
    rw [made_nothing]
    exact h.waitCancelled
  · cases he
    rw [made_one]
    exact hstart fun _ _ _ hx => by cases hx
  · cases he
    rw [made_one]
    exact hstart fun _ _ _ hx => by cases hx

theorem awake_of_run {s : State Service Caller}
    (hrun : Run (service cfg checkBearer) Guard.any { shared := {} } s) : Awake s.shared s.pending := by
  apply Run.invariant (I := Awake) awake_start _ _ hrun
  · intro sh x c e p h _ he
    cases he
    exact h.exec
  · intro sh ev e p h _ he
    exact h.enter he

/-- **No frame is stranded.** Every open WebSocket that has a frame to write, or is to be closed, is
owed a writeable callback once every caller has returned and lws has made the callback that
`lws_cancel_service` asked for. A socket that lws has freed is named to it only if the call that put
it into `m_pending` was overtaken by the close. -/
theorem no_frame_stranded (cfg : BridgeConfig) (checkBearer : Option (Bytes → Bool))
    {s : State Service Caller}
    (hrun : Run (service cfg checkBearer) Guard.any { shared := {} } s) :
    (s.pending = 0 → s.shared.cancelled = false →
      ∀ wsi c, s.shared.world.Open wsi c → c.Busy → wsi ∈ s.shared.writable) ∧
    ∀ wsi ∈ s.shared.stray, wsi ∈ s.shared.overtaken := by
  have hawake := awake_of_run hrun
  refine ⟨?_, hawake.stray⟩
  intro hidle hcancelled wsi c hopen hbusy
  have hempty : s.shared.world.server.pending = [] := by
    by_contra hne
    rcases hawake.woken hne with htrue | hmem
    · rw [hcancelled] at htrue
      cases htrue
    · rw [hidle] at hmem
      exact absurd hmem (Multiset.notMem_zero _)
  rcases hawake.served wsi c hopen hbusy with hw | hp | hp | hp
  · exact hw
  · rw [hempty] at hp
    exact absurd hp List.not_mem_nil
  · rw [hidle] at hp
    exact absurd hp (Multiset.notMem_zero _)
  · rw [hidle] at hp
    exact absurd hp (Multiset.notMem_zero _)

/-- A WebSocket is open on socket 1, and a thread is about to send on it. -/
def openAndSend : List (Move Unit Called) :=
  [.enter (.event (.connect 1 (str "127.0.0.1") false)),
   .enter (.event (.headers 1 { host := str "localhost" })),
   .enter (.event (.callback 1 .filterProtocolConnection {})),
   .enter (.event (.callback 1 .established {})),
   .enter (.send 1 (str "late"))]

/-- The call returns, and the service thread is woken. -/
theorem no_frame_stranded_send : ∃ s : State Service Caller,
    Run (service minimalConfig none) Guard.any { shared := {} } s ∧
    (∃ c, s.shared.world.Open 1 c ∧ c.outbound = [str "late"]) ∧
    1 ∈ s.shared.writable ∧ ∀ wsi ∈ s.shared.stray, wsi ∈ s.shared.overtaken := by
  have hmoves : ((service minimalConfig none).replay { shared := {} }
      (openAndSend ++ [.run 4 (), .run 4 (), .run 4 (), .run 4 (), .enter .waitCancelled])).map
      (fun s => (s.threads.flatten, s.shared.cancelled,
        (s.shared.world.sockets 1).map Socket.phase,
        (s.shared.world.server.lookup 1).map Conn.outbound)) =
      some ([], false, some (.websocket { host := str "localhost" }), some [str "late"]) := rfl
  obtain ⟨s, hs, hstate⟩ := Option.map_eq_some_iff.mp hmoves
  obtain ⟨hthreads, hstate⟩ := Prod.mk.inj hstate
  obtain ⟨hcancelled, hstate⟩ := Prod.mk.inj hstate
  obtain ⟨hphase, hqueue⟩ := Prod.mk.inj hstate
  obtain ⟨k, hk, hphase⟩ := Option.map_eq_some_iff.mp hphase
  obtain ⟨c, hc, hqueue⟩ := Option.map_eq_some_iff.mp hqueue
  have hrun := Run.start.replay hs
  have hpending : s.pending = 0 := congrArg Multiset.ofList hthreads
  have hopen : s.shared.world.Open 1 c := ⟨k, _, hk, hphase, hc⟩
  have hbusy : c.Busy := by
    left
    rw [hqueue]
    exact List.cons_ne_nil _ _
  obtain ⟨hserved, hstray⟩ := no_frame_stranded minimalConfig none hrun
  exact ⟨s, hrun, ⟨c, hopen, hqueue⟩, hserved hpending hcancelled 1 c hopen hbusy, hstray⟩

/-- The peer closes after the search of `send`: the socket comes into `m_pending` all the same, and
lws has freed it when the service thread asks for its callback. -/
example : ((service minimalConfig none).replay { shared := {} }
    (openAndSend ++ [.run 4 (), .run 4 (), .enter (.event (.callback 1 .closed {})),
      .enter (.event (.callback 1 .wsiDestroy {})), .run 4 (), .run 4 (), .enter .waitCancelled])).map
    (fun s => (s.shared.stray, s.shared.overtaken)) = some ([1], [1]) := rfl

end JsonRpcBridge.Server
