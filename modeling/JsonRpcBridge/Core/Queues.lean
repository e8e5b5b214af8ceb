import JsonRpcBridge.Core.Steps

/-!
# Frames and responses

What the history of the core says about the transport (`Recorded`): every frame in the queue of a
connection was put there, and every response begins with a frame that was put into the queue of its
connection. Most sections do not touch any of this (`Kept`).
-/

namespace JsonRpcBridge.Core

open Interleaving Dispatcher Server

variable {cfg : BridgeConfig} {checkBearer : Option (Bytes → Bool)} {lib : Nlohmann}
  {sh sh' : Shared} {p others : Multiset Section} {e : Effect Shared Section} {c : Choice}

/-! ## Away from the transport

Sections of bodies, batches and notices leave the world of the server and all its history as they
are. -/

/-- The transport and its history are as they were. -/
structure Kept (sh sh' : Shared) : Prop where
  world : sh'.world = sh.world
  opened : sh'.opened = sh.opened
  bodies : sh'.bodies = sh.bodies
  queued : sh'.queued = sh.queued
  responses : sh'.responses = sh.responses

theorem kept_self (sh : Shared) : Kept sh sh := ⟨rfl, rfl, rfl, rfl, rfl⟩

theorem kept_forget (sh : Shared) (sid : Nat) : Kept sh (sh.forget sid) := ⟨rfl, rfl, rfl, rfl, rfl⟩

theorem kept_crash (sh : Shared) : Kept sh sh.crash := ⟨rfl, rfl, rfl, rfl, rfl⟩

theorem Kept.sends {sh₀ : Shared} (h : Kept sh₀ sh) (conn : Nat) (origin : Origin) (notice : Json) :
    Kept sh₀ (sh.sends lib conn origin notice).shared := by
  rcases sends_cases sh lib conn origin notice with ⟨frame, -, heq⟩ | heq
  · rw [heq]
    exact h
  · rw [heq]
    exact ⟨h.world, h.opened, h.bodies, h.queued, h.responses⟩

theorem kept_onBody (posted : Posted) (draining : Bool) :
    Kept sh (sh.onBody cfg lib posted draining).shared := by
  unfold Shared.onBody
  split
  · exact (kept_self sh).sends _ _ _
  · exact ⟨rfl, rfl, rfl, rfl, rfl⟩

theorem kept_ofBatch {x : Dispatcher.Section} {b : Batch} (hb : sh.batches.batch x.batch = some b)
    (h : sh.ofBatch cfg lib x c = some e) : Kept sh e.shared := by
  rcases ofBatch_cases hb h with ⟨b', made, -, hshared, -⟩ | ⟨hshared, -⟩
  · obtain ⟨subscribers, next, hsubscribed⟩ := sh.subscribed_eq cfg lib x c
    rw [hshared, hsubscribed]
    exact ⟨rfl, rfl, rfl, rfl, rfl⟩
  · rw [hshared]
    exact kept_crash sh

theorem kept_onEvent (d : Delivery) (ts : Int) : Kept sh (sh.onEvent lib d ts).shared := by
  unfold Shared.onEvent
  split
  · exact kept_self sh
  · exact (kept_self sh).sends _ _ _

theorem kept_onSubscriptionLost (sid : Nat) (module event why : Bytes) :
    Kept sh (sh.onSubscriptionLost lib sid module event why).shared := by
  unfold Shared.onSubscriptionLost
  split
  · exact kept_self sh
  · exact (kept_forget sh sid).sends _ _ _

/-! ## What is recorded

Each frame in a queue has its record, and connections have the kind they were opened with. -/

/-- A frame was put into the queue of the connection `id`. -/
def Shared.Put (sh : Shared) (id : Nat) (frame : Bytes) : Prop :=
  ∃ q ∈ sh.queued, q.conn = id ∧ q.frame = frame

/-- The connection `id` was opened, for a WebSocket or for an HTTP request. -/
def Shared.Kind (sh : Shared) (id : Nat) (isWebsocket : Bool) : Prop :=
  ∃ c, sh.opened id = some c ∧ c.isWebsocket = isWebsocket

/-- The connection of a `POST` begins with an empty queue, and responses are for HTTP requests
alone. -/
structure Recorded (sh : Shared) : Prop where
  served : Served sh.world sh.responses
  unopened : ∀ id, sh.world.server.nextConnId ≤ id → sh.opened id = none
  posts : ∀ id c, sh.opened id = some c → c.httpRoute = [] ∨ c.outbound = []
  kinds : ∀ wsi c, sh.world.server.lookup wsi = some c → sh.Kind c.id c.isWebsocket
  queues : ∀ wsi c, sh.world.server.lookup wsi = some c → ∀ f ∈ c.outbound, sh.Put c.id f
  responses : ∀ r ∈ sh.responses, sh.Put r.conn r.body ∧ sh.Kind r.conn false

/-! ### The records are kept

By what leaves the transport alone, and by the one section that puts a frame into a queue. -/

theorem recorded_start : Recorded {} where
  served := served_start
  unopened _ _ := rfl
  posts _ _ hc := nomatch hc
  kinds _ _ hc := nomatch hc
  queues _ _ hc := nomatch hc
  responses _ hr := (List.not_mem_nil hr).elim

theorem Shared.Put.mono {id : Nat} {frame : Bytes} (h : sh.Put id frame)
    (hqueued : sh.queued ⊆ sh'.queued) : sh'.Put id frame := by
  obtain ⟨q, hq, hconn, hframe⟩ := h
  exact ⟨q, hqueued hq, hconn, hframe⟩

theorem Recorded.kept (h : Recorded sh) (hkept : Kept sh sh') : Recorded sh' := by
  have hput : ∀ {id frame}, sh.Put id frame → sh'.Put id frame := fun hput =>
    hput.mono fun q hq => hkept.queued ▸ hq
  refine ⟨?_, ?_, ?_, ?_, ?_, ?_⟩
  · rw [hkept.world, hkept.responses]
    exact h.served
  · rw [hkept.world, hkept.opened]
    exact h.unopened
  · rw [hkept.opened]
    exact h.posts
  · unfold Shared.Kind
    rw [hkept.world, hkept.opened]
    exact h.kinds
  · rw [hkept.world]
    exact fun wsi c hc f hf => hput (h.queues wsi c hc f hf)
  · unfold Shared.Kind
    rw [hkept.responses, hkept.opened]
    exact fun r hr => ⟨hput (h.responses r hr).1, (h.responses r hr).2⟩

theorem subset_queued_send (sh : Shared) (q : Queued) : sh.queued ⊆ (sh.send cfg q).queued := by
  intro r hr
  unfold Shared.send
  dsimp only
  split
  · exact List.mem_append_left _ hr
  · exact hr

/-- A frame that `send` queues is recorded. -/
theorem Recorded.send (h : Recorded sh) (q : Queued) : Recorded (sh.send cfg q) where
  served := h.served.send q.conn q.frame
  unopened id hid := h.unopened id ((nextConnId_send cfg _ _ _) ▸ hid)
  posts := h.posts
  responses r hr := ⟨(h.responses r hr).1.mono (subset_queued_send sh q), (h.responses r hr).2⟩
  kinds wsi c' hc' := by
    obtain ⟨c, hc, htag, -⟩ := lookup_send_takes hc'
    rw [show c'.id = c.id from congrArg Prod.fst htag,
      show c'.isWebsocket = c.isWebsocket from congrArg Prod.snd htag]
    exact h.kinds wsi c hc
  queues wsi c' hc' f hf := by
    obtain ⟨c, hc, htag, -, hsame | ⟨hid, htakes, hout⟩⟩ := lookup_send_takes hc'
    · rw [show c'.id = c.id from congrArg Prod.fst htag]
      exact (h.queues wsi c hc f (hsame ▸ hf)).mono (subset_queued_send sh q)
    · rw [show c'.id = c.id from congrArg Prod.fst htag]
      rcases List.mem_append.mp (hout ▸ hf) with hf | hf
      · exact (h.queues wsi c hc f hf).mono (subset_queued_send sh q)
      · refine ⟨q, ?_, hid.symm, (List.mem_singleton.mp hf).symm⟩
        unfold Shared.send
        dsimp only
        rw [if_pos htakes]
        exact List.mem_append_right _ (List.mem_singleton_self q)

/-! ## A callback

A callback moves frames from a queue to lws, and may open a connection, under a number that was
not used before. -/

/-- A connection that is new has the next number. -/
theorem opens_new {w : World} (hwired : Wired w) {wsi : Nat} {k : Socket} {cb : Callback} {a : Answers}
    {c : Conn} (hne : (w.deliver cfg checkBearer wsi k cb a).server.nextConnId ≠ w.server.nextConnId)
    (hc : (w.deliver cfg checkBearer wsi k cb a).server.lookup wsi = some c) :
    c.id = w.server.nextConnId ∧ (c.httpRoute = [] ∨ c.outbound = []) ∧
      (w.deliver cfg checkBearer wsi k cb a).server.nextConnId = w.server.nextConnId + 1 := by
  rcases draws_dispatch cfg checkBearer w.server (k.lws wsi) a cb wsi c hc with
    ⟨c₀, hc₀, hdrawn⟩ | ⟨-, hnext, hid, hempty⟩
  · exfalso
    have hold : c₀.id < w.server.nextConnId :=
      hwired.numbered wsi c₀.tag (by rw [WsServer.tag, hc₀]; rfl)
    rcases (alters_dispatch cfg checkBearer w.server (k.lws wsi) a cb).tags with
      ⟨-, hnext, -⟩ | ⟨kind, -, -, -, htags⟩ | ⟨-, hnext, -⟩
    · exact hne hnext
    · have htag : (w.deliver cfg checkBearer wsi k cb a).server.tag wsi =
          some (w.server.nextConnId, kind) := (htags wsi).trans (if_pos rfl)
      rw [WsServer.tag, hc] at htag
      have hfresh : c.tag = (w.server.nextConnId, kind) := Option.some.inj htag
      have hid : c.id = w.server.nextConnId := congrArg Prod.fst hfresh
      rw [hdrawn.id] at hid
      exact hold.ne hid
    · exact hne hnext
  · exact ⟨hid, hempty, hnext⟩

/-- What a callback leaves in the queues and begins to write was there before, or is the page of the
connection that it opens. -/
theorem Recorded.called (h : Recorded sh) {wsi : Nat} {k : Socket} {cb : Callback} {a : Answers}
    (hk : sh.world.sockets wsi = some k) (hd : k.phase.delivers cb = true)
    (hqueued : sh.queued ⊆ sh'.queued)
    (hworld : sh'.world = sh.world.deliver cfg checkBearer wsi k cb a)
    (hresponses : sh'.responses = sh.responses ++ (begun sh.world.server wsi a cb).toList)
    (hopened : ∀ id, sh'.opened id = sh.opened id ∨ id = sh.world.server.nextConnId ∧
      id < sh'.world.server.nextConnId ∧ ∀ c, sh'.opened id = some c → c.httpRoute = [] ∨ c.outbound = [])
    (hnew : ∀ c, sh'.world.server.nextConnId ≠ sh.world.server.nextConnId →
      sh'.world.server.lookup wsi = some c →
        sh'.opened c.id = some c ∧ ∀ f ∈ c.outbound, sh'.Put c.id f) :
    Recorded sh' := by
  have hdraws := draws_dispatch cfg checkBearer sh.world.server (k.lws wsi) a cb
  have hlookup (i : Nat) : sh'.world.server.lookup i =
      (sh.world.server.dispatch cfg checkBearer (k.lws wsi) a cb).server.lookup i := by
    rw [hworld]
    rfl
  have hnext : sh'.world.server.nextConnId =
      (sh.world.server.dispatch cfg checkBearer (k.lws wsi) a cb).server.nextConnId := by
    rw [hworld]
    rfl
  have hgrows : sh.world.server.nextConnId ≤ sh'.world.server.nextConnId := by
    rw [hnext]
    exact (alters_dispatch cfg checkBearer sh.world.server (k.lws wsi) a cb).le_nextConnId
  -- no number is used twice, so a connection that was opened keeps its kind
  have hkind : ∀ {id kind}, sh.Kind id kind → sh'.Kind id kind := by
    rintro id kind ⟨c, hc, hkind⟩
    rcases hopened id with hsame | ⟨rfl, -, -⟩
    · exact ⟨c, hsame.trans hc, hkind⟩
    · rw [h.unopened _ le_rfl] at hc
      cases hc
  refine ⟨?_, fun id hid => ?_, fun id c hc => ?_, fun i c' hc' => ?_, fun i c' hc' f hf => ?_,
    fun r hr => ?_⟩
  · rw [hworld, hresponses]
    exact h.served.deliver hk hd
  · rcases hopened id with hsame | ⟨-, hlt, -⟩
    · exact hsame.trans (h.unopened id (hgrows.trans hid))
    · omega
  · rcases hopened id with hsame | ⟨-, -, hempty⟩
    · exact h.posts id c (hsame.symm.trans hc)
    · exact hempty c hc
  · rcases hdraws i c' ((hlookup i).symm.trans hc') with ⟨c, hc, hdrawn⟩ | ⟨rfl, hsucc, -, -⟩
    · rw [hdrawn.id, hdrawn.kind]
      exact hkind (h.kinds i c hc)
    · exact ⟨c', (hnew c' (by omega) hc').1, rfl⟩
  -- a connection was in the table, with at least these frames, or it is the one that is opened
  · rcases hdraws i c' ((hlookup i).symm.trans hc') with ⟨c, hc, hdrawn⟩ | ⟨rfl, hsucc, -, -⟩
    · rw [hdrawn.id]
      exact (h.queues i c hc f (hdrawn.outbound hf)).mono hqueued
    · exact (hnew c' (by omega) hc').2 f hf
  · rw [hresponses] at hr
    rcases List.mem_append.mp hr with hr | hr
    · exact ⟨(h.responses r hr).1.mono hqueued, hkind (h.responses r hr).2⟩
    -- a response is begun with the first frame of an HTTP connection
    · have hbegun := Option.mem_toList.mp hr
      obtain ⟨-, -, c, rest, hc, -, hout, hconn⟩ := begun_some hbegun
      obtain ⟨hh, hphase⟩ := request_of_begun hd hbegun
      have hfits := h.served.wired.fits wsi k hk
      rw [hphase, WsServer.tag, hc] at hfits
      have hhttp : c.isWebsocket = false := Bool.eq_false_iff.mpr fun hws => hfits (congrArg some hws)
      rw [hconn]
      refine ⟨(h.queues wsi c hc r.body (hout ▸ List.mem_cons_self)).mono hqueued, ?_⟩
      exact hkind (hhttp ▸ h.kinds wsi c hc)

theorem Recorded.callback (h : Recorded sh) {wsi : Nat} {cb : Callback} {a : Answers}
    (hstep : sh.callback cfg checkBearer wsi cb a = some e) : Recorded e.shared := by
  obtain ⟨k, posted, hk, hd, -, ⟨hshared, hnone⟩ | ⟨c, hshared, hne, hc⟩⟩ := callback_cases hstep
  · have hqueued : e.shared.queued = sh.queued := by rw [hshared]; rfl
    have hopened : e.shared.opened = sh.opened := by rw [hshared]; rfl
    refine h.called hk hd (fun q hq => hqueued ▸ hq) (by rw [hshared]; rfl) (by rw [hshared]; rfl)
      (fun id => .inl (congrFun hopened id)) fun c hne hc => ?_
    rw [hnone hne] at hc
    cases hc
  · have hqueued : e.shared.queued =
        sh.queued ++ c.outbound.map (⟨c.id, .page, ·⟩) := by rw [hshared]; rfl
    have hopened : e.shared.opened = Function.update sh.opened c.id (some c) := by rw [hshared]; rfl
    have hworld : e.shared.world = sh.world.deliver cfg checkBearer wsi k cb a := by
      rw [hshared]; rfl
    obtain ⟨hid, hempty, hnext⟩ := opens_new h.served.wired (hworld ▸ hne) (hworld ▸ hc)
    refine h.called hk hd ?_ hworld (by rw [hshared]; rfl) (fun id => ?_) fun c' _ hc' => ?_
    · rw [hqueued]
      exact List.subset_append_left _ _
    · rw [hopened, Function.update_apply]
      split
      · rename_i hsame
        refine .inr ⟨hsame.trans hid, ?_, fun o ho => Option.some.inj ho ▸ hempty⟩
        rw [hworld, hnext, hsame, hid]
        exact Nat.lt_succ_self _
      · exact .inl rfl
    · obtain rfl : c = c' := Option.some.inj (hc.symm.trans hc')
      refine ⟨by rw [hopened, Function.update_self], fun f hf => ⟨⟨c.id, .page, f⟩, ?_, rfl, rfl⟩⟩
      rw [hqueued]
      exact List.mem_append_right _ (List.mem_map_of_mem hf)

/-! ## Every step

So the records are complete after every section and every entry. -/

theorem Recorded.step {w : World} {ev : Server.Event} (h : Recorded sh)
    (hcallback : ∀ wsi cb a, ev ≠ .callback wsi cb a) (hsend : ∀ id frame, ev ≠ .send id frame)
    (hclose : ∀ id why, ev ≠ .requestClose id why)
    (hstep : sh.world.step cfg checkBearer ev = some w) : Recorded { sh with world := w } := by
  obtain ⟨hconns, hnext⟩ := conns_step hcallback hsend hclose hstep
  have hlookup {wsi : Nat} {c : Conn} (hc : w.server.lookup wsi = some c) :
      sh.world.server.lookup wsi = some c := by
    rw [WsServer.lookup, hconns] at hc
    exact hc
  exact ⟨h.served.step hcallback hsend hclose hstep, fun id hid => h.unopened id (hnext ▸ hid),
    h.posts, fun wsi c hc => h.kinds wsi c (hlookup hc),
    fun wsi c hc => h.queues wsi c (hlookup hc), h.responses⟩

theorem Recorded.exec {x : Section} (h : Recorded sh) (hhoused : Housed sh (x ::ₘ others))
    (hexec : exec cfg lib sh x c = some e) : Recorded e.shared := by
  unfold Core.exec at hexec
  split at hexec
  · cases hexec
  cases x with
  | body posted =>
      cases hexec
      exact h.kept (kept_onBody _ _)
  | send q =>
      cases hexec
      exact h.send q
  | batch x =>
      obtain ⟨b, hb⟩ := hhoused.housed x (Multiset.mem_cons_self _ _)
      exact h.kept (kept_ofBatch hb hexec)

theorem Recorded.enter {ev : Entry} (h : Recorded sh)
    (henter : enter cfg checkBearer lib sh ev = some e) : Recorded e.shared := by
  unfold Core.enter at henter
  split at henter
  · cases henter
  cases ev with
  | transport ev =>
      cases ev with
      | callback wsi cb a => exact h.callback henter
      | send id frame => cases henter
      | requestClose id why => cases henter
      | _ =>
          obtain ⟨w, hw, rfl⟩ := Option.map_eq_some_iff.mp henter
          exact h.step (fun _ _ _ h => by cases h) (fun _ _ h => by cases h)
            (fun _ _ h => by cases h) hw
  | event d ts =>
      cases henter
      exact h.kept (kept_onEvent d ts)
  | lost sid module event why =>
      cases henter
      exact h.kept (kept_onSubscriptionLost sid module event why)
  | forget sid =>
      cases henter
      exact h.kept (kept_forget sh sid)

end JsonRpcBridge.Core
