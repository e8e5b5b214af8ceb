import JsonRpcBridge.Compact
import JsonRpcBridge.Config.Parse
import JsonRpcBridge.Core.Queues
import JsonRpcBridge.Dispatcher.Subscribes
import JsonRpcBridge.Interleaving.History

/-!
# What an HTTP request is answered with

Answers, events and terminations share the queue of a connection, and the first frame in it is the
response. A frame is put there by the one it belongs to (`Vouched`): a batch sends its frame to the
connection its body came from, and a notification goes to the connection that subscribed. So a `POST`
gets its own answer while nobody subscribes over HTTP (`posts_get_their_own_answer`). The code does
not ask: an event that comes before the acknowledgement is the response.
-/

namespace JsonRpcBridge.Core

open Interleaving Dispatcher Server

/-! ## Where frames come from

Every frame has one of four reasons to be in a queue. The reason names the connection, and so
says which body or which subscriber the frame is for. -/

/-- The connection `id` is that of a `POST`. -/
def Shared.Post (sh : Shared) (id : Nat) : Prop :=
  ∃ c, sh.opened id = some c ∧ c.isWebsocket = false ∧ c.httpRoute ≠ []

/-- A body that came on the connection `id` made a batch, which sent `frame`. -/
def Shared.Answered (sh : Shared) (id : Nat) (frame : Bytes) : Prop :=
  ∃ k b, sh.batches.batch k = some b ∧ sh.conn k = id ∧ ⟨id, b.route, b.body⟩ ∈ sh.bodies ∧
    frame ∈ b.sent

/-- A body that came on the connection `id` made no batch, and was refused with `frame`. -/
def Shared.Refused (cfg : BridgeConfig) (lib : Nlohmann) (sh : Shared) (id : Nat)
    (route body frame : Bytes) : Prop :=
  ⟨id, route, body⟩ ∈ sh.bodies ∧ ∃ draining response,
    readBody cfg lib draining route body = .answer response ∧ lib.dump response = .ok frame

/-- A frame was put into the queue of a connection by what belongs there. -/
def Shared.Vouched (cfg : BridgeConfig) (lib : Nlohmann) (sh : Shared) (q : Queued) : Prop :=
  match q.origin with
  | .refusal route body => sh.Refused cfg lib q.conn route body q.frame
  | .batch k => ∃ b, sh.batches.batch k = some b ∧ sh.conn k = q.conn ∧ q.frame ∈ b.sent
  | .page => ∃ c, sh.opened q.conn = some c ∧ q.frame ∈ c.outbound
  | .event _ | .terminated _ => sh.Kind q.conn true

/-- A section that is pending has come to be so in order. -/
def Shared.Due (cfg : BridgeConfig) (lib : Nlohmann) (sh : Shared) : Section → Prop
  | .body p => p ∈ sh.bodies
  | .batch _ => True
  | .send q => sh.Vouched cfg lib q

/-- Every frame is vouched for, every subscriber is a WebSocket, and the body of every batch has
come on its connection. -/
structure Accounted (cfg : BridgeConfig) (lib : Nlohmann) (sh : Shared) (p : Multiset Section) :
    Prop where
  queued : ∀ q ∈ sh.queued, sh.Vouched cfg lib q
  due : ∀ x ∈ p, sh.Due cfg lib x
  subscribers : ∀ sid s, sh.subscribers sid = some s → sh.Kind s.conn true
  batches : ∀ k b, sh.batches.batch k = some b → ⟨sh.conn k, b.route, b.body⟩ ∈ sh.bodies

variable {cfg : BridgeConfig} {checkBearer : Option (Bytes → Bool)} {lib : Nlohmann}
  {sh sh' : Shared} {p others : Multiset Section} {e : Effect Shared Section} {c : Choice}
  {q : Queued} {x : Section}

/-! ## What lasts

A vouched frame stays vouched: connections keep their kind, bodies and batches stay, and a frame
sent is not unsent. -/

/-- What has happened stays so. -/
structure Grows (sh sh' : Shared) : Prop where
  opened : ∀ id c, sh.opened id = some c → sh'.opened id = some c
  bodies : sh.bodies ⊆ sh'.bodies
  batch : ∀ k b, sh.batches.batch k = some b → sh'.conn k = sh.conn k ∧
    ∃ b', sh'.batches.batch k = some b' ∧ b'.route = b.route ∧ b'.body = b.body ∧ b.sent ⊆ b'.sent

theorem Grows.kind {id : Nat} {kind : Bool} (h : Grows sh sh') (hkind : sh.Kind id kind) :
    sh'.Kind id kind := by
  obtain ⟨c, hc, hkind⟩ := hkind
  exact ⟨c, h.opened id c hc, hkind⟩

theorem Grows.vouched (h : Grows sh sh') (hq : sh.Vouched cfg lib q) : sh'.Vouched cfg lib q := by
  obtain ⟨conn, origin, frame⟩ := q
  cases origin with
  | refusal route body => exact ⟨h.bodies hq.1, hq.2⟩
  | batch k =>
      obtain ⟨b, hb, hconn, hframe⟩ := hq
      obtain ⟨hsame, b', hb', -, -, hsent⟩ := h.batch k b hb
      exact ⟨b', hb', hsame.trans hconn, hsent hframe⟩
  | page =>
      obtain ⟨c, hc, hframe⟩ := hq
      exact ⟨c, h.opened conn c hc, hframe⟩
  | event sid => exact h.kind hq
  | terminated sid => exact h.kind hq

theorem Grows.due (h : Grows sh sh') (hx : sh.Due cfg lib x) : sh'.Due cfg lib x := by
  cases x with
  | body p => exact h.bodies hx
  | batch x => trivial
  | send q => exact h.vouched hx

/-- What a step adds to what lasts. -/
theorem Accounted.grow (h : Accounted cfg lib sh p) (hgrows : Grows sh sh')
    (hqueued : ∀ q ∈ sh'.queued, q ∈ sh.queued ∨ sh'.Vouched cfg lib q)
    (hdue : ∀ x ∈ e.made, sh'.Due cfg lib x)
    (hsubscribers : ∀ sid s, sh'.subscribers sid = some s →
      sh.subscribers sid = some s ∨ sh'.Kind s.conn true)
    (hbatches : ∀ k b, sh'.batches.batch k = some b → (∃ b₀, sh.batches.batch k = some b₀) ∨
      ⟨sh'.conn k, b.route, b.body⟩ ∈ sh'.bodies) :
    Accounted cfg lib sh' (e.made + p) where
  queued q hq := by
    rcases hqueued q hq with hq | hq
    · exact hgrows.vouched (h.queued q hq)
    · exact hq
  due := Effect.forall_made hdue fun x hx => hgrows.due (h.due x hx)
  subscribers sid s hs := by
    rcases hsubscribers sid s hs with hs | hs
    · exact hgrows.kind (h.subscribers sid s hs)
    · exact hs
  batches k b hb := by
    rcases hbatches k b hb with ⟨b₀, hb₀⟩ | hb
    · obtain ⟨hconn, b', hb', hroute, hbody, -⟩ := hgrows.batch k b₀ hb₀
      obtain rfl : b = b' := Option.some.inj (hb.symm.trans hb')
      rw [hconn, hroute, hbody]
      exact hgrows.bodies (h.batches k b₀ hb₀)
    · exact hb

theorem Kept.grows (h : Kept sh sh') (hbatch : ∀ k b, sh.batches.batch k = some b →
    sh'.conn k = sh.conn k ∧ ∃ b', sh'.batches.batch k = some b' ∧ b'.route = b.route ∧
      b'.body = b.body ∧ b.sent ⊆ b'.sent) : Grows sh sh' where
  opened _ _ hc := h.opened ▸ hc
  bodies _ hx := h.bodies ▸ hx
  batch := hbatch

theorem Kept.same (h : Kept sh sh') (hbatches : sh'.batches.batch = sh.batches.batch)
    (hconn : sh'.conn = sh.conn) : Grows sh sh' :=
  h.grows fun k b hb => ⟨congrFun hconn k, b, hbatches ▸ hb, rfl, rfl, fun _ hf => hf⟩

/-- A step that puts nothing into a queue, and makes no batch. -/
theorem Accounted.kept (h : Accounted cfg lib sh p) (hkept : Kept sh e.shared)
    (hbatches : e.shared.batches.batch = sh.batches.batch) (hconn : e.shared.conn = sh.conn)
    (hdue : ∀ x ∈ e.made, e.shared.Due cfg lib x)
    (hsubscribers : ∀ sid s, e.shared.subscribers sid = some s → sh.subscribers sid = some s) :
    Accounted cfg lib e.shared (e.made + p) := by
  refine h.grow (hkept.same hbatches hconn) (fun q hq => .inl (hkept.queued ▸ hq)) hdue
    (fun sid s hs => .inl (hsubscribers sid s hs)) fun k b hb => ?_
  rw [hbatches] at hb
  exact .inl ⟨b, hb⟩

/-! ## Bodies and notices

A body that is refused is vouched for by itself, a notice by the subscriber it is for. -/

theorem Accounted.quiet (h : Accounted cfg lib sh p) (hkept : Kept sh sh')
    (hbatches : sh'.batches.batch = sh.batches.batch) (hconn : sh'.conn = sh.conn)
    (hsubscribers : ∀ sid s, sh'.subscribers sid = some s → sh.subscribers sid = some s) :
    Accounted cfg lib sh' p := by
  have haccounted : Accounted cfg lib sh' ((⟨sh', [], []⟩ : Effect Shared Section).made + p) :=
    h.kept (e := ⟨sh', [], []⟩) hkept hbatches hconn
      (fun x hx => (Multiset.notMem_zero x hx).elim) hsubscribers
  exact (zero_add p) ▸ haccounted

theorem Accounted.forget (h : Accounted cfg lib sh p) (sid : Nat) :
    Accounted cfg lib (sh.forget sid) p := by
  refine h.quiet (kept_forget sh sid) rfl rfl fun o s hs => ?_
  have hs : Function.update sh.subscribers sid none o = some s := hs
  rw [Function.update_apply] at hs
  split at hs
  · cases hs
  · exact hs

/-! ### What is sent

A notice is dumped at once and queued by a section of its own; until then the record of it is in
that section. -/

theorem Accounted.sends (h : Accounted cfg lib sh p) {conn : Nat} {origin : Origin} {notice : Json}
    (hvouched : ∀ frame, lib.dump notice = .ok frame → sh.Vouched cfg lib ⟨conn, origin, frame⟩) :
    Accounted cfg lib (sh.sends lib conn origin notice).shared
      ((sh.sends lib conn origin notice).made + p) := by
  rcases sends_cases sh lib conn origin notice with ⟨frame, hframe, heq⟩ | heq
  · rw [heq]
    refine h.kept (e := ⟨sh, [.send ⟨conn, origin, frame⟩], []⟩) (kept_self sh) rfl rfl ?_
      fun _ _ hs => hs
    intro x hx
    rw [List.mem_singleton.mp (Multiset.mem_coe.mp hx)]
    exact hvouched frame hframe
  · rw [heq]
    exact h.kept (e := ⟨sh.crash, [], []⟩) (kept_crash sh) rfl rfl
      (fun x hx => (Multiset.notMem_zero x hx).elim) fun _ _ hs => hs

theorem Accounted.onBody {posted : Posted} (h : Accounted cfg lib sh p) (hhoused : Housed sh p)
    (hposted : posted ∈ sh.bodies) (draining : Bool) :
    Accounted cfg lib (sh.onBody cfg lib posted draining).shared
      ((sh.onBody cfg lib posted draining).made + p) := by
  have hkept := @kept_onBody cfg lib sh posted draining
  unfold Shared.onBody at hkept ⊢
  split
  · rename_i response hread
    exact h.sends fun frame hframe => ⟨hposted, draining, response, hread, hframe⟩
  · rename_i requests single restShape hread
    rw [hread] at hkept
    refine h.grow (hkept.grows fun k b hb => ?_) (fun q hq => .inl hq) (fun x hx => ?_)
      (fun _ _ hs => .inl hs) fun k b hb => ?_
    · have hne : k ≠ sh.batches.made := by
        rintro rfl
        rw [hhoused.fresh _ le_rfl] at hb
        cases hb
      refine ⟨Function.update_of_ne hne _ _, b, ?_, rfl, rfl, fun _ hf => hf⟩
      rw [Batches.batch_add, if_neg hne]
      exact hb
    · have hx := Multiset.mem_coe.mp hx
      rw [List.flatten_nil, List.append_nil] at hx
      obtain ⟨i, hi, rfl⟩ := List.mem_mapIdx.mp hx
      trivial
    · rw [Batches.batch_add] at hb
      split at hb
      · rename_i hk
        cases hb
        have hconn : Function.update sh.conn sh.batches.made posted.conn k = posted.conn := by
          rw [hk, Function.update_self]
        refine .inr ?_
        show (⟨Function.update sh.conn sh.batches.made posted.conn k, _, _⟩ : Posted) ∈ sh.bodies
        rw [hconn]
        exact hposted
      · exact .inl ⟨b, hb⟩

/-! ## Batches

The frame of a batch goes where its body came from. Where the guard lets a subscription through,
that connection is a WebSocket. -/

/-- No `rpc.subscribe` is accepted over HTTP. -/
def websocketsSubscribe (cfg : BridgeConfig) (lib : Nlohmann) :
    Guard Shared Section Choice Entry where
  run sh _ x c := ∀ k i raw, x = .batch (.handle k i raw) →
    (sh.bridge k c.bridge).Accepts cfg lib raw → sh.Kind (sh.conn k) true
  enter _ _ _ := True

instance (sh : Shared) (id : Nat) (isWebsocket : Bool) : Decidable (sh.Kind id isWebsocket) :=
  match h : sh.opened id with
  | some c => decidable_of_iff (c.isWebsocket = isWebsocket) (by simp [Shared.Kind, h])
  | none => isFalse (by simp [Shared.Kind, h])

instance (cfg : BridgeConfig) (lib : Nlohmann) : (websocketsSubscribe cfg lib).Decided where
  run sh _ x c :=
    match x with
    | .batch (.handle k _ raw) =>
      decidable_of_iff ((sh.bridge k c.bridge).Accepts cfg lib raw → sh.Kind (sh.conn k) true)
        ⟨by rintro h _ _ _ ⟨⟩; exact h, fun h => h _ _ _ rfl⟩
    | .body _ | .send _ | .batch (.job ..) | .batch (.done ..) | .batch (.store ..)
    | .batch (.countDown _) | .batch (.flush _) | .batch (.send ..) => isTrue (by rintro _ _ _ ⟨⟩)
  enter _ _ _ := isTrue trivial

/-! ### One section of a batch

Three sections of a batch are of interest: the one that handles a request may register a
subscriber, the one that flushes takes the slots, and the last one sends. -/

theorem subscribers_subscribed {x : Dispatcher.Section} {sid : Nat} {s : Subscriber}
    (hs : (sh.subscribed cfg lib x c).subscribers sid = some s) :
    sh.subscribers sid = some s ∨ ∃ k i raw, x = .handle k i raw ∧ s.conn = sh.conn k ∧
      (sh.bridge k c.bridge).Accepts cfg lib raw := by
  unfold Shared.subscribed at hs
  split at hs
  · rename_i k i raw
    split at hs
    · rename_i out now hout
      rcases registers_handleOne hout sid s hs with hknown | ⟨hconn, haccepts⟩
      · exact .inl hknown
      · exact .inr ⟨k, i, raw, rfl, hconn, haccepts⟩
    · exact .inl hs
  · split at hs
    · exact .inl hs
    · rename_i sid' _
      have hs : Function.update sh.subscribers sid' none sid = some s := hs
      rw [Function.update_apply] at hs
      split at hs
      · cases hs
      · exact .inl hs
  · exact .inl hs

theorem mem_answer {x : Dispatcher.Section} {y : Section} (hy : y ∈ sh.answer lib x) :
    ∃ k slots b frame, x = .send k slots ∧ sh.batches.batch k = some b ∧
      flush lib b.single b.restShape slots = .ok frame ∧ y = .send ⟨sh.conn k, .batch k, frame⟩ := by
  unfold Shared.answer at hy
  split at hy
  · rename_i k slots
    split at hy
    · cases hy
    · rename_i b hb
      split at hy
      · rename_i frame hframe
        exact ⟨k, slots, b, frame, rfl, hb, hframe, List.mem_singleton.mp hy⟩
      · cases hy
  · cases hy

theorem Does.sent {told : Dispatcher.Choice} {x : Dispatcher.Section} {b b' : Batch}
    {made : List Dispatcher.Section} (h : Does cfg lib told x b b' made) : b.sent ⊆ b'.sent := by
  cases h with
  | sends _ => exact List.subset_append_left _ _
  | _ => exact fun _ hf => hf

/-- **A section of a batch** sends the frame that the batch sent, and registers a subscriber for a
WebSocket alone. -/
theorem Accounted.ofBatch {x : Dispatcher.Section} {b : Batch} (h : Accounted cfg lib sh p)
    (hb : sh.batches.batch x.batch = some b)
    (hguard : ∀ k i raw, x = .handle k i raw → (sh.bridge k c.bridge).Accepts cfg lib raw →
      sh.Kind (sh.conn k) true)
    (hstep : sh.ofBatch cfg lib x c = some e) : Accounted cfg lib e.shared (e.made + p) := by
  have hkept := kept_ofBatch hb hstep
  rcases ofBatch_cases hb hstep with ⟨b', made, hdoes, hshared, hmade⟩ | ⟨hshared, hmade⟩
  · obtain ⟨subscribers, next, hsubscribed⟩ := sh.subscribed_eq cfg lib x c
    have hbatch (k : Nat) : e.shared.batches.batch k =
        if k = x.batch then some b' else sh.batches.batch k := by
      rw [hshared]
      exact Batches.batch_put _ _ _ _
    have hconn : e.shared.conn = sh.conn := by rw [hshared, hsubscribed]
    -- a batch keeps its body whatever it does, and sends at most the frame it was flushed to
    have hgrows : Grows sh e.shared := by
      refine hkept.grows fun k b₀ hb₀ => ⟨congrFun hconn k, ?_⟩
      rw [hbatch]
      split
      · rename_i hk
        obtain rfl : b₀ = b := Option.some.inj (hb₀.symm.trans (hk ▸ hb))
        obtain ⟨-, -, hroute, hbody, -⟩ := hdoes.keeps
        exact ⟨b', rfl, hroute, hbody, Does.sent hdoes⟩
      · exact ⟨b₀, hb₀, rfl, rfl, fun _ hf => hf⟩
    refine h.grow hgrows (fun q hq => .inl (hkept.queued ▸ hq)) (fun y hy => ?_)
      (fun sid s hs => ?_) fun k b₀ hb₀ => ?_
    · rw [hmade] at hy
      rcases List.mem_append.mp (Multiset.mem_coe.mp hy) with hy | hy
      -- its own next sections owe nothing; a `send` owes the frame that the batch has just sent off
      · obtain ⟨z, -, rfl⟩ := List.mem_map.mp hy
        trivial
      · obtain ⟨k, slots, b₀, frame, rfl, hb₀, hframe, rfl⟩ := mem_answer hy
        obtain rfl : b₀ = b := Option.some.inj (hb₀.symm.trans hb)
        cases hdoes with
        | sends hflush =>
            obtain rfl := Except.ok.inj (hframe.symm.trans hflush)
            refine ⟨b₀.sentOff frame, ?_, congrFun hconn k, ?_⟩
            · exact (hbatch k).trans (if_pos rfl)
            · exact List.mem_append_right _ (List.mem_singleton_self frame)
    · have hs : (sh.subscribed cfg lib x c).subscribers sid = some s := by
        rw [hshared] at hs
        exact hs
      -- a subscriber that was not there is that of the request, whose connection is a WebSocket by
      -- the guard
      rcases subscribers_subscribed hs with hs | ⟨k, i, raw, hx, hsconn, haccepts⟩
      · exact .inl hs
      · rw [hsconn]
        exact .inr (hgrows.kind (hguard k i raw hx haccepts))
    · rw [hbatch] at hb₀
      split at hb₀
      · rename_i hk
        exact .inl ⟨b, hk ▸ hb⟩
      · exact .inl ⟨b₀, hb₀⟩
  · refine h.kept hkept (by rw [hshared]; rfl) (by rw [hshared]; rfl) (fun y hy => ?_) fun sid s hs => ?_
    · rw [hmade] at hy
      exact (Multiset.notMem_zero y hy).elim
    · rw [hshared] at hs
      exact hs

/-! ## The transport

lws takes frames out of the queues and puts none in. -/

theorem Accounted.send (h : Accounted cfg lib sh p) (hq : sh.Vouched cfg lib q) :
    Accounted cfg lib (sh.send cfg q) p := by
  have hgrows : Grows sh (sh.send cfg q) :=
    ⟨fun _ _ hc => hc, fun _ hx => hx, fun k b hb => ⟨rfl, b, hb, rfl, rfl, fun _ hf => hf⟩⟩
  have hqueued : ∀ r ∈ (sh.send cfg q).queued, r ∈ sh.queued ∨ r = q := by
    intro r hr
    unfold Shared.send at hr
    dsimp only at hr
    split at hr
    · rcases List.mem_append.mp hr with hr | hr
      · exact .inl hr
      · exact .inr (List.mem_singleton.mp hr)
    · exact .inl hr
  refine ⟨fun r hr => ?_, fun x hx => hgrows.due (h.due x hx), h.subscribers, h.batches⟩
  rcases hqueued r hr with hr | rfl
  · exact hgrows.vouched (h.queued r hr)
  · exact hgrows.vouched hq

/-- A callback hands out bodies, and a connection that it opens has its page. -/
theorem Accounted.callback {wsi : Nat} {cb : Callback} {a : Server.Answers}
    (h : Accounted cfg lib sh p) (hrecorded : Recorded sh)
    (hstep : sh.callback cfg checkBearer wsi cb a = some e) :
    Accounted cfg lib e.shared (e.made + p) := by
  obtain ⟨k, posted, hk, hd, hmade, hshared⟩ := callback_cases hstep
  -- what both cases have in common
  have hgrow (hopened : ∀ id c, sh.opened id = some c → e.shared.opened id = some c)
      (hbodies : e.shared.bodies = sh.bodies ++ posted) (hbatches : e.shared.batches = sh.batches)
      (hconn : e.shared.conn = sh.conn) (hsubscribers : e.shared.subscribers = sh.subscribers)
      (hqueued : ∀ q ∈ e.shared.queued, q ∈ sh.queued ∨ e.shared.Vouched cfg lib q) :
      Accounted cfg lib e.shared (e.made + p) := by
    have hgrows : Grows sh e.shared := by
      refine ⟨hopened, fun x hx => ?_, fun k b hb => ⟨congrFun hconn k, b, ?_, rfl, rfl, ?_⟩⟩
      · rw [hbodies]
        exact List.mem_append_left _ hx
      · rw [hbatches]
        exact hb
      · exact fun _ hf => hf
    refine h.grow hgrows hqueued (fun x hx => ?_) (fun sid s hs => .inl (hsubscribers ▸ hs))
      fun k b hb => .inl ⟨b, hbatches ▸ hb⟩
    rw [hmade] at hx
    obtain ⟨y, hy, rfl⟩ := List.mem_map.mp (Multiset.mem_coe.mp hx)
    show y ∈ e.shared.bodies
    rw [hbodies]
    exact List.mem_append_right _ hy
  rcases hshared with ⟨hshared, -⟩ | ⟨c, hshared, hne, hc⟩
  · rw [hshared] at hgrow ⊢
    exact hgrow (fun _ _ hc => hc) rfl rfl rfl rfl fun q hq => .inl hq
  · obtain ⟨hid, -, -⟩ : c.id = sh.world.server.nextConnId ∧ _ ∧ _ := by
      rw [hshared] at hne hc
      exact opens_new hrecorded.served.wired hne hc
    have hopened (id : Nat) : e.shared.opened id =
        if id = c.id then some c else sh.opened id := by
      rw [hshared]
      exact Function.update_apply _ _ _ _
    refine hgrow (fun id o ho => ?_) (by rw [hshared]; rfl) (by rw [hshared]; rfl)
      (by rw [hshared]; rfl) (by rw [hshared]; rfl) fun q hq => ?_
    · rw [hopened, if_neg ?_]
      · exact ho
      · rintro rfl
        rw [hrecorded.unopened _ hid.ge] at ho
        cases ho
    · have hq : q ∈ sh.queued ++ c.outbound.map (⟨c.id, .page, ·⟩) := by
        rw [hshared] at hq
        exact hq
      rcases List.mem_append.mp hq with hq | hq
      · exact .inl hq
      · obtain ⟨f, hf, rfl⟩ := List.mem_map.mp hq
        exact .inr ⟨c, (hopened c.id).trans (if_pos rfl), hf⟩

/-! ## Every step

Each section and each entry is one of the cases above. -/

theorem Accounted.exec (h : Accounted cfg lib sh (x ::ₘ others)) (hhoused : Housed sh (x ::ₘ others))
    (hguard : (websocketsSubscribe cfg lib).run sh (x ::ₘ others) x c)
    (hexec : exec cfg lib sh x c = some e) : Accounted cfg lib e.shared (e.made + others) := by
  have hdue := h.due x (Multiset.mem_cons_self _ _)
  have hothers : Accounted cfg lib sh others :=
    ⟨h.queued, fun y hy => h.due y (Multiset.mem_cons_of_mem hy), h.subscribers, h.batches⟩
  unfold Core.exec at hexec
  split at hexec
  · cases hexec
  cases x with
  | body posted =>
      cases hexec
      exact hothers.onBody (hhoused.congr rfl rfl fun y hy => Multiset.mem_cons_of_mem hy) hdue _
  | send q =>
      cases hexec
      exact (zero_add others).symm ▸ hothers.send hdue
  | batch x =>
      obtain ⟨b, hb⟩ := hhoused.housed x (Multiset.mem_cons_self _ _)
      refine hothers.ofBatch hb (fun k i raw hx => ?_) hexec
      exact hguard k i raw (hx ▸ rfl)

theorem Accounted.enter {ev : Entry} (h : Accounted cfg lib sh p) (hrecorded : Recorded sh)
    (henter : enter cfg checkBearer lib sh ev = some e) : Accounted cfg lib e.shared (e.made + p) := by
  unfold Core.enter at henter
  split at henter
  · cases henter
  cases ev with
  | transport ev =>
      cases ev with
      | callback wsi cb a => exact h.callback hrecorded henter
      | send id frame => cases henter
      | requestClose id why => cases henter
      | _ =>
          obtain ⟨w, hw, rfl⟩ := Option.map_eq_some_iff.mp henter
          exact (zero_add p).symm ▸ ⟨h.queued, h.due, h.subscribers, h.batches⟩
  | event d ts =>
      cases henter
      unfold Shared.onEvent
      split
      · exact (zero_add p).symm ▸ h
      · rename_i s hs
        exact h.sends fun frame _ => h.subscribers _ s hs
  | lost sid module event why =>
      cases henter
      unfold Shared.onSubscriptionLost
      split
      · exact (zero_add p).symm ▸ h
      · rename_i s hs
        exact (h.forget sid).sends fun frame _ => h.subscribers _ s hs
  | forget sid =>
      cases henter
      exact (zero_add p).symm ▸ h.forget sid

/-! ## Every run

The first frame of an HTTP connection is then a refusal or the frame of a batch, of its own body:
notices go to WebSockets. -/

/-- What the client of a `POST` may rely on: one response at most, which is what its own body led
to; and no notification, neither in a queue nor as a response. -/
structure OwnAnswers (cfg : BridgeConfig) (lib : Nlohmann) (sh : Shared) : Prop where
  once : ∀ id, begunOn sh.responses id ≤ 1
  own : ∀ r ∈ sh.responses, sh.Post r.conn →
    sh.Answered r.conn r.body ∨ ∃ route body, sh.Refused cfg lib r.conn route body r.body
  silent : ∀ q ∈ sh.queued, q.origin.isNotification = true → sh.Kind q.conn true
  written : ∀ r ∈ sh.responses,
    ∃ q ∈ sh.queued, q.conn = r.conn ∧ q.frame = r.body ∧ q.origin.isNotification = false

theorem Accounted.silent (h : Accounted cfg lib sh p) (hq : q ∈ sh.queued)
    (hnotification : q.origin.isNotification = true) : sh.Kind q.conn true := by
  have hvouched := h.queued q hq
  obtain ⟨conn, origin, frame⟩ := q
  cases origin with
  | event sid => exact hvouched
  | terminated sid => exact hvouched
  | _ => cases hnotification

theorem Accounted.ownAnswers (h : Accounted cfg lib sh p) (hrecorded : Recorded sh) :
    OwnAnswers cfg lib sh where
  once := hrecorded.served.once
  silent q hq := h.silent hq
  written r hr := by
    obtain ⟨⟨q, hq, hconn, hframe⟩, c, hc, hhttp⟩ := hrecorded.responses r hr
    refine ⟨q, hq, hconn, hframe, Bool.eq_false_iff.mpr fun hnotification => ?_⟩
    obtain ⟨c', hc', hws⟩ := h.silent hq hnotification
    rw [hconn, hc] at hc'
    cases hc'
    exact Bool.noConfusion (hhttp.symm.trans hws)
  own r hr hpost := by
    obtain ⟨c, hc, hhttp, hroute⟩ := hpost
    obtain ⟨⟨q, hq, hconn, hframe⟩, -⟩ := hrecorded.responses r hr
    have hvouched := h.queued q hq
    obtain ⟨conn, origin, frame⟩ := q
    obtain rfl : conn = r.conn := hconn
    obtain rfl : frame = r.body := hframe
    cases origin with
    | refusal route body => exact .inr ⟨route, body, hvouched⟩
    | batch k =>
        obtain ⟨b, hb, hsame, hsent⟩ := hvouched
        have hsame : sh.conn k = r.conn := hsame
        exact .inl ⟨k, b, hb, hsame, hsame ▸ h.batches k b hb, hsent⟩
    | page =>
        obtain ⟨c', hc', hpage⟩ := hvouched
        obtain rfl : c = c' := Option.some.inj (hc.symm.trans hc')
        rw [(hrecorded.posts _ c hc).resolve_left hroute] at hpage
        exact (List.not_mem_nil hpage).elim
    | event sid =>
        obtain ⟨c', hc', hws⟩ := hvouched
        obtain rfl : c = c' := Option.some.inj (hc.symm.trans hc')
        exact Bool.noConfusion (hhttp.symm.trans hws)
    | terminated sid =>
        obtain ⟨c', hc', hws⟩ := hvouched
        obtain rfl : c = c' := Option.some.inj (hc.symm.trans hc')
        exact Bool.noConfusion (hhttp.symm.trans hws)

/-! ### The theorem

The records of the transport hold in every run, under whatever guard, and the guard is used for
`Accounted` alone. -/

theorem recorded_of_run {G : Guard Shared Section Choice Entry} {s : State Shared Section}
    (hrun : Run (core cfg checkBearer lib) G start s) : Recorded s.shared :=
  Run.invariant_with (I := fun sh _ => Recorded sh) (fun _ hrun => housed_of_run hrun) recorded_start
    (fun hhoused h _ hexec => h.exec hhoused hexec) (fun _ h _ henter => h.enter henter) hrun

/-- **A `POST` gets its own answer**, once, and no notification comes to an HTTP connection, in
every run in which no `rpc.subscribe` is accepted over HTTP. -/
theorem posts_get_their_own_answer (cfg : BridgeConfig) (checkBearer : Option (Bytes → Bool))
    (lib : Nlohmann) (s : State Shared Section)
    (hrun : Run (core cfg checkBearer lib) (websocketsSubscribe cfg lib) start s) :
    OwnAnswers cfg lib s.shared := by
  have haccounted : Accounted cfg lib s.shared s.pending := by
    have hstart : Accounted cfg lib {} 0 :=
      ⟨fun q hq => (List.not_mem_nil hq).elim, fun x hx => (Multiset.notMem_zero x hx).elim,
        fun _ _ hs => (nomatch hs), fun _ _ hb => (nomatch hb)⟩
    apply Run.invariant_with (J := fun sh p => Housed sh p ∧ Recorded sh)
      (fun _ hrun => ⟨housed_of_run hrun, recorded_of_run hrun⟩) hstart ?_ ?_ hrun
    · exact fun hknown h hguard hexec => h.exec hknown.1 hguard hexec
    · exact fun hknown h _ henter => h.enter hknown.2 henter
  exact haccounted.ownAnswers (recorded_of_run hrun)

/-! ## `POST`s and events

Two runs. In the first the subscriber is a WebSocket, and two `POST`s on one socket get their own
answers; in the second a `POST` subscribes, and its response is the event. -/

/-- `{"jsonrpc":"2.0","id":7,"method":"rpc.ping"}`, and its value. -/
def pingText : Bytes := str "\x7b\"jsonrpc\":\"2.0\",\"id\":7,\"method\":\"rpc.ping\"\x7d"

def pingJson : Json :=
  Json.object [(str "jsonrpc", .str (str "2.0")), (str "id", .uint 7), (str "method", .str kPing)]

/-- `{"jsonrpc":"2.0","id":7,"method":"rpc.subscribe",`
`"params":{"subscription":"s","module":"m1","event":"e"}}`, and its value. -/
def subscribeText : Bytes := str
  ("\x7b\"jsonrpc\":\"2.0\",\"id\":7,\"method\":\"rpc.subscribe\"," ++
    "\"params\":\x7b\"subscription\":\"s\",\"module\":\"m1\",\"event\":\"e\"\x7d\x7d")

def subscribeJson : Json :=
  Json.object [(str "jsonrpc", .str (str "2.0")), (str "id", .uint 7), (str "method", .str kSubscribe),
    (str "params", Json.object [(str "subscription", .str (str "s")), (str "module", .str (str "m1")),
      (str "event", .str (str "e"))])]

def postLib : Nlohmann :=
  { ((minimalLib.also pingText pingJson (by decide)).also subscribeText subscribeJson (by decide)) with
    text := Json.compact
    textReplacing := Json.compact }

theorem parse_postLib :
    parseBridgeConfig postLib (str "json_rpc_bridge") minimalText = .ok minimalConfig := by rfl

/-! ### The moves of the two runs -/

/-- A `POST` is read on the socket 1. -/
def postMoves (length body : Bytes) : List (Move Choice Entry) :=
  [.enter (.transport (.headers 1
    { host := str "localhost", postUri := str "/", contentType := str "application/json"
      contentLength := length })),
   .enter (.transport (.callback 1 (.http (some (str "/"))) {})),
   .enter (.transport (.callback 1 (.httpBody body) {})),
   .enter (.transport (.callback 1 .httpBodyCompletion {}))]

/-- An event comes to the first subscriber, and its frame is queued. -/
def eventMoves (ts : Int) (thread : Nat) : List (Move Choice Entry) :=
  [.enter (.event ⟨1, str "m1", str "e", .null, 1⟩ ts), .run thread {}]

def connectMove : Move Choice Entry := .enter (.transport (.connect 1 (str "127.0.0.1") false))
def writeMove : Move Choice Entry := .enter (.transport (.callback 1 .httpWriteable {}))

/-- A WebSocket subscribes; an event comes before the acknowledgement is sent. -/
def subscribeMoves : List (Move Choice Entry) :=
  [.enter (.transport (.connect 2 (str "127.0.0.1") false)),
   .enter (.transport (.headers 2 { host := str "localhost" })),
   .enter (.transport (.callback 2 .filterProtocolConnection {})),
   .enter (.transport (.callback 2 .established {})),
   .enter (.transport (.callback 2 (.receive subscribeText false true) {})),
   .run 4 {}, .run 4 {}, .run 5 {}] ++ eventMoves 0 6 ++
  [.run 5 {}, .run 5 {}, .run 5 {}, .run 5 {}, .run 5 {}]

/-- Its batch of one request is run by the thread, and lws writes. -/
def answerMoves (thread : Nat) : List (Move Choice Entry) :=
  List.replicate 7 (.run thread {}) ++ [writeMove]

/-- Two `POST`s on one socket that is kept alive. An event comes while the first is answered, and
the subscription is lost while the second is. -/
def twoPostMoves : List (Move Choice Entry) :=
  subscribeMoves ++ connectMove :: postMoves (str "44") pingText ++ eventMoves 5 12 ++
    answerMoves 11 ++ postMoves (str "44") pingText ++
    [.enter (.lost 1 (str "m1") (str "e") (str "unloaded")), .run 18 {}] ++ answerMoves 17

/-- A `POST` subscribes. The hub has the subscription, and an event comes before the job has filled
its slot. -/
def postSubscribesMoves : List (Move Choice Entry) :=
  connectMove :: postMoves (str "105") subscribeText ++ [.run 4 {}, .run 4 {}, .run 5 {}] ++
    eventMoves 0 6 ++ [writeMove]

/-- `{"id":7,"jsonrpc":"2.0","result":"pong"}`. -/
def pongFrame : Bytes := str "\x7b\"id\":7,\"jsonrpc\":\"2.0\",\"result\":\"pong\"\x7d"

/-- Two `POST`s get their own answers, while a WebSocket is told of events and of the loss. -/
theorem posts_get_their_own_answer_ping : ∃ s,
    Run (core minimalConfig none postLib) (websocketsSubscribe minimalConfig postLib) start s ∧
    s.shared.responses.map (fun r => (r.conn, r.body)) = [(2, pongFrame), (3, pongFrame)] ∧
    s.shared.queued.map (fun q => (q.conn, q.origin)) =
      [(1, .event 1), (1, .batch 0), (1, .event 1), (2, .batch 1), (1, .terminated 1),
        (3, .batch 2)] ∧
    OwnAnswers minimalConfig postLib s.shared := by
  have hmoves : ((core minimalConfig none postLib).replayUnder
      (websocketsSubscribe minimalConfig postLib) start twoPostMoves).map
      (fun s => (s.shared.responses.map (fun r => (r.conn, r.body)),
        s.shared.queued.map fun q => (q.conn, q.origin))) =
      some ([(2, pongFrame), (3, pongFrame)],
        [(1, .event 1), (1, .batch 0), (1, .event 1), (2, .batch 1), (1, .terminated 1),
          (3, .batch 2)]) := by
    decide +kernel
  obtain ⟨s, hs, hend⟩ := Option.map_eq_some_iff.mp hmoves
  obtain ⟨hresponses, hqueued⟩ := Prod.mk.inj hend
  have hrun := Run.start.replayUnder hs
  exact ⟨s, hrun, hresponses, hqueued,
    posts_get_their_own_answer minimalConfig none postLib s hrun⟩

/-- `{"jsonrpc":"2.0","method":"rpc.event","params":{"data":null,"event":"e","generation":1,`
`"module":"m1","subscription":"s","ts":0}}`. -/
def eventFrame : Bytes := str
  ("\x7b\"jsonrpc\":\"2.0\",\"method\":\"rpc.event\",\"params\":\x7b\"data\":null,\"event\":\"e\"," ++
    "\"generation\":1,\"module\":\"m1\",\"subscription\":\"s\",\"ts\":0\x7d\x7d")

/-- **The event is the response** of the `POST` that subscribed. -/
theorem not_posts_get_their_own_answer :
    parseBridgeConfig postLib (str "json_rpc_bridge") minimalText = .ok minimalConfig ∧
    ∃ s, Run (core minimalConfig none postLib) Guard.any start s ∧
      s.shared.responses.map (fun r => (r.conn, r.body)) = [(1, eventFrame)] ∧
      ¬OwnAnswers minimalConfig postLib s.shared := by
  refine ⟨parse_postLib, ?_⟩
  have hmoves : ((core minimalConfig none postLib).replay start postSubscribesMoves).map
      (fun s => (s.shared.responses.map (fun r => (r.conn, r.body)),
        s.shared.queued.all (·.origin.isNotification))) = some ([(1, eventFrame)], true) := by
    decide +kernel
  obtain ⟨s, hs, heq⟩ := Option.map_eq_some_iff.mp hmoves
  obtain ⟨hresponses, hqueued⟩ := Prod.mk.inj heq
  refine ⟨s, Run.start.replay hs, hresponses, fun hown => ?_⟩
  obtain ⟨r, hr, -⟩ := List.mem_map.mp (hresponses ▸ List.mem_singleton_self (1, eventFrame))
  obtain ⟨q, hq, -, -, hnone⟩ := hown.written r hr
  exact Bool.noConfusion (hnone.symm.trans (List.all_eq_true.mp hqueued q hq))

end JsonRpcBridge.Core
