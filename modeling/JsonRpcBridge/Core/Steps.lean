import JsonRpcBridge.Core.Model

/-!
# What the sections of the core do

A section of a batch does what `Dispatcher.Does` says, to its own batch alone, or it ends the
process; and the connection of a batch never changes. `Housed` is what makes this usable: every
pending section of a batch is about a batch there is.
-/

namespace JsonRpcBridge.Core

open Interleaving Dispatcher Server

variable {cfg : BridgeConfig} {checkBearer : Option (Bytes → Bool)} {lib : Nlohmann} {sh : Shared}
  {p others : Multiset Section} {e : Effect Shared Section} {c : Choice} {x : Dispatcher.Section}
  {b : Batch}

/-! ## A section of a batch

Either the section raises nothing, and does what `Dispatcher.Does` says, or what it raises ends
the process. -/

/-- What a section of a batch is told and finds. -/
def Shared.choice (sh : Shared) (x : Dispatcher.Section) (c : Choice) : Dispatcher.Choice :=
  { c with bridge := sh.bridge x.batch c.bridge }

@[simp] theorem Shared.batches_subscribed (x : Dispatcher.Section) (c : Choice) :
    (sh.subscribed cfg lib x c).batches = sh.batches := by
  unfold Shared.subscribed
  split
  · split <;> rfl
  · split <;> rfl
  · rfl

/-- Everything but the subscribers is as before. -/
theorem Shared.subscribed_eq (cfg : BridgeConfig) (lib : Nlohmann) (sh : Shared)
    (x : Dispatcher.Section) (c : Choice) :
    ∃ subscribers next, sh.subscribed cfg lib x c =
      { sh with subscribers := subscribers, nextSubscriberId := next } := by
  unfold Shared.subscribed
  split
  · split
    · exact ⟨_, _, rfl⟩
    · exact ⟨_, _, rfl⟩
  · split
    · exact ⟨_, _, rfl⟩
    · exact ⟨_, _, rfl⟩
  · exact ⟨_, _, rfl⟩

theorem send_of_mem_answer {y : Section} (h : y ∈ sh.answer lib x) : ∃ q, y = .send q := by
  unfold Shared.answer at h
  split at h
  · split at h
    · cases h
    · split at h
      · exact ⟨_, List.mem_singleton.mp h⟩
      · cases h
  · cases h

/-! ### Raising, or doing

An exception is not caught inside the section, so what it has done by then is what the state is
left with: nothing but the crash. -/

/-- A section that raises does nothing else. -/
theorem of_not_quiet (hb : sh.batches.batch x.batch = some b)
    (hraises : ¬x.Quiet cfg lib (sh.choice x c) b) :
    sh.subscribed cfg lib x c = sh ∧ sh.answer lib x = [] := by
  cases x with
  | handle k i raw =>
      refine ⟨?_, rfl⟩
      have hraises : ¬Quiet (handleOne cfg lib (sh.bridge k c.bridge) raw) := hraises
      unfold Shared.subscribed
      dsimp only
      split
      · rename_i out now hout
        exact absurd ⟨_, hout⟩ hraises
      · rfl
  | send k slots =>
      refine ⟨rfl, ?_⟩
      have hb : sh.batches.batch k = some b := hb
      have hraises : ¬Quiet (flush lib b.single b.restShape slots) := hraises
      unfold Shared.answer
      dsimp only
      rw [hb]
      dsimp only
      split
      · rename_i frame hframe
        exact absurd ⟨_, hframe⟩ hraises
      · rfl
  | _ => exact absurd trivial hraises

theorem ofBatch_cases (hb : sh.batches.batch x.batch = some b)
    (h : sh.ofBatch cfg lib x c = some e) :
    (∃ b' made, Does cfg lib (sh.choice x c) x b b' made ∧
      e.shared = { sh.subscribed cfg lib x c with batches := sh.batches.put x.batch b' } ∧
      e.made = ↑(made.map Section.batch ++ sh.answer lib x)) ∨
    (e.shared = sh.crash ∧ e.made = 0) := by
  obtain ⟨e₀, hexec, rfl⟩ := Option.map_eq_some_iff.mp h
  have hmade : ∀ (next : List Section) (l : Effect Shared Section),
      ({ l with next := l.next ++ next } : Effect Shared Section).made = l.made + ↑next := by
    intro next l
    rw [Effect.made, Effect.made, List.append_assoc, ← Multiset.coe_add, ← Multiset.coe_add,
      ← Multiset.coe_add, add_assoc, add_comm (↑next : Multiset Section)]
  rcases exec_cases hb hexec with ⟨b', made, hdoes, hshared, hmade₀⟩ | ⟨hraises, hshared, hmade₀⟩
  · refine .inl ⟨b', made, hdoes, ?_, ?_⟩
    · show ({ sh.subscribed cfg lib x c with batches := e₀.shared } : Shared) = _
      rw [hshared]
    · rw [hmade, Effect.made_lift, hmade₀, Multiset.map_coe, Multiset.coe_add]
  · obtain ⟨hsame, hnone⟩ := of_not_quiet hb hraises
    refine .inr ⟨?_, ?_⟩
    · show ({ sh.subscribed cfg lib x c with batches := e₀.shared } : Shared) = _
      rw [hshared, hsame]
      rfl
    · rw [hmade, Effect.made_lift, hmade₀, hnone]
      rfl

/-! ## A frame on its way

A notice that can be dumped makes one `send`; one that cannot makes none and the process ends. -/

/-- A frame is on its way, or the process has ended. -/
theorem sends_cases (sh : Shared) (lib : Nlohmann) (conn : Nat) (origin : Origin) (notice : Json) :
    (∃ frame, lib.dump notice = .ok frame ∧ sh.sends lib conn origin notice =
      { shared := sh, next := [.send ⟨conn, origin, frame⟩] }) ∨
    sh.sends lib conn origin notice = { shared := sh.crash } := by
  unfold Shared.sends
  split
  · rename_i frame hframe
    exact .inl ⟨frame, hframe, rfl⟩
  · exact .inr rfl

theorem send_of_mem_sends {conn : Nat} {origin : Origin} {notice : Json} {y : Section}
    (hy : y ∈ (sh.sends lib conn origin notice).made) : ∃ q, y = .send q := by
  rcases sends_cases sh lib conn origin notice with ⟨frame, -, heq⟩ | heq
  · rw [heq] at hy
    exact ⟨_, List.mem_singleton.mp (Multiset.mem_coe.mp hy)⟩
  · rw [heq] at hy
    exact (Multiset.notMem_zero y hy).elim

theorem conn_sends (conn : Nat) (origin : Origin) (notice : Json) :
    (sh.sends lib conn origin notice).shared.conn = sh.conn := by
  rcases sends_cases sh lib conn origin notice with ⟨frame, -, heq⟩ | heq
  · rw [heq]
  · rw [heq]
    rfl

/-! ## Every batch has its place

A batch is numbered when it is made, and the numbers above are free. -/

/-- Batches are numbered, and every pending section of a batch is about a batch there is. -/
structure Housed (sh : Shared) (p : Multiset Section) : Prop where
  fresh : ∀ k, sh.batches.made ≤ k → sh.batches.batch k = none
  housed : ∀ x, .batch x ∈ p → ∃ b, sh.batches.batch x.batch = some b

theorem Housed.lt (h : Housed sh p) (hx : .batch x ∈ p) : x.batch < sh.batches.made := by
  by_contra hge
  obtain ⟨b, hb⟩ := h.housed x hx
  rw [h.fresh _ (Nat.le_of_not_lt hge)] at hb
  cases hb

theorem housed_start : Housed {} 0 where
  fresh _ _ := rfl
  housed _ hx := (Multiset.notMem_zero _ hx).elim

/-! ### It is kept

A body adds a batch under the next number. Everything else works on batches there are. -/

/-- A step that is not about a batch. -/
theorem Housed.congr {sh' : Shared} {p' : Multiset Section} (h : Housed sh p)
    (hbatch : sh'.batches.batch = sh.batches.batch) (hmade : sh'.batches.made = sh.batches.made)
    (hp : ∀ x, .batch x ∈ p' → .batch x ∈ p) : Housed sh' p' where
  fresh k hk := by
    rw [hbatch]
    exact h.fresh k (hmade ▸ hk)
  housed x hx := by
    rw [hbatch]
    exact h.housed x (hp x hx)

theorem Housed.sends (h : Housed sh p) (conn : Nat) (origin : Origin) (notice : Json) :
    Housed (sh.sends lib conn origin notice).shared
      ((sh.sends lib conn origin notice).made + p) := by
  rcases sends_cases sh lib conn origin notice with ⟨frame, -, heq⟩ | heq
  · rw [heq]
    refine h.congr rfl rfl fun x hx => ?_
    rcases Multiset.mem_add.mp hx with hx | hx
    · cases List.mem_singleton.mp (Multiset.mem_coe.mp hx)
    · exact hx
  · rw [heq]
    exact h.congr rfl rfl fun x hx => (zero_add p) ▸ hx

theorem made_onBody {posted : Posted} {draining : Bool} {y : Section}
    (hy : y ∈ (sh.onBody cfg lib posted draining).made) :
    (∃ q, y = .send q) ∨ ∃ i raw, y = .batch (.handle sh.batches.made i raw) := by
  unfold Shared.onBody at hy
  split at hy
  · exact .inl (send_of_mem_sends hy)
  · have hy := Multiset.mem_coe.mp hy
    rw [List.flatten_nil, List.append_nil] at hy
    obtain ⟨i, hi, rfl⟩ := List.mem_mapIdx.mp hy
    exact .inr ⟨i, _, rfl⟩

theorem Housed.onBody (h : Housed sh p) (posted : Posted) (draining : Bool) :
    Housed (sh.onBody cfg lib posted draining).shared
      ((sh.onBody cfg lib posted draining).made + p) := by
  have hmade := @made_onBody cfg lib sh posted draining
  unfold Shared.onBody at hmade ⊢
  split
  · exact h.sends _ _ _
  · rename_i hread
    rw [hread] at hmade
    refine ⟨fun k hk => ?_, fun x hx => ?_⟩
    · rw [Batches.made_add] at hk
      rw [Batches.batch_add, if_neg (by omega)]
      exact h.fresh k (by omega)
    · rw [Batches.batch_add]
      rcases Multiset.mem_add.mp hx with hx | hx
      · rcases hmade hx with ⟨q, hq⟩ | ⟨i, raw, heq⟩
        · cases hq
        · cases heq
          exact ⟨_, if_pos rfl⟩
      · rw [if_neg (h.lt hx).ne]
        exact h.housed x hx

theorem Housed.exec {x : Section} (h : Housed sh (x ::ₘ others))
    (hexec : exec cfg lib sh x c = some e) : Housed e.shared (e.made + others) := by
  have hothers : Housed sh others := h.congr rfl rfl fun y hy => Multiset.mem_cons_of_mem hy
  unfold Core.exec at hexec
  split at hexec
  · cases hexec
  cases x with
  | body posted =>
      cases hexec
      exact hothers.onBody _ _
  | send q =>
      cases hexec
      exact hothers.congr rfl rfl fun x hx => (zero_add others) ▸ hx
  | batch x =>
      obtain ⟨b, hb⟩ := h.housed x (Multiset.mem_cons_self _ _)
      rcases ofBatch_cases hb hexec with ⟨b', made, hdoes, hshared, hmade⟩ | ⟨hshared, hmade⟩
      · rw [hshared, hmade]
        have hbatches : ∀ k, (sh.batches.put x.batch b').batch k =
            if k = x.batch then some b' else sh.batches.batch k := Batches.batch_put _ _ _
        refine ⟨fun k hk => ?_, fun y hy => ?_⟩
        · rw [hbatches, if_neg (Nat.ne_of_gt (Nat.lt_of_lt_of_le (h.lt (Multiset.mem_cons_self _ _)) hk))]
          exact h.fresh k hk
        · rw [hbatches]
          split
          · exact ⟨b', rfl⟩
          · rename_i hne
            rcases Multiset.mem_add.mp hy with hy | hy
            · rcases List.mem_append.mp (Multiset.mem_coe.mp hy) with hy | hy
              · obtain ⟨z, hz, heq⟩ := List.mem_map.mp hy
                cases heq
                exact absurd (hdoes.keeps.1 _ hz) hne
              · obtain ⟨q, hq⟩ := send_of_mem_answer hy
                cases hq
            · exact hothers.housed y hy
      · rw [hshared, hmade]
        exact hothers.congr rfl rfl fun x hx => (zero_add others) ▸ hx

/-! ## A callback

The state after a callback, in one expression, for those who only look at parts of it. -/

/-- The state after a callback, but for the connection that it opens. -/
def Shared.called (cfg : BridgeConfig) (checkBearer : Option (Bytes → Bool)) (sh : Shared)
    (wsi : Nat) (k : Socket) (cb : Callback) (a : Answers) (posted : List Posted) : Shared :=
  { sh with
    world := sh.world.deliver cfg checkBearer wsi k cb a
    bodies := sh.bodies ++ posted
    responses := sh.responses ++ (begun sh.world.server wsi a cb).toList }

theorem callback_cases {wsi : Nat} {cb : Callback} {a : Answers}
    (hstep : sh.callback cfg checkBearer wsi cb a = some e) :
    ∃ k posted, sh.world.sockets wsi = some k ∧ k.phase.delivers cb = true ∧
      e.made = ↑(posted.map Section.body) ∧
      ((e.shared = sh.called cfg checkBearer wsi k cb a posted ∧
          (e.shared.world.server.nextConnId ≠ sh.world.server.nextConnId →
            e.shared.world.server.lookup wsi = none)) ∨
        ∃ c, e.shared = (sh.called cfg checkBearer wsi k cb a posted).opens c ∧
          e.shared.world.server.nextConnId ≠ sh.world.server.nextConnId ∧
          e.shared.world.server.lookup wsi = some c) := by
  obtain ⟨w, hw, rfl⟩ := Option.map_eq_some_iff.mp hstep
  obtain ⟨k, hk, hd, rfl⟩ : ∃ k, sh.world.sockets wsi = some k ∧ k.phase.delivers cb = true ∧
      sh.world.deliver cfg checkBearer wsi k cb a = w := by
    unfold World.step at hw
    dsimp only at hw
    split at hw
    · cases hw
    · rename_i k hk
      split_ifs at hw with hd
      exact ⟨k, hk, hd, Option.some.inj hw⟩
  let posted := Shared.bodiesOf
    ((sh.world.deliver cfg checkBearer wsi k cb a).history.drop sh.world.history.length)
  refine ⟨k, posted, hk, hd, ?_, ?_⟩
  · show (↑(_ ++ ([] : List (List Section)).flatten) : Multiset Section) = _
    rw [List.flatten_nil, List.append_nil]
  · dsimp only
    split
    · rename_i hsame
      exact .inl ⟨rfl, fun hne => absurd hsame hne⟩
    · rename_i hne
      split
      · rename_i hnone
        exact .inl ⟨rfl, fun _ => hnone⟩
      · rename_i c hc
        exact .inr ⟨c, rfl, hne, hc⟩

theorem Housed.callback (h : Housed sh p) {wsi : Nat} {cb : Callback} {a : Answers}
    (hstep : sh.callback cfg checkBearer wsi cb a = some e) : Housed e.shared (e.made + p) := by
  obtain ⟨k, posted, -, -, hmade, hshared⟩ := callback_cases hstep
  have hbatches : e.shared.batches = sh.batches := by
    rcases hshared with ⟨hshared, -⟩ | ⟨c, hshared, -⟩
    · rw [hshared]
      rfl
    · rw [hshared]
      rfl
  refine h.congr (hbatches ▸ rfl) (hbatches ▸ rfl) fun x hx => ?_
  rw [hmade] at hx
  rcases Multiset.mem_add.mp hx with hx | hx
  · obtain ⟨_, _, heq⟩ := List.mem_map.mp (Multiset.mem_coe.mp hx)
    cases heq
  · exact hx

theorem Housed.enter {ev : Entry} (h : Housed sh p)
    (henter : enter cfg checkBearer lib sh ev = some e) : Housed e.shared (e.made + p) := by
  have hsame {sh' : Shared} (hbatch : sh'.batches = sh.batches) :
      Housed sh' ((⟨sh', [], []⟩ : Effect Shared Section).made + p) := by
    exact h.congr (hbatch ▸ rfl) (hbatch ▸ rfl) fun x hx => (zero_add p) ▸ hx
  unfold Core.enter at henter
  split at henter
  · cases henter
  cases ev with
  | transport ev =>
      cases ev with
      | callback wsi cb a => exact h.callback henter
      | send id frame => cases henter
      | requestClose id why => cases henter
      | _ =>
          obtain ⟨w, -, rfl⟩ := Option.map_eq_some_iff.mp henter
          exact hsame rfl
  | event d ts =>
      cases henter
      unfold Shared.onEvent
      split
      · exact hsame rfl
      · exact h.sends _ _ _
  | lost sid module event why =>
      cases henter
      unfold Shared.onSubscriptionLost
      split
      · exact hsame rfl
      · have hforget : Housed (sh.forget sid) p := h.congr rfl rfl fun _ hx => hx
        exact hforget.sends _ _ _
  | forget sid =>
      cases henter
      exact hsame rfl

/-- From outside comes a body to read or a frame to send. -/
theorem made_enter {ev : Entry} (henter : enter cfg checkBearer lib sh ev = some e) {y : Section}
    (hy : y ∈ e.made) : (∃ p, y = .body p) ∨ ∃ q, y = .send q := by
  unfold Core.enter at henter
  split at henter
  · cases henter
  cases ev with
  | transport ev =>
      cases ev with
      | callback wsi cb a =>
          obtain ⟨k, posted, -, -, hmade, -⟩ := callback_cases henter
          rw [hmade] at hy
          obtain ⟨p, -, rfl⟩ := List.mem_map.mp (Multiset.mem_coe.mp hy)
          exact .inl ⟨p, rfl⟩
      | send id frame => cases henter
      | requestClose id why => cases henter
      | _ =>
          obtain ⟨w, -, rfl⟩ := Option.map_eq_some_iff.mp henter
          exact (Multiset.notMem_zero y hy).elim
  | event d ts =>
      cases henter
      unfold Shared.onEvent at hy
      split at hy
      · exact (Multiset.notMem_zero y hy).elim
      · exact .inr (send_of_mem_sends hy)
  | lost sid module event why =>
      cases henter
      unfold Shared.onSubscriptionLost at hy
      split at hy
      · exact (Multiset.notMem_zero y hy).elim
      · exact .inr (send_of_mem_sends hy)
  | forget sid =>
      cases henter
      exact (Multiset.notMem_zero y hy).elim

/-! ## The connection of a batch

It is written once, with the batch. -/

/-- It stays. -/
theorem conn_exec {x : Section} (h : Housed sh (x ::ₘ others))
    (hexec : exec cfg lib sh x c = some e) {k : Nat} (hk : k < sh.batches.made) :
    e.shared.conn k = sh.conn k := by
  unfold Core.exec at hexec
  split at hexec
  · cases hexec
  cases x with
  | body posted =>
      cases hexec
      unfold Shared.onBody
      split
      · exact congrFun (conn_sends _ _ _) k
      · exact Function.update_of_ne hk.ne _ _
  | send q =>
      cases hexec
      rfl
  | batch x =>
      obtain ⟨b, hb⟩ := h.housed x (Multiset.mem_cons_self _ _)
      rcases ofBatch_cases hb hexec with ⟨b', made, -, hshared, -⟩ | ⟨hshared, -⟩
      · obtain ⟨subscribers, next, hsubscribed⟩ := sh.subscribed_eq cfg lib x c
        rw [hshared, hsubscribed]
      · rw [hshared]
        rfl

theorem conn_enter {ev : Entry} (henter : enter cfg checkBearer lib sh ev = some e) :
    e.shared.conn = sh.conn := by
  unfold Core.enter at henter
  split at henter
  · cases henter
  cases ev with
  | transport ev =>
      cases ev with
      | callback wsi cb a =>
          obtain ⟨k, posted, -, -, -, ⟨hshared, -⟩ | ⟨c, hshared, -⟩⟩ := callback_cases henter
          · rw [hshared]
            rfl
          · rw [hshared]
            rfl
      | send id frame => cases henter
      | requestClose id why => cases henter
      | _ =>
          obtain ⟨w, -, rfl⟩ := Option.map_eq_some_iff.mp henter
          rfl
  | event d ts =>
      cases henter
      unfold Shared.onEvent
      split
      · rfl
      · exact conn_sends _ _ _
  | lost sid module event why =>
      cases henter
      unfold Shared.onSubscriptionLost
      split
      · rfl
      · exact conn_sends _ _ _
  | forget sid =>
      cases henter
      rfl

theorem housed_of_run {G : Guard Shared Section Choice Entry} {s : State Shared Section}
    (hrun : Run (core cfg checkBearer lib) G start s) : Housed s.shared s.pending :=
  Run.invariant housed_start (fun h _ hexec => h.exec hexec) (fun h _ henter => h.enter henter) hrun

end JsonRpcBridge.Core
