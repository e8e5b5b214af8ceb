import JsonRpcBridge.Config.Parse
import JsonRpcBridge.Core.Steps
import JsonRpcBridge.Dispatcher.Outcomes
import JsonRpcBridge.Interleaving.History

/-!
# Module calls in flight

A module call is in flight from the request that hands it to the pump until upstream has answered
it. Nothing that the core does counts the calls of a connection: `maxInFlightPerConnection` bounds
the requests of one body, and `maxInFlightTotal` nothing at all. So the limits hold as long as bodies
do not arrive too fast (`paced`), which is a condition on what clients send and when.

A place is owed from the body on: to a call in flight, and to a request for a call that has not been
handled. Only a body that `onBody` does not refuse for its size adds to what is owed (`exec_owed`);
a call that is dispatched takes the place that its request had.

* `calls_within_limits`: in every run of bodies that arrive in time, no connection has more calls in
  flight than it may, nor have all of them, and every call that is dispatched finds room.
-/

namespace JsonRpcBridge.Core

open Interleaving Dispatcher Server

/-! ## Calls and their connections

A call belongs to the connection of its batch. It is found among the pending sections: the job
that carries it, or the answer that is awaited. -/

/-- The batch of a call that was dispatched and is not answered. -/
def call? : Section → Option Nat
  | .batch (.job k _ (.call _ _ _ _)) | .batch (.done k _ (.call _ _ _ _)) => some k
  | _ => none

def calls (p : Multiset Section) : Multiset Nat := p.filterMap call?

/-- The connections that calls are in flight for, each as often as it has some. -/
def inFlight (sh : Shared) (p : Multiset Section) : Multiset Nat := (calls p).map sh.conn

/-- The batch that a section dispatches a call for. -/
def dispatches (cfg : BridgeConfig) (lib : Nlohmann) (sh : Shared) (c : Choice) :
    Section → Option Nat
  | .batch (.handle k _ raw) =>
    match handleOne cfg lib (sh.bridge k c.bridge) raw with
    | .ok (.submit (.call _ _ _ _), _) => some k
    | _ => none
  | _ => none

/-! ## What a body asks for

Read off the text of the body: the requests in it that look like module calls, whatever the
bridge will say to them. -/

/-- The request is for a module call: it is an `rpc.call`, or its method is an alias. -/
def wantsCall (raw : Json) : Bool :=
  match parseRequest raw with
  | .ok (.ok req) => req.method == kCall || !isBridgeOp req.method
  | _ => false

/-- The requests that a body is split into, however many they are. -/
def requestsOf (lib : Nlohmann) (route body : Bytes) : List Json :=
  if isRest route then
    match readRest lib (route.drop kModulesPrefix.length) body with
    | .dispatch requests _ _ => requests
    | .answer _ => []
  else
    match splitBody lib body with
    | .ok (requests, _) => requests
    | .error _ => []

/-- The module calls that a body asks for. -/
def callsWanted (lib : Nlohmann) (posted : Posted) : Nat :=
  (requestsOf lib posted.route posted.body).countP wantsCall

/-- `onBody` accepts the body: the bridge is not draining, and there are not more requests in it
than a connection may have calls in flight. -/
def Accepts (cfg : BridgeConfig) (lib : Nlohmann) (posted : Posted) (draining : Bool) : Prop :=
  draining = false ∧
    ((requestsOf lib posted.route posted.body).length : Int) ≤ cfg.limits.maxInFlightPerConnection

instance (cfg : BridgeConfig) (lib : Nlohmann) (posted : Posted) (draining : Bool) :
    Decidable (Accepts cfg lib posted draining) := inferInstanceAs (Decidable (_ ∧ _))

/-! ## Places that are owed

`owed` counts calls in flight and requests that may become calls. It bounds the calls from above,
and only a body raises it. -/

/-- The batch that a section owes a place to: of a call in flight, and of a request for a call. -/
def owes? : Section → Option Nat
  | .batch (.handle k _ raw) => if wantsCall raw then some k else none
  | x => call? x

def owing (p : Multiset Section) : Multiset Nat := p.filterMap owes?

/-- The connections that places are owed to, each as often as it is owed one. -/
def owed (sh : Shared) (p : Multiset Section) : Multiset Nat := (owing p).map sh.conn

/-- The places that running a section adds to those owed. -/
def asked (cfg : BridgeConfig) (lib : Nlohmann) (c : Choice) : Section → Multiset Nat
  | .body posted =>
    if Accepts cfg lib posted c.draining then
      Multiset.replicate (callsWanted lib posted) posted.conn
    else 0
  | _ => 0

variable {cfg : BridgeConfig} {checkBearer : Option (Bytes → Bool)} {lib : Nlohmann} {sh : Shared}
  {p others : Multiset Section} {e : Effect Shared Section} {c : Choice} {x : Section}

/-! ### How places add up

`owing` goes through the pending sections one by one, so a step is seen in what it takes away and
what it adds. -/

theorem owing_add (p q : Multiset Section) : owing (p + q) = owing p + owing q :=
  Multiset.filterMap_add owes? p q

theorem owing_cons (x : Section) (p : Multiset Section) :
    owing (x ::ₘ p) = ↑(owes? x).toList + owing p := filterMap_cons_toList owes? x p

theorem owing_of_none (h : ∀ x ∈ p, owes? x = none) : owing p = 0 := by
  apply Multiset.eq_zero_of_forall_notMem
  intro k hk
  obtain ⟨x, hx, howes⟩ := (Multiset.mem_filterMap _ _).mp hk
  rw [h x hx] at howes
  cases howes

theorem owes?_of_call? {k : Nat} (h : call? x = some k) : owes? x = some k := by
  unfold call? at h
  split at h
  · exact h
  · exact h
  · cases h

/-- A call in flight is owed its place. -/
theorem calls_le_owing (p : Multiset Section) : calls p ≤ owing p := by
  induction p using Multiset.induction_on with
  | empty => exact le_rfl
  | cons x p ih =>
      rw [calls, filterMap_cons_toList, owing_cons]
      refine add_le_add ?_ ih
      cases hcall : call? x with
      | none => exact Multiset.zero_le _
      | some k =>
          rw [owes?_of_call? hcall]

theorem inFlight_le_owed (sh : Shared) (p : Multiset Section) : inFlight sh p ≤ owed sh p :=
  Multiset.map_le_map (calls_le_owing p)

/-! ## One section

A request that is handled gives its place to the call it becomes, or gives it up. -/

/-- Only a request for a call dispatches one. -/
theorem wantsCall_of_submit {b b' : Bridge} {raw id args : Json} {t : CallTarget} {timeoutMs : Int}
    (h : handleOne cfg lib b raw = .ok (.submit (.call id t args timeoutMs), b')) :
    wantsCall raw = true := by
  unfold wantsCall
  cases hparse : parseRequest raw with
  | error err =>
      rw [handleOne, hparse] at h
      cases h
  | ok parsed =>
      cases parsed with
      | error err =>
          rw [handleOne_of_refused hparse] at h
          cases h
      | ok req =>
          rw [handleOne_of_parse hparse] at h
          dsimp only
          by_contra hother
          rw [Bool.not_eq_true, Bool.or_eq_false_iff, beq_eq_false_iff_ne,
            Bool.not_eq_false'] at hother
          obtain ⟨hmethod, hop⟩ := hother
          unfold handleRequest at h
          rw [hop, if_neg (show ¬(!true) = true by decide), beq_false_of_ne hmethod,
            Bool.and_false, if_neg Bool.false_ne_true] at h
          -- no other operation makes a call, whatever call it might be given
          have hanswers : Answers cfg b req.id req.params (.error .invalidUtf8)
              (.submit (.call id t args timeoutMs)) :=
            answers_handleOp (fun hcall => absurd hcall hmethod) h
          cases hanswers with
          | called _ _ _ hcall => cases hcall

/-- A call that is dispatched takes the place that its request was owed. -/
theorem owes?_of_dispatches {k : Nat} (h : dispatches cfg lib sh c x = some k) :
    owes? x = some k := by
  unfold dispatches at h
  split at h
  · split at h
    · rename_i hout
      cases h
      exact if_pos (wantsCall_of_submit hout)
    · cases h
  · cases h

theorem owes?_answer {x : Dispatcher.Section} : ∀ y ∈ sh.answer lib x, owes? y = none := by
  intro y hy
  obtain ⟨q, rfl⟩ := send_of_mem_answer hy
  rfl

/-- A section of a batch leaves no more places owed than it was owed. -/
theorem Does.owing {x : Dispatcher.Section} {b b' : Batch} {made : List Dispatcher.Section}
    (h : Does cfg lib (sh.choice x c) x b b' made) :
    Core.owing ↑(made.map Section.batch) ≤ ↑(owes? (.batch x)).toList := by
  cases h with
  | @submits k i raw b job now hout =>
      cases job with
      | call id t args timeoutMs =>
          unfold owes?
          dsimp only
          rw [wantsCall_of_submit hout, if_pos rfl]
          exact le_rfl
      | discover id openrpc => exact Multiset.zero_le _
      | subscribe id t sid => exact Multiset.zero_le _
  | @invokes k i b job =>
      cases job with
      | call id t args timeoutMs => exact le_rfl
      | discover id openrpc => exact Multiset.zero_le _
      | subscribe id t sid => exact Multiset.zero_le _
  | _ => exact Multiset.zero_le _

/-! ## A batch has its place

A pending section is of a batch that was made, so that a new batch owes nothing before its body. -/

theorem owes?_batch {k : Nat} (h : owes? x = some k) : ∃ y, x = .batch y ∧ y.batch = k := by
  unfold owes? at h
  split at h
  · split at h
    · exact ⟨_, rfl, Option.some.inj h⟩
    · cases h
  · unfold call? at h
    split at h
    · exact ⟨_, rfl, Option.some.inj h⟩
    · exact ⟨_, rfl, Option.some.inj h⟩
    · cases h

theorem Housed.lt_of_mem_owing (h : Housed sh p) {k : Nat} (hk : k ∈ owing p) :
    k < sh.batches.made := by
  obtain ⟨x, hx, howes⟩ := (Multiset.mem_filterMap _ _).mp hk
  obtain ⟨y, rfl, rfl⟩ := owes?_batch howes
  exact h.lt hx

/-! ## A body

What a body adds is known before it is read any further: the calls it asks for if it is accepted,
nothing if not. -/

theorem asked_of_accepts {posted : Posted} (h : Accepts cfg lib posted c.draining) :
    asked cfg lib c (.body posted) = Multiset.replicate (callsWanted lib posted) posted.conn :=
  if_pos h

/-- What `onBody` dispatches are the requests of the body, and it has accepted them. -/
theorem accepts_of_dispatch {posted : Posted} {draining single restShape : Bool}
    {requests : List Json} (hlimit : 0 < cfg.limits.maxInFlightPerConnection)
    (h : readBody cfg lib draining posted.route posted.body = .dispatch requests single restShape) :
    requests = requestsOf lib posted.route posted.body ∧ Accepts cfg lib posted draining := by
  unfold readBody at h
  unfold Accepts requestsOf
  split at h
  · cases h
  · rename_i hdraining
    rw [Bool.not_eq_true] at hdraining
    split at h
    · rename_i hrest
      rw [if_pos hrest, h]
      unfold readRest at h
      split at h
      · cases h
      · split at h
        · cases h
        · cases h
          exact ⟨rfl, hdraining, by rw [List.length_singleton]; omega⟩
    · rename_i hrest
      rw [if_neg hrest]
      unfold readRpc at h
      split at h
      · cases h
      · rename_i hsplit
        rw [hsplit]
        split at h
        · cases h
        · cases h
          exact ⟨rfl, hdraining, by dsimp only; omega⟩

/-- The sections of a batch owe a place to each request for a call. -/
theorem owing_handles (k : Nat) (requests : List Json) (f : Nat → Json → Section)
    (hf : ∀ i raw, owes? (f i raw) = if wantsCall raw then some k else none) :
    owing ↑(requests.mapIdx f) = Multiset.replicate (requests.countP wantsCall) k := by
  induction requests generalizing f with
  | nil => rfl
  | cons raw requests ih =>
      rw [List.mapIdx_cons, ← Multiset.cons_coe, owing_cons, hf, List.countP_cons,
        ih (fun i => f (i + 1)) fun i raw => hf (i + 1) raw]
      cases wantsCall raw with
      | false => exact zero_add _
      | true => exact (Multiset.replicate_succ k _).symm ▸ rfl

theorem owed_onBody (hlimit : 0 < cfg.limits.maxInFlightPerConnection) (h : Housed sh others)
    (posted : Posted) :
    owed (sh.onBody cfg lib posted c.draining).shared
        ((sh.onBody cfg lib posted c.draining).made + others) ≤
      asked cfg lib c (.body posted) + owed sh others := by
  cases hread : readBody cfg lib c.draining posted.route posted.body with
  | answer response =>
      unfold Shared.onBody
      rw [hread]
      dsimp only
      have hnone : owing (sh.sends lib posted.conn (.refusal posted.route posted.body) response).made
          = 0 := by
        refine owing_of_none fun y hy => ?_
        obtain ⟨q, rfl⟩ := send_of_mem_sends hy
        rfl
      rw [owed, owing_add, hnone, zero_add, conn_sends]
      exact Multiset.le_add_left _ _
  | dispatch requests single restShape =>
      obtain ⟨rfl, haccepts⟩ := accepts_of_dispatch hlimit hread
      unfold Shared.onBody
      rw [hread, asked_of_accepts haccepts]
      dsimp only
      rw [owed, owing_add, Multiset.map_add]
      refine add_le_add ?_ ?_
      · -- the new batch is of the connection that the body came on
        rw [Effect.made, List.flatten_nil, List.append_nil,
          owing_handles sh.batches.made _ _ fun i raw => rfl, Multiset.map_replicate]
        show Multiset.replicate _ (Function.update sh.conn sh.batches.made posted.conn _) ≤ _
        rw [Function.update_self]
        exact le_rfl
      · -- and the others are of the connections they were of
        refine le_of_eq (Multiset.map_congr rfl fun k hk => Function.update_of_ne (Nat.ne_of_lt ?_) _ _)
        exact h.lt_of_mem_owing hk

/-- **Step.** Only a body that is accepted adds to the places that are owed, one for each call it
asks for. -/
theorem exec_owed (hlimit : 0 < cfg.limits.maxInFlightPerConnection) (h : Housed sh (x ::ₘ others))
    (hexec : exec cfg lib sh x c = some e) :
    owed e.shared (e.made + others) ≤ asked cfg lib c x + owed sh (x ::ₘ others) := by
  have hconn := fun {k : Nat} => conn_exec (k := k) h hexec
  have hothers : owing others ≤ owing (x ::ₘ others) := by
    rw [owing_cons]
    exact Multiset.le_add_left _ _
  -- whatever is not a body leaves no more places owed, and to the same connections
  have hquiet (hle : owing (e.made + others) ≤ owing (x ::ₘ others)) :
      owed e.shared (e.made + others) ≤ asked cfg lib c x + owed sh (x ::ₘ others) :=
    calc owed e.shared (e.made + others)
        ≤ (owing (x ::ₘ others)).map e.shared.conn := Multiset.map_le_map hle
      _ = owed sh (x ::ₘ others) :=
          Multiset.map_congr rfl fun k hk => hconn (h.lt_of_mem_owing hk)
      _ ≤ _ := Multiset.le_add_left _ _
  unfold exec at hexec
  split at hexec
  · cases hexec
  cases x with
  | body posted =>
      cases hexec
      have hhoused : Housed sh others := h.congr rfl rfl fun y hy => Multiset.mem_cons_of_mem hy
      refine (owed_onBody hlimit hhoused posted).trans (add_le_add_right ?_ _)
      exact Multiset.map_le_map hothers
  | send q =>
      cases hexec
      refine hquiet ?_
      show owing (0 + others) ≤ _
      rwa [zero_add]
  | batch x =>
      obtain ⟨b, hb⟩ := h.housed x (Multiset.mem_cons_self _ _)
      rcases ofBatch_cases hb hexec with ⟨b', made, hdoes, -, hmade⟩ | ⟨-, hmade⟩
      · refine hquiet ?_
        rw [hmade, owing_add, owing_cons, ← Multiset.coe_add, owing_add,
          owing_of_none fun y hy => owes?_answer y (Multiset.mem_coe.mp hy), add_zero]
        exact add_le_add_left (Does.owing hdoes) _
      · refine hquiet ?_
        rwa [hmade, zero_add]

theorem enter_owed {ev : Entry} (henter : enter cfg checkBearer lib sh ev = some e) :
    owed e.shared (e.made + p) = owed sh p := by
  have hnone : owing e.made = 0 := by
    refine owing_of_none fun y hy => ?_
    obtain ⟨posted, rfl⟩ | ⟨q, rfl⟩ := made_enter henter hy
    · rfl
    · rfl
  rw [owed, owed, conn_enter henter, owing_add, hnone, zero_add]

/-! ## The limits

The condition is on the body that arrives and on what is owed when it does. Between bodies the
sum can only fall. -/

/-- A body comes when there is room: with the places owed to its connection, and with those owed to
all connections, the calls it asks for are within the limits. A body that is refused may come at any
time. -/
def paced (cfg : BridgeConfig) (lib : Nlohmann) : Guard Shared Section Choice Entry where
  run sh p x c :=
    match x with
    | .body posted => Accepts cfg lib posted c.draining →
        ((owed sh p).count posted.conn + callsWanted lib posted : Int) ≤
          cfg.limits.maxInFlightPerConnection ∧
        ((owed sh p).card + callsWanted lib posted : Int) ≤ cfg.limits.maxInFlightTotal
    | _ => True
  enter _ _ _ := True

instance (cfg : BridgeConfig) (lib : Nlohmann) : (paced cfg lib).Decided where
  run _ _ x _ := by
    cases x <;> unfold paced <;> infer_instance
  enter _ _ _ := inferInstanceAs (Decidable True)

/-! ### The invariant

Between two bodies the places that are owed can only become fewer, and the guard asks for room
before a body adds its own. -/

/-- No connection is owed more places than it may have calls in flight, nor are all of them. -/
structure WithinLimits (cfg : BridgeConfig) (sh : Shared) (p : Multiset Section) : Prop where
  perConnection : ∀ id, ((owed sh p).count id : Int) ≤ cfg.limits.maxInFlightPerConnection
  total : ((owed sh p).card : Int) ≤ cfg.limits.maxInFlightTotal

theorem WithinLimits.of_le {sh' : Shared} {p' : Multiset Section} (h : WithinLimits cfg sh p)
    (hle : owed sh' p' ≤ owed sh p) : WithinLimits cfg sh' p' where
  perConnection id := by
    have hcount := Multiset.count_le_of_le id hle
    have hbefore := h.perConnection id
    omega
  total := by
    have hcard := Multiset.card_le_card hle
    have hbefore := h.total
    omega

theorem WithinLimits.exec (hlimit : 0 < cfg.limits.maxInFlightPerConnection)
    (h : WithinLimits cfg sh (x ::ₘ others)) (hhoused : Housed sh (x ::ₘ others))
    (hpaced : (paced cfg lib).run sh (x ::ₘ others) x c) (hexec : exec cfg lib sh x c = some e) :
    WithinLimits cfg e.shared (e.made + others) := by
  have hle := exec_owed hlimit hhoused hexec
  by_cases hbody : ∃ posted, x = .body posted ∧ Accepts cfg lib posted c.draining
  · obtain ⟨posted, rfl, haccepts⟩ := hbody
    obtain ⟨hroom, hroomTotal⟩ := hpaced haccepts
    rw [asked_of_accepts haccepts] at hle
    refine ⟨fun id => ?_, ?_⟩
    · have hcount := Multiset.count_le_of_le id hle
      have hbefore := h.perConnection id
      rw [Multiset.count_add, Multiset.count_replicate] at hcount
      split at hcount
      · rename_i hid
        rw [hid] at hroom
        omega
      · omega
    · have hcard := Multiset.card_le_card hle
      rw [Multiset.card_add, Multiset.card_replicate] at hcard
      omega
  · apply h.of_le
    have hnone : asked cfg lib c x = 0 := by
      unfold asked
      split
      · rename_i posted
        exact if_neg fun haccepts => hbody ⟨posted, rfl, haccepts⟩
      · rfl
    rwa [hnone, zero_add] at hle

/-- Where no more is owed than allowed, a call that is dispatched finds room. -/
theorem WithinLimits.room (h : WithinLimits cfg sh p) {k : Nat} (hx : x ∈ p)
    (hdispatches : dispatches cfg lib sh c x = some k) :
    ((inFlight sh p).count (sh.conn k) : Int) < cfg.limits.maxInFlightPerConnection ∧
      ((inFlight sh p).card : Int) < cfg.limits.maxInFlightTotal := by
  obtain ⟨others, rfl⟩ := Multiset.exists_cons_of_mem hx
  have hnone : call? x = none := by
    unfold dispatches at hdispatches
    split at hdispatches
    · rfl
    · cases hdispatches
  -- the request is owed the place that its call will have
  have hle : sh.conn k ::ₘ inFlight sh (x ::ₘ others) ≤ owed sh (x ::ₘ others) := by
    have hsame : inFlight sh (x ::ₘ others) = inFlight sh others := by
      rw [inFlight, calls, filterMap_cons_toList, hnone]
      exact congrArg (Multiset.map sh.conn) (zero_add _)
    rw [hsame, owed, owing_cons, owes?_of_dispatches hdispatches, Option.toList_some,
      Multiset.coe_singleton, Multiset.singleton_add, Multiset.map_cons]
    exact (Multiset.cons_le_cons_iff _).mpr (inFlight_le_owed sh others)
  constructor
  · have hcount := Multiset.count_le_of_le (sh.conn k) hle
    have hbound := h.perConnection (sh.conn k)
    rw [Multiset.count_cons_self] at hcount
    omega
  · have hcard := Multiset.card_le_card hle
    have hbound := h.total
    rw [Multiset.card_cons] at hcard
    omega

/-! ### A body too large

The check of `onBody` looks at one body alone, and refuses it before any of its requests is
handled. -/

/-- A body with more requests than a connection may have calls in flight is refused whole. -/
theorem refused_of_oversize {posted : Posted} (hrest : isRest posted.route = false)
    (hlimit : 0 < cfg.limits.maxInFlightPerConnection)
    (h : cfg.limits.maxInFlightPerConnection < (requestsOf lib posted.route posted.body).length) :
    readBody cfg lib false posted.route posted.body = .answer (makeError .null batchTooLarge) := by
  unfold requestsOf at h
  unfold readBody
  rw [hrest, if_neg Bool.false_ne_true] at *
  rw [if_neg Bool.false_ne_true]
  unfold readRpc
  split at h
  · rename_i hsplit
    rw [hsplit]
    exact if_pos h
  · rw [List.length_nil] at h
    omega

/-- **Calls stay within the limits** in every run in which bodies come when there is room: for each
connection, and for all of them together. No call is dispatched that would exceed them, and a body
that is too large is refused as overloaded. -/
theorem calls_within_limits (lib : Nlohmann) (own text : Bytes) (cfg : BridgeConfig)
    (hcfg : parseBridgeConfig lib own text = .ok cfg) (checkBearer : Option (Bytes → Bool))
    (s : State Shared Section) (hrun : Run (core cfg checkBearer lib) (paced cfg lib) start s) :
    (∀ id, ((inFlight s.shared s.pending).count id : Int) ≤ cfg.limits.maxInFlightPerConnection) ∧
    ((inFlight s.shared s.pending).card : Int) ≤ cfg.limits.maxInFlightTotal ∧
    (∀ x ∈ s.pending, ∀ c k, dispatches cfg lib s.shared c x = some k →
      ((inFlight s.shared s.pending).count (s.shared.conn k) : Int) <
        cfg.limits.maxInFlightPerConnection ∧
      ((inFlight s.shared s.pending).card : Int) < cfg.limits.maxInFlightTotal) ∧
    (∀ posted : Posted, isRest posted.route = false → cfg.limits.maxInFlightPerConnection <
        (requestsOf lib posted.route posted.body).length →
      readBody cfg lib false posted.route posted.body = .answer (makeError .null batchTooLarge)) := by
  have hpositive := (accepted_of_parse hcfg).positive
  have hlimit : 0 < cfg.limits.maxInFlightPerConnection :=
    hpositive (str "max_in_flight_per_connection", _) (by simp [Limits.named])
  have hstart : WithinLimits cfg {} 0 := by
    refine ⟨fun id => ?_, ?_⟩
    · show ((0 : Multiset Nat).count id : Int) ≤ _
      rw [Multiset.count_zero]
      exact hlimit.le
    · exact (hpositive (str "max_in_flight_total", _) (by simp [Limits.named])).le
  have hkept : WithinLimits cfg s.shared s.pending := by
    apply Run.invariant_with (fun _ hrun => housed_of_run hrun) hstart ?_ ?_ hrun
    · exact fun hhoused h hpaced hexec => h.exec hlimit hhoused hpaced hexec
    · exact fun _ h _ henter => h.of_le (enter_owed henter).le
  have hle := inFlight_le_owed s.shared s.pending
  refine ⟨fun id => ?_, ?_, fun x hx c k => hkept.room hx, fun posted hrest hmany => ?_⟩
  · have hcount := Multiset.count_le_of_le id hle
    have hbound := hkept.perConnection id
    omega
  · have hcard := Multiset.card_le_card hle
    have hbound := hkept.total
    omega
  · exact refused_of_oversize hrest hlimit hmany

/-! ## Two calls at once

With a limit of one call, a client that waits for its answer keeps it; one that sends the call
twice does not. -/

/-- `{"expose":{"modules":["m1"]},"limits":{"max_in_flight_per_connection":1}}`, and its value. -/
def oneCallText : Bytes := str
  "\x7b\"expose\":\x7b\"modules\":[\"m1\"]\x7d,\"limits\":\x7b\"max_in_flight_per_connection\":1\x7d\x7d"

def oneCallJson : Json :=
  Json.object [(str "expose", Json.object [(str "modules", .arr [.str (str "m1")])]),
    (str "limits", Json.object [(str "max_in_flight_per_connection", .uint 1)])]

/-- `{"jsonrpc":"2.0","id":7,"method":"m1.x"}`, and its value. -/
def callText : Bytes := str "\x7b\"jsonrpc\":\"2.0\",\"id\":7,\"method\":\"m1.x\"\x7d"

def callJson : Json :=
  Json.object [(str "jsonrpc", .str (str "2.0")), (str "id", .uint 7), (str "method", .str (str "m1.x"))]

/-- The same call twice, in a batch. -/
def pairText : Bytes := str "[" ++ callText ++ str "," ++ callText ++ str "]"

/-- `{"jsonrpc":"2.0","id":8,"method":"rpc.ping"}`, and its value. -/
def lonePing : Bytes := str "\x7b\"jsonrpc\":\"2.0\",\"id\":8,\"method\":\"rpc.ping\"\x7d"

def lonePingJson : Json :=
  Json.object [(str "jsonrpc", .str (str "2.0")), (str "id", .uint 8), (str "method", .str kPing)]

def oneCallLib : Nlohmann :=
  (((Nlohmann.only oneCallText oneCallJson (by decide)).also callText callJson (by decide)).also
    pairText (.arr [callJson, callJson]) (by decide)).also lonePing lonePingJson (by decide)

def oneCallConfig : BridgeConfig :=
  { modules := [{ name := str "m1" }], limits := { maxInFlightPerConnection := 1 } }

theorem parse_oneCall : parseBridgeConfig oneCallLib (str "json_rpc_bridge") oneCallText =
    .ok oneCallConfig := by rfl

/-- A WebSocket is set up. -/
def oneSocketMoves : List (Move Choice Entry) :=
  [.enter (.transport (.connect 1 (str "127.0.0.1") false)),
   .enter (.transport (.headers 1 { host := str "localhost" })),
   .enter (.transport (.callback 1 .filterProtocolConnection {})),
   .enter (.transport (.callback 1 .established {}))]

/-- A text comes on it. -/
def receives (text : Bytes) : Move Choice Entry :=
  .enter (.transport (.callback 1 (.receive text false true) {}))

/-- Two calls in one batch are refused. One call is dispatched, and a ping is answered meanwhile.
When upstream has answered the call, the next is dispatched. -/
def oneCallMoves : List (Move Choice Entry) :=
  oneSocketMoves ++
    [receives pairText, .run 4 {}, .run 4 {}, receives callText, .run 5 {}, .run 5 {},
      receives lonePing, .run 7 {}, .run 7 {}, .run 7 {}, .run 7 {}, .run 7 {}, .run 7 {}, .run 7 {},
      .run 6 {}, .run 8 {}, receives callText, .run 9 {}, .run 9 {}]

/-- A call is dispatched, and another before it is answered. -/
def twoCallMoves : List (Move Choice Entry) :=
  oneSocketMoves ++
    [receives callText, .run 4 {}, .run 4 {}, receives callText, .run 6 {}, .run 6 {}]

/-- The one call that is allowed is in flight, after another has been answered. -/
theorem calls_within_limits_one : ∃ s,
    Run (core oneCallConfig none oneCallLib) (paced oneCallConfig oneCallLib) start s ∧
    inFlight s.shared s.pending = {1} ∧ s.shared.queued.length = 2 ∧
    ((∀ id, ((inFlight s.shared s.pending).count id : Int) ≤ 1) ∧
      ((inFlight s.shared s.pending).card : Int) ≤ 256) := by
  have hmoves : ((core oneCallConfig none oneCallLib).replayUnder (paced oneCallConfig oneCallLib)
      start oneCallMoves).map (fun s => (inFlight s.shared s.pending, s.shared.queued.length)) =
        some ({1}, 2) := by
    decide +kernel
  obtain ⟨s, hs, hend⟩ := Option.map_eq_some_iff.mp hmoves
  obtain ⟨hcalls, hqueued⟩ := Prod.mk.inj hend
  have hrun := Run.start.replayUnder hs
  obtain ⟨hconnection, htotal, -⟩ := calls_within_limits oneCallLib (str "json_rpc_bridge")
    oneCallText oneCallConfig parse_oneCall none s hrun
  exact ⟨s, hrun, hcalls, hqueued, hconnection, htotal⟩

/-- **The second call is dispatched too**, on a connection that is allowed one. -/
theorem not_calls_within_limits :
    parseBridgeConfig oneCallLib (str "json_rpc_bridge") oneCallText = .ok oneCallConfig ∧
    ¬∀ s, Run (core oneCallConfig none oneCallLib) Guard.any start s →
      (∀ id, ((inFlight s.shared s.pending).count id : Int) ≤
        oneCallConfig.limits.maxInFlightPerConnection) ∧
      ((inFlight s.shared s.pending).card : Int) ≤ oneCallConfig.limits.maxInFlightTotal := by
  refine ⟨parse_oneCall, fun hall => ?_⟩
  have hmoves : ((core oneCallConfig none oneCallLib).replay start twoCallMoves).map
      (fun s => (inFlight s.shared s.pending).count 1) = some 2 := by decide +kernel
  obtain ⟨s, hs, hcount⟩ := Option.map_eq_some_iff.mp hmoves
  have hlimit := (hall s (Run.start.replay hs)).1 1
  rw [hcount] at hlimit
  exact absurd hlimit (by decide)

end JsonRpcBridge.Core
