import JsonRpcBridge.Dispatcher.Handle

/-!
# What a request does to the subscribers

`rpc.subscribe` registers a subscriber under its own connection before it hands the pump the job that
adds it to the hub. `Bridge.Accepts` says when; every other request registers nobody
(`registers_handleOne`).
-/

namespace JsonRpcBridge.Dispatcher

open Subscriptions

/-! ## Which requests are accepted

The checks of `handleSubscribe` that come before the claim, read as one condition on the request
and the bridge. It is decidable, so that a guard can ask for it. -/

/-- What a computation has left, if it has not failed, can be asked about. -/
instance decidableExistsOk {ε α : Type} (x : Except ε α) (P : α → Prop) [DecidablePred P] :
    Decidable (∃ a, x = .ok a ∧ P a) :=
  match x with
  | .ok a => decidable_of_iff (P a) ⟨fun h => ⟨a, rfl, h⟩, fun ⟨_, ha, h⟩ => Except.ok.inj ha ▸ h⟩
  | .error _ => isFalse (by rintro ⟨_, ⟨⟩, _⟩)

instance decidableExistsParsed {ε ε' α : Type} (x : Except ε (Except ε' α)) (P : α → Prop)
    [DecidablePred P] : Decidable (∃ a, x = .ok (.ok a) ∧ P a) :=
  match x with
  | .ok y => decidable_of_iff (∃ a, y = .ok a ∧ P a)
      ⟨fun ⟨a, ha, h⟩ => ⟨a, ha ▸ rfl, h⟩, fun ⟨a, ha, h⟩ => ⟨a, Except.ok.inj ha, h⟩⟩
  | .error _ => isFalse (by rintro ⟨_, ⟨⟩, _⟩)

/-- `claim` takes the id of a subscription, and the pump its job. -/
def Bridge.Claims (cfg : BridgeConfig) (lib : Nlohmann) (b : Bridge) (t : SubscribeTarget) : Prop :=
  ∃ key, lib.dump t.subscription = .ok key ∧
    (b.subs.claim key t.key b.nextSubscriberId cfg.limits.maxSubscriptionsPerConnection).1 = .fresh ∧
    b.queued = true

/-- The params of an `rpc.subscribe` are well formed, the event is permitted and the id is free. -/
def Bridge.AcceptsParams (cfg : BridgeConfig) (lib : Nlohmann) (b : Bridge) (params : Json) : Prop :=
  ∃ t, parseSubscribeTarget params true = .ok (.ok t) ∧
    eventPermitted cfg (b.gate t.module) t.event = true ∧ b.Claims cfg lib t

/-- A request that is an `rpc.subscribe`, and accepted. -/
def Bridge.Accepts (cfg : BridgeConfig) (lib : Nlohmann) (b : Bridge) (raw : Json) : Prop :=
  ∃ req, parseRequest raw = .ok (.ok req) ∧ req.method = kSubscribe ∧
    b.AcceptsParams cfg lib req.params

instance (cfg : BridgeConfig) (lib : Nlohmann) (b : Bridge) (t : SubscribeTarget) :
    Decidable (b.Claims cfg lib t) :=
  inferInstanceAs (Decidable (∃ key, lib.dump t.subscription = .ok key ∧ _))

instance (cfg : BridgeConfig) (lib : Nlohmann) (b : Bridge) (params : Json) :
    Decidable (b.AcceptsParams cfg lib params) :=
  inferInstanceAs (Decidable (∃ t, parseSubscribeTarget params true = .ok (.ok t) ∧ _))

instance (cfg : BridgeConfig) (lib : Nlohmann) (b : Bridge) (raw : Json) :
    Decidable (b.Accepts cfg lib raw) :=
  inferInstanceAs (Decidable (∃ req, parseRequest raw = .ok (.ok req) ∧ _))

/-- `now` knows no subscriber that `b` does not know, but one of the same connection when `P`
holds. -/
def Bridge.Registers (b now : Bridge) (P : Prop) : Prop :=
  ∀ sid s, now.subscribers sid = some s → b.subscribers sid = some s ∨ s.conn = b.conn ∧ P

variable {cfg : BridgeConfig} {lib : Nlohmann} {b now : Bridge} {out : Outcome} {req : RpcRequest}
  {raw : Json} {P Q : Prop}

/-! ### Who is registered

`Registers` is what can be said of the subscribers without looking at the table of subscriptions.
It is kept by everything that forgets one. -/

theorem Bridge.Registers.of_subset (h : ∀ sid s, now.subscribers sid = some s →
    b.subscribers sid = some s) : b.Registers now P := fun sid s hs => .inl (h sid s hs)

theorem Bridge.registers_self (b : Bridge) : b.Registers b P := .of_subset fun _ _ hs => hs

theorem Bridge.Registers.mono (h : b.Registers now P) (hPQ : P → Q) : b.Registers now Q := by
  intro sid s hs
  rcases h sid s hs with hknown | ⟨hconn, hP⟩
  · exact .inl hknown
  · exact .inr ⟨hconn, hPQ hP⟩

/-- Erasing a subscriber registers nobody. -/
theorem Bridge.subscribers_forget {sid o : Nat} {s : Subscriber}
    (h : (b.forget sid).subscribers o = some s) : b.subscribers o = some s := by
  rw [Bridge.forget] at h
  dsimp only at h
  rw [Function.update_apply] at h
  split at h
  · cases h
  · exact h

/-! ### Operation by operation -/

theorem registers_dispatchCall {id : Json} {t : CallTarget}
    (h : dispatchCall cfg b id t = (out, now)) : b.Registers now P := by
  apply Bridge.Registers.of_subset
  unfold dispatchCall at h
  dsimp only at h
  split at h
  · cases h
    exact fun _ _ hs => hs
  · split at h
    · cases h
      exact fun _ _ hs => hs
    · split at h
      · cases h
        exact fun _ _ hs => hs
      · split at h <;> cases h <;> exact fun _ _ hs => hs

theorem registers_claimSubscription {id : Json} {t : SubscribeTarget} {key : ClientId}
    (hkey : lib.dump t.subscription = .ok key)
    (h : claimSubscription cfg b id t key = (out, now)) : b.Registers now (b.Claims cfg lib t) := by
  unfold claimSubscription at h
  dsimp only at h
  split at h
  · cases h
    exact b.registers_self
  · cases h
    exact b.registers_self
  · rename_i hclaim
    split at h
    · rename_i hqueued
      cases h
      intro sid s hs
      have hs : Function.update b.subscribers b.nextSubscriberId
          (some ⟨b.conn, t.subscription, t.key⟩) sid = some s := hs
      rw [Function.update_apply] at hs
      split at hs
      · cases hs
        exact .inr ⟨rfl, key, hkey, by rw [hclaim], hqueued⟩
      · exact .inl hs
    · cases h
      apply Bridge.Registers.of_subset
      intro sid s hs
      -- the subscription is abandoned under the id it was registered with
      have hs : Function.update (Function.update b.subscribers b.nextSubscriberId
          (some ⟨b.conn, t.subscription, t.key⟩)) b.nextSubscriberId none sid = some s := hs
      rw [Function.update_idem, Function.update_apply] at hs
      split at hs
      · cases hs
      · exact hs

theorem registers_handleSubscribe (h : handleSubscribe cfg lib b req = .ok (out, now)) :
    b.Registers now (b.AcceptsParams cfg lib req.params) := by
  unfold handleSubscribe at h
  obtain ⟨target, htarget, h⟩ := of_bind_eq_ok h
  cases target with
  | error err =>
      cases h
      exact b.registers_self
  | ok t =>
      dsimp only at h
      split at h
      · cases h
        exact b.registers_self
      · rename_i hpermitted
        obtain ⟨key, hkey, h⟩ := of_bind_eq_ok h
        refine (registers_claimSubscription hkey (Except.ok.inj h)).mono fun hclaims => ?_
        exact ⟨t, htarget, by simpa using hpermitted, hclaims⟩

theorem registers_handleUnsubscribe (h : handleUnsubscribe lib b req = .ok (out, now)) :
    b.Registers now P := by
  unfold handleUnsubscribe at h
  obtain ⟨target, -, h⟩ := of_bind_eq_ok h
  cases target with
  | error err =>
      cases h
      exact b.registers_self
  | ok t =>
      obtain ⟨key, -, h⟩ := of_bind_eq_ok h
      split at h
      · cases h
        exact b.registers_self
      · rename_i held subs _
        cases h
        apply Bridge.Registers.of_subset
        intro sid s hs
        unfold Bridge.drop at hs
        dsimp only at hs
        split at hs
        · exact Bridge.subscribers_forget hs
        · exact Bridge.subscribers_forget hs

theorem registers_handleOp (h : handleOp cfg lib b req = .ok (out, now)) :
    b.Registers now (req.method = kSubscribe ∧ b.AcceptsParams cfg lib req.params) := by
  unfold handleOp at h
  split_ifs at h with _ _ _ _ _ hsubscribe
  · cases h
    exact b.registers_self
  · cases h
    exact b.registers_self
  · obtain ⟨out', -, hout⟩ := of_map_eq_ok h
    cases hout
    exact b.registers_self
  · cases h
    exact b.registers_self
  · unfold handleCall at h
    obtain ⟨target, -, h⟩ := of_bind_eq_ok h
    cases target with
    | error err =>
        cases h
        exact b.registers_self
    | ok t => exact registers_dispatchCall (Except.ok.inj h)
  · refine (registers_handleSubscribe h).mono fun haccepts => ?_
    exact ⟨beq_iff_eq.mp hsubscribe, haccepts⟩
  · exact registers_handleUnsubscribe h
  · cases h
    exact b.registers_self
  · cases h
    exact b.registers_self

/-- **A request registers a subscriber** of its own connection only, and only when it is an
`rpc.subscribe` that is accepted. -/
theorem registers_handleOne (h : handleOne cfg lib b raw = .ok (out, now)) :
    b.Registers now (b.Accepts cfg lib raw) := by
  unfold handleOne at h
  obtain ⟨parsed, hparsed, h⟩ := of_bind_eq_ok h
  cases parsed with
  | error err =>
      cases h
      exact b.registers_self
  | ok req =>
      have h : handleRequest cfg lib b req = .ok (out, now) := h
      unfold handleRequest at h
      split at h
      · split at h
        · cases h
          exact b.registers_self
        · exact registers_dispatchCall (Except.ok.inj h)
      · split at h
        · cases h
          exact b.registers_self
        · refine (registers_handleOp h).mono fun ⟨hmethod, haccepts⟩ => ?_
          exact ⟨req, hparsed, hmethod, haccepts⟩

end JsonRpcBridge.Dispatcher
