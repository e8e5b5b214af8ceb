import JsonRpcBridge.Dispatcher.Refusals

/-!
# The outcomes of a request

`handleOne` and `dispatchCall` have some twenty exits. `Answers` lists what they come to, each with
what a reader of the answer needs to know of it, and `answers_handleOne` says that there is no
other: the properties of responses are read off it.
-/

namespace JsonRpcBridge.Dispatcher

open Subscriptions

/-- What a request may come to, under the id `id`. `params` is what it asks with, and `call` the
module call it makes, if it makes one. -/
inductive Answers (cfg : BridgeConfig) (b : Bridge) (id params : Json)
    (call : Except JsonError (Except MappedError CallTarget)) : Outcome → Prop
  /-- Every error but one has a constant message and no other text. -/
  | refused (e : MappedError) : Utf8 e.message → Answers cfg b id params call (.fill (makeError id e))
  | badPath (t : CallTarget) (path : Bytes) :
      call = .ok (.ok t) → methodPermitted cfg (b.gate t.module) t.method = true →
      callArguments b t = .error path →
      Answers cfg b id params call
        (.fill (makeErrorRaw id (invalidParamsJson (str "schema-mismatch") path)))
  | called (t : CallTarget) (args : Json) (timeoutMs : Int) :
      call = .ok (.ok t) → methodPermitted cfg (b.gate t.module) t.method = true →
      callArguments b t = .ok args →
      Answers cfg b id params call (.submit (.call id t args timeoutMs))
  | pong : Answers cfg b id params call (.fill (makeResult id (.str (str "pong"))))
  | listed : Answers cfg b id params call (.fill (makeResult id (listModules cfg b.view)))
  | described (em : ExposedModule) : cfg.find em.name = some em →
      Answers cfg b id params call (.fill (makeResult id (describeView em (b.view em.name))))
  | discovering : Answers cfg b id params call (.submit (.discover id b.openrpc))
  | active (t : SubscribeTarget) : parseSubscribeTarget params true = .ok (.ok t) →
      Answers cfg b id params call (.fill (makeResult id (subscribeAck t (str "active"))))
  | subscribing (t : SubscribeTarget) (sid : Nat) : parseSubscribeTarget params true = .ok (.ok t) →
      Answers cfg b id params call (.submit (.subscribe id t sid))
  | unsubscribed (t : SubscribeTarget) : parseSubscribeTarget params false = .ok (.ok t) →
      Answers cfg b id params call (.fill (makeResult id (Json.object
        [(str "subscription", t.subscription), (str "operation", .str (str "unsubscribe"))])))
  | cancelled : Answers cfg b id params call (.fill (makeResult id notCancelled))

section

variable {cfg : BridgeConfig} {lib : Nlohmann} {b b' : Bridge} {id params : Json} {req : RpcRequest}
  {call : Except JsonError (Except MappedError CallTarget)} {out : Outcome}

/-! ## The errors of the parsers

Their texts quote the request only where it is known to be well formed. -/

theorem utf8_parseRequest {j : Json} {err : MappedError} (h : parseRequest j = .ok (.error err)) :
    Utf8 err.message := by
  unfold parseRequest at h
  split at h
  · cases h
    exact utf8_str _
  · obtain ⟨version, -, h⟩ := of_bind_eq_ok h
    split at h
    · cases h
      exact utf8_str _
    · obtain ⟨isMethod, -, h⟩ := of_bind_eq_ok h
      split at h
      · cases h
        exact utf8_str _
      · obtain ⟨v, -, h⟩ := of_bind_eq_ok h
        obtain ⟨method, -, h⟩ := of_bind_eq_ok h
        obtain ⟨id, -, h⟩ := of_bind_eq_ok h
        split at h
        · cases h
          exact utf8_str _
        · obtain ⟨params, -, h⟩ := of_bind_eq_ok h
          split at h <;> cases h
          exact utf8_str _

theorem utf8_parseCallTarget {p : Json} {err : MappedError}
    (h : parseCallTarget p = .ok (.error err)) : Utf8 err.message := by
  unfold parseCallTarget at h
  split at h
  · cases h
    exact utf8_str _
  · obtain ⟨isModule, -, h⟩ := of_bind_eq_ok h
    obtain ⟨isMethod, -, h⟩ := of_bind_eq_ok h
    split at h
    · cases h
      exact utf8_str _
    · obtain ⟨m, -, h⟩ := of_bind_eq_ok h
      obtain ⟨module, -, h⟩ := of_bind_eq_ok h
      obtain ⟨x, -, h⟩ := of_bind_eq_ok h
      obtain ⟨method, -, h⟩ := of_bind_eq_ok h
      split at h
      · cases h
        exact utf8_str _
      · obtain ⟨params, -, h⟩ := of_bind_eq_ok h
        dsimp only at h
        split at h <;> split at h <;> cases h
        all_goals exact utf8_str _

theorem utf8_parseSubscribeTarget {p : Json} {requireEvent : Bool} {err : MappedError}
    (h : parseSubscribeTarget p requireEvent = .ok (.error err)) : Utf8 err.message := by
  unfold parseSubscribeTarget at h
  split at h
  · cases h
    exact utf8_str _
  · obtain ⟨isId, -, h⟩ := of_bind_eq_ok h
    split at h
    · cases h
      exact utf8_str _
    · obtain ⟨subscription, -, h⟩ := of_bind_eq_ok h
      split at h
      · obtain ⟨isModule, -, h⟩ := of_bind_eq_ok h
        obtain ⟨isEvent, -, h⟩ := of_bind_eq_ok h
        split at h
        · cases h
          exact utf8_str _
        · obtain ⟨m, -, h⟩ := of_bind_eq_ok h
          obtain ⟨module, -, h⟩ := of_bind_eq_ok h
          obtain ⟨e, -, h⟩ := of_bind_eq_ok h
          obtain ⟨event, -, h⟩ := of_bind_eq_ok h
          split at h <;> cases h
          exact utf8_str _
      · cases h

theorem utf8_parseAliasCall {err : MappedError} (h : parseAliasCall req = .error err) :
    Utf8 err.message := by
  unfold parseAliasCall at h
  split at h
  · cases h
    exact utf8_str _
  · split at h <;> cases h
    exact utf8_str _

/-! ## The exits of the handlers

`Answers` lists the ways a handler can end, and here each handler is held against the list. -/

theorem answers_dispatchCall {t : CallTarget} (hcall : call = .ok (.ok t))
    (h : dispatchCall cfg b id t = (out, b')) : Answers cfg b id params call out := by
  unfold dispatchCall at h
  split at h
  · cases h
    exact .refused _ (utf8_str _)
  · rename_i hpermitted
    have hpermitted : methodPermitted cfg (b.gate t.module) t.method = true := by
      simpa using hpermitted
    split at h
    · rename_i path hpath
      cases h
      exact .badPath t path hcall hpermitted hpath
    · rename_i args hargs
      dsimp only at h
      split at h
      · cases h
        exact .refused _ (utf8_str _)
      · split at h <;> cases h
        · exact .called t args _ hcall hpermitted hargs
        · exact .refused _ (utf8_str _)

theorem answers_handleSchema (h : handleSchema cfg b req = .ok out) :
    Answers cfg b req.id params call out := by
  unfold handleSchema at h
  obtain ⟨isModule, -, h⟩ := of_bind_eq_ok h
  split at h
  · cases h
    exact .refused _ (utf8_str _)
  · obtain ⟨v, -, h⟩ := of_bind_eq_ok h
    obtain ⟨module, -, h⟩ := of_bind_eq_ok h
    cases h
    show Answers cfg b req.id params call (.fill (if (describe cfg b.view module).isNull then _ else _))
    rw [describe]
    cases hfind : cfg.find module with
    | none => exact .refused _ (utf8_str _)
    | some em =>
        have hobject := isObject_describeView em (b.view module) true
        obtain ⟨ms, hms⟩ := Json.eq_obj_of_isObject hobject
        have hnull : (describeView em (b.view module)).isNull = false := by
          rw [hms]
          rfl
        have hname := (BridgeConfig.find_mem hfind).2
        rw [hnull]
        rw [← hname] at hfind ⊢
        exact .described em hfind

theorem answers_handleDiscover : Answers cfg b req.id params call (handleDiscover b req) := by
  unfold handleDiscover
  split
  · exact .discovering
  · exact .refused _ (utf8_str _)

theorem answers_handleCall (hcall : call = parseCallTarget req.params)
    (h : handleCall cfg b req = .ok (out, b')) : Answers cfg b req.id params call out := by
  unfold handleCall at h
  obtain ⟨target, htarget, h⟩ := of_bind_eq_ok h
  cases target with
  | error err =>
      cases h
      exact .refused _ (utf8_parseCallTarget htarget)
  | ok t => exact answers_dispatchCall (hcall.trans htarget) (Except.ok.inj h)

/-! ### Subscriptions

A subscription is claimed before it is answered, and the claim alone does not touch the answer. -/

theorem answers_claimSubscription {t : SubscribeTarget} {key : ClientId}
    (ht : parseSubscribeTarget params true = .ok (.ok t)) :
    Answers cfg b id params call (claimSubscription cfg b id t key).1 := by
  unfold claimSubscription
  dsimp only
  split
  · exact .refused _ (utf8_str _)
  · exact .active t ht
  · split
    · exact .subscribing t _ ht
    · exact .refused _ (utf8_str _)

theorem answers_handleSubscribe (h : handleSubscribe cfg lib b req = .ok (out, b')) :
    Answers cfg b req.id req.params call out := by
  unfold handleSubscribe at h
  obtain ⟨target, htarget, h⟩ := of_bind_eq_ok h
  cases target with
  | error err =>
      cases h
      exact .refused _ (utf8_parseSubscribeTarget htarget)
  | ok t =>
      dsimp only at h
      split at h
      · cases h
        exact .refused _ (utf8_str _)
      · obtain ⟨key, -, h⟩ := of_bind_eq_ok h
        have hout : claimSubscription cfg b req.id t key = (out, b') := Except.ok.inj h
        have hanswers : Answers cfg b req.id req.params call
            (claimSubscription cfg b req.id t key).1 := answers_claimSubscription htarget
        rw [hout] at hanswers
        exact hanswers

theorem answers_handleUnsubscribe (h : handleUnsubscribe lib b req = .ok (out, b')) :
    Answers cfg b req.id req.params call out := by
  unfold handleUnsubscribe at h
  obtain ⟨target, htarget, h⟩ := of_bind_eq_ok h
  cases target with
  | error err =>
      cases h
      exact .refused _ (utf8_parseSubscribeTarget htarget)
  | ok t =>
      obtain ⟨key, -, h⟩ := of_bind_eq_ok h
      split at h <;> cases h
      · exact .unsubscribed t htarget
      · exact .unsubscribed t htarget

/-! ### From the operation to the request -/

theorem answers_handleOp (hcall : req.method = kCall → call = parseCallTarget req.params)
    (h : handleOp cfg lib b req = .ok (out, b')) : Answers cfg b req.id req.params call out := by
  unfold handleOp at h
  split_ifs at h with hping hlist hschema hdiscover hmethod hsubscribe hunsubscribe hcancel
  · cases h
    exact .pong
  · cases h
    exact .listed
  · obtain ⟨out', hout', hout⟩ := of_map_eq_ok h
    cases hout
    exact answers_handleSchema hout'
  · cases h
    exact answers_handleDiscover
  · exact answers_handleCall (hcall (by simpa using hmethod)) h
  · exact answers_handleSubscribe h
  · exact answers_handleUnsubscribe h
  · cases h
    exact .cancelled
  · cases h
    exact .refused _ (utf8_str _)

/-- A request that parsed is answered under its id; the id of a notification is null. -/
theorem answers_handleRequest (hid : req.isNotification = true → req.id = .null)
    (h : handleRequest cfg lib b req = .ok (out, b')) :
    Answers cfg b req.id req.params req.call out := by
  unfold handleRequest at h
  split at h
  · rename_i halias
    have hcall : req.call = .ok (parseAliasCall req) := by
      unfold RpcRequest.call
      rw [if_pos halias]
    cases htarget : parseAliasCall req with
    | error err =>
        rw [htarget] at h
        cases h
        exact .refused _ (utf8_parseAliasCall htarget)
    | ok t =>
        rw [htarget] at h
        exact answers_dispatchCall (hcall.trans (congrArg _ htarget)) (Except.ok.inj h)
  · rename_i hop
    split at h
    · rename_i hnotification
      rw [Bool.and_eq_true] at hnotification
      cases h
      rw [hid hnotification.1]
      exact .refused _ (utf8_str _)
    · refine answers_handleOp (fun _ => ?_) h
      unfold RpcRequest.call
      rw [if_neg hop]

end

/-- **The outcomes of a request**: a refusal under the id null when it does not parse, else one of
the answers under its own id. -/
theorem answers_handleOne {cfg : BridgeConfig} {lib : Nlohmann} {b b' : Bridge} {raw : Json}
    {out : Outcome} (h : handleOne cfg lib b raw = .ok (out, b')) :
    (∃ err, parseRequest raw = .ok (.error err) ∧ Utf8 err.message ∧
      out = .fill (makeError .null err)) ∨
    ∃ req, parseRequest raw = .ok (.ok req) ∧ Answers cfg b req.id req.params req.call out := by
  cases hparse : parseRequest raw with
  | error e =>
      rw [handleOne, hparse] at h
      cases h
  | ok parsed =>
      cases parsed with
      | error err =>
          rw [handleOne_of_refused hparse] at h
          cases h
          exact Or.inl ⟨err, rfl, utf8_parseRequest hparse, rfl⟩
      | ok req =>
          rw [handleOne_of_parse hparse] at h
          refine Or.inr ⟨req, rfl, answers_handleRequest (fun hn => ?_) h⟩
          obtain ⟨hid, -, hnotification, -⟩ := parseRequest_parts hparse
          rw [hn] at hnotification
          have hnone : raw.find? (str "id") = none := by
            simpa [Json.contains] using hnotification.symm
          rw [hid, hnone]
          rfl

end JsonRpcBridge.Dispatcher
