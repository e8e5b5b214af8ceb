import JsonRpcBridge.Config.Parse
import JsonRpcBridge.Dispatcher.Handle

/-!
# Which bodies raise

An exception that leaves `onBody` leaves the callback of the C library that called it, and ends
the process. Everything `handleOne` reads of a request stands behind its own check, except the
`jsonrpc` member: a body raises exactly when it is dispatched and one of its requests is an object
whose `jsonrpc` is no string (`quiet_onBody_iff`).
-/

namespace JsonRpcBridge.Dispatcher

open Subscriptions

/-! ## The parts of a request are well formed

`dump` raises on text that is not UTF-8, and a parsed body has none. -/

theorem clean_getD_find {j dflt : Json} {key : Bytes} (hj : j.Clean) (hd : dflt.Clean) :
    ((j.find? key).getD dflt).Clean := by
  cases hfind : j.find? key with
  | none => exact hd
  | some v => exact hj.find? hfind

theorem clean_params {j : Json} {req : RpcRequest} (hj : j.Clean)
    (h : parseRequest j = .ok (.ok req)) : req.params.Clean := by
  obtain ⟨-, hparams, -⟩ := parseRequest_parts h
  rw [hparams]
  exact clean_getD_find hj (by simp)

/-! ## Operations

None of them raises on a clean request. -/

section Operations

variable {cfg : BridgeConfig} {lib : Nlohmann} {b : Bridge} {req : RpcRequest}

theorem quiet_dump {j : Json} (h : j.Clean) : Quiet (lib.dump j) := Nlohmann.dump_ok_iff.mpr h

theorem quiet_map {α β : Type} {f : α → β} {x : Except JsonError α} :
    Quiet (x.map f) ↔ Quiet x := by
  cases x with
  | ok a => exact ⟨fun _ => ⟨a, rfl⟩, fun _ => ⟨f a, rfl⟩⟩
  | error e =>
      constructor <;> rintro ⟨a, ha⟩ <;> cases ha

theorem quiet_handleSchema : Quiet (handleSchema cfg b req) := by
  unfold handleSchema
  refine quiet_bind (Json.quiet_memberIs _ _ _) ?_
  intro isModule hmodule
  refine quiet_ite (fun _ => quiet_pure _) ?_
  intro hnot
  obtain rfl : isModule = true := by
    simp only [Bool.or_eq_true, Bool.not_eq_true', not_or, Bool.not_eq_false] at hnot
    exact hnot.2
  refine quiet_bind (Json.quiet_member_of_memberIs hmodule) ?_
  intro v hv
  refine quiet_bind (Json.quiet_getString_of_memberIs hmodule hv) ?_
  intro module _
  exact quiet_pure _

theorem quiet_handleCall : Quiet (handleCall cfg b req) := by
  unfold handleCall
  refine quiet_bind (quiet_parseCallTarget _) ?_
  intro target _
  cases target with
  | error err => exact quiet_pure _
  | ok t => exact quiet_pure _

theorem quiet_handleSubscribe (hparams : req.params.Clean) :
    Quiet (handleSubscribe cfg lib b req) := by
  unfold handleSubscribe
  refine quiet_bind (quiet_parseSubscribeTarget _ _) ?_
  intro target htarget
  cases target with
  | error err => exact quiet_pure _
  | ok t =>
      refine quiet_ite (fun _ => quiet_pure _) ?_
      intro _
      have hid : t.subscription.Clean := hparams.find? (parseSubscribeTarget_subscription htarget)
      exact quiet_bind (quiet_dump hid) fun _ _ => quiet_pure _

theorem quiet_handleUnsubscribe (hparams : req.params.Clean) :
    Quiet (handleUnsubscribe lib b req) := by
  unfold handleUnsubscribe
  refine quiet_bind (quiet_parseSubscribeTarget _ _) ?_
  intro target htarget
  cases target with
  | error err => exact quiet_pure _
  | ok t =>
      have hid : t.subscription.Clean := hparams.find? (parseSubscribeTarget_subscription htarget)
      refine quiet_bind (quiet_dump hid) ?_
      intro key _
      split
      · exact quiet_pure _
      · exact quiet_pure _

theorem quiet_handleOp (hparams : req.params.Clean) : Quiet (handleOp cfg lib b req) := by
  unfold handleOp
  refine quiet_ite (fun _ => quiet_pure _) fun _ => ?_
  refine quiet_ite (fun _ => quiet_pure _) fun _ => ?_
  refine quiet_ite (fun _ => quiet_map.mpr quiet_handleSchema) fun _ => ?_
  refine quiet_ite (fun _ => quiet_pure _) fun _ => ?_
  refine quiet_ite (fun _ => quiet_handleCall) fun _ => ?_
  refine quiet_ite (fun _ => quiet_handleSubscribe hparams) fun _ => ?_
  refine quiet_ite (fun _ => quiet_handleUnsubscribe hparams) fun _ => ?_
  exact quiet_ite (fun _ => quiet_pure _) fun _ => quiet_pure _

/-! ### The request as a whole -/

/-- A request that parsed raises nothing. -/
theorem quiet_handleRequest (hparams : req.params.Clean) :
    Quiet (handleRequest cfg lib b req) := by
  unfold handleRequest
  refine quiet_ite (fun _ => ?_) fun _ => ?_
  · split
    · exact quiet_pure _
    · exact quiet_pure _
  · exact quiet_ite (fun _ => quiet_pure _) fun _ => quiet_handleOp hparams

/-- So does an `rpc.call`, whatever its params. -/
theorem quiet_handleRequest_call (hmethod : req.method = kCall) :
    Quiet (handleRequest cfg lib b req) := by
  unfold handleRequest
  rw [hmethod, if_neg (by decide)]
  refine quiet_ite (fun _ => quiet_pure _) fun _ => ?_
  unfold handleOp
  rw [hmethod, if_neg (by decide), if_neg (by decide), if_neg (by decide), if_neg (by decide),
    if_pos (by decide)]
  exact quiet_handleCall

end Operations

/-! ## Requests and bodies

What is left is the `value()` of the version, which raises on a value of another type. -/

section Bodies

variable {cfg : BridgeConfig} {lib : Nlohmann}

theorem quiet_handleOne_iff {b : Bridge} {raw : Json} (hraw : raw.Clean) :
    Quiet (handleOne cfg lib b raw) ↔ (raw.isObject = true → VersionReadable raw) := by
  rw [← quiet_parseRequest_iff]
  unfold handleOne
  constructor
  · intro h
    obtain ⟨parsed, hparsed, -⟩ := quiet_of_bind h
    exact ⟨parsed, hparsed⟩
  · intro h
    refine quiet_bind h ?_
    intro parsed hparsed
    cases parsed with
    | error err => exact quiet_pure _
    | ok req => exact quiet_handleRequest (clean_params hraw hparsed)

theorem quiet_handleAll_iff {now : Nat → Bridge} {requests : List Json} {i : Nat}
    (hclean : ∀ raw ∈ requests, raw.Clean) :
    Quiet (handleAll cfg lib now i requests) ↔
      ∀ raw ∈ requests, raw.isObject = true → VersionReadable raw := by
  induction requests generalizing i with
  | nil => exact ⟨fun _ _ h => absurd h (List.not_mem_nil), fun _ => quiet_pure _⟩
  | cons raw requests ih =>
      have hone : Quiet (handleOne cfg lib (now i) raw) ↔ _ :=
        quiet_handleOne_iff (hclean raw List.mem_cons_self)
      have hrest := ih (i := i + 1) fun r hr => hclean r (List.mem_cons_of_mem _ hr)
      rw [List.forall_mem_cons, ← hone, ← hrest]
      rw [handleAll]
      constructor
      · intro h
        obtain ⟨out, hout, h⟩ := quiet_of_bind h
        obtain ⟨outs, houts, -⟩ := quiet_of_bind h
        exact ⟨⟨out, hout⟩, ⟨outs, houts⟩⟩
      · rintro ⟨hout, houts⟩
        exact quiet_bind hout fun out _ => quiet_bind houts fun outs _ => quiet_pure _

/-- A REST call raises nothing, whatever its path and its params. -/
theorem quiet_handleOne_restRequest {b : Bridge} (module method : Bytes) (inner : Json) :
    Quiet (handleOne cfg lib b (restRequest module method inner)) := by
  rw [handleOne_of_parse (parseRequest_restRequest module method inner)]
  exact quiet_handleRequest_call rfl

end Bodies

/-! ## Bodies

All bodies that lead to no request are answered with an error. -/

/-- A body is answered at once, or it is a REST call, or its requests are dispatched. -/
theorem readBody_cases (cfg : BridgeConfig) (lib : Nlohmann) (draining : Bool)
    (route body : Bytes) :
    (∃ response, readBody cfg lib draining route body = .answer response ∧ response.Clean ∧
      (draining = true ∨ isRest route = true ∨ ∀ j, lib.parse body = some j →
        requestsIn j = [] ∨ ((requestsIn j).length : Int) > cfg.limits.maxInFlightPerConnection)) ∨
    (draining = false ∧ isRest route = true ∧ ∃ module method inner,
      splitRest (route.drop kModulesPrefix.length) = some (module, method) ∧
      restParams lib body = some inner ∧
      readBody cfg lib draining route body = .dispatch [restRequest module method inner] true true) ∨
    (draining = false ∧ isRest route = false ∧ ∃ j, lib.parse body = some j ∧ requestsIn j ≠ [] ∧
      ((requestsIn j).length : Int) ≤ cfg.limits.maxInFlightPerConnection ∧
      readBody cfg lib draining route body = .dispatch (requestsIn j) (!j.isArray) false) := by
  have hconst : ∀ e : MappedError, Utf8 e.message → (makeError .null e).Clean :=
    fun e he => clean_makeError Json.clean_null he
  by_cases hdraining : draining = true
  · refine Or.inl ⟨_, by rw [readBody, if_pos hdraining], hconst _ (utf8_str _), Or.inl hdraining⟩
  -- a REST route goes to one call, any other one to the requests of the body
  · by_cases hroute : isRest route = true
    · have hrest : readBody cfg lib draining route body =
          readRest lib (route.drop kModulesPrefix.length) body := by
        rw [readBody, if_neg hdraining, if_pos hroute]
      rw [hrest, readRest]
      split
      · exact Or.inl ⟨_, rfl, hconst _ (utf8_str _), Or.inr (Or.inl hroute)⟩
      · rename_i module method hsplit
        split
        · exact Or.inl ⟨_, rfl, hconst _ (utf8_str _), Or.inr (Or.inl hroute)⟩
        · rename_i inner hinner
          exact Or.inr (Or.inl ⟨by simpa using hdraining, hroute, module, method, inner, hsplit,
            hinner, rfl⟩)
    · have hrpc : readBody cfg lib draining route body = readRpc cfg lib body := by
        rw [readBody, if_neg hdraining, if_neg hroute]
      rw [hrpc, readRpc]
      cases hparse : lib.parse body with
      | none =>
          rw [splitBody_of_not_parsed hparse]
          exact Or.inl ⟨_, rfl, hconst _ (utf8_str _), Or.inr (Or.inr fun j hj => by cases hj)⟩
      | some j =>
          by_cases hempty : requestsIn j = []
          · rw [splitBody_of_empty hparse hempty]
            refine Or.inl ⟨_, rfl, hconst _ (utf8_str _), Or.inr (Or.inr fun j' hj => ?_)⟩
            cases hj
            exact Or.inl hempty
          · rw [splitBody_of_parse hparse hempty]
            by_cases hlarge : ((requestsIn j).length : Int) > cfg.limits.maxInFlightPerConnection
            · refine Or.inl ⟨_, if_pos hlarge, hconst _ (utf8_str _), Or.inr (Or.inr fun j' hj => ?_)⟩
              cases hj
              exact Or.inr hlarge
            · exact Or.inr (Or.inr ⟨by simpa using hdraining, by simpa using hroute, j, rfl, hempty,
                Int.not_lt.mp hlarge, if_neg hlarge⟩)

/-- A request that was dispatched raises nothing if its version can be read. -/
theorem quiet_dispatched {cfg : BridgeConfig} {lib : Nlohmann} {b : Bridge}
    {draining single restShape : Bool} {route body : Bytes} {requests : List Json} {raw : Json}
    (hread : readBody cfg lib draining route body = .dispatch requests single restShape)
    (hraw : raw ∈ requests) (hversion : raw.isObject = true → VersionReadable raw) :
    Quiet (handleOne cfg lib b raw) := by
  rcases readBody_cases cfg lib draining route body with ⟨response, hread', -⟩ |
    ⟨-, -, module, method, inner, -, -, hread'⟩ | ⟨-, -, j, hparse, -, -, hread'⟩
  all_goals rw [hread'] at hread
  all_goals cases hread
  · obtain rfl := List.mem_singleton.mp hraw
    exact quiet_handleOne_restRequest module method inner
  · exact (quiet_handleOne_iff (clean_requestsIn (lib.parse_clean hparse) raw hraw)).mpr hversion

/-- The body is not dispatched as JSON-RPC, or all its requests have a version that can be read. -/
def Readable (cfg : BridgeConfig) (lib : Nlohmann) (draining : Bool) (route body : Bytes) : Prop :=
  draining = true ∨ isRest route = true ∨
    ∀ j, lib.parse body = some j →
      ((requestsIn j).length : Int) > cfg.limits.maxInFlightPerConnection ∨
        ∀ raw ∈ requestsIn j, raw.isObject = true → VersionReadable raw

/-- A body raises nothing exactly when it is `Readable`. -/
theorem quiet_onBody_iff (cfg : BridgeConfig) (lib : Nlohmann) (now : Nat → Bridge)
    (draining : Bool) (route body : Bytes) :
    Quiet (onBody cfg lib now draining route body) ↔ Readable cfg lib draining route body := by
  unfold onBody
  rcases readBody_cases cfg lib draining route body with ⟨response, hread, hclean, hwhy⟩ |
    ⟨-, hrest, module, method, inner, -, -, hread⟩ |
    ⟨hdraining, hroute, j, hparse, -, hlength, hread⟩
  · rw [hread]
    refine ⟨fun _ => ?_, fun _ => quiet_map.mpr (quiet_dump hclean)⟩
    rcases hwhy with h | h | h
    · exact Or.inl h
    · exact Or.inr (Or.inl h)
    · refine Or.inr (Or.inr fun j hj => ?_)
      rcases h j hj with hnone | hlarge
      · exact Or.inr fun raw hraw => absurd (hnone ▸ hraw) List.not_mem_nil
      · exact Or.inl hlarge
  · rw [hread]
    refine ⟨fun _ => Or.inr (Or.inl hrest), fun _ => quiet_map.mpr ?_⟩
    rw [handleAll]
    exact quiet_bind (quiet_handleOne_restRequest module method inner) fun out _ => quiet_pure _
  · rw [hread]
    refine quiet_map.trans ((quiet_handleAll_iff (clean_requestsIn (lib.parse_clean hparse))).trans ?_)
    constructor
    · intro h
      refine Or.inr (Or.inr fun j' hj => ?_)
      rw [hparse] at hj
      cases hj
      exact Or.inr h
    · rintro (h | h | h)
      · exact absurd h (by simp [hdraining])
      · exact absurd h (by simp [hroute])
      · exact (h j hparse).resolve_left (Int.not_lt.mpr hlength)

/-! ## A body that raises

A version that is a number. -/

/-- `{"jsonrpc":2,"id":1,"method":"rpc.ping"}`, and its value. -/
def numericVersionText : Bytes :=
  str "\x7b\"jsonrpc\":2,\"id\":1,\"method\":\"rpc.ping\"\x7d"

def numericVersionLib : Nlohmann :=
  .only numericVersionText (Json.object [(str "jsonrpc", .uint 2), (str "id", .uint 1),
    (str "method", .str kPing)]) (by decide)

/-- A ping whose version is the number 2 raises `type_error.302`. -/
theorem not_quiet_numericVersion :
    ¬Quiet (onBody minimalConfig numericVersionLib (fun _ => Bridge.undiscovered) false []
      numericVersionText) := by
  have hraises : onBody minimalConfig numericVersionLib (fun _ => Bridge.undiscovered) false []
      numericVersionText = .error .notConvertible := by rfl
  rintro ⟨served, hserved⟩
  rw [hraises] at hserved
  cases hserved

end JsonRpcBridge.Dispatcher
