import JsonRpcBridge.Dispatcher.Handle

/-!
# Refusals tell nothing

A module call that is not permitted gets an answer that is a function of the request alone
(`refusal`): the gate comes before everything that reads the state of the bridge, and it has one
answer. So a client cannot tell an unknown module from one that is hidden, denied, undeclared or
not discovered yet (`refusals_indistinguishable`).
-/

namespace JsonRpcBridge.Dispatcher

/-! ## Requests for a module

What a request asks for is read from its JSON alone, and whether the gate lets it through from
the configuration and the discovery state of that one module. -/

/-- The request is for a module call: it is an `rpc.call`, or its method is no bridge operation. -/
def AsksCall (raw : Json) : Prop :=
  ∀ method, raw.find? (str "method") = some (.str method) →
    method = kCall ∨ isBridgeOp method = false

/-- The request is an `rpc.schema` of `module`. -/
def AsksSchema (raw : Json) (module : Bytes) : Prop :=
  raw.find? (str "method") = some (.str kSchema) ∧
    (raw.find? (str "params")).bind (Json.find? (str "module")) = some (.str module)

/-- The call a request makes: through an alias, or as an `rpc.call`. -/
def RpcRequest.call (req : RpcRequest) : Except JsonError (Except MappedError CallTarget) :=
  if !isBridgeOp req.method then .ok (parseAliasCall req) else parseCallTarget req.params

/-- In this state the gate refuses every call that the request makes. -/
def Refused (cfg : BridgeConfig) (b : Bridge) (raw : Json) : Prop :=
  ∀ req t, parseRequest raw = .ok (.ok req) → req.call = .ok (.ok t) →
    methodPermitted cfg (b.gate t.module) t.method = false

/-- A REST call is a request for a module call. -/
theorem asksCall_restRequest (module method : Bytes) (inner : Json) :
    AsksCall (restRequest module method inner) := by
  intro m hm
  obtain ⟨-, hmethod⟩ := parseRequest_ok (parseRequest_restRequest module method inner)
  rw [hmethod] at hm
  exact Or.inl (Json.str.inj (Option.some.inj hm)).symm

/-! ## What the client sees

Of an answer given at once the client sees the bytes, and the bridge as it is left is seen by the
requests after it. `refusal` has no bridge among its arguments: that is the point of it. -/

/-- The frame for a body of one request, with the bridge as the request leaves it; no frame yet
when the request went to the pump. -/
def answerNow (cfg : BridgeConfig) (lib : Nlohmann) (single restShape : Bool) (b : Bridge)
    (raw : Json) : Except JsonError (Option Bytes × Bridge) := do
  match ← handleOne cfg lib b raw with
  | (.fill response, b) => return (some (← flush lib single restShape [response]), b)
  | (.submit _, b) => return (none, b)

/-- The answer to a module call that is not let through. -/
def refusal (raw : Json) : Except JsonError Json := do
  match ← parseRequest raw with
  | .error err => return makeError .null err
  | .ok req =>
    if isBridgeOp req.method && req.isNotification then
      return makeError .null (invalidRequest kCallNotificationRefused)
    match ← req.call with
    | .error err => return makeError req.id err
    | .ok _ => return makeError req.id notFound

section

variable {cfg : BridgeConfig} {lib : Nlohmann} {b : Bridge} {raw : Json} {req : RpcRequest}

/-! ### The gate comes first

Nothing of the bridge is read before the gate, and what is read after it does not come into the
answer of a refused call. -/

theorem refusal_of_parse (h : parseRequest raw = .ok (.ok req)) :
    refusal raw =
      if isBridgeOp req.method && req.isNotification then
        .ok (makeError .null (invalidRequest kCallNotificationRefused))
      else req.call.map fun target =>
        match target with
        | .error err => makeError req.id err
        | .ok _ => makeError req.id notFound := by
  rw [refusal, h]
  show (if _ then _ else _) = _
  split
  · rfl
  · cases req.call with
    | error e => rfl
    | ok target => cases target <;> rfl

/-- `handleRequest` on a request for a module call. -/
theorem handleRequest_call (h : req.method = kCall ∨ isBridgeOp req.method = false) :
    handleRequest cfg lib b req =
      if isBridgeOp req.method && req.isNotification then
        .ok (.fill (makeError .null (invalidRequest kCallNotificationRefused)), b)
      else req.call.map fun target =>
        match target with
        | .error err => (.fill (makeError req.id err), b)
        | .ok t => dispatchCall cfg b req.id t := by
  unfold handleRequest RpcRequest.call
  rcases h with h | h
  · have hop : isBridgeOp req.method = true := by rw [h]; decide
    rw [hop]
    simp only [Bool.not_true, Bool.false_eq_true, if_false, Bool.true_and]
    rw [h]
    simp only [beq_self_eq_true, Bool.and_true]
    split
    · rfl
    · have hcall : handleOp cfg lib b req = handleCall cfg b req := by
        unfold handleOp
        rw [h, if_neg (by decide), if_neg (by decide), if_neg (by decide), if_neg (by decide),
          if_pos (by decide)]
      rw [hcall, handleCall]
      cases parseCallTarget req.params with
      | error e => rfl
      | ok target => cases target <;> rfl
  · rw [h]
    simp only [Bool.not_false, if_true, Bool.false_and, Bool.false_eq_true, if_false]
    cases parseAliasCall req <;> rfl

/-- A request that makes a call is handled as that call. -/
theorem handleOne_of_target {t : CallTarget} (hparse : parseRequest raw = .ok (.ok req))
    (hmethod : req.method = kCall ∨ isBridgeOp req.method = false)
    (hnotification : req.isNotification = false) (ht : req.call = .ok (.ok t)) :
    handleOne cfg lib b raw = .ok (dispatchCall cfg b req.id t) := by
  rw [handleOne_of_parse hparse, handleRequest_call hmethod, hnotification, Bool.and_false, ht]
  rfl

theorem dispatchCall_of_refused {id : Json} {t : CallTarget}
    (h : methodPermitted cfg (b.gate t.module) t.method = false) :
    dispatchCall cfg b id t = (.fill (makeError id notFound), b) := by
  rw [dispatchCall, h]
  rfl

/-- A refused request gets its `refusal`, and changes nothing. -/
theorem handleOne_of_refused_call (hcall : AsksCall raw) (h : Refused cfg b raw) :
    handleOne cfg lib b raw = (refusal raw).map fun answer => (.fill answer, b) := by
  cases hparse : parseRequest raw with
  | error e =>
      rw [handleOne, refusal, hparse]
      rfl
  | ok parsed =>
      cases parsed with
      | error err =>
          rw [handleOne_of_refused hparse, refusal, hparse]
          rfl
      | ok req =>
          rw [handleOne_of_parse hparse, refusal_of_parse hparse,
            handleRequest_call (hcall _ (parseRequest_ok hparse).2)]
          split
          · rfl
          · cases htarget : req.call with
            | error e => rfl
            | ok target =>
                cases target with
                | error err => rfl
                | ok t =>
                    show Except.ok (dispatchCall cfg b req.id t) = _
                    rw [dispatchCall_of_refused (h req t hparse htarget)]
                    rfl

/-! ### What is submitted

A call that the gate lets through is submitted as it was asked for. Had it been refused, the
answer would have been the one for an unknown method. -/

/-- `dispatchCall` submits nothing but the call it was given, under the id it was given. -/
theorem dispatchCall_submit {id : Json} {t : CallTarget} {job : Job} {b' : Bridge}
    (h : dispatchCall cfg b id t = (.submit job, b')) :
    ∃ args, job = .call id t args cfg.limits.callTimeoutMs := by
  unfold dispatchCall at h
  split at h
  · cases h
  · split at h
    · cases h
    · dsimp only at h
      split_ifs at h <;> cases h
      exact ⟨_, rfl⟩

/-- A request whose call was submitted would have been refused as not found, under that id. -/
theorem refusal_of_submit {id args : Json} {t : CallTarget} {timeoutMs : Int} {b' : Bridge}
    (hcall : AsksCall raw)
    (h : handleOne cfg lib b raw = .ok (.submit (.call id t args timeoutMs), b')) :
    refusal raw = .ok (makeError id notFound) := by
  cases hparse : parseRequest raw with
  | error e =>
      rw [handleOne, hparse] at h
      cases h
  | ok parsed =>
      cases parsed with
      | error err =>
          rw [handleOne_of_refused hparse] at h
          cases h
      | ok req =>
          rw [refusal_of_parse hparse]
          rw [handleOne_of_parse hparse,
            handleRequest_call (hcall _ (parseRequest_ok hparse).2)] at h
          split at h
          · cases h
          · rename_i hnotification
            rw [if_neg hnotification]
            cases htarget : req.call with
            | error e =>
                rw [htarget] at h
                cases h
            | ok target =>
                rw [htarget] at h
                cases target with
                | error err => cases h
                | ok target =>
                    obtain ⟨args', hjob⟩ := dispatchCall_submit (Except.ok.inj h)
                    cases hjob
                    rfl

/-! ### `rpc.schema`

An unexposed module has no interface to show, whatever is known about it. -/

/-- The answer to an `rpc.schema` of a module that is not exposed. -/
def schemaRefusal (raw : Json) : Except JsonError Json := do
  match ← parseRequest raw with
  | .error err => return makeError .null err
  | .ok req => return makeError req.id notFound

theorem handleOne_schema {module : Bytes} (hasks : AsksSchema raw module)
    (h : cfg.find module = none) :
    handleOne cfg lib b raw = (schemaRefusal raw).map fun answer => (.fill answer, b) := by
  cases hparse : parseRequest raw with
  | error e =>
      rw [handleOne, schemaRefusal, hparse]
      rfl
  | ok parsed =>
      cases parsed with
      | error err =>
          rw [handleOne_of_refused hparse, schemaRefusal, hparse]
          rfl
      | ok req =>
          have hmethod : req.method = kSchema := by
            have hfind := (parseRequest_ok hparse).2
            rw [hasks.1] at hfind
            exact (Json.str.inj (Option.some.inj hfind)).symm
          obtain ⟨params, hparams, hmodule⟩ := Option.bind_eq_some_iff.mp hasks.2
          have hreq : req.params = params := by
            rw [(parseRequest_parts hparse).2.1, hparams, Option.getD_some]
          have hschema : handleSchema cfg b req = .ok (.fill (makeError req.id notFound)) := by
            have hdescribe : describe cfg b.view module = .null := by
              simp only [describe, h]
            unfold handleSchema
            rw [hreq, Json.isObject_of_find hmodule, Json.memberIs_eq, hmodule,
              Json.member_of_find hmodule]
            show Except.ok (Outcome.fill (if (describe cfg b.view module).isNull then _ else _)) = _
            rw [hdescribe]
            rfl
          have hop : handleRequest cfg lib b req =
              (handleSchema cfg b req).map fun out => (out, b) := by
            unfold handleRequest handleOp
            have hnot : (kSchema == kCall) = false := by decide
            rw [hmethod, hnot, Bool.and_false, if_neg (by decide), if_neg (by decide),
              if_neg (by decide), if_neg (by decide), if_pos (by decide)]
          rw [handleOne_of_parse hparse, hop, hschema, schemaRefusal, hparse]
          rfl

end

/-! ## Two states

Two bridges with nothing in common but the refusal, then the case of a module that is denied in
one and unknown to the other. -/

theorem answerNow_of_fill {cfg : BridgeConfig} {lib : Nlohmann} {b : Bridge} {raw : Json}
    {answer : Except JsonError Json} {single restShape : Bool}
    (h : handleOne cfg lib b raw = answer.map fun answer => (.fill answer, b)) :
    answerNow cfg lib single restShape b raw =
      (answer.bind fun response => flush lib single restShape [response]).map
        fun bytes => (some bytes, b) := by
  rw [answerNow, h]
  cases answer with
  | error e => rfl
  | ok response =>
      show (flush lib single restShape [response] >>= _) = _
      cases hflush : flush lib single restShape [response] with
      | error e =>
          show _ = Except.map _ (flush lib single restShape [response])
          rw [hflush]
          rfl
      | ok bytes =>
          show _ = Except.map _ (flush lib single restShape [response])
          rw [hflush]
          rfl

/-- **Refusals are indistinguishable.** Two bridges that both refuse a call send the same bytes for
it and neither asks for a client or submits anything; a provider that refuses the method as unknown
leads to these bytes too. So does, for every bridge that does not expose the module, an
`rpc.schema` of it lead to the same bytes. -/
theorem refusals_indistinguishable (lib : Nlohmann) (single restShape : Bool) (raw : Json) :
    (AsksCall raw → ∀ cfg₁ cfg₂ b₁ b₂, Refused cfg₁ b₁ raw → Refused cfg₂ b₂ raw →
      ∃ bytes : Except JsonError Bytes,
        answerNow cfg₁ lib single restShape b₁ raw = bytes.map (fun t => (some t, b₁)) ∧
        answerNow cfg₂ lib single restShape b₂ raw = bytes.map (fun t => (some t, b₂)) ∧
        ∀ cfg b b' id t args timeoutMs a,
          handleOne cfg lib b raw = .ok (.submit (.call id t args timeoutMs), b') →
          a.error.ok = true → isUnknownMethodRefusal a.value = true →
          flush lib single restShape [(Job.call id t args timeoutMs).response a] = bytes) ∧
    (∀ module, AsksSchema raw module → ∀ cfg₁ cfg₂ b₁ b₂,
      cfg₁.find module = none → cfg₂.find module = none →
      ∃ bytes : Except JsonError Bytes,
        answerNow cfg₁ lib single restShape b₁ raw = bytes.map (fun t => (some t, b₁)) ∧
        answerNow cfg₂ lib single restShape b₂ raw = bytes.map (fun t => (some t, b₂))) := by
  constructor
  · intro hcall cfg₁ cfg₂ b₁ b₂ h₁ h₂
    refine ⟨(refusal raw).bind fun response => flush lib single restShape [response],
      answerNow_of_fill (handleOne_of_refused_call hcall h₁),
      answerNow_of_fill (handleOne_of_refused_call hcall h₂), ?_⟩
    intro cfg b b' id t args timeoutMs a hsubmit hok hunknown
    rw [refusal_of_submit hcall hsubmit]
    show flush lib single restShape [callResponse id a.value a.error] = _
    rw [callResponse, hok, hunknown]
    rfl
  · intro module hasks cfg₁ cfg₂ b₁ b₂ h₁ h₂
    exact ⟨(schemaRefusal raw).bind fun response => flush lib single restShape [response],
      answerNow_of_fill (handleOne_schema hasks h₁), answerNow_of_fill (handleOne_schema hasks h₂)⟩

/-- A REST request makes no call but to the module and the method of its path. -/
theorem target_of_restRequest {module method : Bytes} {inner : Json} {req : RpcRequest}
    {t : CallTarget} (hparse : parseRequest (restRequest module method inner) = .ok (.ok req))
    (hcall : req.call = .ok (.ok t)) : t.module = module ∧ t.method = method := by
  rw [parseRequest_restRequest] at hparse
  cases hparse
  replace hcall : parseCallTarget (restTarget module method inner) = .ok (.ok t) := hcall
  rw [parseCallTarget_eq (find_module_restTarget ..) (find_method_restTarget ..)] at hcall
  dsimp only at hcall
  split_ifs at hcall
  all_goals cases hcall
  all_goals exact ⟨rfl, rfl⟩

theorem refused_restRequest {cfg : BridgeConfig} {b : Bridge} {module method : Bytes} {inner : Json}
    (h : methodPermitted cfg (b.gate module) method = false) :
    Refused cfg b (restRequest module method inner) := by
  intro req t hparse hcall
  obtain ⟨hm, hx⟩ := target_of_restRequest hparse hcall
  rw [hm, hx]
  exact h

/-- `m1.x`, denied by one bridge and unknown to the other. -/
theorem denied_and_unknown_alike :
    ∃ bytes : Except JsonError Bytes,
      answerNow { modules := [{ name := str "m1", methods := { deny := [str "x"] } }] }
          Nlohmann.emptyArray true true Bridge.undiscovered
          (restRequest (str "m1") (str "x") (.arr [])) =
        bytes.map (fun t => (some t, Bridge.undiscovered)) ∧
      answerNow { modules := [{ name := str "m2" }] } Nlohmann.emptyArray true true
          Bridge.undiscovered (restRequest (str "m1") (str "x") (.arr [])) =
        bytes.map (fun t => (some t, Bridge.undiscovered)) := by
  obtain ⟨bytes, h₁, h₂, -⟩ := (refusals_indistinguishable Nlohmann.emptyArray true true
    (restRequest (str "m1") (str "x") (.arr []))).1 (asksCall_restRequest _ _ _)
    { modules := [{ name := str "m1", methods := { deny := [str "x"] } }] }
    { modules := [{ name := str "m2" }] } Bridge.undiscovered Bridge.undiscovered
    (refused_restRequest (by decide)) (refused_restRequest (by decide))
  exact ⟨bytes, h₁, h₂⟩

end JsonRpcBridge.Dispatcher
