import JsonRpcBridge.Config.Parse
import JsonRpcBridge.Dispatcher.Refusals

/-!
# Aliases

`{module}.{method}` as the method of a request is `rpc.call` of that module and method, in every
state and with the same refusals (`handleOne_alias`). The names the configuration accepts make the
split unambiguous, whatever dots the method has (`splitAlias_exposed`).
-/

namespace JsonRpcBridge.Dispatcher

/-! ## Splitting at the first `.`

A module name has no `.` in it, so the split of an alias is the one it was made of. -/

/-- `{m}.{x}`. -/
def aliasOf (m x : Bytes) : Bytes := m ++ str "." ++ x

theorem aliasOf_eq (m x : Bytes) : aliasOf m x = m ++ 0x2e :: x := by
  have hdot : str "." = [0x2e] := by decide
  rw [aliasOf, hdot, List.append_assoc]
  rfl

theorem splitAlias_append {m x : Bytes} (hdot : (0x2e : UInt8) ∉ m) (hm : m ≠ []) (hx : x ≠ []) :
    splitAlias (m ++ 0x2e :: x) = some (m, x) := by
  rw [splitAlias, splitFirst_append hdot hx, if_neg hm]

/-- Only the module `rpc` has aliases that look like bridge operations. -/
theorem isBridgeOp_append {m x : Bytes} (hdot : (0x2e : UInt8) ∉ m) (hrpc : m ≠ str "rpc") :
    isBridgeOp (m ++ 0x2e :: x) = false := by
  by_contra h
  rw [Bool.not_eq_false, isBridgeOp, startsWith_iff] at h
  obtain ⟨rest, hrest⟩ := h
  have hop : (0x2e : UInt8) ∉ str "rpc" := by decide
  have hfound : find 0x2e (str "rpc" ++ 0x2e :: rest) = some (str "rpc").length := find_append hop
  have hstr : str "rpc." ++ rest = str "rpc" ++ 0x2e :: rest := rfl
  rw [hstr] at hrest
  rw [← hrest, find_append hdot] at hfound
  exact hrpc (List.append_inj_left hrest (Option.some.inj hfound))

/-- Every alias of an exposed module is an alias, and splits back to the module and the method. -/
theorem splitAlias_exposed {lib : Nlohmann} {own : Bytes} {cfg : BridgeConfig}
    (hcfg : cfg.Accepted lib own) {em : ExposedModule} (hem : em ∈ cfg.modules) {x : Bytes}
    (hx : x ≠ []) :
    isBridgeOp (em.name ++ 0x2e :: x) = false ∧
      splitAlias (em.name ++ 0x2e :: x) = some (em.name, x) := by
  have hchecked := hcfg.checked em hem
  have hdot := dot_not_mem_of_checkModuleName hchecked
  exact ⟨isBridgeOp_append hdot (ne_rpc_of_checkModuleName hchecked),
    splitAlias_append hdot (hcfg.nonempty em hem) hx⟩

/-! ## The `rpc.call` of an alias

The request that says the same in the long form. -/

/-- `call` is the request `raw` with `rpc.call {module, method, params}` in place of its method and
its params. -/
structure IsCallForm (raw call : Json) (module method : Bytes) : Prop where
  version : call.find? (str "jsonrpc") = raw.find? (str "jsonrpc")
  id : call.find? (str "id") = raw.find? (str "id")
  isCall : call.find? (str "method") = some (.str kCall)
  target : ∃ p, call.find? (str "params") = some p ∧ p.find? (str "module") = some (.str module) ∧
    p.find? (str "method") = some (.str method) ∧
    (p.find? (str "params") = raw.find? (str "params") ∨
      raw.find? (str "params") = none ∧ p.find? (str "params") = some (.arr []))

/-- The `rpc.call` of an alias, made from its request. -/
def callForm (raw : Json) (module method : Bytes) : Json :=
  let target := [(str "module", Json.str module), (str "method", .str method)]
  let params := match raw.find? (str "params") with
    | none => Json.object target
    | some p => Json.object (target ++ [(str "params", p)])
  (raw.set (str "method") (.str kCall)).set (str "params") params

theorem isCallForm_callForm {raw : Json} {module method : Bytes} (h : raw.isObject = true) :
    IsCallForm raw (callForm raw module method) module method := by
  have hkeys : str "jsonrpc" ≠ str "params" ∧ str "jsonrpc" ≠ str "method" ∧
      str "id" ≠ str "params" ∧ str "id" ≠ str "method" ∧ str "method" ≠ str "params" := by
    decide
  have hset := Json.isObject_set (k := str "method") (v := .str kCall) h
  refine ⟨?_, ?_, ?_, ?_⟩
  · rw [callForm, Json.find?_set hset, if_neg hkeys.1, Json.find?_set h, if_neg hkeys.2.1]
  · rw [callForm, Json.find?_set hset, if_neg hkeys.2.2.1, Json.find?_set h, if_neg hkeys.2.2.2.1]
  · rw [callForm, Json.find?_set hset, if_neg hkeys.2.2.2.2, Json.find?_set h, if_pos rfl]
  · refine ⟨_, by rw [callForm, Json.find?_set hset, if_pos rfl], ?_⟩
    cases raw.find? (str "params") with
    | none => exact ⟨rfl, rfl, Or.inl rfl⟩
    | some p => exact ⟨rfl, rfl, Or.inl rfl⟩

/-! ## Both make the same call

The two take different branches of `handleOne` and meet in `dispatchCall`. -/

/-- What becomes of a request for the call `t`, given its id. -/
def callOutcome (cfg : BridgeConfig) (b : Bridge) (id : Option Json) (t : CallTarget) :
    Outcome × Bridge :=
  match id with
  | none => (.fill (makeError .null (invalidRequest kCallNotificationRefused)), b)
  | some id =>
    if isRequestId id then dispatchCall cfg b id t
    else (.fill (makeError .null (invalidRequest (str "id must be a string, number or null"))), b)

section

variable {cfg : BridgeConfig} {lib : Nlohmann} {b : Bridge} {raw : Json} {m x : Bytes}

theorem handleOne_of_alias (hversion : raw.find? (str "jsonrpc") = some (.str (str "2.0")))
    (hmethod : raw.find? (str "method") = some (.str (m ++ 0x2e :: x)))
    (hop : isBridgeOp (m ++ 0x2e :: x) = false) (hsplit : splitAlias (m ++ 0x2e :: x) = some (m, x))
    (hparams : ∀ p, raw.find? (str "params") = some p → p.isObject = true ∨ p.isArray = true) :
    handleOne cfg lib b raw = .ok (callOutcome cfg b (raw.find? (str "id"))
      ⟨m, x, (raw.find? (str "params")).getD (.arr [])⟩) := by
  have hparse := parseRequest_of_params hversion hmethod hparams
  cases hid : raw.find? (str "id") with
  | none =>
      rw [hid] at hparse
      rw [handleOne_of_parse hparse, handleRequest_call (Or.inr hop), RpcRequest.call, hop,
        parseAliasCall]
      dsimp only
      rw [hsplit]
      rfl
  | some id =>
      rw [hid] at hparse
      by_cases hvalid : isRequestId id = true
      · dsimp only at hparse
        rw [if_pos hvalid] at hparse
        rw [handleOne_of_parse hparse, handleRequest_call (Or.inr hop), RpcRequest.call, hop,
          parseAliasCall]
        dsimp only
        rw [hsplit, callOutcome, if_pos hvalid]
        cases raw.find? (str "params") <;> rfl
      · dsimp only at hparse
        rw [if_neg hvalid] at hparse
        rw [handleOne_of_refused hparse, callOutcome, if_neg hvalid]

/-- An `rpc.call` whose params name a module, a method and the call's own params. -/
theorem handleOne_of_call {p args : Json}
    (hversion : raw.find? (str "jsonrpc") = some (.str (str "2.0")))
    (hmethod : raw.find? (str "method") = some (.str kCall))
    (hp : raw.find? (str "params") = some p)
    (hpm : p.find? (str "module") = some (.str m)) (hpx : p.find? (str "method") = some (.str x))
    (hm : m ≠ []) (hx : x ≠ []) (hpp : (p.find? (str "params")).getD (.arr []) = args)
    (hargs : args.isObject = true ∨ args.isArray = true) :
    handleOne cfg lib b raw = .ok (callOutcome cfg b (raw.find? (str "id")) ⟨m, x, args⟩) := by
  have hobj : p.isObject = true := Json.isObject_of_find hpm
  have hparse := parseRequest_of_params hversion hmethod
    fun p' hp' => Or.inl (by rw [hp] at hp'; cases hp'; exact hobj)
  rw [hp] at hparse
  have htarget : parseCallTarget p = .ok (.ok ⟨m, x, args⟩) := by
    have hnull : args.isNull = false := by
      cases args <;> first | rfl | simp [Json.isObject, Json.isArray] at hargs
    have hkind : (!args.isObject && !args.isArray) = false := by
      rcases hargs with h | h <;> simp [h]
    have hnames : (m.isEmpty || x.isEmpty) = false := by simp [hm, hx]
    rw [parseCallTarget_eq hpm hpx]
    dsimp only
    rw [hpp, hnull, hnames]
    simp only [Bool.false_eq_true, if_false]
    rw [hkind]
    rfl
  have hop : isBridgeOp kCall = true := by decide
  -- without an id it is a notification, and refused; with one of the wrong kind it does not parse
  cases hid : raw.find? (str "id") with
  | none =>
      rw [hid] at hparse
      rw [handleOne_of_parse hparse, handleRequest_call (Or.inl rfl)]
      rfl
  | some id =>
      rw [hid] at hparse
      by_cases hvalid : isRequestId id = true
      · dsimp only at hparse
        rw [if_pos hvalid] at hparse
        rw [handleOne_of_parse hparse, handleRequest_call (Or.inl rfl), RpcRequest.call]
        dsimp only
        rw [hop, callOutcome, if_pos hvalid]
        show Except.map _ (parseCallTarget p) = _
        rw [htarget]
        rfl
      · dsimp only at hparse
        rw [if_neg hvalid] at hparse
        rw [handleOne_of_refused hparse, callOutcome, if_neg hvalid]

/-- An alias and its `rpc.call` are handled alike. -/
theorem handleOne_alias {call : Json}
    (hmethod : raw.find? (str "method") = some (.str (m ++ 0x2e :: x)))
    (hop : isBridgeOp (m ++ 0x2e :: x) = false) (hdot : (0x2e : UInt8) ∉ m) (hm : m ≠ [])
    (hx : x ≠ []) (hparams : ∀ p, raw.find? (str "params") = some p →
      p.isObject = true ∨ p.isArray = true)
    (hcall : IsCallForm raw call m x) :
    handleOne cfg lib b raw = handleOne cfg lib b call := by
  by_cases hversion : raw.find? (str "jsonrpc") = some (.str (str "2.0"))
  · obtain ⟨p, hp, hpm, hpx, hpp⟩ := hcall.target
    have hargs : (p.find? (str "params")).getD (.arr []) =
        (raw.find? (str "params")).getD (.arr []) := by
      rcases hpp with h | ⟨h, h'⟩
      · rw [h]
      · rw [h, h']
        rfl
    have hkind : ((raw.find? (str "params")).getD (.arr [])).isObject = true ∨
        ((raw.find? (str "params")).getD (.arr [])).isArray = true := by
      cases hraw : raw.find? (str "params") with
      | none => exact Or.inr rfl
      | some p' => exact hparams p' hraw
    rw [handleOne_of_alias hversion hmethod hop (splitAlias_append hdot hm hx) hparams,
      handleOne_of_call (hcall.version.trans hversion) hcall.isCall hp hpm hpx hm hx hargs hkind,
      hcall.id]
  · have hparse : parseRequest raw = parseRequest call :=
      parseRequest_congr (Json.isObject_of_find hmethod) (Json.isObject_of_find hcall.isCall)
        hcall.version.symm hversion
    cases hc : parseRequest call with
    | error e => rw [handleOne, handleOne, hparse, hc]
    | ok parsed =>
        cases parsed with
        | error err => rw [handleOne_of_refused (hparse.trans hc), handleOne_of_refused hc]
        | ok req => exact absurd (hcall.version.symm.trans (parseRequest_ok hc).1) hversion

end

/-- **An alias is exactly `rpc.call`**, and every method of an exposed module has an alias that
names it and nothing else. -/
theorem alias_is_call :
    (∀ (cfg : BridgeConfig) (lib : Nlohmann) (b : Bridge) (raw call : Json) (m x : Bytes),
      raw.find? (str "method") = some (.str (aliasOf m x)) → isBridgeOp (aliasOf m x) = false →
      (0x2e : UInt8) ∉ m → m ≠ [] → x ≠ [] →
      (∀ p, raw.find? (str "params") = some p → p.isObject = true ∨ p.isArray = true) →
      IsCallForm raw call m x → handleOne cfg lib b raw = handleOne cfg lib b call) ∧
    (∀ (lib : Nlohmann) (own text : Bytes) (cfg : BridgeConfig),
      parseBridgeConfig lib own text = .ok cfg → ∀ em ∈ cfg.modules, ∀ x, x ≠ [] →
        isBridgeOp (aliasOf em.name x) = false ∧ splitAlias (aliasOf em.name x) = some (em.name, x)) := by
  constructor
  · intro cfg lib b raw call m x hmethod hop hdot hm hx hparams hcall
    rw [aliasOf_eq] at hmethod hop
    exact handleOne_alias hmethod hop hdot hm hx hparams hcall
  · intro lib own text cfg hcfg em hem x hx
    rw [aliasOf_eq]
    exact splitAlias_exposed (accepted_of_parse hcfg) hem hx

/-! ## A method with a dot -/

/-- `m1.a.b` with the id 7 and no params. -/
def dottedAlias : Json :=
  Json.object [(str "jsonrpc", .str (str "2.0")), (str "id", .uint 7),
    (str "method", .str (str "m1.a.b"))]

theorem alias_is_call_minimal :
    handleOne minimalConfig minimalLib Bridge.undiscovered dottedAlias =
        handleOne minimalConfig minimalLib Bridge.undiscovered
          (callForm dottedAlias (str "m1") (str "a.b")) ∧
      isBridgeOp (aliasOf (str "m1") (str "a.b")) = false ∧
      splitAlias (aliasOf (str "m1") (str "a.b")) = some (str "m1", str "a.b") :=
  ⟨alias_is_call.1 minimalConfig minimalLib Bridge.undiscovered dottedAlias
      (callForm dottedAlias (str "m1") (str "a.b")) (str "m1") (str "a.b") rfl (by decide)
      (by decide) (by decide) (by decide) (fun p hp => nomatch hp) (isCallForm_callForm rfl),
    alias_is_call.2 minimalLib (str "json_rpc_bridge") minimalText minimalConfig parse_minimal
      { name := str "m1" } List.mem_cons_self (str "a.b") (by decide)⟩

end JsonRpcBridge.Dispatcher
