import JsonRpcBridge.Discovery.Clean
import JsonRpcBridge.Dispatcher.Outcomes
import JsonRpcBridge.Dispatcher.Raises

/-!
# Every answer can be serialised

A client's text reaches an answer through the id, the subscription, a name, or the bad path of a
by-name call. All of it came through the JSON parser and is well formed, except the module and the
method of a REST call, which come out of the URL as lws hands it over.

A module that is not valid UTF-8 is exposed by no configuration, but a gate that knows no names lets
any method through, and `toPositional` then names it in the error: `serialisable_iff` says that this
is the only way to an answer that cannot be dumped.
-/

namespace JsonRpcBridge.Dispatcher

open Discovery Subscriptions

/-! ## What a request finds, over a run of discovery

The views of a bridge are those of reachable states of discovery, one for each module and not
necessarily of one moment: a request that is handled in several sections may see several of them. -/

/-- The bridge reads its views from states that discovery reaches, and serves the document built
from one. -/
structure Bridge.Discovered (cfg : BridgeConfig) (lib : Nlohmann) (reader : ContractReader)
    (b : Bridge) : Prop where
  gate : ∀ m, ∃ sh, Reached cfg lib reader sh ∧ b.gate m = sh.viewOf m
  view : ∀ m, ∃ sh, Reached cfg lib reader sh ∧ b.view m = sh.viewOf m
  openrpc : ∃ sh bridgeVersion, Reached cfg lib reader sh ∧
    b.openrpc = Docs.buildOpenRpc (Docs.docContext cfg bridgeVersion (sh.views cfg))

/-! ### What is dumped

Errors and refusals are dumped at once, responses when their batch is full. A value that holds a
string which is not UTF-8 cannot be dumped, wherever in it the string is. -/

/-- What a slot is filled with; `a` is what upstream says if it is asked. -/
def Outcome.response (a : Upstreamed) : Outcome → Json
  | .fill response => response
  | .submit job => job.response a

/-- The slots of a batch, full; `answers i` is what upstream says to request `i`. -/
def slotsOf (answers : Nat → Upstreamed) (outcomes : List Outcome) : List Json :=
  outcomes.mapIdx fun i out => out.response (answers i)

/-- A value the bridge dumps to answer a body: at once, or when the batch it dispatched is full. -/
inductive Dumps (cfg : BridgeConfig) (lib : Nlohmann) (now : Nat → Bridge)
    (answers : Nat → Upstreamed) (draining : Bool) (route body : Bytes) : Json → Prop
  | answer {response : Json} :
      readBody cfg lib draining route body = .answer response →
      Dumps cfg lib now answers draining route body response
  | flush {requests : List Json} {single restShape : Bool} {outcomes : List Outcome} {value : Json} :
      readBody cfg lib draining route body = .dispatch requests single restShape →
      handleAll cfg lib now 0 requests = .ok outcomes →
      flushed single restShape (slotsOf answers outcomes) = some value →
      Dumps cfg lib now answers draining route body value

/-- A REST call by name whose method is not valid UTF-8, and which the gate lets through. -/
def EchoesPath (cfg : BridgeConfig) (lib : Nlohmann) (b : Bridge) (draining : Bool)
    (route body : Bytes) : Prop :=
  draining = false ∧ isRest route = true ∧ ∃ module method byName,
    splitRest (route.drop kModulesPrefix.length) = some (module, method) ∧ ¬Utf8 method ∧
    restParams lib body = some (.obj byName) ∧
    methodPermitted cfg (b.gate module) method = true

/-- The request that such a call makes. -/
def EchoesName (cfg : BridgeConfig) (b : Bridge) (raw : Json) : Prop :=
  ∃ module method byName, raw = restRequest module method (.obj byName) ∧ ¬Utf8 method ∧
    methodPermitted cfg (b.gate module) method = true

section

variable {cfg : BridgeConfig} {lib : Nlohmann} {reader : ContractReader} {b : Bridge}
  {view : ModuleView} {byName : List (Bytes × Json)} {method path : Bytes}

/-! ## The bad path of a by-name call

`toPositional` names a parameter of the view, a key of the params or the method. Only the last
one can come from a URL. -/

theorem utf8_typedArguments : ∀ {ps : List ContractParam}, (∀ p ∈ ps, Utf8 p.name) →
    typedArguments byName ps = .error path → Utf8 path
  | [], _, h => by cases h
  | p :: ps, hps, h => by
    have hrest : ∀ q ∈ ps, Utf8 q.name := fun q hq => hps q (List.mem_cons_of_mem _ hq)
    -- the error of the rest, whatever is put before it
    have hmap : ∀ v : Json, (typedArguments byName ps).map (v :: ·) = .error path → Utf8 path := by
      intro v hv
      cases hargs : typedArguments byName ps with
      | error e =>
          rw [hargs] at hv
          cases hv
          exact utf8_typedArguments hrest hargs
      | ok vs =>
          rw [hargs] at hv
          cases hv
    rw [typedArguments] at h
    split at h
    · exact hmap _ h
    · split at h
      · exact hmap _ h
      · cases h
        exact hps p (List.mem_cons_self ..)

/-- The bad path is a name of the view, a key of the request, or the method itself. -/
theorem utf8_toPositional (hview : view.Clean) (hkeys : ∀ kv ∈ byName, Utf8 kv.1)
    (h : toPositional view method byName = .error path) : Utf8 path ∨ path = method := by
  unfold toPositional at h
  split at h
  · rename_i c hc
    split at h
    · cases h
      exact Or.inr rfl
    · rename_i cm hcm
      have hcm := ((hview.typed hc).methods cm (List.mem_of_find?_eq_some hcm)).params
      unfold typedPositional at h
      split at h
      · rename_i kv hkv
        cases h
        exact Or.inl (hkeys kv (List.mem_of_find?_eq_some hkv))
      · exact Or.inl (utf8_typedArguments hcm h)
  · split at h
    · cases h
      exact Or.inr rfl
    · split at h
      · rename_i kv hkv
        cases h
        exact Or.inl (hkeys kv (List.mem_of_find?_eq_some hkv))
      · cases h

/-- A clean view knows no method that is not valid UTF-8. -/
theorem toPositional_of_not_utf8 (hview : view.Clean) (hmethod : ¬Utf8 method) :
    toPositional view method byName = .error method := by
  unfold toPositional
  split
  · rename_i c hc
    have hnone : c.method method = none := by
      apply List.find?_eq_none.mpr
      intro m hm heq
      have hname : m.name = method := by simpa using heq
      exact hmethod (hname ▸ ((hview.typed hc).methods m hm).name)
    rw [hnone]
  · have hnone : (if view.resolved then view.live.method method else none) = none := by
      split
      · apply List.find?_eq_none.mpr
        intro m hm heq
        have hname : m.name = method := by simpa using heq
        exact hmethod (hname ▸ (hview.live.methods m hm).name)
      · rfl
    rw [hnone]

/-! ## The parts of a request are well formed

Strings cut out of a clean document at an ASCII byte are clean. -/

theorem utf8_splitFirst {c : UInt8} {s m x : Bytes} (hc : c.toNat < 0x80) (hs : Utf8 s)
    (h : splitFirst c s = some (m, x)) : Utf8 m ∧ Utf8 x := by
  unfold splitFirst at h
  split at h
  · cases h
  · rename_i i hi
    split at h <;> cases h
    have hget : s[i]? = some c := by
      obtain ⟨hlt, hget, -⟩ := List.idxOf?_eq_some_iff.mp hi
      rw [List.getElem?_eq_getElem hlt, hget]
    obtain ⟨htake, -, hdrop⟩ := Docs.utf8_at hs hget hc
    exact ⟨htake, hdrop⟩

theorem utf8_memberString {p v : Json} {key text : Bytes} (hp : p.Clean) (hv : p.member key = .ok v)
    (htext : v.getString = .ok text) : Utf8 text := by
  unfold Json.member at hv
  split at hv
  · rename_i w hfind
    cases hv
    exact (hp.find? hfind).getString htext
  · cases hv

/-- The target of clean params is made of well-formed strings and clean values. -/
theorem clean_parseCallTarget {p : Json} {t : CallTarget} (hp : p.Clean)
    (h : parseCallTarget p = .ok (.ok t)) : Utf8 t.method ∧ t.params.Clean := by
  unfold parseCallTarget at h
  split at h
  · cases h
  · obtain ⟨isModule, -, h⟩ := of_bind_eq_ok h
    obtain ⟨isMethod, -, h⟩ := of_bind_eq_ok h
    split at h
    · cases h
    · obtain ⟨m, -, h⟩ := of_bind_eq_ok h
      obtain ⟨module, -, h⟩ := of_bind_eq_ok h
      obtain ⟨x, hx, h⟩ := of_bind_eq_ok h
      obtain ⟨method, hmethod, h⟩ := of_bind_eq_ok h
      split at h
      · cases h
      · rw [Json.memberOr_eq] at h
        obtain ⟨params, hparams, h⟩ := of_bind_eq_ok h
        obtain rfl := Except.ok.inj hparams
        have hgiven : ((p.find? (str "params")).getD (.arr [])).Clean := clean_getD_find hp (by simp)
        dsimp only at h
        split at h <;> split at h <;> cases h
        · exact ⟨utf8_memberString hp hx hmethod, by simp⟩
        · exact ⟨utf8_memberString hp hx hmethod, hgiven⟩

theorem clean_call {req : RpcRequest} {t : CallTarget} (hmethod : Utf8 req.method)
    (hparams : req.params.Clean) (h : req.call = .ok (.ok t)) : Utf8 t.method ∧ t.params.Clean := by
  unfold RpcRequest.call at h
  split at h
  · have h := Except.ok.inj h
    unfold parseAliasCall at h
    split at h
    · cases h
    · rename_i m x hsplit
      split at h <;> cases h
      refine ⟨(utf8_splitFirst (by decide) hmethod hsplit).2, ?_⟩
      dsimp only
      split
      · exact hparams
      · simp
  · exact clean_parseCallTarget hparams h

theorem clean_parseSubscribeTarget {p : Json} {requireEvent : Bool} {t : SubscribeTarget}
    (hp : p.Clean) (h : parseSubscribeTarget p requireEvent = .ok (.ok t)) :
    t.subscription.Clean ∧ Utf8 t.module ∧ Utf8 t.event := by
  have hsubscription := hp.find? (parseSubscribeTarget_subscription h)
  unfold parseSubscribeTarget at h
  split at h
  · cases h
  · obtain ⟨isId, -, h⟩ := of_bind_eq_ok h
    split at h
    · cases h
    · obtain ⟨subscription, -, h⟩ := of_bind_eq_ok h
      split at h
      · obtain ⟨isModule, -, h⟩ := of_bind_eq_ok h
        obtain ⟨isEvent, -, h⟩ := of_bind_eq_ok h
        split at h
        · cases h
        · obtain ⟨m, hm, h⟩ := of_bind_eq_ok h
          obtain ⟨module, hmodule, h⟩ := of_bind_eq_ok h
          obtain ⟨e, he, h⟩ := of_bind_eq_ok h
          obtain ⟨event, hevent, h⟩ := of_bind_eq_ok h
          split at h <;> cases h
          exact ⟨hsubscription, utf8_memberString hp hm hmodule, utf8_memberString hp he hevent⟩
      · cases h
        exact ⟨hsubscription, utf8_nil, utf8_nil⟩

/-! ## The answers are clean

Case by case over what a request can be answered with, and then over what the upstream call
returns. -/

/-- What an accepted configuration, a clean reader and clean answers give: every view a request
reads is clean and about the module it was asked for. -/
structure Bridge.CleanViews (cfg : BridgeConfig) (b : Bridge) : Prop where
  view : ∀ m, (b.view m).Clean
  module : ∀ m, (b.view m).module = m
  gate : ∀ m, (b.gate m).module = m
  names : ∀ em ∈ cfg.modules, Utf8 em.name
  openrpc : b.openrpc.Clean

theorem Bridge.Discovered.clean {own text : Bytes} (hcfg : parseBridgeConfig lib own text = .ok cfg)
    (hreader : reader.Clean) (h : b.Discovered cfg lib reader) : b.CleanViews cfg := by
  have hclean := (accepted_of_parse hcfg).clean
  have hpolicies : CleanPolicies cfg := fun em hem => (hclean em hem).2.2
  constructor
  · intro m
    obtain ⟨sh, hsh, hview⟩ := h.view m
    exact hview ▸ hsh.clean_viewOf hpolicies hreader m
  · intro m
    obtain ⟨sh, hsh, hview⟩ := h.view m
    exact hview ▸ hsh.module_viewOf m
  · intro m
    obtain ⟨sh, hsh, hgate⟩ := h.gate m
    exact hgate ▸ hsh.module_viewOf m
  · exact fun em hem => (hclean em hem).1
  · obtain ⟨sh, version, hsh, hdoc⟩ := h.openrpc
    exact hdoc ▸ hsh.clean_openrpc hpolicies hreader version

theorem Bridge.CleanViews.describeView (h : b.CleanViews cfg) {em : ExposedModule}
    (hem : em ∈ cfg.modules) (withInterface : Bool) :
    (describeView em (b.view em.name) withInterface).Clean := by
  have hmodule : Utf8 (b.view em.name).module := by
    rw [h.module]
    exact h.names em hem
  exact clean_describeView em hmodule (h.view em.name) withInterface

/-! ### Answer by answer -/

theorem clean_callResponse {id value : Json} (hid : id.Clean) (hvalue : value.Clean) (e : CallError) :
    (callResponse id value e).Clean := by
  unfold callResponse
  split
  · exact clean_makeError hid (utf8_mapCallError _ _)
  · split
    · exact clean_makeError hid (utf8_str _)
    · exact clean_makeResult hid hvalue

theorem clean_subscribeAck {t : SubscribeTarget} (h : t.subscription.Clean ∧ Utf8 t.module ∧ Utf8 t.event)
    (state : String) : (subscribeAck t (str state)).Clean :=
  Json.clean_object (by simp [utf8_str, h])

/-- An answer is clean, unless it names a bad path that is not valid UTF-8. -/
theorem Answers.clean {id params : Json} {call : Except JsonError (Except MappedError CallTarget)}
    {out : Outcome} (h : Answers cfg b id params call out) (hb : b.CleanViews cfg) (hid : id.Clean)
    (hparams : params.Clean) {a : Upstreamed} (ha : a.value.Clean)
    (hpath : ∀ t path, call = .ok (.ok t) →
      methodPermitted cfg (b.gate t.module) t.method = true →
      callArguments b t = .error path → Utf8 path) : (out.response a).Clean := by
  cases h with
  | refused e he => exact clean_makeError hid he
  | badPath t path hcall hpermitted hargs =>
      exact clean_makeErrorRaw hid
        ((clean_invalidParamsJson (utf8_str _)).mpr (hpath t path hcall hpermitted hargs))
  | called t args timeoutMs => exact clean_callResponse hid ha a.error
  | pong => exact clean_makeResult hid (Json.clean_str_iff.mpr (utf8_str _))
  | listed =>
      apply clean_makeResult hid
      apply Json.clean_arr_iff.mpr
      intro x hx
      obtain ⟨em, hem, rfl⟩ := List.mem_map.mp hx
      exact hb.describeView hem false
  | described em hfind =>
      exact clean_makeResult hid (hb.describeView (BridgeConfig.find_mem hfind).1 true)
  | discovering => exact clean_makeResult hid hb.openrpc
  | active t ht =>
      exact clean_makeResult hid (clean_subscribeAck (clean_parseSubscribeTarget hparams ht) _)
  | subscribing t sid ht =>
      show (if a.added then _ else _ : Json).Clean
      split
      · exact clean_makeResult hid (clean_subscribeAck (clean_parseSubscribeTarget hparams ht) _)
      · exact clean_makeError hid (utf8_str _)
  | unsubscribed t ht =>
      have hsubscription := (clean_parseSubscribeTarget hparams ht).1
      exact clean_makeResult hid (Json.clean_object (by simp [utf8_str, hsubscription]))
  | cancelled => exact clean_makeResult hid (Json.clean_object (by simp [utf8_str]))

/-! ### Requests

A request that was read from a body is clean, and so is what it is answered with. -/

/-- The bad path of a call comes from the request or from the view. -/
theorem utf8_callArguments {t : CallTarget} (hview : (b.view t.module).Clean)
    (ht : Utf8 t.method ∧ t.params.Clean) (h : callArguments b t = .error path) : Utf8 path := by
  unfold callArguments at h
  split at h
  · rename_i byName hparams
    have hkeys : ∀ kv ∈ byName, Utf8 kv.1 := by
      intro kv hkv
      exact (Json.clean_obj_iff.mp (hparams ▸ ht.2) kv hkv).1
    cases hargs : toPositional (b.view t.module) t.method byName with
    | ok args =>
        rw [hargs] at h
        cases h
    | error e =>
        rw [hargs] at h
        cases h
        rcases utf8_toPositional hview hkeys hargs with hpath | rfl
        · exact hpath
        · exact ht.1
  · cases h

/-- **A request that came through the parser** is answered with a clean value. -/
theorem clean_handleOne (hb : b.CleanViews cfg) {raw : Json} (hraw : raw.Clean) {out : Outcome}
    {b' : Bridge} (h : handleOne cfg lib b raw = .ok (out, b')) {a : Upstreamed}
    (ha : a.value.Clean) : (out.response a).Clean := by
  rcases answers_handleOne h with ⟨err, -, herr, rfl⟩ | ⟨req, hparse, hanswers⟩
  · exact clean_makeError Json.clean_null herr
  · obtain ⟨hid, -⟩ := parseRequest_parts hparse
    have hparams := clean_params hraw hparse
    have hmethod : Utf8 req.method := Json.clean_str_iff.mp (hraw.find? (parseRequest_ok hparse).2)
    refine hanswers.clean hb (hid ▸ clean_getD_find hraw Json.clean_null) hparams ha ?_
    intro t path hcall _ hargs
    exact utf8_callArguments (hb.view t.module) (clean_call hmethod hparams hcall) hargs

/-! ## REST calls

Here module and method are whatever the URL had. The answer repeats them only as the bad path. -/

/-- The call of a REST request is on the module and the method of its path. -/
theorem call_restRequest {module method : Bytes} {inner : Json} (hm : module ≠ []) (hx : method ≠ [])
    (hinner : inner.isObject = true ∨ inner.isArray = true) :
    parseCallTarget (restTarget module method inner) = .ok (.ok ⟨module, method, inner⟩) := by
  rw [parseCallTarget_eq (find_module_restTarget ..) (find_method_restTarget ..),
    find_params_restTarget]
  cases module with
  | nil => exact absurd rfl hm
  | cons c cs =>
      cases method with
      | nil => exact absurd rfl hx
      | cons d ds =>
          cases inner with
          | obj ms => rfl
          | arr xs => rfl
          | _ => rcases hinner with h | h <;> cases h

/-- The bad path of a REST call, and when it is not valid UTF-8. -/
theorem utf8_restPath (hb : b.CleanViews cfg) {module : Bytes} {inner : Json} (hinner : inner.Clean)
    (hok : ∀ byName, inner = .obj byName → methodPermitted cfg (b.gate module) method = true →
      Utf8 method) {t : CallTarget}
    (ht : parseCallTarget (restTarget module method inner) = .ok (.ok t))
    (hpermitted : methodPermitted cfg (b.gate t.module) t.method = true)
    (hargs : callArguments b t = .error path) : Utf8 path := by
  rw [parseCallTarget_eq (find_module_restTarget ..) (find_method_restTarget ..),
    find_params_restTarget] at ht
  dsimp only [Option.getD_some] at ht
  cases inner with
  | obj byName =>
      split at ht
      · cases ht
      · cases ht
        exact utf8_callArguments (hb.view module) ⟨hok byName rfl hpermitted, hinner⟩ hargs
  | arr xs =>
      split at ht <;> cases ht
      cases hargs
  | null =>
      split at ht <;> cases ht
      cases hargs
  | _ => split at ht <;> cases ht

/-! ### Requests that came as a path -/

theorem restRequest_inj {module module' method' : Bytes} {inner inner' : Json}
    (h : restRequest module method inner = restRequest module' method' inner') :
    module = module' ∧ method = method' ∧ inner = inner' := by
  have htarget : restTarget module method inner = restTarget module' method' inner' :=
    Option.some.inj (congrArg (·.find? (str "params")) h)
  have hmember : ∀ key, (restTarget module method inner).find? key =
      (restTarget module' method' inner').find? key := fun key => by rw [htarget]
  refine ⟨?_, ?_, ?_⟩
  · exact Json.str.inj (Option.some.inj (hmember (str "module")))
  · exact Json.str.inj (Option.some.inj (hmember (str "method")))
  · exact Option.some.inj (hmember (str "params"))

theorem clean_restParams {body : Bytes} {inner : Json} (h : restParams lib body = some inner) :
    inner.Clean := by
  unfold restParams at h
  split at h
  · cases h
    simp
  · exact lib.parse_clean h

/-- A REST request is handled as the `rpc.call` it stands for. -/
theorem handleOne_restRequest (module method : Bytes) (inner : Json) :
    handleOne cfg lib b (restRequest module method inner) =
      handleCall cfg b { id := .int 1, isNotification := false, method := kCall
                         params := restTarget module method inner, hasParams := true } := by
  rw [handleOne_of_parse (parseRequest_restRequest module method inner)]
  rfl

/-- A REST call is answered with a clean value, unless it echoes its path. -/
theorem clean_handleOne_rest (hb : b.CleanViews cfg) {module : Bytes} {inner : Json}
    (hinner : inner.Clean)
    (hok : ∀ byName, inner = .obj byName → methodPermitted cfg (b.gate module) method = true →
      Utf8 method) {out : Outcome} {b' : Bridge}
    (h : handleOne cfg lib b (restRequest module method inner) = .ok (out, b')) {a : Upstreamed}
    (ha : a.value.Clean) : (out.response a).Clean := by
  rw [handleOne_restRequest] at h
  have hanswers : Answers cfg b (.int 1) .null _ out := answers_handleCall rfl h
  exact hanswers.clean hb (Json.clean_int 1) Json.clean_null ha
    fun t path ht hpermitted hargs => utf8_restPath hb hinner hok ht hpermitted hargs

/-- What a REST call that echoes its path is answered with. -/
theorem handleOne_of_echo (hb : b.CleanViews cfg) {module : Bytes} (hm : module ≠ [])
    (hmethod : ¬Utf8 method) (hpermitted : methodPermitted cfg (b.gate module) method = true) :
    handleOne cfg lib b (restRequest module method (.obj byName)) =
      .ok (.fill (makeErrorRaw (.int 1) (invalidParamsJson (str "schema-mismatch") method)), b) := by
  have hx : method ≠ [] := by
    rintro rfl
    exact hmethod utf8_nil
  have hargs : callArguments b ⟨module, method, .obj byName⟩ = .error method := by
    show (toPositional (b.view module) method byName).map Json.arr = _
    rw [toPositional_of_not_utf8 (hb.view module) hmethod]
    rfl
  have htarget : parseCallTarget (restTarget module method (.obj byName)) =
      .ok (.ok ⟨module, method, .obj byName⟩) := call_restRequest hm hx (Or.inl rfl)
  rw [handleOne_restRequest, handleCall, htarget]
  show Except.ok (dispatchCall cfg b (.int 1) ⟨module, method, .obj byName⟩) = _
  unfold dispatchCall
  rw [hargs, hpermitted]
  rfl

end

/-! ## Bodies

A body is answered by its slots put together, and a slot that cannot be dumped spoils the whole.
So the requests of a body must not echo the path, one by one. -/

section

variable {cfg : BridgeConfig} {lib : Nlohmann} {now : Nat → Bridge} {answers : Nat → Upstreamed}

/-- A request that was dispatched is answered with a clean value, unless it echoes its path. -/
theorem clean_dispatched {b b' : Bridge} {draining single restShape : Bool} {route body : Bytes}
    {requests : List Json} {raw : Json} {out : Outcome} {a : Upstreamed} (hb : b.CleanViews cfg)
    (hread : readBody cfg lib draining route body = .dispatch requests single restShape)
    (hraw : raw ∈ requests) (hecho : ¬EchoesName cfg b raw)
    (h : handleOne cfg lib b raw = .ok (out, b')) (ha : a.value.Clean) :
    (out.response a).Clean := by
  rcases readBody_cases cfg lib draining route body with ⟨response, hread', -⟩ |
    ⟨-, -, module, method, inner, -, hinner, hread'⟩ | ⟨-, -, j, hparse, -, -, hread'⟩
  all_goals rw [hread'] at hread
  all_goals cases hread
  · obtain rfl := List.mem_singleton.mp hraw
    refine clean_handleOne_rest hb (clean_restParams hinner) ?_ h ha
    rintro byName rfl hpermitted
    by_contra hmethod
    exact hecho ⟨module, method, byName, rfl, hmethod, hpermitted⟩
  · exact clean_handleOne hb (clean_requestsIn (lib.parse_clean hparse) raw hraw) h ha

/-- A request that was dispatched and echoes its path is the one of a REST call that does. -/
theorem echoesPath_of_name {b : Bridge} {draining single restShape : Bool} {route body : Bytes}
    {requests : List Json} {raw : Json}
    (hread : readBody cfg lib draining route body = .dispatch requests single restShape)
    (hraw : raw ∈ requests) (hname : EchoesName cfg b raw) :
    requests = [raw] ∧ EchoesPath cfg lib b draining route body := by
  obtain ⟨module, method, byName, rfl, hmethod, hpermitted⟩ := hname
  rcases readBody_cases cfg lib draining route body with ⟨response, hread', -⟩ |
    ⟨hdraining, hrest, module', method', inner, hsplit, hinner, hread'⟩ |
    ⟨-, -, j, hparse, -, -, hread'⟩
  all_goals rw [hread'] at hread
  all_goals cases hread
  · obtain ⟨rfl, rfl, rfl⟩ := restRequest_inj (List.mem_singleton.mp hraw)
    exact ⟨rfl, hdraining, hrest, module, method, byName, hsplit, hmethod, hinner, hpermitted⟩
  · -- what the parser gives is well formed
    have hclean := clean_requestsIn (lib.parse_clean hparse) _ hraw
    have hparams : (restTarget module method (.obj byName)).Clean :=
      hclean.find? (k := str "params") rfl
    have htext : (Json.str method).Clean := hparams.find? (find_method_restTarget ..)
    exact absurd (Json.clean_str_iff.mp htext) hmethod

/-- What is flushed is clean when the slots are. -/
theorem clean_flushed {single restShape : Bool} {slots : List Json} {value : Json}
    (hslots : ∀ s ∈ slots, s.Clean) (h : flushed single restShape slots = some value) :
    value.Clean := by
  unfold flushed at h
  split at h
  · cases h
  · rename_i out more hfilter
    have hall : ∀ s ∈ out :: more, s.Clean := by
      intro s hs
      rw [← hfilter] at hs
      exact hslots s (List.mem_filter.mp hs).1
    have hout := hall out (List.mem_cons_self ..)
    split at h
    · cases h
      unfold restAnswer
      split
      · rename_i e he
        exact Json.clean_object (by simp [utf8_str, hout.find? he])
      · split
        · rename_i r hr
          exact Json.clean_object (by simp [utf8_str, hout.find? hr])
        · exact Json.clean_object (by simp)
    · split at h <;> cases h
      · exact hout
      · exact Json.clean_arr_iff.mpr hall

/-! ### All slots -/

/-- Every outcome of a dispatched list is the outcome of one of its requests. -/
theorem outcome_of_handleAll {requests : List Json} {i : Nat} {outcomes : List Outcome}
    (h : handleAll cfg lib now i requests = .ok outcomes) {k : Nat} {out : Outcome}
    (hk : outcomes[k]? = some out) : ∃ raw b', requests[k]? = some raw ∧
      handleOne cfg lib (now (i + k)) raw = .ok (out, b') := by
  induction requests generalizing i outcomes k with
  | nil =>
      cases h
      cases hk
  | cons raw requests ih =>
      rw [handleAll] at h
      obtain ⟨⟨first, b'⟩, hfirst, h⟩ := of_bind_eq_ok h
      obtain ⟨rest, hrest, h⟩ := of_bind_eq_ok h
      cases h
      cases k with
      | zero =>
          cases hk
          exact ⟨raw, b', rfl, hfirst⟩
      | succ k =>
          obtain ⟨raw', b'', hraw, hhandle⟩ := ih hrest hk
          exact ⟨raw', b'', hraw, by rw [← hhandle]; congr 2; omega⟩

/-- The slots are clean when every request is answered with a clean value. -/
theorem clean_slotsOf {requests : List Json} {outcomes : List Outcome}
    (h : handleAll cfg lib now 0 requests = .ok outcomes)
    (hclean : ∀ k raw out b', requests[k]? = some raw →
      handleOne cfg lib (now k) raw = .ok (out, b') → (out.response (answers k)).Clean) :
    ∀ s ∈ slotsOf answers outcomes, s.Clean := by
  intro s hs
  obtain ⟨k, hk, rfl⟩ := List.mem_mapIdx.mp hs
  obtain ⟨raw, b', hraw, hhandle⟩ := outcome_of_handleAll h (List.getElem?_eq_getElem hk)
  rw [Nat.zero_add] at hhandle
  exact hclean k raw _ b' hraw hhandle

end

/-- **Every answer can be serialised**, exactly when the body is not a REST call by name whose
method is not valid UTF-8 and which the gate lets through. -/
theorem serialisable_iff (lib : Nlohmann) (own text : Bytes) (cfg : BridgeConfig)
    (hcfg : parseBridgeConfig lib own text = .ok cfg) (reader : ContractReader)
    (hreader : reader.Clean) (now : Nat → Bridge) (hnow : ∀ i, (now i).Discovered cfg lib reader)
    (answers : Nat → Upstreamed) (hanswers : ∀ i, (answers i).value.Clean) (draining : Bool)
    (route body : Bytes) :
    (∀ value, Dumps cfg lib now answers draining route body value →
      value.Clean ∧ Quiet (lib.dump value)) ↔ ¬EchoesPath cfg lib (now 0) draining route body := by
  have hviews : ∀ i, (now i).CleanViews cfg := fun i => (hnow i).clean hcfg hreader
  constructor
  · rintro hall ⟨rfl, hrest, module, method, byName, hsplit, hmethod, hinner, hpermitted⟩
    have hm : module ≠ [] := splitFirst_ne_nil hsplit
    have hread : readBody cfg lib false route body =
        .dispatch [restRequest module method (.obj byName)] true true := by
      rw [readBody, if_neg Bool.false_ne_true, if_pos hrest, readRest, hsplit, hinner]
    have hhandle : handleAll cfg lib now 0 [restRequest module method (.obj byName)] =
        .ok [.fill (makeErrorRaw (.int 1) (invalidParamsJson (str "schema-mismatch") method))] := by
      rw [handleAll, handleOne_of_echo (hviews 0) hm hmethod hpermitted]
      rfl
    have hflushed : flushed true true (slotsOf answers
        [.fill (makeErrorRaw (.int 1) (invalidParamsJson (str "schema-mismatch") method))]) =
        some (Json.object [(str "error", invalidParamsJson (str "schema-mismatch") method)]) := rfl
    have hclean := (hall _ (.flush hread hhandle hflushed)).1
    have herror := hclean.find? (k := str "error") rfl
    exact hmethod ((clean_invalidParamsJson (utf8_str _)).mp herror)
  · intro hecho value hdumps
    have hclean : value.Clean := by
      cases hdumps with
      | answer hread =>
          rcases readBody_cases cfg lib draining route body with ⟨response, hread', hresponse, -⟩ |
            ⟨-, -, module, method, inner, -, -, hread'⟩ | ⟨-, -, j, -, -, -, hread'⟩
          all_goals rw [hread'] at hread
          all_goals cases hread
          exact hresponse
      | flush hread hhandle hflushed =>
          refine clean_flushed (clean_slotsOf hhandle ?_) hflushed
          intro k raw out b' hraw hone
          refine clean_dispatched (hviews k) hread (List.mem_of_getElem? hraw) ?_ hone (hanswers k)
          intro hname
          obtain ⟨hfirst, hpath⟩ := echoesPath_of_name hread (List.mem_of_getElem? hraw) hname
          -- a REST call is the only request of its body
          have hzero : k = 0 := by
            have hlt := (List.getElem?_eq_some_iff.mp hraw).1
            rw [hfirst, List.length_singleton] at hlt
            omega
          exact hecho (hzero ▸ hpath)
    exact ⟨hclean, quiet_dump hclean⟩

/-! ## A bridge that has just started

Nothing is known of any module yet, and no policy is configured for `m1`. -/

/-- What a request finds before any module was discovered. -/
def Bridge.started (cfg : BridgeConfig) : Bridge where
  gate := pendingView
  view := pendingView
  openrpc := Docs.buildOpenRpc (Docs.docContext cfg [] ((start cfg).shared.views cfg))

theorem viewOf_start (cfg : BridgeConfig) (m : Bytes) : (start cfg).shared.viewOf m = pendingView m := by
  have hslots : (start cfg).shared.slots m = (cfg.find m).map fun em =>
      { view := pendingView em.name } := by
    simp [start, initialSlots]
  rw [Shared.viewOf, hslots]
  cases hfind : cfg.find m with
  | none => rfl
  | some em => exact congrArg pendingView (BridgeConfig.find_mem hfind).2

theorem Bridge.discovered_started (cfg : BridgeConfig) (lib : Nlohmann) (reader : ContractReader) :
    (Bridge.started cfg).Discovered cfg lib reader := by
  have hreached : Reached cfg lib reader (start cfg).shared := ⟨_, .start, rfl⟩
  exact ⟨fun m => ⟨_, hreached, (viewOf_start cfg m).symm⟩,
    fun m => ⟨_, hreached, (viewOf_start cfg m).symm⟩, ⟨_, _, hreached, rfl⟩⟩

theorem ContractReader.clean_refusing : ContractReader.refusing.Clean where
  contract _ _ := ⟨utf8_str _, by simp [ContractReader.refusing], by simp [ContractReader.refusing],
    utf8_nil, by simp [ContractReader.refusing], by simp [ContractReader.refusing]⟩
  rev := utf8_str _

/-- `POST /modules/m1/x` with an empty body, before discovery. -/
theorem serialisable_minimal :
    ((∀ value, Dumps minimalConfig minimalLib (fun _ => .started minimalConfig) (fun _ => {}) false
        (str "/modules/m1/x") [] value → value.Clean ∧ Quiet (minimalLib.dump value)) ↔
      ¬EchoesPath minimalConfig minimalLib (.started minimalConfig) false (str "/modules/m1/x") []) ∧
    ¬EchoesPath minimalConfig minimalLib (.started minimalConfig) false (str "/modules/m1/x") [] := by
  refine ⟨serialisable_iff minimalLib (str "json_rpc_bridge") minimalText minimalConfig parse_minimal
    .refusing ContractReader.clean_refusing _ (fun _ => Bridge.discovered_started _ _ _) _
    (fun _ => Json.clean_null) false _ _, ?_⟩
  rintro ⟨-, -, module, method, byName, hsplit, hmethod, -⟩
  have hsplit' : splitRest ((str "/modules/m1/x").drop kModulesPrefix.length) =
      some (str "m1", str "x") := by decide
  rw [hsplit'] at hsplit
  cases hsplit
  exact hmethod (utf8_str _)

/-- `/modules/m1/` and the byte `0xFF`. -/
def invalidRoute : Bytes := str "/modules/m1/" ++ [0xFF]

/-- `POST` on it, with an empty body, is answered with a value that cannot be dumped. -/
theorem not_serialisable_invalidRoute :
    parseBridgeConfig minimalLib (str "json_rpc_bridge") minimalText = .ok minimalConfig ∧
    (Bridge.started minimalConfig).Discovered minimalConfig minimalLib .refusing ∧
    ∃ value, Dumps minimalConfig minimalLib (fun _ => .started minimalConfig) (fun _ => {}) false
        invalidRoute [] value ∧ ¬value.Clean ∧ minimalLib.dump value = .error .invalidUtf8 := by
  refine ⟨parse_minimal, Bridge.discovered_started _ _ _, ?_⟩
  have hinvalid : ¬Utf8 [(0xFF : UInt8)] := by decide
  have hread : readBody minimalConfig minimalLib false invalidRoute [] =
      .dispatch [restRequest (str "m1") [0xFF] (.obj [])] true true := by rfl
  have hviews := (Bridge.discovered_started minimalConfig minimalLib .refusing).clean parse_minimal
    ContractReader.clean_refusing
  have hone : handleOne minimalConfig minimalLib (.started minimalConfig)
      (restRequest (str "m1") [0xFF] (.obj [])) = .ok (.fill (makeErrorRaw (.int 1)
        (invalidParamsJson (str "schema-mismatch") [0xFF])), .started minimalConfig) :=
    handleOne_of_echo hviews (by decide) hinvalid (by decide)
  have hhandle : handleAll minimalConfig minimalLib (fun _ => .started minimalConfig) 0
      [restRequest (str "m1") [0xFF] (.obj [])] =
      .ok [.fill (makeErrorRaw (.int 1) (invalidParamsJson (str "schema-mismatch") [0xFF]))] := by
    rw [handleAll, hone]
    rfl
  have hvalue : ¬(Json.object [(str "error",
      invalidParamsJson (str "schema-mismatch") [0xFF])]).Clean := by
    intro h
    exact hinvalid ((clean_invalidParamsJson (utf8_str _)).mp (h.find? (k := str "error") rfl))
  have hflushed : flushed true true (slotsOf (fun _ => {})
      [.fill (makeErrorRaw (.int 1) (invalidParamsJson (str "schema-mismatch") [0xFF]))]) =
      some (Json.object [(str "error", invalidParamsJson (str "schema-mismatch") [0xFF])]) := rfl
  refine ⟨_, .flush hread hhandle hflushed, hvalue, ?_⟩
  rw [Nlohmann.dump, if_neg hvalue]

end JsonRpcBridge.Dispatcher
