import JsonRpcBridge.ErrorMap

/-!
# Requests

`rpc_dispatcher.h`: JSON-RPC 2.0 framing, shared by both transports. A parse function ends in one of
three ways: it raises what a JSON accessor raised (`JsonError`), it refuses the request with an
error, or it fills in what it read.

Only one accessor can raise on a value it was not made for: `value("jsonrpc", "")` in
`parseRequest`, which comes before any type check of the member
(`parseRequest_ok_iff`). Every other one stands behind its own check.
-/

namespace JsonRpcBridge.Dispatcher

/-! ## Operations

The method names of the bridge itself; every other method with a dot is the alias of a call. -/

def kCall : Bytes := str "rpc.call"
def kSubscribe : Bytes := str "rpc.subscribe"
def kUnsubscribe : Bytes := str "rpc.unsubscribe"
def kSchema : Bytes := str "rpc.schema"
def kListModules : Bytes := str "rpc.list_modules"
def kCancel : Bytes := str "rpc.cancel"
def kPing : Bytes := str "rpc.ping"
def kDiscover : Bytes := str "rpc.discover"

/-! ## Envelopes

A response has `jsonrpc`, the id it echoes, and a result or an error. It is well formed where its
parts are, which is all that the answers of the other modules need. -/

structure RpcRequest where
  id : Json
  isNotification : Bool
  method : Bytes
  params : Json
  hasParams : Bool

/-- A module call, after its params have been checked. -/
structure CallTarget where
  module : Bytes
  method : Bytes
  params : Json

def makeErrorRaw (id errObj : Json) : Json :=
  Json.object [(str "jsonrpc", .str (str "2.0")), (str "id", id), (str "error", errObj)]

def makeError (id : Json) (e : MappedError) : Json := makeErrorRaw id e.toJson

def makeResult (id result : Json) : Json :=
  Json.object [(str "jsonrpc", .str (str "2.0")), (str "id", id), (str "result", result)]

/-! ### Envelopes are clean -/

theorem clean_makeErrorRaw {id errObj : Json} (hid : id.Clean) (he : errObj.Clean) :
    (makeErrorRaw id errObj).Clean :=
  Json.clean_object (by simp [utf8_str, hid, he])

theorem clean_makeError {id : Json} {e : MappedError} (hid : id.Clean) (he : Utf8 e.message) :
    (makeError id e).Clean :=
  clean_makeErrorRaw hid (MappedError.clean_toJson he)

theorem clean_makeResult {id result : Json} (hid : id.Clean) (hr : result.Clean) :
    (makeResult id result).Clean :=
  Json.clean_object (by simp [utf8_str, hid, hr])

def invalidRequest (message : Bytes) : MappedError := ⟨kInvalidRequest, .invalidParams, message⟩
def invalidParams (message : Bytes) : MappedError := ⟨kInvalidParams, .invalidParams, message⟩
def parseError : MappedError := ⟨kParseError, .invalidParams, str "parse error"⟩
def shuttingDown : MappedError := ⟨kShuttingDown, .notReady, str "shutting down"⟩

/-! ## One request

The checks come in the order of the source, and the first one that fails is the answer. A request
without an id is a notification, and is refused where it is a call. -/

/-- A notification is the `id` key being absent; `id: null` is a valid id. -/
def parseRequest (j : Json) : Except JsonError (Except MappedError RpcRequest) :=
  if !j.isObject then .ok (.error (invalidRequest (str "request must be an object")))
  else do
    let version ← j.value (str "jsonrpc") []
    if version != str "2.0" then
      return .error (invalidRequest (str "jsonrpc must be \"2.0\""))
    if !(← j.memberIs (str "method") Json.isString) then
      return .error (invalidRequest (str "method must be a string"))
    let method ← (← j.member (str "method")).getString
    let isNotification := !j.contains (str "id")
    let id ← j.memberOr (str "id") .null
    if !isNotification && !(id.isString || id.isNumber || id.isNull) then
      return .error (invalidRequest (str "id must be a string, number or null"))
    let hasParams := j.contains (str "params")
    let params ← j.memberOr (str "params") (.obj [])
    if !params.isObject && !params.isArray then
      return .error (invalidParams (str "params must be an object or array"))
    return .ok { id, isNotification, method, params, hasParams }

def kCallNotificationRefused : Bytes :=
  str "notifications are not accepted for rpc.call: every module call has a reply"

def isBridgeOp (method : Bytes) : Bool := startsWith (str "rpc.") method

/-- `{module}.{method}`, split at the first `.`. -/
def splitAlias (name : Bytes) : Option (Bytes × Bytes) := splitFirst 0x2e name

/-- An alias is exactly `rpc.call {module, method, params}`; absent params mean `[]`. -/
def parseAliasCall (req : RpcRequest) : Except MappedError CallTarget :=
  match splitAlias req.method with
  | none => .error notFound
  | some (module, method) =>
    if req.isNotification then .error (invalidRequest kCallNotificationRefused)
    else .ok { module, method, params := if req.hasParams then req.params else .arr [] }

/-- The params of `rpc.call`. -/
def parseCallTarget (p : Json) : Except JsonError (Except MappedError CallTarget) :=
  if !p.isObject then
    .ok (.error (invalidParams
      (str "rpc.call params must be an object with \"module\" and \"method\"")))
  else do
    if !(← p.memberIs (str "module") Json.isString) ||
        !(← p.memberIs (str "method") Json.isString) then
      return .error (invalidParams (str "rpc.call requires string \"module\" and \"method\""))
    let module ← (← p.member (str "module")).getString
    let method ← (← p.member (str "method")).getString
    if module.isEmpty || method.isEmpty then
      return .error (invalidParams (str "\"module\" and \"method\" must be non-empty"))
    let params ← p.memberOr (str "params") (.arr [])
    let params := if params.isNull then .arr [] else params
    if !params.isObject && !params.isArray then
      return .error (invalidParams (str "rpc.call inner params must be an object or array"))
    return .ok { module, method, params }

/-- The subscription id is the caller's. -/
structure SubscribeTarget where
  module : Bytes := []
  event : Bytes := []
  subscription : Json

def parseSubscribeTarget (p : Json) (requireEvent : Bool) :
    Except JsonError (Except MappedError SubscribeTarget) :=
  if !p.isObject then .ok (.error (invalidParams (str "params must be an object")))
  else do
    if !(← p.memberIs (str "subscription") fun v => v.isString || v.isNumber) then
      return .error (invalidParams (str "\"subscription\" (a caller-assigned id) is required"))
    let subscription ← p.member (str "subscription")
    if requireEvent then
      if !(← p.memberIs (str "module") Json.isString) ||
          !(← p.memberIs (str "event") Json.isString) then
        return .error (invalidParams (str "rpc.subscribe requires string \"module\" and \"event\""))
      let module ← (← p.member (str "module")).getString
      let event ← (← p.member (str "event")).getString
      if module.isEmpty || event.isEmpty then
        return .error (invalidParams (str "\"module\" and \"event\" must be non-empty"))
      return .ok { module, event, subscription }
    else
      return .ok { subscription }

/-! ## A body

A body is one request or a batch of them. An empty batch is refused like a body that is not JSON,
with an error that has no id. -/

/-- The requests of a body, and whether it was one request rather than a batch; `.error` is the
answer to a body that is no request at all. -/
def splitBody (lib : Nlohmann) (body : Bytes) : Except Json (List Json × Bool) :=
  match lib.parse body with
  | none => .error (makeError .null parseError)
  | some (.arr []) => .error (makeError .null (invalidRequest (str "empty batch")))
  | some (.arr xs) => .ok (xs, false)
  | some j => .ok ([j], true)

/-- The requests of a JSON text: the elements of a batch, or the one value. -/
def requestsIn : Json → List Json
  | .arr xs => xs
  | j => [j]

/-- A text that has requests in it splits into these, and was one request unless it is an array. -/
theorem splitBody_of_parse {lib : Nlohmann} {body : Bytes} {j : Json} (h : lib.parse body = some j)
    (hj : requestsIn j ≠ []) : splitBody lib body = .ok (requestsIn j, !j.isArray) := by
  unfold splitBody
  rw [h]
  cases j with
  | arr xs =>
      cases xs with
      | nil => exact absurd rfl hj
      | cons x xs => rfl
  | _ => rfl

theorem splitBody_of_empty {lib : Nlohmann} {body : Bytes} {j : Json}
    (h : lib.parse body = some j) (hj : requestsIn j = []) :
    splitBody lib body = .error (makeError .null (invalidRequest (str "empty batch"))) := by
  unfold splitBody
  rw [h]
  cases j with
  | arr xs =>
      obtain rfl : xs = [] := hj
      rfl
  | _ => cases hj

theorem splitBody_of_not_parsed {lib : Nlohmann} {body : Bytes} (h : lib.parse body = none) :
    splitBody lib body = .error (makeError .null parseError) := by
  unfold splitBody
  rw [h]

theorem clean_requestsIn {j : Json} (hj : j.Clean) : ∀ raw ∈ requestsIn j, raw.Clean := by
  cases j with
  | arr xs => exact Json.clean_arr_iff.mp hj
  | _ => exact fun raw hraw => List.mem_singleton.mp hraw ▸ hj

/-! ## Which accessors raise

`Quiet` is "raises nothing". It is decided by the member `jsonrpc` alone, and then a request that
parses is known member by member. -/

/-- The `jsonrpc` member, if there is one, is a string. -/
def VersionReadable (j : Json) : Prop :=
  ∀ v, j.find? (str "jsonrpc") = some v → v.isString = true

/-- Parsing a request raises exactly on an object whose `jsonrpc` is there and no string. -/
theorem quiet_parseRequest_iff {j : Json} :
    Quiet (parseRequest j) ↔ (j.isObject = true → VersionReadable j) := by
  unfold parseRequest
  by_cases hobj : j.isObject = true
  · rw [if_neg (by simp [hobj])]
    constructor
    · intro h _
      obtain ⟨version, hversion, -⟩ := quiet_of_bind h
      exact (Json.quiet_value_iff hobj).mp ⟨version, hversion⟩
    · intro hreadable
      refine quiet_bind ((Json.quiet_value_iff hobj).mpr (hreadable hobj)) ?_
      intro version _
      refine quiet_ite (fun _ => quiet_pure _) ?_
      intro _
      refine quiet_bind (Json.quiet_memberIs _ _ _) ?_
      intro isMethod hmethod
      refine quiet_ite (fun _ => quiet_pure _) ?_
      intro hnot
      obtain rfl : isMethod = true := by simpa using hnot
      refine quiet_bind (Json.quiet_member_of_memberIs hmethod) ?_
      intro v hv
      refine quiet_bind (Json.quiet_getString_of_memberIs hmethod hv) ?_
      intro method _
      refine quiet_bind (Json.quiet_memberOr _ _ _) ?_
      intro id _
      refine quiet_ite (fun _ => quiet_pure _) ?_
      intro _
      refine quiet_bind (Json.quiet_memberOr _ _ _) ?_
      intro params _
      exact quiet_ite (fun _ => quiet_pure _) (fun _ => quiet_pure _)
  · rw [if_pos (by simpa using hobj)]
    exact ⟨fun _ h => absurd h hobj, fun _ => ⟨_, rfl⟩⟩

/-! ### What parsing returns

A request that has its version and a method parses, unless its params are of the wrong kind; and
nothing else parses. -/

/-- What `parseRequest` makes of an object with a version and a method. -/
theorem parseRequest_eq {j : Json} {method : Bytes}
    (hversion : j.find? (str "jsonrpc") = some (.str (str "2.0")))
    (hmethod : j.find? (str "method") = some (.str method)) :
    parseRequest j = .ok (
      let id := (j.find? (str "id")).getD .null
      let params := (j.find? (str "params")).getD (.obj [])
      if j.contains (str "id") && !(id.isString || id.isNumber || id.isNull) then
        .error (invalidRequest (str "id must be a string, number or null"))
      else if !params.isObject && !params.isArray then
        .error (invalidParams (str "params must be an object or array"))
      else .ok { id, isNotification := !j.contains (str "id"), method, params,
                 hasParams := j.contains (str "params") }) := by
  have hobj : j.isObject = true := Json.isObject_of_find hversion
  unfold parseRequest
  rw [if_neg (by simp [hobj]), Json.value_of_find hversion, Json.memberIs_eq, hmethod,
    Json.member_of_find hmethod, Json.memberOr_eq, Json.memberOr_eq]
  have hstring : (some (Json.str method)).any Json.isString = true := rfl
  rw [hstring]
  simp only [Json.getString, bind, Except.bind, pure, Except.pure]
  simp only [bne_self_eq_false, Bool.false_eq_true, if_false, Bool.not_true, Bool.not_not]
  split_ifs <;> rfl

/-- A request that parses has a version and a method. -/
theorem parseRequest_ok {j : Json} {req : RpcRequest} (h : parseRequest j = .ok (.ok req)) :
    j.find? (str "jsonrpc") = some (.str (str "2.0")) ∧
      j.find? (str "method") = some (.str req.method) := by
  have h' := h
  unfold parseRequest at h
  split at h
  · cases h
  · obtain ⟨version, hvalue, h⟩ := of_bind_eq_ok h
    split at h
    · cases h
    · rename_i hversion
      obtain rfl : version = str "2.0" := by simpa using hversion
      have hfind : j.find? (str "jsonrpc") = some (.str (str "2.0")) :=
        (Json.find_of_value hvalue).resolve_right (by decide)
      refine ⟨hfind, ?_⟩
      rw [Json.memberIs_eq] at h
      obtain ⟨isMethod, hmethod, h⟩ := of_bind_eq_ok h
      obtain rfl := Except.ok.inj hmethod
      split at h
      · cases h
      · rename_i hany
        obtain ⟨v, hv, hstring⟩ := (Option.any_eq_true _ _).mp (by simpa using hany)
        obtain ⟨method, rfl⟩ := Json.eq_str_of_isString hstring
        rw [parseRequest_eq hfind hv] at h'
        dsimp only at h'
        split_ifs at h' <;> cases h'
        exact hv

/-- What a request that parses is made of. -/
theorem parseRequest_parts {j : Json} {req : RpcRequest} (h : parseRequest j = .ok (.ok req)) :
    req.id = (j.find? (str "id")).getD .null ∧
      req.params = (j.find? (str "params")).getD (.obj []) ∧
      req.isNotification = !j.contains (str "id") ∧ req.hasParams = j.contains (str "params") := by
  obtain ⟨hversion, hmethod⟩ := parseRequest_ok h
  rw [parseRequest_eq hversion hmethod] at h
  dsimp only at h
  split_ifs at h
  · cases h
  · cases h
  · have hreq := Except.ok.inj (Except.ok.inj h)
    exact ⟨(congrArg RpcRequest.id hreq).symm, (congrArg RpcRequest.params hreq).symm,
      (congrArg RpcRequest.isNotification hreq).symm, (congrArg RpcRequest.hasParams hreq).symm⟩

/-- The subscription id of a target is one of its params. -/
theorem parseSubscribeTarget_subscription {p : Json} {requireEvent : Bool} {t : SubscribeTarget}
    (h : parseSubscribeTarget p requireEvent = .ok (.ok t)) :
    p.find? (str "subscription") = some t.subscription := by
  unfold parseSubscribeTarget at h
  split at h
  · cases h
  · rw [Json.memberIs_eq] at h
    obtain ⟨isId, hid, h⟩ := of_bind_eq_ok h
    obtain rfl := Except.ok.inj hid
    split at h
    · cases h
    · rename_i hany
      obtain ⟨v, hv, -⟩ := (Option.any_eq_true _ _).mp (by simpa using hany)
      rw [Json.member_of_find hv] at h
      rw [hv]
      obtain ⟨subscription, hsub, h⟩ := of_bind_eq_ok h
      obtain rfl := Except.ok.inj hsub
      split at h
      · obtain ⟨isModule, -, h⟩ := of_bind_eq_ok h
        obtain ⟨isEvent, -, h⟩ := of_bind_eq_ok h
        split at h
        · cases h
        · obtain ⟨m, -, h⟩ := of_bind_eq_ok h
          obtain ⟨module, -, h⟩ := of_bind_eq_ok h
          obtain ⟨e, -, h⟩ := of_bind_eq_ok h
          obtain ⟨event, -, h⟩ := of_bind_eq_ok h
          split at h <;> cases h
          rfl
      · cases h
        rfl

/-- An id that a response can carry. -/
def isRequestId (id : Json) : Bool := id.isString || id.isNumber || id.isNull

/-- What `parseRequest` makes of a request whose params are of the right kind. -/
theorem parseRequest_of_params {j : Json} {method : Bytes}
    (hversion : j.find? (str "jsonrpc") = some (.str (str "2.0")))
    (hmethod : j.find? (str "method") = some (.str method))
    (hparams : ∀ p, j.find? (str "params") = some p → p.isObject = true ∨ p.isArray = true) :
    parseRequest j = .ok (
      let params := (j.find? (str "params")).getD (.obj [])
      let hasParams := (j.find? (str "params")).isSome
      match j.find? (str "id") with
      | none => .ok { id := .null, isNotification := true, method, params, hasParams }
      | some id =>
        if isRequestId id then .ok { id, isNotification := false, method, params, hasParams }
        else .error (invalidRequest (str "id must be a string, number or null"))) := by
  have hkind : (!((j.find? (str "params")).getD (.obj [])).isObject &&
      !((j.find? (str "params")).getD (.obj [])).isArray) = false := by
    cases hp : j.find? (str "params") with
    | none => rfl
    | some p => rcases hparams p hp with h | h <;> simp [h]
  rw [parseRequest_eq hversion hmethod]
  dsimp only
  rw [hkind, Json.contains, Json.contains]
  cases j.find? (str "id") with
  | none => rfl
  | some id =>
      show Except.ok (if !isRequestId id then _ else _) = _
      cases hid : isRequestId id <;> simp [hid]

/-! ### What parsing depends on -/

/-- Without the version a request is refused, or raises, whatever else it says. -/
theorem parseRequest_congr {j j' : Json} (hj : j.isObject = true) (hj' : j'.isObject = true)
    (hversion : j.find? (str "jsonrpc") = j'.find? (str "jsonrpc"))
    (hnot : j.find? (str "jsonrpc") ≠ some (.str (str "2.0"))) :
    parseRequest j = parseRequest j' := by
  have hvalue : j.value (str "jsonrpc") [] = j'.value (str "jsonrpc") [] := by
    obtain ⟨ms, rfl⟩ := Json.eq_obj_of_isObject hj
    obtain ⟨ms', rfl⟩ := Json.eq_obj_of_isObject hj'
    have hlookup : ms.lookup (str "jsonrpc") = ms'.lookup (str "jsonrpc") := hversion
    rw [Json.value, Json.value, hlookup]
  unfold parseRequest
  rw [if_neg (by simp [hj]), if_neg (by simp [hj']), hvalue]
  cases hread : j'.value (str "jsonrpc") [] with
  | error e => rfl
  | ok version =>
      have hne : (version != str "2.0") = true := by
        rw [bne_iff_ne]
        rintro rfl
        rcases Json.find_of_value hread with h | h
        · exact hnot (hversion.trans h)
        · exact absurd h (by decide)
      show (if _ then _ else _) = (if _ then _ else _)
      rw [if_pos hne, if_pos hne]

/-! ### Targets

The params of a call or of a subscription are read behind type checks, so reading them does not
raise. -/

/-- The target of params that name a module and a method. -/
theorem parseCallTarget_eq {p : Json} {module method : Bytes}
    (hmodule : p.find? (str "module") = some (.str module))
    (hmethod : p.find? (str "method") = some (.str method)) :
    parseCallTarget p = .ok (
      let given := (p.find? (str "params")).getD (.arr [])
      let params := if given.isNull then .arr [] else given
      if module.isEmpty || method.isEmpty then
        .error (invalidParams (str "\"module\" and \"method\" must be non-empty"))
      else if !params.isObject && !params.isArray then
        .error (invalidParams (str "rpc.call inner params must be an object or array"))
      else .ok { module, method, params }) := by
  have hstring : ∀ s, (some (Json.str s)).any Json.isString = true := fun s => rfl
  unfold parseCallTarget
  rw [if_neg (by simp [Json.isObject_of_find hmodule]), Json.memberIs_eq, Json.memberIs_eq, hmodule,
    hmethod, hstring, hstring, Json.member_of_find hmodule, Json.member_of_find hmethod,
    Json.memberOr_eq]
  simp only [Json.getString, bind, Except.bind, pure, Except.pure]
  simp only [Bool.not_true, Bool.or_self, Bool.false_eq_true, if_false]
  split_ifs <;> rfl

theorem quiet_parseCallTarget (p : Json) : Quiet (parseCallTarget p) := by
  unfold parseCallTarget
  refine quiet_ite (fun _ => quiet_pure _) ?_
  intro _
  refine quiet_bind (Json.quiet_memberIs _ _ _) ?_
  intro isModule hmodule
  refine quiet_bind (Json.quiet_memberIs _ _ _) ?_
  intro isMethod hmethod
  refine quiet_ite (fun _ => quiet_pure _) ?_
  intro hnot
  simp only [Bool.or_eq_true, Bool.not_eq_true', not_or, Bool.not_eq_false] at hnot
  obtain ⟨rfl, rfl⟩ := hnot
  refine quiet_bind (Json.quiet_member_of_memberIs hmodule) ?_
  intro m hm
  refine quiet_bind (Json.quiet_getString_of_memberIs hmodule hm) ?_
  intro module _
  refine quiet_bind (Json.quiet_member_of_memberIs hmethod) ?_
  intro x hx
  refine quiet_bind (Json.quiet_getString_of_memberIs hmethod hx) ?_
  intro method _
  refine quiet_ite (fun _ => quiet_pure _) ?_
  intro _
  refine quiet_bind (Json.quiet_memberOr _ _ _) ?_
  intro params _
  exact quiet_ite (fun _ => quiet_pure _) (fun _ => quiet_pure _)

theorem quiet_parseSubscribeTarget (p : Json) (requireEvent : Bool) :
    Quiet (parseSubscribeTarget p requireEvent) := by
  unfold parseSubscribeTarget
  refine quiet_ite (fun _ => quiet_pure _) ?_
  intro _
  refine quiet_bind (Json.quiet_memberIs _ _ _) ?_
  intro isId hid
  refine quiet_ite (fun _ => quiet_pure _) ?_
  intro hnot
  obtain rfl : isId = true := by simpa using hnot
  refine quiet_bind (Json.quiet_member_of_memberIs hid) ?_
  intro subscription _
  refine quiet_ite ?_ (fun _ => quiet_pure _)
  intro _
  refine quiet_bind (Json.quiet_memberIs _ _ _) ?_
  intro isModule hmodule
  refine quiet_bind (Json.quiet_memberIs _ _ _) ?_
  intro isEvent hevent
  refine quiet_ite (fun _ => quiet_pure _) ?_
  intro hnot
  simp only [Bool.or_eq_true, Bool.not_eq_true', not_or, Bool.not_eq_false] at hnot
  obtain ⟨rfl, rfl⟩ := hnot
  refine quiet_bind (Json.quiet_member_of_memberIs hmodule) ?_
  intro m hm
  refine quiet_bind (Json.quiet_getString_of_memberIs hmodule hm) ?_
  intro module _
  refine quiet_bind (Json.quiet_member_of_memberIs hevent) ?_
  intro x hx
  refine quiet_bind (Json.quiet_getString_of_memberIs hevent hx) ?_
  intro event _
  exact quiet_ite (fun _ => quiet_pure _) (fun _ => quiet_pure _)

end JsonRpcBridge.Dispatcher
