import JsonRpcBridge.Json

/-!
# Error mapping

The single place an outcome becomes a JSON-RPC error object. A JSON-RPC `code` and the Logos
taxonomy travel together; every message is a constant, so nothing upstream says reaches a client
through an error.
-/

namespace JsonRpcBridge

inductive LogosErrorCode where
  | methodNotFound
  | invalidParams
  | moduleError
  | notAuthorised
  | transportError
  | timeout
  | versionMismatch
  | notReady
  | cancelled
  deriving DecidableEq, Repr

def LogosErrorCode.toInt : LogosErrorCode → Int
  | .methodNotFound => 1
  | .invalidParams => 2
  | .moduleError => 3
  | .notAuthorised => 4
  | .transportError => 5
  | .timeout => 6
  | .versionMismatch => 7
  | .notReady => 8
  | .cancelled => 9

def logosErrorName : LogosErrorCode → Bytes
  | .methodNotFound => str "METHOD_NOT_FOUND"
  | .invalidParams => str "INVALID_PARAMS"
  | .moduleError => str "MODULE_ERROR"
  | .notAuthorised => str "NOT_AUTHORISED"
  | .transportError => str "TRANSPORT_ERROR"
  | .timeout => str "TIMEOUT"
  | .versionMismatch => str "VERSION_MISMATCH"
  | .notReady => str "NOT_READY"
  | .cancelled => str "CANCELLED"

/-! ## JSON-RPC codes

The constants, and the errors that are made of them. -/

def kParseError : Int := -32700
def kInvalidRequest : Int := -32600
def kMethodNotFound : Int := -32601
def kInvalidParams : Int := -32602
def kInternalError : Int := -32603
def kModuleError : Int := -32000
def kUnavailable : Int := -32001
def kTimeout : Int := -32002
def kTransportError : Int := -32003
def kUnauthorized : Int := -32004
def kShuttingDown : Int := -32006
def kOverloaded : Int := -32029

/-! ### From a code to an error

A code that is not in the list becomes an internal error. A name that the provider does not know is
answered like one that nobody may call. -/

structure MappedError where
  jsonRpcCode : Int := kInternalError
  logosCode : LogosErrorCode := .moduleError
  message : Bytes

def MappedError.toJson (e : MappedError) : Json :=
  Json.object [(str "code", .int e.jsonRpcCode), (str "message", .str e.message),
    (str "data", Json.object [
      (str "logos_error_code", .int e.logosCode.toInt),
      (str "logos_error_name", .str (logosErrorName e.logosCode))])]

/-- The one message every "you may not have this" condition answers with. -/
def notFound : MappedError := ⟨kMethodNotFound, .methodNotFound, str "method not found"⟩

/-- `logos::CallError`; an empty code is success. -/
structure CallError where
  code : Bytes := []
  message : Bytes := []

def CallError.ok (e : CallError) : Bool := e.code.isEmpty

/-- Map a `CallError` code. The upstream message is never read into the response. -/
def mapCallError (code _message : Bytes) : MappedError :=
  if code == str "timeout" then ⟨kTimeout, .timeout, str "upstream call timed out"⟩
  else if code == str "object_unavailable" then ⟨kUnavailable, .notReady, str "module unavailable"⟩
  else if code == str "transport_error" then
    ⟨kTransportError, .transportError, str "transport error"⟩
  else if code == str "unauthorized" then ⟨kUnauthorized, .notAuthorised, str "not authorised"⟩
  else if code == str "call_failed" then
    ⟨kModuleError, .moduleError, str "call could not be dispatched"⟩
  else if code == str "invalid_args" || code == str "invalid_arg" || code == str "dispatch_failed"
  then ⟨kInvalidParams, .invalidParams, str "invalid params"⟩
  else if code == str "unknown_method" then notFound
  else ⟨kInternalError, .moduleError, str "upstream call failed"⟩

/-- A provider refuses a method name it does not have with this object as the call's result. -/
def isUnknownMethodRefusal (v : Json) : Bool :=
  v.isObject && v.size == 3 &&
    match v.find? (str "code"), v.find? (str "message"), v.find? (str "origin") with
    | some (.str code), some (.str _), some (.str _) => code == str "unknown_method"
    | _, _, _ => false

/-- `invalid_params_detail = {reason, ?path}`. -/
def invalidParamsJson (reason path : Bytes) : Json :=
  let e : MappedError := ⟨kInvalidParams, .invalidParams, str "invalid params"⟩
  let detail := Json.object [(str "reason", .str reason)]
  let detail := if path.isEmpty then detail else detail.set (str "path") (.str path)
  let data := ((e.toJson.find? (str "data")).getD .null).set (str "invalid_params_detail") detail
  e.toJson.set (str "data") data

/-- Every JSON-RPC error the bridge can emit, one per code, under the stable key documents name it
by. -/
structure CatalogError where
  key : Bytes
  error : MappedError

def errorCatalog : List CatalogError := [
  ⟨str "ParseError", ⟨kParseError, .invalidParams, str "parse error"⟩⟩,
  ⟨str "InvalidRequest", ⟨kInvalidRequest, .invalidParams, str "invalid request"⟩⟩,
  ⟨str "MethodNotFound", notFound⟩,
  ⟨str "InvalidParams", ⟨kInvalidParams, .invalidParams, str "invalid params"⟩⟩,
  ⟨str "UpstreamFailed", mapCallError (str "unrecognised") []⟩,
  ⟨str "CallFailed", mapCallError (str "call_failed") []⟩,
  ⟨str "ModuleUnavailable", mapCallError (str "object_unavailable") []⟩,
  ⟨str "UpstreamTimeout", mapCallError (str "timeout") []⟩,
  ⟨str "TransportError", mapCallError (str "transport_error") []⟩,
  ⟨str "NotAuthorised", mapCallError (str "unauthorized") []⟩,
  ⟨str "ShuttingDown", ⟨kShuttingDown, .notReady, str "shutting down"⟩⟩,
  ⟨str "Overloaded", ⟨kOverloaded, .notReady, str "overloaded"⟩⟩]

/-! ## Every error object is clean

Its texts are constants and keys of the catalog; only a bad path comes from outside. -/

theorem utf8_logosErrorName (c : LogosErrorCode) : Utf8 (logosErrorName c) := by
  cases c <;> exact utf8_str _

theorem MappedError.clean_toJson {e : MappedError} (h : Utf8 e.message) : e.toJson.Clean := by
  have hdata : (Json.object [(str "logos_error_code", .int e.logosCode.toInt),
      (str "logos_error_name", .str (logosErrorName e.logosCode))]).Clean := by
    apply Json.clean_object
    simp [utf8_str, utf8_logosErrorName]
  apply Json.clean_object
  simp [utf8_str, h, hdata]

theorem utf8_mapCallError (code message : Bytes) : Utf8 (mapCallError code message).message := by
  unfold mapCallError
  split_ifs <;> exact utf8_str _

/-- Every error of the catalog has a constant key and a constant message. -/
theorem utf8_errorCatalog : ∀ e ∈ errorCatalog, Utf8 e.key ∧ Utf8 e.error.message := by
  simp [errorCatalog, utf8_str, utf8_mapCallError, notFound]

/-- The `path` of an invalid-params error is the only text in it that is not a constant. -/
theorem clean_invalidParamsJson {reason path : Bytes} (hr : Utf8 reason) :
    (invalidParamsJson reason path).Clean ↔ Utf8 path := by
  set e : MappedError := ⟨kInvalidParams, .invalidParams, str "invalid params"⟩ with he
  have heClean : e.toJson.Clean := MappedError.clean_toJson (utf8_str _)
  have hdetail : (Json.object [(str "reason", .str reason)]).Clean :=
    Json.clean_object (by simp [utf8_str, hr])
  constructor
  · intro h
    by_cases hp : path = []
    · exact hp ▸ utf8_nil
    · -- `error.data.invalid_params_detail.path` is `path`
      have hpath : ((((invalidParamsJson reason path).find? (str "data")).bind
          (Json.find? (str "invalid_params_detail"))).bind (Json.find? (str "path"))) =
          some (.str path) := by
        cases path with
        | nil => exact absurd rfl hp
        | cons x xs => rfl
      obtain ⟨detail, hd, hfind⟩ := Option.bind_eq_some_iff.mp hpath
      obtain ⟨data, hdata, hfind'⟩ := Option.bind_eq_some_iff.mp hd
      exact Json.clean_str_iff.mp (((h.find? hdata).find? hfind').find? hfind)
  · intro hp
    have hdata : ((e.toJson.find? (str "data")).getD .null).Clean := by
      cases hf : e.toJson.find? (str "data") with
      | none => exact Json.clean_null
      | some v => exact heClean.find? hf
    refine heClean.set (utf8_str _) (hdata.set (utf8_str _) ?_)
    split
    · exact hdetail
    · exact hdetail.set (utf8_str _) (Json.clean_str_iff.mpr hp)

end JsonRpcBridge
