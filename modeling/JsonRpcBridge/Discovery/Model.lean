import JsonRpcBridge.Contract
import JsonRpcBridge.Exposure
import JsonRpcBridge.Sha256

/-!
# The discovery model

`discovery_model.h`: what the bridge knows about each exposed module and every decision that
follows from it. Pure; `Discovery.Io` does the calls, the locking and the timers.

The order is the source's: live report, the `lidl()` answer, digests, cross-check, module view and
its constructors, revalidation, backoff, gating, views as JSON.
-/

namespace JsonRpcBridge

/-! ## Status -/

inductive InterfaceStatus where
  | pending
  | ok
  | untyped
  | invalid
  deriving DecidableEq, Repr

def interfaceStatusName : InterfaceStatus → Bytes
  | .pending => str "pending"
  | .ok => str "ok"
  | .untyped => str "untyped"
  | .invalid => str "invalid"

/-! ## Live report

`getPluginInterface` answers with a list of entries, methods and events in one. Entries of a
later host may hold more members than are read here; what cannot be read is skipped, not refused. -/

/-- A parameter the host gave no name is `""`. -/
structure LiveMember where
  name : Bytes
  params : List Bytes := []

/-- `eventsDeclared` is false when no entry was tagged `"type":"event"`: "cannot know", not "has
none". -/
structure LiveReport where
  eventsDeclared : Bool := false
  sha256 : Bytes := []
  methods : List LiveMember := []
  events : List LiveMember := []

/-- The first entry of the name. -/
def LiveReport.method (r : LiveReport) (name : Bytes) : Option LiveMember :=
  r.methods.find? fun m => m.name == name

def LiveReport.hasMethod (r : LiveReport) (name : Bytes) : Bool := (r.method name).isSome

def LiveReport.hasEvent (r : LiveReport) (name : Bytes) : Bool :=
  r.events.any fun e => e.name == name

/-- The whole answer, type spellings included. Never throws. -/
def liveReportDigest (lib : Nlohmann) (iface : Json) : Bytes := sha256Hex (lib.textReplacing iface)

def liveParamName (p : Json) : Bytes :=
  match p.find? (str "name") with
  | some (.str name) => name
  | _ => []

/-- An entry whose name is not a string is none. -/
def liveMember? (entry : Json) : Option LiveMember :=
  match entry.find? (str "name") with
  | some (.str name) =>
    let params := match entry.find? (str "parameters") with
      | some (.arr ps) => ps.map liveParamName
      | _ => []
    some { name, params }
  | _ => none

def taggedEvent (entry : Json) : Bool :=
  match entry.find? (str "type") with
  | some (.str t) => t == str "event"
  | _ => false

/-- Entries without a string name are skipped. -/
def LiveReport.addEntry (r : LiveReport) (entry : Json) : LiveReport :=
  match liveMember? entry with
  | none => r
  | some m =>
    if taggedEvent entry then { r with eventsDeclared := true, events := r.events ++ [m] }
    else { r with methods := r.methods ++ [m] }

/-- `none` when `iface` is not an array. -/
def parseLiveReport (lib : Nlohmann) (iface : Json) : Option LiveReport :=
  match iface with
  | .arr entries =>
    some (entries.foldl LiveReport.addEntry { sha256 := liveReportDigest lib (.arr entries) })
  | _ => none

/-- A zero-parameter live method named "lidl". -/
def lidlPresent (live : LiveReport) : Bool :=
  live.methods.any fun m => m.name == str "lidl" && m.params.isEmpty

/-! ## The `lidl()` answer

What a contract must pass before the reader sees it: it is a string, within the limit, and UTF-8.
Only a call that failed is worth another try. -/

/-- 4 MiB. -/
def kMaxContractBytes : Nat := 4 * 1024 * 1024

/-- How many continuation bytes follow `c`, and the bounds of the first one. -/
def utf8Lead (c : UInt8) : Option (Nat × UInt8 × UInt8) :=
  if c ≥ 0xC2 && c ≤ 0xDF then some (1, 0x80, 0xBF)
  else if c == 0xE0 then some (2, 0xA0, 0xBF)
  else if c == 0xED then some (2, 0x80, 0x9F)
  else if c ≥ 0xE1 && c ≤ 0xEF then some (2, 0x80, 0xBF)
  else if c == 0xF0 then some (3, 0x90, 0xBF)
  else if c == 0xF4 then some (3, 0x80, 0x8F)
  else if c ≥ 0xF1 && c ≤ 0xF3 then some (3, 0x80, 0xBF)
  else none

/-- The loop of `isValidUtf8`: each round consumes at least one byte, so `s.size()` rounds do. -/
def isValidUtf8Loop : Nat → Bytes → Bool
  | 0, p => p.isEmpty
  | fuel + 1, p =>
    match p with
    | [] => true
    | c :: rest =>
      if c < 0x80 then isValidUtf8Loop fuel rest
      else
        match utf8Lead c with
        | none => false
        | some (n, lo, hi) =>
          if rest.length < n then false
          else if rest.headD 0 < lo || rest.headD 0 > hi then false
          else if ((rest.take n).drop 1).any fun b => b < 0x80 || b > 0xBF then false
          else isValidUtf8Loop fuel (rest.drop n)

/-- Well-formed UTF-8: no overlongs, surrogates, or code points past U+10FFFF. -/
def isValidUtf8 (s : Bytes) : Bool := isValidUtf8Loop s.length s

/-- A `lidl()` answer before parsing: the text, or a constant reason. -/
structure LidlText where
  ok : Bool := false
  retryable : Bool := false
  text : Bytes := []
  error : Bytes := []

def lidlText (callOk : Bool) (value : Json) : LidlText :=
  if !callOk then { retryable := true, error := str "lidl() call failed" }
  else
    match value with
    | .str s =>
      if s.length > kMaxContractBytes then { error := str "lidl() returned more than 4 MiB" }
      else if !isValidUtf8 s then { error := str "lidl() returned invalid UTF-8" }
      else { ok := true, text := s }
    | _ => { error := str "lidl() did not return a string" }

/-- "line:col: message (lidl reader <rev>)". -/
def contractErrorText (c : ContractResult) (readerRev : Bytes) : Bytes :=
  let loc := if c.errorLine > 0 then
    toStr c.errorLine ++ str ":" ++ toStr c.errorCol ++ str ": " else []
  loc ++ c.error ++ str " (lidl reader " ++ readerRev ++ str ")"

/-! ## Digests

Two digests are kept. The one of the interface is over the canonical JSON, so that it does not
depend on how the contract is spelt; the one of the contract is over its text. -/

/-- A contract the bridge serves and dispatches by. -/
structure TypedContract where
  version : Bytes := []
  methods : List ContractMethod := []
  events : List ContractEvent := []
  warnings : List Bytes := []
  lint : List Bytes := []
  interface : Json
  interfaceSha256 : Bytes

def TypedContract.method (c : TypedContract) (name : Bytes) : Option ContractMethod :=
  c.methods.find? fun m => m.name == name

def TypedContract.declaresEvent (c : TypedContract) (name : Bytes) : Bool :=
  c.events.any fun e => e.name == name

/-- `interface_sha256`: SHA-256 of the canonical JSON, which is the strict dump. -/
def interfaceDigest (lib : Nlohmann) (doc : Json) : Except JsonError Bytes :=
  (lib.dump doc).map sha256Hex

/-- `none` when the reader's JSON does not parse back or cannot be digested. -/
def typedContract (lib : Nlohmann) (c : ContractResult) : Option TypedContract :=
  match lib.parse c.astJson with
  | none => none
  | some interface =>
    if !interface.isObject then none
    else
      match interfaceDigest lib interface with
      | .error _ => none
      | .ok digest =>
        some { version := c.contractVersion, methods := c.methods, events := c.events,
               warnings := c.warnings, lint := c.lint, interface, interfaceSha256 := digest }

/-! ## Cross-check

A contract is held against the live report member by member. The live side knows names and arity
only, so types are not compared. -/

structure Finding where
  severity : Bytes
  code : Bytes
  member : Bytes
  detail : Bytes

def Finding.toJson (f : Finding) : Json :=
  let j := Json.object [(str "severity", .str f.severity), (str "code", .str f.code),
    (str "detail", .str f.detail)]
  if f.member.isEmpty then j else j.set (str "member") (.str f.member)

/-- The findings, in the order they were made. -/
structure CrossCheck where
  findings : List Finding := []

def CrossCheck.has (cc : CrossCheck) (severity : Bytes) : Bool :=
  cc.findings.any fun f => f.severity == severity

def CrossCheck.hasErrors (cc : CrossCheck) : Bool := cc.has (str "error")

def CrossCheck.state (cc : CrossCheck) : Bytes :=
  if cc.hasErrors then str "inconsistent"
  else if cc.has (str "warning") then str "warnings"
  else str "consistent"

def CrossCheck.toJson (cc : CrossCheck) : Json :=
  Json.object [(str "state", .str cc.state), (str "findings", .arr (cc.findings.map Finding.toJson))]

/-- What `version()` answered; `none` when the call failed or was not a string. -/
def runtimeVersion (callOk : Bool) (value : Json) : Option Bytes :=
  if callOk then
    match value with
    | .str v => some v
    | _ => none
  else none

/-! ### Comparing -/

/-- The names with `sep` between them. -/
def joinWith (sep : Bytes) : List Bytes → Bytes
  | [] => []
  | [n] => n
  | n :: ns => n ++ sep ++ joinWith sep ns

def namesOf (names : List Bytes) : Bytes := str "(" ++ joinWith (str ", ") names ++ str ")"

def paramNames (params : List ContractParam) : List Bytes := params.map (·.name)

/-- Declared member against every live entry of that name: the arity must match one entry, and
names are compared where the host gave them. -/
def checkMember (kind name : Bytes) (declared : List ContractParam) (live : List LiveMember) :
    List Finding :=
  let names := paramNames declared
  match live.find? fun m => m.params.length == declared.length with
  | none =>
    let arities := joinWith (str "/") (live.map fun m => toStr m.params.length)
    [⟨str "error", kind ++ str "_arity_mismatch", name,
      str "declared " ++ toStr declared.length ++ str " parameter(s), live " ++ arities⟩]
  | some sameArity =>
    if (sameArity.params.zip names).any fun p => !p.1.isEmpty && p.1 != p.2 then
      [⟨str "warning", str "param_names_differ", name,
        str "declared " ++ namesOf names ++ str ", live " ++ namesOf sameArity.params⟩]
    else []

def liveEntries (live : List LiveMember) (name : Bytes) : List LiveMember :=
  live.filter fun m => m.name == name

/-- A declared method that is not reported is an error, unless it is one the host derives. -/
def checkMethod (live : LiveReport) (m : ContractMethod) : List Finding :=
  let entries := liveEntries live.methods m.name
  if entries.isEmpty then
    if m.derived then
      [⟨str "info", str "derived_method_unlisted", m.name,
        str "answered by the host, not listed live"⟩]
    else
      [⟨str "error", str "declared_method_missing", m.name,
        str "declared, but not in the live interface"⟩]
  else checkMember (str "method") m.name m.params entries

/-! ### Methods, events and the version -/

/-- The live methods that are neither declared nor reserved, each once. -/
def undeclaredMethods (c : TypedContract) (live : LiveReport) : List Bytes :=
  live.methods.foldl (fun out m =>
    if (c.method m.name).isSome || isReservedIntrospection m.name then out
    else addOnce out m.name) []

def checkEvent (live : LiveReport) (e : ContractEvent) : List Finding :=
  let entries := liveEntries live.events e.name
  if entries.isEmpty then
    [⟨str "error", str "declared_event_missing", e.name,
      str "declared, but not in the live interface"⟩]
  else checkMember (str "event") e.name e.params entries

def checkEvents (c : TypedContract) (live : LiveReport) : List Finding :=
  if live.eventsDeclared then
    c.events.flatMap (checkEvent live) ++
      (live.events.filter fun e => !c.declaresEvent e.name).map fun e =>
        ⟨str "warning", str "undeclared_event", e.name, str "live, but not declared"⟩
  else if !c.events.isEmpty then
    [⟨str "info", str "events_untagged", [],
      str "the live interface tags no events, so they were not checked"⟩]
  else []

def readerWarning (w : Bytes) : Finding :=
  if w == str "non_canonical" then
    ⟨str "warning", str "non_canonical", [],
      str "lidl() is not in the canonical form this reader writes"⟩
  else ⟨str "warning", w, [], []⟩

/-- No answer is an info and another version a warning, so neither makes a module invalid. -/
def checkVersion (c : TypedContract) (runtime : Option Bytes) : List Finding :=
  match runtime with
  | none =>
    [⟨str "info", str "runtime_version_unavailable", str "version",
      str "version() did not answer with a string"⟩]
  | some v =>
    if !c.version.isEmpty && v != c.version then
      [⟨str "warning", str "version_mismatch", str "version",
        str "contract " ++ c.version ++ str ", runtime " ++ v⟩]
    else []

/-- Errors make the module invalid; warnings and infos keep it ok. -/
def crossCheck (c : TypedContract) (live : LiveReport) (runtime : Option Bytes) : CrossCheck :=
  { findings :=
      c.methods.flatMap (checkMethod live) ++
      (undeclaredMethods c live).map (fun n =>
        ⟨str "warning", str "undeclared_method", n, str "live, but not declared"⟩) ++
      checkEvents c live ++
      c.warnings.map readerWarning ++
      c.lint.map (fun l => ⟨str "warning", str "contract_lint", [], l⟩) ++
      checkVersion c runtime }

/-! ## Module view and its status machine

A view is built whole by one of the constructors, all through `nextView`, and `staleView` is the
only change made to one afterwards. -/

/-- One immutable snapshot per module; discovery swaps whole snapshots. -/
structure ModuleView where
  module : Bytes
  status : InterfaceStatus := .pending
  live : LiveReport := {}
  generation : Nat := 0
  stale : Bool := false
  interfaceError : Bytes := []
  contract : Option TypedContract := none
  contractSha256 : Bytes := []
  interfaceSha256 : Bytes := []
  crossChecked : Bool := false
  crossCheck : CrossCheck := {}
  exposure : Exposure := {}

def ModuleView.resolved (v : ModuleView) : Bool := v.status != .pending

/-- The contract of a typed view: status `ok` and a contract present. -/
def ModuleView.typed? (v : ModuleView) : Option TypedContract :=
  if v.status == .ok then v.contract else none

def pendingView (module : Bytes) : ModuleView := { module }

/-- Every completed discovery goes through here: a fresh snapshot, never stale. -/
def nextView (prev : ModuleView) (status : InterfaceStatus) (live : LiveReport) : ModuleView :=
  { module := prev.module, status, live, generation := prev.generation + 1 }

/-! ### Constructors -/

def untypedView (prev : ModuleView) (live : LiveReport) : ModuleView := nextView prev .untyped live

def invalidView (prev : ModuleView) (live : LiveReport) (error : Bytes) : ModuleView :=
  { nextView prev .invalid live with interfaceError := error }

def okView (prev : ModuleView) (live : LiveReport) (contract : TypedContract) : ModuleView :=
  { nextView prev .ok live with
    interfaceSha256 := contract.interfaceSha256, contract := some contract }

def kInconsistentContract : Bytes :=
  str "the contract does not match the running module (see cross_check)"

/-- A read contract after the cross-check: ok, or invalid when it found errors. -/
def checkedView (prev : ModuleView) (live : LiveReport) (contract : TypedContract)
    (runtime : Option Bytes) (contractSha256 : Bytes) : ModuleView :=
  let cc := crossCheck contract live runtime
  let v := if cc.hasErrors then invalidView prev live kInconsistentContract
    else okView prev live contract
  { v with crossChecked := true, crossCheck := cc, contractSha256 }

/-- A lost provider keeps its last view until a refresh replaces it. Pending stays pending. -/
def staleView (prev : ModuleView) : ModuleView := { prev with stale := prev.resolved }

/-- Exposure follows the declarations when typed and the live names otherwise. -/
def exposureOf (em : ExposedModule) (view : ModuleView) : Exposure :=
  match view.typed? with
  | some c => exposeDeclared em (c.methods.map (·.name)) (c.events.map (·.name))
  | none =>
    if !view.resolved then {}
    else exposeLive em (view.live.methods.map (·.name)) (view.live.events.map (·.name))
      view.live.eventsDeclared

def withExposure (em : ExposedModule) (view : ModuleView) : ModuleView :=
  { view with exposure := exposureOf em view }

/-! ## Revalidation

A settled module is read again from time to time; what the answer calls for is decided here. -/

inductive Revalidation where
  | keep
  | refresh
  | markStale
  deriving DecidableEq, Repr

/-- An answer with the digest of the view keeps it, and one with another asks for a new attempt. A
module that is not there, or has no report, goes stale. -/
def revalidation (lib : Nlohmann) (view : ModuleView) (callOk : Bool) (errorCode : Bytes)
    (value : Json) : Revalidation :=
  if !view.resolved then .keep
  else if !callOk then
    if errorCode == str "object_unavailable" || errorCode == str "timeout" ||
        errorCode == str "transport_error" then .markStale
    else .keep
  else if !value.isArray then .markStale
  else if liveReportDigest lib value == view.live.sha256 then .keep
  else .refresh

/-! ## Retry backoff

500 ms, doubled with each miss in a row, up to 30 s. -/

def kRetryBase : Nat := 500
def kRetryCap : Nat := 30000

/-- At most `n` doublings, none at or past the cap. -/
def doubleToCap : Nat → Nat → Nat
  | 0, d => d
  | n + 1, d => if d < kRetryCap then doubleToCap n (d * 2) else d

/-- Milliseconds before the next attempt after `failures` consecutive misses. -/
def retryDelay (failures : Nat) : Nat := min (doubleToCap (failures - 1) kRetryBase) kRetryCap

/-! ## Gating

Calls and subscriptions are let through by the view and the policy of the module, the same two
that the documents are built from. -/

/-- Is (module, method) callable by an external client? -/
def methodPermitted (cfg : BridgeConfig) (view : ModuleView) (method : Bytes) : Bool :=
  match cfg.find view.module with
  | none => false
  | some em =>
    if isReservedIntrospection method then false
    else if !em.methodAllowed method then false
    else
      match view.typed? with
      | some c => (c.method method).isSome
      | none =>
        if !view.resolved || view.live.methods.isEmpty then true
        else view.live.hasMethod method

/-- Stricter than methods: subscribing to an undeclared event is a silent no-op upstream. -/
def eventPermitted (cfg : BridgeConfig) (view : ModuleView) (event : Bytes) : Bool :=
  match cfg.find view.module with
  | none => false
  | some em =>
    if !em.events.permits event then false
    else
      match view.typed? with
      | some c => c.declaresEvent event
      | none =>
        if !view.resolved || !view.live.eventsDeclared then true
        else view.live.hasEvent event

/-! ### By-name calls

A by-name call becomes a positional one with the parameters of the contract, or of the live
report where there is no contract. -/

/-- The array for `params`, in declaration order; `.error` is the bad path. -/
def typedArguments (byName : List (Bytes × Json)) : List ContractParam → Except Bytes (List Json)
  | [] => .ok []
  | p :: ps =>
    match byName.lookup p.name with
    | some v => (typedArguments byName ps).map (v :: ·)
    | none =>
      if p.optional then (typedArguments byName ps).map (Json.null :: ·) else .error p.name

/-- Typed: an unknown name or a missing required parameter fails, a missing optional one is
null. -/
def typedPositional (m : ContractMethod) (byName : List (Bytes × Json)) :
    Except Bytes (List Json) :=
  match byName.find? fun kv => !(m.params.any fun p => p.name == kv.1) with
  | some kv => .error kv.1
  | none => typedArguments byName m.params

/-- By-name params to the positional array the ABI takes; `.error` names what is wrong. -/
def toPositional (view : ModuleView) (method : Bytes) (byName : List (Bytes × Json)) :
    Except Bytes (List Json) :=
  match view.typed? with
  | some c =>
    match c.method method with
    | none => .error method
    | some cm => typedPositional cm byName
  | none =>
    match (if view.resolved then view.live.method method else none) with
    | none => .error method
    | some m =>
      match byName.find? fun kv => !m.params.contains kv.1 with
      | some kv => .error kv.1
      | none => .ok (m.params.map fun n => (byName.lookup n).getD .null)

/-! ## Views as JSON

What a client is shown of a view. The policy shows in the lists of exposed names alone. -/

/-- `rpc.schema` and `GET /modules/{m}`. -/
def describeView (em : ExposedModule) (view : ModuleView) (withInterface : Bool := true) : Json :=
  let methods := (view.live.methods.filter fun m => em.methodAllowed m.name).map (·.name)
  let events := (view.live.events.filter fun e => em.events.permits e.name).map (·.name)
  let d := Json.object [
    (str "module", .str view.module),
    (str "resolved", .bool view.resolved),
    (str "events_declared", .bool view.live.eventsDeclared),
    (str "methods", namesJson methods),
    (str "events", namesJson events),
    (str "source", .str (if view.typed?.isSome then str "lidl" else str "getPluginInterface")),
    (str "authoritative", .bool false),
    (str "interface_status", .str (interfaceStatusName view.status)),
    (str "stale", .bool view.stale),
    (str "exposure", view.exposure.toJson),
    (str "interface_sha256", .null),
    (str "contract_sha256", .null),
    (str "cross_check", if view.crossChecked then view.crossCheck.toJson else .null)]
  let d := if view.interfaceSha256.isEmpty then d
    else d.set (str "interface_sha256") (.str view.interfaceSha256)
  let d := if view.contractSha256.isEmpty then d
    else d.set (str "contract_sha256") (.str view.contractSha256)
  let d := match view.typed? with
    | some c => if withInterface then d.set (str "interface") c.interface else d
    | none => d
  if view.status == .invalid then d.set (str "interface_error") (.str view.interfaceError) else d

theorem isObject_describeView (em : ExposedModule) (view : ModuleView) (withInterface : Bool) :
    (describeView em view withInterface).isObject = true := by
  unfold describeView
  dsimp only
  -- each member that is set leaves an object
  have hset : ∀ (j : Json) (c d : Prop) [Decidable c] [Decidable d] (k k' : Bytes) (v v' : Json),
      j.isObject = true →
      (if c then (if d then j else j.set k v) else (if d then j else j.set k v).set k' v').isObject =
        true := by
    intro j c d _ _ k k' v v' hj
    have hinner := Json.isObject_ite (c := d) hj (Json.isObject_set (k := k) (v := v) hj)
    exact Json.isObject_ite hinner (Json.isObject_set hinner)
  cases view.typed? with
  | none =>
      refine Json.isObject_ite (Json.isObject_set ?_) ?_
      · exact hset _ _ _ _ _ _ _ rfl
      · exact hset _ _ _ _ _ _ _ rfl
  | some c =>
      cases withInterface
      · refine Json.isObject_ite (Json.isObject_set ?_) ?_
        · exact hset _ _ _ _ _ _ _ rfl
        · exact hset _ _ _ _ _ _ _ rfl
      · refine Json.isObject_ite (Json.isObject_set (Json.isObject_set ?_)) (Json.isObject_set ?_)
        · exact hset _ _ _ _ _ _ _ rfl
        · exact hset _ _ _ _ _ _ _ rfl

/-- `rpc.list_modules` and `GET /modules` entries: the same view, minus the contract. -/
def listView (em : ExposedModule) (view : ModuleView) : Json := describeView em view false

end JsonRpcBridge
