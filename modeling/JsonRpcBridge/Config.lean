import JsonRpcBridge.Json

/-!
# Configuration

What `bridge_config.h` hands to the rest of the bridge: the exposure policy of each module, the
limits, and the accepted configuration itself.
-/

namespace JsonRpcBridge

/-- One axis of a module's exposure. An absent allow list is unconstrained, an empty one permits
nothing, and `deny` always subtracts. -/
structure NamePolicy where
  allowUnconstrained : Bool := true
  allow : List Bytes := []
  deny : List Bytes := []

def NamePolicy.permits (p : NamePolicy) (name : Bytes) : Bool :=
  if p.deny.contains name then false
  else if p.allowUnconstrained then true
  else p.allow.contains name

/-- Introspection built-ins: callable on every exposed module whatever the method policy. -/
def isBuiltinMethod (name : Bytes) : Bool :=
  name == str "lidl" || name == str "name" || name == str "version"

structure ExposedModule where
  name : Bytes
  methods : NamePolicy := {}
  events : NamePolicy := {}

/-- The method policy with the built-ins implicitly allowed. -/
def ExposedModule.methodAllowed (em : ExposedModule) (method : Bytes) : Bool :=
  isBuiltinMethod method || em.methods.permits method

structure Limits where
  maxConnections : Int := 128
  maxConnectionsPerPeer : Int := 8
  maxBodyBytes : Int := 1048576
  maxFrameBytes : Int := 1048576
  maxInFlightPerConnection : Int := 32
  maxInFlightTotal : Int := 256
  maxSubscriptionsPerConnection : Int := 256
  maxQueuedFramesPerConnection : Int := 256
  callTimeoutMs : Int := 30000

inductive AuthMode where
  | none
  | bearer
  deriving DecidableEq, Repr

structure BridgeConfig where
  host : Bytes := str "127.0.0.1"
  port : Nat := 8645
  allowedOrigins : List Bytes := []
  authMode : AuthMode := .none
  modules : List ExposedModule := []
  limits : Limits := {}
  revalidateMs : Nat := 10000

def BridgeConfig.find (cfg : BridgeConfig) (name : Bytes) : Option ExposedModule :=
  cfg.modules.find? fun em => em.name == name

theorem BridgeConfig.find_mem {cfg : BridgeConfig} {name : Bytes} {em : ExposedModule}
    (h : cfg.find name = some em) : em ∈ cfg.modules ∧ em.name = name :=
  ⟨List.mem_of_find?_eq_some h, by simpa using List.find?_some h⟩

/-! ## Module names

A name must be usable before the dot of an alias, inside a path and as a key. The check looks at
bytes, and at one character at a time for ASCII only. -/

/-- `c == ' ' || c < 0x20 || c == 0x7f`. -/
def isBlankOrControl (c : UInt8) : Bool := c == 0x20 || c < 0x20 || c == 0x7f

/-- Why a module name is refused; `none` accepts it. Module names are alias prefixes and path
segments. -/
def checkModuleName (lib : Nlohmann) (name : Bytes) : Option Bytes :=
  let quoted := lib.text (.str name)
  if name == str "rpc" then
    some (str "expose.modules must not contain \"rpc\": rpc.* names bridge operations")
  else
    match name.find? fun c => c == 0x2e || isBlankOrControl c with
    | none => none
    | some c =>
      if c == 0x2e then
        some (str "expose.modules name " ++ quoted ++
          str " contains '.', which separates module from method in an alias")
      else
        some (str "expose.modules name " ++ quoted ++
          str " contains whitespace or a control character")

/-- Every module name of the configuration passed `checkModuleName`. -/
def BridgeConfig.NamesChecked (lib : Nlohmann) (cfg : BridgeConfig) : Prop :=
  ∀ em ∈ cfg.modules, checkModuleName lib em.name = none

/-! ### What an accepted name lacks

An alias is split at its first dot and a path at its slashes, so the proofs about routing need
what is not in the name. -/

/-- An accepted module name is not `rpc`, and has no byte that the check refuses. -/
theorem checkModuleName_none {lib : Nlohmann} {name : Bytes}
    (h : checkModuleName lib name = none) :
    name ≠ str "rpc" ∧ ∀ c ∈ name, c ≠ 0x2e ∧ isBlankOrControl c = false := by
  unfold checkModuleName at h
  dsimp only at h
  split at h
  · cases h
  · rename_i hrpc
    split at h
    · rename_i hnone
      refine ⟨by simpa using hrpc, ?_⟩
      intro c hc
      simpa using List.find?_eq_none.mp hnone c hc
    · split at h <;> cases h

/-- An accepted module name contains no blank. -/
theorem blank_not_mem_of_checkModuleName {lib : Nlohmann} {name : Bytes}
    (h : checkModuleName lib name = none) : (0x20 : UInt8) ∉ name := by
  intro hmem
  have hblank := ((checkModuleName_none h).2 _ hmem).2
  exact absurd hblank (by decide)

theorem dot_not_mem_of_checkModuleName {lib : Nlohmann} {name : Bytes}
    (h : checkModuleName lib name = none) : (0x2e : UInt8) ∉ name :=
  fun hmem => ((checkModuleName_none h).2 _ hmem).1 rfl

theorem ne_rpc_of_checkModuleName {lib : Nlohmann} {name : Bytes}
    (h : checkModuleName lib name = none) : name ≠ str "rpc" := (checkModuleName_none h).1

end JsonRpcBridge
