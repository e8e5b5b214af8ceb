import JsonRpcBridge.Config
import Mathlib.Algebra.Group.Int.Defs
import Mathlib.Algebra.Group.Nat.Defs
import Mathlib.Data.List.Nodup

/-!
# Reading a configuration

`parseBridgeConfig`: the text of a configuration to the accepted `BridgeConfig`, or the reason it is
refused. Every member is read behind a check of its type, so nothing here raises.

`BridgeConfig.Accepted` is what an accepted configuration satisfies whatever its text was
(`accepted_of_parse`).
-/

namespace JsonRpcBridge

/-! ## Members

How a member of each type is read. Names are kept in a sorted list, as the `std::set` of the
source. -/

/-- `detail::readInt`: an integer converts to a 32-bit `int`, anything else is the fallback. -/
def readInt (j : Json) (key : Bytes) (fallback : Int) : Int :=
  match j.find? key with
  | some (.int n) => Int.bmod n (2 ^ 32)
  | some (.uint n) => Int.bmod n (2 ^ 32)
  | _ => fallback

/-- `std::isdigit`. -/
def isDigit (c : UInt8) : Bool := 0x30 ≤ c && c ≤ 0x39

/-- Loopback literals only, no lookup. -/
def isLoopbackHost (h : Bytes) : Bool :=
  h == str "localhost" || h == str "::1" || h == str "[::1]" ||
    (startsWith (str "127.") h && h.all fun c => isDigit c || c == 0x2e)

/-- `std::set::insert` of a name the set does not have. -/
def insertName (n : Bytes) : List Bytes → List Bytes
  | [] => [n]
  | m :: ms => if bytesLt n m then n :: m :: ms else m :: insertName n ms

/-- The entries of one list of a policy; a name listed twice is refused. -/
def readNames (label : Bytes) : List Json → List Bytes → Except Bytes (List Bytes)
  | [], out => .ok out
  | .str n :: es, out =>
    if out.contains n then .error (label ++ str " contains a duplicate: " ++ n)
    else readNames label es (insertName n out)
  | _ :: _, _ => .error (label ++ str " entries must be strings")

/-- The list under `key`, if there is one. -/
def readNameList (label key : Bytes) (j : Json) : Except Bytes (Option (List Bytes)) :=
  match j.find? key with
  | none => .ok none
  | some (.arr es) => (readNames (label ++ str "." ++ key) es []).map some
  | some _ => .error (label ++ str "." ++ key ++ str " must be an array")

def readPolicy (label : Bytes) (j : Json) : Except Bytes NamePolicy :=
  if !j.isObject then .error (label ++ str " must be an object")
  else do
    let allow ← readNameList label (str "allow") j
    let deny ← readNameList label (str "deny") j
    return { allowUnconstrained := allow.isNone, allow := allow.getD [], deny := deny.getD [] }

/-! ## `http`

The host must be loopback, and the port fit into sixteen bits. -/

structure HttpSettings where
  host : Bytes := str "127.0.0.1"
  port : Int := 8645
  allowedOrigins : List Bytes := []

def readOrigins : List Json → Except Bytes (List Bytes)
  | [] => .ok []
  | .str o :: os => (readOrigins os).map (o :: ·)
  | _ :: _ => .error (str "http.allowed_origins entries must be strings")

def readHost (h : Json) : Except Bytes Bytes :=
  match h.find? (str "host") with
  | none => .ok (str "127.0.0.1")
  | some (.str host) => .ok host
  | some _ => .error (str "http.host must be a string")

def readAllowedOrigins (h : Json) : Except Bytes (List Bytes) :=
  match h.find? (str "allowed_origins") with
  | none => .ok []
  | some (.arr os) => readOrigins os
  | some _ => .error (str "http.allowed_origins must be an array")

def readHttpMembers (h : Json) : Except Bytes HttpSettings :=
  if !h.isObject then .error (str "http must be an object")
  else do
    let host ← readHost h
    let allowedOrigins ← readAllowedOrigins h
    return { host, port := readInt h (str "port") 8645, allowedOrigins }

/-- A routable bind is refused, not warned about. -/
def checkHttp (h : HttpSettings) : Except Bytes HttpSettings :=
  if !isLoopbackHost h.host then
    .error (str "http.host must be a loopback address (got '" ++ h.host ++
      str "'). This module binds loopback only; expose it beyond the host with an SSH tunnel or a reverse proxy that terminates its own authentication.")
  else if h.port ≤ 0 ∨ h.port > 65535 then .error (str "http.port must be in 1..65535")
  else .ok h

def readHttp (j : Json) : Except Bytes HttpSettings :=
  match j.find? (str "http") with
  | none => checkHttp {}
  | some h => (readHttpMembers h).bind checkHttp

/-! ## `auth`

A token in the configuration is refused outright. -/

def readAuthMode (a : Json) : Except Bytes AuthMode :=
  match a.find? (str "mode") with
  | none => .ok .none
  | some (.str m) =>
    if m == str "none" then .ok .none
    else if m == str "bearer" then .ok .bearer
    else .error (str "auth.mode must be \"none\" or \"bearer\" (got '" ++ m ++ str "')")
  | some _ => .error (str "auth.mode must be a string")

/-- No token key: the secret never travels through the configuration. -/
def readAuth (j : Json) : Except Bytes AuthMode :=
  match j.find? (str "auth") with
  | none => .ok .none
  | some a =>
    if !a.isObject then .error (str "auth must be an object")
    else do
      let mode ← readAuthMode a
      if a.contains (str "token") || a.contains (str "token_file") then
        .error (str "auth.token / auth.token_file are not accepted -- the bearer secret is read from the module's instance persistence directory, so it never travels through config")
      else return mode

/-! ## `expose`

An entry is a name, or an object with a name and its policies. The checks come entry by entry,
and the first that fails is the answer. -/

def readModulePolicy (m : Json) (key name : Bytes) : Except Bytes NamePolicy :=
  match m.find? key with
  | none => .ok {}
  | some p => readPolicy (str "expose.modules[" ++ name ++ str "]." ++ key) p

def readModule (m : Json) : Except Bytes ExposedModule :=
  match m with
  | .str name => .ok { name }
  | .obj ms =>
    match ms.lookup (str "name") with
    | some (.str name) => do
      let methods ← readModulePolicy m (str "methods") name
      let events ← readModulePolicy m (str "events") name
      return { name, methods, events }
    | _ => .error (str "each expose.modules entry needs a string \"name\"")
  | _ => .error (str "expose.modules entries must be a string or an object")

def kBuiltins : List Bytes := [str "lidl", str "name", str "version"]

/-- The checks of one entry against the module's own name and the entries before it; `none` accepts
it. -/
def checkModule (lib : Nlohmann) (own : Bytes) (seen : List ExposedModule) (em : ExposedModule) :
    Option Bytes :=
  if em.name.isEmpty then some (str "expose.modules contains an empty name")
  else
    match checkModuleName lib em.name with
    | some err => some err
    | none =>
      if !own.isEmpty && em.name == own then
        some (str "expose.modules must not contain this module itself (\"" ++ own ++
          str "\") -- bridging the bridge recurses")
      else
        match kBuiltins.find? em.methods.deny.contains with
        | some builtin =>
          some (str "expose.modules[" ++ em.name ++ str "].methods.deny must not name '" ++ builtin ++
            str "': lidl, name and version are introspection built-ins, callable on every exposed module (an allow list need not name them)")
        | none =>
          if seen.any (·.name == em.name) then
            some (str "expose.modules lists '" ++ em.name ++ str "' twice")
          else none

def readModules (lib : Nlohmann) (own : Bytes) :
    List Json → List ExposedModule → Except Bytes (List ExposedModule)
  | [], seen => .ok seen
  | m :: ms, seen => do
    let em ← readModule m
    match checkModule lib own seen em with
    | some err => .error err
    | none => readModules lib own ms (seen ++ [em])

def readExpose (lib : Nlohmann) (own : Bytes) (j : Json) : Except Bytes (List ExposedModule) :=
  match j.find? (str "expose") with
  | some (.obj ex) =>
    match ex.lookup (str "modules") with
    | some (.arr ms) => do
      let modules ← readModules lib own ms []
      if modules.isEmpty then
        .error (str "expose.modules is empty -- the bridge would serve nothing. There is no wildcard: name every module you intend to expose.")
      else return modules
    | _ => .error (str "expose.modules is required and must be an array")
  | _ => .error (str "expose is required and must be an object")

/-! ## `limits`

Every limit must be positive, and is named in its error. -/

/-- Every limit with its name. -/
def Limits.named (l : Limits) : List (Bytes × Int) :=
  [(str "max_connections", l.maxConnections),
   (str "max_connections_per_peer", l.maxConnectionsPerPeer),
   (str "max_body_bytes", l.maxBodyBytes),
   (str "max_frame_bytes", l.maxFrameBytes),
   (str "max_in_flight_per_connection", l.maxInFlightPerConnection),
   (str "max_in_flight_total", l.maxInFlightTotal),
   (str "max_subscriptions_per_connection", l.maxSubscriptionsPerConnection),
   (str "max_queued_frames_per_connection", l.maxQueuedFramesPerConnection),
   (str "call_timeout_ms", l.callTimeoutMs)]

def readLimitMembers (L : Json) : Limits :=
  let d : Limits := {}
  { maxConnections := readInt L (str "max_connections") d.maxConnections
    maxConnectionsPerPeer := readInt L (str "max_connections_per_peer") d.maxConnectionsPerPeer
    maxBodyBytes := readInt L (str "max_body_bytes") d.maxBodyBytes
    maxFrameBytes := readInt L (str "max_frame_bytes") d.maxFrameBytes
    maxInFlightPerConnection :=
      readInt L (str "max_in_flight_per_connection") d.maxInFlightPerConnection
    maxInFlightTotal := readInt L (str "max_in_flight_total") d.maxInFlightTotal
    maxSubscriptionsPerConnection :=
      readInt L (str "max_subscriptions_per_connection") d.maxSubscriptionsPerConnection
    maxQueuedFramesPerConnection :=
      readInt L (str "max_queued_frames_per_connection") d.maxQueuedFramesPerConnection
    callTimeoutMs := readInt L (str "call_timeout_ms") d.callTimeoutMs }

def readLimits (j : Json) : Except Bytes Limits :=
  match j.find? (str "limits") with
  | none => .ok {}
  | some L =>
    if !L.isObject then .error (str "limits must be an object")
    else
      let limits := readLimitMembers L
      match limits.named.find? fun p => p.2 ≤ 0 with
      | some p => .error (str "limits." ++ p.1 ++ str " must be positive")
      | none => .ok limits

/-! ## `discovery`

The interval is zero, which turns revalidation off, or at least a second. -/

/-- `INT_MAX`. -/
def kIntMax : Nat := 2 ^ 31 - 1

def readRevalidate (lib : Nlohmann) (j : Json) : Except Bytes Nat :=
  match j.find? (str "discovery") with
  | none => .ok 10000
  | some d =>
    if !d.isObject then .error (str "discovery must be an object")
    else
      let refused (v : Json) : Except Bytes Nat :=
        .error (str "discovery.revalidate_ms must be 0 (off) or an integer of at least 1000 (got " ++
          lib.text v ++ str ")")
      match d.find? (str "revalidate_ms") with
      | none => .ok 10000
      | some (.uint ms) =>
        if ms > kIntMax ∨ (0 < ms ∧ ms < 1000) then refused (.uint ms) else .ok ms
      | some v => refused v

/-! ## The whole

Section by section, in the order of the source. -/

/-- `own` is the bridge's own module name, which may not be exposed. -/
def parseBridgeConfig (lib : Nlohmann) (own text : Bytes) : Except Bytes BridgeConfig :=
  match lib.parse text with
  | none => .error (str "config is not valid JSON")
  | some j =>
    if !j.isObject then .error (str "config must be a JSON object")
    else do
      let http ← readHttp j
      let authMode ← readAuth j
      let modules ← readExpose lib own j
      let limits ← readLimits j
      let revalidateMs ← readRevalidate lib j
      return { host := http.host, port := http.port.toNat, allowedOrigins := http.allowedOrigins,
               authMode, modules, limits, revalidateMs }

/-! ## What is accepted

What the other modules know of a configuration, without its text. -/

/-- The names of a policy are well-formed UTF-8. -/
def NamePolicy.Clean (p : NamePolicy) : Prop :=
  (∀ n ∈ p.allow, Utf8 n) ∧ ∀ n ∈ p.deny, Utf8 n

/-- What holds of every accepted configuration. -/
structure BridgeConfig.Accepted (lib : Nlohmann) (own : Bytes) (cfg : BridgeConfig) : Prop where
  nonempty : ∀ em ∈ cfg.modules, em.name ≠ []
  checked : cfg.NamesChecked lib
  distinct : (cfg.modules.map (·.name)).Nodup
  notSelf : own ≠ [] → ∀ em ∈ cfg.modules, em.name ≠ own
  builtins : ∀ em ∈ cfg.modules, ∀ n ∈ kBuiltins, n ∉ em.methods.deny
  clean : ∀ em ∈ cfg.modules, Utf8 em.name ∧ em.methods.Clean ∧ em.events.Clean
  positive : ∀ p ∈ cfg.limits.named, 0 < p.2

/-- What the entries accepted so far satisfy, every further entry keeps. -/
theorem readModules_invariant {lib : Nlohmann} {own : Bytes} {I : List ExposedModule → Prop}
    {ms : List Json} {seen out : List ExposedModule} (hseen : I seen)
    (hstep : ∀ seen em m, I seen → m ∈ ms → readModule m = .ok em →
      checkModule lib own seen em = none → I (seen ++ [em]))
    (h : readModules lib own ms seen = .ok out) : I out := by
  induction ms generalizing seen with
  | nil =>
      cases h
      exact hseen
  | cons m ms ih =>
      obtain ⟨em, hread, h⟩ := of_bind_eq_ok h
      cases hcheck : checkModule lib own seen em with
      | some err =>
          rw [hcheck] at h
          cases h
      | none =>
          rw [hcheck] at h
          refine ih (hstep seen em m hseen List.mem_cons_self hread hcheck) ?_ h
          exact fun seen em m' hI hm => hstep seen em m' hI (List.mem_cons_of_mem _ hm)

theorem checkModule_none {lib : Nlohmann} {own : Bytes} {seen : List ExposedModule}
    {em : ExposedModule} (h : checkModule lib own seen em = none) :
    em.name ≠ [] ∧ checkModuleName lib em.name = none ∧ (own ≠ [] → em.name ≠ own) ∧
      (∀ n ∈ kBuiltins, n ∉ em.methods.deny) ∧ ∀ s ∈ seen, s.name ≠ em.name := by
  unfold checkModule at h
  split at h
  · cases h
  · rename_i hempty
    split at h
    · cases h
    · rename_i hname
      split at h
      · cases h
      · rename_i hself
        split at h
        · cases h
        · rename_i hdeny
          split at h
          · cases h
          · rename_i hseen
            refine ⟨by simpa using hempty, hname, by simpa using hself, ?_, by simpa using hseen⟩
            intro n hn
            simpa using List.find?_eq_none.mp hdeny n hn

/-! ### What a reader returns

One lemma for each reader: the names of a clean document are clean, a limit is positive and an
`int`, and the entries have passed their checks. -/

theorem mem_insertName {n x : Bytes} {ms : List Bytes} (h : x ∈ insertName n ms) :
    x = n ∨ x ∈ ms := by
  induction ms with
  | nil => exact Or.inl (List.mem_singleton.mp h)
  | cons m ms ih =>
      unfold insertName at h
      split at h
      · exact List.mem_cons.mp h
      · rcases List.mem_cons.mp h with h | h
        · exact Or.inr (h ▸ List.mem_cons_self)
        · exact (ih h).imp_right (List.mem_cons_of_mem _)

theorem utf8_readNames {label : Bytes} {es : List Json} {out names : List Bytes}
    (hes : ∀ e ∈ es, e.Clean) (hout : ∀ n ∈ out, Utf8 n) (h : readNames label es out = .ok names) :
    ∀ n ∈ names, Utf8 n := by
  induction es generalizing out with
  | nil =>
      cases h
      exact hout
  | cons e es ih =>
      cases e with
      | str n =>
          unfold readNames at h
          split at h
          · cases h
          · refine ih (fun e he => hes e (List.mem_cons_of_mem _ he)) ?_ h
            intro x hx
            rcases mem_insertName hx with rfl | hx
            · exact Json.clean_str_iff.mp (hes _ List.mem_cons_self)
            · exact hout x hx
      | _ => cases h

theorem utf8_readNameList {label key : Bytes} {j : Json} {names : Option (List Bytes)}
    (hj : j.Clean) (h : readNameList label key j = .ok names) : ∀ n ∈ names.getD [], Utf8 n := by
  unfold readNameList at h
  split at h
  · cases h
    exact fun n hn => absurd hn List.not_mem_nil
  · rename_i es hfind
    obtain ⟨ns, hread, rfl⟩ := of_map_eq_ok h
    exact utf8_readNames (Json.clean_arr_iff.mp (hj.find? hfind))
      (fun n hn => absurd hn List.not_mem_nil) hread
  · cases h

theorem clean_readPolicy {label : Bytes} {j : Json} {p : NamePolicy} (hj : j.Clean)
    (h : readPolicy label j = .ok p) : p.Clean := by
  unfold readPolicy at h
  split at h
  · cases h
  · obtain ⟨allow, hallow, h⟩ := of_bind_eq_ok h
    obtain ⟨deny, hdeny, h⟩ := of_bind_eq_ok h
    cases h
    exact ⟨utf8_readNameList hj hallow, utf8_readNameList hj hdeny⟩

theorem clean_readModulePolicy {m : Json} {key name : Bytes} {p : NamePolicy} (hm : m.Clean)
    (h : readModulePolicy m key name = .ok p) : p.Clean := by
  unfold readModulePolicy at h
  split at h
  · cases h
    exact ⟨fun n hn => absurd hn List.not_mem_nil, fun n hn => absurd hn List.not_mem_nil⟩
  · rename_i v hfind
    exact clean_readPolicy (hm.find? hfind) h

theorem clean_readModule {m : Json} {em : ExposedModule} (hm : m.Clean)
    (h : readModule m = .ok em) : Utf8 em.name ∧ em.methods.Clean ∧ em.events.Clean := by
  have hopen : NamePolicy.Clean {} :=
    ⟨fun n hn => absurd hn List.not_mem_nil, fun n hn => absurd hn List.not_mem_nil⟩
  unfold readModule at h
  split at h
  · cases h
    exact ⟨Json.clean_str_iff.mp hm, hopen, hopen⟩
  · rename_i ms
    split at h
    · rename_i name hfind
      obtain ⟨methods, hmethods, h⟩ := of_bind_eq_ok h
      obtain ⟨events, hevents, h⟩ := of_bind_eq_ok h
      cases h
      have hname : (Json.str name).Clean := hm.find? (j := .obj ms) hfind
      exact ⟨Json.clean_str_iff.mp hname, clean_readModulePolicy hm hmethods,
        clean_readModulePolicy hm hevents⟩
    · cases h
  · cases h

theorem positive_readLimits {j : Json} {l : Limits} (h : readLimits j = .ok l) :
    ∀ p ∈ l.named, 0 < p.2 := by
  unfold readLimits at h
  split at h
  · cases h
    decide
  · split at h
    · cases h
    · dsimp only at h
      split at h
      · cases h
      · rename_i hfind
        cases h
        intro p hp
        simpa using List.find?_eq_none.mp hfind p hp

theorem readInt_lt {j : Json} {key : Bytes} {fallback : Int} (h : fallback < 2 ^ 31) :
    readInt j key fallback < 2 ^ 31 := by
  unfold readInt
  split
  · exact Int.bmod_lt (by decide)
  · exact Int.bmod_lt (by decide)
  · exact h

/-- A limit is an `int`. -/
theorem readLimits_lt {j : Json} {l : Limits} (h : readLimits j = .ok l) :
    ∀ p ∈ l.named, p.2 < 2 ^ 31 := by
  have hdefaults : ∀ p ∈ ({} : Limits).named, p.2 < 2 ^ 31 := by decide
  unfold readLimits at h
  split at h
  · cases h
    exact hdefaults
  · split at h
    · cases h
    · rename_i L _ _
      dsimp only at h
      split at h
      · cases h
      · cases h
        simp only [Limits.named, readLimitMembers, List.forall_mem_cons] at hdefaults ⊢
        obtain ⟨h₁, h₂, h₃, h₄, h₅, h₆, h₇, h₈, h₉, -⟩ := hdefaults
        exact ⟨readInt_lt h₁, readInt_lt h₂, readInt_lt h₃, readInt_lt h₄, readInt_lt h₅,
          readInt_lt h₆, readInt_lt h₇, readInt_lt h₈, readInt_lt h₉, nofun⟩

theorem readExpose_ok {lib : Nlohmann} {own : Bytes} {j : Json} {modules : List ExposedModule}
    (hj : j.Clean) (h : readExpose lib own j = .ok modules) :
    ∃ ms : List Json, (∀ m ∈ ms, m.Clean) ∧ readModules lib own ms [] = .ok modules := by
  unfold readExpose at h
  split at h
  · rename_i ex hexpose
    split at h
    · rename_i ms hmodules
      obtain ⟨out, hread, h⟩ := of_bind_eq_ok h
      split at h <;> cases h
      have hms : (Json.arr ms).Clean := (hj.find? hexpose).find? (j := .obj ex) hmodules
      exact ⟨ms, Json.clean_arr_iff.mp hms, hread⟩
    · cases h
  · cases h

/-! ### From the entries to the whole

The check of an entry is handed the entries before it. What it asks is collected here once for
each entry, and then read off the accepted configuration. -/

/-- What holds of every entry that is accepted. -/
structure ExposedModule.Accepted (lib : Nlohmann) (own : Bytes) (em : ExposedModule) : Prop where
  nonempty : em.name ≠ []
  checked : checkModuleName lib em.name = none
  notSelf : own ≠ [] → em.name ≠ own
  builtins : ∀ n ∈ kBuiltins, n ∉ em.methods.deny
  clean : Utf8 em.name ∧ em.methods.Clean ∧ em.events.Clean

/-- The entries read are accepted, and no two have one name: the check of an entry sees those
before it, so both are kept by the loop. -/
theorem readModules_accepted {lib : Nlohmann} {own : Bytes} {ms : List Json}
    {modules : List ExposedModule} (hms : ∀ m ∈ ms, m.Clean)
    (h : readModules lib own ms [] = .ok modules) :
    (∀ em ∈ modules, em.Accepted lib own) ∧ (modules.map (·.name)).Nodup := by
  refine readModules_invariant (I := fun out => (∀ em ∈ out, em.Accepted lib own) ∧
    (out.map (·.name)).Nodup) ⟨by simp, by simp⟩ ?_ h
  rintro seen em m ⟨hseen, hnodup⟩ hm hem hcheck
  obtain ⟨hne, hname, hself, hdeny, hnew⟩ := checkModule_none hcheck
  constructor
  · intro x hx
    rcases List.mem_append.mp hx with hx | hx
    · exact hseen x hx
    · obtain rfl := List.mem_singleton.mp hx
      exact ⟨hne, hname, hself, hdeny, clean_readModule (hms m hm) hem⟩
  · rw [List.map_append, List.nodup_append]
    refine ⟨hnodup, by simp, ?_⟩
    intro a ha b hb
    obtain ⟨s, hs, rfl⟩ := List.mem_map.mp ha
    obtain rfl : b = em.name := by simpa using hb
    exact hnew s hs

/-- **An accepted configuration is well formed**, whatever the text it was read from. -/
theorem accepted_of_parse {lib : Nlohmann} {own text : Bytes} {cfg : BridgeConfig}
    (h : parseBridgeConfig lib own text = .ok cfg) : cfg.Accepted lib own := by
  unfold parseBridgeConfig at h
  split at h
  · cases h
  · rename_i j hparse
    split at h
    · cases h
    · obtain ⟨http, -, h⟩ := of_bind_eq_ok h
      obtain ⟨authMode, -, h⟩ := of_bind_eq_ok h
      obtain ⟨modules, hmodules, h⟩ := of_bind_eq_ok h
      obtain ⟨limits, hlimits, h⟩ := of_bind_eq_ok h
      obtain ⟨revalidateMs, -, h⟩ := of_bind_eq_ok h
      cases h
      obtain ⟨ms, hms, hread⟩ := readExpose_ok (lib.parse_clean hparse) hmodules
      have hinv := readModules_accepted hms hread
      exact { nonempty := fun em hem => (hinv.1 em hem).nonempty
              checked := fun em hem => (hinv.1 em hem).checked
              distinct := hinv.2
              notSelf := fun hself em hem => (hinv.1 em hem).notSelf hself
              builtins := fun em hem => (hinv.1 em hem).builtins
              clean := fun em hem => (hinv.1 em hem).clean
              positive := positive_readLimits hlimits }

theorem limits_lt_of_parse {lib : Nlohmann} {own text : Bytes} {cfg : BridgeConfig}
    (h : parseBridgeConfig lib own text = .ok cfg) : ∀ p ∈ cfg.limits.named, p.2 < 2 ^ 31 := by
  unfold parseBridgeConfig at h
  split at h
  · cases h
  · split at h
    · cases h
    · obtain ⟨http, -, h⟩ := of_bind_eq_ok h
      obtain ⟨authMode, -, h⟩ := of_bind_eq_ok h
      obtain ⟨modules, -, h⟩ := of_bind_eq_ok h
      obtain ⟨limits, hlimits, h⟩ := of_bind_eq_ok h
      obtain ⟨revalidateMs, -, h⟩ := of_bind_eq_ok h
      cases h
      exact readLimits_lt hlimits

/-! ### The address that is bound

Every accepted host is a loopback literal, and so plain ASCII. -/

theorem checkHttp_ok {h h' : HttpSettings} (hok : checkHttp h = .ok h') :
    h' = h ∧ isLoopbackHost h.host = true ∧ 0 < h.port ∧ h.port ≤ 65535 := by
  unfold checkHttp at hok
  split at hok
  · cases hok
  · rename_i hhost
    split at hok <;> cases hok
    rename_i hport
    exact ⟨rfl, by simpa using hhost, by omega, by omega⟩

theorem readHttp_ok {j : Json} {http : HttpSettings} (h : readHttp j = .ok http) :
    isLoopbackHost http.host = true ∧ 0 < http.port ∧ http.port ≤ 65535 := by
  unfold readHttp at h
  split at h
  · obtain ⟨rfl, hok⟩ := checkHttp_ok h
    exact hok
  · obtain ⟨read, -, hcheck⟩ := of_bind_eq_ok h
    obtain ⟨rfl, hok⟩ := checkHttp_ok hcheck
    exact hok

theorem loopback_of_parse {lib : Nlohmann} {own text : Bytes} {cfg : BridgeConfig}
    (h : parseBridgeConfig lib own text = .ok cfg) : isLoopbackHost cfg.host = true := by
  unfold parseBridgeConfig at h
  split at h
  · cases h
  · split at h
    · cases h
    · obtain ⟨http, hhttp, h⟩ := of_bind_eq_ok h
      obtain ⟨authMode, -, h⟩ := of_bind_eq_ok h
      obtain ⟨modules, -, h⟩ := of_bind_eq_ok h
      obtain ⟨limits, -, h⟩ := of_bind_eq_ok h
      obtain ⟨revalidateMs, -, h⟩ := of_bind_eq_ok h
      cases h
      exact (readHttp_ok hhttp).1

/-- A loopback literal is ASCII. -/
theorem utf8_of_isLoopbackHost {host : Bytes} (h : isLoopbackHost host = true) : Utf8 host := by
  unfold isLoopbackHost at h
  simp only [Bool.or_eq_true, Bool.and_eq_true, beq_iff_eq, List.all_eq_true] at h
  rcases h with ((rfl | rfl) | rfl) | ⟨-, hall⟩
  · exact utf8_str _
  · exact utf8_str _
  · exact utf8_str _
  · apply utf8_of_ascii
    intro c hc
    rcases hall c hc with hdigit | rfl
    · simp only [isDigit, Bool.and_eq_true, decide_eq_true_eq, UInt8.le_iff_toNat_le] at hdigit
      have hle : c.toNat ≤ 0x39 := hdigit.2
      omega
    · decide

theorem BridgeConfig.Accepted.find {lib : Nlohmann} {own : Bytes} {cfg : BridgeConfig}
    (hcfg : cfg.Accepted lib own) {em : ExposedModule} (hem : em ∈ cfg.modules) :
    cfg.find em.name = some em := by
  cases hfind : cfg.find em.name with
  | none =>
      have hnone := List.find?_eq_none.mp hfind em hem
      exact absurd (beq_self_eq_true em.name) hnone
  | some em' =>
      obtain ⟨hmem, hname⟩ := BridgeConfig.find_mem hfind
      exact congrArg some (List.inj_on_of_nodup_map hcfg.distinct hmem hem hname)

/-! ## The smallest configuration

One module without policies, and every default. The runs on given inputs start from here. -/

/-- `{"expose":{"modules":["m1"]}}`, and its value. -/
def minimalText : Bytes := str "\x7b\"expose\":\x7b\"modules\":[\"m1\"]\x7d\x7d"

def minimalJson : Json :=
  Json.object [(str "expose", Json.object [(str "modules", .arr [.str (str "m1")])])]

def minimalLib : Nlohmann := .only minimalText minimalJson (by decide)

/-- One module, everything else by default. -/
def minimalConfig : BridgeConfig := { modules := [{ name := str "m1" }] }

theorem parse_minimal :
    parseBridgeConfig minimalLib (str "json_rpc_bridge") minimalText = .ok minimalConfig := by rfl

end JsonRpcBridge
