import JsonRpcBridge.Config.Parse
import JsonRpcBridge.Unicode

/-!
# What a configuration says

`Means`: what the documentation promises of an accepted document, each key's domain and the value
the configuration takes from it. Its domains are those of the words in the documentation, not those
of the checks: a loopback address is a dotted quad of `127.0.0.0/8`, and whitespace and control
characters are Unicode's.

The checks are coarser in three places. `readInt` silently replaces a value that is no integer, and
reduces an integer modulo 2^32; `isLoopbackHost` takes any digits and dots after `127.`; and
`checkModuleName`, which looks at bytes, sees no blank outside ASCII.

* `means_iff_wellMeant`: an accepted configuration means what its document says exactly when the
  document keeps clear of those three.
-/

namespace JsonRpcBridge

/-! ## The documented meaning

What a reader of the documentation expects of each key. A key that is absent has its default. -/

/-- The value of an integer; a number out of the range of both integer types is read as a float. -/
def Json.integer? : Json → Option Int
  | .int n => some n
  | .uint n => some n
  | _ => none

/-- The member `name` of the member `key`. -/
def Json.at? (j : Json) (key name : Bytes) : Option Json := (j.find? key).bind (Json.find? name)

/-- An absent key leaves the default. One that is present is an integer, and that one is held. -/
def Holds (v : Option Json) (x dflt : Int) : Prop :=
  match v with
  | none => x = dflt
  | some v => v.integer? = some x

/-- The last three octets of an IPv4 address, each a number of at most 255 in decimal. -/
def Octets (rest : Bytes) : Prop :=
  ∃ b c d : Nat, b ≤ 255 ∧ c ≤ 255 ∧ d ≤ 255 ∧
    rest = toStr b ++ str "." ++ toStr c ++ str "." ++ toStr d

/-- `localhost`, the IPv6 loopback address with or without its brackets, or an address of
`127.0.0.0/8`. -/
def LoopbackLiteral (host : Bytes) : Prop :=
  host = str "localhost" ∨ host = str "::1" ∨ host = str "[::1]" ∨
    ∃ rest, host = str "127." ++ rest ∧ Octets rest

/-- A text without a dot, whitespace or a control character. -/
def Visible (name : Bytes) : Prop :=
  ∃ cs : List Char, name = cs.flatMap String.utf8EncodeChar ∧
    ∀ c ∈ cs, c ≠ '.' ∧ ¬(Unicode.WhiteSpace c ∨ Unicode.Control c)

/-! ### Names and policies

A list in the document says the same as the sorted list that is kept, entry by entry and whatever
its order. -/

/-- A name that is seen whole, and is nobody else's. -/
structure ModuleName (own name : Bytes) : Prop where
  nonempty : name ≠ []
  notRpc : name ≠ str "rpc"
  notOwn : name ≠ own
  visible : Visible name

/-- A list of names, each once. -/
def Lists (v : Json) (names : List Bytes) : Prop :=
  ∃ listed : List Bytes, v = .arr (listed.map .str) ∧ listed.Nodup ∧ ∀ n, n ∈ names ↔ n ∈ listed

/-- An absent `allow` is unconstrained. -/
structure PolicyMeans (v : Json) (p : NamePolicy) : Prop where
  object : v.isObject = true
  allow : match v.find? (str "allow") with
    | none => p.allowUnconstrained = true
    | some names => p.allowUnconstrained = false ∧ Lists names p.allow
  deny : match v.find? (str "deny") with
    | none => p.deny = []
    | some names => Lists names p.deny

/-- A policy that is absent restricts nothing. -/
def PolicyHeld (v : Option Json) (p : NamePolicy) : Prop :=
  match v with
  | none => p = {}
  | some v => PolicyMeans v p

/-- An entry is a bare name, or an object with a name and policies. -/
def EntryMeans (m : Json) (em : ExposedModule) : Prop :=
  m = .str em.name ∧ em.methods = {} ∧ em.events = {} ∨
    m.find? (str "name") = some (.str em.name) ∧
      PolicyHeld (m.find? (str "methods")) em.methods ∧
      PolicyHeld (m.find? (str "events")) em.events

def authModeName : AuthMode → Bytes
  | .none => str "none"
  | .bearer => str "bearer"

/-! ### The document and the configuration

One field for each key, in the order of the documentation. None of them mentions a function of
the parser. -/

/-- Every key is in its documented domain, and the configuration holds its value. -/
structure Means (own : Bytes) (j : Json) (cfg : BridgeConfig) : Prop where
  objects : ∀ key ∈ ["http", "auth", "expose", "limits", "discovery"], ∀ v,
    j.find? (str key) = some v → v.isObject = true
  loopback : LoopbackLiteral cfg.host
  host : match j.at? (str "http") (str "host") with
    | none => cfg.host = str "127.0.0.1"
    | some v => v = .str cfg.host
  port : 1 ≤ cfg.port ∧ cfg.port ≤ 65535 ∧ Holds (j.at? (str "http") (str "port")) cfg.port 8645
  origins : match j.at? (str "http") (str "allowed_origins") with
    | none => cfg.allowedOrigins = []
    | some v => v = .arr (cfg.allowedOrigins.map .str)
  mode : match j.at? (str "auth") (str "mode") with
    | none => cfg.authMode = .none
    | some v => v = .str (authModeName cfg.authMode)
  noSecret : j.at? (str "auth") (str "token") = none ∧ j.at? (str "auth") (str "token_file") = none
  modules : ∃ ms, j.at? (str "expose") (str "modules") = some (.arr ms) ∧
    List.Forall₂ EntryMeans ms cfg.modules
  nonempty : cfg.modules ≠ []
  names : ∀ em ∈ cfg.modules, ModuleName own em.name
  distinct : (cfg.modules.map (·.name)).Nodup
  builtins : ∀ em ∈ cfg.modules, ∀ n ∈ [str "lidl", str "name", str "version"], n ∉ em.methods.deny
  limits : List.Forall₂ (fun (limit dflt : Bytes × Int) => 0 < limit.2 ∧
    Holds (j.at? (str "limits") limit.1) limit.2 dflt.2)
    cfg.limits.named ({} : Limits).named
  revalidate : (cfg.revalidateMs = 0 ∨ 1000 ≤ cfg.revalidateMs) ∧ cfg.revalidateMs < 2 ^ 31 ∧
    Holds (j.at? (str "discovery") (str "revalidate_ms")) cfg.revalidateMs 10000

/-! ## Integers

`readInt` holds an integer exactly when it fits into an `int`. -/

/-- Where there is a value, it is an integer that fits an `int`. -/
def FitsInt (v : Option Json) : Prop :=
  ∀ w, v = some w → ∃ n, w.integer? = some n ∧ -2 ^ 31 ≤ n ∧ n < 2 ^ 31

/-- `http.port` and every limit, where present, are integers that fit an `int`. -/
def FitsInts (j : Json) : Prop :=
  FitsInt (j.at? (str "http") (str "port")) ∧ ∀ p ∈ ({} : Limits).named,
    FitsInt (j.at? (str "limits") p.1)

theorem readInt_eq (j : Json) (key : Bytes) (fallback : Int) :
    readInt j key fallback = match (j.find? key).bind Json.integer? with
      | some n => Int.bmod n (2 ^ 32)
      | none => fallback := by
  unfold readInt
  cases j.find? key with
  | none => rfl
  | some v => cases v <;> rfl

/-- `readInt` holds the value it finds exactly when that is an integer that fits. -/
theorem holds_readInt_iff (j : Json) (key : Bytes) (fallback : Int) :
    Holds (j.find? key) (readInt j key fallback) fallback ↔ FitsInt (j.find? key) := by
  rw [readInt_eq]
  cases hfind : j.find? key with
  | none => exact ⟨fun _ w hw => (nomatch hw), fun _ => rfl⟩
  | some v =>
      simp only [Holds, FitsInt, Option.bind_some, Option.some.injEq, forall_eq']
      cases hn : v.integer? with
      | none => simp
      | some n =>
          simp only [Option.some.injEq, exists_eq_left']
          rw [eq_comm, Int.bmod_eq_iff (by decide)]
          constructor
          · rintro ⟨hlo, hhi, -⟩
            exact ⟨by omega, by omega⟩
          · rintro ⟨hlo, hhi⟩
            exact ⟨by omega, by omega, by simp⟩

/-! ## Hosts and names

What `isLoopbackHost` and `checkModuleName` let through beyond the documented domain, and that they
let through nothing else. -/

/-- What stands after `127.` is three octets. -/
def Quad (host : Bytes) : Prop := ∀ rest, host = str "127." ++ rest → Octets rest

/-- An accepted host is a literal, but for what may stand after `127.`. -/
theorem loopbackLiteral_iff_quad {host : Bytes} (h : isLoopbackHost host = true) :
    LoopbackLiteral host ↔ Quad host := by
  unfold LoopbackLiteral Quad
  constructor
  · rintro (rfl | rfl | rfl | ⟨rest, rfl, hrest⟩) rest' heq
    · cases heq
    · cases heq
    · cases heq
    · rwa [← List.append_cancel_left heq]
  · intro hquad
    unfold isLoopbackHost at h
    simp only [Bool.or_eq_true, Bool.and_eq_true, beq_iff_eq] at h
    rcases h with ((h | h) | h) | ⟨hstarts, -⟩
    · exact .inl h
    · exact .inr (.inl h)
    · exact .inr (.inr (.inl h))
    · obtain ⟨rest, rfl⟩ := startsWith_iff.mp hstarts
      exact .inr (.inr (.inr ⟨rest, rfl, hquad rest rfl⟩))

/-- A name has no whitespace and no control character outside ASCII. -/
def PlainName (name : Bytes) : Prop :=
  ∀ cs : List Char, name = cs.flatMap String.utf8EncodeChar →
    ∀ c ∈ cs, 0x80 ≤ c.toNat → ¬(Unicode.WhiteSpace c ∨ Unicode.Control c)

theorem plainName_str {s : String} (h : (s.toList.all fun c =>
    0x80 ≤ c.toNat → ¬(Unicode.WhiteSpace c ∨ Unicode.Control c)) = true) :
    PlainName (str s) := by
  intro cs heq c hc
  obtain rfl : s.toList = cs := Unicode.encode_injective heq
  exact of_decide_eq_true (List.all_eq_true.mp h c hc)

/-- The check of a name sees all of ASCII. -/
theorem visible_iff_plainName {lib : Nlohmann} {name : Bytes}
    (hcheck : checkModuleName lib name = none) (hutf8 : Utf8 name) :
    Visible name ↔ PlainName name := by
  obtain ⟨-, hbytes⟩ := checkModuleName_none hcheck
  constructor
  · rintro ⟨cs, rfl, hvisible⟩ ds heq c hc -
    obtain rfl := Unicode.encode_injective heq
    exact (hvisible c hc).2
  · intro hplain
    obtain ⟨cs, rfl⟩ := hutf8
    refine ⟨cs, rfl, fun c hc => ?_⟩
    by_cases hascii : c.toNat < 0x80
    · -- a character of ASCII is a byte of the name, and was looked at
      have hmem : UInt8.ofNat c.toNat ∈ cs.flatMap String.utf8EncodeChar := by
        refine List.mem_flatMap.mpr ⟨c, hc, ?_⟩
        rw [Unicode.encode_ascii hascii]
        exact List.mem_singleton_self _
      have hbyte : (UInt8.ofNat c.toNat).toNat = c.toNat := Unicode.toNat_ofNat_of_lt (by omega)
      obtain ⟨hdot, hblank⟩ := hbytes _ hmem
      simp only [isBlankOrControl, Bool.or_eq_false_iff, beq_eq_false_iff_ne, ne_eq,
        decide_eq_false_iff_not, UInt8.lt_iff_toNat_lt, ← UInt8.toNat_inj, hbyte] at hblank hdot
      have hlow : c.toNat ≠ 0x20 ∧ ¬c.toNat < 0x20 ∧ c.toNat ≠ 0x7F :=
        ⟨hblank.1.1, hblank.1.2, hblank.2⟩
      refine ⟨?_, ?_⟩
      · rintro rfl
        exact hdot rfl
      · rw [Unicode.unseen_ascii_iff hascii]
        omega
    · refine ⟨?_, hplain cs rfl c hc (by omega)⟩
      rintro rfl
      exact hascii (by decide)

/-! ## Members

The other members are what their readers return, and nothing is lost: a list is read to its end,
and a policy has exactly the names that are listed. -/

theorem mem_insertName_iff {n x : Bytes} {ms : List Bytes} :
    x ∈ insertName n ms ↔ x = n ∨ x ∈ ms := by
  induction ms with
  | nil => simp [insertName]
  | cons m ms ih =>
      unfold insertName
      split
      · exact List.mem_cons
      · rw [List.mem_cons, List.mem_cons, ih]
        tauto

theorem readNames_ok {label : Bytes} {es : List Json} {out names : List Bytes}
    (h : readNames label es out = .ok names) :
    ∃ listed : List Bytes, es = listed.map .str ∧ listed.Nodup ∧ (∀ n ∈ listed, n ∉ out) ∧
      ∀ n, n ∈ names ↔ n ∈ out ∨ n ∈ listed := by
  induction es generalizing out with
  | nil =>
      cases h
      exact ⟨[], rfl, List.nodup_nil, nofun, by simp⟩
  | cons e es ih =>
      cases e with
      | str n =>
          unfold readNames at h
          split at h
          · cases h
          · rename_i hnew
            obtain ⟨listed, rfl, hnodup, hfresh, hmem⟩ := ih h
            have hn : n ∉ listed := fun hin => hfresh n hin (mem_insertName_iff.mpr (Or.inl rfl))
            refine ⟨n :: listed, rfl, List.nodup_cons.mpr ⟨hn, hnodup⟩, ?_, ?_⟩
            · intro x hx hout
              rcases List.mem_cons.mp hx with rfl | hx
              · exact hnew (by simpa using hout)
              · exact hfresh x hx (mem_insertName_iff.mpr (Or.inr hout))
            · intro x
              rw [hmem, mem_insertName_iff, List.mem_cons]
              tauto
      | _ => cases h

theorem readNameList_ok {label key : Bytes} {j : Json} {names : Option (List Bytes)}
    (h : readNameList label key j = .ok names) :
    match j.find? key with
    | none => names = none
    | some v => ∃ ns, names = some ns ∧ Lists v ns := by
  unfold readNameList at h
  cases hfind : j.find? key with
  | none =>
      rw [hfind] at h
      cases h
      rfl
  | some v =>
      rw [hfind] at h
      cases v with
      | arr es =>
          obtain ⟨ns, hread, rfl⟩ := of_map_eq_ok h
          obtain ⟨listed, rfl, hnodup, -, hmem⟩ := readNames_ok hread
          exact ⟨ns, rfl, listed, rfl, hnodup, fun n => by simpa using hmem n⟩
      | _ => cases h

theorem readPolicy_means {label : Bytes} {j : Json} {p : NamePolicy}
    (h : readPolicy label j = .ok p) : PolicyMeans j p := by
  unfold readPolicy at h
  split at h
  · cases h
  · rename_i hobject
    obtain ⟨allow, hallow, h⟩ := of_bind_eq_ok h
    obtain ⟨deny, hdeny, h⟩ := of_bind_eq_ok h
    cases h
    have hallow := readNameList_ok hallow
    have hdeny := readNameList_ok hdeny
    refine ⟨by simpa using hobject, ?_, ?_⟩
    · split at hallow
      · rw [hallow]
        rfl
      · obtain ⟨ns, rfl, hlists⟩ := hallow
        exact ⟨rfl, hlists⟩
    · split at hdeny
      · rw [hdeny]
        rfl
      · obtain ⟨ns, rfl, hlists⟩ := hdeny
        exact hlists

theorem readModulePolicy_held {m : Json} {key name : Bytes} {p : NamePolicy}
    (h : readModulePolicy m key name = .ok p) : PolicyHeld (m.find? key) p := by
  unfold readModulePolicy at h
  cases hfind : m.find? key with
  | none =>
      rw [hfind] at h
      cases h
      rfl
  | some v =>
      rw [hfind] at h
      exact readPolicy_means h

theorem readModule_means {m : Json} {em : ExposedModule} (h : readModule m = .ok em) :
    EntryMeans m em := by
  unfold readModule at h
  split at h
  · cases h
    exact Or.inl ⟨rfl, rfl, rfl⟩
  · rename_i ms
    split at h
    · rename_i name hfind
      obtain ⟨methods, hmethods, h⟩ := of_bind_eq_ok h
      obtain ⟨events, hevents, h⟩ := of_bind_eq_ok h
      cases h
      exact Or.inr ⟨hfind, readModulePolicy_held hmethods, readModulePolicy_held hevents⟩
    · cases h
  · cases h

theorem readModules_means {lib : Nlohmann} {own : Bytes} {ms : List Json}
    {seen out : List ExposedModule} (h : readModules lib own ms seen = .ok out) :
    ∃ read, out = seen ++ read ∧ List.Forall₂ EntryMeans ms read := by
  induction ms generalizing seen with
  | nil =>
      cases h
      exact ⟨[], by simp, .nil⟩
  | cons m ms ih =>
      obtain ⟨em, hread, h⟩ := of_bind_eq_ok h
      cases hcheck : checkModule lib own seen em with
      | some err =>
          rw [hcheck] at h
          cases h
      | none =>
          rw [hcheck] at h
          obtain ⟨read, rfl, hmeans⟩ := ih h
          exact ⟨em :: read, by simp, .cons (readModule_means hread) hmeans⟩

/-! ## Sections

An accepted document has passed each section. What its values then mean is said section by
section, with what is still to be asked of the document. -/

variable {lib : Nlohmann} {own text : Bytes} {j : Json} {cfg : BridgeConfig}

/-- What an accepted configuration was put together from. -/
theorem parse_ok (hparse : lib.parse text = some j) (h : parseBridgeConfig lib own text = .ok cfg) :
    ∃ http limits modules mode ms, readHttp j = .ok http ∧ readAuth j = .ok mode ∧
      readExpose lib own j = .ok modules ∧ readLimits j = .ok limits ∧
      readRevalidate lib j = .ok ms ∧
      cfg = { host := http.host, port := http.port.toNat, allowedOrigins := http.allowedOrigins,
              authMode := mode, modules, limits, revalidateMs := ms } := by
  unfold parseBridgeConfig at h
  rw [hparse] at h
  dsimp only at h
  split at h
  · cases h
  · obtain ⟨http, hhttp, h⟩ := of_bind_eq_ok h
    obtain ⟨mode, hmode, h⟩ := of_bind_eq_ok h
    obtain ⟨modules, hmodules, h⟩ := of_bind_eq_ok h
    obtain ⟨limits, hlimits, h⟩ := of_bind_eq_ok h
    obtain ⟨ms, hms, h⟩ := of_bind_eq_ok h
    cases h
    exact ⟨http, limits, modules, mode, ms, hhttp, hmode, hmodules, hlimits, hms, rfl⟩

/-! ### `http` and `auth`

A value of a wrong type is an error, but for the port: `readInt` passes over a value that is no
integer. -/

theorem readOrigins_ok {os : List Json} {origins : List Bytes} (h : readOrigins os = .ok origins) :
    os = origins.map .str := by
  induction os generalizing origins with
  | nil =>
      cases h
      rfl
  | cons o os ih =>
      cases o with
      | str o =>
          obtain ⟨rest, hrest, rfl⟩ := of_map_eq_ok h
          rw [ih hrest]
          rfl
      | _ => cases h

/-- The members of `http`, as they were read. -/
structure HttpMeans (j : Json) (http : HttpSettings) : Prop where
  object : ∀ v, j.find? (str "http") = some v → v.isObject = true
  host : match j.at? (str "http") (str "host") with
    | none => http.host = str "127.0.0.1"
    | some v => v = .str http.host
  origins : match j.at? (str "http") (str "allowed_origins") with
    | none => http.allowedOrigins = []
    | some v => v = .arr (http.allowedOrigins.map .str)
  port : Holds (j.at? (str "http") (str "port")) http.port 8645 ↔
    FitsInt (j.at? (str "http") (str "port"))

theorem readHttp_means {http : HttpSettings} (h : readHttp j = .ok http) : HttpMeans j http := by
  unfold readHttp at h
  cases hfind : j.find? (str "http") with
  | none =>
      rw [hfind] at h
      obtain ⟨rfl, -⟩ := checkHttp_ok h
      have hnone : ∀ name, j.at? (str "http") name = none := fun name => by rw [Json.at?, hfind]; rfl
      refine ⟨by simp [hfind], ?_, ?_, ?_⟩
      · rw [hnone]
      · rw [hnone]
      · rw [hnone]
        exact ⟨fun _ w hw => (nomatch hw), fun _ => rfl⟩
  | some section_ =>
      rw [hfind] at h
      obtain ⟨read, hread, hcheck⟩ := of_bind_eq_ok h
      obtain ⟨rfl, -⟩ := checkHttp_ok hcheck
      have hat : ∀ name, j.at? (str "http") name = section_.find? name :=
        fun name => by rw [Json.at?, hfind]; rfl
      unfold readHttpMembers at hread
      split at hread
      · cases hread
      · rename_i hobject
        obtain ⟨host, hhost, hread⟩ := of_bind_eq_ok hread
        obtain ⟨origins, horigins, hread⟩ := of_bind_eq_ok hread
        cases hread
        refine ⟨?_, ?_, ?_, ?_⟩
        · intro v hv
          rw [hfind] at hv
          cases hv
          simpa using hobject
        · rw [hat]
          -- a host of the wrong type is refused, so that what is there was taken as it stands
          unfold readHost at hhost
          split at hhost <;> rename_i heq <;> rw [heq] <;> cases hhost <;> rfl
        · rw [hat]
          unfold readAllowedOrigins at horigins
          split at horigins <;> rename_i heq <;> rw [heq]
          · cases horigins
            rfl
          · rw [readOrigins_ok horigins]
          · cases horigins
        · rw [hat]
          exact holds_readInt_iff section_ (str "port") 8645

theorem readAuth_means {mode : AuthMode} (h : readAuth j = .ok mode) :
    (∀ v, j.find? (str "auth") = some v → v.isObject = true) ∧
    (match j.at? (str "auth") (str "mode") with
      | none => mode = .none
      | some v => v = .str (authModeName mode)) ∧
    j.at? (str "auth") (str "token") = none ∧ j.at? (str "auth") (str "token_file") = none := by
  unfold readAuth at h
  cases hfind : j.find? (str "auth") with
  | none =>
      rw [hfind] at h
      cases h
      have hnone : ∀ name, j.at? (str "auth") name = none := fun name => by rw [Json.at?, hfind]; rfl
      simp [hnone]
  | some section_ =>
      rw [hfind] at h
      have hat : ∀ name, j.at? (str "auth") name = section_.find? name :=
        fun name => by rw [Json.at?, hfind]; rfl
      simp only [hat]
      dsimp only at h
      split at h
      · cases h
      · rename_i hobject
        obtain ⟨read, hread, h⟩ := of_bind_eq_ok h
        split at h
        · cases h
        -- neither secret is present, or the document would have been refused here
        · rename_i hsecret
          cases h
          simp only [Bool.or_eq_true, not_or, Json.contains, Option.not_isSome_iff_eq_none]
            at hsecret
          refine ⟨?_, ?_, hsecret⟩
          · intro v hv
            cases hv
            simpa using hobject
          · unfold readAuthMode at hread
            split at hread <;> rename_i heq <;> rw [heq]
            · cases hread
              rfl
            · rename_i m
              split at hread
              · rename_i hm
                cases hread
                rw [eq_of_beq hm]
                rfl
              · split at hread
                · rename_i hm
                  cases hread
                  rw [eq_of_beq hm]
                  rfl
                · cases hread
            · cases hread

/-! ### `expose`, `limits` and `discovery`

The limits go through `readInt` too, and what it passes over or wraps is what `FitsInts` excludes. -/

theorem readExpose_means {modules : List ExposedModule} (h : readExpose lib own j = .ok modules) :
    (∀ v, j.find? (str "expose") = some v → v.isObject = true) ∧
    (∃ ms, j.at? (str "expose") (str "modules") = some (.arr ms) ∧
      List.Forall₂ EntryMeans ms modules) ∧ modules ≠ [] := by
  unfold readExpose at h
  split at h
  · rename_i ex hexpose
    split at h
    · rename_i ms hmodules
      obtain ⟨out, hread, h⟩ := of_bind_eq_ok h
      split at h <;> cases h
      rename_i hempty
      obtain ⟨read, hout, hmeans⟩ := readModules_means hread
      obtain rfl : modules = read := hout
      refine ⟨?_, ⟨ms, ?_, hmeans⟩, by simpa using hempty⟩
      · intro v hv
        rw [hexpose] at hv
        cases hv
        rfl
      · rw [Json.at?, hexpose]
        exact hmodules
    · cases h
  · cases h

/-- Every limit is positive, and each is held exactly when its value fits. -/
theorem readLimits_means_iff {limits : Limits} (h : readLimits j = .ok limits) :
    List.Forall₂ (fun (limit dflt : Bytes × Int) => 0 < limit.2 ∧
        Holds (j.at? (str "limits") limit.1) limit.2 dflt.2) limits.named ({} : Limits).named ↔
      ∀ p ∈ ({} : Limits).named, FitsInt (j.at? (str "limits") p.1) := by
  have hpositive := positive_readLimits h
  unfold readLimits at h
  cases hfind : j.find? (str "limits") with
  | none =>
      rw [hfind] at h
      cases h
      have hnone : ∀ name, j.at? (str "limits") name = none :=
        fun name => by rw [Json.at?, hfind]; rfl
      constructor
      · intro _ p _ w hw
        rw [hnone] at hw
        cases hw
      · intro _
        refine List.forall₂_same.mpr ?_
        intro p hp
        rw [hnone]
        exact ⟨hpositive p hp, rfl⟩
  | some section_ =>
      rw [hfind] at h
      have hat : ∀ name, j.at? (str "limits") name = section_.find? name :=
        fun name => by rw [Json.at?, hfind]; rfl
      dsimp only at h
      split at h
      · cases h
      · split at h <;> cases h
        simp only [Limits.named, readLimitMembers, List.forall_mem_cons] at hpositive
        simp only [Limits.named, readLimitMembers, List.forall₂_cons, List.forall_mem_cons, hat,
          holds_readInt_iff, hpositive, true_and, List.Forall₂.nil, List.not_mem_nil,
          false_imp_iff, implies_true, and_true]

theorem readRevalidate_means {ms : Nat} (h : readRevalidate lib j = .ok ms) :
    (∀ v, j.find? (str "discovery") = some v → v.isObject = true) ∧
    (ms = 0 ∨ 1000 ≤ ms) ∧ ms < 2 ^ 31 ∧
    Holds (j.at? (str "discovery") (str "revalidate_ms")) ms 10000 := by
  unfold readRevalidate at h
  cases hfind : j.find? (str "discovery") with
  | none =>
      rw [hfind] at h
      cases h
      have hnone : j.at? (str "discovery") (str "revalidate_ms") = none := by
        rw [Json.at?, hfind]
        rfl
      rw [hnone]
      exact ⟨nofun, by decide, by decide, rfl⟩
  | some section_ =>
      rw [hfind] at h
      have hat : j.at? (str "discovery") (str "revalidate_ms") =
          section_.find? (str "revalidate_ms") := by
        rw [Json.at?, hfind]
        rfl
      rw [hat]
      dsimp only at h
      split at h
      · cases h
      · rename_i hobject
        have hisObject : ∀ v, some section_ = some v → v.isObject = true := by
          intro v hv
          cases hv
          simpa using hobject
        split at h
        · rename_i heq
          rw [heq]
          cases h
          exact ⟨hisObject, by decide, by decide, rfl⟩
        · rename_i n heq
          rw [heq]
          split at h <;> cases h
          -- the code has checked the range, with which the number fits an `int`
          rename_i hrange
          have hmax : kIntMax = 2 ^ 31 - 1 := rfl
          exact ⟨hisObject, by omega, by omega, rfl⟩
        · cases h

/-! ## The whole

`WellMeant` speaks of the document alone. -/

/-- `m` is an entry of `expose.modules` with this name. -/
def Names (m : Json) (name : Bytes) : Prop := m = .str name ∨ m.find? (str "name") = some (.str name)

/-- The document keeps clear of what the checks do not see: integers that do not fit an `int`, a
host `127.` that no three octets follow, and blanks outside ASCII in the name of a module. -/
structure WellMeant (j : Json) : Prop where
  ints : FitsInts j
  host : ∀ host, j.at? (str "http") (str "host") = some (.str host) → Quad host
  names : ∀ ms, j.at? (str "expose") (str "modules") = some (.arr ms) →
    ∀ m ∈ ms, ∀ name, Names m name → PlainName name

theorem EntryMeans.names {m : Json} {em : ExposedModule} (h : EntryMeans m em) :
    Names m em.name := by
  rcases h with ⟨hm, -⟩ | ⟨hm, -⟩
  · exact .inl hm
  · exact .inr hm

/-- An entry has one name. -/
theorem Names.unique {m : Json} {a b : Bytes} (ha : Names m a) (hb : Names m b) : a = b := by
  rcases ha with rfl | ha <;> rcases hb with hb | hb
  · exact Json.str.inj hb
  · cases hb
  · rw [hb] at ha
    cases ha
  · exact Json.str.inj (Option.some.inj (ha.symm.trans hb))

/-! ### The condition, on the document

What was asked of the host and the names that were read is put in terms of the document that they
were read from. -/

/-- The default host is three octets after `127.`, and any other is the one that is given. -/
theorem quad_iff_told {http : HttpSettings} (h : HttpMeans j http) :
    Quad http.host ↔ ∀ host, j.at? (str "http") (str "host") = some (.str host) → Quad host := by
  have hhost := h.host
  split at hhost
  · rename_i hnone
    rw [hhost, hnone]
    constructor
    · intro _ host hsome
      cases hsome
    · intro _ rest heq
      have hdefault : str "127.0.0.1" =
          str "127." ++ (toStr (0 : Nat) ++ str "." ++ toStr (0 : Nat) ++ str "." ++ toStr (1 : Nat)) := by
        decide
      rw [hdefault] at heq
      exact ⟨0, 0, 1, by decide, by decide, by decide, (List.append_cancel_left heq).symm⟩
  · rename_i v hv
    rw [hv, hhost]
    constructor
    · intro hquad host hsame
      rwa [← Json.str.inj (Option.some.inj hsame)]
    · exact fun hquad => hquad _ rfl

/-- The names of the modules are those of the entries. -/
theorem plainNames_iff {ms : List Json} {modules : List ExposedModule}
    (h : List.Forall₂ EntryMeans ms modules) :
    (∀ em ∈ modules, PlainName em.name) ↔ ∀ m ∈ ms, ∀ name, Names m name → PlainName name := by
  induction h with
  | nil => simp
  | @cons m em ms modules hentry _ ih =>
      rw [List.forall_mem_cons, List.forall_mem_cons, ih]
      refine and_congr_left fun _ => ⟨?_, ?_⟩
      · intro hplain name hname
        rwa [hname.unique hentry.names]
      · exact fun hplain => hplain _ hentry.names

/-- **An accepted configuration means what its document says exactly when the document keeps clear
of what the checks do not see.** -/
theorem means_iff_wellMeant (hparse : lib.parse text = some j)
    (h : parseBridgeConfig lib own text = .ok cfg) : Means own j cfg ↔ WellMeant j := by
  have haccepted := accepted_of_parse h
  obtain ⟨http, limits, modules, mode, ms, hhttp, hmode, hmodules, hlimits, hms, rfl⟩ :=
    parse_ok hparse h
  obtain ⟨hloopback, hpos, hmax⟩ := readHttp_ok hhttp
  have hmeans := readHttp_means hhttp
  have hport : ((http.port.toNat : Nat) : Int) = http.port := Int.toNat_of_nonneg (by omega)
  obtain ⟨hexposeObject, ⟨entries, hlisted, hentries⟩, hnonempty⟩ := readExpose_means hmodules
  have hvisible : ∀ em ∈ modules, Visible em.name ↔ PlainName em.name := fun em hem =>
    visible_iff_plainName (haccepted.checked em hem) (haccepted.clean em hem).1
  constructor
  · intro hm
    constructor
    -- from the meaning to the document: only these three are not checked by the code
    case ints =>
      refine ⟨hmeans.port.mp ?_, (readLimits_means_iff hlimits).mp hm.limits⟩
      have hheld := hm.port.2.2
      rwa [hport] at hheld
    case host => exact (quad_iff_told hmeans).mp ((loopbackLiteral_iff_quad hloopback).mp hm.loopback)
    case names =>
      intro entries' hlisted'
      cases hlisted.symm.trans hlisted'
      refine (plainNames_iff hentries).mp fun em hem => ?_
      exact (hvisible em hem).mp (hm.names em hem).visible
  · rintro ⟨⟨hfits, hfitsLimits⟩, hquad, hplain⟩
    obtain ⟨hauthObject, hauth, hsecret⟩ := readAuth_means hmode
    obtain ⟨hdiscoveryObject, hdomain, hint, hheld⟩ := readRevalidate_means hms
    constructor
    -- and back: the checks give every other part of the meaning
    case objects =>
      have hlimitsObject : ∀ v, j.find? (str "limits") = some v → v.isObject = true := by
        intro v hv
        unfold readLimits at hlimits
        rw [hv] at hlimits
        dsimp only at hlimits
        split at hlimits
        · cases hlimits
        · rename_i hobject
          simpa using hobject
      simp only [List.forall_mem_cons, List.not_mem_nil, false_imp_iff, implies_true, and_true]
      exact ⟨hmeans.object, hauthObject, hexposeObject, hlimitsObject, hdiscoveryObject⟩
    case loopback =>
      exact (loopbackLiteral_iff_quad hloopback).mpr ((quad_iff_told hmeans).mpr hquad)
    case host => exact hmeans.host
    case port =>
      refine ⟨by show 1 ≤ http.port.toNat; omega, by show http.port.toNat ≤ 65535; omega, ?_⟩
      rw [hport]
      exact hmeans.port.mpr hfits
    case origins => exact hmeans.origins
    case mode => exact hauth
    case noSecret => exact hsecret
    case modules => exact ⟨entries, hlisted, hentries⟩
    case nonempty => exact hnonempty
    case names =>
      intro em hem
      have hne := haccepted.nonempty em hem
      have hplain := (plainNames_iff hentries).mpr (hplain entries hlisted) em hem
      refine ⟨hne, ne_rpc_of_checkModuleName (haccepted.checked em hem), ?_,
        (hvisible em hem).mpr hplain⟩
      rintro heq
      exact haccepted.notSelf (heq ▸ hne) em hem heq
    case distinct => exact haccepted.distinct
    case builtins => exact haccepted.builtins
    case limits => exact (readLimits_means_iff hlimits).mpr hfitsLimits
    case revalidate => exact ⟨hdomain, hint, hheld⟩

/-! ### Two documents

The first sets a key of each kind and keeps clear of the gaps. The second falls into one of them. -/

/-- `{"http":{"host":"127.0.0.2","port":8080},"expose":{"modules":["m1",{"name":"é"}]},
"limits":{"max_connections":7}}`. -/
def tunedText : Bytes :=
  str "\x7b\"http\":\x7b\"host\":\"127.0.0.2\",\"port\":8080\x7d,\"expose\":\x7b\"modules\":[\"m1\",\x7b\"name\":\"é\"\x7d]\x7d,\"limits\":\x7b\"max_connections\":7\x7d\x7d"

def tunedJson : Json :=
  Json.object [
    (str "http", Json.object [(str "host", .str (str "127.0.0.2")), (str "port", .uint 8080)]),
    (str "expose", Json.object [
      (str "modules", .arr [.str (str "m1"), Json.object [(str "name", .str (str "é"))]])]),
    (str "limits", Json.object [(str "max_connections", .uint 7)])]

def tunedLib : Nlohmann := .only tunedText tunedJson (by decide)

/-- A host of one's own in `127.0.0.0/8`, a port, a limit, and a name outside ASCII. -/
theorem means_iff_wellMeant_tuned : ∃ cfg,
    parseBridgeConfig tunedLib (str "json_rpc_bridge") tunedText = .ok cfg ∧
      Means (str "json_rpc_bridge") tunedJson cfg := by
  have hread : ∀ n : Nat, n < 2 ^ 31 → FitsInt (some (.uint n)) := by
    intro n hn w hw
    cases hw
    exact ⟨n, rfl, by omega, by omega⟩
  have hnone : FitsInt none := by
    intro w hw
    cases hw
  have hparse : tunedLib.parse tunedText = some tunedJson := Nlohmann.parse_only _ _ _
  obtain ⟨cfg, hcfg⟩ : ∃ cfg,
      parseBridgeConfig tunedLib (str "json_rpc_bridge") tunedText = .ok cfg := by
    unfold parseBridgeConfig
    rw [hparse]
    exact ⟨_, rfl⟩
  refine ⟨cfg, hcfg, (means_iff_wellMeant hparse hcfg).mpr ⟨⟨hread 8080 (by decide), ?_⟩, ?_, ?_⟩⟩
  · simp only [Limits.named, List.forall_mem_cons]
    exact ⟨hread 7 (by decide), hnone, hnone, hnone, hnone, hnone, hnone, hnone, hnone,
      fun _ hp => by cases hp⟩
  · intro host hhost rest hrest
    obtain rfl : str "127.0.0.2" = host := Json.str.inj (Option.some.inj hhost)
    have hoctets : str "127.0.0.2" =
        str "127." ++ (toStr (0 : Nat) ++ str "." ++ toStr (0 : Nat) ++ str "." ++ toStr (2 : Nat)) := by
      decide
    rw [hoctets] at hrest
    exact ⟨0, 0, 2, by decide, by decide, by decide, (List.append_cancel_left hrest).symm⟩
  · intro ms hms m hm name hname
    obtain rfl : [Json.str (str "m1"), Json.object [(str "name", .str (str "é"))]] = ms :=
      Json.arr.inj (Option.some.inj hms)
    rcases List.mem_pair.mp hm with rfl | rfl
    · obtain rfl : str "m1" = name := Names.unique (.inl rfl) hname
      exact plainName_str (by decide)
    · obtain rfl : str "é" = name := Names.unique (.inr rfl) hname
      exact plainName_str (by decide)

/-- The minimal configuration, with an `http.port` and a limit. -/
def portJson (port limit : Nat) : Json :=
  Json.object [(str "http", Json.object [(str "port", .uint port)]),
    (str "expose", Json.object [(str "modules", .arr [.str (str "m1")])]),
    (str "limits", Json.object [(str "max_connections", .uint limit)])]

/-- `{"http":{"port":4294975376},"expose":{"modules":["m1"]},"limits":{"max_connections":7}}`. -/
def farPortText : Bytes :=
  str "\x7b\"http\":\x7b\"port\":4294975376\x7d,\"expose\":\x7b\"modules\":[\"m1\"]\x7d,\"limits\":\x7b\"max_connections\":7\x7d\x7d"

def farPortLib : Nlohmann := .only farPortText (portJson 4294975376 7) (by decide)

/-- A port far outside 1..65535 is accepted as the port it has modulo 2^32. -/
theorem not_means_far_port : ∃ cfg,
    farPortLib.parse farPortText = some (portJson 4294975376 7) ∧
    parseBridgeConfig farPortLib (str "json_rpc_bridge") farPortText = .ok cfg ∧ cfg.port = 8080 ∧
    ¬Means (str "json_rpc_bridge") (portJson 4294975376 7) cfg := by
  refine ⟨_, rfl, rfl, rfl, ?_⟩
  intro hmeans
  have hheld : (Json.uint 4294975376).integer? = some 8080 := hmeans.port.2.2
  exact absurd hheld (by decide)

end JsonRpcBridge
