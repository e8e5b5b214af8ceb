import JsonRpcBridge.Config.Parse
import JsonRpcBridge.Discovery.Advertised
import JsonRpcBridge.Docs.Publisher

/-!
# Clean views

Every text of a view comes from the configuration, from upstream's answers or from the contract
reader. `clean_of_run`: while these hold well-formed UTF-8, so does every view discovery ever
stores. `clean_describeView` and `clean_openrpc` are what the views are turned into.
-/

namespace JsonRpcBridge

/-! ## What is clean

One predicate for each record that a text of upstream can get into. -/

structure LiveMember.Clean (m : LiveMember) : Prop where
  name : Utf8 m.name
  params : ∀ p ∈ m.params, Utf8 p

structure LiveReport.Clean (r : LiveReport) : Prop where
  methods : ∀ m ∈ r.methods, m.Clean
  events : ∀ e ∈ r.events, e.Clean

structure ContractMethod.Clean (m : ContractMethod) : Prop where
  name : Utf8 m.name
  params : ∀ p ∈ m.params, Utf8 p.name

structure ContractEvent.Clean (e : ContractEvent) : Prop where
  name : Utf8 e.name
  params : ∀ p ∈ e.params, Utf8 p.name

structure ContractResult.Clean (c : ContractResult) : Prop where
  error : Utf8 c.error
  warnings : ∀ w ∈ c.warnings, Utf8 w
  lint : ∀ l ∈ c.lint, Utf8 l
  version : Utf8 c.contractVersion
  methods : ∀ m ∈ c.methods, m.Clean
  events : ∀ e ∈ c.events, e.Clean

/-- The reader's output holds well-formed UTF-8. -/
structure ContractReader.Clean (reader : ContractReader) : Prop where
  contract : ∀ text m, (reader.readContract text m).Clean
  rev : Utf8 reader.lidlReaderRev

structure TypedContract.Clean (c : TypedContract) : Prop where
  version : Utf8 c.version
  methods : ∀ m ∈ c.methods, m.Clean
  events : ∀ e ∈ c.events, e.Clean
  warnings : ∀ w ∈ c.warnings, Utf8 w
  lint : ∀ l ∈ c.lint, Utf8 l
  interface : c.interface.Clean
  interfaceSha256 : Utf8 c.interfaceSha256

structure Finding.Clean (f : Finding) : Prop where
  severity : Utf8 f.severity
  code : Utf8 f.code
  member : Utf8 f.member
  detail : Utf8 f.detail

structure Exposure.Clean (x : Exposure) : Prop where
  methods : ∀ n ∈ x.methods, Utf8 n
  events : ∀ n ∈ x.events, Utf8 n

/-- A view, up to the name of its module. -/
structure ModuleView.Clean (v : ModuleView) : Prop where
  live : v.live.Clean
  contract : ∀ c, v.contract = some c → c.Clean
  interfaceError : Utf8 v.interfaceError
  contractSha256 : Utf8 v.contractSha256
  interfaceSha256 : Utf8 v.interfaceSha256
  crossCheck : ∀ f ∈ v.crossCheck.findings, f.Clean
  exposure : v.exposure.Clean

/-! ## Live reports

A member is read from an entry, and strings of a clean value are well-formed. -/

section

variable {lib : Nlohmann} {entry iface : Json} {live : LiveReport} {c : TypedContract}
  {view : ModuleView}

theorem LiveReport.clean_empty (sha : Bytes) : LiveReport.Clean { sha256 := sha } :=
  ⟨fun _ h => (List.not_mem_nil h).elim, fun _ h => (List.not_mem_nil h).elim⟩

theorem utf8_liveParamName (h : entry.Clean) : Utf8 (liveParamName entry) := by
  unfold liveParamName
  split
  · rename_i hfind
    exact Json.clean_str_iff.mp (h.find? hfind)
  · exact utf8_nil

theorem clean_liveMember {m : LiveMember} (h : entry.Clean) (hm : liveMember? entry = some m) :
    m.Clean := by
  unfold liveMember? at hm
  split at hm
  · rename_i name hname
    cases hm
    refine ⟨Json.clean_str_iff.mp (h.find? hname), ?_⟩
    split
    · rename_i ps hps
      intro p hp
      obtain ⟨p', hp', rfl⟩ := List.mem_map.mp hp
      exact utf8_liveParamName (Json.clean_arr_iff.mp (h.find? hps) p' hp')
    · exact fun p hp => nomatch hp
  · cases hm

theorem LiveReport.Clean.addEntry (hlive : live.Clean) (h : entry.Clean) :
    (live.addEntry entry).Clean := by
  unfold LiveReport.addEntry
  split
  · exact hlive
  · rename_i m hm
    have hclean := clean_liveMember h hm
    split
    · refine ⟨hlive.methods, fun e he => ?_⟩
      rcases List.mem_append.mp he with he | he
      · exact hlive.events e he
      · exact List.mem_singleton.mp he ▸ hclean
    · refine ⟨fun e he => ?_, hlive.events⟩
      rcases List.mem_append.mp he with he | he
      · exact hlive.methods e he
      · exact List.mem_singleton.mp he ▸ hclean

/-- The report of a clean answer is clean. -/
theorem clean_parseLiveReport (h : iface.Clean) (hparse : parseLiveReport lib iface = some live) :
    live.Clean := by
  unfold parseLiveReport at hparse
  split at hparse
  · rename_i entries
    cases hparse
    have hentries := Json.clean_arr_iff.mp h
    generalize liveReportDigest lib (.arr entries) = sha
    have hstart := LiveReport.clean_empty sha
    generalize ({ sha256 := sha } : LiveReport) = start at hstart
    clear h
    induction entries generalizing start with
    | nil => exact hstart
    | cons entry entries ih =>
        exact ih (fun x hx => hentries x (List.mem_cons_of_mem _ hx)) _
          (hstart.addEntry (hentries entry (List.mem_cons_self ..)))
  · cases hparse

/-! ## Contracts

A contract is clean because its reader returns clean text, and its digests and errors are texts
of the bridge. -/

theorem clean_typedContract {r : ContractResult} (h : r.Clean)
    (htyped : typedContract lib r = some c) : c.Clean := by
  unfold typedContract at htyped
  split at htyped
  · cases htyped
  · rename_i interface hparse
    split at htyped
    · cases htyped
    · split at htyped
      · cases htyped
      · rename_i digest hdigest
        cases htyped
        obtain ⟨text, -, rfl⟩ := of_map_eq_ok hdigest
        exact ⟨h.version, h.methods, h.events, h.warnings, h.lint, lib.parse_clean hparse,
          utf8_sha256Hex text⟩

theorem utf8_contractErrorText {r : ContractResult} (h : r.Clean) {rev : Bytes} (hrev : Utf8 rev) :
    Utf8 (contractErrorText r rev) := by
  have hloc : Utf8 (if r.errorLine > 0 then
      toStr r.errorLine ++ str ":" ++ toStr r.errorCol ++ str ": " else []) := by
    split
    · exact (((utf8_toStr _).append (utf8_str _)).append (utf8_toStr _)).append (utf8_str _)
    · exact utf8_nil
  exact (((hloc.append h.error).append (utf8_str _)).append hrev).append (utf8_str _)

/-! ## The cross-check

Findings quote names, in texts that the bridge puts around them. -/

theorem utf8_joinWith {sep : Bytes} (hsep : Utf8 sep) :
    ∀ {names : List Bytes}, (∀ n ∈ names, Utf8 n) → Utf8 (joinWith sep names)
  | [], _ => utf8_nil
  | [n], h => h n (List.mem_singleton_self n)
  | n :: _ :: _, h =>
    ((h n (List.mem_cons_self ..)).append hsep).append
      (utf8_joinWith hsep fun x hx => h x (List.mem_cons_of_mem _ hx))

theorem utf8_namesOf {names : List Bytes} (h : ∀ n ∈ names, Utf8 n) : Utf8 (namesOf names) :=
  ((utf8_str _).append (utf8_joinWith (utf8_str _) h)).append (utf8_str _)

/-! ### Findings -/

theorem clean_checkMember {kind name : Bytes} {declared : List ContractParam}
    {entries : List LiveMember} (hkind : Utf8 kind) (hname : Utf8 name)
    (hdeclared : ∀ p ∈ declared, Utf8 p.name) (hlive : ∀ m ∈ entries, m.Clean) :
    ∀ f ∈ checkMember kind name declared entries, f.Clean := by
  have hnames : ∀ n ∈ paramNames declared, Utf8 n := by
    intro n hn
    obtain ⟨p, hp, rfl⟩ := List.mem_map.mp hn
    exact hdeclared p hp
  unfold checkMember
  dsimp only
  split
  · intro f hf
    rw [List.mem_singleton.mp hf]
    have harities : Utf8 (joinWith (str "/") (entries.map fun m => toStr m.params.length)) := by
      apply utf8_joinWith (utf8_str _)
      intro n hn
      obtain ⟨m, -, rfl⟩ := List.mem_map.mp hn
      exact utf8_toStr _
    exact ⟨utf8_str _, hkind.append (utf8_str _), hname,
      (((utf8_str _).append (utf8_toStr _)).append (utf8_str _)).append harities⟩
  · rename_i sameArity hfind
    have hparams := (hlive _ (List.mem_of_find?_eq_some hfind)).params
    split
    · intro f hf
      rw [List.mem_singleton.mp hf]
      exact ⟨utf8_str _, utf8_str _, hname,
        (((utf8_str _).append (utf8_namesOf hnames)).append (utf8_str _)).append
          (utf8_namesOf hparams)⟩
    · exact fun f hf => nomatch hf

theorem clean_liveEntries {entries : List LiveMember} (h : ∀ m ∈ entries, m.Clean) (name : Bytes) :
    ∀ m ∈ liveEntries entries name, m.Clean :=
  fun m hm => h m (List.mem_filter.mp hm).1

theorem clean_checkMethod {m : ContractMethod} (hm : m.Clean) (hlive : live.Clean) :
    ∀ f ∈ checkMethod live m, f.Clean := by
  unfold checkMethod
  dsimp only
  split
  · split
    · intro f hf
      rw [List.mem_singleton.mp hf]
      exact ⟨utf8_str _, utf8_str _, hm.name, utf8_str _⟩
    · intro f hf
      rw [List.mem_singleton.mp hf]
      exact ⟨utf8_str _, utf8_str _, hm.name, utf8_str _⟩
  · exact clean_checkMember (utf8_str _) hm.name hm.params (clean_liveEntries hlive.methods _)

theorem clean_checkEvent {e : ContractEvent} (he : e.Clean) (hlive : live.Clean) :
    ∀ f ∈ checkEvent live e, f.Clean := by
  unfold checkEvent
  dsimp only
  split
  · intro f hf
    rw [List.mem_singleton.mp hf]
    exact ⟨utf8_str _, utf8_str _, he.name, utf8_str _⟩
  · exact clean_checkMember (utf8_str _) he.name he.params (clean_liveEntries hlive.events _)

theorem utf8_undeclaredMethods (hlive : live.Clean) : ∀ n ∈ undeclaredMethods c live, Utf8 n := by
  have hfold : ∀ (ms : List LiveMember) (out : List Bytes), (∀ m ∈ ms, m.Clean) →
      (∀ n ∈ out, Utf8 n) → ∀ n ∈ ms.foldl (fun out m =>
        if (c.method m.name).isSome || isReservedIntrospection m.name then out
        else addOnce out m.name) out, Utf8 n := by
    intro ms
    induction ms with
    | nil => exact fun out _ hout => hout
    | cons m ms ih =>
        intro out hms hout
        refine ih _ (fun x hx => hms x (List.mem_cons_of_mem _ hx)) fun n hn => ?_
        dsimp only at hn
        split at hn
        · exact hout n hn
        · rcases mem_addOnce.mp hn with hn | rfl
          · exact hout n hn
          · exact (hms m (List.mem_cons_self ..)).name
  exact hfold _ _ hlive.methods fun n hn => nomatch hn

theorem clean_checkEvents (hc : c.Clean) (hlive : live.Clean) :
    ∀ f ∈ checkEvents c live, f.Clean := by
  unfold checkEvents
  split
  · intro f hf
    rcases List.mem_append.mp hf with hf | hf
    · obtain ⟨e, he, hf⟩ := List.mem_flatMap.mp hf
      exact clean_checkEvent (hc.events e he) hlive f hf
    · obtain ⟨e, he, rfl⟩ := List.mem_map.mp hf
      exact ⟨utf8_str _, utf8_str _, (hlive.events e (List.mem_filter.mp he).1).name, utf8_str _⟩
  · split
    · intro f hf
      rw [List.mem_singleton.mp hf]
      exact ⟨utf8_str _, utf8_str _, utf8_nil, utf8_str _⟩
    · exact fun f hf => nomatch hf

theorem clean_readerWarning {w : Bytes} (h : Utf8 w) : (readerWarning w).Clean := by
  unfold readerWarning
  split
  · exact ⟨utf8_str _, utf8_str _, utf8_nil, utf8_str _⟩
  · exact ⟨utf8_str _, h, utf8_nil, utf8_nil⟩

theorem clean_checkVersion {runtime : Option Bytes} (hc : c.Clean)
    (hruntime : ∀ v ∈ runtime, Utf8 v) : ∀ f ∈ checkVersion c runtime, f.Clean := by
  unfold checkVersion
  split
  · intro f hf
    rw [List.mem_singleton.mp hf]
    exact ⟨utf8_str _, utf8_str _, utf8_str _, utf8_str _⟩
  · split
    · intro f hf
      rw [List.mem_singleton.mp hf]
      exact ⟨utf8_str _, utf8_str _, utf8_str _,
        (((utf8_str _).append hc.version).append (utf8_str _)).append (hruntime _ rfl)⟩
    · exact fun f hf => nomatch hf

theorem clean_crossCheck {runtime : Option Bytes} (hc : c.Clean) (hlive : live.Clean)
    (hruntime : ∀ v ∈ runtime, Utf8 v) : ∀ f ∈ (crossCheck c live runtime).findings, f.Clean := by
  intro f hf
  simp only [crossCheck, List.mem_append] at hf
  rcases hf with ((((hf | hf) | hf) | hf) | hf) | hf
  · obtain ⟨m, hm, hf⟩ := List.mem_flatMap.mp hf
    exact clean_checkMethod (hc.methods m hm) hlive f hf
  · obtain ⟨n, hn, rfl⟩ := List.mem_map.mp hf
    exact ⟨utf8_str _, utf8_str _, utf8_undeclaredMethods hlive n hn, utf8_str _⟩
  · exact clean_checkEvents hc hlive f hf
  · obtain ⟨w, hw, rfl⟩ := List.mem_map.mp hf
    exact clean_readerWarning (hc.warnings w hw)
  · obtain ⟨l, hl, rfl⟩ := List.mem_map.mp hf
    exact ⟨utf8_str _, utf8_str _, utf8_nil, hc.lint l hl⟩
  · exact clean_checkVersion hc hruntime f hf

/-! ## Exposures

The names of an exposure are names of the configuration or of a member. -/

/-- A filtered `addOnce` loop keeps to the names it walks. -/
theorem utf8_foldl_addOnce {p : Bytes → Bool} {names out : List Bytes} (hout : ∀ n ∈ out, Utf8 n)
    (hnames : ∀ n ∈ names, Utf8 n) :
    ∀ n ∈ names.foldl (fun out m => if p m then addOnce out m else out) out, Utf8 n := by
  intro n hn
  rcases mem_foldl_addOnce.mp hn with hn | ⟨hn, -⟩
  · exact hout n hn
  · exact hnames n hn

theorem clean_exposeDeclared (em : ExposedModule) {methods events : List Bytes}
    (hm : ∀ n ∈ methods, Utf8 n) (he : ∀ n ∈ events, Utf8 n) :
    (exposeDeclared em methods events).Clean where
  methods := fun n hn => hm n (mem_exposeDeclared_methods.mp hn).1
  events := utf8_foldl_addOnce (fun _ h => (List.not_mem_nil h).elim) he

/-- An allow list may stand in for the live events. -/
theorem clean_exposeLive {em : ExposedModule} (hem : em.events.Clean) {methods events : List Bytes}
    (declared : Bool) (hm : ∀ n ∈ methods, Utf8 n) (he : ∀ n ∈ events, Utf8 n) :
    (exposeLive em methods events declared).Clean := by
  have hdeclared := clean_exposeDeclared em hm he
  unfold exposeLive
  dsimp only
  split
  · exact ⟨hdeclared.methods, utf8_foldl_addOnce hdeclared.events hem.1⟩
  · exact hdeclared

theorem ModuleView.Clean.typed (h : view.Clean) (hc : view.typed? = some c) : c.Clean := by
  unfold ModuleView.typed? at hc
  split at hc
  · exact h.contract c hc
  · cases hc

theorem clean_exposureOf {em : ExposedModule} (hem : em.events.Clean) (h : view.Clean) :
    (exposureOf em view).Clean := by
  unfold exposureOf
  split
  · rename_i c hc
    have hclean := h.typed hc
    apply clean_exposeDeclared
    · intro n hn
      obtain ⟨m, hm, rfl⟩ := List.mem_map.mp hn
      exact (hclean.methods m hm).name
    · intro n hn
      obtain ⟨e, he, rfl⟩ := List.mem_map.mp hn
      exact (hclean.events e he).name
  · split
    · exact ⟨fun _ h => (List.not_mem_nil h).elim, fun _ h => (List.not_mem_nil h).elim⟩
    · apply clean_exposeLive hem
      · intro n hn
        obtain ⟨m, hm, rfl⟩ := List.mem_map.mp hn
        exact (h.live.methods m hm).name
      · intro n hn
        obtain ⟨e, he, rfl⟩ := List.mem_map.mp hn
        exact (h.live.events e he).name

/-! ## Views

Each of the constructors, and the two changes made to a view afterwards. -/

theorem clean_pendingView (m : Bytes) : (pendingView m).Clean where
  live := LiveReport.clean_empty []
  contract := fun _ hc => nomatch hc
  interfaceError := utf8_nil
  contractSha256 := utf8_nil
  interfaceSha256 := utf8_nil
  crossCheck := fun _ hf => (List.not_mem_nil hf).elim
  exposure := ⟨fun _ h => (List.not_mem_nil h).elim, fun _ h => (List.not_mem_nil h).elim⟩

theorem clean_untypedView (prev : ModuleView) (h : live.Clean) : (untypedView prev live).Clean where
  live := h
  contract := fun _ hc => nomatch hc
  interfaceError := utf8_nil
  contractSha256 := utf8_nil
  interfaceSha256 := utf8_nil
  crossCheck := fun _ hf => (List.not_mem_nil hf).elim
  exposure := (clean_pendingView []).exposure

theorem clean_invalidView (prev : ModuleView) (h : live.Clean) {error : Bytes} (he : Utf8 error) :
    (invalidView prev live error).Clean :=
  { clean_untypedView prev h with live := h, interfaceError := he }

theorem clean_okView (prev : ModuleView) (h : live.Clean) (hc : c.Clean) :
    (okView prev live c).Clean where
  live := h
  contract := fun _ hc' => Option.some.inj hc' ▸ hc
  interfaceError := utf8_nil
  contractSha256 := utf8_nil
  interfaceSha256 := hc.interfaceSha256
  crossCheck := fun _ hf => (List.not_mem_nil hf).elim
  exposure := (clean_pendingView []).exposure

theorem clean_checkedView (prev : ModuleView) (h : live.Clean) (hc : c.Clean)
    {runtime : Option Bytes} (hr : ∀ v ∈ runtime, Utf8 v) {sha : Bytes} (hsha : Utf8 sha) :
    (checkedView prev live c runtime sha).Clean := by
  have hview : (if (crossCheck c live runtime).hasErrors then
      invalidView prev live kInconsistentContract else okView prev live c).Clean := by
    split
    · exact clean_invalidView prev h (utf8_str _)
    · exact clean_okView prev h hc
  exact ⟨hview.live, hview.contract, hview.interfaceError, hsha, hview.interfaceSha256,
    clean_crossCheck hc h hr, hview.exposure⟩

theorem ModuleView.Clean.stale (h : view.Clean) : (staleView view).Clean :=
  ⟨h.live, h.contract, h.interfaceError, h.contractSha256, h.interfaceSha256, h.crossCheck,
    h.exposure⟩

theorem ModuleView.Clean.withExposure {em : ExposedModule} (hem : em.events.Clean)
    (h : view.Clean) : (withExposure em view).Clean :=
  ⟨h.live, h.contract, h.interfaceError, h.contractSha256, h.interfaceSha256, h.crossCheck,
    clean_exposureOf hem h⟩

/-! ## Views as JSON

The texts of the bridge itself are ASCII, so the members that it adds are clean. -/

theorem Finding.Clean.toJson {f : Finding} (h : f.Clean) : f.toJson.Clean := by
  have hbase : (Json.object [(str "severity", .str f.severity), (str "code", .str f.code),
      (str "detail", .str f.detail)]).Clean :=
    Json.clean_object (by simp [utf8_str, h.severity, h.code, h.detail])
  unfold Finding.toJson
  dsimp only
  split
  · exact hbase
  · exact hbase.set (utf8_str _) (Json.clean_str_iff.mpr h.member)

theorem clean_crossCheck_toJson {cc : CrossCheck} (h : ∀ f ∈ cc.findings, f.Clean) :
    cc.toJson.Clean := by
  have hstate : Utf8 cc.state := by
    unfold CrossCheck.state
    split_ifs <;> exact utf8_str _
  have hfindings : (Json.arr (cc.findings.map Finding.toJson)).Clean := by
    apply Json.clean_arr_iff.mpr
    intro x hx
    obtain ⟨f, hf, rfl⟩ := List.mem_map.mp hx
    exact (h f hf).toJson
  exact Json.clean_object (by simp [utf8_str, hstate, hfindings])

theorem Exposure.Clean.toJson {x : Exposure} (h : x.Clean) : x.toJson.Clean :=
  Json.clean_object (by
    simp [utf8_str, Docs.clean_namesJson h.methods, Docs.clean_namesJson h.events])

/-- What `rpc.schema` says of a clean view is clean. -/
theorem clean_describeView (em : ExposedModule) (hm : Utf8 view.module) (h : view.Clean)
    (withInterface : Bool) : (describeView em view withInterface).Clean := by
  have hmethods : (namesJson ((view.live.methods.filter fun m =>
      em.methodAllowed m.name).map (·.name))).Clean := by
    apply Docs.clean_namesJson
    intro n hn
    obtain ⟨m, hm, rfl⟩ := List.mem_map.mp hn
    exact (h.live.methods m (List.mem_filter.mp hm).1).name
  have hevents : (namesJson ((view.live.events.filter fun e =>
      em.events.permits e.name).map (·.name))).Clean := by
    apply Docs.clean_namesJson
    intro n hn
    obtain ⟨e, he, rfl⟩ := List.mem_map.mp hn
    exact (h.live.events e (List.mem_filter.mp he).1).name
  have hsource : Utf8 (if view.typed?.isSome then str "lidl" else str "getPluginInterface") := by
    split <;> exact utf8_str _
  have hstatus : Utf8 (interfaceStatusName view.status) := by
    cases view.status <;> exact utf8_str _
  have hcheck : (if view.crossChecked then view.crossCheck.toJson else .null).Clean := by
    split
    · exact clean_crossCheck_toJson h.crossCheck
    · exact Json.clean_null
  have hbase : (Json.object [
      (str "module", .str view.module), (str "resolved", .bool view.resolved),
      (str "events_declared", .bool view.live.eventsDeclared), (str "methods", namesJson _),
      (str "events", namesJson _), (str "source", .str _), (str "authoritative", .bool false),
      (str "interface_status", .str (interfaceStatusName view.status)),
      (str "stale", .bool view.stale), (str "exposure", view.exposure.toJson),
      (str "interface_sha256", .null), (str "contract_sha256", .null),
      (str "cross_check", _)]).Clean :=
    Json.clean_object (by
      simpa [utf8_str, hm, hstatus, h.exposure.toJson] using ⟨hmethods, hevents, hsource, hcheck⟩)
  have hite : ∀ {c : Prop} [Decidable c] {x y : Json}, x.Clean → y.Clean →
      (if c then x else y).Clean := by
    intro c _ x y hx hy
    split
    · exact hx
    · exact hy
  -- the optional members, set one after the other
  unfold describeView
  extract_lets _ _ d d₁ d₂ d₃
  have h₁ : d₁.Clean :=
    hite hbase (Json.Clean.set hbase (utf8_str _) (Json.clean_str_iff.mpr h.interfaceSha256))
  have h₂ : d₂.Clean :=
    hite h₁ (h₁.set (utf8_str _) (Json.clean_str_iff.mpr h.contractSha256))
  have h₃ : d₃.Clean := by
    simp only [d₃]
    split
    · rename_i c hc
      exact hite (h₂.set (utf8_str _) (h.typed hc).interface) h₂
    · exact h₂
  exact hite (h₃.set (utf8_str _) (Json.clean_str_iff.mpr h.interfaceError)) h₃

end

namespace Discovery

open Interleaving

variable {cfg : BridgeConfig} {lib : Nlohmann} {reader : ContractReader}

/-! ## What discovery holds

Between two sections a text may be on its way: in an answer, or in what an earlier stage made of
one. The invariant is that nothing pending and nothing stored is unclean. -/

/-- What an earlier answer gave a stage. -/
def Stage.Clean : Stage → Prop
  | .interface => True
  | .contract live _ => live.Clean
  | .version live typed sha _ _ => live.Clean ∧ typed.Clean ∧ Utf8 sha

def Answer.Clean (a : Answer) : Prop := a.outcome.value.Clean

def Section.Clean : Section → Prop
  | .invoke _ _ stage | .await _ stage => stage.Clean
  | .resume a stage | .proceed _ _ stage a => a.Clean ∧ stage.Clean
  | .publish _ _ next _ _ => next.Clean
  | .revalidated a | .restart a => a.Clean
  | _ => True

/-- The values upstream answers with hold well-formed UTF-8. -/
def cleanAnswers : Guard Shared Section CallOutcome Entry where
  run _ _ _ r := r.value.Clean
  enter _ _ _ := True

theorem Section.clean_of_load_none {x : Section} (h : x.load? = none) : x.Clean := by
  cases x <;> trivial

theorem utf8_lidlText {callOk : Bool} {value : Json} (h : value.Clean) :
    Utf8 (lidlText callOk value).error := by
  unfold lidlText
  split
  · exact utf8_str _
  · split
    · split
      · exact utf8_str _
      · split
        · exact utf8_str _
        · exact utf8_nil
    · exact utf8_str _

theorem utf8_runtimeVersion {callOk : Bool} {value : Json} (h : value.Clean) :
    ∀ v ∈ runtimeVersion callOk value, Utf8 v := by
  intro v hv
  unfold runtimeVersion at hv
  split at hv
  · split at hv
    · cases hv
      exact Json.clean_str_iff.mp h
    · cases hv
  · cases hv

/-- A continuation of a clean answer leaves what is clean. -/
theorem clean_of_mem_proceed (hreader : reader.Clean) {sh : Shared} {m : Bytes} {n : Nat}
    {stage : Stage} {a : Answer} {x : Section} (ha : a.Clean) (hstage : stage.Clean)
    (hx : x ∈ proceed lib reader sh m n stage a) : x.Clean := by
  cases stage with
  | interface =>
      simp only [proceed, onInterface] at hx
      split at hx
      · rw [List.mem_singleton.mp hx]
        trivial
      · rename_i live hlive
        have hclean : live.Clean := by
          split at hlive
          · exact clean_parseLiveReport ha hlive
          · cases hlive
        split at hx <;> rw [List.mem_singleton.mp hx]
        · exact clean_untypedView _ hclean
        · exact hclean
  | contract live report =>
      have hresult := hreader.contract (lidlText a.outcome.ok a.outcome.value).text m
      simp only [proceed, onContract] at hx
      split at hx
      · rw [List.mem_singleton.mp hx]
        exact clean_invalidView _ hstage (utf8_lidlText ha)
      · split at hx
        · rw [List.mem_singleton.mp hx]
          have hinvalid := clean_invalidView (sh.viewOf m) hstage
            (utf8_contractErrorText hresult hreader.rev)
          exact ⟨hinvalid.live, hinvalid.contract, hinvalid.interfaceError, utf8_sha256Hex _,
            hinvalid.interfaceSha256, hinvalid.crossCheck, hinvalid.exposure⟩
        · split at hx <;> rw [List.mem_singleton.mp hx]
          · have hinvalid := clean_invalidView (sh.viewOf m) hstage
              (utf8_str "the contract could not be served")
            exact ⟨hinvalid.live, hinvalid.contract, hinvalid.interfaceError, utf8_sha256Hex _,
              hinvalid.interfaceSha256, hinvalid.crossCheck, hinvalid.exposure⟩
          · rename_i typed htyped
            exact ⟨hstage, clean_typedContract hresult htyped, utf8_sha256Hex _⟩
  | version live typed sha report text =>
      rw [List.mem_singleton.mp hx]
      exact clean_checkedView _ hstage.1 hstage.2.1 (utf8_runtimeVersion ha) hstage.2.2

/-- **Step.** What a clean section leaves to be done is clean, given a clean answer. -/
theorem exec_clean (hreader : reader.Clean) {sh : Shared} {x : Section} {r : CallOutcome}
    {e : Effect Shared Section} (hx : x.Clean) (hr : r.value.Clean)
    (h : exec cfg lib reader sh x r = some e) : ∀ y ∈ e.made, y.Clean := by
  intro y hy
  cases exec_leaves h hy with
  | idle hnone => exact Section.clean_of_load_none hnone
  | begins _ => trivial
  | issues => exact hx
  | answers => exact ⟨hr, hx⟩
  | resumes => exact hx
  | proceeds hmem => exact clean_of_mem_proceed hreader hx.1 hx.2 hmem
  | checks _ => trivial
  | reads => trivial
  | rereads => exact hr
  | differs => exact hx
  | restarts _ _ _ _ _ => exact ⟨hx, trivial⟩

/-- The invariant: every stored view is clean, and so is what discovery still holds. -/
structure CleanViews (sh : Shared) (p : Multiset Section) : Prop where
  views : ∀ m s, sh.slots m = some s → s.view.Clean
  sections : ∀ x ∈ p, x.Clean

/-- The policies of the exposed modules hold well-formed UTF-8. -/
def CleanPolicies (cfg : BridgeConfig) : Prop := ∀ em ∈ cfg.modules, em.events.Clean

theorem clean_exposed (hcfg : CleanPolicies cfg) {m : Bytes} {next : ModuleView} (h : next.Clean) :
    (exposed cfg m next).Clean := by
  unfold exposed
  split
  · rename_i em hfind
    exact h.withExposure (hcfg em (BridgeConfig.find_mem hfind).1)
  · exact h

/-- **Step.** -/
theorem CleanViews.step (hcfg : CleanPolicies cfg) (hreader : reader.Clean) {sh : Shared}
    {x : Section} {r : CallOutcome} {e : Effect Shared Section} {others : Multiset Section}
    (h : CleanViews sh (x ::ₘ others)) (hr : r.value.Clean)
    (hexec : exec cfg lib reader sh x r = some e) : CleanViews e.shared (e.made + others) := by
  have hx := h.sections x (Multiset.mem_cons_self _ _)
  refine ⟨?_, Effect.forall_made (exec_clean hreader hx hr hexec)
    fun y hy => h.sections y (Multiset.mem_cons_of_mem hy)⟩
  intro m s' hs'
  by_cases hpublish : ∃ m n next retry src, x = .publish m n next retry src
  · obtain ⟨k, n, next, retry, src, rfl⟩ := hpublish
    simp only [exec] at hexec
    split at hexec
    · cases hexec
      exact h.views m s' hs'
    · split at hexec <;> cases hexec
      · simp only [Shared.slots_put] at hs'
        by_cases hm : m = k
        · rw [if_pos hm] at hs'
          cases hs'
          have hview := clean_exposed (m := k) hcfg hx
          exact ⟨hview.live, hview.contract, hview.interfaceError, hview.contractSha256,
            hview.interfaceSha256, hview.crossCheck, hview.exposure⟩
        · rw [if_neg hm] at hs'
          exact h.views m s' hs'
      · exact h.views m s' hs'
  · have hne : ∀ m n next retry src, x ≠ .publish m n next retry src :=
      fun m n next retry src hx => hpublish ⟨m, n, next, retry, src, hx⟩
    obtain ⟨s, hs, hview⟩ := exec_keepsViews hne hexec m s' hs'
    rcases hview with hview | hview <;> rw [hview]
    · exact h.views m s hs
    · exact (h.views m s hs).stale

theorem cleanViews_start : CleanViews (start cfg).shared (start cfg).pending := by
  constructor
  · intro m s hs
    have hslot : initialSlots cfg m = some s := by simpa [start] using hs
    obtain ⟨em, -, rfl⟩ := Option.map_eq_some_iff.mp hslot
    exact clean_pendingView em.name
  · intro x hx
    obtain ⟨em, -, rfl⟩ : ∃ em ∈ cfg.modules, x = .refresh em.name := by
      simpa [start, State.pending, eq_comm] using hx
    trivial

/-- **Run.** While the configuration, the answers and the reader hold well-formed UTF-8, so does
every view. -/
theorem clean_of_run (hcfg : CleanPolicies cfg) (hreader : reader.Clean) {s : State Shared Section}
    (h : Run (discovery cfg lib reader) cleanAnswers (start cfg) s) :
    CleanViews s.shared s.pending := by
  refine Run.invariant cleanViews_start
    (fun hI hr hexec => hI.step hcfg hreader hr hexec) ?_ h
  intro sh ev e p hI _ henter
  constructor
  · intro m t ht
    obtain ⟨t', ht', hview⟩ : ∃ t', sh.slots m = some t' ∧ t.view = t'.view := by
      cases ev with
      | fire key =>
          obtain ⟨_, _, rfl⟩ := Option.map_eq_some_iff.mp henter
          exact ⟨t, ht, rfl⟩
      | _ => cases henter; exact ⟨t, ht, rfl⟩
    rw [hview]
    exact hI.views m t' ht'
  · exact Effect.forall_made (fun y hy => Section.clean_of_load_none (enter_load henter hy))
      hI.sections

/-- A state discovery reaches while upstream's values hold well-formed UTF-8. -/
def Reached (cfg : BridgeConfig) (lib : Nlohmann) (reader : ContractReader) (sh : Shared) : Prop :=
  ∃ s, Run (discovery cfg lib reader) cleanAnswers (start cfg) s ∧ s.shared = sh

/-- The view of any module in a reached state is clean. -/
theorem Reached.clean_viewOf (hcfg : CleanPolicies cfg) (hreader : reader.Clean) {sh : Shared}
    (h : Reached cfg lib reader sh) (m : Bytes) : (sh.viewOf m).Clean := by
  obtain ⟨s, hrun, rfl⟩ := h
  unfold Shared.viewOf
  split
  · rename_i t ht
    exact (clean_of_run hcfg hreader hrun).views m t ht
  · exact clean_pendingView m

/-- It is about that module. -/
theorem Reached.module_viewOf {sh : Shared} (h : Reached cfg lib reader sh) (m : Bytes) :
    (sh.viewOf m).module = m := by
  obtain ⟨s, hrun, rfl⟩ := h
  exact (advertised_of_run hrun).module_viewOf m

/-- The document built from the views of a reached state is clean. -/
theorem Reached.clean_openrpc (hcfg : CleanPolicies cfg) (hreader : reader.Clean) {sh : Shared}
    (h : Reached cfg lib reader sh) (bridgeVersion : Bytes) :
    (Docs.buildOpenRpc (Docs.docContext cfg bridgeVersion (sh.views cfg))).Clean := by
  apply Docs.clean_buildOpenRpc_docContext
  intro view hview c hc
  obtain ⟨s, hrun, rfl⟩ := h
  obtain ⟨em, -, hslot⟩ := List.mem_filterMap.mp hview
  obtain ⟨t, ht, rfl⟩ := Option.map_eq_some_iff.mp hslot
  exact (((clean_of_run hcfg hreader hrun).views em.name t ht).typed hc).interface

end Discovery

end JsonRpcBridge
