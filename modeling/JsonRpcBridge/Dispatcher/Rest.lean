import JsonRpcBridge.Dispatcher.Alias
import JsonRpcBridge.Dispatcher.Raises

/-!
# The REST projection

`GET` and `POST` on `/modules/…`. A path addresses a module and a method by its first `/`, and the
names that the configuration accepts may hold one: `POST` reaches an exposed module under its own
name exactly when the name has no `/` (`rest_addresses_iff`).
-/

namespace JsonRpcBridge.Dispatcher

/-! ## `onGet`

`GET` answers from the views and never calls upstream: the health of the bridge, the modules, and
one module with its interface. -/

/-- What a `GET` reads. -/
structure GetState where
  view : Bytes → ModuleView
  draining : Bool := false
  uptimeSeconds : Nat := 0
  /-- `m_docs.current()`. -/
  openapi : Bytes := []
  asyncapi : Bytes := []

def health (g : GetState) : Json :=
  Json.object [(str "status", .str (if g.draining then str "draining" else str "ok")),
    (str "uptime_seconds", .int g.uptimeSeconds), (str "protocol", .str (str "json-rpc-2.0"))]

/-- The status and the body of the answer. -/
def onGet (cfg : BridgeConfig) (lib : Nlohmann) (g : GetState) (path : Bytes) :
    Except JsonError (Nat × Bytes) :=
  if path == str "/healthz" then (lib.dump (health g)).map (200, ·)
  else if path == str "/modules" then (lib.dump (listModules cfg g.view)).map (200, ·)
  else if path == str "/openapi.json" then .ok (200, g.openapi)
  else if path == str "/asyncapi.json" then .ok (200, g.asyncapi)
  else if startsWith kModulesPrefix path then
    let d := describe cfg g.view (path.drop kModulesPrefix.length)
    if d.isNull then (lib.dump notFound.toJson).map (404, ·) else (lib.dump d).map (200, ·)
  else (lib.dump notFound.toJson).map (404, ·)

/-! ## What a path addresses

`PostCalls` reads a request off the path as `onBody` does. The path splits at its first slash, so
a module with one in its name is cut there. -/

/-- The path of a module's description. -/
def modulePath (m : Bytes) : Bytes := kModulesPrefix ++ m

/-- The path of a method. -/
def methodPath (m x : Bytes) : Bytes := modulePath m ++ str "/" ++ x

/-- The `POST` becomes one request, and that request is handled as the call `t`. -/
def PostCalls (cfg : BridgeConfig) (lib : Nlohmann) (route body : Bytes) (t : CallTarget) : Prop :=
  ∃ raw req, readBody cfg lib false route body = .dispatch [raw] true true ∧
    parseRequest raw = .ok (.ok req) ∧ req.call = .ok (.ok t) ∧
    ∀ b, handleOne cfg lib b raw = .ok (dispatchCall cfg b req.id t)

/-- The params a call may have; null stands for none. -/
def IsParams (inner : Json) : Prop :=
  inner.isObject = true ∨ inner.isArray = true ∨ inner.isNull = true

section

variable {cfg : BridgeConfig} {lib : Nlohmann} {m x body : Bytes} {inner : Json}

/-! ### What a path is read as -/

theorem readBody_methodPath :
    readBody cfg lib false (methodPath m x) body = readRest lib (m ++ 0x2f :: x) body := by
  have hslash : str "/" = [0x2f] := by decide
  have hpath : methodPath m x = kModulesPrefix ++ (m ++ 0x2f :: x) := by
    rw [methodPath, modulePath, hslash, List.append_assoc, List.append_assoc]
    rfl
  have hrest : isRest (kModulesPrefix ++ (m ++ 0x2f :: x)) = true := startsWith_iff.mpr ⟨_, rfl⟩
  rw [hpath, readBody, if_neg Bool.false_ne_true, if_pos hrest, List.drop_left]

theorem parseCallTarget_restTarget (hm : m ≠ []) (hx : x ≠ []) (hinner : IsParams inner) :
    ∃ args, parseCallTarget (restTarget m x inner) = .ok (.ok ⟨m, x, args⟩) := by
  have hnames : (m.isEmpty || x.isEmpty) = false := by simp [hm, hx]
  rw [parseCallTarget_eq (find_module_restTarget ..) (find_method_restTarget ..),
    find_params_restTarget, hnames]
  rcases hinner with h | h | h
  · exact ⟨inner, by cases inner <;> first | rfl | cases h⟩
  · exact ⟨inner, by cases inner <;> first | rfl | cases h⟩
  · exact ⟨.arr [], by cases inner <;> first | rfl | cases h⟩

/-- A name without `/` is addressed as itself. -/
theorem postCalls_of_no_slash (hslash : (0x2f : UInt8) ∉ m) (hm : m ≠ []) (hx : x ≠ [])
    (hbody : restParams lib body = some inner) (hinner : IsParams inner) :
    ∃ t, PostCalls cfg lib (methodPath m x) body t ∧ t.module = m ∧ t.method = x := by
  obtain ⟨args, htarget⟩ := parseCallTarget_restTarget hm hx hinner
  have hparse := parseRequest_restRequest m x inner
  refine ⟨⟨m, x, args⟩, ⟨restRequest m x inner, _, ?_, hparse, htarget, fun b => ?_⟩, rfl, rfl⟩
  · rw [readBody_methodPath, readRest, splitRest, splitFirst_append hslash hx, if_neg hm]
    dsimp only
    rw [hbody]
  · exact handleOne_of_target hparse (Or.inl rfl) rfl htarget

/-- A name with a `/` is not: the module is what comes before the first one, if anything does. -/
theorem slash_not_mem_of_postCalls {t : CallTarget}
    (hcalls : PostCalls cfg lib (methodPath m x) body t) (hm : t.module = m) :
    (0x2f : UInt8) ∉ m := by
  intro hmem
  obtain ⟨p, s, rfl, hp⟩ := List.eq_append_cons_of_mem hmem
  obtain ⟨raw, req, hread, hparse, hcall, -⟩ := hcalls
  have hrest : s ++ 0x2f :: x ≠ [] := by simp
  rw [readBody_methodPath, List.append_assoc, List.cons_append, readRest, splitRest,
    splitFirst_append hp hrest] at hread
  by_cases hempty : p = []
  · rw [if_pos hempty] at hread
    cases hread
  · rw [if_neg hempty] at hread
    dsimp only at hread
    split at hread
    · cases hread
    · cases hread
      obtain ⟨hpm, -⟩ := target_of_restRequest hparse hcall
      have hlength := congrArg List.length (hpm.symm.trans hm)
      simp only [List.length_append, List.length_cons] at hlength
      omega

end

/-! ## Accepted names

An accepted configuration has no empty name and none twice, so that what is left to ask of a name
is the slash. -/

/-- `GET /modules/{m}` describes the module `m`. -/
theorem onGet_modulePath {lib : Nlohmann} {own : Bytes} {cfg : BridgeConfig}
    (hcfg : cfg.Accepted lib own) {em : ExposedModule} (hem : em ∈ cfg.modules) (g : GetState) :
    onGet cfg lib g (modulePath em.name) =
      (lib.dump (describeView em (g.view em.name))).map (200, ·) := by
  have hdescribe : describe cfg g.view em.name = describeView em (g.view em.name) := by
    simp only [describe, hcfg.find hem]
  have hnull : (describeView em (g.view em.name)).isNull = false := by
    obtain ⟨ms, hms⟩ := Json.eq_obj_of_isObject (isObject_describeView em (g.view em.name) true)
    rw [hms]
    rfl
  have hstarts : startsWith kModulesPrefix (modulePath em.name) = true :=
    startsWith_iff.mpr ⟨em.name, rfl⟩
  have hfixed : ∀ p : Bytes, startsWith kModulesPrefix p = false → (modulePath em.name == p) = false := by
    intro p hp
    rw [beq_eq_false_iff_ne]
    rintro rfl
    rw [hstarts] at hp
    cases hp
  rw [onGet, hfixed _ (by decide), hfixed _ (by decide), hfixed _ (by decide), hfixed _ (by decide)]
  simp only [Bool.false_eq_true, if_false]
  rw [if_pos hstarts, modulePath, List.drop_left, hdescribe, hnull]
  rfl

/-- **REST addressing decodes what the documents encode**, exactly for the modules whose name has
no `/`: a `POST` on the path of a method calls that method of that module. `GET` describes every
exposed module under its own name. -/
theorem rest_addresses_iff (lib : Nlohmann) (own text : Bytes) (cfg : BridgeConfig)
    (hcfg : parseBridgeConfig lib own text = .ok cfg) (em : ExposedModule) (hem : em ∈ cfg.modules)
    (x : Bytes) (hx : x ≠ []) (body : Bytes) (inner : Json)
    (hbody : restParams lib body = some inner) (hinner : IsParams inner) :
    ((∃ t, PostCalls cfg lib (methodPath em.name x) body t ∧ t.module = em.name ∧ t.method = x) ∧
      ∀ g, onGet cfg lib g (modulePath em.name) =
        (lib.dump (describeView em (g.view em.name))).map (200, ·)) ↔
    (0x2f : UInt8) ∉ em.name := by
  have haccepted := accepted_of_parse hcfg
  constructor
  · rintro ⟨⟨t, hcalls, hm, -⟩, -⟩
    exact slash_not_mem_of_postCalls hcalls hm
  · intro hslash
    exact ⟨postCalls_of_no_slash hslash (haccepted.nonempty em hem) hx hbody hinner,
      onGet_modulePath haccepted hem⟩

theorem rest_addresses_minimal :
    ((∃ t, PostCalls minimalConfig minimalLib (methodPath (str "m1") (str "a/b")) [] t ∧
        t.module = str "m1" ∧ t.method = str "a/b") ∧
      ∀ g, onGet minimalConfig minimalLib g (modulePath (str "m1")) =
        (minimalLib.dump (describeView { name := str "m1" } (g.view (str "m1")))).map (200, ·)) ↔
    (0x2f : UInt8) ∉ str "m1" :=
  rest_addresses_iff minimalLib (str "json_rpc_bridge") minimalText minimalConfig parse_minimal
    { name := str "m1" } List.mem_cons_self (str "a/b") (by decide) [] (.obj []) rfl (Or.inl rfl)

/-! ## A name with a `/`

With the modules `a` and `a/b`, the path of a method of the second is a path of the first. -/

/-- `{"expose":{"modules":["a","a/b"]}}`, and its value. -/
def slashText : Bytes := str "\x7b\"expose\":\x7b\"modules\":[\"a\",\"a/b\"]\x7d\x7d"

def slashLib : Nlohmann :=
  .only slashText (Json.object [(str "expose", Json.object [(str "modules",
    .arr [.str (str "a"), .str (str "a/b")])])]) (by decide)

def slashConfig : BridgeConfig := { modules := [{ name := str "a" }, { name := str "a/b" }] }

/-- With `a` and `a/b` exposed, a `POST` on `/modules/a/b/x` calls `b/x` of the module `a`. -/
theorem slash_addresses_another :
    parseBridgeConfig slashLib (str "json_rpc_bridge") slashText = .ok slashConfig ∧
      PostCalls slashConfig slashLib (methodPath (str "a/b") (str "x")) []
        ⟨str "a", str "b/x", .obj []⟩ ∧
      ¬∃ t, PostCalls slashConfig slashLib (methodPath (str "a/b") (str "x")) [] t ∧
        t.module = str "a/b" ∧ t.method = str "x" := by
  refine ⟨by rfl, ?_, ?_⟩
  · have hpath : methodPath (str "a/b") (str "x") = methodPath (str "a") (str "b/x") := by decide
    rw [hpath]
    refine ⟨restRequest (str "a") (str "b/x") (.obj []), _, by rfl,
      parseRequest_restRequest (str "a") (str "b/x") (.obj []), by rfl, fun b => ?_⟩
    exact handleOne_of_target (parseRequest_restRequest _ _ _) (Or.inl rfl) rfl (by rfl)
  · rintro ⟨t, hcalls, hm, -⟩
    exact slash_not_mem_of_postCalls hcalls hm (by decide)

end JsonRpcBridge.Dispatcher
