import JsonRpcBridge.Compact
import JsonRpcBridge.Discovery.Clean
import JsonRpcBridge.Docs.AsyncApi
import JsonRpcBridge.Docs.OpenApi

/-!
# Document sets and their key

`doc_publisher.h`: one immutable set of the three documents, and the key that says whether a set is
out of date. The key stands for an interface by its digest.

* `docContext_eq_of_key`: contexts of one configuration with one key are the same, as long as equal
  digests mean equal interfaces and the texts of the views are well-formed UTF-8.
-/

namespace JsonRpcBridge.Docs

/-! ## Keys and sets

A rebuild compares the key of the views with that of the set it has, and builds only where they
differ. -/

/-- One module's part of the key. -/
def moduleKey (m : ModuleDoc) : Json :=
  let live := m.liveMethods.map fun lm => Json.arr [.str lm.name, .arr (lm.params.map .str)]
  .arr [.str m.name, .str m.status, .bool m.interface.isObject, .str m.interfaceSha256,
    .str m.contractSha256, .str m.interfaceError, .arr (m.exposedMethods.map .str),
    .arr (m.exposedEvents.map .str), .arr live]

/-- What the documents of a configuration depend on: the version of the bridge, the address and the
modules. -/
def keyValue (ctx : DocContext) : Json :=
  .arr [.str ctx.bridgeVersion, .str ctx.title, .str ctx.host, .int ctx.port, .str ctx.wsPath,
    .str ctx.rpcPath, .str ctx.subprotocol, .int ctx.limits.maxFrameBytes,
    .int ctx.limits.maxQueuedFramesPerConnection, .arr (ctx.modules.map moduleKey)]

/-- A context's identity for rebuild decisions. -/
def docInputsKey (lib : Nlohmann) (ctx : DocContext) : Bytes := lib.textReplacing (keyValue ctx)

/-- One immutable set of the three documents; `generation` counts the builds so far. -/
structure DocSet where
  generation : Nat := 0
  inputsKey : Bytes
  openrpc : Json
  openapi : Bytes
  asyncapi : Bytes
  openrpcBytes : Nat := 0

/-- The three documents of a context, dumped. -/
def buildDocSet (lib : Nlohmann) (ctx : DocContext) (inputsKey : Bytes) (generation : Nat) : DocSet where
  generation := generation
  inputsKey := inputsKey
  openrpc := buildOpenRpc ctx
  openapi := lib.textReplacing (buildOpenApi ctx)
  asyncapi := lib.textReplacing (buildAsyncApi ctx)
  openrpcBytes := (lib.textReplacing (buildOpenRpc ctx)).length

/-- The set holds what the three builders make of `ctx`. -/
structure DocSet.Shows (lib : Nlohmann) (set : DocSet) (ctx : DocContext) : Prop where
  openrpc : set.openrpc = buildOpenRpc ctx
  openapi : set.openapi = lib.textReplacing (buildOpenApi ctx)
  asyncapi : set.asyncapi = lib.textReplacing (buildAsyncApi ctx)

/-- The texts of a view are well-formed UTF-8, and its interface is the one its digest stands for.
-/
structure Told (interfaceOf : Bytes → Json) (view : ModuleView) : Prop where
  module : Utf8 view.module
  clean : view.Clean
  interface : (toModuleDoc view).interface = interfaceOf (toModuleDoc view).interfaceSha256

variable {lib : Nlohmann} {interfaceOf : Bytes → Json} {view view' : ModuleView}

/-! ## The key of a module

The key is a JSON text, so it is enough that the text determines the value and the value
determines the module. Names and lists are in the key as they are. The interface is not: its
digest is, and that two interfaces with one digest are one is the assumption. -/

theorem utf8_interfaceStatusName (status : InterfaceStatus) : Utf8 (interfaceStatusName status) := by
  cases status <;> exact utf8_str _

theorem plain_strings {xs : List Bytes} (h : ∀ x ∈ xs, Utf8 x) : (Json.arr (xs.map .str)).Plain := by
  apply Json.Plain.arr
  intro j hj
  obtain ⟨x, hx, rfl⟩ := List.mem_map.mp hj
  exact .str (h x hx)

/-- The texts a module's document takes from a clean view. -/
theorem Told.texts (h : Told interfaceOf view) :
    (∀ s ∈ [(toModuleDoc view).name, (toModuleDoc view).status, (toModuleDoc view).interfaceSha256,
      (toModuleDoc view).contractSha256, (toModuleDoc view).interfaceError], Utf8 s) ∧
    (∀ n ∈ (toModuleDoc view).exposedMethods, Utf8 n) ∧
    (∀ n ∈ (toModuleDoc view).exposedEvents, Utf8 n) ∧
    ∀ lm ∈ (toModuleDoc view).liveMethods, Utf8 lm.name ∧ ∀ p ∈ lm.params, Utf8 p := by
  have hstatus := utf8_interfaceStatusName view.status
  have hlive : ∀ lm ∈ view.live.methods.map (fun lm => (⟨lm.name, lm.params⟩ : LiveMethod)),
      Utf8 lm.name ∧ ∀ p ∈ lm.params, Utf8 p := by
    intro lm hlm
    obtain ⟨m, hm, rfl⟩ := List.mem_map.mp hlm
    exact ⟨(h.clean.live.methods m hm).name, (h.clean.live.methods m hm).params⟩
  unfold toModuleDoc
  simp only [List.forall_mem_cons, List.not_mem_nil, false_imp_iff, implies_true, and_true]
  split
  · exact ⟨⟨h.module, hstatus, h.clean.interfaceSha256, h.clean.contractSha256,
      h.clean.interfaceError⟩, h.clean.exposure.methods, h.clean.exposure.events, by simp⟩
  · split
    · exact ⟨⟨h.module, hstatus, utf8_nil, h.clean.contractSha256, h.clean.interfaceError⟩,
        h.clean.exposure.methods, h.clean.exposure.events, hlive⟩
    · exact ⟨⟨h.module, hstatus, utf8_nil, h.clean.contractSha256, h.clean.interfaceError⟩,
        h.clean.exposure.methods, h.clean.exposure.events, by simp⟩

/-- Nothing of it is a float, and all strings are UTF-8, so its dump is exact. -/
theorem plain_moduleKey (h : Told interfaceOf view) : (moduleKey (toModuleDoc view)).Plain := by
  obtain ⟨htexts, hmethods, hevents, hlive⟩ := h.texts
  simp only [List.forall_mem_cons, List.not_mem_nil, false_imp_iff, implies_true, and_true] at htexts
  obtain ⟨hname, hstatus, hsha, hcontract, herror⟩ := htexts
  have hlives : (Json.arr ((toModuleDoc view).liveMethods.map fun lm =>
      Json.arr [.str lm.name, .arr (lm.params.map .str)])).Plain := by
    apply Json.Plain.arr
    intro j hj
    obtain ⟨lm, hlm, rfl⟩ := List.mem_map.mp hj
    apply Json.Plain.arr
    simp only [List.forall_mem_cons, List.not_mem_nil, false_imp_iff, implies_true, and_true]
    exact ⟨.str (hlive lm hlm).1, plain_strings (hlive lm hlm).2⟩
  apply Json.Plain.arr
  simp only [List.forall_mem_cons, List.not_mem_nil, false_imp_iff, implies_true, and_true]
  exact ⟨.str hname, .str hstatus, .bool _, .str hsha, .str hcontract, .str herror,
    plain_strings hmethods, plain_strings hevents, hlives⟩

theorem strings_inj {xs ys : List Bytes} (h : xs.map Json.str = ys.map Json.str) : xs = ys :=
  List.map_injective_iff.mpr (fun _ _ h => Json.str.inj h) h

theorem lives_inj {xs ys : List LiveMethod}
    (h : xs.map (fun lm => Json.arr [.str lm.name, .arr (lm.params.map .str)]) =
      ys.map fun lm => Json.arr [.str lm.name, .arr (lm.params.map .str)]) : xs = ys := by
  refine List.map_injective_iff.mpr ?_ h
  intro lm lm' hlm
  obtain ⟨hname, hparams⟩ : lm.name = lm'.name ∧
      lm.params.map Json.str = lm'.params.map Json.str := by
    simpa using hlm
  obtain ⟨name, params⟩ := lm
  obtain ⟨name', params'⟩ := lm'
  obtain rfl : name = name' := hname
  obtain rfl : params = params' := strings_inj hparams
  rfl

/-- A module's key leaves out only its interface. -/
theorem eq_of_moduleKey {m m' : ModuleDoc} (hinterface : m.interfaceSha256 = m'.interfaceSha256 →
      m.interface = m'.interface) (hkey : moduleKey m = moduleKey m') : m = m' := by
  unfold moduleKey at hkey
  simp only [Json.arr.injEq, List.cons.injEq, Json.str.injEq, Json.bool.injEq, and_true] at hkey
  obtain ⟨hname, hstatus, -, hsha, hcontract, herror, hmethods, hevents, hlive⟩ := hkey
  have hsame := hinterface hsha
  obtain ⟨name, status, interface, methods, events, live, sha, contract, error⟩ := m
  obtain ⟨name', status', interface', methods', events', live', sha', contract', error'⟩ := m'
  dsimp only at hname hstatus hsha hcontract herror hmethods hevents hlive hsame
  rw [hname, hstatus, hsha, hcontract, herror, hsame, strings_inj hmethods, strings_inj hevents,
    lives_inj hlive]

/-- Views with one key make one module document. -/
theorem toModuleDoc_eq_of_key (h : Told interfaceOf view) (h' : Told interfaceOf view')
    (hkey : moduleKey (toModuleDoc view) = moduleKey (toModuleDoc view')) :
    toModuleDoc view = toModuleDoc view' := by
  refine eq_of_moduleKey ?_ hkey
  intro hsha
  rw [h.interface, h'.interface, hsha]

/-! ## The key of a context

The rest of a context is the configuration, which does not change while the bridge runs. -/

variable {cfg : BridgeConfig} {bridgeVersion : Bytes} {views views' : List ModuleView}

theorem plain_keyValue (hhost : Utf8 cfg.host) (hversion : Utf8 bridgeVersion)
    (h : ∀ view ∈ views, Told interfaceOf view) :
    (keyValue (docContext cfg bridgeVersion views)).Plain := by
  apply Json.Plain.arr
  simp only [List.forall_mem_cons, List.not_mem_nil, false_imp_iff, implies_true, and_true]
  refine ⟨.str hversion, .str (utf8_str _), .str hhost, .int _, .str (utf8_str _), .str (utf8_str _),
    .str (utf8_str _), .int _, .int _, .arr ?_⟩
  intro j hj
  obtain ⟨m, hm, rfl⟩ := List.mem_map.mp hj
  obtain ⟨view, hview, rfl⟩ := List.mem_map.mp hm
  exact plain_moduleKey (h view hview)

/-- Contexts of one configuration with one key have the same modules. -/
theorem modules_eq_of_keys (h : ∀ view ∈ views, Told interfaceOf view)
    (h' : ∀ view ∈ views', Told interfaceOf view)
    (hkey : (views.map toModuleDoc).map moduleKey = (views'.map toModuleDoc).map moduleKey) :
    views.map toModuleDoc = views'.map toModuleDoc := by
  induction views generalizing views' with
  | nil =>
      cases views' with
      | nil => rfl
      | cons view' views' => cases hkey
  | cons view views ih =>
      cases views' with
      | nil => cases hkey
      | cons view' views' =>
          obtain ⟨hhead, htail⟩ := List.cons.inj hkey
          rw [List.map_cons, List.map_cons,
            toModuleDoc_eq_of_key (h view List.mem_cons_self) (h' view' List.mem_cons_self) hhead,
            ih (fun v hv => h v (List.mem_cons_of_mem _ hv))
              (fun v hv => h' v (List.mem_cons_of_mem _ hv)) htail]

/-- Contexts with one key are one. -/
theorem docContext_eq_of_key (hlib : Set.InjOn lib.textReplacing {j | Json.Plain j})
    (hhost : Utf8 cfg.host) (hversion : Utf8 bridgeVersion)
    (h : ∀ view ∈ views, Told interfaceOf view) (h' : ∀ view ∈ views', Told interfaceOf view)
    (hkey : docInputsKey lib (docContext cfg bridgeVersion views) =
      docInputsKey lib (docContext cfg bridgeVersion views')) :
    docContext cfg bridgeVersion views = docContext cfg bridgeVersion views' := by
  have hvalue := hlib (plain_keyValue hhost hversion h) (plain_keyValue hhost hversion h') hkey
  unfold keyValue at hvalue
  simp only [Json.arr.injEq, List.cons.injEq, and_true] at hvalue
  have hmodules := modules_eq_of_keys h h' hvalue.2.2.2.2.2.2.2.2.2
  unfold docContext
  rw [hmodules]

end JsonRpcBridge.Docs
