import JsonRpcBridge.Discovery.Model
import JsonRpcBridge.Docs.OpenRpc

/-!
# The served documents

`doc_publisher.h`: discovery's views as the builders' input.
-/

namespace JsonRpcBridge.Docs

/-- One view as the builders see it. Only a typed view carries an interface. -/
def toModuleDoc (view : ModuleView) : ModuleDoc :=
  let m : ModuleDoc := {
    name := view.module
    status := interfaceStatusName view.status
    exposedMethods := view.exposure.methods
    exposedEvents := view.exposure.events
    contractSha256 := view.contractSha256
    interfaceError := view.interfaceError }
  match view.typed? with
  | some c => { m with interface := c.interface, interfaceSha256 := view.interfaceSha256 }
  | none =>
    if view.resolved then
      { m with liveMethods := view.live.methods.map fun lm => ⟨lm.name, lm.params⟩ }
    else m

/-- Everything the builders read: this bridge's endpoint, limits and version, and the views in
config order. -/
def docContext (cfg : BridgeConfig) (bridgeVersion : Bytes) (views : List ModuleView) : DocContext where
  bridgeVersion := bridgeVersion
  host := cfg.host
  port := cfg.port
  limits := cfg.limits
  modules := views.map toModuleDoc

theorem clean_toModuleDoc {view : ModuleView}
    (h : ∀ c, view.typed? = some c → c.interface.Clean) : (toModuleDoc view).Clean := by
  unfold toModuleDoc
  split
  · rename_i c hc
    exact h c hc
  · split <;> exact Json.clean_null

/-- The document of views with clean interfaces is clean. -/
theorem clean_buildOpenRpc_docContext (cfg : BridgeConfig) (bridgeVersion : Bytes)
    {views : List ModuleView}
    (h : ∀ view ∈ views, ∀ c, view.typed? = some c → c.interface.Clean) :
    (buildOpenRpc (docContext cfg bridgeVersion views)).Clean := by
  apply clean_buildOpenRpc
  intro m hm
  obtain ⟨view, hview, rfl⟩ := List.mem_map.mp hm
  exact clean_toModuleDoc (h view hview)

end JsonRpcBridge.Docs
