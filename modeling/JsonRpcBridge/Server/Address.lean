import JsonRpcBridge.Compact
import JsonRpcBridge.Config.Parse
import JsonRpcBridge.Docs.Publisher
import JsonRpcBridge.Server.Http

/-!
# The advertised address

The documents name the server by the host the configuration binds, the gate compares a request's
`Host` with three literals. `hostAllowed_hostPort_iff`: a client that takes the address from the
documents passes the gate exactly when the configured host is one of these, in either spelling of
`::1`.
-/

namespace JsonRpcBridge.Server

open Docs

/-- The hosts whose advertised address the gate admits. -/
def admittedHosts : List Bytes := [str "127.0.0.1", str "localhost", str "::1", str "[::1]"]

/-- The literals of `hostAllowed`. -/
def gateLiterals : List Bytes := [str "127.0.0.1", str "localhost", str "[::1]"]

variable {cfg : BridgeConfig}

/-! ## Comparing with the literals

The gate admits a literal with the port and without it. What the documents name always has the
port. -/

theorem hostAllowed_iff {h : Headers} (hne : h.host ≠ []) : hostAllowed cfg h = true ↔
    ∃ l ∈ gateLiterals, h.host = l ++ str ":" ++ toStr cfg.port ∨ h.host = l := by
  unfold hostAllowed
  have hempty : h.host.isEmpty = false := by simpa using hne
  rw [hempty, Bool.not_false, Bool.true_and, List.any_eq_true]
  simp only [Bool.or_eq_true, beq_iff_eq]
  rfl

/-- An address with a port is none of the literals. -/
theorem not_gateLiteral {u : Bytes} {port : Int} :
    ∀ l ∈ gateLiterals, u ++ str ":" ++ toStr port ≠ l := by
  intro l hl heq
  have hcolon : (0x3A : UInt8) ∈ l := by
    rw [← heq]
    exact List.mem_append_left _ (List.mem_append_right _ (by decide))
  have hcases : ∀ l ∈ gateLiterals, (0x3A : UInt8) ∈ l → l = str "[::1]" := by decide
  obtain rfl := hcases l hl hcolon
  have hlast : (toStr port).getLast? = some 0x5D := by
    rw [← List.getLast?_append_of_ne_nil _ (Json.toStr_ne_nil port), heq]
    rfl
  exact absurd (Json.isNumeral_of_mem_toStr (List.mem_of_getLast? hlast)) (by decide)

/-- The host part of an authority is one of the literals for the admitted hosts only. -/
theorem urlHost_mem_iff {host : Bytes} : urlHost host ∈ gateLiterals ↔ host ∈ admittedHosts := by
  constructor
  · intro h
    unfold urlHost at h
    dsimp only at h
    split at h
    · have hliteral : ∀ l ∈ gateLiterals, l.head? = some 0x5B → l = str "[" ++ str "::1" ++ str "]" := by
        decide
      have heq := hliteral _ h rfl
      rw [List.append_left_inj, List.append_right_inj] at heq
      subst heq
      decide
    · exact (by decide : ∀ l ∈ gateLiterals, l ∈ admittedHosts) host h
  · exact (by decide : ∀ host ∈ admittedHosts, urlHost host ∈ gateLiterals) host

/-! ## The result -/

/-- A client that takes the address from the documents passes the `Host` check exactly when the
configured host is one the gate admits. -/
theorem hostAllowed_hostPort_iff {lib : Nlohmann} {own text : Bytes}
    (hcfg : parseBridgeConfig lib own text = .ok cfg) (bridgeVersion : Bytes)
    (views : List ModuleView) {h : Headers}
    (hhost : h.host = hostPort (docContext cfg bridgeVersion views)) :
    hostAllowed cfg h = true ↔
      cfg.host ∈ [str "127.0.0.1", str "localhost", str "::1", str "[::1]"] := by
  have hutf8 : Utf8 (urlHost cfg.host) := by
    have hascii := utf8_of_isLoopbackHost (loopback_of_parse hcfg)
    unfold urlHost
    dsimp only
    split
    · exact ((utf8_str _).append hascii).append (utf8_str _)
    · exact hascii
  have hport : h.host = urlHost cfg.host ++ str ":" ++ toStr cfg.port := by
    rw [hhost, hostPort, show (docContext cfg bridgeVersion views).host = cfg.host from rfl,
      show safe (urlHost cfg.host) = urlHost cfg.host from if_pos (utf8Valid_iff.mpr hutf8)]
    rfl
  have hne : h.host ≠ [] := by
    rw [hport]
    simp [Json.toStr_ne_nil]
  rw [hostAllowed_iff hne]
  constructor
  · rintro ⟨l, hl, hwith | hbare⟩
    · rw [hport, List.append_left_inj, List.append_left_inj] at hwith
      exact urlHost_mem_iff.mp (hwith ▸ hl)
    · exact absurd (hport.symm.trans hbare) (not_gateLiteral l hl)
  · intro hmem
    exact ⟨urlHost cfg.host, urlHost_mem_iff.mpr hmem, Or.inl hport⟩

/-- The default address is admitted. -/
theorem hostAllowed_hostPort_iff_default :
    hostAllowed minimalConfig { host := hostPort (docContext minimalConfig (str "1.0") []) } = true :=
  (hostAllowed_hostPort_iff parse_minimal (str "1.0") [] rfl).mpr (by decide)

/-- `{"http":{"host":"127.0.0.2"},"expose":{"modules":["m1"]}}`. -/
def secondLoopbackText : Bytes :=
  str "\x7b\"http\":\x7b\"host\":\"127.0.0.2\"\x7d,\"expose\":\x7b\"modules\":[\"m1\"]\x7d\x7d"

def secondLoopbackLib : Nlohmann :=
  .only secondLoopbackText (Json.object [
    (str "http", Json.object [(str "host", .str (str "127.0.0.2"))]),
    (str "expose", Json.object [(str "modules", .arr [.str (str "m1")])])]) (by decide)

/-- A bridge on 127.0.0.2 refuses the address it advertises. -/
theorem not_hostAllowed_hostPort : ∃ cfg,
    parseBridgeConfig secondLoopbackLib (str "json_rpc_bridge") secondLoopbackText = .ok cfg ∧
    hostPort (docContext cfg (str "1.0") []) = str "127.0.0.2:8645" ∧
    hostAllowed cfg { host := hostPort (docContext cfg (str "1.0") []) } = false := by
  refine ⟨{ host := str "127.0.0.2", modules := [{ name := str "m1" }] }, rfl, ?_, ?_⟩
  · decide
  · decide

end JsonRpcBridge.Server
