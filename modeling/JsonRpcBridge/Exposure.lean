import JsonRpcBridge.Config
import Mathlib.Tactic.Tauto

/-!
# Exposure

What the bridge lets a client call or subscribe to, computed over plain name lists (a contract's or
a live report's).
-/

namespace JsonRpcBridge

/-- ModuleProxy answers these ahead of its gate; `lidl()` and `rpc.schema` replace them. -/
def isReservedIntrospection (method : Bytes) : Bool :=
  method == str "getPluginInterface" || method == str "getPluginMethods" ||
    method == str "getPluginEvents"

structure Exposure where
  methods : List Bytes := []
  events : List Bytes := []

/-- A `std::vector<std::string>` as JSON. -/
def namesJson (names : List Bytes) : Json := .arr (names.map .str)

def Exposure.toJson (x : Exposure) : Json :=
  Json.object [(str "methods", namesJson x.methods), (str "events", namesJson x.events)]

def addOnce (out : List Bytes) (name : Bytes) : List Bytes :=
  if out.contains name then out else out ++ [name]

/-- Typed: the declared members the policy permits, in declaration order. -/
def exposeDeclared (em : ExposedModule) (declaredMethods declaredEvents : List Bytes) : Exposure :=
  { methods := declaredMethods.foldl (fun out m =>
      if !isReservedIntrospection m && em.methodAllowed m then addOnce out m else out) []
    events := declaredEvents.foldl (fun out e =>
      if em.events.permits e then addOnce out e else out) [] }

/-- Untyped or invalid: live names the policy permits, in live order. Untagged live events cannot
be listed, so an explicit `events.allow` stands in for them. -/
def exposeLive (em : ExposedModule) (liveMethods liveEvents : List Bytes)
    (eventsDeclared : Bool) : Exposure :=
  let x := exposeDeclared em liveMethods liveEvents
  if !eventsDeclared && !em.events.allowUnconstrained then
    { x with events := em.events.allow.foldl (fun out e =>
        if em.events.permits e then addOnce out e else out) x.events }
  else x

/-! ## Which names are exposed

Each list is written by a loop over names, and holds the names that pass. -/

theorem mem_addOnce {out : List Bytes} {n m : Bytes} : n ∈ addOnce out m ↔ n ∈ out ∨ n = m := by
  unfold addOnce
  split
  · rename_i hmem
    constructor
    · exact Or.inl
    · rintro (h | rfl)
      · exact h
      · simpa using hmem
  · simp

/-- A filtered `addOnce` loop leaves what was there before and what passes of the list it walks. -/
theorem mem_foldl_addOnce {p : Bytes → Bool} {n : Bytes} {names out : List Bytes} :
    n ∈ names.foldl (fun out m => if p m then addOnce out m else out) out ↔
      n ∈ out ∨ n ∈ names ∧ p n = true := by
  induction names generalizing out with
  | nil => simp
  | cons m names ih =>
      have hhead : n ∈ (if p m then addOnce out m else out) ↔ n ∈ out ∨ n = m ∧ p n = true := by
        by_cases hp : p m = true
        · rw [if_pos hp, mem_addOnce]
          refine or_congr_right ⟨fun h => ⟨h, h ▸ hp⟩, And.left⟩
        · rw [if_neg hp]
          refine ⟨Or.inl, ?_⟩
          rintro (h | ⟨rfl, h⟩)
          · exact h
          · exact absurd h hp
      rw [List.foldl_cons, ih, hhead, or_assoc, List.mem_cons, or_and_right]

theorem mem_exposeDeclared_methods {em : ExposedModule} {methods events : List Bytes} {n : Bytes} :
    n ∈ (exposeDeclared em methods events).methods ↔
      n ∈ methods ∧ isReservedIntrospection n = false ∧ em.methodAllowed n = true := by
  unfold exposeDeclared
  rw [mem_foldl_addOnce]
  simp

theorem mem_exposeDeclared_events {em : ExposedModule} {methods events : List Bytes} {n : Bytes} :
    n ∈ (exposeDeclared em methods events).events ↔ n ∈ events ∧ em.events.permits n = true := by
  unfold exposeDeclared
  rw [mem_foldl_addOnce]
  simp

/-- Untagged live events are not listed; an allow list stands in for them. -/
theorem mem_exposeLive_events {em : ExposedModule} {methods events : List Bytes} {declared : Bool}
    {n : Bytes} :
    n ∈ (exposeLive em methods events declared).events ↔ em.events.permits n = true ∧
      (n ∈ events ∨ declared = false ∧ em.events.allowUnconstrained = false ∧ n ∈ em.events.allow) := by
  unfold exposeLive
  dsimp only
  split
  · rename_i h
    simp only [Bool.and_eq_true, Bool.not_eq_true'] at h
    rw [mem_foldl_addOnce, mem_exposeDeclared_events]
    simp only [h.1, h.2, true_and]
    tauto
  · rename_i h
    simp only [Bool.and_eq_true, Bool.not_eq_true', not_and] at h
    rw [mem_exposeDeclared_events]
    tauto

theorem exposeLive_methods (em : ExposedModule) (methods events : List Bytes) (declared : Bool) :
    (exposeLive em methods events declared).methods =
      (exposeDeclared em methods events).methods := by
  unfold exposeLive
  dsimp only
  split <;> rfl

/-- A name that a policy with an allow list permits is on the list. -/
theorem mem_allow_of_permits {p : NamePolicy} {n : Bytes} (h : p.permits n = true)
    (hallow : p.allowUnconstrained = false) : n ∈ p.allow := by
  unfold NamePolicy.permits at h
  split at h
  · cases h
  · rw [hallow, if_neg Bool.false_ne_true] at h
    simpa using h

end JsonRpcBridge
