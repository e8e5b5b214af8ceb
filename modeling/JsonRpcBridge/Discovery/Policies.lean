import JsonRpcBridge.Discovery.Consistency
import JsonRpcBridge.Interleaving.Lockstep

/-!
# What the policies decide

The policies of a module are read in one place of discovery, `exposed`, and what it writes is never
read again by discovery. So two bridges whose configurations differ in policies only run in lockstep:
the same sections, the same timers, and the same views up to their exposure
(`discovery_lockstep`).

`policy_restricts_calls` says so of two runs on the same moves, and of the descriptions they serve.
-/

namespace JsonRpcBridge

/-! ## Two configurations -/

/-- The same modules in the same order, under policies of their own; nothing else differs. -/
structure BridgeConfig.SameButPolicies (cfg cfg' : BridgeConfig) : Prop where
  names : cfg'.modules.map (·.name) = cfg.modules.map (·.name)
  rest : cfg' = { cfg with modules := cfg'.modules }

/-- The same view, up to what is exposed. -/
def ModuleView.showing (v : ModuleView) (x : Exposure) : ModuleView := { v with exposure := x }

/-! ## Nothing but the exposure

`showing` changes the one member that a policy reaches. What is written here says of each
function which decides something that the exposure does not enter into it. -/

section
variable (v : ModuleView) (x : Exposure) (live : LiveReport)

theorem revalidation_showing (lib : Nlohmann) (ok : Bool) (error : Bytes) (value : Json) :
    revalidation lib (v.showing x) ok error value = revalidation lib v ok error value := rfl

end

theorem BridgeConfig.SameButPolicies.find {cfg cfg' : BridgeConfig} (h : cfg.SameButPolicies cfg')
    (m : Bytes) : (cfg'.find m).map (·.name) = (cfg.find m).map (·.name) := by
  have hmap : ∀ c : BridgeConfig,
      (c.find m).map (·.name) = (c.modules.map (·.name)).find? (· == m) := by
    intro c
    unfold BridgeConfig.find
    rw [List.find?_map]
    rfl
  rw [hmap, hmap, h.names]

/-! ## Descriptions

A description shows the policy in the members that list names, and in no other. -/

/-- Two objects with the same value under `key`. -/
structure Json.SameAt (key : Bytes) (j j' : Json) : Prop where
  left : j.isObject = true
  right : j'.isObject = true
  same : j'.find? key = j.find? key

theorem Json.SameAt.set {key : Bytes} {j j' : Json} (h : j.SameAt key j') (k : Bytes) (v : Json) :
    (j.set k v).SameAt key (j'.set k v) := by
  refine ⟨isObject_set h.left, isObject_set h.right, ?_⟩
  rw [find?_set h.left, find?_set h.right, h.same]

theorem Json.SameAt.ite {key : Bytes} {c : Prop} [Decidable c] {j j' k k' : Json}
    (h : j.SameAt key j') (hk : k.SameAt key k') :
    (if c then j else k).SameAt key (if c then j' else k') := by
  split
  · exact h
  · exact hk

theorem Json.SameAt.object {key : Bytes} {kvs kvs' : List (Bytes × Json)}
    (hkeys : (kvs.map Prod.fst).Nodup) (hkeys' : (kvs'.map Prod.fst).Nodup)
    (h : kvs'.lookup key = kvs.lookup key) : (object kvs).SameAt key (object kvs') := by
  refine ⟨rfl, rfl, ?_⟩
  rw [find?_object hkeys, find?_object hkeys', h]

/-- What `describeView` adds to the members every view has. -/
def describedFurther (view : ModuleView) (withInterface : Bool) (d : Json) : Json :=
  let d := if view.interfaceSha256.isEmpty then d
    else d.set (str "interface_sha256") (.str view.interfaceSha256)
  let d := if view.contractSha256.isEmpty then d
    else d.set (str "contract_sha256") (.str view.contractSha256)
  let d := match view.typed? with
    | some c => if withInterface then d.set (str "interface") c.interface else d
    | none => d
  if view.status == .invalid then d.set (str "interface_error") (.str view.interfaceError) else d

theorem Json.SameAt.describedFurther {key : Bytes} {j j' : Json} (h : j.SameAt key j')
    (view : ModuleView) (withInterface : Bool) :
    (describedFurther view withInterface j).SameAt key (describedFurther view withInterface j') := by
  unfold JsonRpcBridge.describedFurther
  dsimp only
  have hdigest := ite (c := view.interfaceSha256.isEmpty = true) h
    (h.set (JsonRpcBridge.str "interface_sha256") (.str view.interfaceSha256))
  have hcontract := ite (c := view.contractSha256.isEmpty = true) hdigest
    (hdigest.set (JsonRpcBridge.str "contract_sha256") (.str view.contractSha256))
  cases view.typed? with
  | none => exact ite (hcontract.set _ _) hcontract
  | some c =>
      have hinterface := ite (c := withInterface = true)
        (hcontract.set (JsonRpcBridge.str "interface") c.interface) hcontract
      exact ite (hinterface.set _ _) hinterface

/-- The policies and the exposure show in three members only. -/
theorem find?_describeView_showing (em em' : ExposedModule) (v : ModuleView) (x : Exposure)
    (withInterface : Bool) {key : Bytes} (hexposure : key ≠ str "exposure")
    (hmethods : key ≠ str "methods") (hevents : key ≠ str "events") :
    (describeView em' (v.showing x) withInterface).find? key =
      (describeView em v withInterface).find? key := by
  have hkeys : [str "module", str "resolved", str "events_declared", str "methods", str "events",
      str "source", str "authoritative", str "interface_status", str "stale", str "exposure",
      str "interface_sha256", str "contract_sha256", str "cross_check"].Nodup := by decide
  show (describedFurther v withInterface (Json.object _)).find? key =
    (describedFurther v withInterface (Json.object _)).find? key
  refine (Json.SameAt.describedFurther (.object ?_ ?_ ?_) v withInterface).same
  · exact hkeys
  · exact hkeys
  simp only [List.lookup_cons, beq_eq_false_iff_ne.mpr hexposure,
    beq_eq_false_iff_ne.mpr hmethods, beq_eq_false_iff_ne.mpr hevents]
  rfl

namespace Discovery

open Interleaving

variable {cfg cfg' : BridgeConfig} {lib : Nlohmann} {reader : ContractReader}

/-! ## Slots

The operations on a slot commute with a change of the exposure. -/

/-- The same slot, up to what its view exposes. -/
def Slot.showing (s : Slot) (x : Exposure) : Slot := { s with view := s.view.showing x }

section
variable (s : Slot) (x : Exposure)

theorem settledView_showing : (s.showing x).settledView = s.settledView := rfl
theorem clientReplaced_showing :
    (s.showing x).clientReplaced = s.clientReplaced.showing x := by
  unfold Slot.clientReplaced
  rw [settledView_showing]
  split <;> rfl

theorem publish_showing (next : ModuleView) (y : Exposure) (retry : Bool) :
    (s.showing x).publish (next.showing y) retry = (s.publish next retry).showing y := rfl

end

/-- `publish` reads the policy, and writes nothing but the exposure by it. -/
theorem exposed_showing (cfg cfg' : BridgeConfig) (m : Bytes) (next : ModuleView) :
    ∃ x, exposed cfg' m next = (exposed cfg m next).showing x := by
  refine ⟨(exposed cfg' m next).exposure, ?_⟩
  unfold exposed
  split <;> split <;> rfl

/-! ## States

Two states are alike when they differ in exposures only. What is carried by sections has no
exposure yet, so the sections are the same. -/

/-- The same slot, under policies that may differ. -/
def Slot.Alike (s s' : Slot) : Prop := ∃ x, s' = s.showing x

/-- The same publication, likewise. -/
def Publication.Alike (p p' : Publication) : Prop := ∃ x, p' = { p with view := p.view.showing x }

/-- The same state, likewise. -/
structure Shared.Alike (sh sh' : Shared) : Prop where
  slots : ∀ m, Option.Rel Slot.Alike (sh.slots m) (sh'.slots m)
  timers : sh'.timers = sh.timers
  resets : sh'.resets = sh.resets
  client : sh'.client = sh.client
  published : List.Forall₂ Publication.Alike sh.published sh'.published

namespace Shared.Alike

variable {sh sh' : Shared}

theorem cases (h : sh.Alike sh') (m : Bytes) : sh.slots m = none ∧ sh'.slots m = none ∨
    ∃ s x, sh.slots m = some s ∧ sh'.slots m = some (s.showing x) := by
  have hm := h.slots m
  generalize sh.slots m = o at hm ⊢
  generalize sh'.slots m = o' at hm ⊢
  cases hm with
  | none => exact Or.inl ⟨rfl, rfl⟩
  | some hslot =>
      obtain ⟨x, rfl⟩ := hslot
      exact Or.inr ⟨_, x, rfl, rfl⟩

theorem viewOf (h : sh.Alike sh') (m : Bytes) : ∃ x, sh'.viewOf m = (sh.viewOf m).showing x := by
  unfold Shared.viewOf
  rcases h.cases m with ⟨hs, hs'⟩ | ⟨s, x, hs, hs'⟩ <;> rw [hs, hs']
  · exact ⟨(pendingView m).exposure, rfl⟩
  · exact ⟨x, rfl⟩

theorem put (h : sh.Alike sh') (m : Bytes) (s : Slot) (x : Exposure) :
    (sh.put m s).Alike (sh'.put m (s.showing x)) := by
  refine ⟨?_, h.timers, h.resets, h.client, h.published⟩
  intro k
  rw [Shared.slots_put, Shared.slots_put]
  split
  · exact .some ⟨x, rfl⟩
  · exact h.slots k

theorem reset (h : sh.Alike sh') (m : Bytes) : (sh.reset m).Alike (sh'.reset m) := by
  refine ⟨h.slots, h.timers, ?_, h.client, h.published⟩
  unfold Shared.reset
  rw [h.resets]

theorem replaced (h : sh.Alike sh') (m : Bytes) : (sh.replaced m).Alike (sh'.replaced m) := by
  refine ⟨h.slots, h.timers, h.resets, ?_, h.published⟩
  unfold Shared.replaced
  rw [h.client]

theorem arm (h : sh.Alike sh') (key : Bytes) (d : Nat) (job : TimerJob) :
    (sh.arm key d job).Alike (sh'.arm key d job) := by
  refine ⟨h.slots, ?_, h.resets, h.client, h.published⟩
  unfold Shared.arm
  rw [h.timers]

theorem disarm (h : sh.Alike sh') (key : Bytes) : (sh.disarm key).Alike (sh'.disarm key) := by
  refine ⟨h.slots, ?_, h.resets, h.client, h.published⟩
  unfold Shared.disarm
  rw [h.timers]

theorem scheduleRevalidation (h : sh.Alike sh') (hcfg : cfg.SameButPolicies cfg') :
    (scheduleRevalidation cfg sh).Alike (scheduleRevalidation cfg' sh') := by
  unfold Discovery.scheduleRevalidation
  rw [hcfg.rest]
  split
  · exact h
  · exact h.arm _ _ _

theorem issue (h : sh.Alike sh') (m method : Bytes) (n : Nat) (revalidation : Bool) :
    issue sh' m method n revalidation = issue sh m method n revalidation := by
  unfold Discovery.issue
  rw [h.resets, h.client]

/-- A continuation builds its view from the view before, and reads no exposure of it. -/
theorem proceed (h : sh.Alike sh') (m : Bytes) (n : Nat) (stage : Stage) (a : Answer) :
    proceed lib reader sh' m n stage a = proceed lib reader sh m n stage a := by
  obtain ⟨x, hview⟩ := h.viewOf m
  cases stage with
  | interface =>
      simp only [Discovery.proceed, onInterface]
      rw [hview]
      rfl
  | contract live report =>
      simp only [Discovery.proceed, onContract]
      rw [hview]
      rfl
  | version live typed sha report text =>
      simp only [Discovery.proceed]
      rw [hview]
      rfl

end Shared.Alike

/-! ## Lockstep

Both bridges take the same branch in every section, since no test reads an exposure. -/

/-- Both effects, on related states, with the same sections to follow. -/
theorem rel_effect {e e' : Effect Shared Section} (hshared : e.shared.Alike e'.shared)
    (hnext : e'.next = e.next) (hspawn : e'.spawn = e.spawn) :
    Option.Rel (Effect.Alike Shared.Alike) (some e) (some e') :=
  .some ⟨hshared, hnext, hspawn⟩

/-- **Step.** No section reads an exposure, and no section but `publish` reads a policy. -/
theorem exec_alike (hcfg : cfg.SameButPolicies cfg') {sh sh' : Shared} (h : sh.Alike sh')
    (x : Section) (r : CallOutcome) :
    Option.Rel (Effect.Alike Shared.Alike) (exec cfg lib reader sh x r)
      (exec cfg' lib reader sh' x r) := by
  cases x with
  | refresh m =>
      simp only [exec]
      rcases h.cases m with ⟨hs, hs'⟩ | ⟨s, y, hs, hs'⟩ <;> rw [hs, hs']
      · exact rel_effect h rfl rfl
      · exact rel_effect (h.put m s.refresh y) rfl rfl
  | providerLost m =>
      simp only [exec]
      rcases h.cases m with ⟨hs, hs'⟩ | ⟨s, y, hs, hs'⟩ <;> rw [hs, hs']
      · exact rel_effect h rfl rfl
      · exact rel_effect ((h.put m s.providerLost y).reset m) rfl rfl
  | providerArmed m g =>
      simp only [exec]
      rcases h.cases m with ⟨hs, hs'⟩ | ⟨s, y, hs, hs'⟩ <;> rw [hs, hs']
      · exact rel_effect h rfl rfl
      · apply rel_ite
        · exact fun _ => rel_effect (h.put m (s.sawGeneration g) y) rfl rfl
        · exact fun _ => rel_effect ((h.put m (s.sawGeneration g).rediscover y).reset m) rfl rfl
  | clientReplaced m =>
      simp only [exec]
      rcases h.cases m with ⟨hs, hs'⟩ | ⟨s, y, hs, hs'⟩ <;> rw [hs, hs']
      · exact rel_effect h rfl rfl
      · refine rel_effect ?_ rfl rfl
        rw [clientReplaced_showing]
        exact ((h.put m s.clientReplaced y).reset m).replaced m
  | callUnavailable m =>
      simp only [exec]
      rcases h.cases m with ⟨hs, hs'⟩ | ⟨s, y, hs, hs'⟩ <;> rw [hs, hs']
      · exact rel_effect h rfl rfl
      · apply rel_ite
        · exact fun _ => rel_effect h rfl rfl
        · exact fun _ => rel_effect (h.put m s.callUnavailable y) rfl rfl
  | changed m => exact rel_effect h rfl rfl
  | providerChanged m => exact rel_effect h rfl rfl
  | schedule m d => exact rel_effect (h.arm m d (.refresh m)) rfl rfl
  | fired job =>
      cases job with
      | refresh m => exact rel_effect h rfl rfl
      | revalidate =>
          refine rel_effect (h.scheduleRevalidation hcfg) rfl ?_
          show [[Section.revalidate (cfg'.modules.map (·.name))]] = _
          rw [hcfg.names]
  | invoke m n stage =>
      refine rel_effect h rfl ?_
      show [[Section.await (issue sh' m stage.method n false) stage]] = _
      rw [h.issue]
  | await c stage => exact rel_effect h rfl rfl
  | resume a stage =>
      simp only [exec]
      rcases h.cases a.call.module with ⟨hs, hs'⟩ | ⟨s, y, hs, hs'⟩ <;> rw [hs, hs']
      · exact rel_effect h rfl rfl
      · apply rel_ite
        · exact fun _ => rel_effect h rfl rfl
        · exact fun _ => rel_effect h rfl rfl
  | proceed m n stage a => exact rel_effect h (h.proceed m n stage a) rfl
  | missed m n =>
      simp only [exec]
      rcases h.cases m with ⟨hs, hs'⟩ | ⟨s, y, hs, hs'⟩ <;> rw [hs, hs']
      · exact rel_effect h rfl rfl
      · apply rel_ite
        · exact fun _ => rel_effect (h.put m s.missed y) rfl rfl
        · exact fun _ => rel_effect h rfl rfl
  -- the one place where a policy is read
  | publish m n next retry src =>
      simp only [exec]
      rcases h.cases m with ⟨hs, hs'⟩ | ⟨s, y, hs, hs'⟩ <;> rw [hs, hs']
      · exact rel_effect h rfl rfl
      · obtain ⟨z, hexposed⟩ := exposed_showing cfg cfg' m next
        dsimp only
        rw [hexposed, publish_showing, h.resets]
        apply rel_ite
        · intro _
          refine rel_effect ?_ rfl rfl
          have hput := h.put m (s.publish (exposed cfg m next) retry) z
          refine ⟨hput.slots, hput.timers, hput.resets, hput.client, ?_⟩
          exact List.rel_append hput.published (.cons ⟨z, rfl⟩ .nil)
        · exact fun _ => rel_effect h rfl rfl
  | revalidate ms =>
      cases ms with
      | nil => exact rel_effect h rfl rfl
      | cons m rest =>
          simp only [exec]
          rcases h.cases m with ⟨hs, hs'⟩ | ⟨s, y, hs, hs'⟩ <;> rw [hs, hs']
          · exact rel_effect h rfl rfl
          · apply rel_ite
            · exact fun _ => rel_effect (h.put m { s with checking := true } y) rfl rfl
            · exact fun _ => rel_effect h rfl rfl
  | read m n =>
      refine rel_effect h rfl ?_
      show [[Section.awaitRead (issue sh' m (str "getPluginInterface") n true)]] = _
      rw [h.issue]
  | awaitRead c => exact rel_effect h rfl rfl
  | revalidated a =>
      simp only [exec]
      rcases h.cases a.call.module with ⟨hs, hs'⟩ | ⟨s, y, hs, hs'⟩ <;> rw [hs, hs']
      · exact rel_effect h rfl rfl
      · have hput := h.put a.call.module { s with checking := false } y
        apply rel_ite
        · exact fun _ => rel_effect hput rfl rfl
        · intro _
          rw [show (s.showing y).view = s.view.showing y from rfl, revalidation_showing]
          cases revalidation lib s.view a.outcome.ok a.outcome.error a.outcome.value with
          | keep => exact rel_effect hput rfl rfl
          | markStale => exact rel_effect hput rfl rfl
          | refresh => exact rel_effect hput rfl rfl
  | restart a =>
      simp only [exec]
      rcases h.cases a.call.module with ⟨hs, hs'⟩ | ⟨s, y, hs, hs'⟩ <;> rw [hs, hs']
      · exact rel_effect h rfl rfl
      · apply rel_ite
        · exact fun _ => rel_effect h rfl rfl
        · exact fun _ => rel_effect (h.put a.call.module s.restart y) rfl rfl

theorem enter_alike (hcfg : cfg.SameButPolicies cfg') {sh sh' : Shared} (h : sh.Alike sh')
    (ev : Entry) :
    Option.Rel (Effect.Alike Shared.Alike) (enter cfg sh ev) (enter cfg' sh' ev) := by
  cases ev with
  | fire key =>
      simp only [enter]
      rw [h.timers]
      cases sh.timers key with
      | none => exact .none
      | some t => exact rel_effect (h.disarm key) rfl rfl
  | revalidate =>
      refine rel_effect h ?_ rfl
      show [Section.revalidate (cfg'.modules.map (·.name))] = _
      rw [hcfg.names]
  | _ => exact rel_effect h rfl rfl

theorem discovery_lockstep (hcfg : cfg.SameButPolicies cfg') :
    Lockstep Shared.Alike (discovery cfg lib reader) (discovery cfg' lib reader) where
  exec h x r := exec_alike hcfg h x r
  enter h ev := enter_alike hcfg h ev

theorem start_alike (hcfg : cfg.SameButPolicies cfg') :
    State.Alike Shared.Alike (start cfg) (start cfg') := by
  constructor
  · refine Shared.Alike.scheduleRevalidation ⟨?_, rfl, rfl, rfl, .nil⟩ hcfg
    intro m
    have hfind := hcfg.find m
    show Option.Rel _ (initialSlots cfg m) (initialSlots cfg' m)
    unfold initialSlots
    cases hem : cfg.find m with
    | none =>
        rw [hem] at hfind
        rw [Option.map_eq_none_iff.mp hfind]
        exact .none
    | some em =>
        rw [hem] at hfind
        obtain ⟨em', hem', hname⟩ := Option.map_eq_some_iff.mp hfind
        rw [hem']
        refine .some ⟨{}, ?_⟩
        show Slot.mk (pendingView em'.name) .. = _
        rw [show em'.name = em.name from hname]
        rfl
  · show cfg'.modules.map (fun em => [Section.refresh em.name]) =
      cfg.modules.map (fun em => [Section.refresh em.name])
    have hmap : ∀ c : BridgeConfig, c.modules.map (fun em => [Section.refresh em.name]) =
        (c.modules.map (·.name)).map fun m => [Section.refresh m] := fun c => by
      rw [List.map_map]
      rfl
    rw [hmap, hmap, hcfg.names]

/-! ## Two runs

`SameKnowledge` is what a client could tell apart, were it not for the policy. -/

/-- Two states that know the same: the same sections to be run, with every outstanding call among
them, the same timers, the same views up to the exposure, and the same descriptions up to
`exposure`, `methods` and `events`. -/
structure SameKnowledge (cfg cfg' : BridgeConfig) (s s' : State Shared Section) : Prop where
  threads : s'.threads = s.threads
  timers : s'.shared.timers = s.shared.timers
  views : ∀ m, ∃ x, s'.shared.viewOf m = { s.shared.viewOf m with exposure := x }
  described : ∀ m em em', cfg.find m = some em → cfg'.find m = some em' →
    ∀ withInterface key, key ≠ str "exposure" → key ≠ str "methods" → key ≠ str "events" →
      (describeView em' (s'.shared.viewOf m) withInterface).find? key =
        (describeView em (s.shared.viewOf m) withInterface).find? key

/-- **Policy restricts calls, not knowledge.** The same moves take two bridges that differ in
policies only to states that know the same, or neither can make them. -/
theorem policy_restricts_calls (hcfg : cfg.SameButPolicies cfg')
    (moves : List (Move CallOutcome Entry)) :
    Option.Rel (SameKnowledge cfg cfg')
      ((discovery cfg lib reader).replay (start cfg) moves)
      ((discovery cfg' lib reader).replay (start cfg') moves) := by
  apply rel_mono ((discovery_lockstep hcfg).replay (start_alike hcfg) moves)
  intro s s' hsame
  refine ⟨hsame.threads, hsame.shared.timers, hsame.shared.viewOf, ?_⟩
  intro m em em' _ _ withInterface key hexposure hmethods hevents
  obtain ⟨x, hview⟩ := hsame.shared.viewOf m
  rw [hview]
  exact find?_describeView_showing em em' _ x withInterface hexposure hmethods hevents

/-- `oneModule` with nothing but the built-ins allowed. -/
def closedModule : BridgeConfig where
  modules := [{ name := str "m", methods := { allowUnconstrained := false } }]

theorem policy_restricts_calls_closed :
    ((discovery oneModule echoLib echoReader).replay (start oneModule) echoMoves).isSome = true ∧
      Option.Rel (SameKnowledge oneModule closedModule)
        ((discovery oneModule echoLib echoReader).replay (start oneModule) echoMoves)
        ((discovery closedModule echoLib echoReader).replay (start closedModule) echoMoves) :=
  ⟨by decide +kernel, @policy_restricts_calls oneModule closedModule _ _ ⟨rfl, rfl⟩ echoMoves⟩

end Discovery

end JsonRpcBridge
