import JsonRpcBridge.Discovery.Rediscovery

/-!
# What is advertised is what is allowed

`exposureOf` says what a view advertises, `methodPermitted` and `eventPermitted` what the gate lets
through; they are computed apart. `permitted_of_exposed` and `exposed_of_permitted` compare them on
any view, and `stored_exposure` says that in every reachable state of discovery the exposure a view
carries is still its own.
-/

namespace JsonRpcBridge

/-! ## The gate on one view

The gate asks one name at a time and the exposure filters a list of them. Both come to the same
membership: reserved names out, the policy, and what the view declares or reports. -/

section

variable {cfg : BridgeConfig} {em : ExposedModule} {view : ModuleView} {c : TypedContract}
  {name : Bytes}

theorem TypedContract.isSome_method : (c.method name).isSome = true ↔ name ∈ c.methods.map (·.name) := by
  rw [TypedContract.method, List.find?_isSome]
  simp

theorem TypedContract.declaresEvent_iff :
    c.declaresEvent name = true ↔ name ∈ c.events.map (·.name) := by
  rw [TypedContract.declaresEvent, List.any_eq_true]
  simp

theorem LiveReport.hasMethod_iff {r : LiveReport} :
    r.hasMethod name = true ↔ name ∈ r.methods.map (·.name) := by
  rw [LiveReport.hasMethod, LiveReport.method, List.find?_isSome]
  simp

theorem LiveReport.hasEvent_iff {r : LiveReport} :
    r.hasEvent name = true ↔ name ∈ r.events.map (·.name) := by
  rw [LiveReport.hasEvent, List.any_eq_true]
  simp

theorem methodPermitted_iff (hfind : cfg.find view.module = some em) :
    methodPermitted cfg view name = true ↔
      isReservedIntrospection name = false ∧ em.methodAllowed name = true ∧
        match view.typed? with
        | some c => name ∈ c.methods.map (·.name)
        | none => view.resolved = false ∨ view.live.methods = [] ∨
            name ∈ view.live.methods.map (·.name) := by
  unfold methodPermitted
  rw [hfind]
  dsimp only
  cases hreserved : isReservedIntrospection name with
  | true => simp
  | false =>
      cases hallowed : em.methodAllowed name with
      | false => simp
      | true =>
          cases view.typed? with
          | some c => simp [TypedContract.isSome_method]
          | none => simp [LiveReport.hasMethod_iff, or_assoc]

theorem eventPermitted_iff (hfind : cfg.find view.module = some em) :
    eventPermitted cfg view name = true ↔
      em.events.permits name = true ∧
        match view.typed? with
        | some c => name ∈ c.events.map (·.name)
        | none => view.resolved = false ∨ view.live.eventsDeclared = false ∨
            name ∈ view.live.events.map (·.name) := by
  unfold eventPermitted
  rw [hfind]
  dsimp only
  cases hpermits : em.events.permits name with
  | false => simp
  | true =>
      cases view.typed? with
      | some c => simp [TypedContract.declaresEvent_iff]
      | none => simp [LiveReport.hasEvent_iff, or_assoc]

theorem mem_exposureOf_methods (em : ExposedModule) (view : ModuleView) (name : Bytes) :
    name ∈ (exposureOf em view).methods ↔
      isReservedIntrospection name = false ∧ em.methodAllowed name = true ∧
        match view.typed? with
        | some c => name ∈ c.methods.map (·.name)
        | none => view.resolved = true ∧ name ∈ view.live.methods.map (·.name) := by
  unfold exposureOf
  cases view.typed? with
  | some c =>
      rw [mem_exposeDeclared_methods]
      tauto
  | none =>
      dsimp only
      by_cases hresolved : view.resolved = true
      · rw [if_neg (by simp [hresolved]), exposeLive_methods, mem_exposeDeclared_methods]
        tauto
      · rw [if_pos (by simpa using hresolved)]
        simp [hresolved]

theorem mem_exposureOf_events (em : ExposedModule) (view : ModuleView) (name : Bytes) :
    name ∈ (exposureOf em view).events ↔ em.events.permits name = true ∧
      match view.typed? with
      | some c => name ∈ c.events.map (·.name)
      | none => view.resolved = true ∧ (name ∈ view.live.events.map (·.name) ∨
          view.live.eventsDeclared = false ∧ em.events.allowUnconstrained = false ∧
            name ∈ em.events.allow) := by
  unfold exposureOf
  cases view.typed? with
  | some c =>
      rw [mem_exposeDeclared_events]
      tauto
  | none =>
      dsimp only
      by_cases hresolved : view.resolved = true
      · rw [if_neg (by simp [hresolved]), mem_exposeLive_events]
        tauto
      · rw [if_pos (by simpa using hresolved)]
        simp [hresolved]

/-! ### Agreement on a view

A typed view and its gate agree on every name. A view without a contract advertises what it knows
of, and the gate lets that through. -/

/-- The gate and the exposure agree on a view, as far as the view can know its names. -/
structure Advertises (cfg : BridgeConfig) (view : ModuleView) (name : Bytes) : Prop where
  typed : view.typed?.isSome = true →
    (methodPermitted cfg view name = true ↔ name ∈ view.exposure.methods) ∧
    (eventPermitted cfg view name = true ↔ name ∈ view.exposure.events)
  live : view.resolved = true → view.typed? = none →
    (name ∈ view.exposure.methods → methodPermitted cfg view name = true) ∧
    (name ∈ view.exposure.events → eventPermitted cfg view name = true)
  methods : view.resolved = true → view.typed? = none → view.live.methods ≠ [] →
    methodPermitted cfg view name = true → name ∈ view.exposure.methods
  events : view.resolved = true → view.typed? = none →
    (view.live.eventsDeclared = true ∨
      ∃ em, cfg.find view.module = some em ∧ em.events.allowUnconstrained = false) →
    eventPermitted cfg view name = true → name ∈ view.exposure.events
  reserved : isReservedIntrospection name = true →
    methodPermitted cfg view name = false ∧ name ∉ view.exposure.methods
  pending : view.resolved = false → view.exposure.methods = [] ∧ view.exposure.events = []

/-- A view whose exposure is its own is advertised as it is gated. -/
theorem advertises_of_exposure (hfind : cfg.find view.module = some em)
    (hexposure : view.exposure = exposureOf em view) : Advertises cfg view name := by
  have hmethods := mem_exposureOf_methods em view name
  have hevents := mem_exposureOf_events em view name
  rw [← hexposure] at hmethods hevents
  have hmethod : methodPermitted cfg view name = true ↔ _ := methodPermitted_iff hfind
  have hevent : eventPermitted cfg view name = true ↔ _ := eventPermitted_iff hfind
  constructor
  case typed =>
    intro htyped
    obtain ⟨c, hc⟩ := Option.isSome_iff_exists.mp htyped
    rw [hc] at hmethods hevents hmethod hevent
    exact ⟨hmethod.trans hmethods.symm, hevent.trans hevents.symm⟩
  case live =>
    intro _ hc
    rw [hc] at hmethods hevents hmethod hevent
    rw [hmethods, hevents, hmethod, hevent]
    exact ⟨fun ⟨h, h', _, hname⟩ => ⟨h, h', Or.inr (Or.inr hname)⟩, fun ⟨h, _, h'⟩ =>
      ⟨h, h'.elim (fun hname => Or.inr (Or.inr hname)) fun hallow => Or.inr (Or.inl hallow.1)⟩⟩
  -- an untyped view goes by what was reported, if the report says anything
  case methods =>
    intro hresolved hc hlive hpermitted
    rw [hc] at hmethods hmethod
    obtain ⟨h, h', hor⟩ := hmethod.mp hpermitted
    refine hmethods.mpr ⟨h, h', hresolved, ?_⟩
    rcases hor with hpending | hnone | hname
    · rw [hresolved] at hpending
      cases hpending
    · exact absurd hnone hlive
    · exact hname
  -- an untagged report says nothing of events, and an allow list speaks for them
  case events =>
    intro hresolved hc hknown hpermitted
    rw [hc] at hevents hevent
    obtain ⟨h, hor⟩ := hevent.mp hpermitted
    refine hevents.mpr ⟨h, hresolved, ?_⟩
    rcases hor with hpending | huntagged | hname
    · rw [hresolved] at hpending
      cases hpending
    · refine Or.inr ⟨huntagged, ?_⟩
      rcases hknown with hdeclared | ⟨em', hfind', hallow⟩
      · rw [hdeclared] at huntagged
        cases huntagged
      · obtain rfl : em = em' := Option.some.inj (hfind.symm.trans hfind')
        exact ⟨hallow, mem_allow_of_permits h hallow⟩
    · exact Or.inl hname
  case reserved =>
    intro hreserved
    constructor
    · rw [Bool.eq_false_iff]
      intro hpermitted
      rw [(hmethod.mp hpermitted).1] at hreserved
      cases hreserved
    · intro hname
      rw [(hmethods.mp hname).1] at hreserved
      cases hreserved
  case pending =>
    intro hpending
    have hempty : exposureOf em view = {} := by
      have htyped : view.typed? = none := by
        have hstatus : view.status = .pending := by simpa [ModuleView.resolved] using hpending
        simp [ModuleView.typed?, hstatus]
      rw [exposureOf, htyped]
      simp [hpending]
    rw [hexposure, hempty]
    exact ⟨rfl, rfl⟩

/-- A module that is not exposed is pending for ever, and nothing of it is let through. -/
theorem advertises_of_hidden {m : Bytes} (h : cfg.find m = none) :
    Advertises cfg (pendingView m) name where
  typed htyped := by cases htyped
  live hresolved := by cases hresolved
  methods hresolved := by cases hresolved
  events hresolved := by cases hresolved
  reserved _ := by
    have hfind : cfg.find (pendingView m).module = none := h
    exact ⟨by simp only [methodPermitted, hfind], List.not_mem_nil⟩
  pending _ := ⟨rfl, rfl⟩

end

namespace Discovery

open Interleaving

variable {cfg : BridgeConfig} {lib : Nlohmann} {reader : ContractReader}

/-! ## The stored exposure

A view gets its exposure in `publish` and keeps it from there on. `clientReplaced` and the other
sections mark it stale, and neither `exposureOf` nor the gate reads that. -/

/-- The view of a module is about that module, and carries the exposure it should. -/
def Stored (cfg : BridgeConfig) (m : Bytes) (view : ModuleView) : Prop :=
  view.module = m ∧ ∃ em, cfg.find m = some em ∧ view.exposure = exposureOf em view

theorem Stored.stale {m : Bytes} {view : ModuleView} (h : Stored cfg m view) :
    Stored cfg m (staleView view) := h

/-! ### Views on their way -/

/-- A view that is about to be published is about the module it is published for. -/
def Section.About : Section → Prop
  | .publish m _ next _ _ => next.module = m
  | _ => True

/-- Every slot keeps its view, or its view goes stale. -/
def Shared.KeepsViews (sh sh' : Shared) : Prop :=
  ∀ m s', sh'.slots m = some s' →
    ∃ s, sh.slots m = some s ∧ (s'.view = s.view ∨ s'.view = staleView s.view)

theorem Shared.KeepsViews.of_eq {sh sh' : Shared} (h : sh'.slots = sh.slots) :
    sh.KeepsViews sh' := by
  intro m s hs
  rw [h] at hs
  exact ⟨s, hs, Or.inl rfl⟩

theorem Shared.KeepsViews.put {sh sh' : Shared} {m : Bytes} {s s' : Slot} (hs : sh.slots m = some s)
    (hsh : sh'.slots = (sh.put m s').slots) (hview : s'.view = s.view ∨ s'.view = staleView s.view) :
    sh.KeepsViews sh' := by
  intro k t ht
  rw [hsh, Shared.slots_put] at ht
  by_cases hk : k = m
  · rw [if_pos hk] at ht
    cases ht
    exact ⟨s, hk ▸ hs, hview⟩
  · rw [if_neg hk] at ht
    exact ⟨t, ht, Or.inl rfl⟩

/-- No section but `publish` makes a view. -/
theorem exec_keepsViews {sh : Shared} {x : Section} {r : CallOutcome} {e : Effect Shared Section}
    (hne : ∀ m n next retry src, x ≠ .publish m n next retry src)
    (h : exec cfg lib reader sh x r = some e) : sh.KeepsViews e.shared := by
  cases x with
  | publish m n next retry src => exact absurd rfl (hne m n next retry src)
  | refresh m =>
      simp only [exec] at h
      split at h <;> cases h
      · exact .of_eq rfl
      · rename_i s hs
        exact .put hs rfl (Or.inl rfl)
  -- what sends a module back to discovery may mark its view stale; the rest leaves it alone
  | providerLost m =>
      simp only [exec] at h
      split at h <;> cases h
      · exact .of_eq rfl
      · rename_i s hs
        exact .put hs rfl (Or.inr rfl)
  | providerArmed m g =>
      simp only [exec] at h
      split at h
      · cases h
        exact .of_eq rfl
      · rename_i s hs
        split at h <;> cases h
        · exact .put hs rfl (Or.inl rfl)
        · exact .put hs rfl (Or.inr rfl)
  | clientReplaced m =>
      simp only [exec] at h
      split at h <;> cases h
      · exact .of_eq rfl
      · rename_i s hs
        refine .put hs rfl ?_
        unfold Slot.clientReplaced
        dsimp only
        split
        · exact Or.inr rfl
        · exact Or.inl rfl
  | callUnavailable m =>
      simp only [exec] at h
      split at h
      · cases h
        exact .of_eq rfl
      · rename_i s hs
        split at h <;> cases h
        · exact .of_eq rfl
        · exact .put hs rfl (Or.inr rfl)
  | missed m n =>
      simp only [exec] at h
      split at h
      · cases h
        exact .of_eq rfl
      · rename_i s hs
        split at h <;> cases h
        · exact .put hs rfl (Or.inl rfl)
        · exact .of_eq rfl
  | fired job => cases job <;> cases h <;> exact .of_eq (by simp)
  | revalidate ms =>
      cases ms with
      | nil => cases h; exact .of_eq rfl
      | cons m rest =>
          simp only [exec] at h
          split at h
          · cases h
            exact .of_eq rfl
          · rename_i s hs
            split at h <;> cases h
            · exact .put hs rfl (Or.inl rfl)
            · exact .of_eq rfl
  | revalidated a =>
      simp only [exec] at h
      split at h
      · cases h
        exact .of_eq rfl
      · rename_i s hs
        have hkeeps : sh.KeepsViews (sh.put a.call.module { s with checking := false }) :=
          .put hs rfl (Or.inl rfl)
        split at h
        · cases h
          exact hkeeps
        · split at h <;> cases h <;> exact hkeeps
  | restart a =>
      simp only [exec] at h
      split at h
      · cases h
        exact .of_eq rfl
      · rename_i s hs
        split at h <;> cases h
        · exact .of_eq rfl
        · exact .put hs rfl (Or.inr rfl)
  | resume a stage =>
      simp only [exec] at h
      split at h
      · cases h
        exact .of_eq rfl
      · split at h <;> cases h <;> exact .of_eq rfl
  | _ => cases h; exact .of_eq rfl

/-- A continuation publishes a view of the module it was given. -/
theorem about_of_mem_proceed {sh : Shared} {m : Bytes} {n : Nat} {stage : Stage} {a : Answer}
    {x : Section} (hmodule : (sh.viewOf m).module = m)
    (hx : x ∈ proceed lib reader sh m n stage a) : x.About := by
  cases stage with
  | interface =>
      simp only [proceed, onInterface] at hx
      split at hx
      · rw [List.mem_singleton.mp hx]
        trivial
      · split at hx <;> rw [List.mem_singleton.mp hx]
        · exact hmodule
        · trivial
  | contract live report =>
      simp only [proceed, onContract] at hx
      split at hx
      · rw [List.mem_singleton.mp hx]
        exact hmodule
      · split at hx
        · rw [List.mem_singleton.mp hx]
          exact hmodule
        · split at hx <;> rw [List.mem_singleton.mp hx]
          · exact hmodule
          · trivial
  | version live typed sha report text =>
      rw [List.mem_singleton.mp hx]
      show (checkedView _ _ _ _ _).module = m
      unfold checkedView
      dsimp only
      split <;> exact hmodule

/-! ## The invariant

It is about the slots and about the views that are still to be published. -/

/-- The invariant: every slot's view is stored with its exposure, and what is to be published is
about its module. -/
structure Advertised (cfg : BridgeConfig) (sh : Shared) (p : Multiset Section) : Prop where
  stored : ∀ m s, sh.slots m = some s → Stored cfg m s.view
  about : ∀ x ∈ p, x.About

theorem Advertised.module_viewOf {sh : Shared} {p : Multiset Section} (h : Advertised cfg sh p)
    (m : Bytes) : (sh.viewOf m).module = m := by
  unfold Shared.viewOf
  cases hs : sh.slots m with
  | none => rfl
  | some s => exact (h.stored m s hs).1

/-- What `publish` installs is stored with its exposure. -/
theorem stored_publish {m : Bytes} {s : Slot} {em : ExposedModule} {next : ModuleView} {retry : Bool}
    (hfind : cfg.find m = some em) (hnext : next.module = m) :
    Stored cfg m (s.publish (exposed cfg m next) retry).view := by
  have hexposed : exposed cfg m next = withExposure em next := by simp only [exposed, hfind]
  rw [hexposed]
  exact ⟨hnext, em, hfind, rfl⟩

theorem exec_about {sh : Shared} {x : Section} {r : CallOutcome} {e : Effect Shared Section}
    (hmodule : ∀ m, (sh.viewOf m).module = m) (h : exec cfg lib reader sh x r = some e) :
    ∀ y ∈ e.made, y.About := by
  intro y hy
  cases exec_leaves h hy with
  | idle hnone =>
      cases y with
      | publish m n next retry src => cases hnone
      | _ => trivial
  | proceeds hmem => exact about_of_mem_proceed (hmodule _) hmem
  | _ => trivial

/-- **Step.** -/
theorem Advertised.step {sh : Shared} {x : Section} {r : CallOutcome} {e : Effect Shared Section}
    {others : Multiset Section} (h : Advertised cfg sh (x ::ₘ others))
    (hexec : exec cfg lib reader sh x r = some e) :
    Advertised cfg e.shared (e.made + others) := by
  refine ⟨?_, Effect.forall_made (exec_about h.module_viewOf hexec)
    fun y hy => h.about y (Multiset.mem_cons_of_mem hy)⟩
  intro m s' hs'
  by_cases hpublish : ∃ m n next retry src, x = .publish m n next retry src
  · obtain ⟨k, n, next, retry, src, rfl⟩ := hpublish
    have habout : next.module = k := h.about _ (Multiset.mem_cons_self _ _)
    simp only [exec] at hexec
    split at hexec
    · cases hexec
      exact h.stored m s' hs'
    · rename_i s hs
      split at hexec <;> cases hexec
      · simp only [Shared.slots_put] at hs'
        -- the one view that is made; its module is the one the section was for
        by_cases hm : m = k
        · rw [if_pos hm] at hs'
          cases hs'
          subst hm
          obtain ⟨-, em, hfind, -⟩ := h.stored m s hs
          exact stored_publish hfind habout
        · rw [if_neg hm] at hs'
          exact h.stored m s' hs'
      · exact h.stored m s' hs'
  · have hne : ∀ m n next retry src, x ≠ .publish m n next retry src :=
      fun m n next retry src hx => hpublish ⟨m, n, next, retry, src, hx⟩
    obtain ⟨s, hs, hview⟩ := exec_keepsViews hne hexec m s' hs'
    rcases hview with hview | hview <;> rw [hview]
    · exact h.stored m s hs
    · exact (h.stored m s hs).stale

theorem advertised_start : Advertised cfg (start cfg).shared (start cfg).pending := by
  constructor
  · intro m s hs
    have hslot : initialSlots cfg m = some s := by simpa [start] using hs
    obtain ⟨em, hfind, rfl⟩ := Option.map_eq_some_iff.mp hslot
    exact ⟨(BridgeConfig.find_mem hfind).2, em, hfind, rfl⟩
  · intro x hx
    obtain ⟨em, -, rfl⟩ : ∃ em ∈ cfg.modules, x = .refresh em.name := by
      simpa [start, State.pending, eq_comm] using hx
    trivial

theorem Advertised.enter {sh : Shared} {ev : Entry} {e : Effect Shared Section}
    {p : Multiset Section} (h : Advertised cfg sh p) (henter : enter cfg sh ev = some e) :
    Advertised cfg e.shared (e.made + p) := by
  constructor
  · intro m t ht
    obtain ⟨t', ht', hview⟩ : ∃ t', sh.slots m = some t' ∧ t.view = t'.view := by
      cases ev with
      | fire key =>
          obtain ⟨_, _, rfl⟩ := Option.map_eq_some_iff.mp henter
          exact ⟨t, ht, rfl⟩
      | _ => cases henter; exact ⟨t, ht, rfl⟩
    rw [hview]
    exact h.stored m t' ht'
  · refine Effect.forall_made ?_ h.about
    intro y hy
    have hload := enter_load henter hy
    cases y with
    | publish m n next retry src => cases hload
    | _ => trivial

/-- **Run.** -/
theorem advertised_of_run {s : State Shared Section} {G : Guard Shared Section CallOutcome Entry}
    (h : Run (discovery cfg lib reader) G (start cfg) s) :
    Advertised cfg s.shared s.pending :=
  Run.invariant advertised_start (fun hI _ hexec => hI.step hexec)
    (fun hI _ henter => hI.enter henter) h

/-- **What is advertised is what is allowed**, of every module and every name in every reachable
state. -/
theorem advertised_iff_permitted {s : State Shared Section}
    (h : Run (discovery cfg lib reader) Guard.any (start cfg) s) (m name : Bytes) :
    Advertises cfg (s.shared.viewOf m) name := by
  unfold Shared.viewOf
  cases hs : s.shared.slots m with
  | none =>
      have hslots := slots_of_run h m
      rw [hs] at hslots
      exact advertises_of_hidden (Option.isNone_iff_eq_none.mp (by simpa using hslots.symm))
  | some t =>
      obtain ⟨hmodule, em, hfind, hexposure⟩ := (advertised_of_run h).stored m t hs
      exact advertises_of_exposure (hmodule.symm ▸ hfind) hexposure

/-- What the views of `m` and `n` advertise. -/
def advertisedOf (sh : Shared) : List (InterfaceStatus × List Bytes × List Bytes) :=
  [sh.viewOf (str "m"), sh.viewOf (str "n")].map fun v =>
    (v.status, v.exposure.methods, v.exposure.events)

/-- `m` is typed, and its policy denies `reset`; `n` is not, and may be asked for all that it
reports. -/
theorem advertised_iff_permitted_sensor :
    ∃ s, Run (discovery twoModules sensorLib sensorReader) Guard.any (start twoModules) s ∧
      advertisedOf s.shared = [(.ok, [str "read"], [str "changed"]),
        (.untyped, [str "get/item", str "reset"], [])] ∧
      ∀ module ∈ [str "m", str "n"], ∀ name ∈ [str "read", str "reset", str "changed"],
        Advertises twoModules (s.shared.viewOf module) name := by
  have hmoves : ((discovery twoModules sensorLib sensorReader).replay (start twoModules)
      sensorMoves).map (fun s => advertisedOf s.shared) =
      some [(.ok, [str "read"], [str "changed"]), (.untyped, [str "get/item", str "reset"], [])] := by
    decide +kernel
  obtain ⟨s, hs, hend⟩ := Option.map_eq_some_iff.mp hmoves
  have hrun := Run.replay .start hs
  exact ⟨s, hrun, hend, fun module _ name _ => advertised_iff_permitted hrun module name⟩

end Discovery

end JsonRpcBridge
