import JsonRpcBridge.Discovery.WellFormed
import JsonRpcBridge.Docs.Serving

/-!
# The served documents converge

A change of the views leaves a request behind it, a request that finds one pending leaves that one's
timer or rebuild to do the work, and a rebuild clears the flag before it reads the views. So while
the snapshot is out of date, something is still to come that will read the views again.

* `Converging`: the invariant that says so, with the exclusion that `m_buildMu` gives.
* `served_documents_converge`: with nothing left to do, the snapshot is what the builders make of the
  current views.
-/

namespace JsonRpcBridge.Docs

open Interleaving Serving

namespace Serving.Section

/-- A section after which some rebuild will read the views. -/
def fresh : Section → Bool
  | .discovery (.changed _) | .request | .schedule | .fired | .rebuild | .clear | .inputs => true
  | _ => false

/-- A section that stands for the pending request. -/
def carries : Section → Bool
  | .schedule | .fired | .rebuild | .clear => true
  | _ => false

/-- A section that runs under `m_buildMu`. -/
def inRebuild : Section → Bool
  | .clear | .inputs | .build _ | .store _ | .unlock => true
  | _ => false

/-- A section of a rebuild that has read the views. -/
def hasRead : Section → Bool
  | .build _ | .store _ => true
  | _ => false

/-- Work of the publisher, or a change it is about to be told of. -/
def working (x : Section) : Bool := x.fresh || x.inRebuild || x matches .refused

theorem inRebuild_of_hasRead {x : Section} (h : x.hasRead = true) : x.inRebuild = true := by
  cases x <;> first | rfl | cases h

theorem fresh_of_carries {x : Section} (h : x.carries = true) : x.fresh = true := by
  cases x <;> first | rfl | cases h

end Serving.Section

/-! ## Sets and their context

What was built from a context, and what a rebuild that has read the views carries of it. -/

/-- The set was built from `ctx`. -/
structure DocSet.Built (lib : Nlohmann) (set : DocSet) (ctx : DocContext) : Prop where
  key : set.inputsKey = docInputsKey lib ctx
  shows : set.Shows lib ctx

/-- A set that has just been built is built. -/
theorem built_buildDocSet (lib : Nlohmann) (ctx : DocContext) (generation : Nat) :
    (buildDocSet lib ctx (docInputsKey lib ctx) generation).Built lib ctx :=
  ⟨rfl, rfl, rfl, rfl⟩

/-- What a rebuild that has read the views holds was read, or built, from `ctx`. -/
def Serving.Section.From (lib : Nlohmann) : Section → DocContext → Prop
  | .build read, ctx => read = ctx
  | .store next, ctx => next.Built lib ctx
  | _, _ => False

section

variable {cfg : BridgeConfig} {lib : Nlohmann} {reader : ContractReader} {bridgeVersion : Bytes}
  {interfaceOf : Bytes → Json}

/-! ## What discovery does to the documents' input

Most sections of discovery leave the documents as they are: they move attempts, flags and timers.
Those that do not leave a `changed` behind for each module they touched, and that is a request.
So the documents' input only ever changes with a request to follow. -/

theorem map_views (f : ModuleView → ModuleDoc) (sh : Discovery.Shared) :
    (sh.views cfg).map f = cfg.modules.filterMap fun em => (sh.slots em.name).map fun s => f s.view := by
  unfold Discovery.Shared.views
  rw [List.map_filterMap]
  congr 1
  funext em
  exact Option.map_map _ _ _

/-- Going stale does not show in the documents. -/
theorem docs_of_keepsViews {sh sh' : Discovery.Shared} (hviews : sh.KeepsViews sh')
    (hslots : ∀ m, (sh'.slots m).isSome = (sh.slots m).isSome) :
    (sh'.views cfg).map toModuleDoc = (sh.views cfg).map toModuleDoc := by
  rw [map_views, map_views]
  congr 1
  funext em
  cases hs' : sh'.slots em.name with
  | none =>
      have hnone : sh.slots em.name = none := by simpa [hs'] using (hslots em.name).symm
      rw [hnone]
  | some s' =>
      obtain ⟨s, hs, hview⟩ := hviews _ s' hs'
      rw [hs]
      rw [Option.map_some, Option.map_some]
      rcases hview with hview | hview <;> rw [hview]
      rfl

/-- A section of discovery that changes the documents' input calls `changed`. -/
theorem exec_docs {sh : Discovery.Shared} {x : Discovery.Section} {r : Discovery.CallOutcome}
    {e : Effect Discovery.Shared Discovery.Section}
    (h : Discovery.exec cfg lib reader sh x r = some e) :
    (∃ m, Discovery.Section.changed m ∈ e.next) ∨
      (e.shared.views cfg).map toModuleDoc = (sh.views cfg).map toModuleDoc := by
  by_cases hpublish : ∃ m n next retry src, x = .publish m n next retry src
  · obtain ⟨m, n, next, retry, src, rfl⟩ := hpublish
    simp only [Discovery.exec] at h
    split at h
    · cases h
      exact Or.inr rfl
    · split at h <;> cases h
      · exact Or.inl ⟨m, List.mem_cons_self⟩
      · exact Or.inr rfl
  · have hne : ∀ m n next retry src, x ≠ .publish m n next retry src :=
      fun m n next retry src hx => hpublish ⟨m, n, next, retry, src, hx⟩
    exact Or.inr (docs_of_keepsViews (Discovery.exec_keepsViews hne h)
      (Discovery.exec_advances h).isSome_eq)

theorem enter_slots {sh : Discovery.Shared} {ev : Discovery.Entry}
    {e : Effect Discovery.Shared Discovery.Section} (h : Discovery.enter cfg sh ev = some e) :
    e.shared.slots = sh.slots := by
  cases ev with
  | fire key =>
      obtain ⟨_, _, rfl⟩ := Option.map_eq_some_iff.mp h
      rfl
  | _ => cases h; rfl

/-! ## The invariant

While the snapshot is not that of the current views, something is still to come that will read
them again (`Fresh`); and while a request is pending, something is on its way that will clear the
flag (`Carried`). A rebuild that has read the views already may be building an old context, but
then something fresh is to come as well.

Rebuilds exclude each other, so there is at most one section inside of a rebuild, and it is the
one that may write the snapshot. -/

/-- A later rebuild will read the views. -/
def Fresh (sh : Serving) (p : Multiset Section) : Prop :=
  sh.armed = true ∨ ∃ x ∈ p, x.fresh = true

/-- The pending request has its timer or its rebuild. -/
def Carried (sh : Serving) (p : Multiset Section) : Prop :=
  sh.armed = true ∨ ∃ x ∈ p, x.carries = true

/-- A context of views whose texts and interfaces are as assumed. -/
def Known (cfg : BridgeConfig) (bridgeVersion : Bytes) (interfaceOf : Bytes → Json)
    (ctx : DocContext) : Prop :=
  ∃ views, ctx = docContext cfg bridgeVersion views ∧ ∀ view ∈ views, Told interfaceOf view

/-- The snapshot is out of date only while a later rebuild will read the views, and a rebuild that
holds outdated views leaves another one to come. -/
structure Converging (cfg : BridgeConfig) (lib : Nlohmann) (bridgeVersion : Bytes)
    (interfaceOf : Bytes → Json) (sh : Serving) (p : Multiset Section) : Prop where
  accepted : Section.refused ∉ p
  requested : sh.pending = true → Carried sh p
  exclusion : p.countP (fun x => x.inRebuild = true) = if sh.building then 1 else 0
  told : ∀ view ∈ sh.discovery.views cfg, Told interfaceOf view
  current : ∀ set, sh.current = some set →
    ∃ ctx, Known cfg bridgeVersion interfaceOf ctx ∧ set.Built lib ctx
  reading : ∀ x ∈ p, x.hasRead = true →
    ∃ ctx, x.From lib ctx ∧ Known cfg bridgeVersion interfaceOf ctx ∧
      (ctx = now cfg bridgeVersion sh ∨ Fresh sh p)
  settled : (∀ x ∈ p, x.hasRead = false) →
    Fresh sh p ∨ ∃ set, sh.current = some set ∧ set.Built lib (now cfg bridgeVersion sh)

variable {sh sh' : Serving} {p gone made others : Multiset Section} {x : Section}

/-! ### What stays to come

A section that runs is replaced by what it leaves. What it stood for is then with one of these,
with another section, or with the timer. -/

/-- What is to come stays to come, unless it is one of the sections that run. -/
theorem Fresh.pass (h : Fresh sh (gone + others)) (harmed : sh.armed = true → sh'.armed = true)
    (hgone : ∀ x ∈ gone, x.fresh = true → Fresh sh' (made + others)) : Fresh sh' (made + others) := by
  rcases h with harm | ⟨y, hy, hfresh⟩
  · exact Or.inl (harmed harm)
  · rcases Multiset.mem_add.mp hy with hin | hin
    · exact hgone y hin hfresh
    · exact Or.inr ⟨y, Multiset.mem_add.mpr (Or.inr hin), hfresh⟩

theorem Fresh.of_made (hx : x ∈ made) (hfresh : x.fresh = true) : Fresh sh' (made + others) :=
  Or.inr ⟨x, Multiset.mem_add.mpr (Or.inl hx), hfresh⟩

theorem Carried.pass (h : Carried sh (gone + others)) (harmed : sh.armed = true → sh'.armed = true)
    (hgone : ∀ x ∈ gone, x.carries = true → Carried sh' (made + others)) : Carried sh' (made + others) := by
  rcases h with harm | ⟨y, hy, hcarries⟩
  · exact Or.inl (harmed harm)
  · rcases Multiset.mem_add.mp hy with hin | hin
    · exact hgone y hin hcarries
    · exact Or.inr ⟨y, Multiset.mem_add.mpr (Or.inr hin), hcarries⟩

theorem Carried.of_made (hx : x ∈ made) (hcarries : x.carries = true) : Carried sh' (made + others) :=
  Or.inr ⟨x, Multiset.mem_add.mpr (Or.inl hx), hcarries⟩

/-- Whoever carries a request to its rebuild will read the views. -/
theorem Carried.fresh (h : Carried sh p) : Fresh sh p := by
  rcases h with harm | ⟨y, hy, hcarries⟩
  · exact Or.inl harm
  · exact Or.inr ⟨y, hy, Section.fresh_of_carries hcarries⟩

/-- Under `m_buildMu`, a section is alone. -/
theorem Converging.alone (h : Converging cfg lib bridgeVersion interfaceOf sh (x ::ₘ others))
    (hx : x.inRebuild = true) : sh.building = true ∧ ∀ y ∈ others, y.inRebuild = false := by
  have hcount := h.exclusion
  rw [Multiset.countP_cons, if_pos hx] at hcount
  cases hb : sh.building with
  | false =>
      rw [hb] at hcount
      simp at hcount
  | true =>
      rw [hb] at hcount
      have hzero : others.countP (fun y => y.inRebuild = true) = 0 := Nat.succ.inj hcount
      refine ⟨rfl, ?_⟩
      intro y hy
      exact Bool.eq_false_iff.mpr (Multiset.countP_eq_zero.mp hzero y hy)

/-- Without it, there is none. -/
theorem Converging.none_of_free (h : Converging cfg lib bridgeVersion interfaceOf sh p)
    (hfree : sh.building = false) : ∀ y ∈ p, y.inRebuild = false := by
  have hcount := h.exclusion
  rw [hfree] at hcount
  intro y hy
  exact Bool.eq_false_iff.mpr (Multiset.countP_eq_zero.mp hcount y hy)

/-! ## One step

A section either belongs to a rebuild or it does not. `Converging.outside` and
`Converging.inside` say what is to be shown in each case, and the sections follow in the order in
which a request comes to its snapshot: the change, the request, the timer, the rebuild and its
four steps. -/

/-- What a step outside a rebuild has to keep. `gone` is the section that ran. -/
theorem Converging.outside
    (h : Converging cfg lib bridgeVersion interfaceOf sh (gone + others))
    (hgone : ∀ x ∈ gone, x.inRebuild = false)
    (hmade : ∀ x ∈ made, x.inRebuild = false ∧ x ≠ .refused)
    (hbuilding : sh'.building = sh.building) (hcurrent : sh'.current = sh.current)
    (htold : ∀ view ∈ sh'.discovery.views cfg, Told interfaceOf view)
    (hrequested : sh'.pending = true → Carried sh' (made + others))
    (hfresh : Fresh sh (gone + others) → Fresh sh' (made + others))
    (hnow : now cfg bridgeVersion sh' = now cfg bridgeVersion sh ∨ Fresh sh' (made + others)) :
    Converging cfg lib bridgeVersion interfaceOf sh' (made + others) := by
  have hout : ∀ {q : Multiset Section}, (∀ x ∈ q, x.inRebuild = false) →
      q.countP (fun x => x.inRebuild = true) = 0 := by
    intro q hq
    refine Multiset.countP_eq_zero.mpr ?_
    intro x hx hin
    rw [hq x hx] at hin
    cases hin
  have hread : ∀ {x : Section}, x.inRebuild = false → x.hasRead = false := by
    intro x hx
    cases hr : x.hasRead with
    | false => rfl
    | true => exact absurd (Section.inRebuild_of_hasRead hr) (by rw [hx]; decide)
  constructor
  case accepted =>
    intro hin
    rcases Multiset.mem_add.mp hin with hin | hin
    · exact (hmade _ hin).2 rfl
    · exact h.accepted (Multiset.mem_add.mpr (Or.inr hin))
  case requested => exact hrequested
  case exclusion =>
    have hcount := h.exclusion
    rw [Multiset.countP_add, hout hgone] at hcount
    rw [Multiset.countP_add, hout fun x hx => (hmade x hx).1, hbuilding]
    exact hcount
  case told => exact htold
  case current =>
    intro set hset
    rw [hcurrent] at hset
    exact h.current set hset
  -- a rebuild under way: what it has read is still current, or something fresh has come
  case reading =>
    intro x hx hxr
    rcases Multiset.mem_add.mp hx with hin | hin
    · rw [hread (hmade x hin).1] at hxr
      cases hxr
    · obtain ⟨ctx, hfrom, hknown, hctx⟩ := h.reading x (Multiset.mem_add.mpr (Or.inr hin)) hxr
      refine ⟨ctx, hfrom, hknown, ?_⟩
      rcases hctx with rfl | hold
      · rcases hnow with hnow | hnew
        · exact Or.inl hnow.symm
        · exact Or.inr hnew
      · exact Or.inr (hfresh hold)
  -- no rebuild has read: either something fresh was to come, or the snapshot was current
  case settled =>
    intro hnone
    have hbefore : ∀ x ∈ gone + others, x.hasRead = false := by
      intro x hx
      rcases Multiset.mem_add.mp hx with hin | hin
      · exact hread (hgone x hin)
      · exact hnone x (Multiset.mem_add.mpr (Or.inr hin))
    rcases h.settled hbefore with hold | ⟨set, hset, hbuilt⟩
    · exact Or.inl (hfresh hold)
    · rcases hnow with hnow | hnew
      · exact Or.inr ⟨set, hcurrent.trans hset, hnow ▸ hbuilt⟩
      · exact Or.inl hnew

/-- What a step of a rebuild has to keep: no other rebuild is under way. -/
theorem Converging.inside
    (h : Converging cfg lib bridgeVersion interfaceOf sh (x ::ₘ others)) {next : List Section}
    (hothers : ∀ y ∈ others, y.inRebuild = false) (hnext : Section.refused ∉ next)
    (hcount : next.countP (fun y => y.inRebuild = true) = if sh'.building then 1 else 0)
    (hdiscovery : sh'.discovery = sh.discovery)
    (hrequested : sh'.pending = true → Carried sh' (↑next + others))
    (hcurrent : ∀ set, sh'.current = some set →
      ∃ ctx, Known cfg bridgeVersion interfaceOf ctx ∧ set.Built lib ctx)
    (hreading : ∀ y ∈ next, y.hasRead = true →
      ∃ ctx, y.From lib ctx ∧ Known cfg bridgeVersion interfaceOf ctx ∧
        (ctx = now cfg bridgeVersion sh ∨ Fresh sh' (↑next + others)))
    (hsettled : (∀ y ∈ next, y.hasRead = false) → Fresh sh' (↑next + others) ∨
      ∃ set, sh'.current = some set ∧ set.Built lib (now cfg bridgeVersion sh)) :
    Converging cfg lib bridgeVersion interfaceOf sh' (↑next + others) := by
  have hnow : now cfg bridgeVersion sh' = now cfg bridgeVersion sh := by
    rw [now, hdiscovery, now]
  constructor
  case accepted =>
    intro hin
    rcases Multiset.mem_add.mp hin with hin | hin
    · exact hnext (Multiset.mem_coe.mp hin)
    · exact h.accepted (Multiset.mem_cons_of_mem hin)
  case requested => exact hrequested
  -- the section is the only one inside, and so is what it makes
  case exclusion =>
    have hzero : others.countP (fun y => y.inRebuild = true) = 0 := by
      refine Multiset.countP_eq_zero.mpr ?_
      intro y hy hin
      rw [hothers y hy] at hin
      cases hin
    rw [Multiset.countP_add, hzero, Nat.add_zero, Multiset.coe_countP]
    exact hcount
  case told =>
    rw [hdiscovery]
    exact h.told
  case current => exact hcurrent
  -- only what the section makes can have read
  case reading =>
    intro y hy hyr
    rw [hnow]
    rcases Multiset.mem_add.mp hy with hin | hin
    · exact hreading y (Multiset.mem_coe.mp hin) hyr
    · have hinside := Section.inRebuild_of_hasRead hyr
      rw [hothers y hin] at hinside
      cases hinside
  case settled =>
    intro hnone
    rw [hnow]
    exact hsettled fun y hy => hnone y (Multiset.mem_add.mpr (Or.inl (Multiset.mem_coe.mpr hy)))

variable (cfg lib reader bridgeVersion interfaceOf) in
/-- The scheduler and the pump accept, no build throws, and the views are as assumed. -/
def accepting : Guard Serving Section Choice Serving.Entry where
  run sh _ x c := c.accepted = true ∧ c.throws = false ∧
    ∀ e, Serving.exec cfg lib reader bridgeVersion sh x c = some e →
      ∀ view ∈ e.shared.discovery.views cfg, Told interfaceOf view
  enter _ _ _ := True

theorem mem_made_ofDiscovery {y : Discovery.Section}
    {e : Effect Discovery.Shared Discovery.Section} {z : Section} :
    z ∈ (ofDiscovery sh y e).made ↔ z ∈ viewChanged y ∨ ∃ w ∈ e.made, Section.discovery w = z := by
  rw [← @Effect.mem_made_lift _ _ _ _ fun d => ({ sh with discovery := d } : Serving)]
  simp only [Effect.mem_made, ofDiscovery, List.mem_append, or_assoc]

/-- A section of discovery. If the documents change, it makes a request. -/
theorem Converging.discovery {y : Discovery.Section}
    {e : Effect Discovery.Shared Discovery.Section} {r : Discovery.CallOutcome}
    (h : Converging cfg lib bridgeVersion interfaceOf sh ({.discovery y} + others))
    (htold : ∀ view ∈ e.shared.views cfg, Told interfaceOf view)
    (hexec : Discovery.exec cfg lib reader sh.discovery y r = some e) :
    Converging cfg lib bridgeVersion interfaceOf (ofDiscovery sh y e).shared
      ((ofDiscovery sh y e).made + others) := by
  -- either a change of the view is among the sections made, or the documents are the same
  have hchange : (∃ z ∈ (ofDiscovery sh y e).made, z.fresh = true) ∨
      now cfg bridgeVersion (ofDiscovery sh y e).shared = now cfg bridgeVersion sh := by
    rcases exec_docs hexec with ⟨m, hm⟩ | hsame
    · exact Or.inl ⟨_, mem_made_ofDiscovery.mpr (Or.inr ⟨_, Effect.mem_made_next hm, rfl⟩), rfl⟩
    · right
      unfold now docContext
      rw [show (ofDiscovery sh y e).shared.discovery = e.shared from rfl, hsame]
  refine h.outside ?_ ?_ rfl rfl htold ?_ ?_ ?_
  · intro x hx
    rw [Multiset.mem_singleton.mp hx]
    rfl
  · intro x hx
    rcases mem_made_ofDiscovery.mp hx with hx | ⟨w, -, rfl⟩
    · unfold viewChanged at hx
      split at hx
      · rw [List.mem_singleton.mp hx]
        exact ⟨rfl, nofun⟩
      · cases hx
    · exact ⟨rfl, nofun⟩
  · intro hpending
    refine (h.requested hpending).pass id ?_
    intro x hx hcarries
    rw [Multiset.mem_singleton.mp hx] at hcarries
    cases hcarries
  · intro hfresh
    refine hfresh.pass id ?_
    intro x hx hx'
    rw [Multiset.mem_singleton.mp hx] at hx'
    cases y with
    | changed m => exact .of_made (mem_made_ofDiscovery.mpr (Or.inl List.mem_cons_self)) rfl
    | _ => cases hx'
  · rcases hchange with ⟨z, hz, hfresh⟩ | hsame
    · exact Or.inr (.of_made hz hfresh)
    · exact Or.inl hsame

/-! ### Section by section -/

/-- A request arms the timer, unless one is pending: then that one has a carrier. -/
theorem Converging.request (h : Converging cfg lib bridgeVersion interfaceOf sh ({.request} + others))
    {e : Effect Serving Section} {c : Choice}
    (hexec : Serving.exec cfg lib reader bridgeVersion sh .request c = some e) :
    Converging cfg lib bridgeVersion interfaceOf e.shared (e.made + others) := by
  have hgone : ∀ x ∈ ({.request} : Multiset Section), x.inRebuild = false ∧ x.carries = false := by
    intro x hx
    rw [Multiset.mem_singleton.mp hx]
    exact ⟨rfl, rfl⟩
  simp only [Serving.exec] at hexec
  split at hexec <;> cases hexec
  · rename_i hpending
    have hcarried : Carried sh ((0 : Multiset Section) + others) := by
      refine (h.requested hpending).pass id ?_
      intro x hx hcarries
      rw [(hgone x hx).2] at hcarries
      cases hcarries
    exact h.outside (fun x hx => (hgone x hx).1) (fun x hx => absurd hx (Multiset.notMem_zero x)) rfl
      rfl h.told (fun _ => hcarried) (fun _ => hcarried.fresh) (Or.inl rfl)
  · have hschedule : Section.schedule ∈ (↑[Section.schedule] : Multiset Section) :=
      List.mem_cons_self
    refine h.outside (fun x hx => (hgone x hx).1) ?_ rfl rfl h.told ?_ ?_ (Or.inl rfl)
    · intro x hx
      rw [List.mem_singleton.mp hx]
      exact ⟨rfl, nofun⟩
    · exact fun _ => .of_made hschedule rfl
    · exact fun _ => .of_made hschedule rfl

/-- The timer is armed. -/
theorem Converging.schedule
    (h : Converging cfg lib bridgeVersion interfaceOf sh ({.schedule} + others)) :
    Converging cfg lib bridgeVersion interfaceOf { sh with armed := true }
      ((0 : Multiset Section) + others) := by
  refine h.outside ?_ (fun x hx => absurd hx (Multiset.notMem_zero x)) rfl rfl h.told
    (fun _ => Or.inl rfl) (fun _ => Or.inl rfl) (Or.inl rfl)
  intro x hx
  rw [Multiset.mem_singleton.mp hx]
  rfl

theorem Converging.fired (h : Converging cfg lib bridgeVersion interfaceOf sh ({.fired} + others)) :
    Converging cfg lib bridgeVersion interfaceOf sh (↑[Section.rebuild] + others) := by
  have hrebuild : Section.rebuild ∈ (↑[Section.rebuild] : Multiset Section) := List.mem_cons_self
  refine h.outside ?_ ?_ rfl rfl h.told (fun _ => .of_made hrebuild rfl)
    (fun _ => .of_made hrebuild rfl) (Or.inl rfl)
  · intro x hx
    rw [Multiset.mem_singleton.mp hx]
    rfl
  · intro x hx
    rw [List.mem_singleton.mp hx]
    exact ⟨rfl, nofun⟩

/-- A rebuild begins when no other is under way. -/
theorem Converging.rebuild
    (h : Converging cfg lib bridgeVersion interfaceOf sh (.rebuild ::ₘ others))
    (hfree : sh.building = false) :
    Converging cfg lib bridgeVersion interfaceOf { sh with building := true }
      (↑[Section.clear] + others) := by
  have hclear : Section.clear ∈ (↑[Section.clear] : Multiset Section) := List.mem_cons_self
  refine h.inside ?_ (by simp) rfl rfl (fun _ => .of_made hclear rfl) h.current ?_ ?_
  · exact fun y hy => h.none_of_free hfree y (Multiset.mem_cons_of_mem hy)
  · intro y hy hread
    rw [List.mem_singleton.mp hy] at hread
    cases hread
  · exact fun _ => Or.inl (.of_made hclear rfl)

/-- The flag is cleared before the views are read, so a request that comes later is not lost. -/
theorem Converging.clear (h : Converging cfg lib bridgeVersion interfaceOf sh (.clear ::ₘ others)) :
    Converging cfg lib bridgeVersion interfaceOf { sh with pending := false }
      (↑[Section.inputs] + others) := by
  have hinputs : Section.inputs ∈ (↑[Section.inputs] : Multiset Section) := List.mem_cons_self
  obtain ⟨hbuilding, hothers⟩ := h.alone rfl
  refine h.inside hothers (by simp) ?_ rfl nofun h.current ?_ ?_
  · show _ = if sh.building then 1 else 0
    rw [hbuilding]
    rfl
  · intro y hy hread
    rw [List.mem_singleton.mp hy] at hread
    cases hread
  · exact fun _ => Or.inl (.of_made hinputs rfl)

/-- A section that ends neither a request nor a rebuild that has yet to read leaves them to the
others. -/
theorem Converging.keeps {next : List Section}
    (h : Converging cfg lib bridgeVersion interfaceOf sh (x ::ₘ others))
    (hx : x.carries = false) (harmed : sh'.armed = sh.armed) (hpending : sh'.pending = sh.pending) :
    sh'.pending = true → Carried sh' (↑next + others) := by
  intro hp
  rw [← Multiset.singleton_add] at h
  refine (h.requested (hpending ▸ hp)).pass (fun harm => harmed.trans harm) ?_
  intro y hy hcarries
  rw [Multiset.mem_singleton.mp hy, hx] at hcarries
  cases hcarries

theorem Fresh.keeps {next : List Section} (h : Fresh sh (x ::ₘ others)) (hx : x.fresh = false)
    (harmed : sh'.armed = sh.armed) : Fresh sh' (↑next + others) := by
  rw [← Multiset.singleton_add] at h
  refine h.pass (fun harm => harmed.trans harm) ?_
  intro y hy hfresh
  rw [Multiset.mem_singleton.mp hy, hx] at hfresh
  cases hfresh

/-- The views are read. -/
theorem Converging.inputs
    (h : Converging cfg lib bridgeVersion interfaceOf sh (.inputs ::ₘ others)) :
    Converging cfg lib bridgeVersion interfaceOf sh
      (↑[Section.build (now cfg bridgeVersion sh)] + others) := by
  obtain ⟨hbuilding, hothers⟩ := h.alone rfl
  refine h.inside hothers (by simp) ?_ rfl (h.keeps rfl rfl rfl) h.current ?_ ?_
  · rw [hbuilding]
    rfl
  · intro y hy _
    rw [List.mem_singleton.mp hy]
    exact ⟨_, rfl, ⟨_, rfl, h.told⟩, Or.inl rfl⟩
  · intro hnone
    cases hnone _ List.mem_cons_self

/-- The documents are built from what was read, or the key shows that nothing has changed. -/
theorem Converging.build (hlib : Set.InjOn lib.textReplacing {j | Json.Plain j})
    (hhost : Utf8 cfg.host) (hversion : Utf8 bridgeVersion) {ctx : DocContext}
    (h : Converging cfg lib bridgeVersion interfaceOf sh (.build ctx ::ₘ others))
    {e : Effect Serving Section} {c : Choice} (hc : c.throws = false)
    (hexec : Serving.exec cfg lib reader bridgeVersion sh (.build ctx) c = some e) :
    Converging cfg lib bridgeVersion interfaceOf e.shared (e.made + others) := by
  obtain ⟨hbuilding, hothers⟩ := h.alone rfl
  obtain ⟨ctx', rfl, hknown, hctx⟩ := h.reading _ (Multiset.mem_cons_self _ _) rfl
  -- what the comparison finds is built, or found to be built already
  have hstore : ∀ generation, Converging cfg lib bridgeVersion interfaceOf sh
      (↑[Section.store (buildDocSet lib ctx (docInputsKey lib ctx) generation)] + others) := by
    intro generation
    refine h.inside hothers (by simp) ?_ rfl (h.keeps rfl rfl rfl) h.current ?_ ?_
    · rw [hbuilding]
      rfl
    · intro y hy _
      rw [List.mem_singleton.mp hy]
      exact ⟨ctx, built_buildDocSet lib ctx generation, hknown,
        hctx.imp_right fun hfresh => hfresh.keeps rfl rfl⟩
    · intro hnone
      cases hnone _ List.mem_cons_self
  simp only [Serving.exec, hc, Bool.false_eq_true, if_false] at hexec
  split at hexec
  · cases hexec
    exact hstore 1
  · rename_i prev hprev
    split at hexec <;> cases hexec
    · rename_i hkey
      refine h.inside hothers (by simp) ?_ rfl (h.keeps rfl rfl rfl) h.current ?_ ?_
      · show _ = if sh.building then 1 else 0
        rw [hbuilding]
        rfl
      · intro y hy hread
        rw [List.mem_singleton.mp hy] at hread
        cases hread
      · intro _
        -- one key, one context: the snapshot is that of the current views
        rcases hctx with rfl | hfresh
        · obtain ⟨built, ⟨views, rfl, hviews⟩, hbuilt⟩ := h.current prev hprev
          have hsame : docContext cfg bridgeVersion views = now cfg bridgeVersion sh :=
            docContext_eq_of_key hlib hhost hversion hviews h.told (hbuilt.key.symm.trans hkey)
          exact Or.inr ⟨prev, hprev, hsame ▸ hbuilt⟩
        · exact Or.inl (hfresh.keeps rfl rfl)
    · exact hstore (prev.generation + 1)

/-- The snapshot is replaced. -/
theorem Converging.store {next : DocSet}
    (h : Converging cfg lib bridgeVersion interfaceOf sh (.store next ::ₘ others)) :
    Converging cfg lib bridgeVersion interfaceOf { sh with current := some next }
      (↑[Section.unlock] + others) := by
  obtain ⟨hbuilding, hothers⟩ := h.alone rfl
  obtain ⟨ctx, hbuilt, hknown, hctx⟩ := h.reading _ (Multiset.mem_cons_self _ _) rfl
  refine h.inside hothers (by simp) ?_ rfl (h.keeps rfl rfl rfl) ?_ ?_ ?_
  · show _ = if sh.building then 1 else 0
    rw [hbuilding]
    rfl
  · intro set hset
    obtain rfl := Option.some.inj hset
    exact ⟨ctx, hknown, hbuilt⟩
  · intro y hy hread
    rw [List.mem_singleton.mp hy] at hread
    cases hread
  · intro _
    rcases hctx with rfl | hfresh
    · exact Or.inr ⟨next, rfl, hbuilt⟩
    · exact Or.inl (hfresh.keeps rfl rfl)

/-- The rebuild is over. -/
theorem Converging.unlock
    (h : Converging cfg lib bridgeVersion interfaceOf sh (.unlock ::ₘ others)) :
    Converging cfg lib bridgeVersion interfaceOf { sh with building := false }
      (↑([] : List Section) + others) := by
  obtain ⟨-, hothers⟩ := h.alone rfl
  refine h.inside hothers (by simp) rfl rfl (h.keeps rfl rfl rfl) h.current (by simp) ?_
  intro _
  have hnone : ∀ y ∈ Section.unlock ::ₘ others, y.hasRead = false := by
    intro y hy
    rcases Multiset.mem_cons.mp hy with rfl | hin
    · rfl
    · cases hread : y.hasRead with
      | false => rfl
      | true => exact (Section.inRebuild_of_hasRead hread).symm.trans (hothers y hin)
  rcases h.settled hnone with hfresh | hbuilt
  · exact Or.inl (hfresh.keeps rfl rfl)
  · exact Or.inr hbuilt

/-- **Step.** Every section keeps the invariant. -/
theorem Converging.step (hlib : Set.InjOn lib.textReplacing {j | Json.Plain j})
    (hhost : Utf8 cfg.host) (hversion : Utf8 bridgeVersion) {c : Choice} {e : Effect Serving Section}
    (h : Converging cfg lib bridgeVersion interfaceOf sh (x ::ₘ others))
    (hok : (accepting cfg lib reader bridgeVersion interfaceOf).run sh (x ::ₘ others) x c)
    (hexec : Serving.exec cfg lib reader bridgeVersion sh x c = some e) :
    Converging cfg lib bridgeVersion interfaceOf e.shared (e.made + others) := by
  obtain ⟨haccepted, hthrows, htold⟩ := hok
  have hout := Multiset.singleton_add x others ▸ h
  cases x with
  | discovery y =>
      have htold' := htold e hexec
      obtain ⟨e', hexec', rfl⟩ := Option.map_eq_some_iff.mp hexec
      exact Converging.discovery hout htold' hexec'
  | request => exact hout.request hexec
  | schedule =>
      simp only [Serving.exec, haccepted, if_true] at hexec
      cases hexec
      exact hout.schedule
  | fired =>
      simp only [Serving.exec, haccepted, if_true] at hexec
      cases hexec
      exact hout.fired
  -- the scheduler accepts every call here, so nothing is refused
  | refused => exact absurd (Multiset.mem_cons_self _ _) h.accepted
  | rebuild =>
      simp only [Serving.exec] at hexec
      split at hexec <;> cases hexec
      rename_i hfree
      exact h.rebuild (Bool.eq_false_iff.mpr hfree)
  | clear =>
      cases hexec
      exact h.clear
  | inputs =>
      simp only [Serving.exec, hthrows, Bool.false_eq_true, if_false] at hexec
      cases hexec
      exact h.inputs
  | build ctx => exact h.build hlib hhost hversion hthrows hexec
  | store next =>
      cases hexec
      exact h.store
  | unlock =>
      cases hexec
      exact h.unlock

theorem enter_not_changed {sh : Discovery.Shared} {ev : Discovery.Entry}
    {e : Effect Discovery.Shared Discovery.Section} (h : Discovery.enter cfg sh ev = some e) :
    e.shared.views cfg = sh.views cfg := by
  unfold Discovery.Shared.views
  rw [enter_slots h]

theorem Converging.enter {ev : Serving.Entry} {e : Effect Serving Section}
    (h : Converging cfg lib bridgeVersion interfaceOf sh p)
    (henter : Serving.enter cfg sh ev = some e) :
    Converging cfg lib bridgeVersion interfaceOf e.shared (e.made + p) := by
  have hnothing : ∀ x ∈ (0 : Multiset Section), x.inRebuild = false :=
    fun x hx => absurd hx (Multiset.notMem_zero x)
  have hp : Converging cfg lib bridgeVersion interfaceOf sh (0 + p) := (Multiset.zero_add p).symm ▸ h
  cases ev with
  | discovery ev =>
      obtain ⟨e', henter', rfl⟩ := Option.map_eq_some_iff.mp henter
      have hviews := enter_not_changed henter'
      refine hp.outside hnothing ?_ rfl rfl ?_ ?_ ?_ ?_
      · intro x hx
        obtain ⟨w, -, rfl⟩ := Effect.mem_made_lift.mp hx
        exact ⟨rfl, nofun⟩
      · show ∀ view ∈ e'.shared.views cfg, Told interfaceOf view
        rw [hviews]
        exact h.told
      · exact fun hpending => (hp.requested hpending).pass id
          fun x hx => absurd hx (Multiset.notMem_zero x)
      · exact fun hfresh => hfresh.pass id fun x hx => absurd hx (Multiset.notMem_zero x)
      · left
        show docContext cfg bridgeVersion (e'.shared.views cfg) = _
        rw [hviews]
        rfl
  | fire =>
      simp only [Serving.enter] at henter
      split at henter <;> cases henter
      have hfired : Section.fired ∈ (↑[Section.fired] : Multiset Section) := List.mem_cons_self
      refine hp.outside hnothing ?_ rfl rfl h.told (fun _ => .of_made hfired rfl)
        (fun _ => .of_made hfired rfl) (Or.inl rfl)
      intro x hx
      rw [List.mem_singleton.mp hx]
      exact ⟨rfl, nofun⟩

/-! ## Runs

At the start a request is made for the first snapshot, so the invariant holds before there is
one. At rest nothing is to come, and what is left of it is that the snapshot is current. -/

theorem converging_start (htold : ∀ view ∈ (Serving.start cfg).shared.discovery.views cfg,
      Told interfaceOf view) :
    Converging cfg lib bridgeVersion interfaceOf (Serving.start cfg).shared
      (Serving.start cfg).pending := by
  have hmem : ∀ x ∈ (Serving.start cfg).pending, x = .rebuild ∨ ∃ y, x = .discovery y := by
    intro x hx
    obtain ⟨t, ht, hx⟩ := List.mem_flatten.mp (Multiset.mem_coe.mp hx)
    rcases List.mem_cons.mp ht with rfl | ht
    · exact Or.inl (List.mem_singleton.mp hx)
    · obtain ⟨t', -, rfl⟩ := List.mem_map.mp ht
      obtain ⟨y, -, rfl⟩ := List.mem_map.mp hx
      exact Or.inr ⟨y, rfl⟩
  have hfirst : Section.rebuild ∈ (Serving.start cfg).pending := List.mem_cons_self
  constructor
  case accepted =>
    intro hin
    rcases hmem _ hin with h | ⟨y, h⟩ <;> cases h
  case requested => exact nofun
  case exclusion =>
    refine Multiset.countP_eq_zero.mpr ?_
    intro x hx hin
    rcases hmem x hx with rfl | ⟨y, rfl⟩ <;> cases hin
  case told => exact htold
  case current => exact nofun
  case reading =>
    intro x hx hread
    rcases hmem x hx with rfl | ⟨y, rfl⟩ <;> cases hread
  case settled => exact fun _ => Or.inl (Or.inr ⟨_, hfirst, rfl⟩)

/-- **Run.** -/
theorem converging_of_run (hlib : Set.InjOn lib.textReplacing {j | Json.Plain j})
    (hhost : Utf8 cfg.host) (hversion : Utf8 bridgeVersion)
    (htold : ∀ view ∈ (Serving.start cfg).shared.discovery.views cfg, Told interfaceOf view)
    {s : State Serving Section}
    (h : Run (serving cfg lib reader bridgeVersion)
      (accepting cfg lib reader bridgeVersion interfaceOf) (Serving.start cfg) s) :
    Converging cfg lib bridgeVersion interfaceOf s.shared s.pending :=
  Run.invariant (converging_start htold) (fun hI hok hexec => hI.step hlib hhost hversion hok hexec)
    (fun hI _ henter => hI.enter henter) h

/-- The views of a start are pending ones. -/
theorem told_start (hnames : ∀ em ∈ cfg.modules, Utf8 em.name) (hnull : interfaceOf [] = .null) :
    ∀ view ∈ (Serving.start cfg).shared.discovery.views cfg, Told interfaceOf view := by
  intro view hview
  obtain ⟨em, -, hslot⟩ := List.mem_filterMap.mp hview
  obtain ⟨t, ht, rfl⟩ := Option.map_eq_some_iff.mp hslot
  rw [show (Serving.start cfg).shared.discovery.slots = Discovery.initialSlots cfg from
    Discovery.slots_scheduleRevalidation _ _] at ht
  obtain ⟨em', hfind, rfl⟩ := Option.map_eq_some_iff.mp ht
  exact ⟨hnames em' (BridgeConfig.find_mem hfind).1, clean_pendingView _, hnull.symm⟩

/-- Nothing is left to do: no request is under way, the timer is not armed, and no rebuild is queued
or running. -/
def Quiet (s : State Serving Section) : Prop :=
  s.shared.armed = false ∧ ∀ x ∈ s.pending, x.working = false

/-- With nothing left to do, the served documents are those of the current views. -/
theorem served_documents_converge {own text : Bytes}
    (hcfg : parseBridgeConfig lib own text = .ok cfg) (hversion : Utf8 bridgeVersion)
    (hlib : Set.InjOn lib.textReplacing {j | Json.Plain j}) (hnull : interfaceOf [] = .null)
    {s : State Serving Section}
    (h : Run (serving cfg lib reader bridgeVersion)
      (accepting cfg lib reader bridgeVersion interfaceOf) (Serving.start cfg) s)
    (hquiet : Quiet s) :
    ∃ set, s.shared.current = some set ∧
      set.Shows lib (docContext cfg bridgeVersion (s.shared.discovery.views cfg)) := by
  have hnames := fun em hem => ((accepted_of_parse hcfg).clean em hem).1
  have hI := converging_of_run hlib (utf8_of_isLoopbackHost (loopback_of_parse hcfg)) hversion
    (told_start hnames hnull) h
  have hidle : ∀ x ∈ s.pending, x.fresh = false ∧ x.inRebuild = false := by
    intro x hx
    have hwork := hquiet.2 x hx
    simp only [Section.working, Bool.or_eq_false_iff] at hwork
    exact hwork.1
  have hunread : ∀ x ∈ s.pending, x.hasRead = false := by
    intro x hx
    cases hread : x.hasRead with
    | false => rfl
    | true => exact (Section.inRebuild_of_hasRead hread).symm.trans (hidle x hx).2
  rcases hI.settled hunread with harm | ⟨set, hset, hbuilt⟩
  · rcases harm with harm | ⟨x, hx, hfresh⟩
    · rw [hquiet.1] at harm
      cases harm
    · rw [(hidle x hx).1] at hfresh
      cases hfresh
  · exact ⟨set, hset, hbuilt.shows⟩

/-! ## A run

The first report of the module comes after the first build. -/

/-- The minimal configuration's text, and compact dumps. -/
def compactLib : Nlohmann := { minimalLib with text := Json.compact, textReplacing := Json.compact }

/-- A view of `m1` without a single text of its own. -/
def bareView (view : ModuleView) : Bool :=
  view.module == str "m1" && view.live.methods.isEmpty && view.live.events.isEmpty &&
    view.contract.isNone && view.interfaceError.isEmpty && view.contractSha256.isEmpty &&
    view.interfaceSha256.isEmpty && view.crossCheck.findings.isEmpty &&
    view.exposure.methods.isEmpty && view.exposure.events.isEmpty

theorem told_of_bareView {view : ModuleView} (h : bareView view = true) :
    Told (fun _ => .null) view := by
  simp only [bareView, Bool.and_eq_true, beq_iff_eq, List.isEmpty_iff, Option.isNone_iff_eq_none] at h
  obtain ⟨⟨⟨⟨⟨⟨⟨⟨⟨hmodule, hmethods⟩, hevents⟩, hcontract⟩, herror⟩, hsha⟩, hisha⟩, hcheck⟩,
    hexposed⟩, hexposed'⟩ := h
  have hnone {α : Type} {P : α → Prop} {l : List α} (hl : l = []) : ∀ x ∈ l, P x := by
    rw [hl]
    exact nofun
  refine ⟨hmodule ▸ utf8_str _, ?_, ?_⟩
  · constructor
    case live => exact ⟨hnone hmethods, hnone hevents⟩
    case contract =>
      rw [hcontract]
      exact nofun
    case interfaceError => exact herror ▸ utf8_nil
    case contractSha256 => exact hsha ▸ utf8_nil
    case interfaceSha256 => exact hisha ▸ utf8_nil
    case crossCheck => exact hnone hcheck
    case exposure => exact ⟨hnone hexposed, hnone hexposed'⟩
  · have htyped : view.typed? = none := by
      unfold ModuleView.typed?
      rw [hcontract, ite_self]
    unfold toModuleDoc
    rw [htyped]
    dsimp only
    split <;> rfl

/-- A move that is accepted, throws nothing and leaves bare views. -/
def bareMove (s : State Serving Section) (m : Move Choice Serving.Entry) : Bool :=
  match m with
  | .run _ c => c.accepted && !c.throws &&
    ((serving minimalConfig compactLib .refusing (str "1.0")).step s m).all fun s' =>
      (s'.shared.discovery.views minimalConfig).all bareView
  | .enter _ => true

theorem admits_of_bareMove {s : State Serving Section} {m : Move Choice Serving.Entry}
    (h : bareMove s m = true) :
    (accepting minimalConfig compactLib .refusing (str "1.0") fun _ => .null).Admits s m := by
  cases m with
  | enter ev => exact trivial
  | run i c =>
      simp only [bareMove, Bool.and_eq_true, Bool.not_eq_true'] at h
      obtain ⟨⟨haccepted, hthrows⟩, hviews⟩ := h
      intro x hx
      refine ⟨haccepted, hthrows, ?_⟩
      intro e he view hview
      obtain ⟨t, ht, hhead⟩ := Option.bind_eq_some_iff.mp hx
      obtain ⟨rest, rfl⟩ := List.head?_eq_some_iff.mp hhead
      simp only [Program.step, ht] at hviews
      rw [show (serving minimalConfig compactLib .refusing (str "1.0")).exec s.shared x c = some e
        from he] at hviews
      exact told_of_bareView (List.all_eq_true.mp hviews view hview)

/-- The first build, a first report without methods, and the build that follows it. -/
def firstChange : List (Move Choice Serving.Entry) :=
  List.replicate 6 (.run 0 {}) ++
  [.run 1 {}, .run 1 {}, .run 2 { outcome := { value := .arr [] } }, .run 3 {}, .run 3 {}, .run 3 {},
    .run 3 {}, .run 3 {}, .run 3 {}, .enter .fire, .run 4 {}] ++
  List.replicate 6 (.run 5 {})

/-- After the first report, the second snapshot is the one served. -/
theorem served_documents_converge_first : ∃ s,
    Run (serving minimalConfig compactLib .refusing (str "1.0"))
      (accepting minimalConfig compactLib .refusing (str "1.0") fun _ => .null)
      (Serving.start minimalConfig) s ∧ Quiet s ∧
    (s.shared.discovery.views minimalConfig).map (·.status) = [.untyped] ∧
    ∃ set, s.shared.current = some set ∧
      set.Shows compactLib (docContext minimalConfig (str "1.0")
        (s.shared.discovery.views minimalConfig)) := by
  have hlast : ((serving minimalConfig compactLib .refusing (str "1.0")).replayIf bareMove
      (Serving.start minimalConfig) firstChange).map (fun s => (s.shared.armed,
        s.threads.flatten.all fun x => !x.working,
        (s.shared.discovery.views minimalConfig).map (·.status))) =
      some (false, true, [.untyped]) := by decide +kernel
  obtain ⟨s, hs, hend⟩ := Option.map_eq_some_iff.mp hlast
  obtain ⟨harmed, hwork, hstatus⟩ : s.shared.armed = false ∧
      (s.threads.flatten.all fun x => !x.working) = true ∧
      (s.shared.discovery.views minimalConfig).map (·.status) = [.untyped] := by
    simpa using hend
  have hrun := Run.replayIf (fun s m => admits_of_bareMove) Run.start hs
  have hquiet : Quiet s := by
    refine ⟨harmed, ?_⟩
    intro x hx
    have hidle := List.all_eq_true.mp hwork x (Multiset.mem_coe.mp hx)
    simpa using hidle
  have hparse : parseBridgeConfig compactLib (str "json_rpc_bridge") minimalText =
      .ok minimalConfig := rfl
  exact ⟨s, hrun, hquiet, hstatus, served_documents_converge hparse (utf8_str _) Json.compact_injOn
    rfl hrun hquiet⟩

end

end JsonRpcBridge.Docs
