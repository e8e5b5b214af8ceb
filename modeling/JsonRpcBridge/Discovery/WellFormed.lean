import JsonRpcBridge.Discovery.Advertised

/-!
# Well-formed views

Five constructors, the stale copies and the renumbering under the lock make the views. `Recorded`
says what they come to: the view of a module is the one its last publication installed, up to
`stale`, numbered by the publications so far; before the first it is the pending view.

With what a publication is built from (`Publication.Sound`), `views_well_formed` reads every clause
of `WellFormed` off that.
-/

namespace JsonRpcBridge.Discovery

open Interleaving

variable {cfg : BridgeConfig} {lib : Nlohmann} {reader : ContractReader} {sh : Shared} {m : Bytes}

/-! ## The record

A view is the last publication, but for its number, its exposure and its staleness. -/

/-- The publications of a module, oldest first. -/
def Shared.publishedOf (sh : Shared) (m : Bytes) : List Publication :=
  sh.published.filter fun p => p.module == m

/-- `v` is what the publications `ps` of `m` left. -/
def Recorded (m : Bytes) (ps : List Publication) (v : ModuleView) : Prop :=
  v.generation = ps.length ∧
    match ps.getLast? with
    | none => v = pendingView m
    | some p => ∃ stale, v = { p.view with stale := stale }

theorem Recorded.stale {ps : List Publication} {v : ModuleView} (h : Recorded m ps v) :
    Recorded m ps (staleView v) := by
  obtain ⟨hgeneration, hlast⟩ := h
  refine ⟨hgeneration, ?_⟩
  cases hp : ps.getLast? with
  | none =>
      rw [hp] at hlast
      rw [show v = pendingView m from hlast]
      rfl
  | some p =>
      rw [hp] at hlast
      obtain ⟨_, rfl⟩ := hlast
      exact ⟨_, rfl⟩

/-- `publish` installs the next one. -/
theorem Recorded.publish {ps : List Publication} {p : Publication} {v : ModuleView}
    (h : Recorded m ps v) (hp : p.view.generation = v.generation + 1) :
    Recorded m (ps ++ [p]) p.view := by
  refine ⟨?_, ?_⟩
  · rw [hp, h.1, List.length_append, List.length_singleton]
  · rw [List.getLast?_concat]
    exact ⟨p.view.stale, rfl⟩

/-! ## Every section keeps the record

Only `publish` adds to the record; of the other sections the most that happens to a view is that
it goes stale. -/

/-- The invariant. -/
def AllRecorded (sh : Shared) : Prop := ∀ m, Recorded m (sh.publishedOf m) (sh.viewOf m)

theorem publishedOf_append (sh : Shared) (s : Slot) (p : Publication) (k : Bytes) :
    ({ sh.put m s with published := sh.published ++ [p] } : Shared).publishedOf k =
      if k = p.module then sh.publishedOf k ++ [p] else sh.publishedOf k := by
  unfold Shared.publishedOf
  rw [List.filter_append]
  by_cases hk : k = p.module
  · rw [if_pos hk, List.filter_cons_of_pos (by simp [hk]), List.filter_nil]
  · rw [if_neg hk, List.filter_cons_of_neg (by simpa using Ne.symm hk), List.filter_nil,
      List.append_nil]

/-- Where only views go stale and nothing is published, the record stands. -/
theorem AllRecorded.keep {sh' : Shared} (h : AllRecorded sh) (hviews : sh.KeepsViews sh')
    (hslots : ∀ m, (sh'.slots m).isSome = (sh.slots m).isSome)
    (hpublished : sh'.published = sh.published) : AllRecorded sh' := by
  intro m
  have hm := h m
  have hsame : sh'.publishedOf m = sh.publishedOf m := congrArg (List.filter _) hpublished
  rw [hsame]
  unfold Shared.viewOf at hm ⊢
  cases hs' : sh'.slots m with
  | none =>
      have hnone : sh.slots m = none := by simpa [hs'] using (hslots m).symm
      rw [hnone] at hm
      exact hm
  | some s' =>
      obtain ⟨s, hs, hview⟩ := hviews m s' hs'
      rw [hs] at hm
      show Recorded m (sh.publishedOf m) s'.view
      rcases hview with hview | hview <;> rw [hview]
      · exact hm
      · exact hm.stale

theorem AllRecorded.exec {x : Section} {r : CallOutcome} {e : Effect Shared Section}
    (h : AllRecorded sh) (hexec : Discovery.exec cfg lib reader sh x r = some e) :
    AllRecorded e.shared := by
  -- the publication of the module itself adds one; another module has its own list
  by_cases hpublish : ∃ m n next retry src, x = .publish m n next retry src
  · obtain ⟨k, n, next, retry, src, rfl⟩ := hpublish
    simp only [Discovery.exec] at hexec
    split at hexec
    · cases hexec
      exact h
    · rename_i s hs
      split at hexec <;> cases hexec
      · intro m
        have hm := h m
        rw [publishedOf_append]
        unfold Shared.viewOf at hm ⊢
        simp only [Shared.slots_put]
        by_cases hk : m = k
        · rw [hk, hs] at hm
          rw [if_pos hk, if_pos hk, hk]
          exact hm.publish rfl
        · rw [if_neg hk, if_neg hk]
          exact hm
      · exact h
  · have hne : ∀ m n next retry src, x ≠ .publish m n next retry src :=
      fun m n next retry src hx => hpublish ⟨m, n, next, retry, src, hx⟩
    exact h.keep (exec_keepsViews hne hexec) (exec_advances hexec).isSome_eq
      (exec_published_of_ne hne hexec)

/-! ### Runs -/

theorem recorded_of_run {s : State Shared Section} {G : Guard Shared Section CallOutcome Entry}
    (h : Run (discovery cfg lib reader) G (start cfg) s) : AllRecorded s.shared := by
  refine Run.invariant (I := fun sh _ => AllRecorded sh) ?_ (fun hI _ hexec => hI.exec hexec) ?_ h
  · intro m
    have hview : (start cfg).shared.viewOf m = pendingView m := by
      unfold Shared.viewOf
      simp only [start, slots_scheduleRevalidation, initialSlots]
      cases hfind : cfg.find m with
      | none => rfl
      | some em => exact congrArg pendingView (BridgeConfig.find_mem hfind).2
    have hnone : (start cfg).shared.publishedOf m = [] := by simp [start, Shared.publishedOf]
    rw [hview, hnone]
    exact ⟨rfl, rfl⟩
  · intro sh ev e p hI _ henter
    have hslots : e.shared.slots = sh.slots := by
      cases ev with
      | fire key =>
          obtain ⟨_, _, rfl⟩ := Option.map_eq_some_iff.mp henter
          rfl
      | _ => cases henter; rfl
    exact hI.keep (.of_eq hslots) (fun m => by rw [hslots]) (enter_published henter)

/-- Publications are never taken back. -/
theorem published_grows {s s' : State Shared Section}
    {G : Guard Shared Section CallOutcome Entry} (h : Run (discovery cfg lib reader) G s s') :
    s.shared.published <+: s'.shared.published := by
  refine Run.invariant (I := fun sh _ => s.shared.published <+: sh.published) List.prefix_rfl
    ?_ ?_ h
  · intro sh x r e others hI _ hexec
    refine hI.trans ?_
    by_cases hpublish : ∃ m n next retry src, x = .publish m n next retry src
    · obtain ⟨k, n, next, retry, src, rfl⟩ := hpublish
      simp only [discovery, exec] at hexec
      split at hexec
      · cases hexec
        exact List.prefix_rfl
      · split at hexec <;> cases hexec
        · exact List.prefix_append _ _
        · exact List.prefix_rfl
    · have hsame : e.shared.published = sh.published :=
        exec_published_of_ne (fun m n next retry src hx => hpublish ⟨m, n, next, retry, src, hx⟩)
          hexec
      exact hsame ▸ List.prefix_rfl
  · intro sh ev e p hI _ henter
    rw [enter_published henter]
    exact hI

/-! ## What a publication installs

`Built` is what each status says of a view, as its constructor leaves it. Numbering, exposure and
staleness come later and touch none of it. -/

theorem contractErrorText_ne_nil (c : ContractResult) (rev : Bytes) :
    contractErrorText c rev ≠ [] := by
  unfold contractErrorText
  refine List.append_ne_nil_of_right_ne_nil _ ?_
  exact str_ne_nil (by decide)

/-- The digest of a served contract is that of its interface. -/
theorem interfaceDigest_of_typedContract {r : ContractResult} {c : TypedContract}
    (h : typedContract lib r = some c) : interfaceDigest lib c.interface = .ok c.interfaceSha256 := by
  unfold typedContract at h
  split at h
  · cases h
  · split_ifs at h
    split at h
    · cases h
    · rename_i digest hdigest
      cases h
      exact hdigest

/-! ### Status by status -/

/-- What `ok` says of a view that was read from the answer `text`. -/
structure Served (lib : Nlohmann) (v : ModuleView) (text : Answer) : Prop where
  contract : ∃ c, v.contract = some c ∧ interfaceDigest lib c.interface = .ok v.interfaceSha256 ∧
    ∃ runtime, v.crossCheck = crossCheck c v.live runtime
  bytes : ∃ s, text.call.method = str "lidl" ∧ text.outcome.ok = true ∧
    text.outcome.value = .str s ∧ v.contractSha256 = sha256Hex s
  crossChecked : v.crossChecked = true ∧ v.crossCheck.hasErrors = false
  error : v.interfaceError = []

/-- What each status says of a view, as it is built. -/
structure Built (lib : Nlohmann) (src : Sources) (v : ModuleView) : Prop where
  resolved : v.status ≠ .pending
  ok : v.status = .ok → ∃ text, src.text = some text ∧ Served lib v text
  invalid : v.status = .invalid → v.contract = none ∧ v.interfaceSha256 = [] ∧ v.interfaceError ≠ []
  untyped : v.status = .untyped → lidlPresent v.live = false ∧ v.contract = none ∧
    v.contractSha256 = [] ∧ v.interfaceSha256 = []

theorem built_of_builtFrom {src : Sources} {n : Nat} {next : ModuleView} (hof : src.Of m n)
    (h : BuiltFrom lib reader m src next) : Built lib src next := by
  -- one case for each constructor of a view
  cases h with
  | untyped prev _ hlidl => exact ⟨nofun, nofun, nofun, fun _ => ⟨hlidl, rfl, rfl, rfl⟩⟩
  | @unread report text live prev _ _ hunread =>
      refine ⟨nofun, nofun, fun _ => ⟨rfl, rfl, ?_⟩, nofun⟩
      rcases lidl_cases text with ⟨hok, -⟩ | ⟨-, herror⟩
      · rw [hunread] at hok
        cases hok
      · exact herror
  | unserved prev _ _ hrefuses =>
      refine ⟨nofun, nofun, fun _ => ⟨rfl, rfl, ?_⟩, nofun⟩
      rcases hrefuses.2 with ⟨-, rfl⟩ | ⟨-, -, rfl⟩
      · exact contractErrorText_ne_nil _ _
      · exact str_ne_nil (by decide)
  | @checked report text version live typed sha prev _ _ hcontract =>
      obtain ⟨hok, rfl, -, htyped⟩ := hcontract
      unfold checkedView
      dsimp only
      split_ifs with herrors
      · refine ⟨nofun, nofun, fun _ => ⟨rfl, rfl, str_ne_nil (by decide)⟩, nofun⟩
      · refine ⟨nofun, fun _ => ⟨text, rfl, ?_⟩, nofun, nofun⟩
        rcases lidl_cases text with ⟨-, hcall, hvalue⟩ | ⟨hno, -⟩
        · exact ⟨⟨typed, rfl, interfaceDigest_of_typedContract htyped, _, rfl⟩,
            ⟨_, (hof.text text rfl).method, hcall, hvalue, rfl⟩,
            ⟨rfl, by simpa using herrors⟩, rfl⟩
        · rw [hno] at hok
          cases hok

/-- Exposure, number and staleness are patched on afterwards. -/
theorem Built.patch {src : Sources} {next : ModuleView} (h : Built lib src next)
    (generation : Nat) (stale : Bool) (exposure : Exposure) :
    Built lib src { next with generation := generation, stale := stale, exposure := exposure } :=
  ⟨h.resolved, fun hok => (h.ok hok).imp fun _ ht => ⟨ht.1, ⟨ht.2.contract, ht.2.bytes,
    ht.2.crossChecked, ht.2.error⟩⟩, h.invalid, h.untyped⟩

theorem built_of_sound {p : Publication} (h : p.Sound cfg lib reader) :
    Built lib p.sources p.view := by
  obtain ⟨next, generation, hbuilt, hview⟩ := h.built
  have hnext := built_of_builtFrom h.of hbuilt
  rw [hview]
  unfold exposed
  cases cfg.find p.module with
  | none => exact hnext.patch generation false next.exposure
  | some em => exact hnext.patch generation false (exposureOf em next)

/-! ## Every reachable view

The view of a module is its last publication, so what `Built` says of that one holds of the view. -/

/-- The current view of a module, in one state. -/
structure WellFormed (cfg : BridgeConfig) (lib : Nlohmann) (sh : Shared) (m : Bytes)
    (v : ModuleView) : Prop where
  ok : v.status = .ok → ∃ p text, p ∈ sh.published ∧ p.module = m ∧
    (∃ stale, v = { p.view with stale := stale }) ∧ p.sources.text = some text ∧ Served lib v text
  invalid : v.status = .invalid → v.contract = none ∧ v.interfaceSha256 = [] ∧ v.interfaceError ≠ []
  untyped : v.status = .untyped → lidlPresent v.live = false ∧ v.contract = none ∧
    v.contractSha256 = [] ∧ v.interfaceSha256 = []
  pending : v.status = .pending →
    v.stale = false ∧ v.live = {} ∧ v.exposure = {} ∧ v.generation = 0
  exposure : ∀ em, cfg.find m = some em → v.exposure = exposureOf em v
  generation : v.generation = (sh.publishedOf m).length

theorem wellFormed_of_recorded {v : ModuleView} (h : Recorded m (sh.publishedOf m) v)
    (hexposure : ∀ em, cfg.find m = some em → v.exposure = exposureOf em v)
    (hsound : ∀ p ∈ sh.published, p.Sound cfg lib reader) : WellFormed cfg lib sh m v := by
  obtain ⟨hgeneration, hlast⟩ := h
  cases hp : (sh.publishedOf m).getLast? with
  | none =>
      rw [hp] at hlast
      obtain rfl : v = pendingView m := hlast
      exact ⟨nofun, nofun, nofun, fun _ => ⟨rfl, rfl, rfl, rfl⟩, hexposure, hgeneration⟩
  | some p =>
      rw [hp] at hlast
      obtain ⟨stale, hview⟩ := hlast
      obtain ⟨hmem, hmodule⟩ := List.mem_filter.mp (List.mem_of_getLast? hp)
      have hbuilt : Built lib p.sources v := by
        rw [hview]
        exact (built_of_sound (hsound p hmem)).patch p.view.generation stale p.view.exposure
      refine ⟨fun hok => ?_, hbuilt.invalid, hbuilt.untyped, fun hpending =>
        absurd hpending hbuilt.resolved, hexposure, hgeneration⟩
      obtain ⟨text, htext, hserved⟩ := hbuilt.ok hok
      exact ⟨p, text, hmem, beq_iff_eq.mp hmodule, ⟨stale, hview⟩, htext, hserved⟩

/-- A view is past pending once its module has a publication. -/
theorem pending_iff {v : ModuleView} (h : Recorded m (sh.publishedOf m) v)
    (hsound : ∀ p ∈ sh.published, p.Sound cfg lib reader) :
    v.status = .pending ↔ sh.publishedOf m = [] := by
  cases hp : (sh.publishedOf m).getLast? with
  | none =>
      have hnil := List.getLast?_eq_none_iff.mp hp
      have hlast := h.2
      rw [hp] at hlast
      exact ⟨fun _ => hnil, fun _ => congrArg ModuleView.status hlast⟩
  | some p =>
      have hlast := h.2
      rw [hp] at hlast
      obtain ⟨stale, rfl⟩ := hlast
      have hmem := List.mem_of_getLast? hp
      have hbuilt := built_of_sound (hsound p (List.mem_filter.mp hmem).1)
      exact ⟨fun hpending => absurd hpending hbuilt.resolved,
        fun hnil => absurd hnil (List.ne_nil_of_mem hmem)⟩

/-- **Views are well formed** in every reachable state, and one that has left pending never returns
to it. -/
theorem views_well_formed {s s' : State Shared Section}
    (h : Run (discovery cfg lib reader) Guard.any (start cfg) s)
    (h' : Run (discovery cfg lib reader) Guard.any s s') (m : Bytes) :
    WellFormed cfg lib s.shared m (s.shared.viewOf m) ∧
    ((s.shared.viewOf m).status ≠ .pending → (s'.shared.viewOf m).status ≠ .pending) := by
  have hrecorded := recorded_of_run h m
  have hsound := (attributed_of_run h).published
  refine ⟨wellFormed_of_recorded hrecorded ?_ hsound, fun hresolved hpending => hresolved ?_⟩
  · intro em hfind
    have hslots := slots_of_run h m
    unfold Shared.viewOf
    cases hs : s.shared.slots m with
    | none =>
        rw [hs, hfind] at hslots
        cases hslots
    | some t =>
        obtain ⟨-, em', hfind', hexposure⟩ := (advertised_of_run h).stored m t hs
        obtain rfl : em = em' := Option.some.inj (hfind.symm.trans hfind')
        exact hexposure
  · have hlater := h.trans (fun _ _ hok => hok) h'
    have hnone := (pending_iff (recorded_of_run hlater m) (attributed_of_run hlater).published).mp
      hpending
    -- a later state has the publications of this one, so a module that has one keeps it
    have hprefix := (published_grows h').filter fun p => p.module == m
    rw [show s'.shared.published.filter (fun p => p.module == m) = [] from hnone] at hprefix
    exact (pending_iff hrecorded hsound).mpr (List.prefix_nil.mp hprefix)

/-- After its first report a module stays resolved through a loss of its provider. -/
theorem views_well_formed_lost : ∃ s s',
    Run (discovery oneModule .emptyArray .refusing) Guard.any (start oneModule) s ∧
    Run (discovery oneModule .emptyArray .refusing) Guard.any s s' ∧
    (s.shared.viewOf (str "m")).status = .untyped ∧ (s'.shared.viewOf (str "m")).stale = true ∧
    (s'.shared.viewOf (str "m")).status ≠ .pending := by
  have hmoves : ((discovery oneModule .emptyArray .refusing).replay (start oneModule)
      firstReport).bind (fun s => ((discovery oneModule .emptyArray .refusing).replay s
        [.enter (.providerLost (str "m")), .run 3 {}]).map fun s' =>
          ((s.shared.viewOf (str "m")).status, (s'.shared.viewOf (str "m")).stale)) =
      some (.untyped, true) := by rfl
  obtain ⟨s, hs, hlater⟩ := Option.bind_eq_some_iff.mp hmoves
  obtain ⟨s', hs', hend⟩ := Option.map_eq_some_iff.mp hlater
  obtain ⟨huntyped, hstale⟩ := Prod.mk.inj hend
  have hrun := Run.replay .start hs
  have hrun' := Run.replay .start hs'
  refine ⟨s, s', hrun, hrun', huntyped, hstale, ?_⟩
  exact (views_well_formed hrun hrun' (str "m")).2 (by rw [huntyped]; decide)

end JsonRpcBridge.Discovery
