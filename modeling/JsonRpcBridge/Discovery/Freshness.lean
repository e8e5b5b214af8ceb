import JsonRpcBridge.Discovery.Consistency
import JsonRpcBridge.Discovery.Flights

/-!
# When a module that does not answer looks fresh

`missed` keeps the view, "pending, or stale". What makes it so is that an attempt normally starts on
a view that is pending or stale, and that nothing makes the view fresh while the attempt is in
flight. Only a publication makes a view fresh. It breaks this when something is left that will
refresh the module again: the retry it arms itself after a failed `lidl()`, or a refresh that was
queued, armed or decided on before it.

* `missed_not_fresh`: if every publication of the module is without a retry and finds no refresh
  left, a module whose last attempt was missed is pending or stale.
* `not_missed_not_fresh`: a run in which `lidl()` fails, the module goes away, and its view stays
  fresh.

The invariant is that a fresh view has neither an attempt in flight nor a refresh to come
(`Slot.Unanswered`). Wherever a loss, a restart, a replacement, an unavailable call or a changed
interface leads to a refresh, the view is marked stale in the same section.
-/

namespace JsonRpcBridge.Discovery

open Interleaving

variable {cfg : BridgeConfig} {lib : Nlohmann} {reader : ContractReader}

/-! ## Completed attempts

The log of a run has one entry for each attempt of the module that ran to its end. -/

/-- How an attempt ends: without a live report, or with a view. -/
inductive Completion where
  | missed
  | published
  deriving DecidableEq

/-- The completion of an attempt of `m` that this section is. A superseded attempt completes
nothing. -/
def completions (m : Bytes) (sh : Shared) (x : Section) (_ : CallOutcome) : List Completion :=
  match x with
  | .missed k n => if k = m ∧ (sh.slots m).map (·.attempt) = some n then [.missed] else []
  | .publish k n _ _ _ => if k = m ∧ (sh.slots m).map (·.attempt) = some n then [.published] else []
  | _ => []

theorem completions_of_rest {m : Bytes} {sh : Shared} {x : Section} {r : CallOutcome} {s : Slot}
    (hs : sh.slots m = some s) (hrest : ¬x.Acts m s) : completions m sh x r = [] := by
  have hne : ∀ k n, ¬(k = m ∧ s.attempt = n) →
      ¬(k = m ∧ (sh.slots m).map (·.attempt) = some n) := by
    rintro k n hnot ⟨hk, hattempt⟩
    rw [hs] at hattempt
    exact hnot ⟨hk, Option.some.inj hattempt⟩
  cases x with
  | missed k n => exact if_neg (hne k n hrest)
  | publish k n next retry src => exact if_neg (hne k n hrest)
  | _ => rfl

/-! ## Refreshes to come

A section leaves a refresh to come in two ways: it decides on a schedule call, or it is itself a
link of a refresh that was to come. -/

instance (m : Bytes) (x : Section) : Decidable (x.Triggers m) := by
  induction x using Section.casesOn with
  | fired job =>
      induction job using TimerJob.casesOn with
      | refresh k => exact decEq k m
      | revalidate => exact isFalse id
  | refresh k => exact decEq k m
  | schedule k d => exact decEq k m
  | _ => exact isFalse id

/-- The timer of `m` is armed with a refresh of it. -/
def Shared.refreshArmed (sh : Shared) (m : Bytes) : Bool :=
  match sh.timers m with
  | some (_, .refresh k) => k == m
  | _ => false

theorem refreshArmed_iff {sh : Shared} {m : Bytes} :
    sh.refreshArmed m = true ↔ ∃ d, sh.timers m = some (d, .refresh m) := by
  unfold Shared.refreshArmed
  split
  · rename_i d k ht
    rw [ht, beq_iff_eq]
    constructor
    · rintro rfl
      exact ⟨d, rfl⟩
    · rintro ⟨d', heq⟩
      cases heq
      rfl
  · rename_i hother
    constructor
    · intro hfalse
      cases hfalse
    · rintro ⟨d, ht⟩
      exact absurd ht (hother d m)

instance (sh : Shared) (p : Multiset Section) (m : Bytes) : Decidable (Trigger sh p m) :=
  have : Decidable (∃ x ∈ p, x.Triggers m) := Multiset.decidableExistsMultiset
  decidable_of_iff ((∃ x ∈ p, x.Triggers m) ∨ sh.refreshArmed m = true)
    (or_congr Iff.rfl refreshArmed_iff)

instance (s : Slot) : Decidable s.Unsettled :=
  inferInstanceAs (Decidable (s.view.resolved = false ∨ s.view.stale = true))

/-! ### Where a refresh comes from

Schedule calls, jobs and timers are followed here one by one, down to the section that decided on
the first of them. -/

/-- A section leaves nothing that leads to a refresh but schedule calls, and what its own job
queues. -/
theorem triggers_of_made {sh : Shared} {x y : Section} {r : CallOutcome} {e : Effect Shared Section}
    {m : Bytes} (h : exec cfg lib reader sh x r = some e) (hy : y ∈ e.made) (ht : y.Triggers m) :
    x.Triggers m ∨ ∃ d, y = .schedule m d := by
  -- three kinds of section lead to a refresh, and each has one kind that leaves it
  cases y with
  | schedule k d =>
      obtain rfl : k = m := ht
      exact .inr ⟨d, rfl⟩
  | refresh k =>
      obtain rfl : k = m := ht
      left
      cases x with
      | fired job =>
          cases job with
          | refresh k' =>
              cases h
              simp only [Effect.mem_made, List.not_mem_nil, List.mem_singleton, exists_eq_left,
                Section.refresh.injEq, false_or] at hy
              exact hy.symm
          | revalidate =>
              cases h
              simp [Effect.mem_made] at hy
      | proceed k' n stage a =>
          cases h
          exact absurd (continues_of_mem_proceed (by simpa [Effect.mem_made] using hy)) id
      | revalidate ms =>
          cases ms with
          | nil =>
              cases h
              simp [Effect.mem_made] at hy
          | cons k' rest =>
              simp only [exec] at h
              repeat' split at h
              all_goals
                cases h
                simp [Effect.mem_made] at hy
      | _ =>
          simp only [exec] at h
          repeat' split at h
          all_goals
            cases h
            simp [Effect.mem_made] at hy
  | fired job =>
      cases x with
      | fired job' =>
          cases job' <;>
          · cases h
            simp [Effect.mem_made] at hy
      | proceed k' n stage a =>
          cases h
          exact absurd (continues_of_mem_proceed (by simpa [Effect.mem_made] using hy)) id
      | revalidate ms =>
          cases ms with
          | nil =>
              cases h
              simp [Effect.mem_made] at hy
          | cons k' rest =>
              simp only [exec] at h
              repeat' split at h
              all_goals
                cases h
                simp [Effect.mem_made] at hy
      | _ =>
          simp only [exec] at h
          repeat' split at h
          all_goals
            cases h
            simp [Effect.mem_made] at hy
  | _ => exact absurd ht id

/-- A timer with a refresh was armed before, or is by a schedule call, under its module's name. -/
theorem armed_of_exec {sh : Shared} {x : Section} {r : CallOutcome} {e : Effect Shared Section}
    {key m : Bytes} {d : Nat} (h : exec cfg lib reader sh x r = some e)
    (harmed : e.shared.timers key = some (d, .refresh m)) :
    (key = m ∧ x.Triggers m) ∨ sh.timers key = some (d, .refresh m) := by
  cases x with
  -- the one section that arms
  | schedule k d' =>
      cases h
      rw [Shared.timers_arm] at harmed
      split at harmed
      · rename_i hkey
        cases harmed
        exact .inl ⟨hkey, rfl⟩
      · exact .inr harmed
  | fired job =>
      cases job with
      | refresh k =>
          cases h
          exact .inr harmed
      | revalidate =>
          -- the job of the revalidation timer arms its own key, and not with a refresh
          cases h
          have hrearmed : (scheduleRevalidation cfg sh).timers key = some (d, .refresh m) := harmed
          unfold scheduleRevalidation at hrearmed
          split at hrearmed
          · exact .inr hrearmed
          · rw [Shared.timers_arm] at hrearmed
            split at hrearmed
            · cases hrearmed
            · exact .inr hrearmed
  | revalidate ms =>
      right
      cases ms with
      | nil =>
          cases h
          exact harmed
      | cons k rest =>
          simp only [exec] at h
          repeat' split at h
          all_goals
            cases h
            exact harmed
  | _ =>
      right
      simp only [exec] at h
      repeat' split at h
      all_goals
        cases h
        exact harmed

/-- The refresh of a module is armed under the module's own name. -/
def Shared.Keyed (sh : Shared) : Prop :=
  ∀ key d m, sh.timers key = some (d, .refresh m) → key = m

theorem Shared.Keyed.exec {sh : Shared} {x : Section} {r : CallOutcome} {e : Effect Shared Section}
    (hk : sh.Keyed) (h : exec cfg lib reader sh x r = some e) : e.shared.Keyed := by
  intro key d m harmed
  rcases armed_of_exec h harmed with ⟨hkey, -⟩ | hbefore
  · exact hkey
  · exact hk key d m hbefore

theorem Shared.Keyed.enter {sh : Shared} {ev : Entry} {e : Effect Shared Section} (hk : sh.Keyed)
    (h : enter cfg sh ev = some e) : e.shared.Keyed := by
  intro key d m harmed
  cases ev with
  | fire key' =>
      obtain ⟨t, -, rfl⟩ := Option.map_eq_some_iff.mp h
      rw [Shared.timers_disarm] at harmed
      split at harmed
      · cases harmed
      · exact hk key d m harmed
  | _ =>
      cases h
      exact hk key d m harmed

/-- A refresh to come was to come before, unless the section has decided on it. -/
theorem trigger_of_exec {sh : Shared} {x : Section} {r : CallOutcome} {e : Effect Shared Section}
    {others : Multiset Section} {m : Bytes} (h : exec cfg lib reader sh x r = some e)
    (hdelays : delaysOf m e = []) (ht : Trigger e.shared (e.made + others) m) :
    Trigger sh (x ::ₘ others) m := by
  rcases ht with ⟨y, hy, hyt⟩ | ⟨d, harmed⟩
  · rcases Multiset.mem_add.mp hy with hmade | hold
    · rcases triggers_of_made h hmade hyt with hx | ⟨d, rfl⟩
      · exact .inl ⟨x, Multiset.mem_cons_self x others, hx⟩
      · have hmem := mem_delaysOf.mpr hmade
        rw [hdelays] at hmem
        cases hmem
    · exact .inl ⟨y, Multiset.mem_cons_of_mem hold, hyt⟩
  · rcases armed_of_exec h harmed with ⟨-, hx⟩ | hbefore
    · exact .inl ⟨x, Multiset.mem_cons_self x others, hx⟩
    · exact .inr ⟨d, hbefore⟩

/-- An entry point leads to a refresh that was not to come if it is `refresh`. -/
theorem trigger_of_enter {sh : Shared} {ev : Entry} {e : Effect Shared Section}
    {p : Multiset Section} {m : Bytes} (hk : sh.Keyed) (h : enter cfg sh ev = some e)
    (ht : Trigger e.shared (e.made + p) m) : Trigger sh p m ∨ ev = .refresh m := by
  have hold : ∀ {sh' : Shared} {q : Multiset Section}, sh'.timers m = sh.timers m →
      (∀ y ∈ q, ¬y.Triggers m) → Trigger sh' (q + p) m → Trigger sh p m := by
    rintro sh' q htimers hq (⟨y, hy, hyt⟩ | ⟨d, harmed⟩)
    · rcases Multiset.mem_add.mp hy with hnew | hy
      · exact absurd hyt (hq y hnew)
      · exact .inl ⟨y, hy, hyt⟩
    · exact .inr ⟨d, htimers ▸ harmed⟩
  cases ev with
  | fire key =>
      obtain ⟨t, htimer, rfl⟩ := Option.map_eq_some_iff.mp h
      left
      rcases ht with ⟨y, hy, hyt⟩ | ⟨d, harmed⟩
      · rcases Multiset.mem_add.mp hy with hnew | hy
        · obtain rfl : y = .fired t.2 := by simpa [Effect.mem_made] using hnew
          obtain ⟨d, job⟩ := t
          cases job with
          | revalidate => exact absurd hyt id
          | refresh k =>
              obtain rfl : k = m := hyt
              -- the timer that fires was armed under the name of its module, so it was a trigger
              -- already
              rw [hk key d k htimer] at htimer
              exact .inr ⟨d, htimer⟩
        · exact .inl ⟨y, hy, hyt⟩
      · rw [Shared.timers_disarm] at harmed
        split at harmed
        · cases harmed
        · exact .inr ⟨d, harmed⟩
  | refresh k =>
      by_cases hk : k = m
      · exact .inr (congrArg Entry.refresh hk)
      · cases h
        refine .inl (hold rfl (fun y hy hyt => ?_) ht)
        obtain rfl : y = .refresh k := by simpa [Effect.mem_made] using hy
        exact hk hyt
  | _ =>
      cases h
      refine .inl (hold rfl (fun y hy hyt => ?_) ht)
      rw [show y = _ by simpa [Effect.mem_made] using hy] at hyt
      exact hyt

/-! ## The condition

It is on publications of the one module, and on calls of `refresh` from outside. Nothing is asked
of losses, replacements and timers. -/

/-- Every publication of `m` by its current attempt is without a retry and finds no refresh of `m`
queued, armed or decided on; and no one calls `refresh` for `m` while its view is resolved and not
stale. -/
def settlesQuietly (m : Bytes) : Guard Shared Section CallOutcome Entry where
  run sh p x _ :=
    match x with
    | .publish k n _ retry _ =>
      k = m → (sh.slots m).map (·.attempt) = some n → retry = false ∧ ¬Trigger sh p m
    | _ => True
  enter sh _ ev :=
    match ev with
    | .refresh k => k = m → ∀ s ∈ sh.slots m, s.Unsettled
    | _ => True

instance (m : Bytes) : (settlesQuietly m).Decided where
  run sh p x _ := by
    induction x using Section.casesOn with
    | publish k n next retry src =>
        exact (inferInstance : Decidable (k = m → (sh.slots m).map (·.attempt) = some n →
          retry = false ∧ ¬Trigger sh p m))
    | _ => exact isTrue trivial
  enter sh p ev := by
    induction ev using Entry.casesOn with
    | refresh k => exact (inferInstance : Decidable (k = m → ∀ s ∈ sh.slots m, s.Unsettled))
    | _ => exact isTrue trivial

/-! ## The invariant

At a step there are three cases: the view is marked stale, nothing relevant changes, or the view
is published. The guard speaks of the last one only. -/

/-- While an attempt is in flight or a refresh is to come, and after an attempt that was missed, the
view is pending or stale. -/
structure Slot.Unanswered (h : List Completion) (sh : Shared) (p : Multiset Section) (m : Bytes)
    (s : Slot) : Prop where
  flight : s.inFlight = true → s.Unsettled
  trigger : Trigger sh p m → s.Unsettled
  last : h.getLast? = some .missed → s.Unsettled

theorem unsettled_of_stale {s : Slot} {v : ModuleView} (h : s.view = staleView v) : s.Unsettled := by
  unfold Slot.Unsettled
  rw [h]
  show v.resolved = false ∨ v.resolved = true
  cases v.resolved <;> simp

theorem unsettled_clientReplaced (s : Slot) : s.clientReplaced.Unsettled := by
  by_cases hset : s.settledView = true
  · exact unsettled_of_stale (v := s.view) (if_pos hset)
  · unfold Slot.Unsettled
    rw [show s.clientReplaced.view = s.view from if_neg hset]
    simp only [Slot.settledView, Bool.and_eq_true, Bool.not_eq_true', not_and,
      Bool.not_eq_false] at hset
    cases hr : s.view.resolved with
    | false => exact Or.inl rfl
    | true => exact Or.inr (hset hr)

/-- A view that is pending or stale needs no case. -/
theorem Slot.Unsettled.unanswered {h : List Completion} {sh : Shared} {p : Multiset Section}
    {m : Bytes} {s : Slot} (hs : s.Unsettled) : s.Unanswered h sh p m :=
  ⟨fun _ => hs, fun _ => hs, fun _ => hs⟩

section

variable {sh : Shared} {x : Section} {r : CallOutcome} {e : Effect Shared Section} {m : Bytes}
  {others : Multiset Section} {h : List Completion} {s s' : Slot}

/-- A section that leaves the view alone and decides on no refresh. -/
theorem Slot.Unanswered.keep (hI : s.Unanswered h sh (x ::ₘ others) m)
    (hexec : exec cfg lib reader sh x r = some e) (hdelays : delaysOf m e = [])
    (hnone : completions m sh x r = []) (hin : s'.inFlight = s.inFlight) (hview : s'.view = s.view) :
    s'.Unanswered (h ++ completions m sh x r) e.shared (e.made + others) m := by
  have hsame : s.Unsettled → s'.Unsettled := by
    unfold Slot.Unsettled
    rw [hview]
    exact id
  rw [hnone, List.append_nil]
  refine ⟨fun hflight => hsame (hI.flight (hin ▸ hflight)), fun ht => ?_, fun hlast => ?_⟩
  · exact hsame (hI.trigger (trigger_of_exec hexec hdelays ht))
  · exact hsame (hI.last hlast)

/-- **Step.** -/
theorem Slot.Unanswered.step (hI : s.Unanswered h sh (x ::ₘ others) m) (hs : sh.slots m = some s)
    (hflight : s.Flight (x ::ₘ others) m) (hguard : (settlesQuietly m).run sh (x ::ₘ others) x r)
    (hexec : exec cfg lib reader sh x r = some e) {ds : List Nat} (hds : delaysOf m e = ds)
    (hstep : s.Step cfg m x s' ds) :
    s'.Unanswered (h ++ completions m sh x r) e.shared (e.made + others) m := by
  cases hstep with
  | refresh =>
      -- the refresh that runs was to come
      have hcame : Trigger sh (.refresh m ::ₘ others) m :=
        .inl ⟨_, Multiset.mem_cons_self _ others, rfl⟩
      have hunsettled : s.refresh.Unsettled := hI.trigger hcame
      exact hunsettled.unanswered
  | lost => exact (unsettled_of_stale (v := s.view) rfl).unanswered
  | saw => exact hI.keep hexec hds rfl rfl rfl
  | armed => exact (unsettled_of_stale (v := s.view) rfl).unanswered
  | replaced => exact (unsettled_clientReplaced s).unanswered
  | unavailable => exact (unsettled_of_stale (v := s.view) rfl).unanswered
  | missed =>
      -- the attempt that ends here was the one in flight
      have hin : s.inFlight = true := hflight.inFlight (Multiset.mem_cons_self _ others) rfl
      have hunsettled : s.missed.Unsettled := hI.flight hin
      exact hunsettled.unanswered
  | @publish next retry src =>
      have hattempt : (sh.slots m).map (·.attempt) = some s.attempt := congrArg _ hs
      obtain ⟨rfl, hquiet⟩ := hguard rfl hattempt
      have hpublished : completions m sh (.publish m s.attempt next false src) r = [.published] :=
        if_pos ⟨rfl, hattempt⟩
      refine ⟨fun hin => ?_, fun ht => ?_, fun hlast => ?_⟩
      · cases hin
      · exact absurd (trigger_of_exec hexec hds ht) hquiet
      · rw [hpublished, List.getLast?_append] at hlast
        cases hlast
  | check => exact hI.keep hexec hds rfl rfl rfl
  | uncheck => exact hI.keep hexec hds rfl rfl rfl
  | restart => exact (unsettled_of_stale (v := s.view) rfl).unanswered
  | rest hrest => exact hI.keep hexec hds (completions_of_rest hs hrest) rfl rfl

/-- **Step**, of an entry point. -/
theorem Slot.Unanswered.enter {ev : Entry} {p : Multiset Section} (hI : s.Unanswered h sh p m)
    (hs : sh.slots m = some s) (hkeyed : sh.Keyed) (hguard : (settlesQuietly m).enter sh p ev)
    (henter : enter cfg sh ev = some e) : s.Unanswered h e.shared (e.made + p) m := by
  refine ⟨hI.flight, fun ht => ?_, hI.last⟩
  rcases trigger_of_enter hkeyed henter ht with hbefore | rfl
  · exact hI.trigger hbefore
  · exact hguard rfl s hs

end

/-! ### Runs

The completions are read off the log, the last of them first. -/

/-- **Run.** -/
theorem unanswered_of_logged {m : Bytes} {s : State Shared Section} {h : List Completion}
    (hlog : Logged (discovery cfg lib reader) (settlesQuietly m) (completions m) (start cfg) h s) :
    ∀ t, s.shared.slots m = some t → t.Unanswered h s.shared s.pending m := by
  refine (Logged.invariant (J := Flights) (I := fun h sh p => sh.Keyed ∧
    ∀ t, sh.slots m = some t → t.Unanswered h sh p m) (fun s hrun => flights_of_run hrun) ?_ ?_ ?_
    hlog).2
  · refine ⟨fun key d k harmed => ?_, fun t ht => ?_⟩
    · have hstart : (scheduleRevalidation cfg { slots := initialSlots cfg }).timers key =
          some (d, .refresh k) := harmed
      unfold scheduleRevalidation at hstart
      split at hstart
      · cases hstart
      · rw [Shared.timers_arm] at hstart
        split at hstart <;> cases hstart
    · have hslot : initialSlots cfg m = some t := by simpa [start] using ht
      obtain ⟨em, -, rfl⟩ := Option.map_eq_some_iff.mp hslot
      have hpending : Slot.Unsettled { view := pendingView em.name } := .inl rfl
      exact hpending.unanswered
  · rintro h sh x r e others hflights ⟨hkeyed, hI⟩ hguard hexec
    refine ⟨hkeyed.exec hexec, fun t' ht' => ?_⟩
    obtain ⟨t, ht, hstep⟩ := exec_stepped hexec ht'
    exact (hI t ht).step ht (hflights m t ht) hguard hexec rfl hstep
  · rintro h sh ev e p - ⟨hkeyed, hI⟩ hguard henter
    refine ⟨hkeyed.enter henter, fun t ht => ?_⟩
    rw [enter_slots henter] at ht
    exact (hI t ht).enter ht hkeyed hguard henter

/-- **An unreachable module is not shown as fresh**, in every run in which each publication of it is
without a retry and finds no refresh of it queued, armed or decided on. -/
theorem missed_not_fresh {m : Bytes} {s : State Shared Section} {h : List Completion}
    (hlog : Logged (discovery cfg lib reader) (settlesQuietly m) (completions m) (start cfg) h s)
    (hlast : h.getLast? = some .missed) :
    (s.shared.viewOf m).resolved = false ∨ (s.shared.viewOf m).stale = true := by
  have hI := unanswered_of_logged hlog
  unfold Shared.viewOf
  cases hs : s.shared.slots m with
  | none => exact Or.inl rfl
  | some t => exact (hI t hs).last hlast

/-- The first refresh publishes a view. The provider is lost, and the refresh that follows finds
nobody. -/
def lostMoves : List (Move CallOutcome Entry) :=
  [.run 0 {}, .run 0 {}, .run 1 { value := .arr [] }, .run 2 {}, .run 2 {}, .run 2 {}, .run 2 {},
    .enter (.providerLost (str "m")), .run 3 {}, .run 3 {}, .run 3 {}, .enter (.fire (str "m")),
    .run 4 {}, .run 5 {}, .run 5 {}, .run 6 { error := str "object_unavailable" }, .run 7 {},
    .run 7 {}, .run 7 {}]

theorem missed_not_fresh_lost : ∃ s h,
    Logged (discovery oneModule echoLib echoReader) (settlesQuietly (str "m"))
      (completions (str "m")) (start oneModule) h s ∧ h = [.published, .missed] ∧
    ((s.shared.viewOf (str "m")).resolved = false ∨ (s.shared.viewOf (str "m")).stale = true) := by
  obtain ⟨s, hs⟩ : ∃ s, (discovery oneModule echoLib echoReader).replayUnder
      (settlesQuietly (str "m")) (start oneModule) lostMoves = some s := by
    apply Option.isSome_iff_exists.mp
    decide +kernel
  have hlog : Logged _ (settlesQuietly (str "m")) (completions (str "m")) _ _ s :=
    Logged.start.replayUnder hs
  have hnotes : ([] ++ (discovery oneModule echoLib echoReader).notes (completions (str "m"))
      (start oneModule) lostMoves) = [.published, .missed] := by decide +kernel
  rw [hnotes] at hlog
  exact ⟨s, _, hlog, rfl, missed_not_fresh hlog rfl⟩

/-! ## A fresh view of a module that is gone

The publication of a failed `lidl()` carries a retry and is not stale, which the condition
excludes. -/

/-- `lidl()` fails and a view is published; its retry finds nobody. -/
def failedLidlMoves : List (Move CallOutcome Entry) :=
  [.run 0 {}, .run 0 {}, .run 1 { value := echoReport }, .run 2 {}, .run 2 {}, .run 2 {},
    .run 3 { error := str "timeout" }, .run 4 {}, .run 4 {}, .run 4 {}, .run 4 {}, .run 4 {},
    .enter (.fire (str "m")), .run 5 {}, .run 6 {}, .run 6 {},
    .run 7 { error := str "object_unavailable" }, .run 8 {}, .run 8 {}, .run 8 {}]

theorem not_missed_not_fresh : ¬∀ (cfg : BridgeConfig) (lib : Nlohmann) (reader : ContractReader)
    (m : Bytes) (s : State Shared Section) (h : List Completion),
    Logged (discovery cfg lib reader) Guard.any (completions m) (start cfg) h s →
      h.getLast? = some .missed →
      (s.shared.viewOf m).resolved = false ∨ (s.shared.viewOf m).stale = true := by
  intro hclaim
  have hend : ((discovery oneModule echoLib echoReader).replay (start oneModule)
      failedLidlMoves).map (fun s =>
        ((s.shared.viewOf (str "m")).resolved, (s.shared.viewOf (str "m")).stale)) =
      some (true, false) := by decide +kernel
  obtain ⟨s, hs, hview⟩ := Option.map_eq_some_iff.mp hend
  obtain ⟨hresolved, hstale⟩ := Prod.mk.inj hview
  have hlog : Logged _ Guard.any (completions (str "m")) _ _ s := Logged.start.replay hs
  have hlast : ([] ++ (discovery oneModule echoLib echoReader).notes (completions (str "m"))
      (start oneModule) failedLidlMoves).getLast? = some .missed := by decide +kernel
  rcases hclaim _ _ _ _ s _ hlog hlast with hpending | hstale'
  · rw [hresolved] at hpending
    cases hpending
  · rw [hstale] at hstale'
    cases hstale'

end JsonRpcBridge.Discovery
