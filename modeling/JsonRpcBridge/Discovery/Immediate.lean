import JsonRpcBridge.Discovery.Flights

/-!
# When an immediate rediscovery is pushed back

A delay is computed under the lock and its timer armed after it, one timer for each module. So a
schedule call decided by an attempt can come after the one of the section that superseded it, and
replaces the immediate timer.

* `immediate_not_pushed_back`: when a rediscovering section runs with no backoff call of its module
  outstanding, the timer that stands once all calls are made is the immediate one, or that of a loss
  that came later.
* `not_immediate_not_pushed_back`: a replaced client whose module is left to wait for 500 ms.
-/

namespace JsonRpcBridge.Discovery

open Interleaving

variable {cfg : BridgeConfig} {lib : Nlohmann} {reader : ContractReader}

/-! ## Rediscovering at once

`Rediscovers` is the step at which the delay is set to zero. From there to the refresh no attempt
of the module is under way, so that no delay but that of a loss can be computed. -/

/-- The critical section of `onClientReplaced(m)`, or of an `onProviderArmed(m)` that decides to
rediscover. -/
def Section.Rediscovers (m : Bytes) (s : Slot) : Section → Prop
  | .clientReplaced k => k = m
  | .providerArmed k g => k = m ∧ (s.restarted g = true ∨ s.view.stale = true)
  | _ => False

/-- From `s` to `s'` such a section runs. -/
def Rediscovers (cfg : BridgeConfig) (lib : Nlohmann) (reader : ContractReader) (m : Bytes)
    (s s' : State Shared Section) : Prop :=
  ∃ i r x t, s.head i = some x ∧ s.shared.slots m = some t ∧ x.Rediscovers m t ∧
    (discovery cfg lib reader).step s (.run i r) = some s'

/-- No refresh of `m` runs. -/
def untilRefresh (m : Bytes) : Guard Shared Section CallOutcome Entry where
  run _ _ x _ := x ≠ .refresh m
  enter _ _ _ := True

instance (m : Bytes) : (untilRefresh m).Decided where
  run _ _ x _ := by
    induction x using Section.casesOn with
    | refresh k => exact decidable_of_iff (k ≠ m) ⟨fun h => by rintro ⟨⟩; exact h rfl, fun h => by
        rintro rfl; exact h rfl⟩
    | _ => exact isTrue (by rintro ⟨⟩)
  enter _ _ _ := isTrue trivial

/-- The modules whose provider is lost. -/
def losses (_ : Shared) (x : Section) (_ : CallOutcome) : List Bytes :=
  match x with
  | .providerLost m => [m]
  | _ => []

/-- The immediate delay, or that of a loss since. -/
def Immediate (m : Bytes) (lost : List Bytes) (d : Nat) : Prop := d = 0 ∨ m ∈ lost ∧ d = retryDelay 1

theorem Immediate.mono {m : Bytes} {lost : List Bytes} {d : Nat} (h : Immediate m lost d)
    (more : List Bytes) : Immediate m (lost ++ more) d :=
  h.imp_right fun hloss => ⟨List.mem_append_left more hloss.1, hloss.2⟩

/-- Once every schedule call decided is made, a refresh is on its way, and the timer that stands for
it is the immediate one or that of a loss since. -/
def NotPushedBack (m : Bytes) (lost : List Bytes) (s : State Shared Section) : Prop :=
  ¬BackingOff s.pending m →
    (RefreshQueued s.pending m ∨ TimerDue s.shared s.pending m) ∧
      ∀ d job, s.shared.timers m = some (d, job) → Immediate m lost d

/-! ## The invariant

What was decided before the rediscovering section is what matters: such a call may still be made,
and the timer is that of the last call. -/

/-- The slot waits for its refresh, and whatever is still to arm its timer is immediate. -/
structure Slot.Prompt (sh : Shared) (p : Multiset Section) (m : Bytes) (lost : List Bytes)
    (s : Slot) : Prop where
  retry : s.retryArmed = true
  idle : s.inFlight = false
  calls : ∀ d, .schedule m d ∈ p → Immediate m lost d
  timer : BackingOff p m ∨ ∀ d job, sh.timers m = some (d, job) → Immediate m lost d

section Step

variable {sh : Shared} {x : Section} {r : CallOutcome} {e : Effect Shared Section}
  {others : Multiset Section} {m : Bytes} {s s' : Slot} {lost : List Bytes} {ds : List Nat}

/-! ### Step -/

/-- The schedule calls after a step: those left over, and those it decides on. -/
theorem schedule_mem_made_add {d : Nat} (h : .schedule m d ∈ e.made + others) :
    d ∈ delaysOf m e ∨ .schedule m d ∈ others :=
  (Multiset.mem_add.mp h).imp_left mem_delaysOf.mpr

/-- A step that keeps the flags and decides on immediate calls only. -/
theorem Slot.Prompt.keep (hI : s.Prompt sh (x ::ₘ others) m lost) (more : List Bytes)
    (hretry : s'.retryArmed = true) (hidle : s'.inFlight = false)
    (hdelays : ∀ d ∈ delaysOf m e, Immediate m (lost ++ more) d)
    (htimer : (∃ d, x = .schedule m d ∧ e.shared.timers m = some (d, .refresh m)) ∨
      (∀ d, x ≠ .schedule m d) ∧ e.shared.timers m = sh.timers m) :
    s'.Prompt e.shared (e.made + others) m (lost ++ more) := by
  refine ⟨hretry, hidle, ?_, ?_⟩
  · intro d hd
    rcases schedule_mem_made_add hd with hmade | hold
    · exact hdelays d hmade
    · exact (hI.calls d (Multiset.mem_cons_of_mem hold)).mono more
  -- the call that is made sets the timer, and all calls outstanding are immediate
  · rcases htimer with ⟨d, rfl, harmed⟩ | ⟨hnot, hsame⟩
    · right
      intro d' job hd'
      rw [harmed] at hd'
      cases hd'
      exact (hI.calls d (Multiset.mem_cons_self _ others)).mono more
    · rcases hI.timer with ⟨d, hd⟩ | hold
      · left
        rcases Multiset.mem_cons.mp hd with heq | hmem
        · exact absurd heq.symm (hnot d)
        · exact ⟨d, Multiset.mem_add.mpr (Or.inr hmem)⟩
      · right
        intro d job hd
        rw [hsame] at hd
        exact (hold d job hd).mono more

/-- Only a schedule call of `m` arms its timer. -/
theorem exec_timer (hm : m ≠ kRevalidateTimer) (h : exec cfg lib reader sh x r = some e) :
    (∃ d, x = .schedule m d ∧ e.shared.timers m = some (d, .refresh m)) ∨
      (∀ d, x ≠ .schedule m d) ∧ e.shared.timers m = sh.timers m := by
  by_cases hcall : ∃ d, x = .schedule m d
  · obtain ⟨d, rfl⟩ := hcall
    cases h
    exact Or.inl ⟨d, rfl, by simp⟩
  · refine Or.inr ⟨fun d hd => hcall ⟨d, hd⟩, ?_⟩
    cases x with
    | schedule k d =>
        have hk : m ≠ k := fun heq => hcall ⟨d, by rw [heq]⟩
        cases h
        simp [hk]
    | fired job =>
        cases job with
        | refresh k => cases h; rfl
        | revalidate => cases h; exact timers_scheduleRevalidation cfg hm
    | revalidate ms =>
        cases ms with
        | nil => cases h; rfl
        | cons k rest =>
            simp only [exec] at h
            repeat' split at h
            all_goals cases h; simp
    | _ =>
        simp only [exec] at h
        repeat' split at h
        all_goals cases h; simp

/-- **Step.** -/
theorem Slot.Prompt.step (hm : m ≠ kRevalidateTimer) (hI : s.Prompt sh (x ::ₘ others) m lost)
    (hflight : s.Flight (x ::ₘ others) m) (hne : x ≠ .refresh m)
    (h : exec cfg lib reader sh x r = some e) (hds : delaysOf m e = ds)
    (hstep : s.Step cfg m x s' ds) :
    s'.Prompt e.shared (e.made + others) m (lost ++ losses sh x r) := by
  have htimer := exec_timer hm h
  -- no attempt is in flight, so none of its sections is left
  have hover : x.attempt? ≠ some (m, s.attempt) := by
    intro hx
    have hin := hflight.inFlight (Multiset.mem_cons_self x others) hx
    rw [hI.idle] at hin
    cases hin
  -- the flag keeps out new attempts and unavailable calls; a loss brings its own delay
  cases hstep with
  | refresh => exact absurd rfl hne
  | lost =>
      refine hI.keep [m] rfl rfl ?_ htimer
      intro d hd
      rw [hds] at hd
      exact Or.inr ⟨List.mem_append_right lost (List.mem_singleton_self m), List.mem_singleton.mp hd⟩
  | armed | replaced =>
      refine hI.keep [] rfl rfl ?_ htimer
      intro d hd
      rw [hds] at hd
      exact Or.inl (List.mem_singleton.mp hd)
  | unavailable _ hretry =>
      have hretry' := hI.retry
      rw [hretry] at hretry'
      cases hretry'
  | missed => exact absurd rfl hover
  | publish => exact absurd rfl hover
  | restart _ _ _ hretry =>
      have hretry' := hI.retry
      rw [hretry] at hretry'
      cases hretry'
  | saw | check | uncheck | rest =>
      refine hI.keep _ hI.retry hI.idle ?_ htimer
      intro d hd
      rw [hds] at hd
      cases hd

/-- An entry point takes a timer at most, and its job is queued. -/
theorem Slot.Prompt.enter {p : Multiset Section} {ev : Entry} (hI : s.Prompt sh p m lost)
    (h : enter cfg sh ev = some e) : s.Prompt e.shared (e.made + p) m lost := by
  have hmade : ∀ d, .schedule m d ∉ e.made := by
    intro d hd
    rw [Effect.mem_made] at hd
    cases ev with
    | fire key =>
        obtain ⟨t, _, rfl⟩ := Option.map_eq_some_iff.mp h
        simp at hd
    | _ => cases h; simp at hd
  have htimers : ∀ d job, e.shared.timers m = some (d, job) → sh.timers m = some (d, job) := by
    intro d job hd
    cases ev with
    | fire key =>
        obtain ⟨t, _, rfl⟩ := Option.map_eq_some_iff.mp h
        rw [Shared.timers_disarm] at hd
        split at hd
        · cases hd
        · exact hd
    | _ => cases h; exact hd
  refine ⟨hI.retry, hI.idle, ?_, ?_⟩
  · intro d hd
    rcases Multiset.mem_add.mp hd with hnew | hold
    · exact absurd hnew (hmade d)
    · exact hI.calls d hold
  · rcases hI.timer with ⟨d, hd⟩ | hold
    · exact Or.inl ⟨d, Multiset.mem_add.mpr (Or.inr hd)⟩
    · exact Or.inr fun d job hd => hold d job (htimers d job hd)

end Step

/-! ## From a rediscovering section on

The condition is on the calls outstanding as the section runs. The run behind it and the answers
to come are free. -/

theorem prompt_of_rediscovers {m : Bytes} {s s' : State Shared Section}
    (h : Rediscovers cfg lib reader m s s')
    (hout : ∀ d, .schedule m d ∈ s.pending → d = 0) :
    ∃ t, s'.shared.slots m = some t ∧ t.Prompt s'.shared s'.pending m [] := by
  obtain ⟨i, r, x, t, hhead, ht, hx, hstep⟩ := h
  obtain ⟨y, e, others, hhead', hexec, hp, hshared, hp'⟩ := Program.step_run hstep
  obtain rfl : x = y := Option.some.inj (hhead.symm.trans hhead')
  obtain ⟨t', ht', hslot⟩ := exec_step hexec ht
  obtain ⟨hflags, hds⟩ : (t'.retryArmed = true ∧ t'.inFlight = false) ∧ delaysOf m e = [0] := by
    generalize delaysOf m e = ds at hslot ⊢
    cases hslot with
    | armed | replaced => exact ⟨⟨rfl, rfl⟩, rfl⟩
    | saw hrestarted hstale =>
        rcases hx.2 with hyes | hyes
        · rw [hrestarted] at hyes
          cases hyes
        · rw [hstale] at hyes
          cases hyes
    | rest hrest =>
        cases x with
        | clientReplaced k => exact absurd hx hrest
        | providerArmed k g => exact absurd hx.1 hrest
        | _ => exact absurd hx id
    | _ => exact absurd hx id
  refine ⟨t', hshared ▸ ht', hflags.1, hflags.2, ?_, Or.inl ⟨0, ?_⟩⟩
  · intro d hd
    rw [hp'] at hd
    rcases schedule_mem_made_add hd with hmade | hold
    · rw [hds] at hmade
      exact Or.inl (List.mem_singleton.mp hmade)
    · exact Or.inl (hout d (hp ▸ Multiset.mem_cons_of_mem hold))
  · rw [hp']
    refine Multiset.mem_add.mpr (Or.inl (mem_delaysOf.mp ?_))
    rw [hds]
    exact List.mem_singleton_self 0

/-- **Immediate rediscovery is not pushed back** when its section runs with no backoff call of the
module outstanding: not until a refresh of the module has run. -/
theorem immediate_not_pushed_back (hnames : cfg.NamesChecked lib) {m : Bytes}
    {s₀ s₁ s : State Shared Section} {lost : List Bytes}
    (hrun : Run (discovery cfg lib reader) Guard.any (start cfg) s₀)
    (hrediscovers : Rediscovers cfg lib reader m s₀ s₁)
    (hout : ∀ d, .schedule m d ∈ s₀.pending → d = 0)
    (hlog : Logged (discovery cfg lib reader) (untilRefresh m) losses s₁ lost s) :
    NotPushedBack m lost s := by
  have hreach : Run (discovery cfg lib reader) Guard.any (start cfg) s₁ := by
    obtain ⟨i, r, x, t, -, -, -, hstep⟩ := hrediscovers
    exact hrun.move (Guard.admits_any _ _) hstep
  have hafter : ∀ {s'}, Run (discovery cfg lib reader) (untilRefresh m) s₁ s' →
      Run (discovery cfg lib reader) Guard.any (start cfg) s' :=
    fun hrun' => hreach.trans (fun _ mv _ => Guard.admits_any _ mv) hrun'
  obtain ⟨t₁, ht₁, hprompt₁⟩ := prompt_of_rediscovers hrediscovers hout
  -- the timers of modules and that of revalidation share one map, under different keys
  have hm : m ≠ kRevalidateTimer := by
    have hsome := slots_of_run hreach m
    rw [ht₁] at hsome
    obtain ⟨em, hem⟩ := Option.isSome_iff_exists.mp hsome.symm
    exact ne_kRevalidateTimer hnames hem
  -- `Slot.Prompt` is kept until a refresh of the module runs
  have hI : ∃ t, s.shared.slots m = some t ∧ t.Prompt s.shared s.pending m lost := by
    refine Logged.invariant (J := Flights)
      (I := fun lost sh p => ∃ t, sh.slots m = some t ∧ t.Prompt sh p m lost) ?_ ?_ ?_ ?_ hlog
    · exact fun s' hrun' => flights_of_run (hafter hrun')
    · exact ⟨t₁, ht₁, hprompt₁⟩
    · rintro lost sh x r e others hflights ⟨t, ht, hprompt⟩ hguard hexec
      obtain ⟨t', ht', hstep⟩ := exec_step hexec ht
      exact ⟨t', ht', hprompt.step hm (hflights m t ht) hguard hexec rfl hstep⟩
    · rintro lost sh ev e p - ⟨t, ht, hprompt⟩ - henter
      exact ⟨t, (enter_slots henter).symm ▸ ht, hprompt.enter henter⟩
  obtain ⟨t, ht, hprompt⟩ := hI
  intro hmade
  constructor
  · have htrigger := (covered_of_run hnames (hafter hlog.toRun) ht).retry hprompt.retry
    rcases htrigger.cases with hqueued | hdue | hbacking
    · exact Or.inl hqueued
    · exact Or.inr hdue
    · exact absurd hbacking hmade
  · rcases hprompt.timer with hbacking | htimer
    · exact absurd hbacking hmade
    · exact htimer

/-! ## A backoff that comes late

The same moves, in two orders of the two schedule calls. -/

/-- The first refresh of `m` misses, and its schedule call is still to be made when the client is
replaced. -/
def missedMoves : List (Move CallOutcome Entry) :=
  [.run 0 {}, .run 0 {}, .run 1 { error := str "timeout" }, .run 2 {}, .run 2 {}, .run 2 {},
    .enter (.clientReplaced (str "m"))]

/-! ### Reading a state

Both runs need the step at which the client is replaced, which is found by what its thread is
about to do. -/

/-- Thread `i` is about to run the section of a replaced client of `m`, which has a slot. -/
def replacesNext (m : Bytes) (i : Nat) (s : State Shared Section) : Bool :=
  match s.head i with
  | some (.clientReplaced k) => k == m && (s.shared.slots m).isSome
  | _ => false

theorem rediscovers_of_replacesNext {m : Bytes} {i : Nat} {s s' : State Shared Section}
    {r : CallOutcome} (h : replacesNext m i s = true)
    (hstep : (discovery cfg lib reader).step s (.run i r) = some s') :
    Rediscovers cfg lib reader m s s' := by
  unfold replacesNext at h
  split at h
  · rename_i k hhead
    rw [Bool.and_eq_true, beq_iff_eq] at h
    obtain ⟨t, ht⟩ := Option.isSome_iff_exists.mp h.2
    exact ⟨i, r, _, t, hhead, ht, h.1, hstep⟩
  · cases h

/-- The delays of the schedule calls of `m` still to be made. -/
def callsOut (m : Bytes) (s : State Shared Section) : List Nat :=
  s.threads.flatten.filterMap (Section.delay? m)

theorem mem_callsOut {m : Bytes} {s : State Shared Section} {d : Nat} :
    d ∈ callsOut m s ↔ .schedule m d ∈ s.pending := by
  have hmem := mem_delaysOf (m := m) (e := { shared := s.shared, next := s.threads.flatten }) (d := d)
  simpa [delaysOf, callsOut, Effect.made, State.pending] using hmem

theorem immediate_not_pushed_back_replaced : ∃ s₀ s₁ s lost,
    Run (discovery oneModule .emptyArray .refusing) Guard.any (start oneModule) s₀ ∧
    Rediscovers oneModule .emptyArray .refusing (str "m") s₀ s₁ ∧
    Logged (discovery oneModule .emptyArray .refusing) (untilRefresh (str "m")) losses s₁ lost s ∧
    (s.shared.timers (str "m")).map (·.1) = some 0 ∧ NotPushedBack (str "m") lost s := by
  have hend : ((discovery oneModule .emptyArray .refusing).replay (start oneModule)
      (missedMoves ++ [.run 2 {}])).map (fun s₀ => (replacesNext (str "m") 3 s₀, callsOut (str "m") s₀,
        ((discovery oneModule .emptyArray .refusing).step s₀ (.run 3 {})).bind fun s₁ =>
          ((discovery oneModule .emptyArray .refusing).replayUnder (untilRefresh (str "m")) s₁
            [.run 3 {}]).bind fun s => (s.shared.timers (str "m")).map (·.1))) =
      some (true, [], some 0) := by decide +kernel
  obtain ⟨s₀, hs₀, hpair⟩ := Option.map_eq_some_iff.mp hend
  obtain ⟨hnext, hpair'⟩ := Prod.mk.inj hpair
  obtain ⟨hcalls, hrest⟩ := Prod.mk.inj hpair'
  obtain ⟨s₁, hs₁, hrest'⟩ := Option.bind_eq_some_iff.mp hrest
  obtain ⟨s, hs, htimer⟩ := Option.bind_eq_some_iff.mp hrest'
  have hrun := Run.replay .start hs₀
  have hrediscovers := rediscovers_of_replacesNext hnext hs₁
  have hlog : Logged _ (untilRefresh (str "m")) losses s₁ _ s :=
    Logged.start.replayUnder hs
  refine ⟨s₀, s₁, s, _, hrun, hrediscovers, hlog, htimer, ?_⟩
  refine immediate_not_pushed_back oneModule_namesChecked hrun hrediscovers ?_ hlog
  intro d hd
  rw [← mem_callsOut, hcalls] at hd
  cases hd

/-- The attempt's call comes last, and its 500 ms stand. -/
theorem not_immediate_not_pushed_back : ¬∀ (cfg : BridgeConfig) (lib : Nlohmann)
    (reader : ContractReader) (m : Bytes) (s₀ s₁ s : State Shared Section) (lost : List Bytes),
    cfg.NamesChecked lib → Run (discovery cfg lib reader) Guard.any (start cfg) s₀ →
    Rediscovers cfg lib reader m s₀ s₁ →
    Logged (discovery cfg lib reader) (untilRefresh m) losses s₁ lost s → NotPushedBack m lost s := by
  intro hclaim
  have hend : ((discovery oneModule .emptyArray .refusing).replay (start oneModule)
      missedMoves).map (fun s₀ => (replacesNext (str "m") 3 s₀,
        ((discovery oneModule .emptyArray .refusing).step s₀ (.run 3 {})).bind fun s₁ =>
          ((discovery oneModule .emptyArray .refusing).replayUnder (untilRefresh (str "m")) s₁
            [.run 3 {}, .run 2 {}]).map fun s => ((s.shared.timers (str "m")).map (·.1),
              (callsOut (str "m") s).isEmpty &&
                ((discovery oneModule .emptyArray .refusing).notes losses s₁
                  [.run 3 {}, .run 2 {}]).isEmpty))) =
      some (true, some (some 500, true)) := by decide +kernel
  obtain ⟨s₀, hs₀, hpair⟩ := Option.map_eq_some_iff.mp hend
  obtain ⟨hnext, hrest⟩ := Prod.mk.inj hpair
  obtain ⟨s₁, hs₁, hrest'⟩ := Option.bind_eq_some_iff.mp hrest
  obtain ⟨s, hs, hlast⟩ := Option.map_eq_some_iff.mp hrest'
  obtain ⟨htimer, hlast'⟩ := Prod.mk.inj hlast
  obtain ⟨hcalls, hlost⟩ := Bool.and_eq_true_iff.mp hlast'
  have hlog : Logged _ (untilRefresh (str "m")) losses s₁ _ s :=
    Logged.start.replayUnder hs
  rw [List.isEmpty_iff.mp hlost] at hlog
  have hmade : ¬BackingOff s.pending (str "m") := by
    rintro ⟨d, hd⟩
    rw [← mem_callsOut, List.isEmpty_iff.mp hcalls] at hd
    cases hd
  obtain ⟨⟨d, job⟩, harmed, rfl⟩ := Option.map_eq_some_iff.mp htimer
  have hrun := Run.replay .start hs₀
  rcases (hclaim _ _ _ _ s₀ s₁ s _ oneModule_namesChecked hrun
    (rediscovers_of_replacesNext hnext hs₁) hlog hmade).2 500 job harmed with hzero | ⟨hmem, -⟩
  · cases hzero
  · cases hmem

end JsonRpcBridge.Discovery
