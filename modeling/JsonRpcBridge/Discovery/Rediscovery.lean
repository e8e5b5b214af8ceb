import JsonRpcBridge.Discovery.Attempts

/-!
# No lost rediscovery

Refreshes are coalesced through `inFlight` and `retryArmed`, and a superseded attempt returns
without a word. The invariant behind `rediscovery_not_lost` is that each flag stands for something
that is still to come:

* `inFlight` for a section that continues the slot's current attempt (`Chain`);
* `retryArmed` for a refresh that is queued, armed, or about to be armed (`Trigger`);
* and a view that is pending or stale for one of the two.

A section that runs silently is covered because it is not one of the sections the slot counts on.
-/

namespace JsonRpcBridge.Discovery

open Interleaving

variable {cfg : BridgeConfig} {lib : Nlohmann} {reader : ContractReader}

/-! ## What a slot counts on

`Continues` and `Triggers` are the two kinds of section that end in a publication or in another
attempt. The flags of a slot are promises that one of the kind is pending. -/

/-- The section continues attempt `n` of `m`. -/
def Section.Continues (m : Bytes) (n : Nat) : Section → Prop
  | .invoke k i _ | .proceed k i _ _ | .missed k i | .publish k i _ _ _ => k = m ∧ i = n
  | .await c _ => c.module = m ∧ c.attempt = n
  | .resume a _ => a.call.module = m ∧ a.call.attempt = n
  | _ => False

/-- The section leads to a refresh of `m`. -/
def Section.Triggers (m : Bytes) : Section → Prop
  | .refresh k | .fired (.refresh k) | .schedule k _ => k = m
  | _ => False

/-- The module a section is about. -/
def Section.module? : Section → Option Bytes
  | .refresh m | .providerLost m | .providerArmed m _ | .clientReplaced m | .callUnavailable m
  | .schedule m _ | .fired (.refresh m) | .invoke m _ _ | .proceed m _ _ _ | .missed m _
  | .publish m _ _ _ _ | .revalidate (m :: _) | .read m _ => some m
  | .await c _ | .awaitRead c => some c.module
  | .resume a _ | .revalidated a | .restart a => some a.call.module
  | .changed _ | .providerChanged _ | .fired .revalidate | .revalidate [] => none

theorem Section.Continues.module {m : Bytes} {n : Nat} {x : Section} (h : x.Continues m n) :
    x.module? = some m := by
  cases x <;> first | exact absurd h id | exact congrArg some h.1

theorem Section.Triggers.module {m : Bytes} {x : Section} (h : x.Triggers m) :
    x.module? = some m := by
  cases x with
  | fired job =>
      cases job with
      | refresh k => exact congrArg some h
      | revalidate => exact absurd h id
  | _ => first | exact absurd h id | exact congrArg some h

/-- A section of attempt `n` is pending. -/
def Chain (p : Multiset Section) (m : Bytes) (n : Nat) : Prop := ∃ x ∈ p, x.Continues m n

/-- A refresh of `m` is queued, about to be armed, or armed. -/
def Trigger (sh : Shared) (p : Multiset Section) (m : Bytes) : Prop :=
  (∃ x ∈ p, x.Triggers m) ∨ ∃ d, sh.timers m = some (d, .refresh m)

/-- The view is pending or stale. -/
def Slot.Unsettled (s : Slot) : Prop := s.view.resolved = false ∨ s.view.stale = true

/-- Each flag of the slot, and an unsettled view, is backed by something to come. -/
structure Slot.Covered (sh : Shared) (p : Multiset Section) (m : Bytes) (s : Slot) : Prop where
  flight : s.inFlight = true → Chain p m s.attempt
  retry : s.retryArmed = true → Trigger sh p m
  unsettled : s.Unsettled → Chain p m s.attempt ∨ Trigger sh p m

/-! ### Moving between states -/

theorem Slot.Covered.mono {sh sh' : Shared} {p p' : Multiset Section} {m : Bytes} {s : Slot}
    (h : s.Covered sh p m) (hchain : Chain p m s.attempt → Chain p' m s.attempt)
    (htrigger : Trigger sh p m → Trigger sh' p' m) : s.Covered sh' p' m where
  flight hf := hchain (h.flight hf)
  retry hr := htrigger (h.retry hr)
  unsettled hu := (h.unsettled hu).imp hchain htrigger

/-- A slot that is not in flight is covered by a trigger alone. -/
theorem Slot.Covered.of_trigger {sh : Shared} {p : Multiset Section} {m : Bytes} {s : Slot}
    (hf : s.inFlight = false) (h : Trigger sh p m) : s.Covered sh p m where
  flight hf' := by simp [hf] at hf'
  retry _ := h
  unsettled _ := .inr h

/-- A slot without a retry armed is covered by its attempt alone. -/
theorem Slot.Covered.of_chain {sh : Shared} {p : Multiset Section} {m : Bytes} {s : Slot}
    (hr : s.retryArmed = false) (h : Chain p m s.attempt) : s.Covered sh p m where
  flight _ := h
  retry hr' := by simp [hr] at hr'
  unsettled _ := .inl h

/-- Only these fields matter. -/
theorem Slot.Covered.congr {sh : Shared} {p : Multiset Section} {m : Bytes} {s s' : Slot}
    (h : s.Covered sh p m) (hattempt : s'.attempt = s.attempt)
    (hflight : s'.inFlight = s.inFlight) (hretry : s'.retryArmed = s.retryArmed)
    (hview : s'.view = s.view) : s'.Covered sh p m where
  flight hf := hattempt ▸ h.flight (hflight ▸ hf)
  retry hr := h.retry (hretry ▸ hr)
  unsettled hu := by
    rw [hattempt]
    apply h.unsettled
    rwa [Slot.Unsettled, hview] at hu

/-! ## What a step does to them

A chain or a trigger is lost only when its own section runs, and every section of the two kinds
leaves the next one in the same step or settles the slot. -/

theorem Chain.of_made {e : Effect Shared Section} {others : Multiset Section} {m : Bytes}
    {n : Nat} {y : Section} (hy : y ∈ e.made) (h : y.Continues m n) :
    Chain (e.made + others) m n :=
  ⟨y, Multiset.mem_add.mpr (.inl hy), h⟩

/-- Running `x` keeps the chain if `x` is not part of it, or hands it on. -/
theorem Chain.step {e : Effect Shared Section} {x : Section} {others : Multiset Section}
    {m : Bytes} {n : Nat} (h : Chain (x ::ₘ others) m n)
    (hx : x.Continues m n → ∃ y ∈ e.made, y.Continues m n) : Chain (e.made + others) m n := by
  obtain ⟨y, hy, hcont⟩ := h
  rcases Multiset.mem_cons.mp hy with rfl | hy
  · obtain ⟨z, hz, hz'⟩ := hx hcont
    exact .of_made hz hz'
  · exact ⟨y, Multiset.mem_add.mpr (.inr hy), hcont⟩

theorem Trigger.of_made {sh : Shared} {e : Effect Shared Section} {others : Multiset Section}
    {m : Bytes} {y : Section} (hy : y ∈ e.made) (h : y.Triggers m) :
    Trigger sh (e.made + others) m :=
  .inl ⟨y, Multiset.mem_add.mpr (.inl hy), h⟩

theorem Trigger.step {sh sh' : Shared} {e : Effect Shared Section} {x : Section}
    {others : Multiset Section} {m : Bytes} (h : Trigger sh (x ::ₘ others) m)
    (hx : ¬ x.Triggers m) (htimers : sh'.timers m = sh.timers m) :
    Trigger sh' (e.made + others) m := by
  rcases h with ⟨y, hy, htrig⟩ | ⟨d, hd⟩
  · rcases Multiset.mem_cons.mp hy with rfl | hy
    · exact absurd htrig hx
    · exact .inl ⟨y, Multiset.mem_add.mpr (.inr hy), htrig⟩
  · exact .inr ⟨d, htimers.trans hd⟩

/-- A section about another module leaves the slot and its timer alone. -/
theorem exec_frame {sh : Shared} {x : Section} {r : CallOutcome} {e : Effect Shared Section}
    {m : Bytes} (hm : m ≠ kRevalidateTimer) (hx : x.module? ≠ some m)
    (h : exec cfg lib reader sh x r = some e) :
    e.shared.slots m = sh.slots m ∧ e.shared.timers m = sh.timers m := by
  cases x with
  | fired job =>
      cases job with
      | refresh k => cases h; exact ⟨rfl, rfl⟩
      | revalidate => cases h; exact ⟨by simp, timers_scheduleRevalidation cfg hm⟩
  | revalidate ms =>
      cases ms with
      | nil => cases h; exact ⟨rfl, rfl⟩
      | cons k rest =>
          have hne : m ≠ k := fun heq => hx (by rw [heq]; rfl)
          simp only [exec] at h
          repeat' split at h
          all_goals cases h; simp [hne]
  | changed k => cases h; exact ⟨rfl, rfl⟩
  | providerChanged k => cases h; exact ⟨rfl, rfl⟩
  | _ =>
      simp only [Section.module?, ne_eq, Option.some.injEq, eq_comm] at hx
      simp only [exec] at h
      repeat' split at h
      all_goals cases h; simp [hx]

/-- Running a section the slot does not count on keeps it covered. -/
theorem Slot.Covered.step {sh : Shared} {e : Effect Shared Section} {x : Section}
    {others : Multiset Section} {m : Bytes} {s : Slot} (h : s.Covered sh (x ::ₘ others) m)
    (hc : ¬ x.Continues m s.attempt) (ht : ¬ x.Triggers m)
    (htimers : e.shared.timers m = sh.timers m) : s.Covered e.shared (e.made + others) m :=
  h.mono (fun hchain => hchain.step fun hx => absurd hx hc)
    fun htrigger => htrigger.step ht htimers

/-- Running a section that hands its attempt on keeps the slot covered. -/
theorem Slot.Covered.handOn {sh : Shared} {e : Effect Shared Section} {x y : Section}
    {others : Multiset Section} {m : Bytes} {s : Slot} (h : s.Covered sh (x ::ₘ others) m)
    (hy : y ∈ e.made) (hc : x.Continues m s.attempt → y.Continues m s.attempt)
    (ht : ¬ x.Triggers m) (htimers : e.shared.timers m = sh.timers m) :
    s.Covered e.shared (e.made + others) m :=
  h.mono (fun hchain => hchain.step fun hx => ⟨y, hy, hc hx⟩)
    fun htrigger => htrigger.step ht htimers

/-! ### Handing on

An answer is followed by one section of the same attempt: the next call, the publication, or the
miss. -/

/-- A continuation leaves one section, of its own attempt. -/
theorem proceed_eq_singleton (lib : Nlohmann) (reader : ContractReader) (sh : Shared) (m : Bytes)
    (n : Nat) (stage : Stage) (a : Answer) :
    ∃ y, proceed lib reader sh m n stage a = [y] ∧ y.Continues m n := by
  cases stage with
  | interface =>
      simp only [proceed, onInterface]
      split
      · exact ⟨_, rfl, rfl, rfl⟩
      · split <;> exact ⟨_, rfl, rfl, rfl⟩
  | contract live report =>
      simp only [proceed, onContract]
      split
      · exact ⟨_, rfl, rfl, rfl⟩
      · split
        · exact ⟨_, rfl, rfl, rfl⟩
        · split <;> exact ⟨_, rfl, rfl, rfl⟩
  | version live typed sha report text => exact ⟨_, rfl, rfl, rfl⟩

theorem continues_of_mem_proceed {sh : Shared} {m : Bytes} {n : Nat} {stage : Stage} {a : Answer}
    {x : Section} (hx : x ∈ proceed lib reader sh m n stage a) : x.Continues m n := by
  obtain ⟨y, hy, hcont⟩ := proceed_eq_singleton lib reader sh m n stage a
  rw [hy, List.mem_singleton] at hx
  rwa [hx]

theorem BuiltFrom.resolved {m : Bytes} {src : Sources} {next : ModuleView}
    (h : BuiltFrom lib reader m src next) : next.resolved = true := by
  cases h with
  | untyped | unread | unserved => rfl
  | checked prev =>
      unfold checkedView
      dsimp only
      split <;> rfl

theorem resolved_exposed {m : Bytes} {next : ModuleView} :
    (exposed cfg m next).resolved = next.resolved := by
  unfold exposed
  split <;> rfl

/-! ### All sections

The slot of the section is covered by what the section leaves; the other slots are covered as
before. -/

/-- **Step.** A slot that is covered stays covered, or the one that replaces it is. -/
theorem exec_covered {sh : Shared} {x : Section} {r : CallOutcome} {e : Effect Shared Section}
    {others : Multiset Section} {m : Bytes} {s' : Slot} (hm : m ≠ kRevalidateTimer)
    (hsound : x.Sound lib reader)
    (hcov : ∀ s, sh.slots m = some s → s.Covered sh (x ::ₘ others) m)
    (h : exec cfg lib reader sh x r = some e) (hs' : e.shared.slots m = some s') :
    s'.Covered e.shared (e.made + others) m := by
  by_cases hmod : x.module? = some m
  case neg =>
    obtain ⟨hslots, htimers⟩ := exec_frame hm hmod h
    refine (hcov s' (hslots ▸ hs')).step ?_ ?_ htimers
    · exact fun hx => hmod hx.module
    · exact fun hx => hmod hx.module
  case pos =>
    cases x with
    -- a new attempt is under way, and the old one is forgotten with its flags
    | refresh k =>
        obtain rfl : k = m := by simpa [Section.module?] using hmod
        simp only [exec] at h
        split at h <;> cases h
        · rename_i hnone
          rw [hnone] at hs'
          cases hs'
        · rename_i s hs
          obtain rfl : s.refresh = s' := by simpa using hs'
          exact .of_chain rfl
            (.of_made (Effect.mem_made_next (List.mem_singleton_self _)) ⟨rfl, rfl⟩)
    -- the attempt is given up, and the backoff is scheduled in its stead
    | providerLost k =>
        obtain rfl : k = m := by simpa [Section.module?] using hmod
        simp only [exec] at h
        split at h <;> cases h
        · rename_i hnone
          rw [hnone] at hs'
          cases hs'
        · rename_i s hs
          obtain rfl : s.providerLost = s' := by simpa using hs'
          exact .of_trigger rfl
            (.of_made (y := .schedule k (retryDelay 1)) (Effect.mem_made_next (by simp)) rfl)
    | providerArmed k g =>
        obtain rfl : k = m := by simpa [Section.module?] using hmod
        simp only [exec] at h
        split at h
        · rename_i hnone
          cases h
          rw [hnone] at hs'
          cases hs'
        · rename_i s hs
          split at h <;> cases h
          · obtain rfl : s.sawGeneration g = s' := by simpa using hs'
            exact ((hcov s hs).step id id rfl).congr rfl rfl rfl rfl
          · obtain rfl : (s.sawGeneration g).rediscover = s' := by simpa using hs'
            exact .of_trigger rfl
              (.of_made (y := .schedule k 0) (Effect.mem_made_next (by simp)) rfl)
    | clientReplaced k =>
        obtain rfl : k = m := by simpa [Section.module?] using hmod
        simp only [exec] at h
        split at h <;> cases h
        · rename_i hnone
          rw [hnone] at hs'
          cases hs'
        · rename_i s hs
          obtain rfl : s.clientReplaced = s' := by simpa using hs'
          exact .of_trigger rfl
            (.of_made (y := .schedule k 0) (Effect.mem_made_next (by simp)) rfl)
    -- either something was under way, and still is, or the backoff is scheduled
    | callUnavailable k =>
        obtain rfl : k = m := by simpa [Section.module?] using hmod
        simp only [exec] at h
        split at h
        · rename_i hnone
          cases h
          rw [hnone] at hs'
          cases hs'
        · rename_i s hs
          split at h <;> cases h
          · exact (hcov s' hs').step id id rfl
          · rename_i hflags
            obtain rfl : s.callUnavailable = s' := by simpa using hs'
            have hflight : s.inFlight = false := by
              by_contra hf
              simp [hf] at hflags
            exact .of_trigger hflight
              (.of_made (y := .schedule k (retryDelay 1)) (Effect.mem_made_next (by simp)) rfl)
    | changed k => cases hmod
    | providerChanged k => cases hmod
    -- the trigger goes from the section into the scheduler
    | schedule k d =>
        obtain rfl : k = m := by simpa [Section.module?] using hmod
        cases h
        have harmed : Trigger (sh.arm k d (.refresh k))
            (Effect.made { shared := sh.arm k d (.refresh k) } + others) k :=
          .inr ⟨d, by simp⟩
        exact (hcov s' hs').mono (fun hc => hc.step fun hx => absurd hx id) fun _ => harmed
    -- and from the scheduler into the queue
    | fired job =>
        cases job with
        | revalidate => cases hmod
        | refresh k =>
            obtain rfl : k = m := by simpa [Section.module?] using hmod
            cases h
            exact (hcov s' hs').mono (fun hc => hc.step fun hx => absurd hx id)
              fun _ => .of_made (Effect.mem_made_spawn (List.mem_singleton_self _)
                (List.mem_singleton_self _)) rfl
    -- the links of the chain: a call, its answer, the job that takes it up
    | invoke k n stage =>
        cases h
        exact (hcov s' hs').handOn (Effect.mem_made_spawn (List.mem_singleton_self _)
          (List.mem_singleton_self _)) id id rfl
    | await c stage =>
        cases h
        exact (hcov s' hs').handOn (Effect.mem_made_spawn (List.mem_singleton_self _)
          (List.mem_singleton_self _)) id id rfl
    | resume a stage =>
        simp only [exec] at h
        split at h
        · rename_i hnone
          cases h
          refine (hcov s' hs').step ?_ id rfl
          rintro ⟨rfl, _⟩
          rw [hnone] at hs'
          cases hs'
        · rename_i s hs
          split at h <;> cases h
          · exact (hcov s' hs').handOn (Effect.mem_made_next (List.mem_singleton_self _)) id id rfl
          · -- the answer of a superseded attempt
            rename_i hne
            refine (hcov s' hs').step ?_ id rfl
            rintro ⟨rfl, hn⟩
            rw [hs] at hs'
            cases hs'
            exact hne hn.symm
    | proceed k n stage a =>
        cases h
        obtain ⟨y, hy, hy'⟩ := proceed_eq_singleton lib reader sh k n stage a
        obtain rfl : k = m := by simpa [Section.module?] using hmod
        refine (hcov s' hs').handOn (y := y) (Effect.mem_made_next (by simp [hy])) ?_ id rfl
        rintro ⟨_, rfl⟩
        exact hy'
    -- a miss ends the chain with a trigger; a superseded one counted for nothing
    | missed k n =>
        obtain rfl : k = m := by simpa [Section.module?] using hmod
        simp only [exec] at h
        split at h
        · rename_i hnone
          cases h
          rw [hnone] at hs'
          cases hs'
        · rename_i s hs
          split at h <;> cases h
          · obtain rfl : s.missed = s' := by simpa using hs'
            exact .of_trigger rfl
              (.of_made (Effect.mem_made_next (List.mem_singleton_self _)) rfl)
          · rename_i hne
            refine (hcov s' hs').step ?_ id rfl
            rintro ⟨_, hn⟩
            rw [hs] at hs'
            cases hs'
            exact hne hn.symm
    -- a publication settles the slot, and schedules the retry if it is to have one
    | publish k n next retry src =>
        obtain rfl : k = m := by simpa [Section.module?] using hmod
        simp only [exec] at h
        split at h
        · rename_i hnone
          cases h
          rw [hnone] at hs'
          cases hs'
        · rename_i s hs
          split at h <;> cases h
          · obtain rfl : s.publish (exposed cfg k next) retry = s' := by simpa using hs'
            have hresolved : (exposed cfg k next).resolved = true :=
              resolved_exposed.trans hsound.2.resolved
            refine ⟨?_, ?_, ?_⟩
            · intro hf
              cases hf
            · intro hr
              obtain rfl : retry = true := hr
              exact .of_made
                (y := .schedule k (retryDelay (s.publish (exposed cfg k next) true).failures))
                (Effect.mem_made_next (by simp)) rfl
            · intro hu
              rcases hu with hu | hu
              · exact absurd hresolved (by simpa [ModuleView.resolved, Slot.publish] using hu)
              · cases hu
          · rename_i hne
            refine (hcov s' hs').step ?_ id rfl
            rintro ⟨_, hn⟩
            rw [hs] at hs'
            cases hs'
            exact hne hn.symm
    -- a revalidation reads only slots that promise nothing
    | revalidate ms =>
        cases ms with
        | nil => cases hmod
        | cons k rest =>
            obtain rfl : k = m := by simpa [Section.module?] using hmod
            simp only [exec] at h
            split at h
            · rename_i hnone
              cases h
              rw [hnone] at hs'
              cases hs'
            · rename_i s hs
              split at h <;> cases h
              · obtain rfl : { s with checking := true } = s' := by simpa using hs'
                exact ((hcov s hs).step id id rfl).congr rfl rfl rfl rfl
              · exact (hcov s' hs').step id id rfl
    | read k n => cases h; exact (hcov s' hs').step id id rfl
    | awaitRead c => cases h; exact (hcov s' hs').step id id rfl
    | revalidated a =>
        obtain rfl : a.call.module = m := by simpa [Section.module?] using hmod
        simp only [exec] at h
        split at h
        · rename_i hnone
          cases h
          rw [hnone] at hs'
          cases hs'
        · rename_i s hs
          have hkeep : ∀ {e : Effect Shared Section},
              e.shared = sh.put a.call.module { s with checking := false } →
              e.shared.slots a.call.module = some s' →
              s'.Covered e.shared (e.made + others) a.call.module := by
            intro e he hs'
            obtain rfl : { s with checking := false } = s' := by simpa [he] using hs'
            exact ((hcov s hs).step id id (by rw [he]; rfl)).congr rfl rfl rfl rfl
          split at h
          · cases h
            exact hkeep rfl hs'
          · split at h <;> cases h <;> exact hkeep rfl hs'
    | restart a =>
        obtain rfl : a.call.module = m := by simpa [Section.module?] using hmod
        simp only [exec] at h
        split at h
        · rename_i hnone
          cases h
          rw [hnone] at hs'
          cases hs'
        · rename_i s hs
          split at h <;> cases h
          · exact (hcov s' hs').step id id rfl
          · rename_i hcond
            obtain rfl : s.restart = s' := by simpa using hs'
            have hretry : s.retryArmed = false := by
              by_contra hr
              exact hcond (.inr (.inr (by simpa using hr)))
            exact .of_chain hretry
              (.of_made (y := .proceed a.call.module (s.attempt + 1) .interface a)
                (Effect.mem_made_next (by simp)) ⟨rfl, rfl⟩)

/-- **Step.** An entry point only adds to what there is to be done, and taking a timer queues its
job. -/
theorem enter_covered {sh : Shared} {ev : Entry} {e : Effect Shared Section}
    {p : Multiset Section} {m : Bytes} {s' : Slot}
    (hcov : ∀ s, sh.slots m = some s → s.Covered sh p m)
    (h : enter cfg sh ev = some e) (hs' : e.shared.slots m = some s') :
    s'.Covered e.shared (e.made + p) m := by
  have hchain : ∀ n, Chain p m n → Chain (e.made + p) m n := by
    rintro n ⟨x, hx, hcont⟩
    exact ⟨x, Multiset.mem_add.mpr (.inr hx), hcont⟩
  cases ev with
  | fire key =>
      obtain ⟨t, ht, rfl⟩ := Option.map_eq_some_iff.mp h
      refine (hcov s' hs').mono (hchain _) ?_
      rintro (⟨x, hx, htrig⟩ | ⟨d, hd⟩)
      · exact .inl ⟨x, Multiset.mem_add.mpr (.inr hx), htrig⟩
      · by_cases hkey : m = key
        · -- the timer that is taken is the one the slot counts on
          subst hkey
          rw [hd] at ht
          cases ht
          exact .of_made (Effect.mem_made_next (List.mem_singleton_self _)) rfl
        · exact .inr ⟨d, by simp [hkey, hd]⟩
  | _ =>
      cases h
      refine (hcov s' hs').mono (hchain _) ?_
      rintro (⟨x, hx, htrig⟩ | hd)
      · exact .inl ⟨x, Multiset.mem_add.mpr (.inr hx), htrig⟩
      · exact .inr hd

/-! ## Runs

The invariant of one module: its slot, if there is one, is covered. -/

/-- The key of the revalidation timer is no module's. -/
theorem ne_kRevalidateTimer (hnames : cfg.NamesChecked lib) {m : Bytes} {em : ExposedModule}
    (hm : cfg.find m = some em) : m ≠ kRevalidateTimer := by
  rintro rfl
  obtain ⟨hmem, hname⟩ := BridgeConfig.find_mem hm
  have hblank := blank_not_mem_of_checkModuleName (hnames em hmem)
  rw [hname] at hblank
  exact hblank (by decide)

/-- **Run.** -/
theorem covered_of_run {s : State Shared Section} (hnames : cfg.NamesChecked lib)
    (h : Run (discovery cfg lib reader) Guard.any (start cfg) s) {m : Bytes} {slot : Slot}
    (hslot : s.shared.slots m = some slot) : slot.Covered s.shared s.pending m := by
  obtain ⟨em, hem⟩ : ∃ em, cfg.find m = some em := by
    rw [← Option.isSome_iff_exists, ← slots_of_run h m, hslot]
    rfl
  have hm := ne_kRevalidateTimer hnames hem
  have key : (∀ x ∈ s.pending, x.Sound lib reader) ∧
      ∀ t, s.shared.slots m = some t → t.Covered s.shared s.pending m := by
    refine Run.invariant (I := fun sh p => (∀ x ∈ p, x.Sound lib reader) ∧
      ∀ t, sh.slots m = some t → t.Covered sh p m) ?_ ?_ ?_ h
    · refine ⟨attributed_start.sound, ?_⟩
      intro t ht
      have hqueued : Section.refresh m ∈ (start cfg).pending := by
        obtain ⟨hmem, hname⟩ := BridgeConfig.find_mem hem
        simp only [start, State.pending]
        exact Multiset.mem_coe.mpr (List.mem_flatten_of_mem (List.mem_map_of_mem hmem)
          (by simp [hname]))
      obtain rfl : { view := pendingView em.name } = t := by
        simpa [start, initialSlots, hem] using ht
      exact .of_trigger rfl (.inl ⟨_, hqueued, rfl⟩)
    · rintro sh x r e others ⟨hsound, hcov⟩ _ hexec
      have hx := hsound x (Multiset.mem_cons_self x others)
      refine ⟨?_, fun t ht => exec_covered hm hx hcov hexec ht⟩
      exact Effect.forall_made (exec_sound hx hexec)
        fun y hy => hsound y (Multiset.mem_cons_of_mem hy)
    · rintro sh ev e p ⟨hsound, hcov⟩ _ henter
      refine ⟨?_, fun t ht => enter_covered hcov henter ht⟩
      exact Effect.forall_made (fun y hy => Section.sound_of_load_none (enter_load henter hy))
        hsound
  exact key.2 slot hslot

/-! ## The guarantee

A promise is in one of five places: queued, armed or due, about to be armed, about to call, or
waiting for an answer. -/

/-- A refresh of `m` is queued. -/
def RefreshQueued (p : Multiset Section) (m : Bytes) : Prop := .refresh m ∈ p

/-- A timer is armed, or has just fired, whose job queues a refresh of `m`. -/
def TimerDue (sh : Shared) (p : Multiset Section) (m : Bytes) : Prop :=
  (∃ d, sh.timers m = some (d, .refresh m)) ∨ .fired (.refresh m) ∈ p

/-- A thread has decided to back off and is about to arm the timer of `m`. -/
def BackingOff (p : Multiset Section) (m : Bytes) : Prop := ∃ d, .schedule m d ∈ p

/-- A thread of attempt `n` is about to make its call. -/
def Invoking (p : Multiset Section) (m : Bytes) (n : Nat) : Prop :=
  ∃ stage, .invoke m n stage ∈ p

/-- A call of attempt `n` is outstanding, or its continuation is queued or running. -/
def Answering (p : Multiset Section) (m : Bytes) (n : Nat) : Prop :=
  ∃ x ∈ p, x.Continues m n ∧ ∀ stage, x ≠ .invoke m n stage

theorem Chain.invoking_or_answering {p : Multiset Section} {m : Bytes} {n : Nat}
    (h : Chain p m n) : Invoking p m n ∨ Answering p m n := by
  obtain ⟨x, hx, hcont⟩ := h
  by_cases hinv : ∃ stage, x = .invoke m n stage
  · obtain ⟨stage, rfl⟩ := hinv
    exact .inl ⟨stage, hx⟩
  · exact .inr ⟨x, hx, hcont, fun stage heq => hinv ⟨stage, heq⟩⟩

theorem Trigger.cases {sh : Shared} {p : Multiset Section} {m : Bytes} (h : Trigger sh p m) :
    RefreshQueued p m ∨ TimerDue sh p m ∨ BackingOff p m := by
  rcases h with ⟨x, hx, htrig⟩ | harmed
  · cases x with
    | refresh k =>
        obtain rfl : k = m := htrig
        exact .inl hx
    | schedule k d =>
        obtain rfl : k = m := htrig
        exact .inr (.inr ⟨d, hx⟩)
    | fired job =>
        cases job with
        | refresh k =>
            obtain rfl : k = m := htrig
            exact .inr (.inl (.inr hx))
        | revalidate => exact absurd htrig id
    | _ => exact absurd htrig id
  · exact .inr (.inl (.inl harmed))

/-- **No lost rediscovery.** In every state reached after `start()`, whatever was called and
answered in whatever order: a module whose view is pending or stale has a refresh queued, a timer
due, a thread about to arm one, or a step of its current attempt under way; `inFlight` always means
the last, and `retryArmed` one of the first three. Module names are those `checkModuleName`
accepts, so none is the key of the revalidation timer. -/
theorem rediscovery_not_lost {s : State Shared Section} (hnames : cfg.NamesChecked lib)
    (h : Run (discovery cfg lib reader) Guard.any (start cfg) s) {m : Bytes} {em : ExposedModule}
    (hem : cfg.find m = some em) :
    ∃ slot, s.shared.slots m = some slot ∧
      (slot.Unsettled →
        RefreshQueued s.pending m ∨ TimerDue s.shared s.pending m ∨ BackingOff s.pending m ∨
          Invoking s.pending m slot.attempt ∨ Answering s.pending m slot.attempt) ∧
      (slot.inFlight = true →
        Invoking s.pending m slot.attempt ∨ Answering s.pending m slot.attempt) ∧
      (slot.retryArmed = true →
        RefreshQueued s.pending m ∨ TimerDue s.shared s.pending m ∨ BackingOff s.pending m) := by
  obtain ⟨slot, hslot⟩ : ∃ slot, s.shared.slots m = some slot := by
    rw [← Option.isSome_iff_exists, slots_of_run h m, hem]
    rfl
  have hcov := covered_of_run hnames h hslot
  refine ⟨slot, hslot, ?_, ?_, ?_⟩
  · intro hu
    rcases hcov.unsettled hu with hchain | htrigger
    · exact .inr (.inr (.inr hchain.invoking_or_answering))
    · rcases htrigger.cases with hq | hd | hb
      · exact .inl hq
      · exact .inr (.inl hd)
      · exact .inr (.inr (.inl hb))
  · exact fun hf => (hcov.flight hf).invoking_or_answering
  · exact fun hr => (hcov.retry hr).cases

theorem oneModule_namesChecked : oneModule.NamesChecked .emptyArray := by
  intro em hem
  rw [List.mem_singleton.mp hem]
  rfl

/-- The provider of `m` is lost before its first refresh runs. -/
theorem rediscovery_not_lost_before_first_refresh :
    ∃ s slot, Run (discovery oneModule .emptyArray .refusing) Guard.any (start oneModule) s ∧
      s.shared.slots (str "m") = some slot ∧ slot.retryArmed = true ∧
      (RefreshQueued s.pending (str "m") ∨ TimerDue s.shared s.pending (str "m") ∨
        BackingOff s.pending (str "m")) := by
  obtain ⟨s, hs⟩ : ∃ s, (discovery oneModule .emptyArray .refusing).replay (start oneModule)
      [.enter (.providerLost (str "m")), .run 1 {}] = some s := ⟨_, rfl⟩
  have hrun := Run.replay .start hs
  obtain ⟨slot, hslot, _, _, hretry⟩ :=
    rediscovery_not_lost oneModule_namesChecked hrun (m := str "m") rfl
  have harmed : (((discovery oneModule .emptyArray .refusing).replay (start oneModule)
      [.enter (.providerLost (str "m")), .run 1 {}]).bind
        (·.shared.slots (str "m"))).map (·.retryArmed) = some true := rfl
  rw [hs, Option.bind_some, hslot] at harmed
  have hset : slot.retryArmed = true := Option.some.inj harmed
  exact ⟨s, slot, hrun, hslot, hset, hretry hset⟩

end JsonRpcBridge.Discovery
