import JsonRpcBridge.Discovery.Io

/-!
# One attempt, one view

A discovery attempt is a chain of up to three calls, and losses, restarts and replacements can
come between any two of them. The invariant behind `published_of_current_attempt`:

* a section that continues an attempt never carries a number above the slot's current one, and
  if it carries the current one, no reset has taken effect since the calls it holds were issued
  (`Section.Fresh`);
* what such a section holds was computed from the answers it says it was computed from
  (`Section.Sound`).

The first survives a step because the slot's attempt number never goes back, and a reset moves it
forward (`Shared.Advances`).
-/

namespace JsonRpcBridge.Discovery

open Interleaving

variable {cfg : BridgeConfig} {lib : Nlohmann} {reader : ContractReader}

/-! ## What a section carries

A section of an attempt carries the attempt's number and the answers got so far; a revalidation
read carries the number of the attempt that was current when it was made. -/

/-- The attempt a section continues, and the calls whose answers it holds or waits for. -/
structure Load where
  module : Bytes
  attempt : Nat
  calls : List Call

def Stage.calls (stage : Stage) : List Call := stage.answers.map (·.call)

def Sources.calls (src : Sources) : List Call := src.answers.map (·.call)

def Section.load? : Section → Option Load
  | .invoke m n stage => some ⟨m, n, stage.calls⟩
  | .await c stage => some ⟨c.module, c.attempt, c :: stage.calls⟩
  | .resume a stage => some ⟨a.call.module, a.call.attempt, a.call :: stage.calls⟩
  | .proceed m n stage a => some ⟨m, n, a.call :: stage.calls⟩
  | .missed m n => some ⟨m, n, []⟩
  | .publish m n _ _ src => some ⟨m, n, src.calls⟩
  | .read m n => some ⟨m, n, []⟩
  | .awaitRead c => some ⟨c.module, c.attempt, [c]⟩
  | .revalidated a => some ⟨a.call.module, a.call.attempt, [a.call]⟩
  | .restart a => some ⟨a.call.module, a.call.attempt, [a.call]⟩
  | _ => none

/-- Not ahead of the slot, and no reset since its calls were issued if it is level with it. -/
def Load.Fresh (sh : Shared) (l : Load) : Prop :=
  ∀ s, sh.slots l.module = some s →
    l.attempt ≤ s.attempt ∧
      (l.attempt = s.attempt → ∀ c ∈ l.calls, c.resets = sh.resets l.module)

def Section.Fresh (sh : Shared) (x : Section) : Prop := ∀ l ∈ x.load?, l.Fresh sh

theorem Load.Fresh.mono {sh : Shared} {l : Load} {calls : List Call} (h : l.Fresh sh)
    (hsub : calls ⊆ l.calls) : Load.Fresh sh { l with calls } := by
  intro s hs
  obtain ⟨hle, hcalls⟩ := h s hs
  exact ⟨hle, fun heq c hc => hcalls heq c (hsub hc)⟩

/-! ## Slots only move forward

Attempt numbers grow, and whatever resets a module also takes a new number. -/

/-- Every slot stays where it is, its resets with it, or goes to a later attempt. -/
def Shared.Advances (sh sh' : Shared) : Prop :=
  ∀ m, (sh.slots m = none ∧ sh'.slots m = none) ∨
    ∃ s s', sh.slots m = some s ∧ sh'.slots m = some s' ∧
      (s.attempt = s'.attempt ∧ sh.resets m = sh'.resets m ∨ s.attempt < s'.attempt)

theorem Shared.Advances.of_eq {sh sh' : Shared} (hslots : sh'.slots = sh.slots)
    (hresets : sh'.resets = sh.resets) : sh.Advances sh' := by
  intro m
  rw [hslots, hresets]
  cases hm : sh.slots m with
  | none => exact .inl ⟨rfl, rfl⟩
  | some s => exact .inr ⟨s, s, rfl, rfl, .inl ⟨rfl, rfl⟩⟩

theorem Shared.Advances.refl (sh : Shared) : sh.Advances sh := .of_eq rfl rfl

/-- A critical section that keeps the attempt, or starts one without a reset. -/
theorem Shared.Advances.put {sh : Shared} {m : Bytes} {s s' : Slot} (hs : sh.slots m = some s)
    (hattempt : s.attempt ≤ s'.attempt) : sh.Advances (sh.put m s') := by
  intro k
  rw [Shared.slots_put]
  by_cases hk : k = m
  · subst hk
    rw [if_pos rfl]
    refine .inr ⟨s, s', hs, rfl, ?_⟩
    rcases Nat.eq_or_lt_of_le hattempt with heq | hlt
    · exact .inl ⟨heq, rfl⟩
    · exact .inr hlt
  · rw [if_neg hk]
    exact Shared.Advances.refl sh k

/-- A critical section that starts a new attempt may reset the module. -/
theorem Shared.Advances.put_reset {sh : Shared} {m : Bytes} {s s' : Slot}
    (hs : sh.slots m = some s) (hlt : s.attempt < s'.attempt) :
    sh.Advances ((sh.put m s').reset m) := by
  intro k
  rw [Shared.slots_reset, Shared.slots_put, Shared.resets_reset]
  by_cases hk : k = m
  · subst hk
    rw [if_pos rfl]
    exact .inr ⟨s, s', hs, rfl, .inr hlt⟩
  · rw [if_neg hk, if_neg hk]
    exact Shared.Advances.refl sh k

/-- Slots are neither made nor dropped. -/
theorem Shared.Advances.isSome_eq {sh sh' : Shared} (h : sh.Advances sh') (m : Bytes) :
    (sh'.slots m).isSome = (sh.slots m).isSome := by
  rcases h m with ⟨hnone, hnone'⟩ | ⟨s, s', hs, hs', _⟩
  · rw [hnone, hnone']
  · rw [hs, hs']
    rfl

theorem Load.Fresh.advance {sh sh' : Shared} {l : Load} (h : l.Fresh sh) (hadv : sh.Advances sh') :
    l.Fresh sh' := by
  intro t ht
  rcases hadv l.module with ⟨_, hnone⟩ | ⟨s, s', hs, hs', hcase⟩
  · rw [hnone] at ht
    cases ht
  · rw [hs'] at ht
    cases ht
    obtain ⟨hle, hcalls⟩ := h s hs
    rcases hcase with ⟨hattempt, hresets⟩ | hlt
    · refine ⟨hattempt ▸ hle, ?_⟩
      intro heq c hc
      rw [← hresets]
      exact hcalls (heq.trans hattempt.symm) c hc
    · refine ⟨by omega, ?_⟩
      intro heq
      omega

theorem exec_advances {sh : Shared} {x : Section} {r : CallOutcome} {e : Effect Shared Section}
    (h : exec cfg lib reader sh x r = some e) : sh.Advances e.shared := by
  cases x with
  | refresh m =>
      simp only [exec] at h
      split at h <;> cases h
      · exact .refl sh
      · rename_i s hs
        exact .put hs (Nat.le_succ _)
  -- a reset is recorded with the attempt it begins; a refresh and a restart begin an attempt of the
  -- same client
  | providerLost m =>
      simp only [exec] at h
      split at h <;> cases h
      · exact .refl sh
      · rename_i s hs
        exact .put_reset hs (Nat.lt_succ_self _)
  | providerArmed m g =>
      simp only [exec] at h
      split at h
      · cases h
        exact .refl sh
      · rename_i s hs
        split at h <;> cases h
        · exact .put hs le_rfl
        · exact .put_reset hs (Nat.lt_succ_self _)
  | clientReplaced m =>
      simp only [exec] at h
      split at h <;> cases h
      · exact .refl sh
      · rename_i s hs
        exact .put_reset hs (Nat.lt_succ_self _)
  | callUnavailable m =>
      simp only [exec] at h
      split at h
      · cases h
        exact .refl sh
      · rename_i s hs
        split at h <;> cases h
        · exact .refl sh
        · exact .put hs le_rfl
  | changed m => cases h; exact .refl sh
  | providerChanged m => cases h; exact .refl sh
  | schedule m d => cases h; exact .of_eq rfl rfl
  | fired job =>
      cases job with
      | refresh m => cases h; exact .refl sh
      | revalidate => cases h; exact .of_eq (by simp) (by simp)
  | invoke m n stage => cases h; exact .refl sh
  | await c stage => cases h; exact .refl sh
  | resume a stage =>
      simp only [exec] at h
      split at h
      · cases h
        exact .refl sh
      · split at h <;> cases h <;> exact .refl sh
  | proceed m n stage a => cases h; exact .refl sh
  | missed m n =>
      simp only [exec] at h
      split at h
      · cases h
        exact .refl sh
      · rename_i s hs
        split at h <;> cases h
        · exact .put hs le_rfl
        · exact .refl sh
  | publish m n next retry src =>
      simp only [exec] at h
      split at h
      · cases h
        exact .refl sh
      · rename_i s hs
        split at h <;> cases h
        · exact .put hs le_rfl
        · exact .refl sh
  | revalidate ms =>
      cases ms with
      | nil => cases h; exact .refl sh
      | cons m rest =>
          simp only [exec] at h
          split at h
          · cases h
            exact .refl sh
          · rename_i s hs
            split at h <;> cases h
            · exact .put hs le_rfl
            · exact .refl sh
  | read m n => cases h; exact .refl sh
  | awaitRead c => cases h; exact .refl sh
  | revalidated a =>
      simp only [exec] at h
      split at h
      · cases h
        exact .refl sh
      · rename_i s hs
        have hadv : sh.Advances (sh.put a.call.module { s with checking := false }) :=
          .put hs le_rfl
        split at h
        · cases h
          exact hadv
        · split at h <;> cases h <;> exact hadv
  | restart a =>
      simp only [exec] at h
      split at h
      · cases h
        exact .refl sh
      · rename_i s hs
        split at h <;> cases h
        · exact .refl sh
        · exact .put hs (Nat.le_succ _)

theorem enter_advances {sh : Shared} {ev : Entry} {e : Effect Shared Section}
    (h : enter cfg sh ev = some e) : sh.Advances e.shared := by
  cases ev with
  | fire key =>
      obtain ⟨t, _, rfl⟩ := Option.map_eq_some_iff.mp h
      exact .of_eq rfl rfl
  | refresh m => cases h; exact .refl sh
  | providerLost m => cases h; exact .refl sh
  | providerArmed m g => cases h; exact .refl sh
  | clientReplaced m => cases h; exact .refl sh
  | callUnavailable m => cases h; exact .refl sh
  | revalidate => cases h; exact .refl sh

/-! ## What a section leaves to be done

`Leaves` is the inversion of `exec` for sections that carry a load. The two inductions below it,
freshness and soundness, go by its constructors and not by the branches of `exec`. -/

/-- `Leaves sh sh' r x y`: running `x` takes `sh` to `sh'` and leaves `y` to be done. Only the
sections that carry something are told apart. -/
inductive Leaves (lib : Nlohmann) (reader : ContractReader) (sh sh' : Shared) (r : CallOutcome) :
    Section → Section → Prop
  | idle {x y : Section} : y.load? = none → Leaves lib reader sh sh' r x y
  | begins {m : Bytes} {s : Slot} :
      sh'.slots m = some s →
      Leaves lib reader sh sh' r (.refresh m) (.invoke m s.attempt .interface)
  | issues {m : Bytes} {n : Nat} {stage : Stage} :
      Leaves lib reader sh sh' r (.invoke m n stage)
        (.await (issue sh' m stage.method n false) stage)
  | answers {c : Call} {stage : Stage} :
      Leaves lib reader sh sh' r (.await c stage) (.resume ⟨c, r⟩ stage)
  | resumes {a : Answer} {stage : Stage} :
      Leaves lib reader sh sh' r (.resume a stage)
        (.proceed a.call.module a.call.attempt stage a)
  | proceeds {m : Bytes} {n : Nat} {stage : Stage} {a : Answer} {y : Section} :
      y ∈ proceed lib reader sh m n stage a →
      Leaves lib reader sh sh' r (.proceed m n stage a) y
  | checks {m : Bytes} {rest : List Bytes} {s : Slot} :
      sh'.slots m = some s → Leaves lib reader sh sh' r (.revalidate (m :: rest)) (.read m s.attempt)
  | reads {m : Bytes} {n : Nat} :
      Leaves lib reader sh sh' r (.read m n)
        (.awaitRead (issue sh' m (str "getPluginInterface") n true))
  | rereads {c : Call} : Leaves lib reader sh sh' r (.awaitRead c) (.revalidated ⟨c, r⟩)
  | differs {a : Answer} : Leaves lib reader sh sh' r (.revalidated a) (.restart a)
  | restarts {a : Answer} {s s' : Slot} :
      sh.slots a.call.module = some s → s.attempt = a.call.attempt →
      sh'.slots a.call.module = some s' → s'.attempt = s.attempt + 1 →
      sh'.resets = sh.resets →
      Leaves lib reader sh sh' r (.restart a) (.proceed a.call.module s'.attempt .interface a)

theorem exec_leaves {sh : Shared} {x y : Section} {r : CallOutcome} {e : Effect Shared Section}
    (h : exec cfg lib reader sh x r = some e) (hy : y ∈ e.made) :
    Leaves lib reader sh e.shared r x y := by
  rw [Effect.mem_made] at hy
  cases x with
  | refresh m =>
      simp only [exec] at h
      split at h <;> cases h
      · simp at hy
      · rename_i s hs
        obtain rfl : y = .invoke m (s.attempt + 1) .interface := by simpa using hy
        exact .begins (s := s.refresh) (by simp)
  | providerLost m =>
      simp only [exec] at h
      split at h <;> cases h
      · simp at hy
      · rcases (by simpa using hy : _ ∨ _) with rfl | rfl <;> exact .idle rfl
  | providerArmed m g =>
      simp only [exec] at h
      split at h
      · cases h
        simp at hy
      · split at h <;> cases h
        · simp at hy
        · rcases (by simpa using hy : _ ∨ _) with rfl | rfl <;> exact .idle rfl
  | clientReplaced m =>
      simp only [exec] at h
      split at h <;> cases h
      · simp at hy
      · rename_i s hs
        have hmem : y = .changed m ∨ y = .schedule m 0 := by
          by_cases hset : s.settledView = true <;> simp [hset] at hy <;> tauto
        rcases hmem with rfl | rfl <;> exact .idle rfl
  | callUnavailable m =>
      simp only [exec] at h
      split at h
      · cases h
        simp at hy
      · split at h <;> cases h
        · simp at hy
        · rcases (by simpa using hy : _ ∨ _) with rfl | rfl <;> exact .idle rfl
  | changed m => cases h; simp at hy
  | providerChanged m => cases h; simp at hy
  | schedule m d => cases h; simp at hy
  | fired job =>
      cases job with
      | refresh m =>
          cases h
          obtain rfl : y = .refresh m := by simpa using hy
          exact .idle rfl
      | revalidate =>
          cases h
          obtain rfl : y = .revalidate (cfg.modules.map (·.name)) := by simpa using hy
          exact .idle rfl
  | invoke m n stage =>
      cases h
      obtain rfl : y = .await (issue sh m stage.method n false) stage := by simpa using hy
      exact .issues
  | await c stage =>
      cases h
      obtain rfl : y = .resume ⟨c, r⟩ stage := by simpa using hy
      exact .answers
  -- `current` has let the answer through, so it goes on to the next stage
  | resume a stage =>
      simp only [exec] at h
      split at h
      · cases h
        simp at hy
      · split at h <;> cases h
        · obtain rfl : y = .proceed a.call.module a.call.attempt stage a := by simpa using hy
          exact .resumes
        · simp at hy
  | proceed m n stage a =>
      cases h
      exact .proceeds (by simpa using hy)
  | missed m n =>
      simp only [exec] at h
      split at h
      · cases h
        simp at hy
      · rename_i s hs
        split at h <;> cases h
        · obtain rfl : y = .schedule m (retryDelay s.missed.failures) := by simpa using hy
          exact .idle rfl
        · simp at hy
  | publish m n next retry src =>
      simp only [exec] at h
      split at h
      · cases h
        simp at hy
      · split at h <;> cases h
        · have hmem : y = .changed m ∨ ∃ d, y = .schedule m d := by
            by_cases hretry : retry = true <;> simp [hretry] at hy <;> grind
          rcases hmem with rfl | ⟨d, rfl⟩ <;> exact .idle rfl
        · simp at hy
  | revalidate ms =>
      cases ms with
      | nil => cases h; simp at hy
      | cons m rest =>
          simp only [exec] at h
          split at h
          · cases h
            obtain rfl : y = .revalidate rest := by simpa using hy
            exact .idle rfl
          · rename_i s hs
            split at h <;> cases h
            · rcases (by simpa using hy : y = .read m s.attempt ∨ _) with rfl | rfl
              · exact .checks (s := { s with checking := true }) (by simp)
              · exact .idle rfl
            · obtain rfl : y = .revalidate rest := by simpa using hy
              exact .idle rfl
  | read m n =>
      cases h
      obtain rfl : y = .awaitRead (issue sh m (str "getPluginInterface") n true) := by
        simpa using hy
      exact .reads
  | awaitRead c =>
      cases h
      obtain rfl : y = .revalidated ⟨c, r⟩ := by simpa using hy
      exact .rereads
  | revalidated a =>
      simp only [exec] at h
      split at h
      · cases h
        simp at hy
      · split at h
        · cases h
          simp at hy
        · split at h <;> cases h
          · simp at hy
          · obtain rfl : y = .callUnavailable a.call.module := by simpa using hy
            exact .idle rfl
          · obtain rfl : y = .restart a := by simpa using hy
            exact .differs
  -- the report that was read becomes the answer of the first stage of the attempt it begins
  | restart a =>
      simp only [exec] at h
      split at h
      · cases h
        simp at hy
      · rename_i s hs
        split at h <;> cases h
        · simp at hy
        · rename_i hcond
          have heq : s.attempt = a.call.attempt := by
            by_contra hne
            exact hcond (.inl hne)
          rcases (by simpa using hy : y = .changed a.call.module ∨
            y = .proceed a.call.module (s.attempt + 1) .interface a ∨
            y = .providerChanged a.call.module) with rfl | rfl | rfl
          · exact .idle rfl
          · have hs' : (sh.put a.call.module s.restart).slots a.call.module = some s.restart := by
              simp
            exact .restarts hs heq hs' rfl rfl
          · exact .idle rfl

/-! ## New sections are fresh

A section that is level with its slot holds only calls made since the last reset: a call is
issued under the current resets, and a reset would have taken the slot ahead. -/

/-- Whatever follows an answer continues the same attempt and holds no other call. -/
theorem load_of_mem_proceed {sh : Shared} {m : Bytes} {n : Nat} {stage : Stage} {a : Answer}
    {x : Section} (hx : x ∈ proceed lib reader sh m n stage a) :
    ∃ calls, x.load? = some ⟨m, n, calls⟩ ∧ calls ⊆ a.call :: stage.calls := by
  cases stage with
  | interface =>
      simp only [proceed, onInterface] at hx
      split at hx
      · rw [List.mem_singleton.mp hx]
        exact ⟨[], rfl, by simp⟩
      · split at hx
        · rw [List.mem_singleton.mp hx]
          exact ⟨[a.call], rfl, by simp⟩
        · rw [List.mem_singleton.mp hx]
          exact ⟨[a.call], rfl, by simp⟩
  | contract live report =>
      have hcalls : Sources.calls { report, text := some a } ⊆
          a.call :: (Stage.contract live report).calls := by
        simp [Sources.calls, Sources.answers, Stage.calls, Stage.answers]
      simp only [proceed, onContract] at hx
      split at hx
      · rw [List.mem_singleton.mp hx]
        exact ⟨_, rfl, hcalls⟩
      · split at hx
        · rw [List.mem_singleton.mp hx]
          exact ⟨_, rfl, hcalls⟩
        · split at hx
          · rw [List.mem_singleton.mp hx]
            exact ⟨_, rfl, hcalls⟩
          · rw [List.mem_singleton.mp hx]
            exact ⟨_, rfl, hcalls⟩
  | version live typed sha report text =>
      rw [List.mem_singleton.mp hx]
      refine ⟨_, rfl, ?_⟩
      simp [Sources.calls, Sources.answers, Stage.calls, Stage.answers]

/-- A section level with the slot, none of whose calls is older than the last reset. -/
theorem Section.Fresh.of_load {sh : Shared} {x : Section} {m : Bytes} {n : Nat}
    {calls : List Call} (hload : x.load? = some ⟨m, n, calls⟩)
    (h : Load.Fresh sh ⟨m, n, calls⟩) : x.Fresh sh := by
  intro l hl
  rw [hload] at hl
  cases hl
  exact h

/-- **Step.** What a fresh section leaves to be done is fresh. -/
theorem exec_fresh {sh : Shared} {x : Section} {r : CallOutcome} {e : Effect Shared Section}
    (hfresh : x.Fresh sh) (h : exec cfg lib reader sh x r = some e) :
    ∀ y ∈ e.made, y.Fresh e.shared := by
  intro y hy
  have hold : ∀ l ∈ x.load?, l.Fresh e.shared := by
    intro l hl
    exact (hfresh l hl).advance (exec_advances h)
  cases exec_leaves h hy with
  | idle hnone =>
      intro l hl
      rw [hnone] at hl
      cases hl
  -- a refresh holds no call yet
  | @begins m s hs =>
      refine .of_load rfl ?_
      intro t ht
      rw [hs] at ht
      cases ht
      exact ⟨le_rfl, fun _ c hc => by cases hc⟩
  -- the call is issued here, under the resets of this moment
  | @issues m n stage =>
      refine .of_load rfl ?_
      intro s hs
      obtain ⟨hle, hcalls⟩ := hold _ rfl s hs
      refine ⟨hle, ?_⟩
      intro heq c hc
      rcases List.mem_cons.mp hc with rfl | hc
      · rfl
      · exact hcalls heq c hc
  | answers => exact .of_load rfl (hold _ rfl)
  | resumes => exact .of_load rfl (hold _ rfl)
  | proceeds hmem =>
      obtain ⟨calls, hload, hsub⟩ := load_of_mem_proceed hmem
      exact .of_load hload ((hold _ rfl).mono hsub)
  | @checks m rest s hs =>
      refine .of_load rfl ?_
      intro t ht
      rw [hs] at ht
      cases ht
      exact ⟨le_rfl, fun _ c hc => by cases hc⟩
  | reads =>
      refine .of_load rfl ?_
      intro s hs
      obtain ⟨hle, _⟩ := hold _ rfl s hs
      refine ⟨hle, ?_⟩
      intro _ c hc
      rw [List.mem_singleton.mp hc]
      rfl
  | rereads => exact .of_load rfl (hold _ rfl)
  | differs => exact .of_load rfl (hold _ rfl)
  | @restarts a s s' hs hattempt hs' hnext hresets =>
      -- the read belongs to the attempt before this one, and no reset came between
      refine .of_load rfl ?_
      intro t ht
      rw [hs'] at ht
      cases ht
      refine ⟨le_rfl, fun _ c hc => ?_⟩
      rw [hresets, List.mem_singleton.mp hc]
      exact (hfresh _ rfl s hs).2 hattempt.symm a.call (List.mem_singleton.mpr rfl)

/-! ## Sections hold what they were given

Soundness says where the contents came from. It has no part in the freshness, and each is kept by
itself. -/

/-- `c` is the step of attempt `n` of `m` that calls `method`. -/
structure Call.Steps (c : Call) (m : Bytes) (n : Nat) (method : Bytes) : Prop where
  module : c.module = m
  method : c.method = method
  attempt : c.attempt = n
  revalidation : c.revalidation = false

/-- A revalidation read made while attempt `n` was the current one. -/
structure Call.Rereads (c : Call) (m : Bytes) (n : Nat) : Prop where
  module : c.module = m
  method : c.method = str "getPluginInterface"
  attempt : c.attempt = n
  revalidation : c.revalidation = true

/-- The read an attempt starts from: its own, or the revalidation read that started it. -/
def Call.Opens (c : Call) (m : Bytes) (n : Nat) : Prop :=
  c.Steps m n (str "getPluginInterface") ∨ ∃ k, k + 1 = n ∧ c.Rereads m k

/-- The answer of a stage's call is one its continuation may use. -/
def Stage.Accepts (stage : Stage) (m : Bytes) (n : Nat) (c : Call) : Prop :=
  match stage with
  | .interface => c.Opens m n
  | _ => c.Steps m n stage.method

theorem Stage.accepts_of_steps {stage : Stage} {m : Bytes} {n : Nat} {c : Call}
    (h : c.Steps m n stage.method) : stage.Accepts m n c := by
  cases stage with
  | interface => exact .inl h
  | contract live report => exact h
  | version live typed sha report text => exact h

section Provenance

variable (lib : Nlohmann) (reader : ContractReader) (m : Bytes) (n : Nat)

/-- `live` is the report in the answer `a`. -/
def Reports (a : Answer) (live : LiveReport) : Prop :=
  a.outcome.ok = true ∧ parseLiveReport lib a.outcome.value = some live

/-- What `lidlText` makes of the answer `a`. -/
def Answer.lidl (a : Answer) : LidlText := lidlText a.outcome.ok a.outcome.value

/-- The text of an answer that has one is the answer itself; any other says why it has none. -/
theorem lidl_cases (a : Answer) :
    (a.lidl.ok = true ∧ a.outcome.ok = true ∧ a.outcome.value = .str a.lidl.text) ∨
    (a.lidl.ok = false ∧ a.lidl.error ≠ []) := by
  unfold Answer.lidl lidlText
  by_cases hok : a.outcome.ok = true
  · rw [if_neg (by simp [hok])]
    cases hvalue : a.outcome.value with
    | str s =>
        dsimp only
        split_ifs
        · exact .inr ⟨rfl, str_ne_nil (by decide)⟩
        · exact .inr ⟨rfl, str_ne_nil (by decide)⟩
        · exact .inl ⟨rfl, hok, rfl⟩
    | _ => exact .inr ⟨rfl, str_ne_nil (by decide)⟩
  · rw [if_pos (by simpa using hok)]
    exact .inr ⟨rfl, str_ne_nil (by decide)⟩

/-- `typed` is the contract in the answer `a`, and `sha` the digest of its text. -/
def Contracts (a : Answer) (typed : TypedContract) (sha : Bytes) : Prop :=
  a.lidl.ok = true ∧ sha = sha256Hex a.lidl.text ∧
    (reader.readContract a.lidl.text m).ok = true ∧
    typedContract lib (reader.readContract a.lidl.text m) = some typed

/-- `error` is why the contract in the answer `a` is not served. -/
def Refuses (a : Answer) (error : Bytes) : Prop :=
  let contract := reader.readContract a.lidl.text m
  a.lidl.ok = true ∧
    (contract.ok = false ∧ error = contractErrorText contract reader.lidlReaderRev ∨
      contract.ok = true ∧ typedContract lib contract = none ∧
        error = str "the contract could not be served")

/-! ### How a view is built

One constructor for each of the places that hand `publish` a view. -/

/-- `next` is the view the answers `src` lead to, whatever the view before was. -/
inductive BuiltFrom : Sources → ModuleView → Prop
  | untyped {report : Answer} {live : LiveReport} (prev : ModuleView) :
      Reports lib report live → lidlPresent live = false →
      BuiltFrom { report } (untypedView prev live)
  | unread {report text : Answer} {live : LiveReport} (prev : ModuleView) :
      Reports lib report live → lidlPresent live = true → text.lidl.ok = false →
      BuiltFrom { report, text := some text } (invalidView prev live text.lidl.error)
  | unserved {report text : Answer} {live : LiveReport} {error : Bytes} (prev : ModuleView) :
      Reports lib report live → lidlPresent live = true → Refuses lib reader m text error →
      BuiltFrom { report, text := some text }
        { invalidView prev live error with contractSha256 := sha256Hex text.lidl.text }
  | checked {report text version : Answer} {live : LiveReport} {typed : TypedContract}
      {sha : Bytes} (prev : ModuleView) :
      Reports lib report live → lidlPresent live = true → Contracts lib reader m text typed sha →
      BuiltFrom { report, text := some text, version := some version }
        (checkedView prev live typed (runtimeVersion version.outcome.ok version.outcome.value) sha)

/-- The calls the answers came from: all of attempt `n`. -/
structure Sources.Of (src : Sources) : Prop where
  report : src.report.call.Opens m n
  text : ∀ a ∈ src.text, a.call.Steps m n (str "lidl")
  version : ∀ a ∈ src.version, a.call.Steps m n (str "version")

/-- What a stage holds was computed from the answers it holds. -/
def Stage.Sound : Stage → Prop
  | .interface => True
  | .contract live report =>
    report.call.Opens m n ∧ Reports lib report live ∧ lidlPresent live = true
  | .version live typed sha report text =>
    report.call.Opens m n ∧ Reports lib report live ∧ lidlPresent live = true ∧
      text.call.Steps m n (str "lidl") ∧ Contracts lib reader m text typed sha

end Provenance

/-- Likewise for a section. -/
def Section.Sound (lib : Nlohmann) (reader : ContractReader) : Section → Prop
  | .invoke m n stage => stage.Sound lib reader m n
  | .await c stage =>
    c.Steps c.module c.attempt stage.method ∧ stage.Sound lib reader c.module c.attempt
  | .resume a stage =>
    a.call.Steps a.call.module a.call.attempt stage.method ∧
      stage.Sound lib reader a.call.module a.call.attempt
  | .proceed m n stage a => stage.Accepts m n a.call ∧ stage.Sound lib reader m n
  | .publish m n next _ src => src.Of m n ∧ BuiltFrom lib reader m src next
  | .awaitRead c => c.Rereads c.module c.attempt
  | .revalidated a => a.call.Rereads a.call.module a.call.attempt
  | .restart a => a.call.Rereads a.call.module a.call.attempt
  | _ => True

/-! ### Soundness is handed on -/

/-- A continuation hands on what it was given and what it computed from it. -/
theorem sound_of_mem_proceed {sh : Shared} {m : Bytes} {n : Nat} {stage : Stage} {a : Answer}
    {x : Section} (haccept : stage.Accepts m n a.call) (hstage : stage.Sound lib reader m n)
    (hx : x ∈ proceed lib reader sh m n stage a) : x.Sound lib reader := by
  cases stage with
  -- no report: a miss, or an invalid view; otherwise the contract is next, or an untyped view
  | interface =>
      simp only [proceed, onInterface] at hx
      split at hx
      · rw [List.mem_singleton.mp hx]
        trivial
      · rename_i live hlive
        have hreport : Reports lib a live := by
          by_cases hok : a.outcome.ok = true
          · exact ⟨hok, by rwa [if_pos hok] at hlive⟩
          · rw [if_neg hok] at hlive
            cases hlive
        split at hx
        · rename_i hlidl
          rw [List.mem_singleton.mp hx]
          refine ⟨⟨haccept, ?_, ?_⟩, .untyped _ hreport (by simpa using hlidl)⟩ <;> simp
        · rename_i hlidl
          rw [List.mem_singleton.mp hx]
          exact ⟨haccept, hreport, by simpa using hlidl⟩
  -- no text, an unreadable one, or one to be checked against the version
  | contract live report =>
      obtain ⟨hopens, hreport, hlidl⟩ := hstage
      have hof : Sources.Of m n { report, text := some a } := by
        refine ⟨hopens, ?_, by simp⟩
        intro b hb
        cases hb
        exact haccept
      simp only [proceed, onContract] at hx
      split at hx
      · rename_i hok
        rw [List.mem_singleton.mp hx]
        exact ⟨hof, .unread _ hreport hlidl (by simpa [Answer.lidl] using hok)⟩
      · rename_i hok
        have hok' : a.lidl.ok = true := by simpa [Answer.lidl] using hok
        split at hx
        · rename_i hread
          rw [List.mem_singleton.mp hx]
          have hread' : (reader.readContract a.lidl.text m).ok = false := by
            simpa [Answer.lidl] using hread
          exact ⟨hof, .unserved _ hreport hlidl ⟨hok', .inl ⟨hread', rfl⟩⟩⟩
        · rename_i hread
          have hread' : (reader.readContract a.lidl.text m).ok = true := by
            simpa [Answer.lidl] using hread
          split at hx
          · rename_i htyped
            rw [List.mem_singleton.mp hx]
            exact ⟨hof, .unserved _ hreport hlidl ⟨hok', .inr ⟨hread', htyped, rfl⟩⟩⟩
          · rename_i typed htyped
            rw [List.mem_singleton.mp hx]
            exact ⟨hopens, hreport, hlidl, haccept, hok', rfl, hread', htyped⟩
  | version live typed sha report text =>
      obtain ⟨hopens, hreport, hlidl, htext, hcontract⟩ := hstage
      rw [List.mem_singleton.mp hx]
      refine ⟨⟨hopens, ?_, ?_⟩, .checked _ hreport hlidl hcontract⟩
      · intro b hb
        cases hb
        exact htext
      · intro b hb
        cases hb
        exact haccept

theorem Section.sound_of_load_none {x : Section} (h : x.load? = none) : x.Sound lib reader := by
  cases x <;> trivial

/-- **Step.** What a sound section leaves to be done is sound. -/
theorem exec_sound {sh : Shared} {x : Section} {r : CallOutcome} {e : Effect Shared Section}
    (hsound : x.Sound lib reader) (h : exec cfg lib reader sh x r = some e) :
    ∀ y ∈ e.made, y.Sound lib reader := by
  intro y hy
  cases exec_leaves h hy with
  | idle hnone => exact Section.sound_of_load_none hnone
  | begins _ => trivial
  | issues => exact ⟨⟨rfl, rfl, rfl, rfl⟩, hsound⟩
  | answers => exact hsound
  | resumes => exact ⟨Stage.accepts_of_steps hsound.1, hsound.2⟩
  | proceeds hmem => exact sound_of_mem_proceed hsound.1 hsound.2 hmem
  | checks _ => trivial
  | reads => exact ⟨rfl, rfl, rfl, rfl⟩
  | rereads => exact hsound
  | differs => exact hsound
  | @restarts a s s' hs hattempt hs' hnext _ =>
      have hreads : a.call.Rereads a.call.module s.attempt := hattempt ▸ hsound
      exact ⟨.inr ⟨s.attempt, hnext.symm, hreads⟩, trivial⟩

/-! ## What is published

`publish` compares numbers and installs in one section, so what a fresh and sound section
installs is of the current attempt, and of calls made after the last reset. -/

/-- `p` was installed by the attempt that was current then, and every answer behind it belongs to
that attempt and was asked for after the last reset. -/
structure Publication.Sound (cfg : BridgeConfig) (lib : Nlohmann) (reader : ContractReader)
    (p : Publication) : Prop where
  current : p.attempt = p.current
  of : p.sources.Of p.module p.attempt
  built : ∃ next generation, BuiltFrom lib reader p.module p.sources next ∧
    p.view = { exposed cfg p.module next with generation, stale := false }
  fresh : ∀ a ∈ p.sources.answers, a.call.resets = p.resets

/-- Only `publish` publishes. -/
theorem exec_published_of_ne {sh : Shared} {x : Section} {r : CallOutcome}
    {e : Effect Shared Section} (hne : ∀ m n next retry src, x ≠ .publish m n next retry src)
    (h : exec cfg lib reader sh x r = some e) : e.shared.published = sh.published := by
  cases x with
  | publish m n next retry src => exact absurd rfl (hne m n next retry src)
  | fired job => cases job <;> cases h <;> simp
  | revalidate ms =>
      cases ms with
      | nil => cases h; rfl
      | cons m rest =>
          simp only [exec] at h
          repeat' split at h
          all_goals cases h; rfl
  | _ =>
      simp only [exec] at h
      repeat' split at h
      all_goals cases h; rfl

/-- **Step.** What a sound, fresh section publishes is sound. -/
theorem exec_published {sh : Shared} {x : Section} {r : CallOutcome} {e : Effect Shared Section}
    (hsound : x.Sound lib reader) (hfresh : x.Fresh sh)
    (h : exec cfg lib reader sh x r = some e) :
    ∀ p ∈ e.shared.published, p ∈ sh.published ∨ p.Sound cfg lib reader := by
  intro p hp
  by_cases hpub : ∃ m n next retry src, x = .publish m n next retry src
  · obtain ⟨m, n, next, retry, src, rfl⟩ := hpub
    simp only [exec] at h
    split at h
    · cases h
      exact .inl hp
    · rename_i s hs
      split at h <;> cases h
      · rename_i heq
        rcases List.mem_append.mp hp with hp | hp
        · exact .inl hp
        · right
          rw [List.mem_singleton.mp hp]
          refine ⟨heq.symm, hsound.1, ⟨next, _, hsound.2, rfl⟩, ?_⟩
          intro a ha
          exact (hfresh _ rfl s hs).2 heq.symm a.call (List.mem_map_of_mem ha)
      · exact .inl hp
  · left
    rwa [← exec_published_of_ne (fun m n next retry src hx => hpub ⟨m, n, next, retry, src, hx⟩) h]

theorem enter_published {sh : Shared} {ev : Entry} {e : Effect Shared Section}
    (h : enter cfg sh ev = some e) : e.shared.published = sh.published := by
  cases ev with
  | fire key =>
      obtain ⟨t, _, rfl⟩ := Option.map_eq_some_iff.mp h
      rfl
  | _ => cases h; rfl

theorem enter_load {sh : Shared} {ev : Entry} {e : Effect Shared Section} {y : Section}
    (h : enter cfg sh ev = some e) (hy : y ∈ e.made) : y.load? = none := by
  rw [Effect.mem_made] at hy
  cases ev with
  | fire key =>
      obtain ⟨t, _, rfl⟩ := Option.map_eq_some_iff.mp h
      obtain rfl : y = .fired t.2 := by simpa using hy
      rfl
  | _ =>
      cases h
      rw [show y = _ by simpa using hy]
      rfl

/-! ### Runs

Freshness and soundness of every section give the soundness of every publication, which is kept
for good. -/

/-- The slots of a run are those of the configuration. -/
theorem slots_of_run {s : State Shared Section} {G : Guard Shared Section CallOutcome Entry}
    (h : Run (discovery cfg lib reader) G (start cfg) s) (m : Bytes) :
    (s.shared.slots m).isSome = (cfg.find m).isSome := by
  refine Run.invariant (I := fun sh _ => (sh.slots m).isSome = (cfg.find m).isSome) ?_ ?_ ?_ h
  · simp [start, initialSlots]
  · intro sh x r e others hI _ hexec
    rw [← hI]
    exact (exec_advances hexec).isSome_eq m
  · intro sh ev e p hI _ henter
    rw [← hI]
    exact (enter_advances henter).isSome_eq m

/-- The invariant: every section to be run is sound and fresh, and so is what was published. -/
structure Attributed (cfg : BridgeConfig) (lib : Nlohmann) (reader : ContractReader)
    (sh : Shared) (p : Multiset Section) : Prop where
  sound : ∀ x ∈ p, x.Sound lib reader
  fresh : ∀ x ∈ p, x.Fresh sh
  published : ∀ q ∈ sh.published, q.Sound cfg lib reader

theorem Section.Fresh.advance {sh sh' : Shared} {x : Section} (h : x.Fresh sh)
    (hadv : sh.Advances sh') : x.Fresh sh' :=
  fun l hl => (h l hl).advance hadv

theorem attributed_start : Attributed cfg lib reader (start cfg).shared (start cfg).pending := by
  have hpending : ∀ x ∈ (start cfg).pending, x.load? = none := by
    intro x hx
    obtain ⟨em, -, rfl⟩ : ∃ em ∈ cfg.modules, x = .refresh em.name := by
      simpa [start, State.pending, eq_comm] using hx
    rfl
  refine ⟨fun x hx => Section.sound_of_load_none (hpending x hx), ?_, ?_⟩
  · intro x hx l hl
    rw [hpending x hx] at hl
    cases hl
  · intro q hq
    simp [start] at hq

/-- **Run.** -/
theorem attributed_of_run {s : State Shared Section} {G : Guard Shared Section CallOutcome Entry}
    (h : Run (discovery cfg lib reader) G (start cfg) s) :
    Attributed cfg lib reader s.shared s.pending := by
  refine Run.invariant attributed_start ?_ ?_ h
  · intro sh x r e others hI _ hexec
    have hsound := hI.sound x (Multiset.mem_cons_self x others)
    have hfresh := hI.fresh x (Multiset.mem_cons_self x others)
    have hadv := exec_advances hexec
    refine ⟨?_, ?_, ?_⟩
    · exact Effect.forall_made (exec_sound hsound hexec)
        fun y hy => hI.sound y (Multiset.mem_cons_of_mem hy)
    · exact Effect.forall_made (exec_fresh hfresh hexec)
        fun y hy => (hI.fresh y (Multiset.mem_cons_of_mem hy)).advance hadv
    · intro q hq
      rcases exec_published hsound hfresh hexec q hq with hold | hnew
      · exact hI.published q hold
      · exact hnew
  · intro sh ev e p hI _ henter
    refine ⟨?_, ?_, ?_⟩
    · exact Effect.forall_made (fun y hy => Section.sound_of_load_none (enter_load henter hy))
        hI.sound
    · refine Effect.forall_made ?_ fun y hy => (hI.fresh y hy).advance (enter_advances henter)
      intro y hy l hl
      rw [enter_load henter hy] at hl
      cases hl
    · rw [enter_published henter]
      exact hI.published

/-- **A published view answers one current attempt.** In every reachable state, each view that was
installed was built from answers to calls of the attempt that was current at that moment, all
issued after the last reset of the module. The live report may be the revalidation read that started
the attempt. -/
theorem published_of_current_attempt {s : State Shared Section}
    (h : Run (discovery cfg lib reader) Guard.any (start cfg) s) :
    ∀ p ∈ s.shared.published, p.Sound cfg lib reader :=
  (attributed_of_run h).published

/-- One module, `m`. -/
def oneModule : BridgeConfig := { modules := [{ name := str "m" }] }

/-- The first refresh of a module whose live report is `[]`, up to its publication. -/
def firstReport : List (Move CallOutcome Entry) :=
  [.run 0 {}, .run 0 {}, .run 1 { value := .arr [] }, .run 2 {}, .run 2 {}, .run 2 {}]

/-! ## A typed module and an untyped one

The configuration, reader and answers that runs of this development are replayed on. -/

/-- `{"types":[{"name":"Reading"}]}`: what the reader makes of every contract, and its value. -/
def sensorText : Bytes := str "\x7b\"types\":[\x7b\"name\":\"Reading\"\x7d]\x7d"

def sensorJson : Json :=
  Json.object [(str "types", .arr [Json.object [(str "name", .str (str "Reading"))]])]

/-- `{"expose":{"modules":[{"name":"m","methods":{"deny":["reset"]}},"n"]}}`, and its value. -/
def twoModulesText : Bytes := str
  ("\x7b\"expose\":\x7b\"modules\":[\x7b\"name\":\"m\"," ++
    "\"methods\":\x7b\"deny\":[\"reset\"]\x7d\x7d,\"n\"]\x7d\x7d")

def twoModulesJson : Json :=
  Json.object [(str "expose", Json.object [(str "modules", .arr [
    Json.object [(str "name", .str (str "m")),
      (str "methods", Json.object [(str "deny", .arr [.str (str "reset")])])], .str (str "n")])])]

/-- `m`, of which `reset` is denied, and `n`. -/
def twoModules : BridgeConfig where
  modules := [{ name := str "m", methods := { deny := [str "reset"] } }, { name := str "n" }]

def sensorLib : Nlohmann :=
  (Nlohmann.only twoModulesText twoModulesJson (by decide)).also sensorText sensorJson (by decide)

/-- Every contract declares `read(x)`, `reset()` and the event `changed`. -/
def sensorReader : ContractReader where
  readContract _ m :=
    { ok := true, moduleName := m, astJson := sensorText, contractVersion := str "1.0"
      methods := [{ name := str "read", params := [{ name := str "x" }] }, { name := str "reset" }]
      events := [{ name := str "changed" }] }
  lidlReaderRev := str "1"

/-- An entry of a live report. -/
def reported (name : Bytes) (params : List Bytes) : Json :=
  Json.object [(str "name", .str name),
    (str "parameters", .arr (params.map fun p => Json.object [(str "name", .str p)]))]

/-- What the host says of a module that is as its contract has it. -/
def sensorReport : Json :=
  .arr [reported (str "read") [str "x"], reported (str "reset") [], reported (str "lidl") [],
    (reported (str "changed") []).set (str "type") (.str (str "event"))]

/-- Thread `i` goes on, `n` sections. -/
def goesOn (i n : Nat) : List (Move CallOutcome Entry) := List.replicate n (.run i {})

/-- The client of `m` is replaced while its first report is awaited, and its timer fires. The report
comes when the next attempt has begun, and is dropped. -/
def supersededMoves : List (Move CallOutcome Entry) :=
  goesOn 0 2 ++ goesOn 1 2 ++ .enter (.clientReplaced (str "m")) :: goesOn 4 2 ++
    .enter (.fire (str "m")) :: goesOn 5 1 ++ goesOn 6 2 ++ .run 2 { value := sensorReport } ::
    goesOn 8 1

/-- The next attempt on `m` reads the report, the contract and the version; then `n` reports, and
has no contract. -/
def sensorMoves : List (Move CallOutcome Entry) :=
  supersededMoves ++ .run 7 { value := sensorReport } :: goesOn 9 3 ++
    .run 10 { value := .str (str "sensor") } :: goesOn 11 3 ++
    .run 12 { value := .str (str "1.0") } :: goesOn 13 3 ++
    .run 3 { value := .arr [reported (str "get/item") [], reported (str "reset") []] } :: goesOn 14 4

theorem published_of_current_attempt_superseded :
    ∃ s, Run (discovery twoModules sensorLib sensorReader) Guard.any (start twoModules) s ∧
      s.shared.published.map (fun p => (p.module, p.attempt, p.view.status)) =
        [(str "m", 3, .ok), (str "n", 1, .untyped)] ∧
      ∀ p ∈ s.shared.published, p.Sound twoModules sensorLib sensorReader := by
  have hmoves : ((discovery twoModules sensorLib sensorReader).replay (start twoModules)
      sensorMoves).map (fun s => s.shared.published.map fun p =>
        (p.module, p.attempt, p.view.status)) =
      some [(str "m", 3, .ok), (str "n", 1, .untyped)] := by decide +kernel
  obtain ⟨s, hs, hpublished⟩ := Option.map_eq_some_iff.mp hmoves
  have hrun := Run.replay .start hs
  exact ⟨s, hrun, hpublished, published_of_current_attempt hrun⟩

end JsonRpcBridge.Discovery
