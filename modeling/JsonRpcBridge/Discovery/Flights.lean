import JsonRpcBridge.Discovery.Rediscovery
import JsonRpcBridge.Interleaving.History
import JsonRpcBridge.Interleaving.Tokens

/-!
# What one section does to one slot

`Slot.Step` lists what a section can do to the slot of a module, with the delays of the schedule
calls it decides on; `exec_step` says that nothing else happens. Over it stands the invariant
`Flights`: the current attempt has exactly one section to come while `inFlight` is set and none
otherwise, and no revalidation read was started during it.
-/

namespace JsonRpcBridge.Discovery

open Interleaving

variable {cfg : BridgeConfig} {lib : Nlohmann} {reader : ContractReader}

/-! ## Steps of a slot

`exec` has some forty branches, and most proofs over runs need only what becomes of one slot.
`Slot.Step` is that list, one constructor for each way a slot is written; a section that acts on
no slot, or on that of another module, is `rest`. -/

/-- The delay of a schedule call of `m`. -/
def Section.delay? (m : Bytes) : Section → Option Nat
  | .schedule k d => if k = m then some d else none
  | _ => none

@[simp] theorem delay?_schedule (m : Bytes) (d : Nat) : (Section.schedule m d).delay? m = some d :=
  if_pos rfl

@[simp] theorem delay?_changed (m k : Bytes) : (Section.changed k).delay? m = none := rfl

/-- The section changes this slot of `m` whatever else holds. -/
def Section.Acts (m : Bytes) (s : Slot) : Section → Prop
  | .refresh k | .providerLost k | .providerArmed k _ | .clientReplaced k => k = m
  | .callUnavailable k => k = m ∧ s.inFlight = false ∧ s.retryArmed = false
  | .missed k n | .publish k n _ _ _ => k = m ∧ s.attempt = n
  | _ => False

/-- `s.Step cfg m x s' ds`: the section `x` takes the slot `s` of `m` to `s'`, and leaves schedule
calls of `m` with the delays `ds` to be made. -/
inductive Slot.Step (cfg : BridgeConfig) (m : Bytes) (s : Slot) : Section → Slot → List Nat → Prop
  | refresh : Step cfg m s (.refresh m) s.refresh []
  | lost : Step cfg m s (.providerLost m) s.providerLost [retryDelay 1]
  | saw {g : Nat} : s.restarted g = false → s.view.stale = false →
      Step cfg m s (.providerArmed m g) (s.sawGeneration g) []
  | armed {g : Nat} : s.restarted g = true ∨ s.view.stale = true →
      Step cfg m s (.providerArmed m g) (s.sawGeneration g).rediscover [0]
  | replaced : Step cfg m s (.clientReplaced m) s.clientReplaced [0]
  | unavailable : s.inFlight = false → s.retryArmed = false →
      Step cfg m s (.callUnavailable m) s.callUnavailable [retryDelay 1]
  | missed : Step cfg m s (.missed m s.attempt) s.missed [retryDelay s.missed.failures]
  | publish {next : ModuleView} {retry : Bool} {src : Sources} :
      Step cfg m s (.publish m s.attempt next retry src) (s.publish (exposed cfg m next) retry)
        (if retry then [retryDelay (s.failures + 1)] else [])
  | check {rest : List Bytes} : s.readable = true →
      Step cfg m s (.revalidate (m :: rest)) { s with checking := true } []
  | uncheck {a : Answer} : a.call.module = m →
      Step cfg m s (.revalidated a) { s with checking := false } []
  | restart {a : Answer} : a.call.module = m → s.attempt = a.call.attempt → s.inFlight = false →
      s.retryArmed = false → Step cfg m s (.restart a) s.restart []
  | rest {x : Section} : ¬x.Acts m s → Step cfg m s x s []

/-! ### Schedule calls

A delay is part of the step that decides on it, though the call is made by a section of its own. -/

/-- The delays among the sections an effect leaves. -/
def delaysOf (m : Bytes) (e : Effect Shared Section) : List Nat :=
  (e.next ++ e.spawn.flatten).filterMap (Section.delay? m)

theorem mem_delaysOf {m : Bytes} {e : Effect Shared Section} {d : Nat} :
    d ∈ delaysOf m e ↔ .schedule m d ∈ e.made := by
  rw [Effect.mem_made, delaysOf, List.mem_filterMap]
  constructor
  · rintro ⟨x, hx, hd⟩
    cases x with
    | schedule k d' =>
        simp only [Section.delay?] at hd
        split at hd
        · rename_i hk
          rw [← hk, ← Option.some.inj hd]
          simpa using hx
        · cases hd
    | _ => cases hd
  · intro h
    exact ⟨.schedule m d, by simpa using h, if_pos rfl⟩

theorem Section.Acts.module {m : Bytes} {s : Slot} {x : Section} (h : x.Acts m s) :
    x.module? = some m := by
  cases x with
  | refresh k | providerLost k | providerArmed k g | clientReplaced k => exact congrArg some h
  | callUnavailable k | missed k n | publish k n next retry src => exact congrArg some h.1
  | _ => exact absurd h id

theorem delay?_of_mem_proceed {sh : Shared} {m k : Bytes} {n : Nat} {stage : Stage} {a : Answer}
    {x : Section} (hx : x ∈ proceed lib reader sh k n stage a) : x.delay? m = none := by
  have hcont := continues_of_mem_proceed hx
  cases x with
  | schedule k d => exact absurd hcont id
  | _ => rfl

/-! ### One step lemma

All branches of `exec` are gone through here. The invariants over slots are proved from the list. -/

/-- A section about another module leaves the slot alone and schedules nothing for it. -/
theorem exec_elsewhere {sh : Shared} {x : Section} {r : CallOutcome} {e : Effect Shared Section}
    {m : Bytes} (hx : x.module? ≠ some m) (h : exec cfg lib reader sh x r = some e) :
    e.shared.slots m = sh.slots m ∧ delaysOf m e = [] := by
  cases x with
  | fired job => cases job <;> cases h <;> simp [delaysOf, Section.delay?]
  | revalidate ms =>
      cases ms with
      | nil => cases h; exact ⟨rfl, rfl⟩
      | cons k rest =>
          have hne : m ≠ k := fun heq => hx (by rw [heq]; rfl)
          simp only [exec] at h
          repeat' split at h
          all_goals cases h; simp [hne, delaysOf, Section.delay?]
  | changed k => cases h; exact ⟨rfl, rfl⟩
  | providerChanged k => cases h; exact ⟨rfl, rfl⟩
  | proceed k n stage a =>
      cases h
      refine ⟨rfl, List.filterMap_eq_nil_iff.mpr ?_⟩
      intro y hy
      exact delay?_of_mem_proceed (by simpa using hy)
  | _ =>
      simp only [Section.module?, ne_eq, Option.some.injEq] at hx
      have hne := Ne.symm hx
      simp only [exec] at h
      repeat' split at h
      all_goals cases h
      all_goals simp [hx, hne, delaysOf, Section.delay?]

/-- **Step.** What a section does to the slot of a module, and the schedule calls it decides on. -/
theorem exec_step {sh : Shared} {x : Section} {r : CallOutcome} {e : Effect Shared Section}
    {m : Bytes} {s : Slot} (h : exec cfg lib reader sh x r = some e) (hs : sh.slots m = some s) :
    ∃ s', e.shared.slots m = some s' ∧ s.Step cfg m x s' (delaysOf m e) := by
  -- a section about another module is a rest
  by_cases hmod : x.module? = some m
  case neg =>
    obtain ⟨hslots, hdelays⟩ := exec_elsewhere hmod h
    rw [hdelays]
    exact ⟨s, hslots.trans hs, .rest fun hx => hmod hx.module⟩
  case pos =>
    cases x with
    | refresh k =>
        obtain rfl : k = m := Option.some.inj hmod
        simp only [exec, hs] at h
        cases h
        exact ⟨_, by simp, .refresh⟩
    | providerLost k =>
        obtain rfl : k = m := Option.some.inj hmod
        simp only [exec, hs] at h
        cases h
        refine ⟨s.providerLost, by simp, ?_⟩
        rw [show delaysOf k _ = [retryDelay 1] by simp [delaysOf, List.filterMap_cons]]
        exact .lost
    | providerArmed k g =>
        obtain rfl : k = m := Option.some.inj hmod
        simp only [exec, hs] at h
        split at h
        · rename_i hsaw
          cases h
          rw [Bool.and_eq_true, Bool.not_eq_true', Bool.not_eq_true'] at hsaw
          exact ⟨s.sawGeneration g, by simp, .saw hsaw.1 hsaw.2⟩
        · rename_i hacts
          cases h
          refine ⟨(s.sawGeneration g).rediscover, by simp, ?_⟩
          rw [show delaysOf k _ = [0] by simp [delaysOf, List.filterMap_cons]]
          refine .armed ?_
          by_contra hnot
          simp_all
    | clientReplaced k =>
        obtain rfl : k = m := Option.some.inj hmod
        simp only [exec, hs] at h
        cases h
        refine ⟨s.clientReplaced, by simp, ?_⟩
        rw [show delaysOf k _ = [0] by
          by_cases hset : s.settledView = true <;> simp [delaysOf, List.filterMap_cons, hset]]
        exact .replaced
    | callUnavailable k =>
        obtain rfl : k = m := Option.some.inj hmod
        simp only [exec, hs] at h
        split at h
        · rename_i hbusy
          cases h
          refine ⟨s, hs, .rest ?_⟩
          rintro ⟨-, hflight, hretry⟩
          simp [hflight, hretry] at hbusy
        · rename_i hfree
          cases h
          refine ⟨s.callUnavailable, by simp, ?_⟩
          rw [show delaysOf k _ = [retryDelay 1] by simp [delaysOf, List.filterMap_cons]]
          exact .unavailable (by simp_all) (by simp_all)
    | changed k | providerChanged k => cases hmod
    | schedule k d =>
        cases h
        exact ⟨s, by simpa using hs, .rest id⟩
    | fired job =>
        cases job with
        | refresh k => cases h; exact ⟨s, hs, .rest id⟩
        | revalidate => cases hmod
    | invoke k n stage => cases h; exact ⟨s, hs, .rest id⟩
    | await c stage => cases h; exact ⟨s, hs, .rest id⟩
    | resume a stage =>
        simp only [exec] at h
        repeat' split at h
        all_goals cases h; exact ⟨s, hs, .rest id⟩
    | proceed k n stage a =>
        cases h
        rw [show delaysOf m _ = [] from List.filterMap_eq_nil_iff.mpr fun y hy =>
          delay?_of_mem_proceed (by simpa using hy)]
        exact ⟨s, hs, .rest id⟩
    | missed k n =>
        obtain rfl : k = m := Option.some.inj hmod
        simp only [exec, hs] at h
        split at h
        · rename_i hcur
          cases h
          subst hcur
          refine ⟨s.missed, by simp, ?_⟩
          rw [show delaysOf k _ = [retryDelay s.missed.failures] by simp [delaysOf]]
          exact .missed
        · rename_i hold
          cases h
          exact ⟨s, hs, .rest fun hx => hold hx.2⟩
    | publish k n next retry src =>
        obtain rfl : k = m := Option.some.inj hmod
        simp only [exec, hs] at h
        split at h
        · rename_i hcur
          cases h
          subst hcur
          refine ⟨s.publish (exposed cfg k next) retry, by simp, ?_⟩
          rw [show delaysOf k _ = if retry then [retryDelay (s.failures + 1)] else [] by
            cases retry <;> simp [delaysOf, List.filterMap_cons, Slot.publish]]
          exact .publish
        · rename_i hold
          cases h
          exact ⟨s, hs, .rest fun hx => hold hx.2⟩
    | revalidate ms =>
        cases ms with
        | nil => cases hmod
        | cons k rest =>
            obtain rfl : k = m := Option.some.inj hmod
            simp only [exec, hs] at h
            split at h
            · rename_i hread
              cases h
              exact ⟨{ s with checking := true }, by simp, .check hread⟩
            · cases h
              exact ⟨s, hs, .rest id⟩
    | read k n => cases h; exact ⟨s, hs, .rest id⟩
    | awaitRead c => cases h; exact ⟨s, hs, .rest id⟩
    | revalidated a =>
        have hk : a.call.module = m := Option.some.inj hmod
        simp only [exec, hk, hs] at h
        repeat' split at h
        all_goals
          cases h
          exact ⟨{ s with checking := false }, by simp, .uncheck hk⟩
    | restart a =>
        have hk : a.call.module = m := Option.some.inj hmod
        simp only [exec, hk, hs] at h
        split at h
        · cases h
          exact ⟨s, hs, .rest id⟩
        · rename_i hfree
          cases h
          refine ⟨s.restart, by simp, .restart hk ?_ ?_ ?_⟩ <;> simp_all

/-- The same, seen from the slot after it. -/
theorem exec_stepped {sh : Shared} {x : Section} {r : CallOutcome} {e : Effect Shared Section}
    {m : Bytes} {s' : Slot} (h : exec cfg lib reader sh x r = some e)
    (hs' : e.shared.slots m = some s') :
    ∃ s, sh.slots m = some s ∧ s.Step cfg m x s' (delaysOf m e) := by
  have hsome := (exec_advances h).isSome_eq m
  rw [hs'] at hsome
  obtain ⟨s, hs⟩ := Option.isSome_iff_exists.mp hsome.symm
  obtain ⟨t, ht, hstep⟩ := exec_step h hs
  rw [hs'] at ht
  cases ht
  exact ⟨s, hs, hstep⟩

/-- A module without a slot has nothing scheduled. -/
theorem delaysOf_of_none {sh : Shared} {x : Section} {r : CallOutcome} {e : Effect Shared Section}
    {m : Bytes} (h : exec cfg lib reader sh x r = some e) (hs : sh.slots m = none) :
    delaysOf m e = [] := by
  by_cases hmod : x.module? = some m
  case neg => exact (exec_elsewhere hmod h).2
  case pos =>
    cases x with
    | fired job => cases job <;> cases h <;> rfl
    | revalidate ms =>
        cases ms with
        | nil => cases hmod
        | cons k rest =>
            obtain rfl : k = m := Option.some.inj hmod
            simp only [exec, hs] at h
            cases h
            rfl
    | proceed k n stage a =>
        cases h
        exact List.filterMap_eq_nil_iff.mpr fun y hy => delay?_of_mem_proceed (by simpa using hy)
    | changed k | providerChanged k => cases hmod
    | schedule k d | invoke k n stage | await c stage | read k n | awaitRead c => cases h; rfl
    | _ =>
        have hk := Option.some.inj hmod
        simp only [exec, hk, hs] at h
        cases h
        rfl

/-! ## The sections of an attempt

A section of an attempt hands it on to the next one, or ends it. Counting the sections that carry
the slot's current number, `inFlight` says whether there is one. -/

/-- The attempt a section continues. -/
def Section.attempt? : Section → Option (Bytes × Nat)
  | .invoke m n _ | .proceed m n _ _ | .missed m n | .publish m n _ _ _ => some (m, n)
  | .await c _ => some (c.module, c.attempt)
  | .resume a _ => some (a.call.module, a.call.attempt)
  | _ => none

/-- The attempt of the revalidation read a section is part of. -/
def Section.reread? : Section → Option (Bytes × Nat)
  | .read m n => some (m, n)
  | .awaitRead c => some (c.module, c.attempt)
  | .revalidated a | .restart a => some (a.call.module, a.call.attempt)
  | _ => none

theorem Section.attempt?_eq_some_iff {x : Section} {m : Bytes} {n : Nat} :
    x.attempt? = some (m, n) ↔ x.Continues m n := by
  cases x <;> simp [Section.attempt?, Section.Continues]

/-- The attempt that running a section leaves a section of. -/
def Section.hands? (sh : Shared) : Section → Option (Bytes × Nat)
  | .refresh m => (sh.slots m).map fun s => (m, s.attempt + 1)
  | .invoke m n _ | .proceed m n _ _ => some (m, n)
  | .await c _ => some (c.module, c.attempt)
  | .resume a _ => (sh.slots a.call.module).bind fun s =>
    if s.attempt = a.call.attempt then some (a.call.module, a.call.attempt) else none
  | .restart a => (sh.slots a.call.module).bind fun s =>
    if s.attempt ≠ a.call.attempt ∨ s.inFlight ∨ s.retryArmed then none
    else some (a.call.module, s.attempt + 1)
  | _ => none

/-- A section leaves at most one section of an attempt. -/
theorem carried_made {sh : Shared} {x : Section} {r : CallOutcome} {e : Effect Shared Section}
    (h : exec cfg lib reader sh x r = some e) (t : Bytes × Nat) :
    carried Section.attempt? t e.made = if x.hands? sh = some t then 1 else 0 := by
  cases x with
  | proceed k n stage a =>
      cases h
      obtain ⟨y, hy, hcont⟩ := proceed_eq_singleton lib reader sh k n stage a
      simp only [Effect.made, hy]
      simp [Section.attempt?_eq_some_iff.mpr hcont, Section.hands?]
  | fired job =>
      cases job <;> cases h <;> simp [Effect.made, Section.attempt?, Section.hands?]
  | revalidate ms =>
      cases ms with
      | nil =>
          cases h
          simp [Effect.made, Section.hands?]
      | cons k rest =>
          simp only [exec] at h
          repeat' split at h
          all_goals cases h; simp [Effect.made, Section.attempt?, Section.hands?]
  | clientReplaced k =>
      simp only [exec] at h
      split at h
      · cases h
        simp [Effect.made, Section.hands?]
      · rename_i s hs
        cases h
        by_cases hset : s.settledView = true <;>
          simp [Effect.made, Section.attempt?, Section.hands?, hset]
  | publish k n next retry src =>
      simp only [exec] at h
      repeat' split at h
      all_goals cases h
      all_goals cases retry <;> simp [Effect.made, Section.attempt?, Section.hands?]
  | _ =>
      simp only [exec] at h
      repeat' split at h
      all_goals cases h
      all_goals simp_all [Effect.made, Section.attempt?, Section.hands?, issue]

/-- A read that a section leaves is the one it is part of, or a new one of a settled slot. -/
theorem reread_of_made {sh : Shared} {x y : Section} {r : CallOutcome} {e : Effect Shared Section}
    {m : Bytes} {n : Nat} (h : exec cfg lib reader sh x r = some e) (hy : y ∈ e.made)
    (hread : y.reread? = some (m, n)) :
    x.reread? = some (m, n) ∨ ∃ rest s, x = .revalidate (m :: rest) ∧ sh.slots m = some s ∧
      s.readable = true ∧ s.attempt = n := by
  cases exec_leaves h hy with
  | idle hnone => cases y <;> first | (cases hnone; done) | cases hread
  | begins _ | issues | answers | resumes | restarts _ _ _ _ _ => cases hread
  | @proceeds k i stage a _ hmem =>
      have hcont := continues_of_mem_proceed hmem
      cases y <;> first | exact absurd hcont id | cases hread
  | @checks k rest s' hs' =>
      simp only [exec] at h
      split at h
      · cases h
        simp [Effect.mem_made] at hy
      · rename_i s hs
        split at h
        · rename_i hreadable
          cases h
          obtain rfl : { s with checking := true } = s' := by simpa using hs'
          obtain ⟨rfl, rfl⟩ := Prod.mk.inj (Option.some.inj hread)
          exact Or.inr ⟨rest, s, rfl, hs, hreadable, rfl⟩
        · cases h
          simp [Effect.mem_made] at hy
  | reads | rereads | differs => exact Or.inl hread

/-! ## The invariant

Where the flag is set, exactly one section carries on the current attempt. Where it is not, none
does, and what is left of earlier attempts has an older number. -/

/-- One section of the current attempt while it is in flight, none otherwise; and no revalidation
read is part of an attempt in flight. -/
structure Slot.Flight (p : Multiset Section) (m : Bytes) (s : Slot) : Prop where
  chain : carried Section.attempt? (m, s.attempt) p = if s.inFlight then 1 else 0
  reads : s.inFlight = true → ∀ x ∈ p, x.reread? ≠ some (m, s.attempt)

/-- A section of the current attempt is in flight. -/
theorem Slot.Flight.inFlight {p : Multiset Section} {m : Bytes} {s : Slot} {x : Section}
    (h : s.Flight p m) (hx : x ∈ p) (hattempt : x.attempt? = some (m, s.attempt)) :
    s.inFlight = true := by
  have hpos := carried_pos.mpr ⟨x, hx, hattempt⟩
  rw [h.chain] at hpos
  by_contra hno
  rw [if_neg hno] at hpos
  omega

/-- No section is ahead of the slot. -/
theorem attempt_le_of_fresh {sh : Shared} {x : Section} {m : Bytes} {n : Nat} {s : Slot}
    (h : x.Fresh sh) (hs : sh.slots m = some s)
    (hx : x.attempt? = some (m, n) ∨ x.reread? = some (m, n)) : n ≤ s.attempt := by
  have hload : ∃ l ∈ x.load?, l.module = m ∧ l.attempt = n := by
    cases x <;> simp_all [Section.attempt?, Section.reread?, Section.load?]
  obtain ⟨l, hl, rfl, rfl⟩ := hload
  exact (h l hl s hs).1

section Step

variable {sh : Shared} {x : Section} {r : CallOutcome} {e : Effect Shared Section}
  {others : Multiset Section} {m : Bytes} {s s' : Slot}

/-- A new attempt has the section that starts it, and no read. -/
theorem Slot.Flight.next (hfresh : ∀ y ∈ x ::ₘ others, y.Fresh sh) (hs : sh.slots m = some s)
    (h : exec cfg lib reader sh x r = some e) (hattempt : s'.attempt = s.attempt + 1)
    (hhands : x.hands? sh = some (m, s.attempt + 1) ↔ s'.inFlight = true) :
    s'.Flight (e.made + others) m := by
  have hothers : carried Section.attempt? (m, s.attempt + 1) others = 0 := by
    apply carried_of_forall
    intro y hy hcont
    have hle := attempt_le_of_fresh (hfresh y (Multiset.mem_cons_of_mem hy)) hs (Or.inl hcont)
    omega
  have hreads : ∀ y ∈ x ::ₘ others, y.reread? ≠ some (m, s.attempt + 1) := by
    intro y hy hread
    have hle := attempt_le_of_fresh (hfresh y hy) hs (Or.inr hread)
    omega
  constructor
  · rw [hattempt, carried_add, carried_made h, hothers, Nat.add_zero]
    simp only [hhands]
  · intro _ y hy
    rw [hattempt]
    rcases Multiset.mem_add.mp hy with hmade | hold
    · intro hread
      rcases reread_of_made h hmade hread with hx | ⟨_, t, _, ht, _, hlater⟩
      · exact hreads x (Multiset.mem_cons_self x others) hx
      · rw [hs] at ht
        cases ht
        omega
    · exact hreads y (Multiset.mem_cons_of_mem hold)

/-- The attempt stays: its section is handed on, or it was the last. -/
theorem Slot.Flight.keep (hflight : s.Flight (x ::ₘ others) m) (hs : sh.slots m = some s)
    (h : exec cfg lib reader sh x r = some e) (hattempt : s'.attempt = s.attempt)
    (hkeeps : s'.inFlight = true → s.inFlight = true)
    (hhands : (if x.hands? sh = some (m, s.attempt) then 1 else 0) + (if s.inFlight then 1 else 0) =
      (if s'.inFlight then 1 else 0) + if x.attempt? = some (m, s.attempt) then 1 else 0) :
    s'.Flight (e.made + others) m := by
  constructor
  · have hchain := hflight.chain
    rw [carried_cons] at hchain
    rw [hattempt, carried_add, carried_made h]
    omega
  · intro hin y hy
    rw [hattempt]
    have hreads := hflight.reads (hkeeps hin)
    rcases Multiset.mem_add.mp hy with hmade | hold
    · intro hread
      rcases reread_of_made h hmade hread with hx | ⟨_, t, _, ht, hreadable, _⟩
      · exact hreads x (Multiset.mem_cons_self x others) hx
      · rw [hs] at ht
        cases ht
        have hfree : s.inFlight = false := by
          simp only [Slot.readable, Bool.not_eq_true', Bool.or_eq_false_iff] at hreadable
          exact hreadable.1.1.1
        rw [hfree] at hkeeps
        cases hkeeps hin
    · exact hreads y (Multiset.mem_cons_of_mem hold)

/-- A section of no attempt that leaves the attempt and the flag alone. -/
theorem Slot.Flight.plain (hflight : s.Flight (x ::ₘ others) m) (hs : sh.slots m = some s)
    (h : exec cfg lib reader sh x r = some e) (hattempt : s'.attempt = s.attempt)
    (hin : s'.inFlight = s.inFlight) (hhands : x.hands? sh = none) (hx : x.attempt? = none) :
    s'.Flight (e.made + others) m := by
  refine hflight.keep hs h hattempt (fun hflag => hin ▸ hflag) ?_
  rw [hhands, hx, hin]
  exact Nat.add_comm _ _

/-! ### The attempt of a slot, over a step -/

/-- A section that does not act on the slot hands its attempt on. -/
theorem hands?_iff_of_rest (hs : sh.slots m = some s) (hrest : ¬x.Acts m s) :
    x.hands? sh = some (m, s.attempt) ↔ x.attempt? = some (m, s.attempt) := by
  cases x with
  | refresh k =>
      have hk : k ≠ m := hrest
      simp [Section.hands?, Section.attempt?, hk]
  -- an answer goes on exactly when its number is still the slot's
  | resume a stage =>
      simp only [Section.hands?, Section.attempt?, Option.bind_eq_some_iff, Option.some.injEq,
        Prod.mk.injEq]
      constructor
      · rintro ⟨t, _, hsome⟩
        split at hsome
        · simpa using hsome
        · cases hsome
      · rintro ⟨hmodule, hattempt⟩
        exact ⟨s, hmodule ▸ hs, by rw [if_pos hattempt.symm, hmodule, hattempt]⟩
  | missed k n =>
      simp only [Section.hands?, Section.attempt?, Option.some.injEq, Prod.mk.injEq, false_iff,
        reduceCtorEq]
      exact fun hcur => hrest ⟨hcur.1, hcur.2.symm⟩
  | publish k n next retry src =>
      simp only [Section.hands?, Section.attempt?, Option.some.injEq, Prod.mk.injEq, false_iff,
        reduceCtorEq]
      exact fun hcur => hrest ⟨hcur.1, hcur.2.symm⟩
  | restart a =>
      simp only [Section.hands?, Section.attempt?, Option.bind_eq_some_iff, reduceCtorEq, iff_false]
      rintro ⟨t, ht, hsome⟩
      split at hsome
      · cases hsome
      · obtain ⟨hmodule, hattempt⟩ := Prod.mk.inj (Option.some.inj hsome)
        rw [hmodule, hs] at ht
        cases ht
        omega
  | _ => simp [Section.hands?, Section.attempt?]

/-- **Step.** -/
theorem Slot.Flight.step (hfresh : ∀ y ∈ x ::ₘ others, y.Fresh sh) (hs : sh.slots m = some s)
    (hflight : s.Flight (x ::ₘ others) m) (h : exec cfg lib reader sh x r = some e)
    {ds : List Nat} (hstep : s.Step cfg m x s' ds) : s'.Flight (e.made + others) m := by
  have hlast : x.attempt? = some (m, s.attempt) → s.inFlight = true :=
    hflight.inFlight (Multiset.mem_cons_self x others)
  -- four of them start a new number, which nothing pending can carry yet
  cases hstep with
  | refresh => exact .next hfresh hs h rfl (by simp [Section.hands?, hs, Slot.refresh])
  | lost => exact .next hfresh hs h rfl (by simp [Section.hands?, Slot.providerLost])
  | saw => exact hflight.plain hs h rfl rfl rfl rfl
  | armed => exact .next hfresh hs h rfl (by simp [Section.hands?, Slot.rediscover])
  | replaced => exact .next hfresh hs h rfl (by simp [Section.hands?, Slot.clientReplaced])
  | unavailable => exact hflight.plain hs h rfl rfl rfl rfl
  | missed =>
      have hin := hlast rfl
      exact hflight.keep hs h rfl (fun hno => by cases hno)
        (by simp [Section.hands?, Section.attempt?, Slot.missed, hin])
  | publish =>
      have hin := hlast rfl
      exact hflight.keep hs h rfl (fun hno => by cases hno)
        (by simp [Section.hands?, Section.attempt?, Slot.publish, hin])
  | check => exact hflight.plain hs h rfl rfl rfl rfl
  | uncheck => exact hflight.plain hs h rfl rfl rfl rfl
  | @restart a hmodule hattempt hin hretry =>
      refine .next hfresh hs h rfl ?_
      simp [Section.hands?, hmodule, hs, hattempt, hin, hretry, Slot.restart]
  | rest hrest =>
      refine hflight.keep hs h rfl id ?_
      simp only [hands?_iff_of_rest hs hrest]
      exact Nat.add_comm _ _

end Step

/-! ### Over a run -/

/-- The slots of a state, each with what its flags stand for. -/
def Flights (sh : Shared) (p : Multiset Section) : Prop :=
  ∀ m s, sh.slots m = some s → s.Flight p m

theorem flights_start : Flights (start cfg).shared (start cfg).pending := by
  intro m s hs
  have hpending : ∀ x ∈ (start cfg).pending, x.attempt? = none ∧ x.reread? = none := by
    intro x hx
    obtain ⟨em, -, rfl⟩ : ∃ em ∈ cfg.modules, x = .refresh em.name := by
      simpa [start, State.pending, eq_comm] using hx
    exact ⟨rfl, rfl⟩
  have hslot : initialSlots cfg m = some s := by simpa [start] using hs
  obtain ⟨em, -, rfl⟩ := Option.map_eq_some_iff.mp hslot
  constructor
  · refine carried_of_forall ?_
    intro x hx hcont
    rw [(hpending x hx).1] at hcont
    cases hcont
  · intro hin
    cases hin

theorem enter_slots {sh : Shared} {ev : Entry} {e : Effect Shared Section}
    (h : enter cfg sh ev = some e) : e.shared.slots = sh.slots := by
  cases ev with
  | fire key =>
      obtain ⟨t, _, rfl⟩ := Option.map_eq_some_iff.mp h
      rfl
  | _ => cases h; rfl

/-- What an entry point leaves to be done is part of no attempt and no read. -/
theorem plain_of_enter {sh : Shared} {ev : Entry} {e : Effect Shared Section} {y : Section}
    (h : enter cfg sh ev = some e) (hy : y ∈ e.made) : y.attempt? = none ∧ y.reread? = none := by
  have hload := enter_load h hy
  cases y <;> first | exact ⟨rfl, rfl⟩ | cases hload

theorem Slot.Flight.enter {sh : Shared} {ev : Entry} {e : Effect Shared Section}
    {p : Multiset Section} {m : Bytes} {s : Slot} (hflight : s.Flight p m)
    (h : enter cfg sh ev = some e) : s.Flight (e.made + p) m := by
  constructor
  · have hmade : carried Section.attempt? (m, s.attempt) e.made = 0 := by
      apply carried_of_forall
      intro y hy hcont
      rw [(plain_of_enter h hy).1] at hcont
      cases hcont
    rw [carried_add, hmade, Nat.zero_add]
    exact hflight.chain
  · intro hin y hy
    rcases Multiset.mem_add.mp hy with hmade | hold
    · rw [(plain_of_enter h hmade).2]
      exact nofun
    · exact hflight.reads hin y hold

/-- **Run.** -/
theorem flights_of_run {s : State Shared Section} {G : Guard Shared Section CallOutcome Entry}
    (h : Run (discovery cfg lib reader) G (start cfg) s) : Flights s.shared s.pending := by
  refine Run.invariant_with (J := Attributed cfg lib reader) (I := Flights)
    (fun s hs => attributed_of_run hs) flights_start ?_ ?_ h
  · intro sh x r e others hknown hI _ hexec m s' hs'
    obtain ⟨s, hs, hstep⟩ := exec_stepped hexec hs'
    exact (hI m s hs).step hknown.fresh hs hexec hstep
  · intro sh ev e p _ hI _ henter m s hs
    rw [enter_slots henter] at hs
    exact (hI m s hs).enter henter

end JsonRpcBridge.Discovery
