import JsonRpcBridge.Discovery.Flights
import JsonRpcBridge.Interleaving.Progress
import Mathlib.Algebra.BigOperators.Group.Multiset.Basic
import Mathlib.Algebra.GroupWithZero.Nat

/-!
# Discovery does not spin

Sections lead to sections: a refresh to a call, an answer to the next call or a view, a revalidation
round to a read of every module, and each of them may end in a retry. A retry goes through a timer,
and between two timers or events of the rest of the bridge there is only so much to do.

* `Section.effort`: how much a section and all that it leads to come to, whatever is answered.
* `work_of_run`: over every run, the sections that run are bounded by the modules and the entry points
  called; where nothing but calls of modules is outstanding, a module that is not settled has its
  timer armed or waits for a call of its current attempt.
-/

namespace JsonRpcBridge.Discovery

open Interleaving

/-! ## Effort

A number for each kind of section, such that what a section leaves comes to less than itself. An
answer is worth what it may lead to at most: a call that ends in a view, or a miss with its
timer. -/

def Stage.effort : Stage → Nat
  | .version .. => 4
  | .contract .. => 8
  | .interface => 12

/-- The sections that a section and what it leads to come to, at most. -/
def Section.effort (modules : Nat) : Section → Nat
  | .changed _ | .providerChanged _ | .schedule _ _ => 1
  | .missed _ _ => 2
  | .publish _ _ _ _ _ | .providerLost _ | .providerArmed _ _ | .clientReplaced _
  | .callUnavailable _ => 3
  | .proceed _ _ stage _ => stage.effort
  | .resume _ stage => stage.effort + 1
  | .await _ stage => stage.effort + 2
  | .invoke _ _ stage => stage.effort + 3
  | .refresh _ => 16
  | .fired (.refresh _) => 17
  | .restart _ => 15
  | .revalidated _ => 16
  | .awaitRead _ => 17
  | .read _ _ => 18
  | .revalidate names => 19 * names.length + 1
  | .fired .revalidate => 19 * modules + 2

variable {cfg : BridgeConfig} {lib : Nlohmann} {reader : ContractReader}

/-! ### What a step leaves

A section may leave several. Their efforts together stay below its own, so each section that runs
brings the sum down. -/

/-- The effort of a list of sections. -/
def effortOf (modules : Nat) (xs : List Section) : Nat := (xs.map (Section.effort modules)).sum

section

variable {sh : Shared} {x : Section} {r : CallOutcome} {e : Effect Shared Section} {ev : Entry}
  {modules : Nat}

@[simp] theorem effortOf_nil : effortOf modules [] = 0 := rfl

@[simp] theorem effortOf_cons {xs : List Section} :
    effortOf modules (x :: xs) = x.effort modules + effortOf modules xs := List.sum_cons

theorem effort_made : (e.made.map (Section.effort modules)).sum =
    effortOf modules (e.next ++ e.spawn.flatten) := by
  rw [Effect.made, Multiset.map_coe, Multiset.sum_coe, effortOf]

theorem effort_proceed {m : Bytes} {n : Nat} {stage : Stage} {a : Answer} :
    effortOf modules (proceed lib reader sh m n stage a) < stage.effort := by
  cases stage with
  | interface =>
      simp only [proceed, onInterface]
      split
      · simp [Section.effort, Stage.effort]
      · split
        · simp [Section.effort, Stage.effort]
        · simp [Section.effort, Stage.effort]
  | contract live report =>
      simp only [proceed, onContract]
      split
      · simp [Section.effort, Stage.effort]
      · split
        · simp [Section.effort, Stage.effort]
        · split
          · simp [Section.effort, Stage.effort]
          · simp [Section.effort, Stage.effort]
  | version live typed sha report text => simp [proceed, Section.effort, Stage.effort]

/-- **Step.** What a section leaves comes to less than the section itself. -/
theorem effort_exec (h : exec cfg lib reader sh x r = some e) :
    (e.made.map (Section.effort cfg.modules.length)).sum < x.effort cfg.modules.length := by
  rw [effort_made]
  cases x with
  | proceed m n stage a =>
      cases h
      rw [List.flatten_nil, List.append_nil]
      exact effort_proceed
  -- each module of a round is worth its read, and the restart that may come of it
  | revalidate names =>
      cases names with
      | nil =>
          cases h
          simp [Section.effort]
      | cons m rest =>
          have hrest : Section.effort cfg.modules.length (.revalidate rest) + 19 =
              Section.effort cfg.modules.length (.revalidate (m :: rest)) := by
            simp only [Section.effort, List.length_cons]
            omega
          have hread : ∀ n, Section.effort cfg.modules.length (.read m n) = 18 := fun _ => rfl
          simp only [exec] at h
          repeat' split at h
          all_goals
            cases h
            simp only [List.flatten_nil, List.append_nil, effortOf_cons, effortOf_nil, hread]
            omega
  | fired job =>
      cases job with
      | refresh m =>
          cases h
          simp [Section.effort]
      | revalidate =>
          cases h
          simp [Section.effort]
  | clientReplaced m =>
      simp only [exec] at h
      split at h <;> cases h
      · simp [Section.effort]
      · rename_i s _
        split <;> simp [Section.effort]
  | publish m n next retry src =>
      simp only [exec] at h
      split at h
      · cases h
        simp [Section.effort]
      · split at h <;> cases h
        · cases retry <;> simp [Section.effort]
        · simp [Section.effort]
  | _ =>
      simp only [exec] at h
      repeat' split at h
      all_goals
        cases h
        simp [Section.effort, Stage.effort]

/-- The effort that an entry point brings. -/
theorem effort_enter (h : enter cfg sh ev = some e) :
    (e.made.map (Section.effort cfg.modules.length)).sum ≤ 19 * cfg.modules.length + 17 := by
  rw [effort_made]
  cases ev with
  | fire key =>
      obtain ⟨⟨_, job⟩, _, rfl⟩ := Option.map_eq_some_iff.mp h
      cases job <;> simp [Section.effort]
  | _ =>
      cases h
      simp [Section.effort]

end

/-! ## Runs

Entry points put effort in, sections take it out. What is left over a run bounds the number of
its sections. -/

/-- A call of a module that has not been answered. -/
def Section.Outstanding : Section → Prop
  | .await _ _ | .awaitRead _ => True
  | _ => False

theorem effort_refreshes (modules : Nat) (ems : List ExposedModule) :
    effortOf modules (ems.map fun em => [.refresh em.name]).flatten = 16 * ems.length := by
  induction ems with
  | nil => rfl
  | cons em ems ih =>
      rw [List.map_cons, List.flatten_cons, List.singleton_append, effortOf_cons, ih, List.length_cons,
        Section.effort]
      omega

/-- Where all that is left is outstanding, what a slot counts on is a timer or such a call. -/
theorem Slot.Covered.waits {sh : Shared} {p : Multiset Section} {m : Bytes} {slot : Slot}
    (h : slot.Covered sh p m) (hrest : ∀ x ∈ p, x.Outstanding)
    (hbusy : slot.Unsettled ∨ slot.retryArmed = true ∨ slot.inFlight = true) :
    (∃ d, sh.timers m = some (d, .refresh m)) ∨
      ∃ c stage, .await c stage ∈ p ∧ c.module = m ∧ c.attempt = slot.attempt := by
  -- of the triggers only an armed timer is not a section to be run
  have htimer : Trigger sh p m → ∃ d, sh.timers m = some (d, .refresh m) := by
    rintro (⟨x, hx, htrigger⟩ | htimer)
    · exfalso
      have hout := hrest x hx
      cases x with
      | await c stage => exact htrigger
      | awaitRead c => exact htrigger
      | _ => exact hout
    · exact htimer
  have hcall : Chain p m slot.attempt →
      ∃ c stage, .await c stage ∈ p ∧ c.module = m ∧ c.attempt = slot.attempt := by
    rintro ⟨x, hx, hcontinues⟩
    have hout := hrest x hx
    cases x with
    | await c stage => exact ⟨c, stage, hx, hcontinues⟩
    | awaitRead c => exact absurd hcontinues id
    | _ => exact absurd hout id
  rcases hbusy with hunsettled | hretry | hflight
  · exact (h.unsettled hunsettled).elim (fun hchain => .inr (hcall hchain))
      fun htrigger => .inl (htimer htrigger)
  · exact .inl (htimer (h.retry hretry))
  · exact .inr (hcall (h.flight hflight))

/-- **Discovery does not spin**: however long it runs, and whatever is answered, it runs at most 16
sections for each module, and 19 for each module and 17 more for every entry point that is called or
timer that fires. Where it has nothing left to run but to wait for modules, a module whose view is
pending or stale, or for which a retry is due, has its timer armed or waits for a call of its
current attempt. -/
theorem work_of_run {ms : List (Move CallOutcome Entry)} {s : State Shared Section}
    (hnames : cfg.NamesChecked lib)
    (h : (discovery cfg lib reader).replay (start cfg) ms = some s) :
    ms.countP Move.isRun ≤ 16 * cfg.modules.length +
        (19 * cfg.modules.length + 17) * ms.countP (fun m => !m.isRun) ∧
      ((∀ x ∈ s.pending, x.Outstanding) → ∀ em ∈ cfg.modules, ∃ slot,
        s.shared.slots em.name = some slot ∧
          (slot.Unsettled ∨ slot.retryArmed = true ∨ slot.inFlight = true →
            (∃ d, s.shared.timers em.name = some (d, .refresh em.name)) ∨
              ∃ c stage, .await c stage ∈ s.pending ∧ c.module = em.name ∧ c.attempt = slot.attempt)) := by
  refine ⟨?_, fun hrest em hem => ?_⟩
  · have hbound := Program.replayIf_bound (I := fun _ => True) (K := 19 * cfg.modules.length + 17)
      (f := fun t => (t.pending.map (Section.effort cfg.modules.length)).sum)
      (fun {t t' i c} _ _ hstep => ?_) (fun {t t' ev} _ _ hstep => ?_) trivial h
    · have hstart : ((start cfg).pending.map (Section.effort cfg.modules.length)).sum =
          16 * cfg.modules.length := by
        rw [State.pending, Multiset.map_coe, Multiset.sum_coe]
        exact effort_refreshes _ _
      have hle := hbound.2
      rw [hstart] at hle
      exact Nat.le_trans (Nat.le_add_right _ _) hle
    · obtain ⟨x, e, others, -, hexec, hp, -, hp'⟩ := Program.step_run hstep
      rw [hp, hp', Multiset.map_add, Multiset.sum_add, Multiset.map_cons, Multiset.sum_cons]
      exact ⟨trivial, Nat.add_lt_add_right (effort_exec hexec) _⟩
    · obtain ⟨e, henter, -, hp'⟩ := Program.step_enter hstep
      rw [hp', Multiset.map_add, Multiset.sum_add, Nat.add_comm]
      exact ⟨trivial, Nat.add_le_add_left (effort_enter henter) _⟩
  · have hrun := Run.replay .start h
    obtain ⟨slot, hslot⟩ : ∃ slot, s.shared.slots em.name = some slot := by
      rw [← Option.isSome_iff_exists, slots_of_run hrun, BridgeConfig.find, List.find?_isSome]
      exact ⟨em, hem, by simp⟩
    exact ⟨slot, hslot, (covered_of_run hnames hrun hslot).waits hrest⟩

/-- The first report of `m` does not come. -/
def unreportedMoves : List (Move CallOutcome Entry) :=
  [.run 0 {}, .run 0 {}, .run 1 { error := str "timeout" }, .run 2 {}, .run 2 {}, .run 2 {}, .run 2 {}]

/-- Seven sections, and the timer of `m` is armed. -/
theorem work_of_run_unreported : ∃ s,
    (discovery oneModule .emptyArray .refusing).replay (start oneModule) unreportedMoves = some s ∧
    unreportedMoves.countP Move.isRun = 7 ∧
    ∃ d, s.shared.timers (str "m") = some (d, .refresh (str "m")) := by
  have hmoves : ((discovery oneModule .emptyArray .refusing).replay (start oneModule)
      unreportedMoves).map (fun s => (s.threads.flatten.length, (s.shared.slots (str "m")).map fun t =>
        t.view.resolved)) = some (0, some false) := by decide +kernel
  obtain ⟨s, hs, hend⟩ := Option.map_eq_some_iff.mp hmoves
  obtain ⟨hthreads, hview⟩ := Prod.mk.inj hend
  have hpending : ∀ x : Section, x ∉ s.pending := by
    intro x hx
    have hx : x ∈ s.threads.flatten := hx
    rw [List.length_eq_zero_iff.mp hthreads] at hx
    cases hx
  obtain ⟨slot, hslot, hwaits⟩ := (work_of_run oneModule_namesChecked hs).2
    (fun x hx => absurd hx (hpending x)) { name := str "m" } (List.mem_singleton_self _)
  rw [hslot] at hview
  refine ⟨s, hs, rfl, ?_⟩
  rcases hwaits (.inl (.inl (Option.some.inj hview))) with htimer | ⟨c, stage, hc, -⟩
  · exact htimer
  · exact absurd hc (hpending _)

end JsonRpcBridge.Discovery
