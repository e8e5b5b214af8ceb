import JsonRpcBridge.Discovery.Consistency
import JsonRpcBridge.Discovery.Flights

/-!
# The retry delays of a module that is gone

`onCallUnavailable` sets the failure count back to one, and clients can bring it about. It acts only
while neither `inFlight` nor `retryArmed` is set, and once a delay has been computed one of the two
always is: the slot counts exactly the delays it has computed (`Slot.Backoff`).

* `retryDelay_succ`: the delay after `k` doublings.
* `retry_not_sped_up`: while a module yields no live report, its retry delays are 500 ms, 1 s, 2 s, …
  up to 30 s, whatever calls fail and whatever revalidation rounds run.
-/

namespace JsonRpcBridge

/-! ## Delays

`doubleToCap` stops where the next doubling would pass the cap. In closed form the delay is a
power of two times the base, cut off at the cap. -/

/-- Stopping at the cap and cutting off at the cap come to the same. -/
theorem min_doubleToCap (n d : Nat) :
    min (doubleToCap n d) kRetryCap = min (d * 2 ^ n) kRetryCap := by
  induction n generalizing d with
  | zero => rw [doubleToCap, Nat.pow_zero, Nat.mul_one]
  | succ n ih =>
      rw [doubleToCap]
      split
      · rw [ih, Nat.pow_succ, Nat.mul_assoc, Nat.mul_comm 2]
      · rename_i hcap
        have hpow : d ≤ d * 2 ^ (n + 1) := Nat.le_mul_of_pos_right d (Nat.two_pow_pos _)
        omega

/-- The delay after `k + 1` failures. -/
theorem retryDelay_succ (k : Nat) : retryDelay (k + 1) = min (500 * 2 ^ k) 30000 :=
  min_doubleToCap k kRetryBase

namespace Discovery

open Interleaving

variable {cfg : BridgeConfig} {lib : Nlohmann} {reader : ContractReader}

/-! ## No live report

The silence is a condition on what comes from outside: the answers of the module, and the losses,
restarts and replacements of it. What calls fail and when rounds run is left free. -/

/-- A step past the report. -/
def Stage.Later : Stage → Prop
  | .interface => False
  | _ => True

/-- The section holds a live report, or comes after one. -/
def Section.Tells (lib : Nlohmann) : Section → Prop
  | .invoke _ _ stage | .await _ stage => stage.Later
  | .resume a stage | .proceed _ _ stage a => stage.Later ∨ ∃ live, Reports lib a live
  | .publish .. => True
  | .revalidated a | .restart a => ∃ live, Reports lib a live
  | _ => False

/-- `m` yields no live report, and no loss, restart or replacement of it takes effect. -/
def silent (lib : Nlohmann) (m : Bytes) : Guard Shared Section CallOutcome Entry where
  run _ _ x r :=
    match x with
    | .await c .interface | .awaitRead c => c.module = m → ∀ live, ¬Reports lib ⟨c, r⟩ live
    | .providerLost k | .providerArmed k _ | .clientReplaced k => k ≠ m
    | _ => True
  enter _ _ _ := True

theorem not_reports_iff (a : Answer) : (∀ live, ¬Reports lib a live) ↔
    (a.outcome.ok = true → parseLiveReport lib a.outcome.value = none) := by
  constructor
  · intro hnone hok
    exact Option.eq_none_iff_forall_ne_some.mpr fun live hlive => hnone live ⟨hok, hlive⟩
  · rintro h live ⟨hok, hlive⟩
    rw [h hok] at hlive
    cases hlive

instance (a : Answer) : Decidable (∀ live, ¬Reports lib a live) :=
  decidable_of_iff (a.outcome.ok = true → (parseLiveReport lib a.outcome.value).isNone = true) <| by
    rw [not_reports_iff, Option.isNone_iff_eq_none]

instance (lib : Nlohmann) (m : Bytes) : (silent lib m).Decided where
  run _ _ x r := by
    induction x using Section.casesOn with
    | await c stage =>
        induction stage using Stage.casesOn with
        | interface => exact (inferInstance :
            Decidable (c.module = m → ∀ live, ¬Reports lib ⟨c, r⟩ live))
        | _ => exact isTrue trivial
    | awaitRead c => exact (inferInstance :
        Decidable (c.module = m → ∀ live, ¬Reports lib ⟨c, r⟩ live))
    | providerLost k | providerArmed k _ | clientReplaced k => exact (inferInstance : Decidable (k ≠ m))
    | _ => exact isTrue trivial
  enter _ _ _ := isTrue trivial

/-! ### What is decided -/

/-- The delays of the schedule calls of `m` that a section decides on. -/
def delays (cfg : BridgeConfig) (lib : Nlohmann) (reader : ContractReader) (m : Bytes) (sh : Shared)
    (x : Section) (r : CallOutcome) : List Nat :=
  (exec cfg lib reader sh x r).elim [] (delaysOf m)

/-- The section is part of this attempt, or of a revalidation read made during it. -/
def Section.PartOf (m : Bytes) (n : Nat) (x : Section) : Prop :=
  x.attempt? = some (m, n) ∨ x.reread? = some (m, n)

/-- No report, so the interface is not read. -/
theorem missed_of_proceed {sh : Shared} {m : Bytes} {n : Nat} {a : Answer} {y : Section}
    (hnone : ∀ live, ¬Reports lib a live) (hy : y ∈ proceed lib reader sh m n .interface a) :
    y = .missed m n := by
  have hreport : (if a.outcome.ok then parseLiveReport lib a.outcome.value else none) = none := by
    by_cases hok : a.outcome.ok = true
    · rw [if_pos hok]
      cases hparse : parseLiveReport lib a.outcome.value with
      | none => rfl
      | some live => exact absurd ⟨hok, hparse⟩ (hnone live)
    · rw [if_neg hok]
  simp only [proceed, onInterface] at hy
  rw [hreport] at hy
  exact List.mem_singleton.mp hy

/-- What a section of the current attempt leaves tells of no report, if it does not and none comes
in. -/
theorem untold_of_made {sh : Shared} {x y : Section} {r : CallOutcome} {e : Effect Shared Section}
    {p : Multiset Section} {m : Bytes} {s s' : Slot} {ds : List Nat}
    (h : exec cfg lib reader sh x r = some e) (hs : sh.slots m = some s)
    (hstep : s.Step cfg m x s' ds) (hguard : (silent lib m).run sh p x r)
    (hx : x.PartOf m s.attempt → ¬x.Tells lib) (hy : y ∈ e.made)
    (hpart : y.PartOf m s'.attempt) : ¬y.Tells lib := by
  cases exec_leaves h hy with
  | idle hnone =>
      rcases hpart with hpart | hpart <;> cases y <;>
        first | (cases hnone; done) | cases hpart
  | begins _ => exact id
  | @issues k n stage =>
      cases hstep
      rcases hpart with hpart | hpart
      · exact hx (Or.inl hpart)
      · cases hpart
  | @answers c stage =>
      cases hstep
      rcases hpart with hpart | hpart
      · have hbefore : ¬stage.Later := hx (Or.inl hpart)
        rintro (hlater | ⟨live, hlive⟩)
        · exact hbefore hlater
        · cases stage with
          | interface => exact hguard (Prod.mk.inj (Option.some.inj hpart)).1 live hlive
          | contract | version => exact hbefore trivial
      · cases hpart
  | @resumes a stage =>
      cases hstep
      rcases hpart with hpart | hpart
      · exact hx (Or.inl hpart)
      · cases hpart
  -- the answer that is taken up is no report, so the attempt ends in a miss
  | @proceeds k n stage a _ hmem =>
      cases hstep
      have hcont := continues_of_mem_proceed hmem
      have hkey : (k, n) = (m, s.attempt) := by
        rw [← Section.attempt?_eq_some_iff] at hcont
        rcases hpart with hpart | hpart
        · exact Option.some.inj (hcont.symm.trans hpart)
        · cases y <;> first | (cases hcont; done) | cases hpart
      have hbefore : ¬(stage.Later ∨ ∃ live, Reports lib a live) :=
        hx (Or.inl (congrArg some hkey))
      cases stage with
      | interface =>
          rw [missed_of_proceed (fun live hlive => hbefore (Or.inr ⟨live, hlive⟩)) hmem]
          exact id
      | contract | version => exact absurd (Or.inl trivial) hbefore
  | checks _ => exact id
  | reads => exact id
  | @rereads c =>
      rintro ⟨live, hlive⟩
      rcases hpart with hpart | hpart
      · cases hpart
      · exact hguard (Prod.mk.inj (Option.some.inj hpart)).1 live hlive
  | @differs a =>
      rcases hpart with hpart | hpart
      · cases hpart
      · refine hx (Or.inr ?_)
        cases hstep <;> exact hpart
  | @restarts a t t' ht hattempt _ _ _ =>
      rcases hpart with hpart | hpart
      · have hmodule : a.call.module = m := (Prod.mk.inj (Option.some.inj hpart)).1
        rw [hmodule, hs] at ht
        cases ht
        have hbefore : ¬∃ live, Reports lib a live :=
          hx (Or.inr (congrArg some (Prod.ext hmodule hattempt.symm)))
        rintro (hlater | hlive)
        · exact hlater
        · exact hbefore hlive
      · cases hpart

/-! ## The invariant

The delays computed so far are `retryDelay 1`, `retryDelay 2`, and so on up to the failure count,
and no section of the current attempt holds a report that could end the series. -/

/-- Nothing of the current attempt tells of a report; the slot has failed as often as it has
computed a delay, each was the next one, and once there is one a retry is under way. -/
structure Slot.Backoff (lib : Nlohmann) (p : Multiset Section) (m : Bytes) (ds : List Nat)
    (s : Slot) : Prop where
  untold : ∀ x ∈ p, x.PartOf m s.attempt → ¬x.Tells lib
  counted : s.failures = ds.length
  delays : ds = (List.range ds.length).map fun k => retryDelay (k + 1)
  waits : ds ≠ [] → s.inFlight = true ∨ s.retryArmed = true

section Step

variable {sh : Shared} {x : Section} {r : CallOutcome} {e : Effect Shared Section}
  {others : Multiset Section} {m : Bytes} {s s' : Slot} {ds ds' : List Nat}

/-- Only what runs can leave something of the current attempt. -/
theorem Slot.Backoff.untold_step (hI : s.Backoff lib (x ::ₘ others) m ds)
    (hfresh : ∀ y ∈ x ::ₘ others, y.Fresh sh) (hs : sh.slots m = some s)
    (h : exec cfg lib reader sh x r = some e) (hguard : (silent lib m).run sh (x ::ₘ others) x r)
    (hstep : s.Step cfg m x s' ds') (hattempt : s'.attempt = s.attempt ∨ s'.attempt = s.attempt + 1) :
    ∀ y ∈ e.made + others, y.PartOf m s'.attempt → ¬y.Tells lib := by
  intro y hy hpart
  rcases Multiset.mem_add.mp hy with hmade | hold
  · exact untold_of_made h hs hstep hguard (hI.untold x (Multiset.mem_cons_self x others)) hmade hpart
  · have hmem : y ∈ x ::ₘ others := Multiset.mem_cons_of_mem hold
    rcases hattempt with heq | heq
    · exact hI.untold y hmem (heq ▸ hpart)
    · have hle := attempt_le_of_fresh (hfresh y hmem) hs hpart
      omega

/-- One more delay, one more failure. -/
theorem delays_append {ds : List Nat} (h : ds = (List.range ds.length).map fun k => retryDelay (k + 1)) :
    ds ++ [retryDelay (ds.length + 1)] =
      (List.range (ds ++ [retryDelay (ds.length + 1)]).length).map fun k => retryDelay (k + 1) := by
  rw [List.length_append, List.length_singleton, List.range_succ, List.map_append, ← h]
  rfl

/-- **Step.** -/
theorem Slot.Backoff.step (hI : s.Backoff lib (x ::ₘ others) m ds)
    (hfresh : ∀ y ∈ x ::ₘ others, y.Fresh sh) (hs : sh.slots m = some s)
    (h : exec cfg lib reader sh x r = some e) (hguard : (silent lib m).run sh (x ::ₘ others) x r)
    (hstep : s.Step cfg m x s' ds') : s'.Backoff lib (e.made + others) m (ds ++ ds') := by
  have huntold := hI.untold_step hfresh hs h hguard hstep
  cases hstep with
  | refresh =>
      rw [List.append_nil]
      exact ⟨huntold (Or.inr rfl), hI.counted, hI.delays, fun _ => Or.inl rfl⟩
  | lost => exact absurd rfl hguard
  | saw => exact absurd rfl hguard
  | armed => exact absurd rfl hguard
  | replaced => exact absurd rfl hguard
  | unavailable hflight hretry =>
      -- both flags are clear, so this is the first delay
      obtain rfl : ds = [] := by
        by_contra hsome
        rcases hI.waits hsome with hin | harmed
        · rw [hflight] at hin
          cases hin
        · rw [hretry] at harmed
          cases harmed
      exact ⟨huntold (Or.inl rfl), rfl, rfl, fun _ => Or.inr rfl⟩
  -- a miss of the current attempt: one more failure, and the delay that goes with it
  | missed =>
      have hcount : s.missed.failures = ds.length + 1 := congrArg (· + 1) hI.counted
      rw [hcount]
      refine ⟨huntold (Or.inl rfl), ?_, delays_append hI.delays, fun _ => Or.inr rfl⟩
      rw [hcount, List.length_append, List.length_singleton]
  | publish => exact absurd trivial (hI.untold _ (Multiset.mem_cons_self _ _) (Or.inl rfl))
  | check | uncheck =>
      rw [List.append_nil]
      exact ⟨huntold (Or.inl rfl), hI.counted, hI.delays, hI.waits⟩
  | restart =>
      rw [List.append_nil]
      exact ⟨huntold (Or.inr rfl), hI.counted, hI.delays, fun _ => Or.inl rfl⟩
  | rest =>
      rw [List.append_nil]
      exact ⟨huntold (Or.inl rfl), hI.counted, hI.delays, hI.waits⟩

end Step

/-! ## From a start or a publication on

The series begins where the failure count is zero: at the start, and where a publication without
a retry has just cleared it. -/

/-- From `s` to `s'` the current attempt of `m` publishes a view, without a retry. -/
def Settles (cfg : BridgeConfig) (lib : Nlohmann) (reader : ContractReader) (m : Bytes)
    (s s' : State Shared Section) : Prop :=
  ∃ i r next src t, s.head i = some (.publish m t.attempt next false src) ∧
    s.shared.slots m = some t ∧ (discovery cfg lib reader).step s (.run i r) = some s'

theorem backoff_start {m : Bytes} {s : Slot} (hs : (start cfg).shared.slots m = some s) :
    s.Backoff lib (start cfg).pending m [] := by
  have hslot : initialSlots cfg m = some s := by simpa [start] using hs
  obtain ⟨em, -, rfl⟩ := Option.map_eq_some_iff.mp hslot
  refine ⟨?_, rfl, rfl, fun hne => absurd rfl hne⟩
  intro x hx
  obtain ⟨em', -, rfl⟩ : ∃ em ∈ cfg.modules, x = .refresh em.name := by
    simpa [start, State.pending, eq_comm] using hx
  exact fun _ => id

/-- A publication ends its attempt: nothing of it is left. -/
theorem backoff_of_settles {m : Bytes} {s s' : State Shared Section}
    (hflights : Flights s.shared s.pending) (h : Settles cfg lib reader m s s') {t' : Slot}
    (ht' : s'.shared.slots m = some t') : t'.Backoff lib s'.pending m [] := by
  obtain ⟨i, r, next, src, t, hhead, ht, hstep⟩ := h
  obtain ⟨x, e, others, hhead', hexec, hp, hshared, hp'⟩ := Program.step_run hstep
  obtain rfl : Section.publish m t.attempt next false src = x :=
    Option.some.inj (hhead.symm.trans hhead')
  have hflight := hflights m t ht
  rw [hp] at hflight
  rw [hshared] at ht'
  have hcurrent : e = { shared := e.shared, next := [.changed m] } ∧
      e.shared.slots m = some (t.publish (exposed cfg m next) false) := by
    simp only [discovery, exec, ht, if_true] at hexec
    cases hexec
    exact ⟨rfl, by simp⟩
  obtain rfl : t.publish (exposed cfg m next) false = t' :=
    Option.some.inj (hcurrent.2.symm.trans ht')
  refine ⟨?_, rfl, rfl, fun hne => absurd rfl hne⟩
  rw [hp']
  intro y hy hpart
  have hin : t.inFlight = true := hflight.inFlight (Multiset.mem_cons_self _ others) rfl
  rcases Multiset.mem_add.mp hy with hmade | hold
  · rw [Effect.mem_made, hcurrent.1] at hmade
    obtain rfl : y = .changed m := by simpa using hmade
    exact id
  · rcases hpart with hattempt | hread
    · -- the one section of the attempt was the publication itself
      have hchain := hflight.chain
      rw [carried_cons, if_pos hin, if_pos (show (Section.publish m t.attempt next false src).attempt? =
        some (m, t.attempt) from rfl)] at hchain
      have hnone := carried_eq_zero.mp (Nat.succ.inj hchain)
      exact absurd hattempt (hnone y hold)
    · exact absurd hread (hflight.reads hin y (Multiset.mem_cons_of_mem hold))

/-! ### Runs -/

/-- **Clients cannot speed up the retry of a dead module.** From the start, or from a publication
without a retry, and as long as `m` yields no live report and no loss, restart or replacement of it
takes effect, its delays are `500 * 2 ^ k` up to 30 s, in order. -/
theorem retry_not_sped_up {m : Bytes} {s₁ s : State Shared Section} {ds : List Nat}
    (hbegin : s₁ = start cfg ∨ ∃ s₀, Run (discovery cfg lib reader) Guard.any (start cfg) s₀ ∧
      Settles cfg lib reader m s₀ s₁)
    (hlog : Logged (discovery cfg lib reader) (silent lib m) (delays cfg lib reader m) s₁ ds s) :
    ∀ k d, ds[k]? = some d → d = min (500 * 2 ^ k) 30000 := by
  have hreach : Run (discovery cfg lib reader) Guard.any (start cfg) s₁ := by
    rcases hbegin with rfl | ⟨s₀, hrun, i, r, next, src, t, -, -, hstep⟩
    · exact .start
    · exact hrun.move (Guard.admits_any _ _) hstep
  have hbase : ∀ t, s₁.shared.slots m = some t → t.Backoff lib s₁.pending m [] := by
    intro t ht
    rcases hbegin with rfl | ⟨s₀, hrun, hsettles⟩
    · exact backoff_start ht
    · exact backoff_of_settles (flights_of_run hrun) hsettles ht
  -- a module without a slot is scheduled nothing, and has nothing to show
  have hI : (∀ t, s.shared.slots m = some t → t.Backoff lib s.pending m ds) ∧
      (s.shared.slots m = none → ds = []) := by
    refine Logged.invariant (J := Attributed cfg lib reader)
      (I := fun ds sh p => (∀ t, sh.slots m = some t → t.Backoff lib p m ds) ∧
        (sh.slots m = none → ds = [])) ?_ ?_ ?_ ?_ hlog
    · intro s' hrun
      exact attributed_of_run (hreach.trans (fun _ mv _ => Guard.admits_any _ mv) hrun)
    · exact ⟨hbase, fun _ => rfl⟩
    · rintro ds sh x r e others hknown ⟨hI, hnone⟩ hguard hexec
      have hdelays : delays cfg lib reader m sh x r = delaysOf m e := by
        unfold delays
        rw [show exec cfg lib reader sh x r = some e from hexec, Option.elim_some]
      rw [hdelays]
      constructor
      · intro t' ht'
        obtain ⟨t, ht, hstep⟩ := exec_stepped hexec ht'
        exact (hI t ht).step hknown.fresh ht hexec hguard hstep
      · intro hgone
        have hsome := (exec_advances hexec).isSome_eq m
        rw [hgone] at hsome
        have hnone' : sh.slots m = none := by simpa using hsome.symm
        rw [hnone hnone', delaysOf_of_none hexec hnone']
        rfl
    · rintro ds sh ev e p - ⟨hI, hnone⟩ - henter
      rw [enter_slots henter]
      refine ⟨fun t ht => ?_, hnone⟩
      have ht' := hI t ht
      refine ⟨?_, ht'.counted, ht'.delays, ht'.waits⟩
      intro y hy hpart
      rcases Multiset.mem_add.mp hy with hmade | hold
      · obtain ⟨hattempt, hread⟩ := plain_of_enter henter hmade
        rcases hpart with hpart | hpart
        · rw [hattempt] at hpart
          cases hpart
        · rw [hread] at hpart
          cases hpart
      · exact ht'.untold y hold hpart
  intro k d hd
  have hdelays : ds = (List.range ds.length).map fun k => retryDelay (k + 1) := by
    cases hs : s.shared.slots m with
    | none =>
        rw [hI.2 hs]
        rfl
    | some t => exact (hI.1 t hs).delays
  obtain ⟨hk, -⟩ := List.getElem?_eq_some_iff.mp hd
  rw [hdelays, List.getElem?_map, List.getElem?_range hk] at hd
  rw [← retryDelay_succ]
  exact (Option.some.inj hd).symm

/-! ## A run of failures

The count starts with a bridged call and goes on with the attempts that follow. -/

/-- A bridged call fails, then two attempts find nobody. -/
def failingMoves : List (Move CallOutcome Entry) :=
  [.enter (.callUnavailable (str "m")), .run 1 {}, .run 1 {}, .run 1 {},
    .run 0 {}, .run 0 {}, .run 2 { error := str "object_unavailable" }, .run 3 {}, .run 3 {}, .run 3 {},
    .run 3 {}, .enter (.fire (str "m")), .enter (.callUnavailable (str "m")), .run 5 {},
    .run 4 {}, .run 6 {}, .run 6 {}, .run 7 { error := str "timeout" }, .run 8 {}, .run 8 {}, .run 8 {}]

theorem retry_not_sped_up_failing : ∃ s ds,
    Logged (discovery oneModule echoLib echoReader) (silent echoLib (str "m"))
      (delays oneModule echoLib echoReader (str "m")) (start oneModule) ds s ∧
    ds = [500, 1000, 2000] ∧ ∀ k d, ds[k]? = some d → d = min (500 * 2 ^ k) 30000 := by
  obtain ⟨s, hs⟩ : ∃ s, (discovery oneModule echoLib echoReader).replayUnder
      (silent echoLib (str "m")) (start oneModule) failingMoves = some s := by
    apply Option.isSome_iff_exists.mp
    decide +kernel
  have hlog : Logged _ (silent echoLib (str "m")) (delays oneModule echoLib echoReader (str "m")) _ _ s :=
    Logged.start.replayUnder hs
  have hdelays : [] ++ (discovery oneModule echoLib echoReader).notes
      (delays oneModule echoLib echoReader (str "m")) (start oneModule) failingMoves =
      [500, 1000, 2000] := by decide +kernel
  exact ⟨s, _, hlog, hdelays, retry_not_sped_up (Or.inl rfl) hlog⟩

end Discovery

end JsonRpcBridge
