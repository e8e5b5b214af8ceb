import JsonRpcBridge.Discovery.Rediscovery

/-!
# Revalidation after a client is replaced

A round skips a module whose `checking` flag is set, and only the answer of the read that set it
clears it. `onClientReplaced` voids the answers still out on the old client, clears `inFlight`, and
leaves `checking` alone.

* `revalidation_open`: if no read is out on the client that is being replaced, every settled module
  without a retry armed is read again, or a read on its current client is under way; and with a retry
  armed a refresh of it is to come.
* `revalidation_blocked`: if one is out and never answered, the module is not read again in any
  later state.
-/

namespace JsonRpcBridge.Discovery

open Interleaving

variable {cfg : BridgeConfig} {lib : Nlohmann} {reader : ContractReader}

/-! ## Reads

A read is three sections: it is about to be issued, out, or answered. Only one that is out can be
on a client that has been replaced since. -/

/-- The section is a step of a revalidation read of `m`. -/
def Section.Rereads (m : Bytes) : Section → Prop
  | .read k _ => k = m
  | .awaitRead c => c.module = m
  | .revalidated a => a.call.module = m
  | _ => False

/-- A read of `m` is about to be issued, out on the current client, or answered. -/
def ReadUnderWay (sh : Shared) (p : Multiset Section) (m : Bytes) : Prop :=
  ∃ x ∈ p, x.Rereads m ∧ ∀ c, x = .awaitRead c → c.client = sh.client m

/-- A round that comes to `m` reads it. -/
def WouldRead (cfg : BridgeConfig) (lib : Nlohmann) (reader : ContractReader) (sh : Shared)
    (m : Bytes) : Prop :=
  ∀ rest r, ∃ e n, exec cfg lib reader sh (.revalidate (m :: rest)) r = some e ∧
    .read m n ∈ e.next

/-- A settled module that has no retry armed is read by the next round, unless a read on its current
client is under way. -/
def RevalidationOpen (cfg : BridgeConfig) (lib : Nlohmann) (reader : ContractReader)
    (sh : Shared) (p : Multiset Section) (m : Bytes) : Prop :=
  ∀ s, sh.slots m = some s → ¬ s.Unsettled → s.inFlight = false → s.retryArmed = false →
    ReadUnderWay sh p m ∨ WouldRead cfg lib reader sh m

/-- An armed retry stands for a refresh of the module that is queued, armed, or decided on. -/
def RetryComing (sh : Shared) (p : Multiset Section) (m : Bytes) : Prop :=
  ∀ s, sh.slots m = some s → s.retryArmed = true →
    RefreshQueued p m ∨ TimerDue sh p m ∨ BackingOff p m

/-! ### When a round reads -/

theorem wouldRead_iff {sh : Shared} {m : Bytes} {s : Slot} (hs : sh.slots m = some s) :
    WouldRead cfg lib reader sh m ↔ s.readable = true := by
  constructor
  · intro h
    obtain ⟨e, n, hexec, hmem⟩ := h [] {}
    simp only [exec, hs] at hexec
    by_contra hread
    rw [if_neg hread] at hexec
    cases hexec
    simp at hmem
  · intro hread rest r
    simp only [exec, hs, hread]
    exact ⟨_, s.attempt, rfl, by simp⟩

/-! ## The flag stands for a read

`checking` is set where a read starts and cleared where its answer is dealt with, and by nothing
else. In particular a new attempt leaves it alone. -/

/-- The `checking` flag of `m`. -/
def Shared.flag (sh : Shared) (m : Bytes) : Option Bool := (sh.slots m).map (·.checking)

theorem Shared.flag_eq_true {sh : Shared} {m : Bytes} :
    sh.flag m = some true ↔ ∃ s, sh.slots m = some s ∧ s.checking = true := by
  simp [Shared.flag]

/-- A critical section that does not touch the flag. -/
theorem Shared.flag_put {sh : Shared} {k : Bytes} {s t : Slot} (m : Bytes)
    (hs : sh.slots k = some s) (hkeep : t.checking = s.checking) :
    (sh.put k t).flag m = sh.flag m := by
  unfold Shared.flag
  rw [Shared.slots_put]
  by_cases hm : m = k
  · rw [if_pos hm, hm, hs]
    exact congrArg some hkeep
  · rw [if_neg hm]

/-- The flag changes only where a read starts and where its answer is dealt with. -/
theorem exec_flag {sh : Shared} {x : Section} {r : CallOutcome} {e : Effect Shared Section}
    {m : Bytes} (h : exec cfg lib reader sh x r = some e)
    (hstart : ∀ rest, x ≠ .revalidate (m :: rest))
    (hend : ∀ a, x = .revalidated a → a.call.module ≠ m) : e.shared.flag m = sh.flag m := by
  cases x with
  | revalidate ms =>
      cases ms with
      | nil => cases h; rfl
      | cons k rest =>
          have hm : m ≠ k := fun heq => hstart rest (by rw [heq])
          simp only [exec] at h
          repeat' split at h
          all_goals cases h; simp [Shared.flag, hm]
  | revalidated a =>
      have hm : m ≠ a.call.module := (hend a rfl).symm
      simp only [exec] at h
      repeat' split at h
      all_goals cases h; simp [Shared.flag, hm]
  | fired job =>
      cases job with
      | refresh k => cases h; rfl
      | revalidate => cases h; simp [Shared.flag]
  | _ =>
      simp only [exec] at h
      repeat' split at h
      all_goals cases h
      all_goals first
        | rfl
        | exact Shared.flag_put m (by assumption) (by rfl)

/-! ### Rounds and answers -/

/-- A round that comes to `m` starts a read, or leaves everything as it was. -/
theorem exec_revalidate {sh : Shared} {m : Bytes} {rest : List Bytes} {r : CallOutcome}
    {e : Effect Shared Section} (h : exec cfg lib reader sh (.revalidate (m :: rest)) r = some e) :
    (∃ s, sh.slots m = some s ∧ s.readable = true ∧ .read m s.attempt ∈ e.made) ∨
      (e.shared = sh ∧ e.made = {.revalidate rest}) := by
  simp only [exec] at h
  split at h
  · cases h
    exact .inr ⟨rfl, rfl⟩
  · rename_i s hs
    split at h <;> cases h
    · rename_i hread
      exact .inl ⟨s, hs, hread, Effect.mem_made_next (by simp)⟩
    · exact .inr ⟨rfl, rfl⟩

/-- Once the answer is dealt with the flag is clear. -/
theorem exec_revalidated {sh : Shared} {a : Answer} {r : CallOutcome} {e : Effect Shared Section}
    (h : exec cfg lib reader sh (.revalidated a) r = some e) :
    e.shared.flag a.call.module ≠ some true := by
  simp only [exec] at h
  split at h
  · rename_i hnone
    cases h
    simp [Shared.flag, hnone]
  · repeat' split at h
    all_goals cases h; simp [Shared.flag]

/-- If the flag is set after a step, a read starts, or the flag was set and the read goes on. -/
theorem exec_checking {sh : Shared} {x : Section} {r : CallOutcome} {e : Effect Shared Section}
    {m : Bytes} (h : exec cfg lib reader sh x r = some e) (hset : e.shared.flag m = some true) :
    (∃ n, .read m n ∈ e.made) ∨
      (sh.flag m = some true ∧ ∀ a, x = .revalidated a → a.call.module ≠ m) := by
  by_cases hend : ∃ a, x = .revalidated a ∧ a.call.module = m
  · obtain ⟨a, rfl, rfl⟩ := hend
    exact absurd hset (exec_revalidated h)
  · have hnot : ∀ a, x = .revalidated a → a.call.module ≠ m :=
      fun a ha hm => hend ⟨a, ha, hm⟩
    by_cases hstart : ∃ rest, x = .revalidate (m :: rest)
    · obtain ⟨rest, rfl⟩ := hstart
      rcases exec_revalidate h with ⟨s, _, _, hread⟩ | ⟨hsame, _⟩
      · exact .inl ⟨s.attempt, hread⟩
      · exact .inr ⟨hsame ▸ hset, hnot⟩
    · rw [exec_flag h (fun rest hx => hstart ⟨rest, hx⟩) hnot] at hset
      exact .inr ⟨hset, hnot⟩

/-- A step of a read is followed by the next one, or its answer has been dealt with. -/
theorem rereads_made {sh : Shared} {x : Section} {r : CallOutcome} {e : Effect Shared Section}
    {m : Bytes} (hx : x.Rereads m) (h : exec cfg lib reader sh x r = some e) :
    (∃ y ∈ e.made, y.Rereads m ∧ ∀ c, y = .awaitRead c → c.client = e.shared.client m) ∨
      ∃ a, x = .revalidated a ∧ a.call.module = m := by
  cases x with
  | read k n =>
      left
      obtain rfl : k = m := hx
      cases h
      refine ⟨_, Effect.mem_made_spawn (List.mem_singleton_self _) (List.mem_singleton_self _),
        rfl, ?_⟩
      intro c hc
      cases hc
      rfl
  | awaitRead c =>
      left
      cases h
      refine ⟨_, Effect.mem_made_spawn (List.mem_singleton_self _) (List.mem_singleton_self _),
        hx, ?_⟩
      intro c hc
      cases hc
  | revalidated a => exact .inr ⟨a, rfl, hx⟩
  | _ => exact absurd hx id

/-- Clients change only where one is replaced. -/
theorem exec_client {sh : Shared} {x : Section} {r : CallOutcome} {e : Effect Shared Section}
    {m : Bytes} (h : exec cfg lib reader sh x r = some e) (hx : x ≠ .clientReplaced m) :
    e.shared.client m = sh.client m := by
  cases x with
  | clientReplaced k =>
      have hm : m ≠ k := fun heq => hx (by rw [heq])
      simp only [exec] at h
      split at h <;> cases h
      · rfl
      · rw [Shared.client_replaced, if_neg hm]
        rfl
  | fired job => cases job <;> cases h <;> simp
  | revalidate ms =>
      cases ms with
      | nil => cases h; rfl
      | cons k rest =>
          simp only [exec] at h
          repeat' split at h
          all_goals cases h; rfl
  | _ =>
      simp only [exec] at h
      repeat' split at h
      all_goals cases h; rfl

theorem enter_shared {sh : Shared} {ev : Entry} {e : Effect Shared Section}
    (h : enter cfg sh ev = some e) :
    e.shared.slots = sh.slots ∧ e.shared.client = sh.client := by
  cases ev with
  | fire key =>
      obtain ⟨t, _, rfl⟩ := Option.map_eq_some_iff.mp h
      exact ⟨rfl, rfl⟩
  | _ => cases h; exact ⟨rfl, rfl⟩

theorem enter_not_rereads {sh : Shared} {ev : Entry} {e : Effect Shared Section} {y : Section}
    {m : Bytes} (h : enter cfg sh ev = some e) (hy : y ∈ e.made) : ¬ y.Rereads m := by
  have hload := enter_load h hy
  intro hre
  cases y with
  | read | awaitRead | revalidated => cases hload
  | _ => exact hre

/-! ## Runs without a read on a replaced client

With no read out on the client that goes, the flag of a module stands for a read that will be
answered on the current client. Where the module is skipped for a retry instead, the retry is
covered by `rediscovery_not_lost`'s invariant. -/

/-- The module a read is out for. -/
def Section.readOut? : Section → Option Bytes
  | .awaitRead c => some c.module
  | _ => none

/-- A client is replaced only while no read is out on it. -/
def replacedWithoutRead : Guard Shared Section CallOutcome Entry where
  run _ p x _ :=
    match x with
    | .clientReplaced m => ∀ y ∈ p, y.readOut? ≠ some m
    | _ => True
  enter _ _ _ := True

instance : replacedWithoutRead.Decided where
  run _ p x _ := by
    induction x using Section.casesOn with
    | clientReplaced m => exact (inferInstance : Decidable (∀ y ∈ p, y.readOut? ≠ some m))
    | _ => exact isTrue trivial
  enter _ _ _ := isTrue trivial

/-- The flag of `m` stands for a read that is under way. -/
def Watched (sh : Shared) (p : Multiset Section) (m : Bytes) : Prop :=
  (∀ c, .awaitRead c ∈ p → c.module = m → c.client = sh.client m) ∧
    (sh.flag m = some true → ReadUnderWay sh p m)

/-- **Step.** -/
theorem exec_watched {sh : Shared} {x : Section} {r : CallOutcome} {e : Effect Shared Section}
    {others : Multiset Section} {m : Bytes} (hI : Watched sh (x ::ₘ others) m)
    (hguard : replacedWithoutRead.run sh (x ::ₘ others) x r)
    (h : exec cfg lib reader sh x r = some e) : Watched e.shared (e.made + others) m := by
  obtain ⟨hclient, hflag⟩ := hI
  -- what is out on the client of `m` stays on its client
  have hclient' : ∀ c, .awaitRead c ∈ x ::ₘ others → c.module = m →
      c.client = e.shared.client m := by
    intro c hc hm
    by_cases hrep : x = .clientReplaced m
    · subst hrep
      exact absurd (congrArg some hm) (hguard (.awaitRead c) hc)
    · rw [exec_client h hrep]
      exact hclient c hc hm
  refine ⟨?_, ?_⟩
  · intro c hc hm
    rcases Multiset.mem_add.mp hc with hc | hc
    · cases exec_leaves h hc with
      | idle hnone => cases hnone
      | proceeds hmem => exact absurd (continues_of_mem_proceed hmem) id
      | reads => exact congrArg e.shared.client hm
    · exact hclient' c (Multiset.mem_cons_of_mem hc) hm
  -- the flag was set now, by a read that starts, or before, by one that is still under way
  · intro hset
    rcases exec_checking h hset with ⟨n, hread⟩ | ⟨hset, hnot⟩
    · exact ⟨_, Multiset.mem_add.mpr (.inl hread), rfl, fun c hc => by cases hc⟩
    · obtain ⟨y, hy, hre, _⟩ := hflag hset
      rcases Multiset.mem_cons.mp hy with rfl | hy
      · rcases rereads_made hre h with ⟨z, hz, hz', hz''⟩ | ⟨a, rfl, hm⟩
        · exact ⟨z, Multiset.mem_add.mpr (.inl hz), hz', hz''⟩
        · exact absurd hm (hnot a rfl)
      · refine ⟨y, Multiset.mem_add.mpr (.inr hy), hre, ?_⟩
        rintro c rfl
        exact hclient' c (Multiset.mem_cons_of_mem hy) hre

/-- **Run.** -/
theorem watched_of_run {s : State Shared Section} (m : Bytes)
    (h : Run (discovery cfg lib reader) replacedWithoutRead (start cfg) s) :
    Watched s.shared s.pending m := by
  refine Run.invariant (I := fun sh p => Watched sh p m) ?_ ?_ ?_ h
  · refine ⟨?_, ?_⟩
    · intro c hc
      simp [start, State.pending] at hc
    · intro hset
      simp [start, Shared.flag, initialSlots] at hset
  · intro sh x r e others hI hguard hexec
    exact exec_watched hI hguard hexec
  · intro sh ev e p hI _ henter
    obtain ⟨hslots, hclient⟩ := enter_shared henter
    refine ⟨?_, ?_⟩
    · intro c hc hm
      rw [hclient]
      rcases Multiset.mem_add.mp hc with hc | hc
      · exact absurd hm (enter_not_rereads henter hc)
      · exact hI.1 c hc hm
    · intro hset
      rw [Shared.flag, hslots] at hset
      obtain ⟨y, hy, hre, hcl⟩ := hI.2 hset
      exact ⟨y, Multiset.mem_add.mpr (.inr hy), hre, fun c hc => by rw [hclient, hcl c hc]⟩

/-! ### Runs under the condition -/

/-- **Revalidation is not blocked, unless by a read on a replaced client.** In every run that never
replaces the client of a module while a read of that module is out on it, a settled module without a
retry armed is always read by the next round, whatever was left unanswered. A retry that is armed is
going to refresh the module. -/
theorem revalidation_open {s : State Shared Section} (hnames : cfg.NamesChecked lib)
    (h : Run (discovery cfg lib reader) replacedWithoutRead (start cfg) s) (m : Bytes) :
    RevalidationOpen cfg lib reader s.shared s.pending m ∧ RetryComing s.shared s.pending m := by
  constructor
  · intro slot hslot hsettled hflight hretry
    by_cases hchecking : slot.checking = true
    · -- the flag stands for a read, and that is on the current client
      exact .inl ((watched_of_run m h).2 (Shared.flag_eq_true.mpr ⟨slot, hslot, hchecking⟩))
    · right
      have hresolved : slot.view.resolved = true := by
        by_contra hpending
        exact hsettled (.inl (by simpa using hpending))
      rw [wouldRead_iff hslot]
      simp [Slot.readable, hflight, hretry, hchecking, hresolved]
  · intro slot hslot hretry
    exact ((covered_of_run hnames h.toAny hslot).retry hretry).cases

/-- The module is discovered and read again. Then its client is replaced, and it is discovered on
the new one. -/
def replacedBetweenReads : List (Move CallOutcome Entry) :=
  firstReport ++
  [.enter .revalidate, .run 3 {}, .run 3 {}, .run 4 { value := .arr [] }, .run 5 {},
   .enter (.clientReplaced (str "m")), .run 6 {}, .run 6 {}, .run 6 {},
   .enter (.fire (str "m")), .run 7 {}, .run 8 {}, .run 8 {}, .run 9 { value := .arr [] },
   .run 10 {}, .run 10 {}, .run 10 {}]

theorem revalidation_open_replaced :
    ∃ s slot, Run (discovery oneModule .emptyArray .refusing) replacedWithoutRead (start oneModule) s ∧
      s.shared.client (str "m") = 1 ∧ s.shared.slots (str "m") = some slot ∧
      (slot.view.resolved, slot.view.stale, slot.inFlight, slot.retryArmed) =
        (true, false, false, false) ∧
      RevalidationOpen oneModule .emptyArray .refusing s.shared s.pending (str "m") := by
  have hreplay : ((discovery oneModule .emptyArray .refusing).replayUnder replacedWithoutRead
      (start oneModule) replacedBetweenReads).bind (fun s => (s.shared.slots (str "m")).map fun slot =>
        (s.shared.client (str "m"), slot.view.resolved, slot.view.stale, slot.inFlight,
          slot.retryArmed)) = some (1, true, false, false, false) := by decide +kernel
  obtain ⟨s, hs, hend⟩ := Option.bind_eq_some_iff.mp hreplay
  obtain ⟨slot, hslot, hflags⟩ := Option.map_eq_some_iff.mp hend
  obtain ⟨hclient, hsettled⟩ := Prod.mk.inj hflags
  have hrun := Run.start.replayUnder hs
  exact ⟨s, slot, hrun, hclient, hslot, hsettled,
    (revalidation_open oneModule_namesChecked hrun (str "m")).1⟩

/-! ## A read that is never answered

The other way round: a read that is out on a replaced client has set the flag, and no other
section clears it. -/

/-- No answer comes on a client of `m` that was replaced. -/
def replacedNeverAnswers (m : Bytes) : Guard Shared Section CallOutcome Entry where
  run sh _ x _ := ∀ c, x = .awaitRead c → c.module = m → c.client = sh.client m
  enter _ _ _ := True

/-- The flag of `m` is set, and only reads on replaced clients are out. -/
def Blocked (sh : Shared) (p : Multiset Section) (m : Bytes) : Prop :=
  sh.flag m = some true ∧ ∀ x ∈ p, x.Rereads m → ∃ c, x = .awaitRead c ∧ c.client < sh.client m

theorem Blocked.not_wouldRead {sh : Shared} {p : Multiset Section} {m : Bytes}
    (h : Blocked sh p m) : ¬ WouldRead cfg lib reader sh m := by
  obtain ⟨s, hs, hset⟩ := Shared.flag_eq_true.mp h.1
  rw [wouldRead_iff hs]
  simp [Slot.readable, hset]

theorem Blocked.not_underWay {sh : Shared} {p : Multiset Section} {m : Bytes}
    (h : Blocked sh p m) : ¬ ReadUnderWay sh p m := by
  rintro ⟨x, hx, hre, hclient⟩
  obtain ⟨c, rfl, hlt⟩ := h.2 x hx hre
  exact absurd (hclient c rfl) (Nat.ne_of_lt hlt)

theorem exec_client_le {sh : Shared} {x : Section} {r : CallOutcome} {e : Effect Shared Section}
    (m : Bytes) (h : exec cfg lib reader sh x r = some e) : sh.client m ≤ e.shared.client m := by
  by_cases hx : x = .clientReplaced m
  · subst hx
    simp only [exec] at h
    split at h <;> cases h
    · exact le_rfl
    · simp
  · exact (exec_client h hx).ge

theorem Section.Rereads.load {m : Bytes} {x : Section} (h : x.Rereads m) :
    x.load? ≠ none ∧ ∀ k n, ¬ x.Continues k n := by
  cases x with
  | read | awaitRead | revalidated => exact ⟨by simp [Section.load?], fun _ _ => id⟩
  | _ => exact absurd h id

/-- **Step.** Nothing but the answer that does not come clears the flag. -/
theorem exec_blocked {sh : Shared} {x : Section} {r : CallOutcome} {e : Effect Shared Section}
    {others : Multiset Section} {m : Bytes} (hI : Blocked sh (x ::ₘ others) m)
    (hguard : (replacedNeverAnswers m).run sh (x ::ₘ others) x r)
    (h : exec cfg lib reader sh x r = some e) : Blocked e.shared (e.made + others) m := by
  have hclosed : ¬ WouldRead cfg lib reader sh m := hI.not_wouldRead
  obtain ⟨hset, hreads⟩ := hI
  have hx : ¬ x.Rereads m := by
    intro hre
    obtain ⟨c, rfl, hlt⟩ := hreads x (Multiset.mem_cons_self x others) hre
    exact absurd (hguard c rfl hre) (Nat.ne_of_lt hlt)
  -- a round that comes to the module finds it unreadable
  have hround : ∀ rest, x = .revalidate (m :: rest) →
      e.shared = sh ∧ e.made = {.revalidate rest} := by
    rintro rest rfl
    rcases exec_revalidate h with ⟨s, hs, hread, _⟩ | hsame
    · exact absurd ((wouldRead_iff hs).mpr hread) hclosed
    · exact hsame
  refine ⟨?_, ?_⟩
  · by_cases hstart : ∃ rest, x = .revalidate (m :: rest)
    · obtain ⟨rest, rfl⟩ := hstart
      rwa [(hround rest rfl).1]
    · rw [exec_flag h (fun rest hr => hstart ⟨rest, hr⟩) ?_]
      · exact hset
      · rintro a rfl hm
        exact hx hm
  · intro y hy hre
    rcases Multiset.mem_add.mp hy with hy | hy
    · exfalso
      cases exec_leaves h hy with
      | idle hnone => exact hre.load.1 hnone
      | proceeds hmem => exact hre.load.2 _ _ (continues_of_mem_proceed hmem)
      | @checks k rest s hs =>
          obtain rfl : k = m := hre
          rw [(hround rest rfl).2] at hy
          cases Multiset.mem_singleton.mp hy
      | begins | issues | answers | resumes | differs | restarts => exact hre
      | reads => exact hx hre
      | rereads => exact hx hre
    · obtain ⟨c, rfl, hlt⟩ := hreads y (Multiset.mem_cons_of_mem hy) hre
      exact ⟨c, rfl, hlt.trans_le (exec_client_le m h)⟩

/-! ### As long as the answer does not come -/

/-- **Run.** While that answer does not come, the module is not read again. -/
theorem revalidation_blocked {s₀ s : State Shared Section} {m : Bytes}
    (h₀ : Blocked s₀.shared s₀.pending m)
    (h : Run (discovery cfg lib reader) (replacedNeverAnswers m) s₀ s) :
    ¬ WouldRead cfg lib reader s.shared m ∧ ¬ ReadUnderWay s.shared s.pending m := by
  have hblocked : Blocked s.shared s.pending m := by
    refine Run.invariant (I := fun sh p => Blocked sh p m) h₀ ?_ ?_ h
    · intro sh x r e others hI hguard hexec
      exact exec_blocked hI hguard hexec
    · intro sh ev e p hI _ henter
      obtain ⟨hslots, hclient⟩ := enter_shared henter
      refine ⟨?_, ?_⟩
      · rw [Shared.flag, hslots]
        exact hI.1
      · intro x hx hre
        rw [hclient]
        rcases Multiset.mem_add.mp hx with hx | hx
        · exact absurd hre (enter_not_rereads henter hx)
        · exact hI.2 x hx hre
  exact ⟨hblocked.not_wouldRead, hblocked.not_underWay⟩

/-- The module is discovered, a revalidation read goes out, the client is replaced before it
answers, and the module is discovered again on the new client. -/
def replacedUnderRead : List (Move CallOutcome Entry) :=
  firstReport ++
  [.enter .revalidate, .run 3 {}, .run 3 {},
   .enter (.clientReplaced (str "m")), .run 5 {}, .run 5 {}, .run 5 {},
   .enter (.fire (str "m")), .run 6 {},
   .run 7 {}, .run 7 {}, .run 8 { value := .arr [] }, .run 9 {}, .run 9 {}, .run 9 {}]

/-- The state it leads to: settled, but still counting on the read on the replaced client. -/
theorem replacedUnderRead_blocked :
    ∃ s slot, Run (discovery oneModule .emptyArray .refusing) Guard.any (start oneModule) s ∧
      s.shared.client (str "m") = 1 ∧ s.shared.slots (str "m") = some slot ∧ ¬ slot.Unsettled ∧
      slot.inFlight = false ∧ slot.retryArmed = false ∧
      Blocked s.shared s.pending (str "m") := by
  obtain ⟨s, hs⟩ : ∃ s, (discovery oneModule .emptyArray .refusing).replay (start oneModule)
      replacedUnderRead = some s := ⟨_, rfl⟩
  obtain ⟨slot, hslot⟩ : ∃ slot, s.shared.slots (str "m") = some slot := by
    cases hs
    exact ⟨_, rfl⟩
  have hcall : ∃ c, c.client = 0 ∧ s.pending =
      ↑[Section.changed (str "m"), .revalidate [], .awaitRead c, .changed (str "m")] := by
    cases hs
    exact ⟨_, rfl, rfl⟩
  obtain ⟨c, hc, hpending⟩ := hcall
  have hclient : s.shared.client (str "m") = 1 := by
    cases hs
    rfl
  have hflags : (slot.view.resolved, slot.view.stale, slot.inFlight, slot.retryArmed,
      slot.checking) = (true, false, false, false, true) := by
    cases hs
    cases hslot
    rfl
  simp only [Prod.mk.injEq] at hflags
  obtain ⟨hresolved, hstale, hflight, hretry, hchecking⟩ := hflags
  refine ⟨s, slot, Run.replay .start hs, hclient, hslot, ?_, hflight, hretry, ?_, ?_⟩
  · simp [Slot.Unsettled, hresolved, hstale]
  · exact Shared.flag_eq_true.mpr ⟨slot, hslot, hchecking⟩
  · intro x hx hre
    rw [hpending] at hx
    rcases (by simpa using hx : x = .changed (str "m") ∨ x = .revalidate [] ∨ x = .awaitRead c ∨
      x = .changed (str "m")) with rfl | rfl | rfl | rfl
    · exact absurd hre id
    · exact absurd hre id
    · exact ⟨c, rfl, by omega⟩
    · exact absurd hre id

/-- **A read on a replaced client blocks revalidation.** Replacing a client does not by itself keep
revalidation open. -/
theorem not_revalidation_open_of_replaced :
    ¬ ∀ (cfg : BridgeConfig) (lib : Nlohmann) (reader : ContractReader) (m : Bytes)
        (s : State Shared Section),
      Run (discovery cfg lib reader) Guard.any (start cfg) s → 0 < s.shared.client m →
      RevalidationOpen cfg lib reader s.shared s.pending m := by
  intro hopen
  obtain ⟨s, slot, hrun, hclient, hslot, hsettled, hflight, hretry, hblocked⟩ :=
    replacedUnderRead_blocked
  have hm := hopen oneModule .emptyArray .refusing (str "m") s hrun (by omega) slot hslot hsettled
    hflight hretry
  rcases hm with hunder | hread
  · exact hblocked.not_underWay hunder
  · exact hblocked.not_wouldRead hread

end JsonRpcBridge.Discovery
