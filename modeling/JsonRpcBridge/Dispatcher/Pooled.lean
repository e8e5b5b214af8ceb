import JsonRpcBridge.Dispatcher.BatchLedger
import JsonRpcBridge.Pump.Pooled

/-!
# Batches whose jobs run on the pump

`dispatching` is `batching` with its jobs on a `CallPump`: what `handleOne` finds out of `submit` is
whether the pump has stopped. Batches still owe what they owed (`owes_on_pump`), and `stop` silences
those whose jobs it drops and no others (`stop_silences_dropped`).
-/

namespace JsonRpcBridge.Dispatcher

open Discovery Interleaving Pump

/-! ## A pump that has stopped

A job is submitted only while the pump accepts jobs. -/

section

variable {cfg : BridgeConfig} {lib : Nlohmann} {b now : Bridge} {req : RpcRequest} {raw : Json}
  {out : Outcome} {job : Job}

theorem queued_dispatchCall {id : Json} {t : CallTarget}
    (h : dispatchCall cfg b id t = (.submit job, now)) : b.queued = true := by
  unfold dispatchCall at h
  dsimp only at h
  split at h
  · cases h
  · split at h
    · cases h
    · split_ifs at h with _ hqueued
      · cases h
      · exact hqueued
      · cases h

theorem queued_claimSubscription {id : Json} {t : SubscribeTarget} {key : Subscriptions.ClientId}
    (h : claimSubscription cfg b id t key = (.submit job, now)) : b.queued = true := by
  unfold claimSubscription at h
  dsimp only at h
  split at h
  · cases h
  · cases h
  · split_ifs at h with hqueued
    · exact hqueued
    · cases h

theorem queued_handleOp (h : handleOp cfg lib b req = .ok (.submit job, now)) :
    b.queued = true := by
  unfold handleOp at h
  split_ifs at h
  · cases h
  · cases h
  · obtain ⟨out, hout, heq⟩ := of_map_eq_ok h
    cases heq
    unfold handleSchema at hout
    obtain ⟨isModule, -, hout⟩ := of_bind_eq_ok hout
    split at hout
    · cases hout
    · obtain ⟨v, -, hout⟩ := of_bind_eq_ok hout
      obtain ⟨module, -, hout⟩ := of_bind_eq_ok hout
      cases hout
  -- the three operations that submit have asked the pump first; no other one submits
  · unfold handleDiscover at h
    split_ifs at h with hqueued
    · exact hqueued
    · cases h
  · unfold handleCall at h
    obtain ⟨target, -, h⟩ := of_bind_eq_ok h
    cases target with
    | error err => cases h
    | ok t => exact queued_dispatchCall (Except.ok.inj h)
  · unfold handleSubscribe at h
    obtain ⟨target, -, h⟩ := of_bind_eq_ok h
    cases target with
    | error err => cases h
    | ok t =>
        dsimp only at h
        split at h
        · cases h
        · obtain ⟨key, -, h⟩ := of_bind_eq_ok h
          exact queued_claimSubscription (Except.ok.inj h)
  · unfold handleUnsubscribe at h
    obtain ⟨target, -, h⟩ := of_bind_eq_ok h
    cases target with
    | error err => cases h
    | ok t =>
        obtain ⟨key, -, h⟩ := of_bind_eq_ok h
        split at h <;> cases h
  · cases h
  · cases h

/-- A request submits a job only where `submit` says yes. -/
theorem queued_of_submit (h : handleOne cfg lib b raw = .ok (.submit job, now)) :
    b.queued = true := by
  unfold handleOne at h
  obtain ⟨parsed, -, h⟩ := of_bind_eq_ok h
  cases parsed with
  | error err => cases h
  | ok req =>
      have h : handleRequest cfg lib b req = .ok (.submit job, now) := h
      unfold handleRequest at h
      split_ifs at h
      · split at h
        · cases h
        · exact queued_dispatchCall (Except.ok.inj h)
      · cases h
      · exact queued_handleOp h

end

/-! ## The program

Batches on the pump of `Pump`: its queue holds their jobs. -/

/-- The job of a slot. -/
def Section.isJob : Section → Bool
  | .job _ _ _ => true
  | _ => false

/-- The bridge as a request finds it, once `submit` has answered. -/
def Choice.submitted (c : Choice) (queued : Bool) : Choice :=
  { c with bridge := { c.bridge with queued := queued } }

/-- The jobs of batches are submitted to the pump; a `done` is called from outside. -/
def posts (cfg : BridgeConfig) (lib : Nlohmann) : Posts (batching cfg lib) where
  job := Section.isJob
  told := Choice.submitted
  refused := by
    intro sh x c e h
    simp only [batching, exec] at h
    split at h
    · cases h
    · cases x with
      | handle k i raw =>
          dsimp only at h
          cases hout : handleOne cfg lib (c.submitted false).bridge raw with
          | error err =>
              rw [hout] at h
              cases h
              rfl
          | ok result =>
              obtain ⟨out, now⟩ := result
              rw [hout] at h
              cases out with
              | fill response =>
                  cases h
                  rfl
              | submit job => cases queued_of_submit hout
      | job k i job =>
          cases job <;> cases h <;> rfl
      | done k i job =>
          cases h
          rfl
      | _ =>
          obtain ⟨b, -, rfl⟩ := Option.map_eq_some_iff.mp h
          rfl
  entered := by
    intro sh ev e h
    simp only [batching, enter] at h
    split at h
    · cases h
    · split at h
      · split at h <;> cases h <;> rfl
      · cases h
        rfl

/-- Batches, the pump that runs their jobs, and its owner. -/
def dispatching (cfg : BridgeConfig) (lib : Nlohmann) :
    Program (Pooled Batches Section) (Place Section) (Choice × Nat) (PooledEntry Arrival) :=
  pooled (posts cfg lib)

/-! ## What batches owe

The ledger of a batch counts the jobs in the queue and those that died there. A batch with a job
that died is never answered. -/

section

variable {cfg : BridgeConfig} {lib : Nlohmann} {reader : ContractReader} {own text : Bytes}
  {s : State (Pooled Batches Section) (Place Section)} {b : Batch} {k : Nat}

/-- On the pump too, some section is pending, queued or dropped for each part of what a batch
needs. -/
theorem owes_on_pump (hcfg : parseBridgeConfig lib own text = .ok cfg) (hreader : reader.Clean)
    (hrun : Run (dispatching cfg lib) ((posts cfg lib).guard (answerable cfg lib reader))
      { shared := { base := {} } } s) :
    Owes cfg lib s.shared.base (s.shared.bag s.pending) :=
  Bag.invariant (owes_start cfg lib) (fun h hok hexec => h.run hcfg hreader hok hexec)
    (fun h _ henter => h.enter henter) (pooled_refines hrun)

/-- How many jobs of batch `k` the pump has dropped. -/
def droppedJobs (pump : CallPump Section) (k : Nat) : Nat :=
  pump.dropped.countP fun x => x.2.batch == k

/-! ### A batch that rests

Where no thread has a section of a batch, what is left of it are the jobs that the pump has
dropped, and its count says how many. -/

/-- A dropped job leaves its slot to be filled. -/
theorem toDo_jobs (t : Phase) (k : Nat) (jobs : List (Nat × Section))
    (hjobs : ∀ x ∈ jobs, x.2.isJob = true) :
    toDo t (mine k ↑(jobs.map Prod.snd)) =
      if t = .filling then jobs.countP fun x => x.2.batch == k else 0 := by
  induction jobs with
  | nil => simp [mine, toDo]
  | cons x jobs ih =>
      have ih := ih fun y hy => hjobs y (List.mem_cons_of_mem _ hy)
      have hphase : x.2.phase = .filling := by
        have hjob := hjobs x List.mem_cons_self
        cases hx : x.2 with
        | job k i job => rfl
        | _ =>
            rw [hx] at hjob
            cases hjob
      rw [List.map_cons, ← Multiset.cons_coe, List.countP_cons]
      by_cases hbatch : x.2.batch = k
      · subst hbatch
        rw [mine_cons_self, toDo_cons, ih, hphase, if_pos (beq_self_eq_true _)]
        by_cases ht : t = .filling
        · rw [if_pos ht, if_pos ht, if_pos ht.symm]
        · rw [if_neg ht, if_neg ht, if_neg (Ne.symm ht)]
      · have hne : ¬(x.2.batch == k) = true := by simpa using hbatch
        rw [mine_cons_of_ne hbatch, ih, if_neg hne, Nat.add_zero]

/-- No thread and no queue has a section of batch `k`. -/
def Rests (s : State (Pooled Batches Section) (Place Section)) (k : Nat) : Prop :=
  (∀ x ∈ s.pending, ∀ y, x.section? = some y → y.batch ≠ k) ∧
    ∀ x ∈ s.shared.pump.queue, x.2.batch ≠ k

theorem mine_bag (h : Rests s k) :
    mine k (s.shared.bag s.pending) = mine k ↑(s.shared.pump.dropped.map Prod.snd) := by
  obtain ⟨hpending, hqueue⟩ := h
  rw [Pooled.bag, mine_add, mine_add, mine_of_none, mine_of_none, zero_add, zero_add]
  · intro y hy
    obtain ⟨x, hx, rfl⟩ := List.mem_map.mp (Multiset.mem_coe.mp hy)
    exact hqueue x hx
  · intro y hy
    obtain ⟨x, hx, hsection⟩ := (Multiset.mem_filterMap Place.section? _).mp hy
    exact hpending x hx y hsection

/-- A batch that rests waits for the jobs of its that were dropped. -/
theorem Ledger.rests (h : Ledger cfg lib b (mine k (s.shared.bag s.pending))) (hrests : Rests s k)
    (hjobs : ∀ x ∈ s.shared.pump.dropped, x.2.isJob = true) :
    b.remaining = droppedJobs s.shared.pump k ∧
      b.sent.length = if droppedJobs s.shared.pump k = 0 then 1 else 0 := by
  have hdropped := fun t => toDo_jobs t k s.shared.pump.dropped hjobs
  have hremaining := h.remaining
  have hclosing := h.closing
  rw [mine_bag hrests] at hremaining hclosing
  rw [hdropped, hdropped, if_pos rfl, if_neg (by decide), Nat.add_zero] at hremaining
  rw [hdropped, hdropped, if_neg (by decide), if_neg (by decide), Nat.zero_add, hremaining]
    at hclosing
  exact ⟨hremaining, hclosing⟩

/-- **`stop` silences the batches whose jobs it drops, and no others.** Whatever the order in which
the threads of the pump, the threads that read bodies and the owner go on, and however often the
pump is started and stopped: a batch sends one frame at most, full, with a reply to each request in
its place, and none once a job of its was dropped. When no thread and no queue has anything of the
batch left, it has sent its frame unless a job was dropped, and it waits for as many slots as there
were jobs dropped. -/
theorem stop_silences_dropped (lib : Nlohmann) (own text : Bytes) (cfg : BridgeConfig)
    (hcfg : parseBridgeConfig lib own text = .ok cfg) (reader : ContractReader)
    (hreader : reader.Clean) (s : State (Pooled Batches Section) (Place Section))
    (hrun : Run (dispatching cfg lib) ((posts cfg lib).guard (answerable cfg lib reader))
      { shared := { base := {} } } s)
    (k : Nat) (b : Batch) (hb : s.shared.base.batch k = some b) :
    s.shared.base.crashed = false ∧
    b.sent.length ≤ 1 ∧
    (∀ frame ∈ b.sent, ∃ responses, List.Forall₂ (Reply cfg lib) b.requests responses ∧
      frame = lib.text (b.answer responses)) ∧
    (droppedJobs s.shared.pump k ≠ 0 → b.sent = []) ∧
    (Rests s k → b.remaining = droppedJobs s.shared.pump k ∧
      b.sent.length = if droppedJobs s.shared.pump k = 0 then 1 else 0) := by
  have howes := owes_on_pump hcfg hreader hrun
  have hledger := howes.ledger k b hb
  have hjobs := (onlyJobs_of_run hrun).2
  refine ⟨howes.alive, hledger.tally.sent_le_one, hledger.frames, fun hany => ?_, fun hrests => ?_⟩
  · by_contra hsent
    have hdone := hledger.done_of_sent hsent
    rw [Pooled.bag, mine_add, toDo, carried_add, ← toDo, ← toDo] at hdone
    have hzero := (Nat.add_eq_zero_iff.mp hdone).2
    rw [toDo_jobs _ _ _ hjobs, if_pos rfl] at hzero
    exact hany hzero
  · exact hledger.rests hrests hjobs

end

/-! ## A request that `stop` overtakes

Its job is in the queue when the pump stops. -/

/-- `{"jsonrpc":"2.0","id":7,"method":"rpc.discover"}`, and its value. -/
def discoverText : Bytes := str "\x7b\"jsonrpc\":\"2.0\",\"id\":7,\"method\":\"rpc.discover\"\x7d"

def discoverJson : Json :=
  Json.object [(str "jsonrpc", .str (str "2.0")), (str "id", .uint 7),
    (str "method", .str kDiscover)]

def discoverLib : Nlohmann := minimalLib.also discoverText discoverJson (by decide)

/-- A request finds the bridge as it has just started, whichever thread `notify_one` wakes. -/
def atStartOnPump (cfg : BridgeConfig) (c : Upstreamed × Nat) : Choice × Nat := (atStart cfg c.1, c.2)

theorem discovered_atStart (cfg : BridgeConfig) (lib : Nlohmann) (reader : ContractReader)
    (told : Upstreamed) (queued : Bool) :
    ((atStart cfg told).submitted queued).bridge.Discovered cfg lib reader := by
  obtain ⟨hgate, hview, hopenrpc⟩ := Bridge.discovered_started cfg lib reader
  exact ⟨hgate, hview, hopenrpc⟩

theorem run_on_pump_of_calm {cfg : BridgeConfig} {lib : Nlohmann} {reader : ContractReader}
    {s₀ s : State (Pooled Batches Section) (Place Section)}
    (h : Run ((dispatching cfg lib).choosing (atStartOnPump cfg))
      (((posts cfg lib).guard calm).choosing (atStartOnPump cfg)) s₀ s) :
    Run (dispatching cfg lib) ((posts cfg lib).guard (answerable cfg lib reader)) s₀ s := by
  apply Run.of_choosing ?_ ?_ h
  · intro sh p x c hcalm a ha
    exact Section.Calm.answerable (hcalm a ha) (discovered_atStart cfg lib reader _ _)
  · exact fun _ _ _ => trivial

/-- The pump starts a thread, and a request submits its job. -/
def discoverMoves : List (Move (Upstreamed × Nat) (PooledEntry Arrival)) :=
  [.enter (.start 1), .run 0 ({}, 0), .run 0 ({}, 0), .run 0 ({}, 0),
    .enter (.inner { body := discoverText }), .run 2 ({}, 0)]

/-- The job is in the queue when the owner stops the pump, and the batch stays unanswered. -/
theorem stop_silences_dropped_discover : ∃ s b,
    Run (dispatching minimalConfig discoverLib)
      ((posts minimalConfig discoverLib).guard (answerable minimalConfig discoverLib .refusing))
      { shared := { base := {} } } s ∧
    s.shared.base.batch 0 = some b ∧ droppedJobs s.shared.pump 0 = 1 ∧ b.sent = [] := by
  have hmoves : (((dispatching minimalConfig discoverLib).choosing
      (atStartOnPump minimalConfig)).replayUnder (((posts minimalConfig discoverLib).guard calm).choosing
        (atStartOnPump minimalConfig)) { shared := { base := {} } }
        (discoverMoves ++ [.run 2 ({}, 0), .enter .stop, .run 3 ({}, 0)])).map
      (fun s => (droppedJobs s.shared.pump 0, (s.shared.base.batch 0).isSome)) = some (1, true) := by
    decide +kernel
  obtain ⟨s, hs, hend⟩ := Option.map_eq_some_iff.mp hmoves
  obtain ⟨hdropped, hbatch⟩ := Prod.mk.inj hend
  obtain ⟨b, hb⟩ := Option.isSome_iff_exists.mp hbatch
  have hrun : Run (dispatching minimalConfig discoverLib)
      ((posts minimalConfig discoverLib).guard (answerable minimalConfig discoverLib .refusing))
      { shared := { base := {} } } s := run_on_pump_of_calm (Run.start.replayUnder hs)
  refine ⟨s, b, hrun, hb, hdropped, ?_⟩
  have hsilent := stop_silences_dropped discoverLib (str "json_rpc_bridge") minimalText
    minimalConfig rfl .refusing ContractReader.clean_refusing s hrun 0 b hb
  apply hsilent.2.2.2.1
  rw [hdropped]
  exact Nat.one_ne_zero

end JsonRpcBridge.Dispatcher
