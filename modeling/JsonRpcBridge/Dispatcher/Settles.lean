import JsonRpcBridge.Dispatcher.Pooled
import JsonRpcBridge.Pump.Settles

/-!
# Every batch is answered

While the pump runs, what batches and threads still have to do runs out, whatever the order in which
they do it, and then every batch has sent its frame (`batches_settle`).
-/

namespace JsonRpcBridge.Dispatcher

open Discovery Interleaving Pump

/-- How many sections may come of a section, a job counted once more for the queue. -/
def weight : Section → Nat
  | .handle _ _ _ => 8
  | .job _ _ _ => 6
  | .done _ _ _ => 5
  | .store _ _ _ => 4
  | .countDown _ => 3
  | .flush _ => 2
  | .send _ _ => 1

theorem lowers (cfg : BridgeConfig) (lib : Nlohmann) : (posts cfg lib).Lowers weight where
  exec := by
    intro sh x c e h
    simp only [batching, exec] at h
    split at h
    · cases h
    · cases x with
      | handle k i raw =>
          dsimp only at h
          cases hout : handleOne cfg lib c.bridge raw with
          | error err =>
              rw [hout] at h
              cases h
              exact (by decide : 0 + 0 < 8)
          | ok result =>
              obtain ⟨out, now⟩ := result
              rw [hout] at h
              cases out with
              | fill response =>
                  cases h
                  exact (by decide : 4 + 0 < 8)
              -- each line is a weight: of what the section makes and of the job it submits, against
              -- its own
              | submit job =>
                  cases h
                  exact (by decide : 6 + 1 < 8)
      | job k i job =>
          cases job with
          | call id t args timeoutMs =>
              cases h
              exact (by decide : 5 + 0 < 6)
          | discover id openrpc =>
              cases h
              exact (by decide : 4 + 0 < 6)
          | subscribe id t sid =>
              cases h
              exact (by decide : 4 + 0 < 6)
      | done k i job =>
          cases h
          exact (by decide : 4 + 0 < 5)
      | store k i response =>
          obtain ⟨b, -, rfl⟩ := Option.map_eq_some_iff.mp h
          exact (by decide : 3 + 0 < 4)
      | countDown k =>
          obtain ⟨b, -, rfl⟩ := Option.map_eq_some_iff.mp h
          by_cases hlast : b.remaining = 1
          · rw [if_pos hlast]
            exact (by decide : 2 + 0 < 3)
          · rw [if_neg hlast]
            exact (by decide : 0 + 0 < 3)
      | flush k =>
          obtain ⟨b, -, rfl⟩ := Option.map_eq_some_iff.mp h
          exact (by decide : 1 + 0 < 2)
      | send k slots =>
          obtain ⟨b, -, rfl⟩ := Option.map_eq_some_iff.mp h
          exact (by decide : 0 + 0 < 1)

/-- **Every batch is answered.** Take any state of any run in which `start` has returned and `stop`
was not called since: bodies read, jobs queued, upstream calls under way. From there, whatever the
order in which threads go on and upstream answers, at most `left` sections run before the next body
comes; and where none can run any more, each batch has sent its one frame, unless an earlier `stop`
dropped a job of its. -/
theorem batches_settle (lib : Nlohmann) (own text : Bytes) (cfg : BridgeConfig)
    (hcfg : parseBridgeConfig lib own text = .ok cfg) (reader : ContractReader)
    (hreader : reader.Clean) (s : State (Pooled Batches Section) (Place Section))
    (hrun : Run (dispatching cfg lib) ((posts cfg lib).staffs (answerable cfg lib reader))
      { shared := { base := {} } } s)
    (hidle : s.shared.pump.owned = false) (hgo : s.shared.pump.stop = false) :
    (∀ ms s', (dispatching cfg lib).replayIf genuine s ms = some s' →
      ms.length + s'.shared.left weight s'.pending ≤ s.shared.left weight s.pending) ∧
    ((∀ m, genuine s m = true → (dispatching cfg lib).step s m = none) →
      ∀ k b, s.shared.base.batch k = some b →
        b.sent.length = if droppedJobs s.shared.pump k = 0 then 1 else 0) := by
  refine ⟨fun ms s' h => ?_, fun hstuck k b hb => ?_⟩
  · exact replay_le_left (lowers cfg lib) (Posts.run_staffs hrun) hidle h
  · have hguarded := Posts.run_guard hrun
    have howes := owes_on_pump hcfg hreader hguarded
    obtain ⟨hqueue, hasleep⟩ := asleep_of_stuck hrun hidle hgo {} (fun x hx c => howes.runs hx c) hstuck
    have hrests : Rests s k := by
      refine ⟨fun x hx y hy => ?_, fun x hx => ?_⟩
      · obtain ⟨w, -, rfl⟩ := hasleep x hx
        cases hy
      · rw [hqueue] at hx
        exact absurd hx List.not_mem_nil
    have hjobs := (onlyJobs_of_run hguarded).2
    obtain ⟨hremaining, hclosing⟩ := (howes.ledger k b hb).rests hrests hjobs
    exact hclosing

/-! ## A request that is answered

A run of a bridge with one exposed module: the client asks for `rpc.discover`, and the pool has
to find its way to the answer. -/

theorem staffed_of_calm {cfg : BridgeConfig} {lib : Nlohmann} {reader : ContractReader}
    {s₀ s : State (Pooled Batches Section) (Place Section)}
    (h : Run ((dispatching cfg lib).choosing (atStartOnPump cfg))
      (((posts cfg lib).staffs calm).choosing (atStartOnPump cfg)) s₀ s) :
    Run (dispatching cfg lib) ((posts cfg lib).staffs (answerable cfg lib reader)) s₀ s := by
  apply Run.of_choosing ?_ ?_ h
  · intro sh p x c hcalm a ha
    exact Section.Calm.answerable (hcalm a ha) (discovered_atStart cfg lib reader _ _)
  · exact fun hstaffed => ⟨fun _ _ => trivial, hstaffed.2⟩

/-- The job is in the queue, and thirty-six sections at most are to run before all is answered. -/
theorem batches_settle_discover : ∃ s : State (Pooled Batches Section) (Place Section),
    Run (dispatching minimalConfig discoverLib)
      ((posts minimalConfig discoverLib).staffs (answerable minimalConfig discoverLib .refusing))
      { shared := { base := {} } } s ∧
    s.shared.pump.queue.length = 1 ∧ s.shared.left weight s.pending = 36 ∧
    ∀ ms s', (dispatching minimalConfig discoverLib).replayIf genuine s ms = some s' →
      ms.length + s'.shared.left weight s'.pending ≤ 36 := by
  have hmoves : (((dispatching minimalConfig discoverLib).choosing
      (atStartOnPump minimalConfig)).replayUnder
        (((posts minimalConfig discoverLib).staffs calm).choosing (atStartOnPump minimalConfig))
        { shared := { base := {} } } discoverMoves).map (fun s =>
        (s.shared.pump.queue.length, s.shared.left weight s.pending, s.shared.pump.owned,
          s.shared.pump.stop)) = some (1, 36, false, false) := by decide +kernel
  obtain ⟨s, hs, hend⟩ := Option.map_eq_some_iff.mp hmoves
  simp only [Prod.mk.injEq] at hend
  obtain ⟨hqueue, hleft, hidle, hgo⟩ := hend
  have hrun : Run (dispatching minimalConfig discoverLib)
      ((posts minimalConfig discoverLib).staffs (answerable minimalConfig discoverLib .refusing))
      { shared := { base := {} } } s := staffed_of_calm (Run.start.replayUnder hs)
  have hsettles := (batches_settle discoverLib (str "json_rpc_bridge") minimalText minimalConfig rfl
    .refusing ContractReader.clean_refusing s hrun hidle hgo).1
  rw [hleft] at hsettles
  exact ⟨s, hrun, hqueue, hleft, hsettles⟩

end JsonRpcBridge.Dispatcher
