import JsonRpcBridge.Interleaving.Tokens
import JsonRpcBridge.Subscriptions.Endings
import JsonRpcBridge.Upstream.Losses

/-!
# One notice for each subscriber

The hub may tell the loss of a subscriber whom the bridge has dropped meanwhile, but whoever takes it
out of `m_subscribers` is the only one to send the notice. `loss_told_once` puts this together with
what the hub tells.
-/

namespace JsonRpcBridge.Subscriptions

open Interleaving Upstream

variable {limit : Int} {sh sh' : Shared} {cause : Cause} {made : List Section}

/-! ## Notices on the way -/

/-- The subscriber whose `rpc.subscription_terminated` a section sends, now or next. -/
def Section.tells? : Section → Option Nat
  | .release sub _ _ => some sub.owner
  | .send _ m => m.lost?
  | _ => none

/-- The notices of subscriber `o`, sent and on their way. -/
def notices (sh : Shared) (p : Multiset Section) (o : Nat) : Nat :=
  carried Section.tells? o p + sh.sent.countP fun y => y.2.lost? == some o

theorem Section.ended?_of_tells {x : Section} {o : Nat} (h : x.tells? = some o) :
    ∃ sub, x.ended? = some sub ∧ sub.owner = o := by
  cases x with
  | release sub key why =>
      cases h
      exact ⟨sub, rfl, rfl⟩
  | send c m =>
      cases m with
      | terminated sub key why =>
          cases h
          exact ⟨sub, rfl, rfl⟩
      | _ => cases h
  | _ => cases h

/-- A subscriber with a notice is out of `m_subscribers`. -/
theorem Ledger.dead_of_notices {p : Multiset Section} (hL : Ledger sh p) {o : Nat}
    (h : notices sh p o ≠ 0) : sh.subscribers o = none := by
  refine (hL.ended o ?_).subscribers
  by_cases hp : carried Section.tells? o p = 0
  · have hsent : 0 < sh.sent.countP fun y => y.2.lost? == some o := by
      unfold notices at h
      omega
    obtain ⟨y, hy, hlost⟩ := List.countP_pos_iff.mp hsent
    obtain ⟨sub, hended, howner⟩ := Section.ended?_of_tells (x := .send y.1 y.2) (beq_iff_eq.mp hlost)
    exact .sent hy hended howner
  · obtain ⟨x, hx, hnotice⟩ := carried_pos.mp (Nat.pos_of_ne_zero hp)
    obtain ⟨sub, hended, howner⟩ := Section.ended?_of_tells hnotice
    exact .pending hx hended howner

/-! ## Every move and every run

A notice comes of an erasure, and it is gone when it is sent. A subscriber is erased once. -/

/-- **Inversion.** A new notice is that of a subscriber just taken out of `m_subscribers`. -/
theorem Act.notices_le (h : Act limit sh cause sh' made) {others : Multiset Section}
    (hK : Known sh (cause.used + others)) (o : Nat) :
    notices sh' (↑made + others) o ≤ notices sh (cause.used + others) o ∨
      (∃ sub, sh.subscribers o = some sub) ∧
        notices sh' (↑made + others) o = notices sh (cause.used + others) o + 1 := by
  -- a move that makes no notice and sends none
  have hquiet : ∀ {sh' : Shared} {made : List Section}, sh'.sent = sh.sent →
      (∀ y ∈ made, y.tells? = none) →
      notices sh' (↑made + others) o ≤ notices sh (cause.used + others) o := by
    intro sh' made hsent hmade
    have hnone : carried Section.tells? o (↑made : Multiset Section) = 0 := by
      refine carried_of_forall fun y hy hnotice => ?_
      rw [hmade y hy] at hnotice
      cases hnotice
    unfold notices
    rw [carried_add, carried_add, hnone, hsent]
    omega
  cases h with
  | hub hx hexec =>
      left
      refine hquiet rfl fun y hy => ?_
      obtain ⟨z, -, rfl⟩ := List.mem_map.mp hy
      rfl
  | outside hmade =>
      left
      refine hquiet rfl fun y hy => ?_
      obtain ⟨x, rfl, -⟩ := hmade y hy
      rfl
  | @lost sid key why sub hsub =>
      obtain ⟨rfl, -⟩ := hK.subscriber sid sub hsub
      by_cases ho : sub.owner = o
      · subst ho
        right
        refine ⟨⟨sub, hsub⟩, ?_⟩
        -- the loss becomes a notice: one more of this subscriber, and of no other
        have hone : carried Section.tells? sub.owner (↑[Section.release sub key why] : Multiset Section) = 1 := by
          simp [Section.tells?]
        have hused : carried Section.tells? sub.owner
            (Cause.run (.hub (.onLost sub.owner key why))).used = 0 := by
          simp [Cause.used, Section.tells?]
        unfold notices
        rw [carried_add, carried_add, hone, hused]
        show 1 + _ + sh.sent.countP _ = _
        omega
      · left
        have hnone : carried Section.tells? o (↑[Section.release sub key why] : Multiset Section) = 0 := by
          simp [Section.tells?, ho]
        unfold notices
        rw [carried_add, carried_add, hnone]
        show 0 + _ + sh.sent.countP _ ≤ _
        omega
  | @release sub key why =>
      left
      refine le_of_eq ?_
      unfold notices
      rw [carried_add, carried_add]
      rfl
  | @send c m =>
      left
      refine le_of_eq ?_
      unfold notices
      rw [carried_add, carried_add]
      rw [Cause.used, carried_nil, carried_singleton, List.countP_append, List.countP_singleton]
      by_cases hm : m.lost? = some o
      · rw [if_pos (beq_iff_eq.mpr hm), if_pos (show (Section.send c m).tells? = some o from hm)]
        omega
      · rw [if_neg (fun heq => hm (beq_iff_eq.mp heq)),
          if_neg (show (Section.send c m).tells? ≠ some o from hm)]
        omega
  | @answer _ _ _ _ _ m hs hn hm =>
      left
      refine hquiet rfl fun y hy => ?_
      rw [List.mem_singleton.mp hy]
      cases m with
      | terminated => cases hm
      | _ => rfl
  | joined | failed | heard | dropSubscriber | releaseKey | submit | releaseRefused | unhook =>
      left
      refine hquiet rfl fun y hy => ?_
      rw [List.mem_singleton.mp hy]
      rfl
  | _ => exact Or.inl (hquiet rfl fun y hy => by cases hy)

/-- **Run.** -/
theorem notices_of_run {G : Guard Shared Section Choice BridgeEntry} {s : State Shared Section}
    (h : Run (bridge limit) G start s) (o : Nat) : notices s.shared s.pending o ≤ 1 := by
  refine (ledger_and_of_run (J := fun sh p => ∀ o, notices sh p o ≤ 1) ?_ ?_ h).2 o
  · intro o
    exact Nat.zero_le _
  · intro sh sh' cause made others hL hJ _ hact o
    rcases hact.notices_le hL.known o with hle | ⟨⟨sub, hsub⟩, heq⟩
    · exact hle.trans (hJ o)
    · have hzero : notices sh (cause.used + others) o = 0 := by
        by_contra hne
        cases hsub.symm.trans (hL.dead_of_notices hne)
      omega

/-! ## The result for the hub

The hub finds the subscribers under its lock and calls back after it. -/

/-- **A loss is told once.** In every run of the hub a taking tells those it took once and nobody
else, and between two takings of an id there is an add of it; and in every run of the bridge a
subscriber is sent at most one `rpc.subscription_terminated`. -/
theorem loss_told_once (limit : Int) :
    (∀ h s, Logged hubProgram Guard.any hubNote hubStart h s → ToldOnce h s) ∧
      ∀ s, Run (bridge limit) Guard.any start s →
        ∀ o, s.shared.sent.countP (fun y => y.2.lost? == some o) ≤ 1 := by
  refine ⟨fun h s hlog => toldOnce_of_logged hlog, fun s hrun o => ?_⟩
  exact (Nat.le_add_left _ _).trans (notices_of_run hrun o)

/-- Two threads tell losses of one key, with an add between their takings; the second calls first.
-/
def overtakingMoves : List (Move Bool HubEntry) :=
  [.enter (.add someEvent 7), .run 0 true,
   .enter (.lost someEvent kProviderUnavailable), .run 1 true,
   .enter (.add someEvent 7), .run 2 true,
   .enter (.lost someEvent kProviderChanged), .run 3 true, .run 3 true, .run 1 true]

theorem not_added_between_calls :
    ¬ ∀ h s, Logged hubProgram Guard.any hubNote hubStart h s →
      ∀ a id key b c, h = a ++ .told id key :: (b ++ .told id key :: c) →
        ∃ key', .joined key' id ∈ b := by
  intro hall
  obtain ⟨s, hs⟩ : ∃ s, hubProgram.replay hubStart overtakingMoves = some s := ⟨_, rfl⟩
  have hlog : Logged hubProgram Guard.any hubNote hubStart _ s := Logged.start.replay hs
  have hnotes : hubProgram.notes hubNote hubStart overtakingMoves =
      [.joined someEvent 7, .taken someEvent [7], .joined someEvent 7, .taken someEvent [7]] ++
        .told 7 someEvent :: ([] ++ .told 7 someEvent :: []) := by decide +kernel
  rw [List.nil_append, hnotes] at hlog
  obtain ⟨key', hadded⟩ := hall _ _ hlog _ 7 someEvent [] [] rfl
  cases hadded

theorem loss_told_once_overtaken :
    ∃ h s, Logged hubProgram Guard.any hubNote hubStart h s ∧
      h.count (.told 7 someEvent) = 2 ∧ ToldOnce h s := by
  obtain ⟨s, hs⟩ : ∃ s, hubProgram.replay hubStart overtakingMoves = some s := ⟨_, rfl⟩
  have hlog : Logged hubProgram Guard.any hubNote hubStart _ s := Logged.start.replay hs
  exact ⟨_, s, hlog, by decide +kernel, (loss_told_once 1).1 _ s hlog⟩

end JsonRpcBridge.Subscriptions
