import JsonRpcBridge.Subscriptions.Endings

/-!
# Events and the end of a subscription

A delivery looks a subscriber up under `m_subMu` and sends after it has released the lock. In
between, the subscription may end, and its end be told.

* `ends_last`: if no event of a subscriber is between the two when its end is sent, none is sent
  afterwards.
* `not_ends_last`: otherwise one can be.
-/

namespace JsonRpcBridge.Subscriptions

open Interleaving Upstream

variable {limit : Int} {sh sh' : Shared} {cause : Cause} {made : List Section}

/-! ## The property and the condition

The delivery and the end take the lock one after the other, but they send after it, so the order
of their sends is open. -/

/-- The subscription an `rpc.event` frame was built for. -/
def Message.event? : Message → Option Subscription
  | .event sub _ _ _ => some sub
  | _ => none

def Section.event? : Section → Option Subscription
  | .send _ m => m.event?
  | _ => none

/-- No event of a subscriber is sent after its end. -/
def EndsLast (sent : List (Nat × Message)) : Prop :=
  sent.Pairwise fun a b => ∀ sub, a.2.ended? = some sub → b.2.event? ≠ some sub

/-- When the end of a subscription is sent, no event of it has been built and not been sent. -/
def noEventOut : Guard Shared Section Choice BridgeEntry where
  run _ p x _ := ∀ c m sub, x = .send c m → m.ended? = some sub → ∀ y ∈ p, y.event? ≠ some sub
  enter _ _ _ := True

instance : noEventOut.Decided where
  run _ p x _ := by
    induction x using Section.casesOn with
    | send c m =>
        exact decidable_of_iff (∀ sub ∈ m.ended?, ∀ y ∈ p, y.event? ≠ some sub)
          ⟨by rintro h _ _ sub ⟨⟩; exact h sub, fun h sub => h c m sub rfl⟩
    | _ => exact isTrue (by rintro _ _ _ ⟨⟩)
  enter _ _ _ := isTrue trivial

/-! ## The invariant -/

structure EventInv (sh : Shared) (p : Multiset Section) : Prop where
  pending : ∀ y ∈ sh.sent, ∀ sub, y.2.ended? = some sub → ∀ x ∈ p, x.event? ≠ some sub
  sent : EndsLast sh.sent

theorem Message.event?_of_sub? {m : Message} (h : m.sub? = none) : m.event? = none := by
  cases m with
  | event => cases h
  | _ => rfl

/-- An event is built for a registered subscriber. -/
theorem Act.event_of_made (h : Act limit sh cause sh' made) {y : Section} (hy : y ∈ made)
    {sub : Subscription} (hev : y.event? = some sub) : ∃ o, sh.subscribers o = some sub := by
  cases h with
  | hub hx hexec =>
      obtain ⟨z, _, rfl⟩ := List.mem_map.mp hy
      cases hev
  | heard hsub =>
      rw [List.mem_singleton.mp hy] at hev
      cases hev
      exact ⟨_, hsub⟩
  | @answer _ _ _ _ _ m hs hn hm =>
      rw [List.mem_singleton.mp hy] at hev
      cases (Message.event?_of_sub? hm).symm.trans hev
  | outside hmade =>
      obtain ⟨x, rfl, _⟩ := hmade y hy
      cases hev
  | joined | failed | lost | dropSubscriber | releaseKey | release | submit | releaseRefused
  | unhook =>
      rw [List.mem_singleton.mp hy] at hev
      cases hev
  | _ => cases hy

/-- **Step.** -/
theorem EventInv.step {others : Multiset Section} (hL : Ledger sh (cause.used + others))
    (hI : EventInv sh (cause.used + others)) (hok : Allows noEventOut sh (cause.used + others) cause)
    (h : Act limit sh cause sh' made) : EventInv sh' (↑made + others) := by
  -- an event that is built now is of a subscriber whose end has not been sent
  have hmade : ∀ y ∈ sh.sent, ∀ sub, y.2.ended? = some sub → ∀ x ∈ made, x.event? ≠ some sub := by
    intro y hy sub hended x hx hev
    obtain ⟨o, hsub⟩ := h.event_of_made hx hev
    obtain ⟨rfl, _⟩ := hL.known.subscriber o sub hsub
    have hdead := hL.ended _ (.sent hy hended rfl)
    cases hdead.subscribers.symm.trans hsub
  have hold : ∀ y ∈ sh.sent, ∀ sub, y.2.ended? = some sub →
      ∀ x ∈ (↑made + others : Multiset Section), x.event? ≠ some sub := by
    intro y hy sub hended x hx
    rcases Multiset.mem_add.mp hx with hx | hx
    · exact hmade y hy sub hended x hx
    · exact hI.pending y hy sub hended x (Multiset.mem_add.mpr (.inr hx))
  rcases h.sent with heq | ⟨c, m, rfl, heq⟩
  · exact ⟨heq ▸ hold, heq ▸ hI.sent⟩
  · obtain ⟨_, hguard⟩ := hok
    refine ⟨?_, ?_⟩
    · rw [heq]
      intro y hy sub hended x hx
      rcases List.mem_append.mp hy with hy | hy
      · exact hold y hy sub hended x hx
      · obtain rfl := List.mem_singleton.mp hy
        rw [h.made_of_send] at hx
        rcases Multiset.mem_add.mp hx with hx | hx
        · cases hx
        · exact hguard c m sub rfl hended x (Multiset.mem_add.mpr (.inr hx))
    · rw [heq]
      refine List.pairwise_append.mpr ⟨hI.sent, List.pairwise_singleton _ _, ?_⟩
      intro a ha b hb sub hended
      obtain rfl := List.mem_singleton.mp hb
      exact hI.pending a ha sub hended (.send c m) (Cause.mem_used rfl)

/-! ## Runs -/

/-- **No event follows the end of its subscription, if none is on its way then.** In every run that
sends the end of a subscription (the notice of its loss, or the answer to the unsubscribe that
removed it) only while no event of it has been built and not been sent, no event of it is sent
after its end. -/
theorem ends_last {s : State Shared Section} (h : Run (bridge limit) noEventOut start s) :
    EndsLast s.shared.sent := by
  have hstart : EventInv start.shared start.pending := by
    refine ⟨?_, List.Pairwise.nil⟩
    intro y hy
    cases hy
  exact (ledger_and_of_run hstart (fun hL hI hok h => EventInv.step hL hI hok h) h).2.sent

/-- An event reaches the subscriber and is about to be sent, by thread 7. -/
def eventBuilt : List (Move Choice BridgeEntry) :=
  subscribed ++ [.run 5 {}, .enter (.deliver 0 .null), .run 7 {}, .run 7 {}, .run 7 {}]

/-- The provider is lost, and the subscriber told. -/
def providerLost : List (Move Choice BridgeEntry) :=
  .enter (.moduleLost (str "m") Upstream.kProviderChanged) :: List.replicate 5 (.run 8 {})

theorem ends_last_event_then_loss :
    ∃ s, Run (bridge 1) noEventOut start s ∧ s.shared.sent.length = 3 ∧ EndsLast s.shared.sent := by
  obtain ⟨s, hs⟩ : ∃ s, (bridge 1).replayUnder noEventOut start
      (eventBuilt ++ .run 7 {} :: providerLost) = some s := ⟨_, rfl⟩
  have hlength : s.shared.sent.length = 3 := by
    cases hs
    rfl
  have hrun := Run.start.replayUnder hs
  exact ⟨s, hrun, hlength, ends_last hrun⟩

/-- **An event can follow the end of its subscription.** The delivery has looked the subscriber up,
the loss is told, and the event is sent. -/
theorem not_ends_last :
    ¬ ∀ s, Run (bridge 1) Guard.any start s → EndsLast s.shared.sent := by
  intro hends
  obtain ⟨s, hs⟩ : ∃ s, (bridge 1).replay start
      (eventBuilt ++ providerLost ++ [.run 7 {}]) = some s := ⟨_, rfl⟩
  have hlast := hends s (Run.replay .start hs)
  cases hs
  have hpair := (List.pairwise_cons.mp (List.pairwise_cons.mp hlast).2).1
  exact hpair _ (List.mem_singleton_self _) _ rfl rfl

end JsonRpcBridge.Subscriptions
