import JsonRpcBridge.Subscriptions.Agreement

/-!
# What an "active" acknowledgement says

A subscribe whose client id is taken is acknowledged as active, with the module and the event of the
request; `claim` does not compare them with those the id was claimed for.

* `active_true`: an acknowledgement is true if and only if the request repeats the target of the
  entry it finds; in a run of such requests every acknowledgement names a claim.
* `not_active_true`: a request for another event is told that it is active.
-/

namespace JsonRpcBridge.Subscriptions

open Interleaving Upstream

variable {limit : Int} {sh : Shared} {e : Effect Shared Section}

/-! ## The property and the condition

The table is asked for the client id alone, and the acknowledgement repeats the module and the event
of the request. It is true if these are the entry's. -/

/-- If the move acknowledges a subscribe as active, the table of the connection holds the client id
for that module and event, before the move and after it. -/
def TrueAck (s s' : State Shared Section) : Prop := ∀ c id key,
  s'.pending = .send c (.active id key) ::ₘ s.pending →
    ∃ owner, (id, (⟨key, owner⟩ : Entry)) ∈ (s.shared.conns c).subs ∧
      (id, (⟨key, owner⟩ : Entry)) ∈ (s'.shared.conns c).subs

/-- A subscribe whose client id is in the connection's table asks for the module and the event of
its entry. -/
def sameTarget : Guard Shared Section Choice BridgeEntry where
  run _ _ _ _ := True
  enter sh _ ev := ∀ queued c id key rest entry, ev = .serve queued →
    sh.service = .requests c (.subscribe id key :: rest) → sh.held c id = some entry →
      entry.key = key

instance : sameTarget.Decided where
  run _ _ _ _ := isTrue trivial
  enter sh _ ev :=
    match hnext : sh.service.next? with
    | some (c, .subscribe id key) =>
      decidable_of_iff (ev.serves = true → ∀ entry ∈ sh.held c id, entry.key = key) <| by
        obtain ⟨rest, hserv⟩ := Service.next?_eq_some.mp hnext
        constructor
        · rintro h _ _ _ _ _ entry rfl hserv' hheld
          cases hserv.symm.trans hserv'
          exact h rfl entry hheld
        · intro h hserves entry hheld
          cases ev with
          | serve queued => exact h queued c id key rest entry rfl hserv hheld
          | _ => cases hserves
    | some (_, .unsubscribe _) | none => isTrue <| by
        rintro _ _ _ _ rest _ rfl hserv
        cases hnext.symm.trans (Service.next?_eq_some.mpr ⟨rest, hserv⟩)

/-- The acknowledgement is on its way, or sent. -/
def Told (s : State Shared Section) (c : Nat) (id : ClientId) (key : Key) : Prop :=
  .send c (.active id key) ∈ s.pending ∨ (c, .active id key) ∈ s.shared.sent

/-! ## Where acknowledgements come from

An id that is claimed is answered in `subscribe` itself, and one that was claimed in an earlier
request has gone through its job. No other section sends either. -/

/-- Only the service thread, at a request, acknowledges a subscribe as active. -/
theorem Act.of_active {sh' : Shared} {cause : Cause} {made : List Section}
    (h : Act limit sh cause sh' made) {c : Nat} {id : ClientId} {key : Key}
    (hmem : .send c (.active id key) ∈ made) :
    ∃ queued r rest, cause = .call (.serve queued) ∧ sh.service = .requests c (r :: rest) := by
  cases h with
  | answer hs hn hm =>
      cases List.mem_singleton.mp hmem
      exact ⟨_, _, _, rfl, hs⟩
  | hub =>
      obtain ⟨z, -, hz⟩ := List.mem_map.mp hmem
      cases hz
  | outside hout =>
      obtain ⟨x, hx, -⟩ := hout _ hmem
      cases hx
  | joined | failed | lost | heard | dropSubscriber | releaseKey | release | releaseRefused | unhook
  | submit => cases List.mem_singleton.mp hmem
  | _ => cases hmem

/-- A subscribe whose client id is taken is acknowledged as active, and changes no table. -/
theorem subscribe_taken {c : Nat} {id : ClientId} {key : Key} {rest : List Request} {entry : Entry}
    (h : sh.held c id = some entry) :
    subscribe limit sh c id key rest =
      { shared := { sh with
          nextSubscriberId := sh.nextSubscriberId + 1, service := .requests c rest }
        spawn := [[.send c (.active id key)]] } := by
  have hclaim : (sh.conns c).subs.claim id key sh.nextSubscriberId limit =
      (.duplicate, (sh.conns c).subs) := by
    rw [SubscriptionTable.claim, show (sh.conns c).subs.find id = some entry from h]
    rfl
  rw [subscribe, hclaim]

theorem subscribe_free {c : Nat} {id : ClientId} {key : Key} {rest : List Request}
    (h : sh.held c id = none) {c' : Nat} {id' : ClientId} {key' : Key} :
    .send c' (.active id' key') ∉ (subscribe limit sh c id key rest).made := by
  have hfree : (sh.conns c).subs.find id = none := h
  unfold subscribe SubscriptionTable.claim
  rw [hfree]
  by_cases hroom : ((sh.conns c).subs.length : Int) ≥ limit
  · simp [hroom, Effect.made]
  · simp [hroom, Effect.made]

theorem unsubscribe_not_active {c : Nat} {id : ClientId} {rest : List Request} {c' : Nat}
    {id' : ClientId} {key' : Key} :
    .send c' (.active id' key') ∉ (unsubscribe sh c id rest).made := by
  unfold unsubscribe SubscriptionTable.take
  cases (sh.conns c).subs.find id with
  | none => simp [Effect.made]
  | some held => simp [Effect.made]

theorem serve_active {queued : Bool} {c : Nat} {r : Request} {rest : List Request}
    (hs : sh.service = .requests c (r :: rest)) (h : serve limit sh queued = some e)
    {c' : Nat} {id : ClientId} {key : Key} (hmem : .send c' (.active id key) ∈ e.made) :
    r = .subscribe id key ∧ c' = c ∧ e.shared.conns = sh.conns ∧
      ∃ entry, sh.held c id = some entry := by
  simp only [serve, hs] at h
  cases r with
  | subscribe id' key' =>
      obtain rfl := Option.some.inj h
      cases hheld : sh.held c id' with
      | none => exact absurd hmem (subscribe_free hheld)
      | some entry =>
          rw [subscribe_taken hheld] at hmem ⊢
          obtain ⟨rfl, rfl, rfl⟩ : c' = c ∧ id = id' ∧ key = key' := by
            simpa [Effect.made] using hmem
          exact ⟨rfl, rfl, rfl, entry, hheld⟩
  | unsubscribe id' =>
      obtain rfl := Option.some.inj h
      exact absurd hmem unsubscribe_not_active

theorem exec_not_active {x : Section} {ch : Choice} (h : exec sh x ch = some e) {c : Nat}
    {id : ClientId} {key : Key} : .send c (.active id key) ∉ e.made := by
  obtain ⟨made, hmade, hact⟩ : ∃ made : List Section, e.made = ↑made ∧
      Act 0 sh (.run x) e.shared made := exec_act h
  rw [hmade]
  intro hmem
  obtain ⟨_, _, _, hcause, -⟩ := hact.of_active (Multiset.mem_coe.mp hmem)
  cases hcause

theorem enter_active {ev : BridgeEntry} (h : enter limit sh ev = some e) {c : Nat} {id : ClientId}
    {key : Key} (hmem : .send c (.active id key) ∈ e.made) :
    ∃ queued rest entry, ev = .serve queued ∧
      sh.service = .requests c (.subscribe id key :: rest) ∧ sh.held c id = some entry ∧
      e.shared.conns = sh.conns := by
  obtain ⟨made, hmade, hact⟩ := enter_act h
  have hmem' := hmem
  rw [hmade] at hmem'
  obtain ⟨queued, r, rest, hcause, hs⟩ : ∃ queued r rest, ev = .serve queued ∧
      ∃ c', sh.service = .requests c' (r :: rest) := by
    obtain ⟨queued, r, rest, hcause, hs⟩ := hact.of_active (Multiset.mem_coe.mp hmem')
    cases hcause
    exact ⟨queued, r, rest, rfl, c, hs⟩
  subst hcause
  obtain ⟨c', hs⟩ := hs
  obtain ⟨rfl, rfl, hconns, entry, hheld⟩ := serve_active hs h hmem
  exact ⟨queued, rest, entry, rfl, hs, hheld, hconns⟩

/-- A move that adds an acknowledgement handles a subscribe that finds its client id taken. -/
theorem step_active {s s' : State Shared Section} {mv : Move Choice BridgeEntry}
    (hstep : (bridge limit).step s mv = some s') {c : Nat} {id : ClientId} {key : Key}
    (hadd : s'.pending = .send c (.active id key) ::ₘ s.pending) :
    ∃ queued rest entry, mv = .enter (.serve queued) ∧
      s.shared.service = .requests c (.subscribe id key :: rest) ∧
      s.shared.held c id = some entry ∧ s'.shared.conns = s.shared.conns := by
  cases mv with
  | run i ch =>
      obtain ⟨x, e, others, -, hexec, hp, -, hp'⟩ := Program.step_run hstep
      have hmade : e.made = .send c (.active id key) ::ₘ {x} := by
        rw [hp, hp', ← Multiset.singleton_add x, ← Multiset.cons_add] at hadd
        exact add_right_cancel hadd
      exact absurd (hmade ▸ Multiset.mem_cons_self _ _) (exec_not_active hexec)
  | enter ev =>
      obtain ⟨e, henter, hs, hp'⟩ := Program.step_enter hstep
      have hmade : e.made = {.send c (.active id key)} := by
        rw [hp', ← Multiset.singleton_add] at hadd
        exact add_right_cancel hadd
      obtain ⟨queued, rest, entry, rfl, hserv, hheld, hconns⟩ :=
        enter_active henter (hmade ▸ Multiset.mem_singleton_self _)
      exact ⟨queued, rest, entry, rfl, hserv, hheld, hs ▸ hconns⟩

/-- What is told after a move was told before, or answers such a subscribe. -/
theorem step_told {s s' : State Shared Section} {mv : Move Choice BridgeEntry}
    (hstep : (bridge limit).step s mv = some s') {c : Nat} {id : ClientId} {key : Key}
    (htold : Told s' c id key) : Told s c id key ∨
      ∃ queued rest entry, mv = .enter (.serve queued) ∧
        s.shared.service = .requests c (.subscribe id key :: rest) ∧
        s.shared.held c id = some entry := by
  have hsent : Told s c id key ∨ .send c (.active id key) ∈ s'.pending := by
    rcases htold with hp | hsent
    · exact .inr hp
    · obtain ⟨cause, made, others, -, hp, -, hact⟩ := step_act hstep
      rcases hact.sent with heq | ⟨c', m, hcause, heq⟩
      · exact .inl (.inr (heq ▸ hsent))
      · rw [heq] at hsent
        rcases List.mem_append.mp hsent with hold | hnew
        · exact .inl (.inr hold)
        · obtain ⟨rfl, rfl⟩ := Prod.mk.inj (List.mem_singleton.mp hnew)
          exact .inl (.inl (hp ▸ Cause.mem_used hcause))
  rcases hsent with htold | hp'
  · exact .inl htold
  · cases mv with
    | run i ch =>
        obtain ⟨x, e, others, -, hexec, hp, -, hp''⟩ := Program.step_run hstep
        rw [hp''] at hp'
        rcases Multiset.mem_add.mp hp' with hmade | hother
        · exact absurd hmade (exec_not_active hexec)
        · exact .inl (.inl (hp ▸ Multiset.mem_cons_of_mem hother))
    | enter ev =>
        obtain ⟨e, henter, -, hp''⟩ := Program.step_enter hstep
        rw [hp''] at hp'
        rcases Multiset.mem_add.mp hp' with hmade | hother
        · obtain ⟨queued, rest, entry, rfl, hserv, hheld, -⟩ := enter_active henter hmade
          exact .inr ⟨queued, rest, entry, rfl, hserv, hheld⟩
        · exact .inl (.inl hother)

/-! ## True acknowledgements

The condition is on the request and the table it finds, and it is exact for each move. -/

theorem ledger_of_run {G : Guard Shared Section Choice BridgeEntry} {s : State Shared Section}
    (h : Run (bridge limit) G start s) :
    Ledger s.shared s.pending ∧ ∀ c, (s.shared.conns c).subs.Within limit :=
  ledger_and_of_run (J := fun sh _ => ∀ c, (sh.conns c).subs.Within limit) (fun _ => .nil)
    (fun _ hW _ hact => hact.within hW) h

theorem trueAck_of_admits {s s' : State Shared Section} {mv : Move Choice BridgeEntry}
    (hW : ∀ c, (s.shared.conns c).subs.Within limit)
    (hstep : (bridge limit).step s mv = some s') (hok : sameTarget.Admits s mv) : TrueAck s s' := by
  intro c id key hadd
  obtain ⟨queued, rest, entry, rfl, hserv, hheld, hconns⟩ := step_active hstep hadd
  obtain rfl := hok queued c id key rest entry rfl hserv hheld
  have hmem : (id, entry) ∈ (s.shared.conns c).subs := (hW c).mem_iff.mpr hheld
  exact ⟨entry.owner, hmem, by rw [hconns]; exact hmem⟩

theorem admits_of_trueAck {s s' : State Shared Section} {mv : Move Choice BridgeEntry}
    (hW : ∀ c, (s.shared.conns c).subs.Within limit)
    (hstep : (bridge limit).step s mv = some s') (htrue : TrueAck s s') :
    sameTarget.Admits s mv := by
  cases mv with
  | run i ch => exact fun _ _ => trivial
  | enter ev =>
      rintro queued c id key rest entry rfl hserv hheld
      obtain ⟨e, henter, -, hp'⟩ := Program.step_enter hstep
      have hadd : s'.pending = .send c (.active id key) ::ₘ s.pending := by
        simp only [bridge, enter, serve, hserv, Option.some.injEq, subscribe_taken hheld] at henter
        subst henter
        exact hp'
      obtain ⟨owner, hmem, -⟩ := htrue c id key hadd
      have heq : some entry = some ⟨key, owner⟩ := hheld.symm.trans ((hW c).mem_iff.mp hmem)
      cases heq
      rfl

/-- **An "active" acknowledgement is true, if the request repeats its target.** A move of a run
acknowledges as active what the connection's table holds if and only if a subscribe whose client id
is in the table asks for the module and the event of its entry. In a run of such moves, whatever a
client is ever told to be active was claimed for its connection, with that client id, module and
event. -/
theorem active_true {s : State Shared Section} (h : Run (bridge limit) Guard.any start s) :
    (∀ mv s', (bridge limit).step s mv = some s' → (TrueAck s s' ↔ sameTarget.Admits s mv)) ∧
    (Run (bridge limit) sameTarget start s → ∀ c id key, Told s c id key →
      ∃ owner, s.shared.claimed owner = some ⟨owner, c, id, key⟩) := by
  refine ⟨fun mv s' hstep => ?_, fun hrun => ?_⟩
  · obtain ⟨-, hW⟩ := ledger_of_run h
    exact ⟨admits_of_trueAck hW hstep, trueAck_of_admits hW hstep⟩
  · clear h
    induction hrun with
    | start =>
        rintro c id key (hp | hsent)
        · exact absurd hp (Multiset.notMem_zero _)
        · cases hsent
    | @move s s' mv hrun hok hstep ih =>
        intro c id key htold
        obtain ⟨hL, -⟩ := ledger_of_run hrun
        have hmono : ∀ {o sub}, s.shared.claimed o = some sub → s'.shared.claimed o = some sub := by
          intro o sub ho
          obtain ⟨cause, made, others, -, hp, -, hact⟩ := step_act hstep
          exact hL.known.claimed_mono hact ho
        rcases step_told hstep htold with hold | ⟨queued, rest, entry, rfl, hserv, hheld⟩
        · obtain ⟨owner, hclaim⟩ := ih c id key hold
          exact ⟨owner, hmono hclaim⟩
        · obtain rfl := hok queued c id key rest entry rfl hserv hheld
          exact ⟨entry.owner, hmono (hL.known.entry c id entry hheld)⟩

/-- The WebSocket of `subscribed` subscribes to `key` with the id it has used. -/
def resubscribing (key : Key) : List (Move Choice BridgeEntry) :=
  subscribed ++ [.run 5 {}, .enter (.body 0 [.subscribe (str "s") key])]

theorem active_true_resubscribed :
    ∃ s, Run (bridge 1) sameTarget start s ∧ Told s 0 (str "s") someEvent ∧
      ∃ owner, s.shared.claimed owner = some ⟨owner, 0, str "s", someEvent⟩ := by
  obtain ⟨s, hs⟩ : ∃ s, (bridge 1).replayUnder sameTarget start
      (resubscribing someEvent ++ [.enter (.serve true)]) = some s := ⟨_, rfl⟩
  have hrun := Run.start.replayUnder hs
  have htold : Told s 0 (str "s") someEvent := by
    cases hs
    exact .inl (Multiset.mem_coe.mpr (List.mem_singleton_self _))
  exact ⟨s, hrun, htold, (active_true hrun.toAny).2 hrun 0 (str "s") someEvent htold⟩

def otherEvent : Key := ⟨str "m", str "f"⟩

/-- **An "active" acknowledgement can be false.** A client that subscribes to another event with an
id it holds is told that it is subscribed to that event. -/
theorem not_active_true :
    ¬ ∀ s, Run (bridge 1) Guard.any start s → ∀ mv s',
      (bridge 1).step s mv = some s' → TrueAck s s' := by
  intro htrue
  obtain ⟨s, hs⟩ : ∃ s, (bridge 1).replay start (resubscribing otherEvent) = some s := ⟨_, rfl⟩
  obtain ⟨s', hstep⟩ : ∃ s', (bridge 1).step s (.enter (.serve true)) = some s' := by
    cases hs
    exact ⟨_, rfl⟩
  have hack := htrue s (Run.replay .start hs) _ s' hstep 0 (str "s") otherEvent
  have hsubs : (s.shared.conns 0).subs = [(str "s", ⟨someEvent, 1⟩)] := by
    cases hs
    rfl
  obtain ⟨owner, hmem, -⟩ := hack (by cases hs; cases hstep; rfl)
  rw [hsubs] at hmem
  have hkey : otherEvent = someEvent := congrArg (·.2.key) (List.mem_singleton.mp hmem)
  exact absurd hkey (by decide)

end JsonRpcBridge.Subscriptions
