import JsonRpcBridge.Subscriptions.Endings

/-!
# The last word about a subscription

The answers and notices about a client id are sent by different threads. A client takes the last one
it was sent for the truth: `registered`, or terminated.

* `last_word_true`: it is the truth, in every run in which a subscription is ended only after its
  `registered` was sent, `registered` is sent only after the notices about its predecessors, and an
  entry of the hub is erased with no other subscriber in it.
* `not_last_word_true`: in general it need not be.
-/

namespace JsonRpcBridge.Subscriptions

open Interleaving Upstream

variable {limit : Int} {sh sh' : Shared} {cause : Cause} {made : List Section}

/-! ## The last word

The last message about a client id on its connection, and what it claims. While a message is on
its way, or an operation about the id is going on, the client cannot have been told yet. -/

/-- The client id a frame says something about, an event apart. -/
def Message.about? : Message → Option ClientId
  | .registered sub | .terminated sub _ _ => some sub.clientId
  | .active id _ | .unsubscribed id _ => some id
  | .refused _ | .event .. => none

/-- The last frame about `id` sent on connection `c`. -/
def lastWord (sent : List (Nat × Message)) (c : Nat) (id : ClientId) : Option Message :=
  (sent.reverse.find? fun y => y.1 == c && y.2.about? == some id).map (·.2)

theorem lastWord_append {sent : List (Nat × Message)} {c c' : Nat} {m : Message} {id : ClientId} :
    lastWord (sent ++ [(c', m)]) c id =
      if c' = c ∧ m.about? = some id then some m else lastWord sent c id := by
  unfold lastWord
  rw [List.reverse_append, List.reverse_singleton, List.singleton_append, List.find?_cons]
  by_cases h : c' = c ∧ m.about? = some id
  · simp [h]
  · have hnot : (c' == c && m.about? == some id) = false := by
      simpa using h
    simp [h, hnot]

theorem mem_of_lastWord {sent : List (Nat × Message)} {c : Nat} {id : ClientId} {m : Message}
    (h : lastWord sent c id = some m) : (c, m) ∈ sent ∧ m.about? = some id := by
  obtain ⟨⟨c', m'⟩, hfind, rfl⟩ := Option.map_eq_some_iff.mp h
  have hmem := List.mem_of_find?_eq_some hfind
  have habout := List.find?_some hfind
  simp only [Bool.and_eq_true, beq_iff_eq] at habout
  obtain ⟨rfl, habout⟩ := habout
  exact ⟨List.mem_reverse.mp hmem, habout⟩

/-- The connection is an open WebSocket. -/
def Open (sh : Shared) (c : Nat) : Prop :=
  sh.attached c = true ∧ (sh.conns c).isWebsocket = true

/-- The client id a section is about, and on which connection. -/
def Section.about? : Section → Option (Nat × ClientId)
  | .hub x => x.op?.map fun sub => (sub.conn, sub.clientId)
  | .dropSubscriber sub | .releaseKey sub | .release sub _ _ => some (sub.conn, sub.clientId)
  | .send c m => m.about?.map fun id => (c, id)

/-- No subscribe, loss or unsubscribe of `id` is in progress on connection `c`, up to the answer or
the notice it sends. -/
structure Quiet (sh : Shared) (p : Multiset Section) (c : Nat) (id : ClientId) : Prop where
  serving : ∀ sub, sh.service.sub? = some sub → (sub.conn, sub.clientId) ≠ (c, id)
  pending : ∀ x ∈ p, x.about? ≠ some (c, id)
  losing : ∀ o key why, .hub (.onLost o key why) ∈ p →
    ∀ sub, sh.claimed o = some sub → (sub.conn, sub.clientId) ≠ (c, id)

/-- The last word about a client id of an open WebSocket connection is true once nothing about it is
in progress. -/
def LastWordTrue (sh : Shared) (p : Multiset Section) : Prop :=
  ∀ c id, Open sh c → Quiet sh p c id →
    (∀ sub, lastWord sh.sent c id = some (.registered sub) →
      sh.held c id = some ⟨sub.key, sub.owner⟩ ∧ sh.subscribers sub.owner = some sub ∧
        sub.owner ∈ sh.hub.members sub.key) ∧
    ∀ sub key why, lastWord sh.sent c id = some (.terminated sub key why) →
      sh.held c id = none ∧ sh.subscribers sub.owner = none ∧
        ∀ key, sub.owner ∉ sh.hub.members key

/-- The subscription whose loss is noticed, or about to be. -/
def Section.notice? : Section → Option Subscription
  | .release sub _ _ => some sub
  | .send _ (.terminated sub _ _) => some sub
  | _ => none

/-! ### The order of sends -/

/-- On open WebSocket connections: a loss or an unsubscribe takes a subscription only after its
`registered` was sent; `registered` is sent only when no notice about another subscription of the
same client id is still to be sent; and a failed `add` erases an entry only if no subscriber but its
own is in it. -/
def inOrder : Guard Shared Section Choice BridgeEntry where
  run sh p x _ :=
    (∀ o key why sub, x = .hub (.onLost o key why) → sh.subscribers o = some sub →
      Open sh sub.conn → (sub.conn, .registered sub) ∈ sh.sent) ∧
    (∀ c sub, x = .send c (.registered sub) → Open sh sub.conn → ∀ y ∈ p, ∀ s,
      y.notice? = some s → s.conn = sub.conn → s.clientId = sub.clientId → s = sub) ∧
    ∀ k key id a, x = .hub (.undo k key id a) → (Pc.undo k key id a).change sh.hub = .empty key →
      ∀ o ∈ sh.hub.roster key, ∀ sub, sh.claimed o = some sub → Open sh sub.conn → o = id
  enter sh _ ev := ∀ queued c id rest, ev = .serve queued →
    sh.service = .requests c (.unsubscribe id :: rest) → Open sh c →
    ∀ e, sh.held c id = some e → (c, .registered ⟨e.owner, c, id, e.key⟩) ∈ sh.sent

instance (sh : Shared) (c : Nat) : Decidable (Open sh c) :=
  (inferInstance : Decidable (sh.attached c = true ∧ (sh.conns c).isWebsocket = true))

instance (sent : List (Nat × Message)) (c : Nat) (sub : Subscription) :
    Decidable ((c, Message.registered sub) ∈ sent) :=
  decidable_of_iff (∃ y ∈ sent, y.1 = c ∧ y.2.acked? = some sub) <| by
    constructor
    · rintro ⟨⟨_, m⟩, hmem, rfl, hack⟩
      cases m with
      | registered s =>
          cases hack
          exact hmem
      | _ => cases hack
    · exact fun h => ⟨_, h, rfl, rfl⟩

instance : inOrder.Decided where
  run sh p x _ := by
    induction x using Section.casesOn with
    | hub y =>
        induction y using Upstream.Pc.casesOn with
        | onLost o key why =>
            exact decidable_of_iff (∀ sub ∈ sh.subscribers o, Open sh sub.conn →
              (sub.conn, .registered sub) ∈ sh.sent)
              ⟨fun h => ⟨by rintro _ _ _ sub ⟨⟩; exact h sub, by rintro _ _ ⟨⟩,
                by rintro _ _ _ _ ⟨⟩⟩, fun h sub => h.1 o key why sub rfl⟩
        | undo k key id a =>
            exact decidable_of_iff ((Pc.undo k key id a).change sh.hub = .empty key →
              ∀ o ∈ sh.hub.members key, ∀ sub ∈ sh.claimed o, Open sh sub.conn → o = id)
              ⟨fun h => ⟨by rintro _ _ _ _ ⟨⟩, by rintro _ _ ⟨⟩, by rintro _ _ _ _ ⟨⟩; exact h⟩,
                fun h => h.2.2 k key id a rfl⟩
        | _ => exact isTrue ⟨by rintro _ _ _ _ ⟨⟩, by rintro _ _ ⟨⟩, by rintro _ _ _ _ ⟨⟩⟩
    | send c m =>
        induction m using Message.casesOn with
        | registered sub =>
            exact decidable_of_iff (Open sh sub.conn → ∀ y ∈ p, ∀ s ∈ y.notice?,
              s.conn = sub.conn → s.clientId = sub.clientId → s = sub)
              ⟨fun h => ⟨by rintro _ _ _ _ ⟨⟩, by rintro _ _ ⟨⟩; exact h, by rintro _ _ _ _ ⟨⟩⟩,
                fun h => h.2.1 c sub rfl⟩
        | _ => exact isTrue ⟨by rintro _ _ _ _ ⟨⟩, by rintro _ _ ⟨⟩, by rintro _ _ _ _ ⟨⟩⟩
    | _ => exact isTrue ⟨by rintro _ _ _ _ ⟨⟩, by rintro _ _ ⟨⟩, by rintro _ _ _ _ ⟨⟩⟩
  enter sh _ ev :=
    match hnext : sh.service.next? with
    | some (c, .unsubscribe id) =>
      decidable_of_iff (ev.serves = true → Open sh c → ∀ e ∈ sh.held c id,
        (c, .registered ⟨e.owner, c, id, e.key⟩) ∈ sh.sent) <| by
        obtain ⟨rest, hserv⟩ := Service.next?_eq_some.mp hnext
        constructor
        · rintro h _ _ _ _ rfl hserv'
          cases hserv.symm.trans hserv'
          exact h rfl
        · intro h hserves
          cases ev with
          | serve queued => exact h queued c id rest rfl hserv
          | _ => cases hserves
    | some (_, .subscribe _ _) | none => isTrue <| by
        rintro _ _ _ rest rfl hserv
        cases hnext.symm.trans (Service.next?_eq_some.mpr ⟨rest, hserv⟩)

/-! ## What is promised

A subscription whose `registered` was sent holds everywhere, or its end has begun and a notice
will follow. -/

/-- The table and `m_subscribers` hold the subscription. -/
structure Holds (sh : Shared) (sub : Subscription) : Prop where
  held : sh.held sub.conn sub.clientId = some ⟨sub.key, sub.owner⟩
  subscriber : sh.subscribers sub.owner = some sub

/-- The hub has the subscriber, or is telling its loss. -/
def OnHub (sh : Shared) (p : Multiset Section) (sub : Subscription) : Prop :=
  sub.owner ∈ sh.hub.roster sub.key ∨ ∃ key why, .hub (.onLost sub.owner key why) ∈ p

/-- An unsubscribe or a loss of the subscription is in progress. -/
inductive Ending (sh : Shared) (p : Multiset Section) (sub : Subscription) : Prop
  | forgetting {rest : List Request} (h : sh.service = .forget sub rest)
  | unhooking {rest : List Request} (h : sh.service = .unhook sub rest)
  | releasing {key : Key} {why : Bytes} (h : .release sub key why ∈ p)
  | telling {c : Nat} {m : Message} (h : .send c m ∈ p) (hm : m.ended? = some sub)

/-- The subscription of an `add` that has joined an entry and has not failed. -/
def Section.joined? : Section → Option Subscription
  | .hub (.added sub true) => some sub
  | .hub x => x.binder?.bind Binder.op?
  | .send _ m => m.acked?
  | _ => none

/-- A frame about a subscription goes to its connection, under its client id. -/
def Message.Addressed (m : Message) (c : Nat) : Prop :=
  ∀ sub, m.sub? = some sub → c = sub.conn ∧ ∀ id, m.about? = some id → id = sub.clientId

structure WordInv (sh : Shared) (p : Multiset Section) : Prop where
  addressed : ∀ c m, .send c m ∈ p → m.Addressed c
  sent : ∀ y ∈ sh.sent, y.2.Addressed y.1
  submitting : ∀ sub rest, sh.service = .submit sub rest → Open sh sub.conn → Holds sh sub
  waiting : ∀ x ∈ p, ∀ sub, x.waiting? = some sub → Open sh sub.conn → Holds sh sub
  joined : ∀ x ∈ p, ∀ sub, x.joined? = some sub → Open sh sub.conn → Holds sh sub ∧ OnHub sh p sub
  acked : ∀ c sub, (c, .registered sub) ∈ sh.sent → Open sh sub.conn →
    (Holds sh sub ∧ OnHub sh p sub) ∨ Ending sh p sub ∨
      lastWord sh.sent sub.conn sub.clientId ≠ some (.registered sub)
  entry : ∀ c sub, (c, .registered sub) ∈ sh.sent → Open sh sub.conn →
    sh.held sub.conn sub.clientId = some ⟨sub.key, sub.owner⟩ →
    (∀ x ∈ p, ∀ s, x.notice? = some s → s.conn = sub.conn → s.clientId = sub.clientId → s = sub) ∧
      ∀ s key why, lastWord sh.sent sub.conn sub.clientId ≠ some (.terminated s key why)

/-! ## What a move adds

Where notices and joins come from. -/

theorem Act.of_open (h : Act limit sh cause sh' made) {c : Nat} (hc : c < sh.nextConn)
    (hopen : Open sh' c) : Open sh c := by
  obtain ⟨_, hsock, hws⟩ := h.conn hc
  refine ⟨?_, hws ▸ hopen.2⟩
  have hatt : sh'.current (sh.conns c).socket = some c := hsock ▸ eq_of_beq hopen.1
  have hkeep : ∀ socket, Function.update sh.current socket none (sh.conns c).socket = some c →
      sh.current (sh.conns c).socket = some c := by
    intro socket hatt
    by_cases hs : (sh.conns c).socket = socket
    · rw [hs, Function.update_self] at hatt
      cases hatt
    · rwa [Function.update_of_ne hs] at hatt
  refine beq_iff_eq.mpr ?_
  cases h with
  | @attach socket _ _ _ _ =>
      by_cases hs : (sh.conns c).socket = socket
      · simp only [hs, Function.update_self, Option.some.injEq] at hatt
        exact absurd hatt.symm (Nat.ne_of_lt hc)
      · simpa only [Function.update_of_ne hs] using hatt
  | detachWebsocket | detachHttp => exact hkeep _ hatt
  | _ => exact hatt

theorem Act.unhook_step (h : Act limit sh cause sh' made) {sub : Subscription}
    {rest : List Request} (hserv : sh.service = .unhook sub rest) :
    sh'.service = .unhook sub rest ∨
      .send sub.conn (.unsubscribed sub.clientId (some sub)) ∈ made := by
  cases h with
  | unhook hs =>
      cases hserv.symm.trans hs
      exact .inr (List.mem_singleton_self _)
  | finish hs | answer hs | claim hs | take hs | register hs | submit hs | refuse hs
  | dropRefused hs | releaseRefused hs | forget hs | sweep hs | unhookNext hs | close hs | body hs
  | detachWebsocket hs | attach hs | detachHttp hs => cases hserv.symm.trans hs
  | _ => exact .inl hserv

/-- The loss of a subscriber on an attached connection goes on to its table. -/
theorem Act.release_of_lost {o : Nat} {key : Key} {why : Bytes} {sub : Subscription}
    (h : Act limit sh (.run (.hub (.onLost o key why))) sh' made)
    (hsub : sh.subscribers o = some sub) (hatt : sh.attached sub.conn = true) :
    .release sub key why ∈ made := by
  cases h with
  | hub hx => cases hx
  | lostUnknown hnone => cases hnone.symm.trans hsub
  | lostUnattached hsub' hconn =>
      cases hsub'.symm.trans hsub
      cases hconn.symm.trans hatt
  | lost hsub' =>
      cases hsub'.symm.trans hsub
      exact List.mem_singleton_self _

/-- A loss is told to every subscriber of its entry. -/
theorem Act.told_of_lost {key : Key} {why : Bytes}
    (h : Act limit sh (.run (.hub (.lost key why))) sh' made) {o : Nat}
    (ho : o ∈ sh.hub.roster key) : ∃ k, .hub (.onLost o k why) ∈ made := by
  cases h with
  | hub _ hexec =>
      simp only [Hub.exec] at hexec
      replace ho : o ∈ sh.hub.members key := ho
      unfold Hub.members at ho
      split at hexec <;> cases hexec
      · rename_i hfind
        rw [hfind] at ho
        cases ho
      · rename_i a hfind
        rw [hfind] at ho
        exact ⟨_, List.mem_map_of_mem (List.mem_map_of_mem ho)⟩

theorem Message.notice?_of_sub? {c : Nat} {m : Message} (h : m.sub? = none) :
    (Section.send c m).notice? = none := by
  cases m with
  | terminated => cases h
  | _ => rfl

/-- A notice begins with the loss of a registered subscriber, and is sent after the release. -/
theorem Act.notice_of_made (h : Act limit sh cause sh' made) {y : Section} (hy : y ∈ made)
    {sub : Subscription} (hn : y.notice? = some sub) :
    (∃ o, sh.subscribers o = some sub) ∨ ∃ key why, cause = .run (.release sub key why) := by
  cases h with
  | hub hx hexec =>
      obtain ⟨z, _, rfl⟩ := List.mem_map.mp hy
      cases hn
  | lost hsub =>
      rw [List.mem_singleton.mp hy] at hn
      cases hn
      exact .inl ⟨_, hsub⟩
  | release =>
      rw [List.mem_singleton.mp hy] at hn
      cases hn
      exact .inr ⟨_, _, rfl⟩
  | answer hs hm hsub =>
      rw [List.mem_singleton.mp hy] at hn
      cases (Message.notice?_of_sub? hsub).symm.trans hn
  | outside hmade =>
      obtain ⟨x, rfl, _⟩ := hmade y hy
      cases hn
  | joined | failed | heard | dropSubscriber | releaseKey | submit | releaseRefused | unhook =>
      rw [List.mem_singleton.mp hy] at hn
      cases hn
  | _ => cases hy

theorem Section.joined?_of_binder {x : Pc Subscription} {w : Binder Subscription}
    (h : x.binder? = some w) : (Section.hub x).joined? = w.op? := by
  cases x with
  | lease | check | watch | subscribe | invalid | commit | recheck =>
      cases h
      rfl
  | _ => cases h

theorem Section.token?_of_joined {x : Section} {sub : Subscription} (h : x.joined? = some sub) :
    x.token? = some sub := by
  cases x with
  | hub z =>
      cases z with
      | added s ok =>
          cases ok with
          | true => exact h
          | false => cases h
      | lease | check | watch | subscribe | invalid | commit | recheck => exact h
      | _ => cases h
  | send => exact h
  | _ => cases h

/-- An `add` that joins goes on as one that has joined. -/
theorem Act.joined_of_made (h : Act limit sh cause sh' made) {y : Section} (hy : y ∈ made)
    {sub : Subscription} (hj : y.joined? = some sub) :
    (∃ x, cause = .run x ∧ x.joined? = some sub) ∨
      ∃ key id, cause = .run (.hub (.add sub key id)) ∧ sh.hub.closed = false := by
  cases y with
  | hub z =>
      rcases h.hub_of_made hy with ⟨x, rfl, hfollows⟩ | ⟨_, _, _, rfl⟩ | hplain
      -- an `add` has joined when `bind` starts, and goes on through it
      · cases hfollows with
        | binding hx hz =>
            rw [Section.joined?_of_binder hz] at hj
            exact .inl ⟨_, rfl, (Section.joined?_of_binder hx).trans hj⟩
        | bound hx =>
            cases hj
            exact .inl ⟨_, rfl, Section.joined?_of_binder hx⟩
        | create hopen | join hopen =>
            cases hj
            exact .inr ⟨_, _, rfl, hopen⟩
        | unbound | refuse | undone | told => cases hj
        | plain hz =>
            have htok : z.op? = some sub := Section.token?_of_joined hj
            cases (Pc.op?_of_plain hz).symm.trans htok
      · cases hj
      · have htok : z.op? = some sub := Section.token?_of_joined hj
        cases (Pc.op?_of_plain hplain).symm.trans htok
  | send c m =>
      cases m with
      | registered s =>
          cases hj
          cases h with
          | joined =>
              cases List.mem_singleton.mp hy
              exact .inl ⟨_, rfl, rfl⟩
          | hub hx hexec =>
              obtain ⟨z, _, hz⟩ := List.mem_map.mp hy
              cases hz
          | outside hmade =>
              obtain ⟨x, hx, _⟩ := hmade _ hy
              cases hx
          | answer hs hm hsub =>
              cases List.mem_singleton.mp hy
              cases hsub
          | _ => simp at hy
      | _ => cases hj
  | _ => cases hj

theorem Act.addressed_of_made (h : Act limit sh cause sh' made) {c : Nat} {m : Message}
    (hy : .send c m ∈ made) : m.Addressed c := by
  cases h with
  | hub hx hexec =>
      obtain ⟨z, _, hz⟩ := List.mem_map.mp hy
      cases hz
  | outside hmade =>
      obtain ⟨x, hx, _⟩ := hmade _ hy
      cases hx
  | answer hs hm hsub =>
      cases List.mem_singleton.mp hy
      intro sub hsub'
      cases hsub.symm.trans hsub'
  | joined | heard | release | unhook =>
      cases List.mem_singleton.mp hy
      intro sub hsub
      cases hsub
      exact ⟨rfl, fun id hid => by cases hid <;> rfl⟩
  | releaseKey | releaseRefused =>
      cases List.mem_singleton.mp hy
      intro sub hsub
      cases hsub
  | failed | lost | dropSubscriber | submit => cases List.mem_singleton.mp hy
  | _ => cases hy

/-! ## One subscription through a move

What holds stays, unless the move ends the subscription; and an end that has begun goes on. -/

section
variable {others : Multiset Section} {sub : Subscription}

/-- The move is no part of giving the subscription up. -/
structure NotFailing (sh : Shared) (cause : Cause) (sub : Subscription) : Prop where
  drop : cause ≠ .run (.dropSubscriber sub)
  refuse : ∀ rest, sh.service ≠ .dropSubscriber sub rest
  undo : ∀ key id a, cause ≠ .run (.hub (.undo sub key id a))

theorem NotFailing.of_pending (hN : Counted sh (cause.used + others)) {y : Section}
    (hy : y ∈ others) (htok : y.token? = some sub) : NotFailing sh cause sub := by
  have hserv := (hN.pending_unique (Multiset.mem_add.mpr (.inr hy)) htok).1
  refine ⟨?_, fun rest hs => hserv (by rw [hs]; rfl), fun key id a => ?_⟩
  · rintro rfl
    exact (hN.run_unique (x := .dropSubscriber sub) rfl).2.2 y hy htok
  · rintro rfl
    exact (hN.run_unique (x := .hub (.undo sub key id a)) rfl).2.2 y hy htok

theorem NotFailing.of_joined {x : Section} (hN : Counted sh ((Cause.run x).used + others))
    (hj : x.joined? = some sub) : NotFailing sh (.run x) sub := by
  have hserv := (hN.run_unique (Section.token?_of_joined hj)).1
  refine ⟨?_, fun rest hs => hserv (by rw [hs]; rfl), fun key id a => ?_⟩
  · rintro hx
    cases hx
    cases hj
  · rintro hx
    cases hx
    cases hj

theorem NotFailing.of_acked (hN : Counted sh (cause.used + others)) {y : Nat × Message}
    (hy : y ∈ sh.sent) (hack : y.2.acked? = some sub) : NotFailing sh cause sub := by
  refine ⟨?_, fun rest hs => ?_, fun key id a => ?_⟩
  · rintro rfl
    exact (hN.run_unique (x := .dropSubscriber sub) rfl).2.1 y hy hack
  · exact hN.serving_unique (by rw [hs]; rfl) y hy hack
  · rintro rfl
    exact (hN.run_unique (x := .hub (.undo sub key id a)) rfl).2.1 y hy hack

theorem claimed_unique {s : Subscription}
    (hs : sh.claimed s.owner = some s) (hsub : sh.claimed sub.owner = some sub)
    (ho : s.owner = sub.owner) : s = sub :=
  Option.some.inj (hs.symm.trans (ho ▸ hsub))

/-! ### Holding, on the hub, ending -/

/-- What is held stays held, or a loss or an unsubscribe takes it after its `registered` was
sent. -/
theorem Holds.step (hH : Holds sh sub) (hL : Ledger sh (cause.used + others))
    (hok : Allows inOrder sh (cause.used + others) cause) (h : Act limit sh cause sh' made)
    (hclaim : sh.claimed sub.owner = some sub) (hnf : NotFailing sh cause sub)
    (hopen : Open sh sub.conn) : Holds sh' sub ∨
      (sub.conn, .registered sub) ∈ sh.sent ∧ Ending sh' (↑made + others) sub := by
  have heq : ∀ {s : Subscription}, sh.claimed s.owner = some s → s.owner = sub.owner → s = sub :=
    fun hs ho => claimed_unique hs hclaim ho
  -- who may take it out of `m_subscribers`: a loss, or an end that has been excluded
  have hsubs : sh'.subscribers sub.owner = some sub ∨
      (sub.conn, .registered sub) ∈ sh.sent ∧ Ending sh' (↑made + others) sub := by
    rcases h.subscribers hH.subscriber with hkeep | ⟨s, rest, hserv, howner, hnew⟩ | ⟨_, herases⟩
    · exact .inl hkeep
    · obtain rfl := heq (hL.known.serving s (by rw [hserv]; rfl)) howner
      exact .inl hnew
    · cases herases with
      | lost =>
          obtain ⟨_, hlost, _⟩ := hok
          have hrelease := h.release_of_lost hH.subscriber hopen.1
          exact .inr ⟨hlost _ _ _ sub rfl hH.subscriber hopen,
            .releasing (Multiset.mem_add.mpr (.inl (Multiset.mem_coe.mpr hrelease)))⟩
      | @failed s _ ho =>
          obtain rfl := heq (hL.known.pending _ (Cause.mem_run _ _) s rfl) ho
          exact absurd rfl hnf.drop
      | refused hs ho =>
          obtain rfl := heq (hL.known.serving _ (by rw [hs]; rfl)) ho
          exact absurd hs (hnf.refuse _)
      | unsubscribed hs _ ho =>
          obtain rfl := heq (hL.known.serving _ (by rw [hs]; rfl)) ho
          -- an unsubscribe frees the client id first
          cases (hL.tabled.forgetting _ _ hs).symm.trans hH.held
      | closed hs _ =>
          obtain ⟨_, hsock⟩ := hL.conns.sweeping _ _ hs
          obtain ⟨hnone, _⟩ := hL.conns.closing _ (by rw [hs]; rfl)
          have hatt : sh.current (sh.conns sub.conn).socket = some sub.conn := eq_of_beq hopen.1
          rw [hsock, hnone] at hatt
          cases hatt
  rcases hsubs with hsubs | hending
  · rcases h.held hH.held (hL.conns.claimed _ sub hclaim) with hkeep | ⟨_, hfrees⟩
    · exact .inl ⟨hkeep, hsubs⟩
    · rcases hfrees.dead hL.ended with hdead | ⟨queued, rest, rfl, hserv, hserv'⟩
      · cases hdead.subscribers.symm.trans hH.subscriber
      · exact .inr ⟨hok queued _ _ rest rfl hserv hopen _ hH.held, .forgetting hserv'⟩
  · exact .inr hending

/-- The hub keeps the subscriber, or takes it to tell its loss. -/
theorem OnHub.step (hO : OnHub sh (cause.used + others) sub)
    (hL : Ledger sh (cause.used + others)) (hok : Allows inOrder sh (cause.used + others) cause)
    (h : Act limit sh cause sh' made) (hclaim : sh.claimed sub.owner = some sub)
    (hnf : NotFailing sh cause sub) (hopen : Open sh sub.conn)
    (hsub : sh.subscribers sub.owner = some sub) (hsub' : sh'.subscribers sub.owner = some sub) :
    OnHub sh' (↑made + others) sub := by
  -- it is in `m_subscribers`, so nobody has begun to take it out of the hub
  have hnotEnded : sub.owner ∉ sh.service.ended := by
    intro hmem
    cases (hL.ended _ (.serving hmem)).subscribers.symm.trans hsub
  rcases hO with ho | ⟨key, why, hmem⟩
  · obtain ⟨_, change, hby, hroster⟩ := h.roster hL.known.filed
    by_cases hdrop : change.Drops sub.key sub.owner
    · cases hby with
      | same => exact hdrop.elim
      | @run x _ hx =>
          have hown := hL.known.own x (Cause.mem_run _ others)
          cases x with
          | add k key id =>
              simp only [Pc.change] at hdrop
              split at hdrop <;> exact hdrop.elim
          | undo k key id a =>
              -- a failed `add` that takes the whole entry with it takes only its own subscriber, by
              -- the guard
              have hempty : (Pc.undo k key id a).change sh.hub = .empty key := by
                simp only [Pc.change] at hdrop ⊢
                split at hdrop
                · rename_i hcond
                  exact if_pos hcond
                · exact hdrop.elim
              rw [hempty] at hdrop
              obtain rfl : key = sub.key := hdrop
              obtain ⟨_, _, _, hundo⟩ := hok
              have hid := hundo k _ id a rfl hempty _ ho sub hclaim hopen
              have hk := hL.known.pending _ (Cause.mem_run _ others) k rfl
              obtain rfl := claimed_unique hk hclaim (hown.2.symm.trans hid.symm)
              exact absurd rfl (hnf.undo _ _ _)
          | lost key why =>
              obtain rfl : key = sub.key := hdrop
              obtain ⟨k, htold⟩ := h.told_of_lost ho
              exact .inr ⟨k, why, Multiset.mem_add.mpr (.inl (Multiset.mem_coe.mpr htold))⟩
          | remove | removeEverywhere => exact hown.elim
          | _ => exact absurd hdrop (by simp [Pc.change, Change.Drops])
      | unhook hs =>
          obtain ⟨_, ho'⟩ := hdrop
          refine absurd ?_ hnotEnded
          rw [hs, ← ho']
          exact List.mem_singleton_self _
      | unhookNext hs =>
          refine absurd ?_ hnotEnded
          rw [hs, ← show _ = sub.owner from hdrop]
          exact List.mem_cons_self
    · exact .inl (hroster ▸ Change.mem_apply ho hdrop)
  · rcases Multiset.mem_add.mp hmem with hmem | hmem
    · cases cause with
      | call ev => exact absurd hmem (Multiset.notMem_zero _)
      | run x =>
          obtain rfl : Section.hub (.onLost sub.owner key why) = x := Multiset.mem_singleton.mp hmem
          cases h with
          | hub hx => cases hx
          | lostUnknown hnone => cases hnone.symm.trans hsub
          | lostUnattached | lost => cases Shared.eraseSubscriber_self.symm.trans hsub'
    · exact .inr ⟨key, why, Multiset.mem_add.mpr (.inr hmem)⟩

/-- What is ending goes on, until its end has been the last word. -/
theorem Ending.step (hE : Ending sh (cause.used + others) sub)
    (haddr : ∀ c m, .send c m ∈ cause.used + others → m.Addressed c)
    (h : Act limit sh cause sh' made) : Ending sh' (↑made + others) sub ∨
      lastWord sh'.sent sub.conn sub.clientId ≠ some (.registered sub) := by
  have hmade : ∀ {y : Section}, y ∈ made → y ∈ (↑made + others : Multiset Section) :=
    fun hy => Multiset.mem_add.mpr (.inl (Multiset.mem_coe.mpr hy))
  -- forgotten, unhooked and told, or released and told
  cases hE with
  | forgetting hs =>
      rcases h.forget_step hs with hs' | ⟨hs', _⟩
      · exact .inl (.forgetting hs')
      · exact .inl (.unhooking hs')
  | unhooking hs =>
      rcases h.unhook_step hs with hs' | hy
      · exact .inl (.unhooking hs')
      · exact .inl (.telling (hmade hy) rfl)
  | releasing hy =>
      rcases Multiset.mem_add.mp hy with hy | hy
      · cases cause with
        | call ev => exact absurd hy (Multiset.notMem_zero _)
        | run x =>
            obtain rfl := Multiset.mem_singleton.mp hy
            cases h with
            | release => exact .inl (.telling (hmade (List.mem_singleton_self _)) rfl)
      · exact .inl (.releasing (Multiset.mem_add.mpr (.inr hy)))
  | @telling c m hy hm =>
      rcases Multiset.mem_add.mp hy with hy' | hy'
      · cases cause with
        | call ev => exact absurd hy' (Multiset.notMem_zero _)
        | run x =>
            obtain rfl := Multiset.mem_singleton.mp hy'
            obtain ⟨rfl, habout⟩ := haddr c m hy sub (ended_of_message hm)
            right
            cases h with
            | send =>
                have habout' : m.about? = some sub.clientId := by
                  cases m with
                  | terminated => cases hm; rfl
                  | unsubscribed id removed => rw [habout id rfl]; rfl
                  | _ => cases hm
                show lastWord (sh.sent ++ [(sub.conn, m)]) _ _ ≠ _
                rw [lastWord_append, if_pos ⟨rfl, habout'⟩]
                rintro hreg
                cases hreg
                cases hm
      · exact .inl (.telling (Multiset.mem_add.mpr (.inr hy')) hm)

end

/-! ## The invariant through a move

A new message about an id comes after all that was promised of the one before, by the order that
the condition asks for. -/

section
variable {others : Multiset Section} (hL : Ledger sh (cause.used + others))
  (hI : WordInv sh (cause.used + others)) (hok : Allows inOrder sh (cause.used + others) cause)
  (h : Act limit sh cause sh' made)

theorem Act.of_submit (h : Act limit sh cause sh' made) {sub : Subscription} {rest : List Request}
    (hserv : sh'.service = .submit sub rest) : sh.service = .submit sub rest ∨
      sh.service = .register sub rest ∧ sh'.subscribers sub.owner = some sub := by
  cases h with
  | register hs =>
      cases hserv
      exact .inr ⟨hs, by simp⟩
  | finish | answer | claim | take | submit | refuse | dropRefused | releaseRefused | forget
  | unhook | sweep | unhookNext | close | body | detachWebsocket => cases hserv
  | _ => exact .inl hserv

include hL hI hok h

theorem WordInv.submitting_step (sub : Subscription) (rest : List Request)
    (hserv : sh'.service = .submit sub rest) (hopen : Open sh' sub.conn) : Holds sh' sub := by
  have hL' := hL.step h
  rcases h.of_submit hserv with hold | ⟨_, hsub⟩
  · have htok : sh.service.token? = some sub := by rw [hold]; rfl
    have hclaim := hL.known.serving sub (Service.sub?_of_token htok)
    have hopen := h.of_open (hL.conns.claimed _ sub hclaim) hopen
    have hnf : NotFailing sh cause sub := by
      have hne : ∀ x : Section, cause = .run x → x.token? ≠ some sub := by
        rintro x rfl hx
        exact (hL.counted.run_unique hx).1 htok
      refine ⟨fun hc => hne _ hc rfl, fun rest' hs => ?_, fun key id a hc => hne _ hc rfl⟩
      cases hold.symm.trans hs
    rcases (hI.submitting sub rest hold hopen).step hL hok h hclaim hnf hopen with hH | ⟨hack, _⟩
    · exact hH
    · exact absurd rfl (hL.counted.serving_unique htok _ hack)
  · refine ⟨?_, hsub⟩
    rcases hL'.tabled.subscriber _ sub hsub with hheld | ⟨rest', hserv'⟩
    · exact hheld
    · cases hserv.symm.trans hserv'

theorem WordInv.waiting_step (x : Section) (hx : x ∈ (↑made + others : Multiset Section))
    (sub : Subscription) (hw : x.waiting? = some sub) (hopen : Open sh' sub.conn) :
    Holds sh' sub := by
  -- who has a token has not been acknowledged, so what holds of it cannot have ended
  have hstep : ∀ {y : Section}, y ∈ cause.used + others → y.token? = some sub →
      NotFailing sh cause sub → Holds sh sub → Open sh sub.conn → Holds sh' sub := by
    intro y hy htok hnf hH hopen
    have hclaim := hL.known.pending y hy sub (Section.sub?_of_token htok)
    rcases hH.step hL hok h hclaim hnf hopen with hH' | ⟨hack, _⟩
    · exact hH'
    · exact absurd rfl ((hL.counted.pending_unique hy htok).2 _ hack)
  have hconn : ∀ {s : Subscription}, sh.claimed s.owner = some s → Open sh' s.conn →
      Open sh s.conn := fun hs ho => h.of_open (hL.conns.claimed _ _ hs) ho
  rcases Multiset.mem_add.mp hx with hx | hx
  · cases x with
    | hub z =>
        cases z with
        | add s key id =>
            cases hw
            rcases h.hub_of_made hx with ⟨y, _, hfollows⟩ | ⟨s, rest, hserv, heq⟩ | hplain
            · cases hfollows with
              | binding hx hy => cases hy
              | plain hy => cases hy
            · cases heq
              have htok : sh.service.token? = some sub := by rw [hserv]; rfl
              have hclaim := hL.known.serving sub (Service.sub?_of_token htok)
              have hopen := hconn hclaim hopen
              have hne : ∀ y : Section, cause = .run y → y.token? ≠ some sub := by
                rintro y rfl hy
                exact (hL.counted.run_unique hy).1 htok
              have hnf : NotFailing sh cause sub := by
                refine ⟨fun hc => hne _ hc rfl, fun rest' hs => ?_, fun key id a hc => hne _ hc rfl⟩
                cases hserv.symm.trans hs
              rcases (hI.submitting sub rest hserv hopen).step hL hok h hclaim hnf hopen with
                hH | ⟨hack, _⟩
              · exact hH
              · exact absurd rfl (hL.counted.serving_unique htok _ hack)
            · cases hplain
        | _ => cases hw
    | _ => cases hw
  · have hmem : x ∈ cause.used + others := Multiset.mem_add.mpr (.inr hx)
    have htok := Section.token?_of_waiting hw
    have hopen := hconn (hL.known.pending x hmem sub (Section.sub?_of_token htok)) hopen
    exact hstep hmem htok (.of_pending hL.counted hx htok) (hI.waiting x hmem sub hw hopen) hopen

theorem WordInv.joined_step (x : Section) (hx : x ∈ (↑made + others : Multiset Section))
    (sub : Subscription) (hj : x.joined? = some sub) (hopen : Open sh' sub.conn) :
    Holds sh' sub ∧ OnHub sh' (↑made + others) sub := by
  have hstep : ∀ {y : Section}, y ∈ cause.used + others → y.joined? = some sub →
      NotFailing sh cause sub → Holds sh' sub ∧ OnHub sh' (↑made + others) sub := by
    intro y hy hj hnf
    have htok := Section.token?_of_joined hj
    have hclaim := hL.known.pending y hy sub (Section.sub?_of_token htok)
    have hopen := h.of_open (hL.conns.claimed _ _ hclaim) hopen
    obtain ⟨hH, hO⟩ := hI.joined y hy sub hj hopen
    rcases hH.step hL hok h hclaim hnf hopen with hH' | ⟨hack, _⟩
    · exact ⟨hH', hO.step hL hok h hclaim hnf hopen hH.subscriber hH'.subscriber⟩
    · exact absurd rfl ((hL.counted.pending_unique hy htok).2 _ hack)
  rcases Multiset.mem_add.mp hx with hx | hx
  · rcases h.joined_of_made hx hj with ⟨y, rfl, hy⟩ | ⟨key, id, rfl, hclosed⟩
    · exact hstep (Cause.mem_run y others) hy (.of_joined hL.counted hy)
    · -- the `add` that joins here
      have hmem := Cause.mem_run (.hub (.add sub key id)) others
      obtain ⟨rfl, rfl⟩ := hL.known.own _ hmem
      have hclaim := hL.known.pending _ hmem sub rfl
      have hopen := h.of_open (hL.conns.claimed _ _ hclaim) hopen
      have hH := hI.waiting _ hmem sub rfl hopen
      have hroster := h.roster_run hL.known.filed rfl
      have hchange : (Pc.add sub sub.key sub.owner).change sh.hub = .join sub.key sub.owner := by
        simp [Pc.change, hclosed]
      rw [hchange] at hroster
      refine ⟨?_, .inl ?_⟩
      · cases h with
        | hub => exact ⟨hH.held, hH.subscriber⟩
      · rw [hroster]
        simp [Change.apply]
  · exact hstep (Multiset.mem_add.mpr (.inr hx)) hj
      (.of_pending hL.counted hx (Section.token?_of_joined hj))

theorem WordInv.acked_step (c : Nat) (sub : Subscription)
    (hack : (c, .registered sub) ∈ sh'.sent) (hopen : Open sh' sub.conn) :
    (Holds sh' sub ∧ OnHub sh' (↑made + others) sub) ∨ Ending sh' (↑made + others) sub ∨
      lastWord sh'.sent sub.conn sub.clientId ≠ some (.registered sub) := by
  have hclaim := hL.known.claimed_of_sent h hack rfl
  have hopen := h.of_open (hL.conns.claimed _ _ hclaim) hopen
  have hboth : Holds sh sub → OnHub sh (cause.used + others) sub → NotFailing sh cause sub →
      (Holds sh' sub ∧ OnHub sh' (↑made + others) sub) ∨ Ending sh' (↑made + others) sub := by
    intro hH hO hnf
    rcases hH.step hL hok h hclaim hnf hopen with hH' | ⟨_, hending⟩
    · exact .inl ⟨hH', hO.step hL hok h hclaim hnf hopen hH.subscriber hH'.subscriber⟩
    · exact .inr hending
  have hold : (c, .registered sub) ∈ sh.sent →
      (Holds sh' sub ∧ OnHub sh' (↑made + others) sub) ∨ Ending sh' (↑made + others) sub ∨
        lastWord sh'.sent sub.conn sub.clientId ≠ some (.registered sub) := by
    intro hack
    rcases hI.acked c sub hack hopen with ⟨hH, hO⟩ | hending | hword
    · exact (hboth hH hO (.of_acked hL.counted hack rfl)).imp_right .inl
    · exact .inr (hending.step hI.addressed h)
    · refine .inr (.inr ?_)
      rcases h.sent with heq | ⟨c', m, rfl, heq⟩
      · rwa [heq]
      · rw [heq, lastWord_append]
        split
        · rintro hreg
          cases hreg
          exact (hL.counted.run_unique (x := .send c' (.registered sub)) rfl).2.1 _ hack rfl
        · exact hword
  rcases h.sent with heq | ⟨c', m, rfl, heq⟩
  · exact hold (heq ▸ hack)
  · rw [heq] at hack
    rcases List.mem_append.mp hack with hack | hack
    · exact hold hack
    · cases List.mem_singleton.mp hack
      obtain ⟨hH, hO⟩ := hI.joined _ (Cause.mem_run _ others) sub rfl hopen
      exact (hboth hH hO (.of_joined hL.counted rfl)).imp_right .inl

theorem WordInv.entry_step (c : Nat) (sub : Subscription)
    (hack : (c, .registered sub) ∈ sh'.sent) (hopen : Open sh' sub.conn)
    (hheld : sh'.held sub.conn sub.clientId = some ⟨sub.key, sub.owner⟩) :
    (∀ x ∈ (↑made + others : Multiset Section), ∀ s, x.notice? = some s → s.conn = sub.conn →
      s.clientId = sub.clientId → s = sub) ∧
      ∀ s key why, lastWord sh'.sent sub.conn sub.clientId ≠ some (.terminated s key why) := by
  have hclaim := hL.known.claimed_of_sent h hack rfl
  have hopen := h.of_open (hL.conns.claimed _ _ hclaim) hopen
  have hheld₀ : sh.held sub.conn sub.clientId = some ⟨sub.key, sub.owner⟩ := by
    rcases h.of_held hheld with hold | ⟨hnew, _⟩
    · exact hold
    · exact absurd hnew (Nat.ne_of_lt (hL.known.claims _ sub hclaim).2)
  rcases h.sent with heq | ⟨c', m, rfl, heq⟩
  · rw [heq] at hack ⊢
    obtain ⟨hnotice, hword⟩ := hI.entry c sub hack hopen hheld₀
    refine ⟨fun x hx s hs hconn hid => ?_, hword⟩
    rcases Multiset.mem_add.mp hx with hx | hx
    · rcases h.notice_of_made hx hs with ⟨o, ho⟩ | ⟨key, why, rfl⟩
      · -- a loss that begins now is of the subscription in the table
        obtain ⟨_, hs⟩ := hL.known.subscriber o s ho
        rcases hL.tabled.subscriber o s ho with hheld' | ⟨rest, hserv⟩
        · rw [hconn, hid, hheld₀, Option.some.injEq, Entry.mk.injEq] at hheld'
          obtain ⟨rfl, _⟩ := hL.known.subscriber o s ho
          exact claimed_unique hs hclaim hheld'.2.symm
        · have hnone := hL.tabled.forgetting s rest hserv
          rw [hconn, hid, hheld₀] at hnone
          cases hnone
      · exact hnotice _ (Cause.mem_run _ others) s rfl hconn hid
    · exact hnotice x (Multiset.mem_add.mpr (.inr hx)) s hs hconn hid
  -- the message that is sent now was pending, and what is pending afterwards was so before
  · have hothers : ∀ x ∈ (↑made + others : Multiset Section), x ∈ others := by
      intro x hx
      rw [h.made_of_send] at hx
      rcases Multiset.mem_add.mp hx with hx | hx
      · cases hx
      · exact hx
    rw [heq] at hack ⊢
    rcases List.mem_append.mp hack with hack | hack
    · obtain ⟨hnotice, hword⟩ := hI.entry c sub hack hopen hheld₀
      refine ⟨fun x hx s hs hconn hid => ?_, fun s key why => ?_⟩
      · exact hnotice x (Multiset.mem_add.mpr (.inr (hothers x hx))) s hs hconn hid
      · rw [lastWord_append]
        split
        · rename_i habout
          rintro hm
          cases hm
          have hmem := Cause.mem_run (.send c' (.terminated s key why)) others
          obtain ⟨rfl, _⟩ := hI.addressed _ _ hmem s rfl
          -- a termination on its way would be of this subscription, whose entry it has freed
          obtain rfl := hnotice _ hmem s rfl habout.1 (Option.some.inj habout.2)
          exact hL.tabled.noticed s ⟨_, key, why, .inl hmem⟩ _ hheld₀ rfl
        · exact hword s key why
    · cases List.mem_singleton.mp hack
      obtain ⟨_, _, hguard, _⟩ := hok
      obtain ⟨rfl, _⟩ := hI.addressed _ _ (Cause.mem_run (.send c (.registered sub)) others) sub rfl
      refine ⟨fun x hx s hs hconn hid => ?_, fun s key why => ?_⟩
      · exact hguard _ sub rfl hopen x (Multiset.mem_add.mpr (.inr (hothers x hx))) s hs hconn hid
      · rw [lastWord_append, if_pos ⟨rfl, rfl⟩]
        rintro hm
        cases hm

omit hL hok in
theorem WordInv.addressed_step (c : Nat) (m : Message)
    (hy : .send c m ∈ (↑made + others : Multiset Section)) : m.Addressed c := by
  rcases Multiset.mem_add.mp hy with hy | hy
  · exact h.addressed_of_made hy
  · exact hI.addressed c m (Multiset.mem_add.mpr (.inr hy))

omit hL hok in
theorem WordInv.sent_step (y : Nat × Message) (hy : y ∈ sh'.sent) : y.2.Addressed y.1 := by
  rcases h.sent with heq | ⟨c, m, hcause, heq⟩
  · exact hI.sent y (heq ▸ hy)
  · rw [heq] at hy
    rcases List.mem_append.mp hy with hy | hy
    · exact hI.sent y hy
    · obtain rfl := List.mem_singleton.mp hy
      exact hI.addressed _ _ (Cause.mem_used hcause)

/-- **Step.** -/
theorem WordInv.step : WordInv sh' (↑made + others) where
  addressed := addressed_step hI h
  sent := sent_step hI h
  submitting := submitting_step hL hI hok h
  waiting := waiting_step hL hI hok h
  joined := joined_step hL hI hok h
  acked := acked_step hL hI hok h
  entry := entry_step hL hI hok h

end

/-! ## Runs

When nothing about an id is under way, what was promised last is what the registries say. -/

theorem word_start : WordInv start.shared start.pending := by
  refine ⟨fun c m h => ?_, fun y h => ?_, fun sub rest h => ?_, fun x h => ?_, fun x h => ?_,
    fun c sub h => ?_, fun c sub h => ?_⟩
  all_goals cases h

/-- What waits for an answer or a notice about its client id is not quiet. -/
theorem Quiet.not_ending {p : Multiset Section} {sub : Subscription}
    (hq : Quiet sh p sub.conn sub.clientId)
    (haddr : ∀ c m, .send c m ∈ p → m.Addressed c) : ¬ Ending sh p sub := by
  intro hE
  cases hE with
  | forgetting hs => exact hq.serving sub (by rw [hs]; rfl) rfl
  | unhooking hs => exact hq.serving sub (by rw [hs]; rfl) rfl
  | releasing hy => exact hq.pending _ hy rfl
  | @telling c m hy hm =>
      obtain ⟨rfl, habout⟩ := haddr c m hy sub (ended_of_message hm)
      refine hq.pending _ hy ?_
      cases m with
      | terminated => cases hm; rfl
      | unsubscribed id removed => rw [habout id rfl]; rfl
      | _ => cases hm

/-- Every entry of a table was acknowledged, once nothing about its client id is in progress. -/
theorem Quiet.acked {p : Multiset Section} {c : Nat} {id : ClientId} {e : Entry}
    (hq : Quiet sh p c id) (hN : Counted sh p)
    (haddr : ∀ c m, .send c m ∈ p → m.Addressed c) (he : sh.held c id = some e) :
    ∃ c', (c', .registered ⟨e.owner, c, id, e.key⟩) ∈ sh.sent := by
  rcases Shared.mem_tokens.mp (hN.entry c id e he) with hserv | ⟨y, hy, hack⟩ | ⟨x, hx, htok⟩
  · exact absurd rfl (hq.serving _ (Service.sub?_of_token hserv))
  · obtain ⟨c', m⟩ := y
    cases m with
    | registered s =>
        cases hack
        exact ⟨c', hy⟩
    | _ => cases hack
  · refine absurd ?_ (hq.pending x hx)
    cases x with
    | hub z =>
        show z.op?.map _ = _
        rw [show z.op? = _ from htok]
        rfl
    | send c' m =>
        cases m with
        | registered s =>
            cases htok
            obtain ⟨rfl, _⟩ := haddr _ _ hx _ rfl
            rfl
        | _ => cases htok
    | dropSubscriber | releaseKey =>
        cases htok
        rfl
    | release => cases htok

/-- **The last word about a subscription is true, if words are sent in order.** In every run in
which, on open WebSocket connections, a loss or an unsubscribe takes a subscription only after its
`registered` was sent, `registered` is sent only when no notice about another subscription of the
same client id is still to be sent, and a failed `add` erases an entry only with its own subscriber
in it: once nothing about a client id is in progress, the last word about it is true. -/
theorem last_word_true {s : State Shared Section} (h : Run (bridge limit) inOrder start s) :
    LastWordTrue s.shared s.pending := by
  obtain ⟨hL, hI⟩ := ledger_and_of_run word_start (fun hL hI hok h => WordInv.step hL hI hok h) h
  intro c id hopen hq
  refine ⟨fun sub hlast => ?_, fun sub key why hlast => ?_⟩
  · obtain ⟨hsent, habout⟩ := mem_of_lastWord hlast
    obtain rfl : sub.clientId = id := Option.some.inj habout
    obtain ⟨rfl, _⟩ := hI.sent _ hsent sub rfl
    rcases hI.acked _ sub hsent hopen with ⟨hH, hO⟩ | hending | hword
    · refine ⟨hH.held, hH.subscriber, ?_⟩
      rcases hO with ho | ⟨key, why, hmem⟩
      · exact ho
      · exact absurd rfl (hq.losing _ key why hmem sub (hL.known.sent _ hsent sub rfl))
    · exact absurd hending (hq.not_ending hI.addressed)
    · exact absurd hlast hword
  · obtain ⟨hsent, habout⟩ := mem_of_lastWord hlast
    obtain rfl : sub.clientId = id := Option.some.inj habout
    obtain ⟨rfl, _⟩ := hI.sent _ hsent sub rfl
    refine ⟨?_, (hL.ended _ (.sent hsent rfl rfl)).subscribers,
      (hL.offHub.lost _ (.inr ⟨_, hsent, rfl⟩)).1⟩
    cases hheld : s.shared.held sub.conn sub.clientId with
    | none => rfl
    | some e =>
        obtain ⟨c', hack⟩ := hq.acked hL.counted hI.addressed hheld
        exact absurd hlast ((hI.entry c' _ hack hopen hheld).2 sub key why)

/-- The provider is lost, and the subscriber told, by thread 7. -/
def lostAndTold : List (Move Choice BridgeEntry) :=
  .enter (.moduleLost (str "m") Upstream.kProviderChanged) :: List.replicate 5 (.run 7 {})

/-- `s` is subscribed again, next to `t`, which the client refuses; then `s` is unsubscribed. -/
def subscribedAgain : List (Move Choice BridgeEntry) :=
  .enter (.body 0 [.subscribe (str "s") someEvent, .subscribe (str "t") ⟨str "m", str "f"⟩]) ::
    List.replicate 7 (.enter (.serve true)) ++ List.replicate 3 (.run 12 {}) ++
    List.replicate 11 (.run 16 { valid := false }) ++
    .enter (.body 0 [.unsubscribe (str "s")]) :: List.replicate 4 (.enter (.serve true)) ++
    [.run 22 {}]

/-- Two acks, a notice, a refusal and the answer to the unsubscribe. -/
theorem last_word_true_again :
    ∃ s, Run (bridge 2) inOrder start s ∧ s.shared.sent.length = 5 ∧ s.threads.flatten.length = 0 ∧
      LastWordTrue s.shared s.pending := by
  have hmoves : ((bridge 2).replayUnder inOrder start
      (subscribed ++ .run 5 {} :: lostAndTold ++ subscribedAgain)).map (fun s =>
        (s.shared.sent.length, s.threads.flatten.length)) = some (5, 0) := rfl
  obtain ⟨s, hs, hend⟩ := Option.map_eq_some_iff.mp hmoves
  obtain ⟨hlength, hidle⟩ := Prod.mk.inj hend
  have hrun := Run.start.replayUnder hs
  exact ⟨s, hrun, hlength, hidle, last_word_true hrun⟩

/-- **The last word about a subscription can be false.** Its loss is told before its `registered`
is sent. -/
theorem not_last_word_true :
    ¬ ∀ s, Run (bridge 1) Guard.any start s → LastWordTrue s.shared s.pending := by
  intro htrue
  obtain ⟨s, hs⟩ : ∃ s, (bridge 1).replay start
      (subscribed ++ lostAndTold ++ [.run 5 {}]) = some s := ⟨_, rfl⟩
  have hidle : s.pending = 0 := by
    cases hs
    rfl
  have hserv : s.shared.service.sub? = none := by
    cases hs
    rfl
  have hq : Quiet s.shared s.pending 0 (str "s") := by
    rw [hidle]
    refine ⟨fun sub h => ?_, fun x hx => ?_, fun o key why hx => ?_⟩
    · cases hserv.symm.trans h
    · exact absurd hx (Multiset.notMem_zero x)
    · exact absurd hx (Multiset.notMem_zero _)
  have hlast := htrue s (Run.replay .start hs) 0 (str "s")
  cases hs
  obtain ⟨hheld, _⟩ := (hlast ⟨rfl, rfl⟩ hq).1 _ rfl
  cases hheld

end JsonRpcBridge.Subscriptions
