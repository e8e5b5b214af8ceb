import JsonRpcBridge.Subscriptions.Endings

/-!
# Tables and subscribers agree

The tables of the connections and `m_subscribers` are guarded by different locks and changed one
after the other. `tables_agree` says what holds of them all the same: a table stays within its
limit, an entry is freed for its own subscription or by an unsubscribe, and on the open connections
the two name the same subscriptions whenever no operation stands between them.
-/

namespace JsonRpcBridge.Subscriptions

open Interleaving Upstream

variable {limit : Int} {sh sh' : Shared} {cause : Cause} {made : List Section}

/-! ## One table

A table has each client id once and no more entries than the limit lets in. -/

namespace SubscriptionTable

variable {t : SubscriptionTable} {id : ClientId}

/-- No more entries than the limit, and one for each id. -/
structure Within (limit : Int) (t : SubscriptionTable) : Prop where
  length : (t.length : Int) ≤ max limit 0
  nodup : (t.map Prod.fst).Nodup

/-! ### Claims and releases -/

theorem Within.nil : Within limit [] := ⟨le_max_right _ _, List.nodup_nil⟩

theorem Within.erase (h : t.Within limit) (id : ClientId) : (t.erase id).Within limit := by
  constructor
  · have hle : (t.erase id).length ≤ t.length := List.length_filter_le _ _
    have hlength := h.length
    omega
  · exact h.nodup.sublist (List.filter_sublist.map Prod.fst)

theorem not_mem_of_find_none (h : t.find id = none) : id ∉ t.map Prod.fst := by
  intro hmem
  obtain ⟨e, he, rfl⟩ := List.mem_map.mp hmem
  have hne : e.1 ≠ e.1 := by simpa using List.lookup_eq_none_iff.mp h e he
  exact hne rfl

theorem Within.claim (h : t.Within limit) {key : Key} {owner : Nat} {t' : SubscriptionTable}
    (hclaim : t.claim id key owner limit = (.fresh, t')) : t'.Within limit := by
  obtain ⟨hfree, -⟩ := claim_fresh hclaim
  unfold SubscriptionTable.claim at hclaim
  split at hclaim
  · cases hclaim
  · split at hclaim
    · cases hclaim
    · rename_i hroom
      cases hclaim
      constructor
      · simp only [List.length_append, List.length_singleton]
        omega
      · rw [List.map_append, List.nodup_append]
        refine ⟨h.nodup, by simp, ?_⟩
        intro k hk k' hk' heq
        obtain rfl : k' = id := by simpa using hk'
        exact not_mem_of_find_none hfree (heq ▸ hk)

/-- With one entry for each id, an entry is found if and only if it is there. -/
theorem Within.mem_iff (h : t.Within limit) {e : Entry} : (id, e) ∈ t ↔ t.find id = some e := by
  refine ⟨fun hmem => ?_, List.mem_of_lookup⟩
  obtain ⟨l₁, l₂, rfl⟩ := List.append_of_mem hmem
  have hnodup := h.nodup
  rw [List.map_append, List.nodup_append] at hnodup
  have hfree : l₁.lookup id = none := by
    rw [List.lookup_eq_none_iff]
    intro e' he'
    have hne := hnodup.2.2 e'.1 (List.mem_map_of_mem he') id (by simp)
    simpa using hne.symm
  rw [find, List.lookup_append, hfree]
  simp

end SubscriptionTable

/-- **Step.** -/
theorem Act.within (h : Act limit sh cause sh' made)
    (hW : ∀ c, (sh.conns c).subs.Within limit) (c : Nat) : (sh'.conns c).subs.Within limit := by
  have hset : ∀ c' t, t.Within limit → ((sh.setSubs c' t).conns c).subs.Within limit := by
    intro c' t ht
    by_cases hc : c = c'
    · subst hc
      simpa [Shared.setSubs] using ht
    · simpa [Shared.setSubs, Function.update_of_ne hc] using hW c
  have hrelease : ∀ s : Subscription, ((sh.releaseKey s).conns c).subs.Within limit := by
    intro s
    apply hset
    unfold SubscriptionTable.release
    split
    · split
      · exact (hW s.conn).erase s.clientId
      · exact hW s.conn
    · exact hW s.conn
  cases h with
  | releaseKey | release | releaseRefused => exact hrelease _
  | claim hs hclaim => exact hset _ _ ((hW _).claim hclaim)
  | @take _ c' id _ held subs hs htake =>
      obtain ⟨-, rfl⟩ := SubscriptionTable.take_eq_some htake
      exact hset _ _ ((hW c').erase id)
  | attach =>
      by_cases hc : c = sh.nextConn
      · subst hc
        simpa using SubscriptionTable.Within.nil
      · simpa [Function.update_of_ne hc] using hW c
  | _ => exact hW c

/-! ## Open connections

On a connection that is open the tables can differ from `m_subscribers` only while one of the
operations that change both is between its two halves. -/

/-- A connection is attached when it is accepted, and never again. -/
theorem Act.attached (h : Act limit sh cause sh' made) {c : Nat} (hc : c < sh.nextConn)
    (hatt : sh'.attached c = true) : sh.attached c = true := by
  have hsocket := (h.conn hc).2.1
  rw [Shared.attached, hsocket] at hatt
  cases h with
  | @attach socket isWebsocket hs hclosed hcurrent =>
      by_cases hsock : (sh.conns c).socket = socket
      · rw [hsock] at hatt
        have hnew : sh.nextConn = c := by simpa using hatt
        omega
      · rw [Shared.attached]
        simpa [Function.update_of_ne hsock] using hatt
  | @detachWebsocket socket _ hs hcurrent hws | @detachHttp socket _ hs hcurrent hws =>
      by_cases hsock : (sh.conns c).socket = socket
      · rw [hsock] at hatt
        simp at hatt
      · rw [Shared.attached]
        simpa [Function.update_of_ne hsock] using hatt
  | _ => exact hatt

/-- The table of the subscription's connection and `m_subscribers` may disagree about it: the
service thread is about to register it, or somebody has erased the subscriber and is about to free
its client id. -/
inductive Between (sh : Shared) (p : Multiset Section) (sub : Subscription) : Prop
  | registering {rest : List Request} (hs : sh.service = .register sub rest)
  | refused {rest : List Request} (hs : sh.service = .releaseKey sub rest)
  | failed (hp : .releaseKey sub ∈ p)
  | lost {key : Key} {why : Bytes} (hp : .release sub key why ∈ p)

/-- An operation that stands between the two registries goes on standing there, or it registers the
subscription, or it frees the client id. -/
theorem Act.between (h : Act limit sh cause sh' made) {others : Multiset Section}
    {sub : Subscription} (hb : Between sh (cause.used + others) sub) :
    Between sh' (↑made + others) sub ∨ sh'.subscribers sub.owner = some sub ∨
      ∀ e, sh'.held sub.conn sub.clientId = some e → e.owner ≠ sub.owner := by
  -- a section that does not run stays pending
  have hkeep : ∀ {x : Section}, x ∈ cause.used + others → cause ≠ .run x →
      x ∈ (↑made + others : Multiset Section) := by
    intro x hx hne
    rcases Multiset.mem_add.mp hx with hx | hx
    · cases cause with
      | run y => exact absurd (congrArg Cause.run (Multiset.mem_singleton.mp hx).symm) hne
      | call ev => exact absurd hx (Multiset.notMem_zero x)
    · exact Multiset.mem_add.mpr (.inr hx)
  cases hb with
  | @registering rest hs =>
      cases h with
      -- the service thread stands there, so its next move is the only one that matters
      | register hs' =>
          cases hs.symm.trans hs'
          exact .inr (.inl (by simp))
      | finish hs' | answer hs' | claim hs' | take hs' | submit hs' | refuse hs' | dropRefused hs'
      | releaseRefused hs' | forget hs' | unhook hs' | sweep hs' | unhookNext hs' | close hs'
      | body hs' | detachWebsocket hs' | attach hs' | detachHttp hs' => cases hs.symm.trans hs'
      | _ => exact .inl (.registering hs)
  | @refused rest hs =>
      cases h with
      | releaseRefused hs' =>
          cases hs.symm.trans hs'
          exact .inr (.inr fun e => Shared.owner_ne_of_releaseKey)
      | finish hs' | answer hs' | claim hs' | take hs' | register hs' | submit hs' | refuse hs'
      | dropRefused hs' | forget hs' | unhook hs' | sweep hs' | unhookNext hs' | close hs'
      | body hs' | detachWebsocket hs' | attach hs' | detachHttp hs' => cases hs.symm.trans hs'
      | _ => exact .inl (.refused hs)
  | failed hp =>
      by_cases hcause : cause = .run (.releaseKey sub)
      · subst hcause
        cases h
        exact .inr (.inr fun e => Shared.owner_ne_of_releaseKey)
      · exact .inl (.failed (hkeep hp hcause))
  | @lost key why hp =>
      by_cases hcause : cause = .run (.release sub key why)
      · subst hcause
        cases h
        exact .inr (.inr fun e => Shared.owner_ne_of_releaseKey)
      · exact .inl (.lost (hkeep hp hcause))

/-- A subscriber of an open connection is taken out of `m_subscribers` by its loss or its failure,
which then frees its client id, or by the unsubscribe that has taken its entry. -/
theorem Act.unregistered (h : Act limit sh cause sh' made) {others : Multiset Section}
    (hL : Ledger sh (cause.used + others)) {sub : Subscription}
    (hsub : sh.subscribers sub.owner = some sub) (hatt : sh.attached sub.conn = true) :
    sh'.subscribers sub.owner = some sub ∨ Between sh' (↑made + others) sub ∨
      sh.held sub.conn sub.clientId = none := by
  have hclaim := (hL.known.subscriber _ sub hsub).2
  -- two subscriptions with one id are the same
  have hsame : ∀ s : Subscription, sh.claimed s.owner = some s → s.owner = sub.owner → s = sub := by
    intro s hs howner
    rw [howner] at hs
    exact Option.some.inj (hs.symm.trans hclaim)
  have herase : ∀ o, o ≠ sub.owner → (sh.eraseSubscriber o).subscribers sub.owner = some sub := by
    intro o ho
    simpa [Shared.eraseSubscriber, Function.update_of_ne ho.symm] using hsub
  cases h with
  | @lostUnattached sid key why s hs hconn =>
      by_cases ho : sid = sub.owner
      · subst ho
        obtain rfl := Option.some.inj (hs.symm.trans hsub)
        cases hatt.symm.trans hconn
      · exact .inl (herase sid ho)
  | @lost sid key why s hs =>
      by_cases ho : sid = sub.owner
      · subst ho
        obtain rfl := Option.some.inj (hs.symm.trans hsub)
        exact .inr (.inl (.lost (Multiset.mem_add.mpr (.inl (List.mem_singleton_self _)))))
      · exact .inl (herase sid ho)
  | @dropSubscriber s =>
      by_cases ho : s.owner = sub.owner
      · obtain rfl := hsame s (hL.known.pending _ (Cause.mem_used rfl) s rfl) ho
        exact .inr (.inl (.failed (Multiset.mem_add.mpr (.inl (List.mem_singleton_self _)))))
      · exact .inl (herase s.owner ho)
  | @dropRefused _ s rest hs =>
      by_cases ho : s.owner = sub.owner
      · obtain rfl := hsame s (hL.known.serving s (by rw [hs]; rfl)) ho
        exact .inr (.inl (.refused rfl))
      · exact .inl (herase s.owner ho)
  | @forget _ s rest hs =>
      by_cases ho : s.owner = sub.owner
      · obtain rfl := hsame s (hL.known.serving s (by rw [hs]; rfl)) ho
        exact .inr (.inr (hL.tabled.forgetting s rest hs))
      · exact .inl (herase s.owner ho)
  | @register _ s rest hs =>
      left
      by_cases ho : s.owner = sub.owner
      · obtain rfl := hsame s (hL.known.serving s (by rw [hs]; rfl)) ho
        simp
      · simpa [Function.update_of_ne (Ne.symm ho)] using hsub
  | @sweep _ socket c hs =>
      left
      by_cases hc : sub.conn = c
      · subst hc
        obtain ⟨-, hsocket⟩ := hL.conns.sweeping socket sub.conn hs
        obtain ⟨hcurrent, -⟩ := hL.conns.closing socket (by rw [hs]; rfl)
        rw [Shared.attached, hsocket, hcurrent] at hatt
        cases hatt
      · simp [hsub, hc]
  | _ => exact .inl hsub

/-- Every entry of an open connection's table has its subscriber, unless an operation stands between
the two. -/
def Registered (sh : Shared) (p : Multiset Section) : Prop :=
  ∀ c id e, sh.attached c = true → sh.held c id = some e →
    sh.subscribers e.owner = some ⟨e.owner, c, id, e.key⟩ ∨ Between sh p ⟨e.owner, c, id, e.key⟩

/-- **Step.** -/
theorem Registered.step {others : Multiset Section} (hR : Registered sh (cause.used + others))
    (hL : Ledger sh (cause.used + others)) (h : Act limit sh cause sh' made) :
    Registered sh' (↑made + others) := by
  intro c id e hatt' he
  rcases h.of_held he with hold | ⟨-, rest, hserv⟩
  · have hclaim := hL.known.entry c id e hold
    have hatt := h.attached (hL.conns.claimed _ _ hclaim) hatt'
    rcases hR c id e hatt hold with hsub | hbetween
    · rcases h.unregistered hL hsub hatt with hkeep | hbetween | hnone
      · exact .inl hkeep
      · exact .inr hbetween
      · cases hold.symm.trans hnone
    · rcases h.between hbetween with hbetween | hregistered | hfreed
      · exact .inr hbetween
      · exact .inl hregistered
      · exact absurd rfl (hfreed e he)
  · exact .inr (.registering hserv)

/-! ## Moves

Which moves free an entry, and whose it is. -/

/-- The move runs the section of the cause, or calls its entry point. -/
inductive Cause.Of (s : State Shared Section) : Move Choice BridgeEntry → Cause → Prop
  | run {i : Nat} {ch : Choice} {x : Section} (h : s.head i = some x) : Of s (.run i ch) (.run x)
  | call {ev : BridgeEntry} : Of s (.enter ev) (.call ev)

theorem step_act {s s' : State Shared Section} {mv : Move Choice BridgeEntry}
    (h : (bridge limit).step s mv = some s') : ∃ (cause : Cause) (made : List Section)
      (others : Multiset Section), Cause.Of s mv cause ∧ s.pending = cause.used + others ∧
        s'.pending = ↑made + others ∧ Act limit s.shared cause s'.shared made := by
  cases mv with
  | run i ch =>
      obtain ⟨x, e, others, hhead, hexec, hp, hs, hp'⟩ := Program.step_run h
      obtain ⟨made, hmade, hact⟩ : ∃ made : List Section, e.made = ↑made ∧
          Act limit s.shared (.run x) e.shared made := exec_act hexec
      exact ⟨.run x, made, others, .run hhead, hp, hmade ▸ hp', hs ▸ hact⟩
  | enter ev =>
      obtain ⟨e, henter, hs, hp'⟩ := Program.step_enter h
      obtain ⟨made, hmade, hact⟩ := enter_act henter
      exact ⟨.call ev, made, s.pending, .call, (zero_add _).symm, hmade ▸ hp', hs ▸ hact⟩

/-- The move frees client id `id` of connection `c`, which `e` held: it is a step of the failure or
of the loss of the very subscription, or an unsubscribe of the id. -/
inductive FreedBy (s : State Shared Section) (c : Nat) (id : ClientId) (e : Entry) :
    Move Choice BridgeEntry → Prop
  | failed {i : Nat} {ch : Choice} {sub : Subscription} (h : s.head i = some (.releaseKey sub))
      (hsub : sub = ⟨e.owner, c, id, e.key⟩) : FreedBy s c id e (.run i ch)
  | lost {i : Nat} {ch : Choice} {sub : Subscription} {key : Key} {why : Bytes}
      (h : s.head i = some (.release sub key why))
      (hsub : sub = ⟨e.owner, c, id, e.key⟩) : FreedBy s c id e (.run i ch)
  | refused {queued : Bool} {sub : Subscription} {rest : List Request}
      (h : s.shared.service = .releaseKey sub rest)
      (hsub : sub = ⟨e.owner, c, id, e.key⟩) : FreedBy s c id e (.enter (.serve queued))
  | unsubscribed {queued : Bool} {rest : List Request}
      (h : s.shared.service = .requests c (.unsubscribe id :: rest)) :
      FreedBy s c id e (.enter (.serve queued))

theorem freedBy_of_frees {s s' : State Shared Section} {mv : Move Choice BridgeEntry} {c : Nat}
    {id : ClientId} {e : Entry} (hL : Ledger s.shared s.pending)
    (he : s.shared.held c id = some e) (hcause : Cause.Of s mv cause)
    (hp : ∀ x, cause = .run x → x ∈ s.pending) (hf : Frees s.shared c id e cause s'.shared) :
    FreedBy s c id e mv := by
  have hclaim := hL.known.entry c id e he
  have hsame : ∀ sub : Subscription, s.shared.claimed sub.owner = some sub → sub.owner = e.owner →
      sub = ⟨e.owner, c, id, e.key⟩ := by
    intro sub hsub howner
    rw [howner] at hsub
    exact Option.some.inj (hsub.symm.trans hclaim)
  cases hcause with
  | @run i ch x hhead =>
      cases hf with
      | @failed sub _ _ _ howner =>
          exact .failed hhead (hsame sub (hL.known.pending _ (hp _ rfl) sub rfl) howner)
      | @lost sub key why _ _ _ howner =>
          exact .lost hhead (hsame sub (hL.known.pending _ (hp _ rfl) sub rfl) howner)
  | call =>
      cases hf with
      | @refused _ sub rest _ hs _ _ howner =>
          exact .refused hs (hsame sub (hL.known.serving sub (by rw [hs]; rfl)) howner)
      | taken hs hs' => exact .unsubscribed hs

/-! ## Every run

Where nothing stands between them, the two agree in both directions. -/

/-- No operation has changed one of the two registries and not yet the other. A state in which no
subscribe, unsubscribe or loss is under way is one. -/
def Settled (s : State Shared Section) : Prop := ∀ sub,
  ¬ Between s.shared s.pending sub ∧ ∀ rest, s.shared.service ≠ .forget sub rest

/-- **Tables and subscribers agree.** In every state of every run, whatever the order of sections:

* a connection's table never exceeds its limit, and holds one entry for each id;
* an entry stays until its own subscription fails or is lost, or its client id is unsubscribed;
* if no operation stands between the two registries, the entries of the tables of the open
  connections are the subscribers of those connections. -/
theorem tables_agree {s : State Shared Section} (h : Run (bridge limit) Guard.any start s) :
    (∀ c, (s.shared.conns c).subs.Within limit) ∧
    (∀ mv s', (bridge limit).step s mv = some s' → ∀ c id e,
      (id, e) ∈ (s.shared.conns c).subs →
        (id, e) ∈ (s'.shared.conns c).subs ∨ FreedBy s c id e mv) ∧
    (Settled s → ∀ c, s.shared.attached c = true → ∀ id key owner,
      (id, ⟨key, owner⟩) ∈ (s.shared.conns c).subs ↔
        s.shared.subscribers owner = some ⟨owner, c, id, key⟩) := by
  obtain ⟨hL, hW, hR⟩ := ledger_and_of_run
    (J := fun sh p => (∀ c, (sh.conns c).subs.Within limit) ∧ Registered sh p)
    ⟨fun c => .nil, fun c id e _ he => nomatch he⟩
    (fun hL hJ _ hact => ⟨hact.within hJ.1, hJ.2.step hL hact⟩) h
  refine ⟨hW, fun mv s' hstep c id e he => ?_, fun hsettled c hatt id key owner => ?_⟩
  · obtain ⟨cause, made, others, hcause, hp, hp', hact⟩ := step_act hstep
    have hheld : s.shared.held c id = some e := (hW c).mem_iff.mp he
    have hlt := hL.conns.claimed _ _ (hL.known.entry c id e hheld)
    rcases hact.held hheld hlt with hkeep | ⟨-, hfrees⟩
    · exact .inl ((hact.within hW c).mem_iff.mpr hkeep)
    · refine .inr (freedBy_of_frees hL hheld hcause (fun x hx => ?_) hfrees)
      rw [hp]
      exact Cause.mem_used hx
  · rw [(hW c).mem_iff]
    constructor
    · intro hheld
      rcases hR c id ⟨key, owner⟩ hatt hheld with hsub | hbetween
      · exact hsub
      · exact absurd hbetween (hsettled _).1
    · intro hsub
      rcases hL.tabled.subscriber owner _ hsub with hheld | ⟨rest, hserv⟩
      · exact hheld
      · exact absurd hserv ((hsettled _).2 rest)

theorem tables_agree_subscribed :
    ∃ s, Run (bridge 1) Guard.any start s ∧ (s.shared.conns 0).subs.length = 1 ∧ Settled s ∧
      (s.shared.conns 0).subs.Within 1 ∧
      s.shared.subscribers 1 = some ⟨1, 0, str "s", someEvent⟩ := by
  obtain ⟨s, hs⟩ : ∃ s, (bridge 1).replay start (subscribed ++ [.run 5 {}]) = some s := ⟨_, rfl⟩
  have hrun := Run.replay .start hs
  have hp : s.threads.flatten = [] := by
    cases hs
    rfl
  have hsettled : Settled s := by
    have hidle : s.shared.service = .idle := by
      cases hs
      rfl
    intro sub
    refine ⟨fun hbetween => ?_, fun rest hserv => nomatch hidle.symm.trans hserv⟩
    have hnone : ∀ x, x ∉ s.pending := by
      intro x hx
      rw [State.pending, hp] at hx
      exact Multiset.notMem_zero x hx
    cases hbetween with
    | registering hserv => cases hidle.symm.trans hserv
    | refused hserv => cases hidle.symm.trans hserv
    | failed hx => exact hnone _ hx
    | lost hx => exact hnone _ hx
  obtain ⟨hwithin, -, hagree⟩ := tables_agree hrun
  have hentry : (s.shared.conns 0).subs = [(str "s", ⟨someEvent, 1⟩)] := by
    cases hs
    rfl
  have hopen : s.shared.attached 0 = true := by
    cases hs
    rfl
  refine ⟨s, hrun, by rw [hentry]; rfl, hsettled, hwithin 0, ?_⟩
  rw [← hagree hsettled 0 hopen, hentry]
  exact List.mem_singleton_self _

end JsonRpcBridge.Subscriptions
