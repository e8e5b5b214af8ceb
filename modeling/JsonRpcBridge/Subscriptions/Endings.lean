import JsonRpcBridge.Subscriptions.Ledger

/-!
# Subscriptions that ended

A subscription ends when it is lost, unsubscribed, given up, or swept with its connection. Each of
these takes it out of `m_subscribers` first, and it never comes back (`Shared.Dead`). A table entry
and its subscriber go together but for the moment between the two steps of an unsubscribe
(`Tabled`).

`Ledger` puts the invariants together, and `ledger_of_run` holds them in every run.
-/

namespace JsonRpcBridge.Subscriptions

open Interleaving Upstream

variable {limit : Int} {sh sh' : Shared} {cause : Cause} {made : List Section}

/-! ## Out of `m_subscribers` for good

An owner is used once, so a subscriber that was erased is not found again. -/

/-- The frame that tells the end of a subscription. -/
def Message.ended? : Message → Option Subscription
  | .terminated sub _ _ => some sub
  | .unsubscribed _ removed => removed
  | _ => none

def Section.ended? : Section → Option Subscription
  | .releaseKey sub | .release sub _ _ => some sub
  | .send _ m => m.ended?
  | _ => none

def Service.ended : Service → List Nat
  | .releaseKey sub _ | .unhook sub _ => [sub.owner]
  | .unhookAll _ ids => ids
  | _ => []

/-- Somebody has taken the subscriber out of `m_subscribers` to end it. -/
inductive Ended (sh : Shared) (p : Multiset Section) (o : Nat) : Prop
  | serving (h : o ∈ sh.service.ended)
  | pending {x : Section} {sub : Subscription} (hx : x ∈ p) (h : x.ended? = some sub)
      (ho : sub.owner = o)
  | sent {y : Nat × Message} {sub : Subscription} (hy : y ∈ sh.sent) (h : y.2.ended? = some sub)
      (ho : sub.owner = o)
  | unsubscribed {sub : Subscription} (h : sub ∈ sh.unsubscribed) (ho : sub.owner = o)

/-- The subscriber is out of `m_subscribers`, and nobody is about to put it there. -/
structure Shared.Dead (sh : Shared) (o : Nat) : Prop where
  subscribers : sh.subscribers o = none
  registering : ∀ sub rest, sh.service = .register sub rest → sub.owner ≠ o
  claimed : ∃ sub, sh.claimed o = some sub

/-! ### Step by step -/

/-- The dead stay dead. -/
theorem Shared.Dead.step {p : Multiset Section} {o : Nat} (hD : sh.Dead o) (hK : Known sh p)
    (h : Act limit sh cause sh' made) : sh'.Dead o := by
  obtain ⟨sub, hclaim⟩ := hD.claimed
  refine ⟨?_, ?_, sub, hK.claimed_mono h hclaim⟩
  · cases hsub : sh'.subscribers o with
    | none => rfl
    | some s =>
        rcases h.of_subscribers hsub with hold | ⟨rfl, rest, hserv, _⟩
        · cases hD.subscribers.symm.trans hold
        · exact absurd rfl (hD.registering s rest hserv)
  · intro s rest hserv
    rcases h.registering hserv with hold | ⟨hnew, _, _⟩
    · exact hD.registering s rest hold
    · rw [hnew]
      exact (Nat.ne_of_lt (hK.claims o sub hclaim).2).symm

theorem ended_of_message {m : Message} {sub : Subscription} (h : m.ended? = some sub) :
    m.sub? = some sub := by
  cases m with
  | terminated | unsubscribed => exact h
  | _ => cases h

theorem Shared.eraseSubscriber_self {o : Nat} : (sh.eraseSubscriber o).subscribers o = none := by
  simp [Shared.eraseSubscriber]

/-- **Step.** Whoever ends a subscriber goes on with it, or has just erased it. -/
theorem Act.of_ended (h : Act limit sh cause sh' made) {others : Multiset Section}
    (hK : Known sh (cause.used + others)) (hN : Counted sh (cause.used + others))
    (hO : OffHub sh (cause.used + others)) {o : Nat} (he : Ended sh' (↑made + others) o) :
    Ended sh (cause.used + others) o ∨ sh'.Dead o := by
  have hclaimed : ∀ {sub : Subscription}, sh.claimed sub.owner = some sub →
      ∃ s, sh'.claimed sub.owner = some s := fun hs => ⟨_, hK.claimed_mono h hs⟩
  cases he with
  | serving hmem =>
      cases h with
      | @dropRefused _ sub rest hs =>
          obtain rfl := List.mem_singleton.mp hmem
          -- erased in the section that begins the end
          have hclaim := hK.serving sub (by rw [hs]; rfl)
          exact .inr ⟨Shared.eraseSubscriber_self, (fun s r hserv => nomatch hserv), hclaimed hclaim⟩
      | @forget _ sub rest hs =>
          obtain rfl := List.mem_singleton.mp hmem
          have hclaim := hK.serving sub (by rw [hs]; rfl)
          exact .inr ⟨Shared.eraseSubscriber_self, (fun s r hserv => nomatch hserv), hclaimed hclaim⟩
      | @sweep _ socket c hs =>
          obtain ⟨_, hany⟩ := List.mem_filter.mp hmem
          obtain ⟨sub, hsub, hconn⟩ := (Option.any_eq_true _ _).mp hany
          obtain ⟨rfl, hclaim⟩ := hK.subscriber o sub hsub
          refine .inr ⟨?_, (fun s r hserv => nomatch hserv), hclaimed hclaim⟩
          simp [hsub, eq_of_beq hconn]
      | unhookNext hs => exact .inl (.serving (by rw [hs]; exact List.mem_cons_of_mem _ hmem))
      | finish | answer | claim | take | register | submit | refuse | releaseRefused | unhook
      | close | body | detachWebsocket => cases hmem
      | _ => exact .inl (.serving hmem)
  | @pending y s hy hended ho =>
      rcases Multiset.mem_add.mp hy with hy | hy
      · cases h with
        | hub hx hexec =>
            obtain ⟨z, _, rfl⟩ := List.mem_map.mp hy
            cases hended
        | @lost sid key why sub hsub =>
            rw [List.mem_singleton.mp hy] at hended
            cases hended
            obtain ⟨rfl, hclaim⟩ := hK.subscriber sid s hsub
            subst ho
            refine .inr ⟨Shared.eraseSubscriber_self, fun t rest hserv => ?_, hclaimed hclaim⟩
            rintro howner
            -- the service thread cannot be about to register it again: it is in the hub already
            refine (hO.waiting t (.inl (by rw [show sh.service = _ from hserv]; rfl))).2 ?_
            exact .inl ⟨_, Cause.mem_used rfl, congrArg some howner.symm⟩
        | @dropSubscriber sub =>
            rw [List.mem_singleton.mp hy] at hended
            cases hended
            subst ho
            have hclaim := hK.pending _ (Cause.mem_used rfl) s rfl
            refine .inr ⟨Shared.eraseSubscriber_self, fun t rest hserv => ?_, hclaimed hclaim⟩
            rintro howner
            have ht : sh.service.token? = some t := by rw [show sh.service = _ from hserv]; rfl
            have hclaim' := hK.serving t (Service.sub?_of_token ht)
            obtain rfl : t = s := Option.some.inj (hclaim'.symm.trans (howner ▸ hclaim))
            -- its token is in one place
            exact (hN.run_unique (x := .dropSubscriber t) rfl).1 ht
        | release =>
            rw [List.mem_singleton.mp hy] at hended
            exact .inl (.pending (Cause.mem_used rfl) hended ho)
        | @answer _ _ _ _ _ m hs hn hm =>
            rw [List.mem_singleton.mp hy] at hended
            cases hm.symm.trans (ended_of_message hended)
        | @unhook _ sub _ _ _ hs _ =>
            rw [List.mem_singleton.mp hy] at hended
            cases hended
            exact .inl (.serving (by rw [hs, ← ho]; exact List.mem_singleton_self _))
        | outside hmade =>
            obtain ⟨x, rfl, _⟩ := hmade y hy
            cases hended
        | joined | failed | heard | releaseKey | submit | releaseRefused =>
            rw [List.mem_singleton.mp hy] at hended
            cases hended
        | _ => cases hy
      · exact .inl (.pending (Multiset.mem_add.mpr (.inr hy)) hended ho)
  | @sent y s hy hended ho =>
      rcases h.sent with heq | ⟨c, m, hcause, heq⟩
      · exact .inl (.sent (heq ▸ hy) hended ho)
      · rw [heq] at hy
        rcases List.mem_append.mp hy with hy | hy
        · exact .inl (.sent hy hended ho)
        · obtain rfl := List.mem_singleton.mp hy
          exact .inl (.pending (Cause.mem_used hcause) hended ho)
  | @unsubscribed s hmem ho =>
      cases h with
      | @unhook _ sub _ _ _ hs _ =>
          rcases List.mem_cons.mp hmem with rfl | hmem
          · exact .inl (.serving (by rw [hs, ← ho]; exact List.mem_singleton_self _))
          · exact .inl (.unsubscribed hmem ho)
      | _ => exact .inl (.unsubscribed hmem ho)

/-! ## Tables and subscribers

Between the two registries there is a notice: whoever erases a subscriber goes on to its table
entry. -/

/-- The notice of a loss, on its way or sent. -/
def Noticed (sh : Shared) (p : Multiset Section) (sub : Subscription) : Prop :=
  ∃ c key why, .send c (.terminated sub key why) ∈ p ∨ (c, .terminated sub key why) ∈ sh.sent

/-- A subscriber is in its connection's table, but for the moment an unsubscribe takes between the
two. -/
structure Tabled (sh : Shared) (p : Multiset Section) : Prop where
  subscriber : ∀ o sub, sh.subscribers o = some sub →
    sh.held sub.conn sub.clientId = some ⟨sub.key, sub.owner⟩ ∨
      ∃ rest, sh.service = .forget sub rest
  registering : ∀ sub rest, sh.service = .register sub rest →
    sh.held sub.conn sub.clientId = some ⟨sub.key, sub.owner⟩
  forgetting : ∀ sub rest, sh.service = .forget sub rest → sh.held sub.conn sub.clientId = none
  noticed : ∀ sub, Noticed sh p sub →
    ∀ e, sh.held sub.conn sub.clientId = some e → e.owner ≠ sub.owner

theorem Act.of_noticed (h : Act limit sh cause sh' made) {others : Multiset Section}
    {sub : Subscription} (hn : Noticed sh' (↑made + others) sub) :
    Noticed sh (cause.used + others) sub ∨ ∃ key why, cause = .run (.release sub key why) := by
  obtain ⟨c, key, why, hy | hy⟩ := hn
  · rcases Multiset.mem_add.mp hy with hy | hy
    · cases h with
      | hub hx hexec =>
          obtain ⟨z, _, hz⟩ := List.mem_map.mp hy
          cases hz
      | @release s key why =>
          cases List.mem_singleton.mp hy
          exact .inr ⟨key, why, rfl⟩
      | @answer _ _ _ _ _ m hs hn hm =>
          cases List.mem_singleton.mp hy
          cases hm
      | outside hmade =>
          obtain ⟨x, hx, _⟩ := hmade _ hy
          cases hx
      | joined | failed | lost | heard | dropSubscriber | releaseKey | submit | releaseRefused
      | unhook => cases List.mem_singleton.mp hy
      | _ => cases hy
    · exact .inl ⟨c, key, why, .inl (Multiset.mem_add.mpr (.inr hy))⟩
  · rcases h.sent with heq | ⟨c', m, hcause, heq⟩
    · exact .inl ⟨c, key, why, .inr (heq ▸ hy)⟩
    · rw [heq] at hy
      rcases List.mem_append.mp hy with hy | hy
      · exact .inl ⟨c, key, why, .inr hy⟩
      · cases List.mem_singleton.mp hy
        exact .inl ⟨c, key, why, .inl (Cause.mem_used hcause)⟩

/-- While an unsubscribe or a job's failure frees a client id, no subscriber is registered under
it. -/
theorem Frees.dead {others : Multiset Section} {c : Nat} {id : ClientId} {e : Entry}
    (hf : Frees sh c id e cause sh') (hE : ∀ o, Ended sh (cause.used + others) o → sh.Dead o) :
    sh.Dead e.owner ∨ ∃ queued rest, cause = .call (.serve queued) ∧
      sh.service = .requests c (.unsubscribe id :: rest) ∧
      sh'.service = .forget ⟨e.owner, c, id, e.key⟩ rest := by
  cases hf with
  | @failed s _ _ _ ho => exact .inl (hE _ (.pending (Cause.mem_used rfl) rfl ho))
  | @lost s _ _ _ _ _ ho => exact .inl (hE _ (.pending (Cause.mem_used rfl) rfl ho))
  | refused hs _ _ ho =>
      refine .inl (hE _ (.serving ?_))
      rw [hs, ← ho]
      exact List.mem_singleton_self _
  | taken hs hs' => exact .inr ⟨_, _, rfl, hs, hs'⟩

/-- **Step.** -/
theorem Tabled.step {others : Multiset Section} (hT : Tabled sh (cause.used + others))
    (hC : Conns sh) (hK : Known sh (cause.used + others))
    (hE : ∀ o, Ended sh (cause.used + others) o → sh.Dead o) (h : Act limit sh cause sh' made) :
    Tabled sh' (↑made + others) := by
  -- an entry stays while its subscriber is alive, unless an unsubscribe takes it
  have hkeep : ∀ sub : Subscription, sh.claimed sub.owner = some sub → ¬ sh.Dead sub.owner →
      sh.held sub.conn sub.clientId = some ⟨sub.key, sub.owner⟩ →
      sh'.held sub.conn sub.clientId = some ⟨sub.key, sub.owner⟩ ∨
        ∃ rest, sh.service = .requests sub.conn (.unsubscribe sub.clientId :: rest) ∧
          sh'.service = .forget sub rest := by
    intro sub hclaim halive hheld
    rcases h.held hheld (hC.claimed _ sub hclaim) with hsame | ⟨_, hfrees⟩
    · exact .inl hsame
    · rcases hfrees.dead hE with hdead | ⟨_, rest, _, hs, hs'⟩
      · exact absurd hdead halive
      · exact .inr ⟨rest, hs, hs'⟩
  refine ⟨fun o sub hsub => ?_, fun sub rest hserv => ?_, fun sub rest hserv => ?_,
    fun sub hn e he => ?_⟩
  · rcases h.of_subscribers hsub with hold | ⟨rfl, rest, hserv, hserv'⟩
    · obtain ⟨rfl, hclaim⟩ := hK.subscriber o sub hold
      have halive : ¬ sh.Dead sub.owner := fun hD => by cases hD.subscribers.symm.trans hold
      rcases hT.subscriber _ sub hold with hheld | ⟨rest, hserv⟩
      · rcases hkeep sub hclaim halive hheld with hsame | ⟨rest, _, hserv'⟩
        · exact .inl hsame
        · exact .inr ⟨rest, hserv'⟩
      · rcases h.forget_step hserv with hserv' | ⟨_, hnone⟩
        · exact .inr ⟨rest, hserv'⟩
        · cases hnone.symm.trans hsub
    · have hclaim := hK.serving sub (by rw [hserv]; rfl)
      have halive : ¬ sh.Dead sub.owner := fun hD => hD.registering sub rest hserv rfl
      rcases hkeep sub hclaim halive (hT.registering sub rest hserv) with hsame | ⟨_, hserv', _⟩
      · exact .inl hsame
      · cases hserv.symm.trans hserv'
  · rcases h.registering hserv with hold | ⟨_, _, hheld⟩
    · have hclaim := hK.serving sub (by rw [hold]; rfl)
      have halive : ¬ sh.Dead sub.owner := fun hD => hD.registering sub rest hold rfl
      rcases hkeep sub hclaim halive (hT.registering sub rest hold) with hsame | ⟨_, hserv', _⟩
      · exact hsame
      · cases hold.symm.trans hserv'
    · exact hheld
  · rcases h.of_forget hserv with hold | hnone
    · cases hheld : sh'.held sub.conn sub.clientId with
      | none => rfl
      | some e =>
          rcases h.of_held hheld with hbefore | ⟨_, rest', hserv'⟩
          · cases (hT.forgetting sub rest hold).symm.trans hbefore
          · cases hserv.symm.trans hserv'
    · exact hnone
  · have hold : (∀ e, sh.held sub.conn sub.clientId = some e → e.owner ≠ sub.owner) ∨
        ∃ key why, cause = .run (.release sub key why) := by
      rcases h.of_noticed hn with hn | hrelease
      · exact .inl (hT.noticed sub hn)
      · exact .inr hrelease
    rcases hold with hold | ⟨key, why, rfl⟩
    · rcases h.of_held he with hbefore | ⟨hnew, _⟩
      · exact hold e hbefore
      · have hclaim : ∃ s, sh.claimed sub.owner = some s := by
          rcases h.of_noticed hn with ⟨c, key, why, hp | hp⟩ | ⟨key, why, hcause⟩
          · exact ⟨_, hK.pending _ hp sub rfl⟩
          · exact ⟨_, hK.sent _ hp sub rfl⟩
          · exact ⟨_, hK.pending _ (Cause.mem_used hcause) sub rfl⟩
        obtain ⟨s, hs⟩ := hclaim
        rw [hnew]
        exact (Nat.ne_of_lt (hK.claims _ s hs).2).symm
    · cases h with
      | release => exact Shared.owner_ne_of_releaseKey he

/-! ## The ledger

The parts together. Each needs the others in its step. -/

structure Ledger (sh : Shared) (p : Multiset Section) : Prop where
  conns : Conns sh
  known : Known sh p
  counted : Counted sh p
  offHub : OffHub sh p
  ended : ∀ o, Ended sh p o → sh.Dead o
  tabled : Tabled sh p

/-- **Step.** -/
theorem Ledger.step {others : Multiset Section} (hL : Ledger sh (cause.used + others))
    (h : Act limit sh cause sh' made) : Ledger sh' (↑made + others) where
  conns := hL.conns.step h
  known := hL.known.step h
  counted := hL.counted.step hL.known h
  offHub := hL.offHub.step hL.known hL.counted h
  ended o he := by
    rcases h.of_ended hL.known hL.counted hL.offHub he with hold | hdead
    · exact (hL.ended o hold).step hL.known h
    · exact hdead
  tabled := hL.tabled.step hL.conns hL.known hL.ended h

theorem start_lost (o : Nat) : ¬ Lost start.shared 0 o := by
  rintro (⟨x, hx, _⟩ | ⟨y, hy, _⟩)
  · exact Multiset.notMem_zero x hx
  · cases hy

theorem ledger_start : Ledger start.shared start.pending where
  conns := by
    refine ⟨fun s c h => ?_, fun c h => ?_, fun s h => ?_, fun s c h => ?_, fun o sub h => ?_⟩
    all_goals cases h
  known := by
    refine ⟨fun key a h => ?_, fun o sub h => ?_, fun o sub h => ?_, fun c id e h => ?_,
      fun key o h => ?_, fun sub h => ?_, fun x h => ?_, fun x h => ?_, fun y h => ?_⟩
    all_goals cases h
  counted := ⟨Multiset.nodup_zero, fun c id e h => by cases h⟩
  offHub := by
    refine ⟨?_, fun o h => absurd h (start_lost o)⟩
    rintro sub (h | ⟨x, hx, _⟩)
    · cases h
    · exact absurd hx (Multiset.notMem_zero x)
  ended o h := by
    cases h with
    | serving h => cases h
    | pending hx => exact absurd hx (Multiset.notMem_zero _)
    | sent hy => cases hy
    | unsubscribed h => cases h
  tabled := by
    refine ⟨fun o sub h => ?_, fun sub rest h => ?_, fun sub rest h => ?_, ?_⟩
    · cases h
    · cases h
    · cases h
    · rintro sub ⟨c, key, why, hx | hy⟩
      · exact absurd hx (Multiset.notMem_zero _)
      · cases hy

/-! ## Runs

The ledger holds in every run, so a guarded invariant may assume it at each move. -/

/-- The guard of a run, for a move by its cause. -/
def Allows (G : Guard Shared Section Choice BridgeEntry) (sh : Shared) (p : Multiset Section) :
    Cause → Prop
  | .run x => ∃ ch, G.run sh p x ch
  | .call ev => G.enter sh p ev

/-- **Run.** The ledger holds in every run, and so does whatever a move keeps together with it. -/
theorem ledger_and_of_run {G : Guard Shared Section Choice BridgeEntry}
    {J : Shared → Multiset Section → Prop} (h₀ : J start.shared start.pending)
    (hstep : ∀ {sh sh' : Shared} {cause : Cause} {made : List Section} {others : Multiset Section},
      Ledger sh (cause.used + others) → J sh (cause.used + others) →
      Allows G sh (cause.used + others) cause → Act limit sh cause sh' made →
      J sh' (↑made + others))
    {s : State Shared Section} (h : Run (bridge limit) G start s) :
    Ledger s.shared s.pending ∧ J s.shared s.pending := by
  refine Run.invariant (I := fun sh p => Ledger sh p ∧ J sh p) ⟨ledger_start, h₀⟩ ?_ ?_ h
  · intro sh x ch e others hI hok hexec
    obtain ⟨made, hmade, hact⟩ := exec_act hexec
    rw [hmade]
    have hok' : Allows G sh ((Cause.run x).used + others) (.run x) := ⟨ch, hok⟩
    exact ⟨Ledger.step hI.1 hact, hstep hI.1 hI.2 hok' hact⟩
  · intro sh ev e p hI hok henter
    obtain ⟨made, hmade, hact⟩ := enter_act henter
    have hzero : (Cause.call ev).used + p = p := zero_add p
    rw [hmade]
    rw [← hzero] at hI hok
    exact ⟨hI.1.step hact, hstep hI.1 hI.2 hok hact⟩

end JsonRpcBridge.Subscriptions
