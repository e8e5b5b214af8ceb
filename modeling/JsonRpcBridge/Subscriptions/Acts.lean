import JsonRpcBridge.Subscriptions.Bridge

/-!
# What a move of the bridge can do

`Act` lists everything one move can do to the registries, one constructor for each branch of `exec`,
`serve` and `enter` that changes them differently. `exec_act` and `enter_act` are the inversions;
the invariants of the bridge go by cases on `Act`.
-/

namespace JsonRpcBridge.Subscriptions

open Interleaving Upstream

namespace Shared

/-- The entry of a client id in a connection's table. -/
def held (sh : Shared) (c : Nat) (id : ClientId) : Option Entry := (sh.conns c).subs.find id

variable {sh : Shared}

/-! ### Tables and releases -/

theorem held_setSubs {c c' : Nat} {id : ClientId} {t : SubscriptionTable} :
    (sh.setSubs c t).held c' id = if c' = c then t.find id else sh.held c' id := by
  unfold held setSubs
  by_cases hc : c' = c
  · subst hc
    simp
  · simp [hc]

/-- A release frees the id of its own subscription and nothing else. -/
theorem held_releaseKey {sub : Subscription} {c : Nat} {id : ClientId} :
    (sh.releaseKey sub).held c id =
      if c = sub.conn ∧ id = sub.clientId ∧ (sh.held c id).any (·.owner = sub.owner) then none
      else sh.held c id := by
  rw [releaseKey, held_setSubs]
  by_cases hc : c = sub.conn
  · subst hc
    rw [if_pos rfl, SubscriptionTable.find_release]
    by_cases hid : id = sub.clientId
    · subst hid
      simp [held]
    · simp [hid, held]
  · simp [hc]

theorem owner_ne_of_releaseKey {sub : Subscription} {e : Entry}
    (h : (sh.releaseKey sub).held sub.conn sub.clientId = some e) : e.owner ≠ sub.owner := by
  intro howner
  rw [held_releaseKey] at h
  split at h
  · cases h
  · rename_i hne
    exact hne ⟨rfl, rfl, by simp [h, howner]⟩

end Shared

/-! ## The acts

One constructor for each branch of the model that does something, with the guards that lead to
it. -/

/-- A section that runs, or an entry point that is called. -/
inductive Cause where
  | run (x : Section)
  | call (ev : BridgeEntry)

/-- The section a move takes from those pending. -/
def Cause.used : Cause → Multiset Section
  | .run x => {x}
  | .call _ => 0

/-- The subscription a frame is about. -/
def Message.sub? : Message → Option Subscription
  | .registered sub | .terminated sub _ _ | .event sub _ _ _ => some sub
  | .unsubscribed _ removed => removed
  | .active .. | .refused _ => none

/-- `Act limit sh cause sh' made`: the move leads from `sh` to `sh'` and adds the sections `made`.
-/
inductive Act (limit : Int) (sh : Shared) : Cause → Shared → List Section → Prop
  | hub {x : Pc Subscription} {valid : Bool} {hub' : Hub} {next : List (Pc Subscription)}
      (hx : x.returns = false) (h : sh.hub.exec x valid = some (hub', next)) :
      Act limit sh (.run (.hub x)) { sh with hub := hub' } (next.map .hub)
  | joined {sub : Subscription} :
      Act limit sh (.run (.hub (.added sub true))) sh [.send sub.conn (.registered sub)]
  | failed {sub : Subscription} :
      Act limit sh (.run (.hub (.added sub false))) sh [.dropSubscriber sub]
  | lostUnknown {sid : Nat} {key : Key} {why : Bytes} (hsub : sh.subscribers sid = none) :
      Act limit sh (.run (.hub (.onLost sid key why))) sh []
  | lostUnattached {sid : Nat} {key : Key} {why : Bytes} {sub : Subscription}
      (hsub : sh.subscribers sid = some sub) (hconn : sh.attached sub.conn = false) :
      Act limit sh (.run (.hub (.onLost sid key why))) (sh.eraseSubscriber sid) []
  | lost {sid : Nat} {key : Key} {why : Bytes} {sub : Subscription}
      (hsub : sh.subscribers sid = some sub) :
      Act limit sh (.run (.hub (.onLost sid key why))) (sh.eraseSubscriber sid)
        [.release sub key why]
  | unheard {sid : Nat} {key : Key} {payload : Json} {generation : Nat} :
      Act limit sh (.run (.hub (.sink sid key payload generation))) sh []
  | heard {sid : Nat} {key : Key} {payload : Json} {generation : Nat} {sub : Subscription}
      (hsub : sh.subscribers sid = some sub) :
      Act limit sh (.run (.hub (.sink sid key payload generation))) sh
        [.send sub.conn (.event sub key payload generation)]
  | dropSubscriber {sub : Subscription} :
      Act limit sh (.run (.dropSubscriber sub)) (sh.eraseSubscriber sub.owner) [.releaseKey sub]
  | releaseKey {sub : Subscription} :
      Act limit sh (.run (.releaseKey sub)) (sh.releaseKey sub)
        [.send sub.conn (.refused notFound)]
  | release {sub : Subscription} {key : Key} {why : Bytes} :
      Act limit sh (.run (.release sub key why)) (sh.releaseKey sub)
        [.send sub.conn (.terminated sub key why)]
  | send {c : Nat} {m : Message} :
      Act limit sh (.run (.send c m)) { sh with sent := sh.sent ++ [(c, m)] } []
  | finish {queued : Bool} {c : Nat} (hs : sh.service = .requests c []) :
      Act limit sh (.call (.serve queued)) { sh with service := .idle } []
  /-- A subscribe that claims nothing, or an unsubscribe that takes nothing. -/
  | answer {queued : Bool} {c n : Nat} {r : Request} {rest : List Request} {m : Message}
      (hs : sh.service = .requests c (r :: rest)) (hn : sh.nextSubscriberId ≤ n)
      (hm : m.sub? = none) :
      Act limit sh (.call (.serve queued))
        { sh with nextSubscriberId := n, service := .requests c rest } [.send c m]
  | claim {queued : Bool} {c : Nat} {id : ClientId} {key : Key} {rest : List Request}
      {subs : SubscriptionTable} (hs : sh.service = .requests c (.subscribe id key :: rest))
      (hclaim : (sh.conns c).subs.claim id key sh.nextSubscriberId limit = (.fresh, subs)) :
      Act limit sh (.call (.serve queued))
        { sh.setSubs c subs with
          nextSubscriberId := sh.nextSubscriberId + 1
          service := .register ⟨sh.nextSubscriberId, c, id, key⟩ rest
          claimed := Function.update sh.claimed sh.nextSubscriberId
            (some ⟨sh.nextSubscriberId, c, id, key⟩) } []
  | take {queued : Bool} {c : Nat} {id : ClientId} {rest : List Request} {held : Entry}
      {subs : SubscriptionTable} (hs : sh.service = .requests c (.unsubscribe id :: rest))
      (htake : (sh.conns c).subs.take id = (some held, subs)) :
      Act limit sh (.call (.serve queued))
        { sh.setSubs c subs with service := .forget ⟨held.owner, c, id, held.key⟩ rest } []
  | register {queued : Bool} {sub : Subscription} {rest : List Request}
      (hs : sh.service = .register sub rest) :
      Act limit sh (.call (.serve queued))
        { sh with
          subscribers := Function.update sh.subscribers sub.owner (some sub)
          service := .submit sub rest } []
  | submit {queued : Bool} {sub : Subscription} {rest : List Request}
      (hs : sh.service = .submit sub rest) :
      Act limit sh (.call (.serve queued)) { sh with service := .requests sub.conn rest }
        [.hub (.add sub sub.key sub.owner)]
  | refuse {queued : Bool} {sub : Subscription} {rest : List Request}
      (hs : sh.service = .submit sub rest) :
      Act limit sh (.call (.serve queued)) { sh with service := .dropSubscriber sub rest } []
  | dropRefused {queued : Bool} {sub : Subscription} {rest : List Request}
      (hs : sh.service = .dropSubscriber sub rest) :
      Act limit sh (.call (.serve queued))
        { sh.eraseSubscriber sub.owner with service := .releaseKey sub rest } []
  | releaseRefused {queued : Bool} {sub : Subscription} {rest : List Request}
      (hs : sh.service = .releaseKey sub rest) :
      Act limit sh (.call (.serve queued))
        { sh.releaseKey sub with service := .requests sub.conn rest }
        [.send sub.conn (.refused shuttingDown)]
  | forget {queued : Bool} {sub : Subscription} {rest : List Request}
      (hs : sh.service = .forget sub rest) :
      Act limit sh (.call (.serve queued))
        { sh.eraseSubscriber sub.owner with service := .unhook sub rest } []
  | unhook {queued : Bool} {sub : Subscription} {rest : List Request} {hub' : Hub}
      {next : List (Pc Subscription)} (hs : sh.service = .unhook sub rest)
      (h : sh.hub.exec (.remove sub.key sub.owner : Pc Subscription) true = some (hub', next)) :
      Act limit sh (.call (.serve queued))
        { sh with
          hub := hub', service := .requests sub.conn rest
          unsubscribed := sub :: sh.unsubscribed }
        [.send sub.conn (.unsubscribed sub.clientId (some sub))]
  | sweep {queued : Bool} {socket c : Nat} (hs : sh.service = .sweep socket c) :
      Act limit sh (.call (.serve queued))
        { sh with
          subscribers := fun sid => (sh.subscribers sid).filter fun sub => sub.conn != c
          service := .unhookAll socket (sh.subscribersOf c) } []
  | unhookNext {queued : Bool} {socket sid : Nat} {ids : List Nat} {hub' : Hub}
      {next : List (Pc Subscription)} (hs : sh.service = .unhookAll socket (sid :: ids))
      (h : sh.hub.exec (.removeEverywhere sid : Pc Subscription) true = some (hub', next)) :
      Act limit sh (.call (.serve queued))
        { sh with hub := hub', service := .unhookAll socket ids } []
  | close {queued : Bool} {socket : Nat} (hs : sh.service = .unhookAll socket []) :
      Act limit sh (.call (.serve queued))
        { sh with closed := Function.update sh.closed socket true, service := .idle } []
  | attach {socket : Nat} {isWebsocket : Bool} (hs : sh.service = .idle)
      (hclosed : sh.closed socket = false)
      (hcurrent : ∀ c, sh.current socket = some c → (sh.conns c).isWebsocket = false) :
      Act limit sh (.call (.attach socket isWebsocket))
        { sh with
          conns := Function.update sh.conns sh.nextConn { socket, isWebsocket }
          nextConn := sh.nextConn + 1
          current := Function.update sh.current socket (some sh.nextConn) } []
  | body {c : Nat} {requests : List Request} (hs : sh.service = .idle)
      (hconn : sh.attached c = true) :
      Act limit sh (.call (.body c requests)) { sh with service := .requests c requests } []
  | detachWebsocket {socket c : Nat} (hs : sh.service = .idle)
      (hcurrent : sh.current socket = some c) (hws : (sh.conns c).isWebsocket = true) :
      Act limit sh (.call (.detach socket))
        { sh with
          current := Function.update sh.current socket none, service := .sweep socket c } []
  | detachHttp {socket c : Nat} (hs : sh.service = .idle)
      (hcurrent : sh.current socket = some c) (hws : (sh.conns c).isWebsocket = false) :
      Act limit sh (.call (.detach socket))
        { sh with
          current := Function.update sh.current socket none
          closed := Function.update sh.closed socket true } []
  /-- A delivery thread starts, or a client is replaced. -/
  | outside {ev : BridgeEntry} {clients : Clients} {made : List Section}
      (hmade : ∀ y ∈ made, ∃ x : Pc Subscription, y = .hub x ∧ x.plain = true) :
      Act limit sh (.call ev) { sh with hub := { sh.hub with clients } } made

/-! ## Inversion

Each branch of the three functions is one of the constructors. -/

variable {limit : Int} {sh : Shared} {e : Effect Shared Section}

theorem exec_act {x : Section} {ch : Choice} (h : exec sh x ch = some e) :
    ∃ made : List Section, e.made = ↑made ∧ Act limit sh (.run x) e.shared made := by
  refine ⟨e.next ++ e.spawn.flatten, rfl, ?_⟩
  cases x with
  | hub x =>
      cases x with
      | added sub ok =>
          cases ok <;> cases h
          · exact .failed
          · exact .joined
      | onLost sid key why =>
          simp only [exec] at h
          split at h <;> cases h
          · exact .lostUnknown ‹_›
          · rename_i sub hsub
            by_cases halive : (ch.alive || sh.attached sub.conn) = true
            · simp only [halive, if_true]
              exact .lost hsub
            · simp only [halive]
              exact .lostUnattached hsub (by simp_all)
      | sink sid key payload generation =>
          simp only [exec] at h
          split at h <;> cases h
          · exact .unheard
          · rename_i sub hsub
            by_cases halive : (ch.alive || sh.attached sub.conn) = true
            · simp only [halive, if_true]
              exact .heard hsub
            · simp only [halive]
              exact .unheard
      | _ =>
          simp only [exec] at h
          obtain ⟨⟨hub', next⟩, hexec, rfl⟩ := Option.map_eq_some_iff.mp h
          simp only [List.flatten_nil, List.append_nil]
          exact .hub rfl hexec
  | dropSubscriber sub => cases h; exact .dropSubscriber
  | releaseKey sub => cases h; exact .releaseKey
  | release sub key why => cases h; exact .release
  | send c m => cases h; exact .send

theorem serve_act {queued : Bool} (h : serve limit sh queued = some e) :
    ∃ made : List Section, e.made = ↑made ∧ Act limit sh (.call (.serve queued)) e.shared made := by
  refine ⟨e.next ++ e.spawn.flatten, rfl, ?_⟩
  unfold serve at h
  split at h
  case h_1 => cases h
  case h_2 hs => cases h; exact .finish hs
  case h_3 c id key rest hs =>
    cases h
    -- the outcome of the claim is what the service thread goes on with
    cases hclaim : (sh.conns c).subs.claim id key sh.nextSubscriberId limit with
    | mk outcome subs =>
        simp only [subscribe, hclaim]
        cases outcome with
        | fresh => exact .claim hs hclaim
        | duplicate => exact .answer hs (Nat.le_succ _) rfl
        | full => exact .answer hs (Nat.le_succ _) rfl
  case h_4 c id rest hs =>
    cases h
    cases htake : (sh.conns c).subs.take id with
    | mk taken subs =>
        simp only [unsubscribe, htake]
        cases taken with
        | some held => exact .take hs htake
        | none => exact .answer hs (Nat.le_refl _) rfl
  case h_5 hs => cases h; exact .register hs
  case h_6 hs =>
    split at h <;> cases h
    · exact .submit hs
    · exact .refuse hs
  case h_7 hs => cases h; exact .dropRefused hs
  case h_8 hs => cases h; exact .releaseRefused hs
  case h_9 hs => cases h; exact .forget hs
  case h_10 hs =>
    obtain ⟨⟨hub', next⟩, hexec, rfl⟩ := Option.map_eq_some_iff.mp h
    exact .unhook hs hexec
  case h_11 hs => cases h; exact .sweep hs
  case h_12 hs => cases h; exact .close hs
  case h_13 hs =>
    obtain ⟨⟨hub', next⟩, hexec, rfl⟩ := Option.map_eq_some_iff.mp h
    exact .unhookNext hs hexec

theorem enter_act {ev : BridgeEntry} (h : enter limit sh ev = some e) :
    ∃ made : List Section, e.made = ↑made ∧ Act limit sh (.call ev) e.shared made := by
  cases ev with
  | serve queued => exact serve_act h
  | attach socket isWebsocket =>
      simp only [enter] at h
      split at h <;> cases h
      rename_i hs hclosed hcurrent
      refine ⟨[], rfl, .attach hs hclosed ?_⟩
      intro c hc
      simpa [hc] using hcurrent
  | body c requests =>
      simp only [enter] at h
      split at h <;> cases h
      rename_i hs hconn
      exact ⟨[], rfl, .body hs hconn⟩
  | detach socket =>
      simp only [enter] at h
      split at h <;> cases h
      rename_i c hs hcurrent
      refine ⟨[], rfl, ?_⟩
      by_cases hws : (sh.conns c).isWebsocket = true
      · simp only [hws, if_true]
        exact .detachWebsocket hs hcurrent hws
      · simp only [hws]
        exact .detachHttp hs hcurrent (by simpa using hws)
  | replace m =>
      cases h
      exact ⟨_, rfl, .outside (by simp [Pc.plain, Pc.op?])⟩
  | status m epoch gone =>
      cases h
      exact ⟨_, rfl, .outside (by simp [Pc.plain, Pc.op?])⟩
  | moduleLost m why =>
      cases h
      exact ⟨_, rfl, .outside (by simp [Pc.plain, Pc.op?])⟩
  | deliver a payload =>
      cases h
      exact ⟨_, rfl, .outside (by simp [Pc.plain, Pc.op?])⟩

/-! ## What can happen to each registry

The same moves, seen from one registry at a time: what of it was there before, and what came or
went by which move. -/

/-- The subscription a section is about. -/
def Section.sub? : Section → Option Subscription
  | .hub x => x.op?
  | .dropSubscriber sub | .releaseKey sub | .release sub _ _ => some sub
  | .send _ m => m.sub?

def Service.sub? : Service → Option Subscription
  | .register sub _ | .submit sub _ | .dropSubscriber sub _ | .releaseKey sub _
  | .forget sub _ | .unhook sub _ => some sub
  | _ => none

variable {sh' : Shared} {cause : Cause} {made : List Section}

theorem Act.claimed (h : Act limit sh cause sh' made) :
    (sh'.claimed = sh.claimed ∧ sh.nextSubscriberId ≤ sh'.nextSubscriberId) ∨
    ∃ c id key rest, sh.service = .requests c (.subscribe id key :: rest) ∧
      sh'.service = .register ⟨sh.nextSubscriberId, c, id, key⟩ rest ∧
      sh'.nextSubscriberId = sh.nextSubscriberId + 1 ∧
      sh'.claimed = Function.update sh.claimed sh.nextSubscriberId
        (some ⟨sh.nextSubscriberId, c, id, key⟩) := by
  cases h with
  | claim hs hclaim => exact .inr ⟨_, _, _, _, hs, rfl, rfl, rfl⟩
  | answer hs hn hm => exact .inl ⟨rfl, hn⟩
  | _ => exact .inl ⟨rfl, Nat.le_refl _⟩

/-- A subscriber is registered by the service thread alone. -/
theorem Act.of_subscribers (h : Act limit sh cause sh' made) {o : Nat} {sub : Subscription}
    (hsub : sh'.subscribers o = some sub) : sh.subscribers o = some sub ∨
      o = sub.owner ∧ ∃ rest, sh.service = .register sub rest ∧ sh'.service = .submit sub rest := by
  have herase : ∀ o', (sh.eraseSubscriber o').subscribers o = some sub →
      sh.subscribers o = some sub := by
    intro o' ho'
    by_cases hne : o = o'
    · subst hne
      simp [Shared.eraseSubscriber] at ho'
    · simpa [Shared.eraseSubscriber, Function.update_of_ne hne] using ho'
  cases h with
  | lost | lostUnattached | dropSubscriber | dropRefused | forget => exact .inl (herase _ hsub)
  | @register _ sub' rest hs =>
      by_cases hne : o = sub'.owner
      · subst hne
        simp only [Function.update_self, Option.some.injEq] at hsub
        subst hsub
        exact .inr ⟨rfl, rest, hs, rfl⟩
      · simp only [Function.update_of_ne hne] at hsub
        exact .inl hsub
  | sweep hs =>
      obtain ⟨hsub, _⟩ := Option.filter_eq_some_iff.mp hsub
      exact .inl hsub
  | _ => exact .inl hsub

/-! ### Who erases a subscriber -/

/-- Who takes a subscriber out of `m_subscribers`. -/
inductive Erases (sh : Shared) (o : Nat) (sub : Subscription) : Cause → Shared → Prop
  | lost {key : Key} {why : Bytes} {sh' : Shared} :
      Erases sh o sub (.run (.hub (.onLost o key why))) sh'
  | failed {s : Subscription} {sh' : Shared} (ho : s.owner = o) :
      Erases sh o sub (.run (.dropSubscriber s)) sh'
  | refused {cause : Cause} {s : Subscription} {rest : List Request} {sh' : Shared}
      (hs : sh.service = .dropSubscriber s rest) (ho : s.owner = o) : Erases sh o sub cause sh'
  | unsubscribed {cause : Cause} {s : Subscription} {rest : List Request} {sh' : Shared}
      (hs : sh.service = .forget s rest) (hs' : sh'.service = .unhook s rest) (ho : s.owner = o) :
      Erases sh o sub cause sh'
  | closed {cause : Cause} {socket : Nat} {sh' : Shared} (hs : sh.service = .sweep socket sub.conn)
      (hs' : sh'.service = .unhookAll socket (sh.subscribersOf sub.conn)) :
      Erases sh o sub cause sh'

theorem Act.subscribers (h : Act limit sh cause sh' made) {o : Nat} {sub : Subscription}
    (hsub : sh.subscribers o = some sub) :
    sh'.subscribers o = some sub ∨
    (∃ s rest, sh.service = .register s rest ∧ s.owner = o ∧ sh'.subscribers o = some s) ∨
    sh'.subscribers o = none ∧ Erases sh o sub cause sh' := by
  -- four of the moves erase one subscriber, by its owner; a sweep erases those of a connection
  have herase : ∀ o', (sh.eraseSubscriber o').subscribers o = some sub ∨
      o' = o ∧ (sh.eraseSubscriber o').subscribers o = none := by
    intro o'
    by_cases hne : o = o'
    · subst hne
      simp [Shared.eraseSubscriber]
    · left
      simpa [Shared.eraseSubscriber, Function.update_of_ne hne] using hsub
  cases h with
  | @lost sid _ _ _ _ | @lostUnattached sid _ _ _ _ =>
      rcases herase sid with hkeep | ⟨rfl, hnone⟩
      · exact .inl hkeep
      · exact .inr (.inr ⟨hnone, .lost⟩)
  | @dropSubscriber s =>
      rcases herase s.owner with hkeep | ⟨rfl, hnone⟩
      · exact .inl hkeep
      · exact .inr (.inr ⟨hnone, .failed rfl⟩)
  | @dropRefused _ s rest hs =>
      rcases herase s.owner with hkeep | ⟨rfl, hnone⟩
      · exact .inl hkeep
      · exact .inr (.inr ⟨hnone, .refused hs rfl⟩)
  | @forget _ s rest hs =>
      rcases herase s.owner with hkeep | ⟨rfl, hnone⟩
      · exact .inl hkeep
      · exact .inr (.inr ⟨hnone, .unsubscribed hs rfl rfl⟩)
  | @register _ s rest hs =>
      by_cases hne : o = s.owner
      · exact .inr (.inl ⟨s, rest, hs, hne.symm, by simp [hne]⟩)
      · left
        simpa [Function.update_of_ne hne] using hsub
  | @sweep _ socket c hs =>
      by_cases hc : sub.conn = c
      · subst hc
        exact .inr (.inr ⟨by simp [hsub], .closed hs rfl⟩)
      · left
        simp [hsub, hc]
  | _ => exact .inl hsub

/-- An entry of a table is claimed by the service thread alone. -/
theorem Act.of_held (h : Act limit sh cause sh' made) {c : Nat} {id : ClientId} {e : Entry}
    (he : sh'.held c id = some e) : sh.held c id = some e ∨
      e.owner = sh.nextSubscriberId ∧ ∃ rest, sh'.service = .register ⟨e.owner, c, id, e.key⟩ rest := by
  -- a release takes entries away
  have hrelease : ∀ s, (sh.releaseKey s).held c id = some e → sh.held c id = some e := by
    intro s hs
    rw [Shared.held_releaseKey] at hs
    split at hs
    · cases hs
    · exact hs
  cases h with
  | releaseKey | release | releaseRefused => exact .inl (hrelease _ he)
  | @claim _ c' id' key rest subs hs hclaim =>
      replace he : (sh.setSubs c' subs).held c id = some e := he
      rw [Shared.held_setSubs] at he
      split at he
      · rename_i hc
        subst hc
        obtain ⟨hfree, hfind⟩ := SubscriptionTable.claim_fresh hclaim
        rw [hfind] at he
        split at he
        · rename_i hid
          subst hid
          cases he
          exact .inr ⟨rfl, rest, rfl⟩
        · exact .inl he
      · exact .inl he
  | @take _ c' id' rest held subs hs htake =>
      replace he : (sh.setSubs c' subs).held c id = some e := he
      rw [Shared.held_setSubs] at he
      split at he
      · rename_i hc
        subst hc
        obtain ⟨_, rfl⟩ := SubscriptionTable.take_eq_some htake
        rw [SubscriptionTable.find_erase] at he
        split at he
        · cases he
        · exact .inl he
      · exact .inl he
  | @attach socket isWebsocket hs hclosed hcurrent =>
      left
      by_cases hc : c = sh.nextConn
      · subst hc
        simp [Shared.held, SubscriptionTable.find] at he
      · simpa [Shared.held, Function.update_of_ne hc] using he
  | _ => exact .inl he

/-! ### Who frees a client id -/

/-- Who frees a client id. -/
inductive Frees (sh : Shared) (c : Nat) (id : ClientId) (e : Entry) : Cause → Shared → Prop
  | failed {s : Subscription} {sh' : Shared} (hc : s.conn = c) (hid : s.clientId = id)
      (ho : s.owner = e.owner) : Frees sh c id e (.run (.releaseKey s)) sh'
  | lost {s : Subscription} {key : Key} {why : Bytes} {sh' : Shared} (hc : s.conn = c)
      (hid : s.clientId = id) (ho : s.owner = e.owner) :
      Frees sh c id e (.run (.release s key why)) sh'
  | refused {queued : Bool} {s : Subscription} {rest : List Request} {sh' : Shared}
      (hs : sh.service = .releaseKey s rest) (hc : s.conn = c) (hid : s.clientId = id)
      (ho : s.owner = e.owner) : Frees sh c id e (.call (.serve queued)) sh'
  | taken {queued : Bool} {rest : List Request} {sh' : Shared}
      (hs : sh.service = .requests c (.unsubscribe id :: rest))
      (hs' : sh'.service = .forget ⟨e.owner, c, id, e.key⟩ rest) :
      Frees sh c id e (.call (.serve queued)) sh'

theorem Act.held (h : Act limit sh cause sh' made) {c : Nat} {id : ClientId} {e : Entry}
    (he : sh.held c id = some e) (hc : c < sh.nextConn) :
    sh'.held c id = some e ∨ sh'.held c id = none ∧ Frees sh c id e cause sh' := by
  -- a release frees the client id only where the entry is that of its own subscription
  have hrelease : ∀ s : Subscription, (sh.releaseKey s).held c id = some e ∨
      (s.conn = c ∧ s.clientId = id ∧ s.owner = e.owner) ∧
        (sh.releaseKey s).held c id = none := by
    intro s
    rw [Shared.held_releaseKey]
    split
    · rename_i hs
      obtain ⟨rfl, rfl, howner⟩ := hs
      rw [he] at howner
      exact .inr ⟨⟨rfl, rfl, (of_decide_eq_true howner).symm⟩, rfl⟩
    · exact .inl he
  cases h with
  | @releaseKey s =>
      rcases hrelease s with hkeep | ⟨⟨hc, hid, ho⟩, hnone⟩
      · exact .inl hkeep
      · exact .inr ⟨hnone, .failed hc hid ho⟩
  | @release s _ _ =>
      rcases hrelease s with hkeep | ⟨⟨hc, hid, ho⟩, hnone⟩
      · exact .inl hkeep
      · exact .inr ⟨hnone, .lost hc hid ho⟩
  | @releaseRefused _ s rest hs =>
      rcases hrelease s with hkeep | ⟨⟨hc, hid, ho⟩, hnone⟩
      · exact .inl hkeep
      · exact .inr ⟨hnone, .refused hs hc hid ho⟩
  | @claim _ c' id' key rest subs hs hclaim =>
      left
      show (sh.setSubs c' subs).held c id = some e
      rw [Shared.held_setSubs]
      split
      · rename_i hcc
        subst hcc
        obtain ⟨hfree, hfind⟩ := SubscriptionTable.claim_fresh hclaim
        rw [hfind]
        split
        · rename_i hid
          subst hid
          rw [Shared.held, hfree] at he
          cases he
        · exact he
      · exact he
  | @take _ c' id' rest held subs hs htake =>
      show (sh.setSubs c' subs).held c id = some e ∨ (sh.setSubs c' subs).held c id = none ∧ _
      rw [Shared.held_setSubs]
      split
      · rename_i hcc
        subst hcc
        obtain ⟨hfind, rfl⟩ := SubscriptionTable.take_eq_some htake
        rw [SubscriptionTable.find_erase]
        split
        · rename_i hid
          subst hid
          obtain rfl : held = e := Option.some.inj (hfind.symm.trans he)
          exact .inr ⟨rfl, .taken hs rfl⟩
        · exact .inl he
      · exact .inl he
  | @attach socket isWebsocket hs hclosed hcurrent =>
      left
      simpa [Shared.held, Function.update_of_ne (Nat.ne_of_lt hc)] using he
  | _ => exact .inl he

theorem Act.sent (h : Act limit sh cause sh' made) :
    sh'.sent = sh.sent ∨ ∃ c m, cause = .run (.send c m) ∧ sh'.sent = sh.sent ++ [(c, m)] := by
  cases h with
  | send => exact .inr ⟨_, _, rfl, rfl⟩
  | _ => exact .inl rfl

theorem Act.made_of_send {c : Nat} {m : Message} (h : Act limit sh (.run (.send c m)) sh' made) :
    made = [] := by
  cases h
  rfl

/-! ### What happens in the hub -/

/-- How a move came to change the subscriber sets of the hub. -/
inductive Rosters (sh : Shared) : Cause → Shared → Change → Prop
  | same {cause : Cause} {sh' : Shared} : Rosters sh cause sh' .none
  | run {x : Pc Subscription} {sh' : Shared} (hx : x.returns = false) :
      Rosters sh (.run (.hub x)) sh' (x.change sh.hub)
  | unhook {cause : Cause} {sub : Subscription} {rest : List Request} {sh' : Shared}
      (hs : sh.service = .unhook sub rest) : Rosters sh cause sh' (.leave sub.key sub.owner)
  | unhookNext {cause : Cause} {socket sid : Nat} {ids : List Nat} {sh' : Shared}
      (hs : sh.service = .unhookAll socket (sid :: ids)) : Rosters sh cause sh' (.leaveAll sid)

theorem Act.roster (h : Act limit sh cause sh' made) (hf : sh.hub.Filed) :
    sh'.hub.Filed ∧ ∃ change, Rosters sh cause sh' change ∧
      sh'.hub.roster = change.apply sh.hub.roster := by
  cases h with
  | hub hx hexec =>
      obtain ⟨hf', hroster⟩ := Hub.exec_roster hf hexec
      exact ⟨hf', _, .run hx, hroster⟩
  | unhook hs hexec =>
      obtain ⟨hf', hroster⟩ := Hub.exec_roster hf hexec
      exact ⟨hf', _, .unhook hs, hroster⟩
  | unhookNext hs hexec =>
      obtain ⟨hf', hroster⟩ := Hub.exec_roster hf hexec
      exact ⟨hf', _, .unhookNext hs, hroster⟩
  | _ => exact ⟨hf, .none, .same, rfl⟩

theorem Act.roster_run {x : Pc Subscription} (h : Act limit sh (.run (.hub x)) sh' made)
    (hf : sh.hub.Filed) (hx : x.returns = false) :
    sh'.hub.roster = (x.change sh.hub).apply sh.hub.roster := by
  cases h with
  | hub _ hexec => exact (Hub.exec_roster hf hexec).2
  | _ => cases hx

/-- Only an `add` puts an id into a subscriber set. -/
theorem Act.of_roster (h : Act limit sh cause sh' made) (hf : sh.hub.Filed) {key : Key} {o : Nat}
    (ho : o ∈ sh'.hub.roster key) : o ∈ sh.hub.roster key ∨
      ∃ sub, cause = .run (.hub (.add sub key o)) := by
  obtain ⟨_, change, hby, hroster⟩ := h.roster hf
  rw [hroster] at ho
  rcases Change.of_mem_apply ho with ⟨hold, _⟩ | hjoin
  · exact .inl hold
  · right
    cases hby with
    | same | unhook | unhookNext => cases hjoin
    | @run x _ hx =>
        cases x with
        | add sub k id =>
            simp only [Pc.change] at hjoin
            split at hjoin <;> cases hjoin
            exact ⟨sub, rfl⟩
        | undo =>
            simp only [Pc.change] at hjoin
            split at hjoin <;> cases hjoin
        | _ => cases hjoin

/-! ### What a section leaves -/

/-- What a section is about, what led to it was about, or `m_subscribers` holds it. -/
theorem Act.sub_of_made (h : Act limit sh cause sh' made) {y : Section} (hy : y ∈ made)
    {sub : Subscription} (hsub : y.sub? = some sub) :
    (∃ x, cause = .run x ∧ x.sub? = some sub) ∨ (∃ o, sh.subscribers o = some sub) ∨
      sh.service.sub? = some sub := by
  cases h with
  | @hub x valid hub' next hx hexec =>
      obtain ⟨z, hz, rfl⟩ := List.mem_map.mp hy
      have hmem : sub ∈ next.filterMap Pc.op? := List.mem_filterMap.mpr ⟨z, hz, hsub⟩
      rw [Hub.exec_op hexec, Option.mem_toList] at hmem
      exact .inl ⟨_, rfl, hmem⟩
  | lost hs | heard hs =>
      rw [List.mem_singleton.mp hy] at hsub
      cases hsub
      exact .inr (.inl ⟨_, hs⟩)
  | joined | failed | dropSubscriber | release =>
      rw [List.mem_singleton.mp hy] at hsub
      cases hsub
      exact .inl ⟨_, rfl, rfl⟩
  | releaseKey | releaseRefused =>
      rw [List.mem_singleton.mp hy] at hsub
      cases hsub
  | answer hs hn hm =>
      rw [List.mem_singleton.mp hy] at hsub
      cases hm.symm.trans hsub
  | submit hs | unhook hs =>
      rw [List.mem_singleton.mp hy] at hsub
      cases hsub
      exact .inr (.inr (by rw [hs]; rfl))
  | outside hmade =>
      obtain ⟨x, rfl, hx⟩ := hmade y hy
      cases (Pc.op?_of_plain hx).symm.trans hsub
  | _ => cases hy

/-- The service thread takes up a subscription it claims, or one it finds in a table. -/
theorem Act.serving (h : Act limit sh cause sh' made) {sub : Subscription}
    (hsub : sh'.service.sub? = some sub) : sh.service.sub? = some sub ∨
      (sub.owner = sh.nextSubscriberId ∧ ∃ rest, sh'.service = .register sub rest) ∨
      sh.held sub.conn sub.clientId = some ⟨sub.key, sub.owner⟩ ∧
        ∃ rest, sh'.service = .forget sub rest := by
  cases h with
  | claim hs hclaim =>
      cases hsub
      exact .inr (.inl ⟨rfl, _, rfl⟩)
  | take hs htake =>
      cases hsub
      obtain ⟨hfind, _⟩ := SubscriptionTable.take_eq_some htake
      exact .inr (.inr ⟨hfind, _, rfl⟩)
  | register hs | refuse hs | dropRefused hs | forget hs =>
      cases hsub
      exact .inl (by rw [hs]; rfl)
  | finish | answer | submit | releaseRefused | unhook | sweep | unhookNext | close | body
  | detachWebsocket => cases hsub
  | _ => exact .inl hsub

theorem Act.registering (h : Act limit sh cause sh' made) {sub : Subscription}
    {rest : List Request} (hserv : sh'.service = .register sub rest) :
    sh.service = .register sub rest ∨
      sub.owner = sh.nextSubscriberId ∧
        sh'.claimed = Function.update sh.claimed sub.owner (some sub) ∧
        sh'.held sub.conn sub.clientId = some ⟨sub.key, sub.owner⟩ := by
  cases h with
  | @claim _ c id key rest subs hs hclaim =>
      cases hserv
      refine .inr ⟨rfl, rfl, ?_⟩
      show (sh.setSubs c subs).held c id = _
      rw [Shared.held_setSubs, if_pos rfl, (SubscriptionTable.claim_fresh hclaim).2, if_pos rfl]
  | finish | answer | take | register | submit | refuse | dropRefused | releaseRefused | forget
  | unhook | sweep | unhookNext | close | body | detachWebsocket => cases hserv
  | _ => exact .inl hserv

/-- A section of the hub follows another, opens a job, or is started from outside. -/
theorem Act.hub_of_made (h : Act limit sh cause sh' made) {y : Pc Subscription}
    (hy : .hub y ∈ made) :
    (∃ x, cause = .run (.hub x) ∧ Pc.Follows sh.hub x y) ∨
    (∃ sub rest, sh.service = .submit sub rest ∧ y = .add sub sub.key sub.owner) ∨
    y.plain = true := by
  cases h with
  | hub hx hexec =>
      obtain ⟨z, hz, hzy⟩ := List.mem_map.mp hy
      cases hzy
      exact .inl ⟨_, rfl, Hub.exec_follows hexec hz⟩
  | submit hs =>
      cases List.mem_singleton.mp hy
      exact .inr (.inl ⟨_, _, hs, rfl⟩)
  | outside hmade =>
      obtain ⟨x, hxy, hx⟩ := hmade _ hy
      cases hxy
      exact .inr (.inr hx)
  | _ => simp at hy

/-- The service thread takes an entry out of a table before it forgets the subscriber. -/
theorem Act.of_forget (h : Act limit sh cause sh' made) {sub : Subscription} {rest : List Request}
    (hserv : sh'.service = .forget sub rest) :
    sh.service = .forget sub rest ∨ sh'.held sub.conn sub.clientId = none := by
  cases h with
  | @take _ c id rest held subs hs htake =>
      cases hserv
      right
      show (sh.setSubs c subs).held c id = none
      obtain ⟨_, rfl⟩ := SubscriptionTable.take_eq_some htake
      rw [Shared.held_setSubs, if_pos rfl, SubscriptionTable.find_erase, if_pos rfl]
  | finish | answer | claim | register | submit | refuse | dropRefused | releaseRefused | forget
  | unhook | sweep | unhookNext | close | body | detachWebsocket => cases hserv
  | _ => exact .inl hserv

theorem Act.forget_step (h : Act limit sh cause sh' made) {sub : Subscription}
    {rest : List Request} (hserv : sh.service = .forget sub rest) :
    sh'.service = .forget sub rest ∨
      sh'.service = .unhook sub rest ∧ sh'.subscribers sub.owner = none := by
  cases h with
  | forget hs =>
      cases hserv.symm.trans hs
      exact .inr ⟨rfl, by simp [Shared.eraseSubscriber]⟩
  | finish hs | answer hs | claim hs | take hs | register hs | submit hs | refuse hs
  | dropRefused hs | releaseRefused hs | unhook hs | sweep hs | unhookNext hs | close hs | body hs
  | detachWebsocket hs | attach hs | detachHttp hs => cases hserv.symm.trans hs
  | _ => exact .inl hserv

end JsonRpcBridge.Subscriptions
