import JsonRpcBridge.Subscriptions.Acts
import Mathlib.Tactic.Abel

/-!
# The ledger of subscriptions

What the registries say of one another in every state, whatever the order of moves.

A subscription that has been claimed is in the hands of exactly one party until it is acknowledged
or given up: the service thread, its pump job, or the answer on its way (`Shared.tokens`). `Ledger`
adds who is filed where: an entry of a table and a subscriber belong to their claim and to each
other, and a subscription that was ended stays out of `m_subscribers`, of its table and of the hub.
-/

namespace JsonRpcBridge.Subscriptions

open Interleaving Upstream

variable {limit : Int} {sh sh' : Shared} {cause : Cause} {made : List Section}

/-! ## Connections

A socket has one connection at a time, and the service thread is at one that was opened. -/

/-- The connection whose requests the service thread handles. -/
def Service.conn? : Service → Option Nat
  | .requests c _ => some c
  | .register sub _ | .submit sub _ | .dropSubscriber sub _ | .releaseKey sub _
  | .forget sub _ | .unhook sub _ => some sub.conn
  | .idle | .sweep .. | .unhookAll .. => none

/-- The socket the service thread is closing. -/
def Service.socket? : Service → Option Nat
  | .sweep socket _ | .unhookAll socket _ => some socket
  | _ => none

/-- `m_conns` holds a connection under its own socket, until that is closed. The service thread
handles requests of such a connection, and closes a socket that `m_conns` has let go. -/
structure Conns (sh : Shared) : Prop where
  current : ∀ s c, sh.current s = some c →
    c < sh.nextConn ∧ (sh.conns c).socket = s ∧ sh.closed s = false
  serving : ∀ c, sh.service.conn? = some c → c < sh.nextConn ∧ sh.attached c = true
  closing : ∀ s, sh.service.socket? = some s → sh.current s = none ∧ sh.closed s = false
  sweeping : ∀ s c, sh.service = .sweep s c → c < sh.nextConn ∧ (sh.conns c).socket = s
  claimed : ∀ o sub, sh.claimed o = some sub → sub.conn < sh.nextConn

theorem Conns.socket_of_attached (hC : Conns sh) {c : Nat} (hc : sh.attached c = true) :
    sh.closed (sh.conns c).socket = false :=
  (hC.current _ c (eq_of_beq hc)).2.2

/-- A connection keeps its socket and its kind. -/
theorem Act.conn (h : Act limit sh cause sh' made) {c : Nat} (hc : c < sh.nextConn) :
    c < sh'.nextConn ∧ (sh'.conns c).socket = (sh.conns c).socket ∧
      (sh'.conns c).isWebsocket = (sh.conns c).isWebsocket := by
  have hset : ∀ c' t, ((sh.setSubs c' t).conns c).socket = (sh.conns c).socket ∧
      ((sh.setSubs c' t).conns c).isWebsocket = (sh.conns c).isWebsocket := by
    intro c' t
    by_cases hcc : c = c'
    · subst hcc
      simp [Shared.setSubs]
    · simp [Shared.setSubs, Function.update_of_ne hcc]
  cases h with
  | releaseKey | release | releaseRefused | claim | take => exact ⟨hc, hset _ _⟩
  | attach =>
      have hne : c ≠ sh.nextConn := Nat.ne_of_lt hc
      exact ⟨Nat.lt_succ_of_lt hc, by simp [Function.update_of_ne hne]⟩
  | _ => exact ⟨hc, rfl, rfl⟩

/-- A move that attaches and detaches nothing. -/
theorem Conns.of_same (hC : Conns sh)
    (hconn : ∀ c, c < sh.nextConn →
      c < sh'.nextConn ∧ (sh'.conns c).socket = (sh.conns c).socket)
    (hcurrent : sh'.current = sh.current) (hclosed : sh'.closed = sh.closed)
    (hserving : ∀ c, sh'.service.conn? = some c → sh.service.conn? = some c)
    (hclosing : ∀ s, sh'.service.socket? = some s → sh.service.socket? = some s)
    (hsweeping : ∀ s c, sh'.service = .sweep s c → sh.service = .sweep s c)
    (hclaimed : ∀ o sub, sh'.claimed o = some sub → sub.conn < sh.nextConn) : Conns sh' where
  current s c hc := by
    rw [hcurrent] at hc
    obtain ⟨hlt, hsock, hopen⟩ := hC.current s c hc
    exact ⟨(hconn c hlt).1, (hconn c hlt).2.trans hsock, hclosed ▸ hopen⟩
  serving c hc := by
    obtain ⟨hlt, hatt⟩ := hC.serving c (hserving c hc)
    refine ⟨(hconn c hlt).1, ?_⟩
    rw [Shared.attached, (hconn c hlt).2, hcurrent]
    exact hatt
  closing s hs := by
    rw [hcurrent, hclosed]
    exact hC.closing s (hclosing s hs)
  sweeping s c hs := by
    obtain ⟨hlt, hsock⟩ := hC.sweeping s c (hsweeping s c hs)
    exact ⟨(hconn c hlt).1, (hconn c hlt).2.trans hsock⟩
  claimed o sub hsub := (hconn _ (hclaimed o sub hsub)).1

/-- **Step.** -/
theorem Conns.step (hC : Conns sh) (h : Act limit sh cause sh' made) : Conns sh' := by
  have hconn : ∀ c, c < sh.nextConn →
      c < sh'.nextConn ∧ (sh'.conns c).socket = (sh.conns c).socket :=
    fun c hc => ⟨(h.conn hc).1, (h.conn hc).2.1⟩
  cases h with
  -- the service thread attaches and detaches; between the two its connection is that of the socket
  | @attach socket isWebsocket hs hclosed hcurrent =>
      refine ⟨?_, ?_, ?_, ?_, fun o sub hsub => (hconn _ (hC.claimed o sub hsub)).1⟩
      · intro s c hc
        by_cases hss : s = socket
        · subst hss
          simp only [Function.update_self, Option.some.injEq] at hc
          subst hc
          exact ⟨Nat.lt_succ_self _, by simp, hclosed⟩
        · simp only [Function.update_of_ne hss] at hc
          obtain ⟨hlt, hsock, hopen⟩ := hC.current s c hc
          exact ⟨(hconn c hlt).1, (hconn c hlt).2.trans hsock, hopen⟩
      · intro c hc
        simp only [hs] at hc
        cases hc
      · intro s hsock
        simp only [hs] at hsock
        cases hsock
      · intro s c hserv
        cases hs.symm.trans hserv
  | @detachWebsocket socket c hs hcurrent hws =>
      obtain ⟨hlt, hsocket, hopen⟩ := hC.current socket c hcurrent
      refine ⟨?_, ?_, ?_, ?_, hC.claimed⟩
      · intro s c' hc'
        by_cases hss : s = socket
        · subst hss
          simp at hc'
        · simp only [Function.update_of_ne hss] at hc'
          exact hC.current s c' hc'
      · intro c' hc'
        cases hc'
      · intro s hsock
        cases hsock
        exact ⟨by simp, hopen⟩
      · intro s c' hserv
        cases hserv
        exact ⟨hlt, hsocket⟩
  | @detachHttp socket c hs hcurrent hws =>
      refine ⟨?_, ?_, ?_, ?_, hC.claimed⟩
      · intro s c' hc'
        by_cases hss : s = socket
        · subst hss
          simp at hc'
        · simp only [Function.update_of_ne hss] at hc' ⊢
          exact hC.current s c' hc'
      · intro c' hc'
        simp only [hs] at hc'
        cases hc'
      · intro s hsock
        simp only [hs] at hsock
        cases hsock
      · intro s c' hserv
        cases hs.symm.trans hserv
  | @close _ socket hs =>
      obtain ⟨hnone, _⟩ := hC.closing socket (by rw [hs]; rfl)
      refine ⟨?_, ?_, ?_, ?_, hC.claimed⟩
      · intro s c' hc'
        by_cases hss : s = socket
        · subst hss
          cases hnone.symm.trans hc'
        · simp only [Function.update_of_ne hss]
          exact hC.current s c' hc'
      · intro c' hc'
        cases hc'
      · intro s hsock
        cases hsock
      · intro s c' hserv
        cases hserv
  | @body c requests hs hatt =>
      refine ⟨hC.current, ?_, ?_, ?_, hC.claimed⟩
      · intro c' hc'
        cases hc'
        exact ⟨(hC.current _ c (eq_of_beq hatt)).1, hatt⟩
      · intro s hsock
        cases hsock
      · intro s c' hserv
        cases hserv
  | @claim _ c id key rest subs hs hclaim =>
      obtain ⟨hlt, _⟩ := hC.serving c (by rw [hs]; rfl)
      refine hC.of_same hconn rfl rfl ?_ ?_ ?_ ?_
      · exact fun c hc => by rw [hs]; exact hc
      · exact fun s hsock => by cases hsock
      · exact fun s c' hserv => by cases hserv
      -- a claim is of a connection that is being served
      · intro o sub hsub
        by_cases ho : o = sh.nextSubscriberId
        · subst ho
          simp only [Function.update_self, Option.some.injEq] at hsub
          subst hsub
          exact hlt
        · simp only [Function.update_of_ne ho] at hsub
          exact hC.claimed o sub hsub
  | sweep hs | unhookNext hs =>
      refine hC.of_same hconn rfl rfl ?_ ?_ ?_ hC.claimed
      · exact fun c hc => by cases hc
      · exact fun s hsock => by rw [hs]; exact hsock
      · exact fun s c' hserv => by cases hserv
  | finish hs =>
      refine hC.of_same hconn rfl rfl ?_ ?_ ?_ hC.claimed
      · exact fun c hc => by cases hc
      · exact fun s hsock => by cases hsock
      · exact fun s c' hserv => by cases hserv
  | answer hs | take hs | register hs | submit hs | refuse hs | dropRefused hs
  | releaseRefused hs | forget hs | unhook hs =>
      refine hC.of_same hconn rfl rfl ?_ ?_ ?_ hC.claimed
      · exact fun c hc => by rw [hs]; exact hc
      · exact fun s hsock => by cases hsock
      · exact fun s c' hserv => by cases hserv
  | _ =>
      exact hC.of_same hconn rfl rfl (fun c hc => hc) (fun s hsock => hsock) (fun s c hs => hs)
        hC.claimed

/-! ## In whose hands a subscription is

The token of a subscription is with its claim until the job has it, and ends in an
acknowledgement or in nothing. A move passes tokens on and makes one for each claim. -/

def Message.acked? : Message → Option Subscription
  | .registered sub => some sub
  | _ => none

def Section.token? : Section → Option Subscription
  | .hub x => x.op?
  | .dropSubscriber sub | .releaseKey sub => some sub
  | .send _ m => m.acked?
  | .release .. => none

def Service.token? : Service → Option Subscription
  | .register sub _ | .submit sub _ | .dropSubscriber sub _ | .releaseKey sub _ => some sub
  | _ => none

/-- Those in the hands of the service thread, and those acknowledged. -/
def Shared.ownTokens (sh : Shared) : Multiset Subscription :=
  ↑sh.service.token?.toList + ↑(sh.sent.filterMap fun y => y.2.acked?)

/-- All of them, with those of the jobs and of the answers on their way. -/
def Shared.tokens (sh : Shared) (p : Multiset Section) : Multiset Subscription :=
  sh.ownTokens + p.filterMap Section.token?

def Cause.tokens : Cause → Multiset Subscription
  | .run x => ↑x.token?.toList
  | .call _ => 0

/-- The tokens of the sections a move adds. -/
def tokensOf (made : List Section) : Multiset Subscription := ↑(made.filterMap Section.token?)

theorem Message.acked?_of_sub? {m : Message} (h : m.sub? = none) : m.acked? = none := by
  cases m with
  | registered sub => cases h
  | _ => rfl

theorem Shared.ownTokens_service {s : Service} (h : sh.service = s) :
    sh.ownTokens = ↑s.token?.toList + ↑(sh.sent.filterMap fun y => y.2.acked?) := by
  rw [ownTokens, h]

/-- **Step.** A move passes a subscription from hand to hand, claims a new one, or gives one up
after freeing its client id. -/
theorem Act.ownTokens (h : Act limit sh cause sh' made) :
    sh'.ownTokens + tokensOf made = sh.ownTokens + cause.tokens ∨
    (∃ sub rest, sub.owner = sh.nextSubscriberId ∧ sh'.service = .register sub rest ∧
      sh'.ownTokens + tokensOf made =
        sub ::ₘ (sh.ownTokens + cause.tokens)) ∨
    ∃ sub, sub ::ₘ (sh'.ownTokens + tokensOf made) =
        sh.ownTokens + cause.tokens ∧
      ∀ e, sh'.held sub.conn sub.clientId = some e → e.owner ≠ sub.owner := by
  cases h with
  -- a section of the hub hands its operation to the next one
  | @hub x valid hub' next hx hexec =>
      left
      have hnext : (next.map Section.hub).filterMap Section.token? = x.op?.toList := by
        rw [List.filterMap_map]
        exact Hub.exec_op hexec
      rw [tokensOf, hnext]
      rfl
  | @claim _ c id key rest subs hs hclaim =>
      right; left
      refine ⟨⟨sh.nextSubscriberId, c, id, key⟩, rest, rfl, rfl, ?_⟩
      rw [Shared.ownTokens_service hs]
      rfl
  | @releaseKey sub =>
      right; right
      refine ⟨sub, ?_, fun e => Shared.owner_ne_of_releaseKey⟩
      show sub ::ₘ (sh.ownTokens + 0) = sh.ownTokens + {sub}
      rw [add_zero, add_comm, Multiset.singleton_add]
  | @releaseRefused _ sub rest hs =>
      right; right
      refine ⟨sub, ?_, fun e => Shared.owner_ne_of_releaseKey⟩
      rw [Shared.ownTokens_service hs]
      rfl
  | @outside ev clients made hmade =>
      left
      have hnone : made.filterMap Section.token? = [] := by
        rw [List.filterMap_eq_nil_iff]
        intro y hy
        obtain ⟨x, rfl, hx⟩ := hmade y hy
        exact Pc.op?_of_plain hx
      rw [tokensOf, hnone]
      rfl
  -- the acknowledgement that was pending is sent
  | @send c m =>
      left
      have hsent : (sh.sent ++ [(c, m)]).filterMap (fun y => y.2.acked?) =
          sh.sent.filterMap (fun y => y.2.acked?) ++ m.acked?.toList := by
        rw [List.filterMap_append]
        cases hm : m.acked? <;> simp [hm]
      show (↑sh.service.token?.toList + ↑((sh.sent ++ [(c, m)]).filterMap fun y => y.2.acked?)) + 0 =
        sh.ownTokens + ↑m.acked?.toList
      rw [hsent, ← Multiset.coe_add, add_zero, Shared.ownTokens, add_assoc]
  | @answer _ c n r rest m hs hn hm =>
      left
      have hmade : [Section.send c m].filterMap Section.token? = [] := by
        simp [Section.token?, Message.acked?_of_sub? hm]
      rw [tokensOf, hmade, Shared.ownTokens_service hs]
      rfl
  | @submit _ sub rest hs =>
      left
      rw [Shared.ownTokens_service hs]
      show (0 + _) + ({sub} : Multiset Subscription) = ({sub} + _) + 0
      rw [zero_add, add_zero, add_comm]
  | finish hs | take hs | register hs | refuse hs | dropRefused hs | forget hs | unhook hs
  | sweep hs | unhookNext hs | close hs | body hs | detachWebsocket hs =>
      left
      rw [Shared.ownTokens_service hs]
      rfl
  | _ => exact .inl rfl

theorem Cause.filterMap_token (cause : Cause) :
    cause.used.filterMap Section.token? = cause.tokens := by
  cases cause with
  | run x =>
      show Multiset.filterMap Section.token? (x ::ₘ 0) = ↑x.token?.toList
      rw [filterMap_cons_toList, Multiset.filterMap_zero, add_zero]
  | call ev => rfl

/-- **Step**, with the sections of the other threads. -/
theorem Act.tokens (h : Act limit sh cause sh' made) (others : Multiset Section) :
    sh'.tokens (↑made + others) = sh.tokens (cause.used + others) ∨
    (∃ sub rest, sub.owner = sh.nextSubscriberId ∧ sh'.service = .register sub rest ∧
      sh'.tokens (↑made + others) = sub ::ₘ sh.tokens (cause.used + others)) ∨
    ∃ sub, sub ::ₘ sh'.tokens (↑made + others) = sh.tokens (cause.used + others) ∧
      ∀ e, sh'.held sub.conn sub.clientId = some e → e.owner ≠ sub.owner := by
  have hafter : sh'.tokens (↑made + others) =
      sh'.ownTokens + tokensOf made + others.filterMap Section.token? := by
    rw [Shared.tokens, Multiset.filterMap_add, Multiset.filterMap_coe, tokensOf, add_assoc]
  have hbefore : sh.tokens (cause.used + others) =
      sh.ownTokens + cause.tokens + others.filterMap Section.token? := by
    rw [Shared.tokens, Multiset.filterMap_add, cause.filterMap_token, add_assoc]
  rw [hafter, hbefore]
  rcases h.ownTokens with heq | ⟨sub, rest, howner, hserv, heq⟩ | ⟨sub, heq, hfree⟩
  · exact .inl (by rw [heq])
  · exact .inr (.inl ⟨sub, rest, howner, hserv, by rw [heq, Multiset.cons_add]⟩)
  · exact .inr (.inr ⟨sub, by rw [← heq, Multiset.cons_add], hfree⟩)

/-! ## Every subscription is known by its claim

Wherever an owner appears, the subscription is the one it was claimed for. -/

/-- The subscriptions that turn up anywhere are those that were claimed, and their ids with them. -/
structure Known (sh : Shared) (p : Multiset Section) : Prop where
  filed : sh.hub.Filed
  claims : ∀ o sub, sh.claimed o = some sub → sub.owner = o ∧ o < sh.nextSubscriberId
  subscriber : ∀ o sub, sh.subscribers o = some sub → sub.owner = o ∧ sh.claimed o = some sub
  entry : ∀ c id e, sh.held c id = some e → sh.claimed e.owner = some ⟨e.owner, c, id, e.key⟩
  member : ∀ key o, o ∈ sh.hub.roster key → ∃ sub, sh.claimed o = some sub ∧ sub.key = key
  serving : ∀ sub, sh.service.sub? = some sub → sh.claimed sub.owner = some sub
  pending : ∀ x ∈ p, ∀ sub, x.sub? = some sub → sh.claimed sub.owner = some sub
  own : ∀ x, .hub x ∈ p → x.Own Subscription.key Subscription.owner
  sent : ∀ y ∈ sh.sent, ∀ sub, y.2.sub? = some sub → sh.claimed sub.owner = some sub

theorem Cause.mem_run (x : Section) (others : Multiset Section) :
    x ∈ (Cause.run x).used + others :=
  Multiset.mem_cons_self x others

theorem Cause.mem_used {cause : Cause} {x : Section} {others : Multiset Section}
    (h : cause = .run x) : x ∈ cause.used + others := by
  subst h
  exact Cause.mem_run x others

/-- A claim is kept. -/
theorem Known.claimed_mono {p : Multiset Section} (hK : Known sh p)
    (h : Act limit sh cause sh' made) {o : Nat} {sub : Subscription}
    (ho : sh.claimed o = some sub) : sh'.claimed o = some sub := by
  rcases h.claimed with ⟨heq, _⟩ | ⟨_, _, _, _, _, _, _, heq⟩
  · rw [heq, ho]
  · rw [heq, Function.update_of_ne (Nat.ne_of_lt (hK.claims o sub ho).2), ho]

/-- What is sent was claimed before. -/
theorem Known.claimed_of_sent {others : Multiset Section} (hK : Known sh (cause.used + others))
    (h : Act limit sh cause sh' made) {y : Nat × Message} (hy : y ∈ sh'.sent) {sub : Subscription}
    (hsub : y.2.sub? = some sub) : sh.claimed sub.owner = some sub := by
  rcases h.sent with heq | ⟨c, m, hcause, heq⟩
  · exact hK.sent y (heq ▸ hy) sub hsub
  · rw [heq] at hy
    rcases List.mem_append.mp hy with hy | hy
    · exact hK.sent y hy sub hsub
    · obtain rfl := List.mem_singleton.mp hy
      exact hK.pending _ (Cause.mem_used hcause) sub hsub

/-- **Step.** -/
theorem Known.step {others : Multiset Section} (hK : Known sh (cause.used + others))
    (h : Act limit sh cause sh' made) : Known sh' (↑made + others) := by
  have hmono : ∀ {o sub}, sh.claimed o = some sub → sh'.claimed o = some sub :=
    fun ho => hK.claimed_mono h ho
  -- the subscription that the service thread registers was claimed just now
  have hregister : ∀ sub rest, sh'.service = .register sub rest →
      sh'.claimed sub.owner = some sub := by
    intro sub rest hserv
    rcases h.registering hserv with hold | ⟨_, heq, _⟩
    · exact hmono (hK.serving sub (by rw [hold]; rfl))
    · rw [heq, Function.update_self]
  refine ⟨(h.roster hK.filed).1, ?_, ?_, ?_, ?_, ?_, ?_, ?_, ?_⟩
  · intro o sub hsub
    rcases h.claimed with ⟨heq, hle⟩ | ⟨c, id, key, rest, _, _, hnext, heq⟩
    · rw [heq] at hsub
      obtain ⟨howner, hlt⟩ := hK.claims o sub hsub
      exact ⟨howner, Nat.lt_of_lt_of_le hlt hle⟩
    · rw [hnext]
      rw [heq] at hsub
      by_cases ho : o = sh.nextSubscriberId
      · subst ho
        rw [Function.update_self, Option.some.injEq] at hsub
        subst hsub
        exact ⟨rfl, Nat.lt_succ_self _⟩
      · rw [Function.update_of_ne ho] at hsub
        obtain ⟨howner, hlt⟩ := hK.claims o sub hsub
        exact ⟨howner, Nat.lt_succ_of_lt hlt⟩
  · intro o sub hsub
    rcases h.of_subscribers hsub with hold | ⟨rfl, rest, hserv, _⟩
    · obtain ⟨howner, hclaim⟩ := hK.subscriber o sub hold
      exact ⟨howner, hmono hclaim⟩
    · exact ⟨rfl, hmono (hK.serving sub (by rw [hserv]; rfl))⟩
  · intro c id e he
    rcases h.of_held he with hold | ⟨howner, rest, hserv⟩
    · exact hmono (hK.entry c id e hold)
    · exact hregister _ rest hserv
  · intro key o ho
    rcases h.of_roster hK.filed ho with hold | ⟨sub, rfl⟩
    · obtain ⟨sub, hclaim, hkey⟩ := hK.member key o hold
      exact ⟨sub, hmono hclaim, hkey⟩
    · have hmem := Cause.mem_run (.hub (.add sub key o)) others
      obtain ⟨rfl, rfl⟩ := hK.own _ hmem
      exact ⟨sub, hmono (hK.pending _ hmem sub rfl), rfl⟩
  · intro sub hsub
    rcases h.serving hsub with hold | ⟨howner, rest, hserv⟩ | ⟨hheld, _⟩
    · exact hmono (hK.serving sub hold)
    · exact hregister sub rest hserv
    · exact hmono (hK.entry _ _ _ hheld)
  · intro y hy sub hsub
    rcases Multiset.mem_add.mp hy with hy | hy
    · rcases h.sub_of_made hy hsub with ⟨x, hx, hxsub⟩ | ⟨o, ho⟩ | hserv
      · exact hmono (hK.pending x (Cause.mem_used hx) sub hxsub)
      · obtain ⟨rfl, hclaim⟩ := hK.subscriber o sub ho
        exact hmono hclaim
      · exact hmono (hK.serving sub hserv)
    · exact hmono (hK.pending y (Multiset.mem_add.mpr (.inr hy)) sub hsub)
  · intro x hx
    rcases Multiset.mem_add.mp hx with hx | hx
    · rcases h.hub_of_made hx with ⟨z, hz, hfollows⟩ | ⟨sub, rest, _, rfl⟩ | hplain
      · exact hfollows.own (hK.own z (Cause.mem_used hz))
      · exact ⟨rfl, rfl⟩
      · exact .of_plain hplain
    · exact hK.own x (Multiset.mem_add.mpr (.inr hx))
  · intro y hy sub hsub
    exact hmono (hK.claimed_of_sent h hy hsub)

theorem Section.sub?_of_token {x : Section} {sub : Subscription} (h : x.token? = some sub) :
    x.sub? = some sub := by
  cases x with
  | send c m =>
      cases m with
      | registered s => exact h
      | _ => cases h
  | release => cases h
  | _ => exact h

theorem Service.sub?_of_token {s : Service} {sub : Subscription} (h : s.token? = some sub) :
    s.sub? = some sub := by
  cases s with
  | register | submit | dropSubscriber | releaseKey => exact h
  | _ => cases h

/-! ## Every subscription is in one place

Tokens do not repeat, so a section that has one knows that nobody else is about to act on it. -/

theorem Shared.mem_tokens {p : Multiset Section} {sub : Subscription} :
    sub ∈ sh.tokens p ↔ sh.service.token? = some sub ∨ (∃ y ∈ sh.sent, y.2.acked? = some sub) ∨
      ∃ x ∈ p, x.token? = some sub := by
  simp [Shared.tokens, Shared.ownTokens, or_assoc]

theorem Known.of_token {p : Multiset Section} (hK : Known sh p) {sub : Subscription}
    (h : sub ∈ sh.tokens p) : sh.claimed sub.owner = some sub := by
  rcases Shared.mem_tokens.mp h with hserv | ⟨y, hy, hack⟩ | ⟨x, hx, htok⟩
  · exact hK.serving sub (Service.sub?_of_token hserv)
  · refine hK.sent y hy sub ?_
    exact Section.sub?_of_token (x := .send y.1 y.2) hack
  · exact hK.pending x hx sub (Section.sub?_of_token htok)

/-- No subscription is in two hands, and every entry of a table is in some. -/
structure Counted (sh : Shared) (p : Multiset Section) : Prop where
  nodup : (sh.tokens p).Nodup
  entry : ∀ c id e, sh.held c id = some e → (⟨e.owner, c, id, e.key⟩ : Subscription) ∈ sh.tokens p

/-- **Step.** -/
theorem Counted.step {others : Multiset Section} (hN : Counted sh (cause.used + others))
    (hK : Known sh (cause.used + others)) (h : Act limit sh cause sh' made) :
    Counted sh' (↑made + others) := by
  have hnew : ∀ c id e, sh'.held c id = some e →
      (⟨e.owner, c, id, e.key⟩ : Subscription) ∈ sh.tokens (cause.used + others) ∨
        (⟨e.owner, c, id, e.key⟩ : Subscription) ∈ sh'.tokens (↑made + others) := by
    intro c id e he
    rcases h.of_held he with hold | ⟨_, rest, hserv⟩
    · exact .inl (hN.entry c id e hold)
    · exact .inr (Shared.mem_tokens.mpr (.inl (by rw [hserv]; rfl)))
  rcases h.tokens others with heq | ⟨sub, rest, howner, hserv, heq⟩ | ⟨sub, heq, hfree⟩
  · refine ⟨heq ▸ hN.nodup, fun c id e he => ?_⟩
    rcases hnew c id e he with hmem | hmem
    · exact heq ▸ hmem
    · exact hmem
  · refine ⟨?_, fun c id e he => ?_⟩
    · rw [heq, Multiset.nodup_cons]
      refine ⟨fun hmem => ?_, hN.nodup⟩
      have hlt := (hK.claims _ sub (hK.of_token hmem)).2
      exact Nat.ne_of_lt hlt howner
    · rcases hnew c id e he with hmem | hmem
      · exact heq ▸ Multiset.mem_cons_of_mem hmem
      · exact hmem
  · have hnodup := hN.nodup
    rw [← heq, Multiset.nodup_cons] at hnodup
    refine ⟨hnodup.2, fun c id e he => ?_⟩
    rcases hnew c id e he with hmem | hmem
    · rw [← heq] at hmem
      rcases Multiset.mem_cons.mp hmem with rfl | hmem
      · exact absurd rfl (hfree e he)
      · exact hmem
    · exact hmem

section
variable {p others : Multiset Section} {x : Section} {sub : Subscription}

/-! ### The other places

A token found in one place is in none of the others. -/

/-- The section that runs holds its subscription alone. -/
theorem Counted.run_unique (hN : Counted sh (x ::ₘ others)) (hx : x.token? = some sub) :
    sh.service.token? ≠ some sub ∧ (∀ y ∈ sh.sent, y.2.acked? ≠ some sub) ∧
      ∀ y ∈ others, y.token? ≠ some sub := by
  have hsplit : sh.tokens (x ::ₘ others) = sub ::ₘ sh.tokens others := by
    rw [Shared.tokens, filterMap_cons_toList, hx, Shared.tokens]
    exact add_left_comm _ ({sub} : Multiset Subscription) _
  have hnodup := hN.nodup
  rw [hsplit, Multiset.nodup_cons] at hnodup
  have hnot := fun h => hnodup.1 (Shared.mem_tokens.mpr h)
  exact ⟨fun h => hnot (.inl h), fun y hy h => hnot (.inr (.inl ⟨y, hy, h⟩)),
    fun y hy h => hnot (.inr (.inr ⟨y, hy, h⟩))⟩

/-- So does any section that is pending. -/
theorem Counted.pending_unique (hN : Counted sh p) (hx : x ∈ p) (htok : x.token? = some sub) :
    sh.service.token? ≠ some sub ∧ ∀ y ∈ sh.sent, y.2.acked? ≠ some sub := by
  obtain ⟨others, rfl⟩ := Multiset.exists_cons_of_mem hx
  obtain ⟨hserv, hsent, _⟩ := hN.run_unique htok
  exact ⟨hserv, hsent⟩

/-- What the service thread has in hand is not acknowledged yet. -/
theorem Counted.serving_unique (hN : Counted sh p) (hserv : sh.service.token? = some sub) :
    ∀ y ∈ sh.sent, y.2.acked? ≠ some sub := by
  intro y hy hack
  have hnodup := hN.nodup
  rw [Shared.tokens, Shared.ownTokens, hserv] at hnodup
  have hone := (Multiset.nodup_add.mp (Multiset.nodup_add.mp hnodup).1).2.2
  refine Multiset.disjoint_left.mp hone (Multiset.mem_coe.mpr (List.mem_singleton_self sub)) ?_
  exact Multiset.mem_coe.mpr (List.mem_filterMap.mpr ⟨y, hy, hack⟩)

end

/-! ## Not yet in the hub, or out of it

Before its `add` a subscription is not in the hub; and once it was lost it does not come back. -/

/-- The subscription of a job that has not called `add` yet. -/
def Section.waiting? : Section → Option Subscription
  | .hub (.add sub _ _) => some sub
  | _ => none

/-- The service thread or a job has the subscription, and `add` has not been called. -/
def Waiting (sh : Shared) (p : Multiset Section) (sub : Subscription) : Prop :=
  sh.service.token? = some sub ∨ ∃ x ∈ p, x.waiting? = some sub

def Message.lost? : Message → Option Nat
  | .terminated sub _ _ => some sub.owner
  | _ => none

def Section.lost? : Section → Option Nat
  | .hub (.onLost sid _ _) => some sid
  | .release sub _ _ => some sub.owner
  | .send _ m => m.lost?
  | _ => none

/-- A loss has taken the subscriber from the hub. -/
def Lost (sh : Shared) (p : Multiset Section) (o : Nat) : Prop :=
  (∃ x ∈ p, x.lost? = some o) ∨ ∃ y ∈ sh.sent, y.2.lost? = some o

/-- A subscriber is in the hub neither before its `add` nor after its loss. -/
structure OffHub (sh : Shared) (p : Multiset Section) : Prop where
  waiting : ∀ sub, Waiting sh p sub →
    (∀ key, sub.owner ∉ sh.hub.roster key) ∧ ¬ Lost sh p sub.owner
  lost : ∀ o, Lost sh p o → (∀ key, o ∉ sh.hub.roster key) ∧ ∃ sub, sh.claimed o = some sub

/-- A subscription waits on from before, other than in the section that ran, or is new. -/
theorem Act.of_waiting (h : Act limit sh cause sh' made) {others : Multiset Section}
    {sub : Subscription} (hw : Waiting sh' (↑made + others) sub) :
    sh.service.token? = some sub ∨ (∃ x ∈ others, x.waiting? = some sub) ∨
      sub.owner = sh.nextSubscriberId := by
  rcases hw with hserv | ⟨y, hy, hyw⟩
  · cases h with
    | claim hs hclaim =>
        cases hserv
        exact .inr (.inr rfl)
    | register hs | refuse hs | dropRefused hs =>
        cases hserv
        exact .inl (by rw [hs]; rfl)
    | finish | answer | take | submit | releaseRefused | forget | unhook | sweep | unhookNext
    | close | body | detachWebsocket => cases hserv
    | _ => exact .inl hserv
  · rcases Multiset.mem_add.mp hy with hy | hy
    · cases y with
      | hub z =>
          cases z with
          | add s key id =>
              cases hyw
              rcases h.hub_of_made hy with ⟨x, _, hfollows⟩ | ⟨s, rest, hserv, heq⟩ | hplain
              · cases hfollows with
                | binding hx hy => cases hy
                | plain hy => cases hy
              · cases heq
                exact .inl (by rw [hserv]; rfl)
              · cases hplain
          | _ => cases hyw
      | _ => cases hyw
    · exact .inr (.inl ⟨y, hy, hyw⟩)

/-- A subscriber that is lost was so before, or has just been taken from the hub. -/
theorem Act.of_lost (h : Act limit sh cause sh' made) {others : Multiset Section}
    (hK : Known sh (cause.used + others)) {o : Nat} (hl : Lost sh' (↑made + others) o) :
    Lost sh (cause.used + others) o ∨
      ∃ key why, cause = .run (.hub (.lost key why)) ∧ o ∈ sh.hub.roster key := by
  have hrun : ∀ {x : Section}, cause = .run x → x.lost? = some o →
      Lost sh (cause.used + others) o := fun hx ho => .inl ⟨_, Cause.mem_used hx, ho⟩
  rcases hl with ⟨y, hy, hyl⟩ | ⟨y, hy, hyl⟩
  · rcases Multiset.mem_add.mp hy with hy | hy
    · cases h with
      | hub hx hexec =>
          obtain ⟨z, hz, rfl⟩ := List.mem_map.mp hy
          cases z with
          | onLost sid key why =>
              cases hyl
              -- the hub makes `onLost` of a subscriber in one place, where it takes the entry
              cases Hub.exec_follows hexec hz with
              | @told key why a _ hfind hid =>
                  refine .inr ⟨key, why, rfl, ?_⟩
                  show o ∈ sh.hub.members key
                  rw [Hub.members, hfind]
                  exact hid
              | binding hx hy => cases hy
              | plain hy => cases hy
          | _ => cases hyl
      | @lost sid key why sub hsub =>
          rw [List.mem_singleton.mp hy] at hyl
          cases hyl
          obtain ⟨rfl, _⟩ := hK.subscriber _ sub hsub
          exact .inl (hrun rfl rfl)
      | release =>
          rw [List.mem_singleton.mp hy] at hyl
          exact .inl (hrun rfl hyl)
      | @answer _ _ _ _ _ m hs hn hm =>
          rw [List.mem_singleton.mp hy] at hyl
          cases m with
          | terminated => cases hm
          | _ => cases hyl
      | outside hmade =>
          obtain ⟨x, rfl, hx⟩ := hmade y hy
          cases x with
          | onLost => cases hx
          | _ => cases hyl
      | joined | failed | heard | dropSubscriber | releaseKey | submit | releaseRefused | unhook =>
          rw [List.mem_singleton.mp hy] at hyl
          cases hyl
      | _ => cases hy
    · exact .inl (.inl ⟨y, Multiset.mem_add.mpr (.inr hy), hyl⟩)
  · rcases h.sent with heq | ⟨c, m, hcause, heq⟩
    · exact .inl (.inr ⟨y, heq ▸ hy, hyl⟩)
    · rw [heq] at hy
      rcases List.mem_append.mp hy with hy | hy
      · exact .inl (.inr ⟨y, hy, hyl⟩)
      · obtain rfl := List.mem_singleton.mp hy
        exact .inl (hrun hcause hyl)

theorem Section.token?_of_waiting {x : Section} {sub : Subscription} (hw : x.waiting? = some sub) :
    x.token? = some sub := by
  cases x with
  | hub z =>
      cases z with
      | add => exact hw
      | _ => cases hw
  | _ => cases hw

theorem Known.of_waiting {p : Multiset Section} (hK : Known sh p) {sub : Subscription}
    (hw : Waiting sh p sub) : sh.claimed sub.owner = some sub := by
  rcases hw with hserv | ⟨x, hx, hxw⟩
  · exact hK.serving sub (Service.sub?_of_token hserv)
  · exact hK.pending x hx sub (Section.sub?_of_token (Section.token?_of_waiting hxw))

/-- A job that has called `add` does not wait to. -/
theorem Counted.not_waiting {others : Multiset Section} {sub : Subscription} {key : Key} {o : Nat}
    (hN : Counted sh ((Cause.run (.hub (.add sub key o))).used + others))
    (hK : Known sh ((Cause.run (.hub (.add sub key o))).used + others))
    (h : Act limit sh (.run (.hub (.add sub key o))) sh' made) :
    ¬ Waiting sh' (↑made + others) sub := by
  intro hw
  obtain ⟨hserv, _, hothers⟩ := hN.run_unique (x := .hub (.add sub key o)) rfl
  rcases h.of_waiting hw with hw | ⟨y, hy, hyw⟩ | hnew
  · exact hserv hw
  · exact hothers y hy (Section.token?_of_waiting hyw)
  · have hclaim := hK.pending _ (Cause.mem_run _ others) sub rfl
    exact Nat.ne_of_lt (hK.claims _ sub hclaim).2 hnew

/-- **Step.** -/
theorem OffHub.step {others : Multiset Section} (hO : OffHub sh (cause.used + others))
    (hK : Known sh (cause.used + others)) (hN : Counted sh (cause.used + others))
    (h : Act limit sh cause sh' made) : OffHub sh' (↑made + others) := by
  refine ⟨fun sub hw => ?_, fun o hl => ?_⟩
  · -- the `add` that runs is not one that is still to run
    have hadd : ∀ s key o, cause = .run (.hub (.add s key o)) → o = s.owner ∧ s ≠ sub := by
      rintro s key o rfl
      refine ⟨(hK.own _ (Cause.mem_run _ others)).2, ?_⟩
      rintro rfl
      exact hN.not_waiting hK h hw
    have hbefore : (∀ key, sub.owner ∉ sh.hub.roster key) ∧ ¬ Lost sh (cause.used + others) sub.owner ∧
        ∀ s, sh.claimed sub.owner = some s → s = sub := by
      have hold : Waiting sh (cause.used + others) sub →
          (∀ key, sub.owner ∉ sh.hub.roster key) ∧ ¬ Lost sh (cause.used + others) sub.owner ∧
            ∀ s, sh.claimed sub.owner = some s → s = sub := by
        intro hold
        refine ⟨(hO.waiting sub hold).1, (hO.waiting sub hold).2, fun s hs => ?_⟩
        have hclaim := hK.of_waiting hold
        exact Option.some.inj (hs.symm.trans hclaim)
      rcases h.of_waiting hw with hserv | ⟨y, hy, hyw⟩ | hnew
      · exact hold (.inl hserv)
      · exact hold (.inr ⟨y, Multiset.mem_add.mpr (.inr hy), hyw⟩)
      -- a claim that is new has an owner whom nobody knows yet
      · have hfree : ∀ s, sh.claimed sub.owner ≠ some s :=
          fun s hs => Nat.ne_of_lt (hK.claims _ s hs).2 hnew
        refine ⟨fun key ho => ?_, fun hl => ?_, fun s hs => absurd hs (hfree s)⟩
        · obtain ⟨s, hs, _⟩ := hK.member key _ ho
          exact hfree s hs
        · obtain ⟨s, hs⟩ := (hO.lost _ hl).2
          exact hfree s hs
    obtain ⟨hoff, hnot, honly⟩ := hbefore
    refine ⟨fun key ho => ?_, fun hl => ?_⟩
    · rcases h.of_roster hK.filed ho with hold | ⟨s, hcause⟩
      · exact hoff key hold
      · obtain ⟨howner, hne⟩ := hadd s key _ hcause
        exact hne (honly s (howner ▸ hK.pending _ (Cause.mem_used hcause) s rfl))
    · rcases h.of_lost hK hl with hold | ⟨key, why, _, ho⟩
      · exact hnot hold
      · exact hoff key ho
  · rcases h.of_lost hK hl with hold | ⟨key, why, rfl, ho⟩
    · obtain ⟨hoff, sub, hclaim⟩ := hO.lost o hold
      refine ⟨fun key ho => ?_, sub, hK.claimed_mono h hclaim⟩
      rcases h.of_roster hK.filed ho with hold' | ⟨s, hcause⟩
      · exact hoff key hold'
      · subst hcause
        have hmem := Cause.mem_run (.hub (.add s key o)) others
        obtain ⟨_, rfl⟩ := hK.own _ hmem
        exact (hO.waiting s (.inr ⟨_, hmem, rfl⟩)).2 hold
    · obtain ⟨sub, hclaim, hkey⟩ := hK.member key o ho
      refine ⟨fun key' ho' => ?_, sub, hK.claimed_mono h hclaim⟩
      rw [h.roster_run hK.filed rfl] at ho'
      -- an entry that was taken has lost all its subscribers, and each has one key
      rcases Change.of_mem_apply ho' with ⟨ho', hdrop⟩ | hjoin
      · obtain ⟨sub', hclaim', hkey'⟩ := hK.member key' o ho'
        obtain rfl : sub' = sub := Option.some.inj (hclaim'.symm.trans hclaim)
        exact hdrop (hkey.symm.trans hkey')
      · cases hjoin

end JsonRpcBridge.Subscriptions
