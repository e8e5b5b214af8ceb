import JsonRpcBridge.Subscriptions.Endings

/-!
# Subscriptions and their owners

An owner is done with a subscription when it has unsubscribed it, or when its socket is closed. The
service thread then cleans `m_subscribers` and the hub; the job of the subscription may not have
called `add` yet, and a socket that carried only HTTP requests is not cleaned up after at all.

* `no_orphans`: if every `add` finds its subscriber registered, HTTP requests leave none behind, and
  a failed `add` takes its id with it, nothing is left of a subscription whose owner is done.
* `not_no_orphans`: an unsubscribe before the `add` leaves its subscriber in the hub.
-/

namespace JsonRpcBridge.Subscriptions

open Interleaving Upstream

variable {limit : Int} {sh sh' : Shared} {cause : Cause} {made : List Section}

/-! ## The property and the condition

Between the entry in `m_subscribers` and the `add` to the hub the subscriber can be erased, and
the `add` then has no owner. -/

/-- The subscription a pump job is for. -/
def Section.job? : Section → Option Subscription
  | .hub x => x.op?
  | .dropSubscriber sub | .releaseKey sub => some sub
  | _ => none

/-- The subscription was unsubscribed, or its connection is closed. -/
def Gone (sh : Shared) (sub : Subscription) : Prop :=
  sub ∈ sh.unsubscribed ∨ sh.closed (sh.conns sub.conn).socket = true

/-- With no job queued or running, nothing is left of the subscriptions whose owners are done. -/
def NoOrphans (sh : Shared) (p : Multiset Section) : Prop :=
  (∀ x ∈ p, x.job? = none) → ∀ o sub, sh.claimed o = some sub → Gone sh sub →
    sh.subscribers o = none ∧ ∀ key, o ∉ sh.hub.members key

/-- An `add` is called for a registered subscriber only; an `add` that fails without erasing its
entry does not leave its id in it; and a socket is closed only when every subscriber registered
through it belongs to the WebSocket connection it carries. -/
def ownersKnown : Guard Shared Section Choice BridgeEntry where
  run sh _ x _ :=
    (∀ sub key o, x = .hub (.add sub key o) → ∃ s, sh.subscribers o = some s) ∧
    ∀ sub key o a, x = .hub (.undo sub key o a) →
      (Pc.undo sub key o a).change sh.hub = .none → o ∉ sh.hub.roster key
  enter sh _ ev := ∀ socket, ev = .detach socket →
    ∀ o sub, sh.subscribers o = some sub → (sh.conns sub.conn).socket = socket →
      sh.current socket = some sub.conn ∧ (sh.conns sub.conn).isWebsocket = true

/-! ## The invariant

What is in the hub is registered, or somebody is on the way to take it out: the service thread
that cleans up, or the failed `add` itself. -/

/-- The subscription of a job whose `add` has failed. -/
def Section.failed? : Section → Option Subscription
  | .hub (.added sub false) | .dropSubscriber sub => some sub
  | _ => none

structure OwnersInv (sh : Shared) (p : Multiset Section) : Prop where
  member : ∀ key o, o ∈ sh.hub.roster key →
    (∃ sub, sh.subscribers o = some sub) ∨ o ∈ sh.service.ended
  failed : ∀ x ∈ p, ∀ sub, x.failed? = some sub → ∀ key, sub.owner ∉ sh.hub.roster key
  unsubscribed : ∀ sub ∈ sh.unsubscribed, ∀ key, sub.owner ∉ sh.hub.roster key
  closed : ∀ o sub, sh.claimed o = some sub → sh.closed (sh.conns sub.conn).socket = true →
    sh.subscribers o = none ∧ ∀ key, o ∉ sh.hub.roster key
  sweeping : ∀ socket c, sh.service = .sweep socket c → ∀ o sub, sh.subscribers o = some sub →
    (sh.conns sub.conn).socket = socket → sub.conn = c
  unhooking : ∀ socket ids, sh.service = .unhookAll socket ids → ∀ o sub,
    sh.subscribers o = some sub → (sh.conns sub.conn).socket ≠ socket

theorem Section.token?_of_failed {x : Section} {sub : Subscription} (h : x.failed? = some sub) :
    x.token? = some sub := by
  cases x with
  | hub z =>
      cases z with
      | added s ok =>
          cases ok with
          | false => exact h
          | true => cases h
      | _ => cases h
  | dropSubscriber => exact h
  | _ => cases h

/-! ### What a move can do -/

/-- An id that joins the roster is that of a registered subscriber. -/
theorem Act.of_roster_guarded {others : Multiset Section} (hL : Ledger sh (cause.used + others))
    (hok : Allows ownersKnown sh (cause.used + others) cause) (h : Act limit sh cause sh' made)
    {key : Key} {o : Nat} (ho : o ∈ sh'.hub.roster key) : o ∈ sh.hub.roster key ∨
      ∃ sub, cause = .run (.hub (.add sub key o)) ∧ sh.subscribers o = some sub ∧
        sh'.subscribers = sh.subscribers := by
  rcases h.of_roster hL.known.filed ho with hold | ⟨sub, rfl⟩
  · exact .inl hold
  · right
    obtain ⟨_, hadd, _⟩ := hok
    obtain ⟨s, hs⟩ := hadd sub key o rfl
    have hmem := Cause.mem_run (.hub (.add sub key o)) others
    obtain ⟨_, rfl⟩ := hL.known.own _ hmem
    have hclaim := hL.known.pending _ hmem sub rfl
    obtain ⟨_, hclaim'⟩ := hL.known.subscriber _ s hs
    obtain rfl : s = sub := Option.some.inj (hclaim'.symm.trans hclaim)
    refine ⟨s, rfl, hs, ?_⟩
    cases h with
    | hub => rfl

/-- The roster names an id under the key of its claim only. -/
theorem Known.key_eq {p : Multiset Section} (hK : Known sh p) {sub : Subscription} {key : Key}
    (hclaim : sh.claimed sub.owner = some sub) (h : sub.owner ∈ sh.hub.roster key) :
    sub.key = key := by
  obtain ⟨s, hs, hkey⟩ := hK.member key _ h
  obtain rfl : s = sub := Option.some.inj (hs.symm.trans hclaim)
  exact hkey

/-- The service thread goes on removing an id from the hub until it has done so. -/
theorem Act.service_ended (h : Act limit sh cause sh' made) (hf : sh.hub.Filed) {o : Nat}
    (ho : o ∈ sh.service.ended) : o ∈ sh'.service.ended ∨
      (∃ sub rest, sh.service = .releaseKey sub rest ∧ sub.owner = o) ∨
      ∃ change : Change, sh'.hub.roster = change.apply sh.hub.roster ∧
        (change = .leaveAll o ∨
          ∃ sub rest, sh.service = .unhook sub rest ∧ sub.owner = o ∧ change = .leave sub.key o) := by
  cases h with
  | @releaseRefused _ sub rest hs =>
      rw [hs] at ho
      exact .inr (.inl ⟨sub, rest, hs, (List.mem_singleton.mp ho).symm⟩)
  | @unhook _ sub rest _ _ hs hexec =>
      rw [hs] at ho
      obtain rfl := List.mem_singleton.mp ho
      exact .inr (.inr ⟨_, (Hub.exec_roster hf hexec).2, .inr ⟨sub, rest, hs, rfl, rfl⟩⟩)
  | @unhookNext _ socket sid ids _ _ hs hexec =>
      rw [hs] at ho
      rcases List.mem_cons.mp ho with rfl | ho
      · exact .inr (.inr ⟨_, (Hub.exec_roster hf hexec).2, .inl rfl⟩)
      · exact .inl ho
  | finish hs | answer hs | claim hs | take hs | register hs | submit hs | refuse hs
  | dropRefused hs | forget hs | sweep hs | close hs | body hs | detachWebsocket hs =>
      rw [hs] at ho
      cases ho
  | _ => exact .inl ho

theorem Act.dropSubscriber_of_made (h : Act limit sh cause sh' made) {sub : Subscription}
    (hy : .dropSubscriber sub ∈ made) : cause = .run (.hub (.added sub false)) := by
  cases h with
  | failed =>
      cases List.mem_singleton.mp hy
      rfl
  | hub =>
      obtain ⟨z, _, hz⟩ := List.mem_map.mp hy
      cases hz
  | outside hmade =>
      obtain ⟨z, hz, _⟩ := hmade _ hy
      cases hz
  | _ => simp at hy

theorem Act.unsubscribed (h : Act limit sh cause sh' made) (hf : sh.hub.Filed) :
    sh'.unsubscribed = sh.unsubscribed ∨
      ∃ sub rest, sh.service = .unhook sub rest ∧ sh'.unsubscribed = sub :: sh.unsubscribed ∧
        sh'.hub.roster = (Change.leave sub.key sub.owner).apply sh.hub.roster := by
  cases h with
  | unhook hs hexec => exact .inr ⟨_, _, hs, rfl, (Hub.exec_roster hf hexec).2⟩
  | _ => exact .inl rfl

/-- A socket is closed when its WebSocket has been cleaned up after, or when an HTTP connection goes
away. -/
theorem Act.closed (h : Act limit sh cause sh' made) : sh'.closed = sh.closed ∨
    ∃ socket, sh'.closed = Function.update sh.closed socket true ∧ sh'.hub = sh.hub ∧
      sh'.subscribers = sh.subscribers ∧ (sh.service = .unhookAll socket [] ∨
        ∃ c, cause = .call (.detach socket) ∧ sh.service = .idle ∧ sh.current socket = some c ∧
          (sh.conns c).isWebsocket = false) := by
  cases h with
  | close hs => exact .inr ⟨_, rfl, rfl, rfl, .inl hs⟩
  | detachHttp hs hcurrent hws => exact .inr ⟨_, rfl, rfl, rfl, .inr ⟨_, rfl, hs, hcurrent, hws⟩⟩
  | _ => exact .inl rfl

theorem Act.of_sweep (h : Act limit sh cause sh' made) {socket c : Nat}
    (hserv : sh'.service = .sweep socket c) : sh.service = .sweep socket c ∨
      cause = .call (.detach socket) ∧ sh.current socket = some c ∧
        sh'.subscribers = sh.subscribers := by
  cases h with
  | detachWebsocket hs hcurrent hws =>
      cases hserv
      exact .inr ⟨rfl, hcurrent, rfl⟩
  | finish | answer | claim | take | register | submit | refuse | dropRefused | releaseRefused
  | forget | unhook | sweep | unhookNext | close | body => cases hserv
  | _ => exact .inl hserv

theorem Act.of_unhookAll (h : Act limit sh cause sh' made) {socket : Nat} {ids : List Nat}
    (hserv : sh'.service = .unhookAll socket ids) :
    (∃ ids, sh.service = .unhookAll socket ids) ∨
      ∃ c, sh.service = .sweep socket c ∧
        ∀ o sub, sh'.subscribers o = some sub → sh.subscribers o = some sub ∧ sub.conn ≠ c := by
  cases h with
  | unhookNext hs =>
      cases hserv
      exact .inl ⟨_, hs⟩
  | sweep hs =>
      cases hserv
      refine .inr ⟨_, hs, fun o sub hsub => ?_⟩
      obtain ⟨hold, hne⟩ := Option.filter_eq_some_iff.mp hsub
      exact ⟨hold, bne_iff_ne.mp hne⟩
  | finish | answer | claim | take | register | submit | refuse | dropRefused | releaseRefused
  | forget | unhook | close | body | detachWebsocket => cases hserv
  | _ => exact .inl ⟨_, hserv⟩

section
variable {others : Multiset Section} (hL : Ledger sh (cause.used + others))
  (hI : OwnersInv sh (cause.used + others)) (hok : Allows ownersKnown sh (cause.used + others) cause)
  (h : Act limit sh cause sh' made)
include hL hI hok h

theorem OwnersInv.member_step (key : Key) (o : Nat) (ho : o ∈ sh'.hub.roster key) :
    (∃ sub, sh'.subscribers o = some sub) ∨ o ∈ sh'.service.ended := by
  -- whose `add` has not run is not in the hub
  have hwaiting : ∀ sub, sh.service.token? = some sub → sub.owner = o → o ∉ sh.hub.roster key := by
    rintro sub hsub rfl
    exact (hL.offHub.waiting sub (.inl hsub)).1 key
  rcases h.of_roster_guarded hL hok ho with hold | ⟨sub, _, hsub, heq⟩
  · rcases hI.member key o hold with ⟨sub, hsub⟩ | hended
    · rcases h.subscribers hsub with hkeep | ⟨s, rest, hserv, howner, _⟩ | ⟨_, herases⟩
      · exact .inl ⟨sub, hkeep⟩
      · exact absurd hold (hwaiting s (by rw [hserv]; rfl) howner)
      -- who is erased and still in the hub is about to be unhooked; all others have left it first
      · cases herases with
        | @lost k why _ =>
            have hmem : Section.hub (.onLost o k why) ∈ Cause.used _ + others := Cause.mem_used rfl
            exact absurd hold ((hL.offHub.lost o (.inl ⟨_, hmem, rfl⟩)).1 key)
        | @failed s _ howner =>
            have hmem := Cause.mem_run (.dropSubscriber s) others
            exact absurd hold (howner ▸ hI.failed _ hmem s rfl key)
        | refused hs howner => exact absurd hold (hwaiting _ (by rw [hs]; rfl) howner)
        | unsubscribed hs hs' howner =>
            right
            rw [hs', ← howner]
            exact List.mem_singleton_self _
        | @closed _ socket _ hs hs' =>
            right
            obtain ⟨howner, hclaim⟩ := hL.known.subscriber o sub hsub
            rw [hs']
            refine List.mem_filter.mpr ⟨List.mem_range.mpr (hL.known.claims o sub hclaim).2, ?_⟩
            simp [hsub]
    · rcases h.service_ended hL.known.filed hended with hkeep | ⟨s, rest, hserv, howner⟩ |
        ⟨change, hroster, hchange⟩
      · exact .inr hkeep
      · exact absurd hold (hwaiting s (by rw [hserv]; rfl) howner)
      · exfalso
        rw [hroster] at ho
        rcases Change.of_mem_apply ho with ⟨_, hdrop⟩ | hjoin
        · rcases hchange with rfl | ⟨s, rest, hserv, rfl, rfl⟩
          · exact hdrop rfl
          · have hclaim := hL.known.serving s (by rw [hserv]; rfl)
            exact hdrop ⟨hL.known.key_eq hclaim hold, rfl⟩
        · rcases hchange with rfl | ⟨_, _, _, _, rfl⟩ <;> cases hjoin
  · exact .inl ⟨sub, heq ▸ hsub⟩

theorem OwnersInv.failed_step (x : Section) (hx : x ∈ (↑made + others : Multiset Section))
    (sub : Subscription) (hfail : x.failed? = some sub) (key : Key) :
    sub.owner ∉ sh'.hub.roster key := by
  intro ho
  -- only an `add` of the same owner could bring it back, and there is one operation for it
  have hadd : sub.owner ∉ sh.hub.roster key →
      ∃ s, cause = .run (.hub (.add s key sub.owner)) ∧ sh.subscribers sub.owner = some s := by
    intro hnot
    rcases h.of_roster_guarded hL hok ho with hold | ⟨s, hcause, hs, _⟩
    · exact absurd hold hnot
    · exact ⟨s, hcause, hs⟩
  rcases Multiset.mem_add.mp hx with hx | hx
  · cases x with
    | hub y =>
        cases y with
        | added s ok =>
            cases ok with
            | true => cases hfail
            | false =>
                cases hfail
                rcases h.hub_of_made hx with ⟨z, rfl, hfollows⟩ | ⟨_, _, _, heq⟩ | hplain
                · cases hfollows with
                  | @undone _ k id a =>
                      have hmem := Cause.mem_run (.hub (.undo sub k id a)) others
                      obtain ⟨rfl, rfl⟩ := hL.known.own _ hmem
                      have hclaim := hL.known.pending _ hmem sub rfl
                      -- either `undo` takes the entry away, or the guard says that the owner is not
                      -- in it
                      obtain ⟨_, _, hundo⟩ := hok
                      rw [h.roster_run hL.known.filed rfl] at ho
                      by_cases hchange : (Pc.undo sub sub.key sub.owner a).change sh.hub = .none
                      · rw [hchange] at ho
                        obtain rfl := hL.known.key_eq hclaim ho
                        exact hundo _ _ _ _ rfl hchange ho
                      · have hempty : (Pc.undo sub sub.key sub.owner a).change sh.hub =
                            .empty sub.key := by
                          simp only [Pc.change] at hchange ⊢
                          split at hchange
                          · rename_i hcond
                            exact if_pos hcond
                          · exact absurd rfl hchange
                        rw [hempty] at ho
                        rcases Change.of_mem_apply ho with ⟨hold, hdrop⟩ | hjoin
                        · exact hdrop (hL.known.key_eq hclaim hold)
                        · cases hjoin
                  | @refuse _ k id hclosed =>
                      have hmem := Cause.mem_run (.hub (.add sub k id)) others
                      rw [h.roster_run hL.known.filed rfl] at ho
                      simp only [Pc.change, hclosed, if_true] at ho
                      exact (hL.offHub.waiting sub (.inr ⟨_, hmem, rfl⟩)).1 key ho
                  | binding _ hy => cases hy
                  | plain hy => cases hy
                · cases heq
                · cases hplain
        | _ => cases hfail
    | dropSubscriber s =>
        cases hfail
        obtain rfl := h.dropSubscriber_of_made hx
        obtain ⟨_, hcause, _⟩ := hadd (hI.failed _ (Cause.mem_used rfl) sub rfl key)
        cases hcause
    | _ => cases hfail
  · obtain ⟨s, rfl, hs⟩ := hadd (hI.failed x (Multiset.mem_add.mpr (.inr hx)) sub hfail key)
    have hclaim := hL.known.pending x (Multiset.mem_add.mpr (.inr hx)) sub
      (Section.sub?_of_token (Section.token?_of_failed hfail))
    obtain ⟨_, hclaim'⟩ := hL.known.subscriber _ s hs
    obtain rfl : s = sub := Option.some.inj (hclaim'.symm.trans hclaim)
    have hunique := (hL.counted.run_unique (x := .hub (.add s key s.owner)) rfl).2.2
    exact hunique x hx (Section.token?_of_failed hfail)

theorem OwnersInv.unsubscribed_step (sub : Subscription) (hsub : sub ∈ sh'.unsubscribed)
    (key : Key) : sub.owner ∉ sh'.hub.roster key := by
  intro ho
  have hold : sub ∈ sh.unsubscribed → False := by
    intro hmem
    rcases h.of_roster_guarded hL hok ho with hold | ⟨s, _, hs, _⟩
    · exact hI.unsubscribed sub hmem key hold
    · have hdead := hL.ended _ (.unsubscribed hmem rfl)
      cases hdead.subscribers.symm.trans hs
  rcases h.unsubscribed hL.known.filed with heq | ⟨s, rest, hserv, heq, hroster⟩
  · exact hold (heq ▸ hsub)
  · rw [heq] at hsub
    rcases List.mem_cons.mp hsub with rfl | hmem
    · have hclaim := hL.known.serving sub (by rw [hserv]; rfl)
      rw [hroster] at ho
      rcases Change.of_mem_apply ho with ⟨hbefore, hdrop⟩ | hjoin
      · exact hdrop ⟨hL.known.key_eq hclaim hbefore, rfl⟩
      · cases hjoin
    · exact hold hmem

theorem OwnersInv.closed_step (o : Nat) (sub : Subscription) (hclaim' : sh'.claimed o = some sub)
    (hclosed : sh'.closed (sh'.conns sub.conn).socket = true) :
    sh'.subscribers o = none ∧ ∀ key, o ∉ sh'.hub.roster key := by
  -- what is claimed now is claimed on an open socket
  have hclaim : sh.claimed o = some sub := by
    rcases h.claimed with ⟨heq, _⟩ | ⟨c, id, key, rest, hserv, hserv', _, heq⟩
    · exact heq ▸ hclaim'
    · by_cases ho : o = sh.nextSubscriberId
      · subst ho
        rw [heq, Function.update_self, Option.some.injEq] at hclaim'
        subst hclaim'
        have hC := hL.conns.step h
        obtain ⟨_, hatt⟩ := hC.serving c (by rw [hserv']; rfl)
        rw [hC.socket_of_attached hatt] at hclosed
        cases hclosed
      · rwa [heq, Function.update_of_ne ho] at hclaim'
  obtain ⟨rfl, _⟩ := hL.known.claims o sub hclaim
  have hlt := hL.conns.claimed _ sub hclaim
  rw [(h.conn hlt).2.1] at hclosed
  have hofSub : ∀ s, sh.subscribers sub.owner = some s → s = sub := by
    intro s hs
    obtain ⟨_, hs⟩ := hL.known.subscriber _ s hs
    exact Option.some.inj (hs.symm.trans hclaim)
  have hbefore : sh.closed (sh.conns sub.conn).socket = true →
      sh'.subscribers sub.owner = none ∧ ∀ key, sub.owner ∉ sh'.hub.roster key := by
    intro hold
    obtain ⟨hnone, hoff⟩ := hI.closed _ sub hclaim hold
    refine ⟨?_, fun key ho => ?_⟩
    · cases hsub : sh'.subscribers sub.owner with
      | none => rfl
      | some s =>
          rcases h.of_subscribers hsub with hs | ⟨howner, rest, hserv, _⟩
          · cases hnone.symm.trans hs
          · have hclaim'' := hL.known.serving s (by rw [hserv]; rfl)
            obtain rfl : s = sub := Option.some.inj (hclaim''.symm.trans (howner ▸ hclaim))
            obtain ⟨_, hatt⟩ := hL.conns.serving s.conn (by rw [hserv]; rfl)
            cases hold.symm.trans (hL.conns.socket_of_attached hatt)
    · rcases h.of_roster_guarded hL hok ho with hold' | ⟨s, _, hs, _⟩
      · exact hoff key hold'
      · cases hnone.symm.trans hs
  rcases h.closed with heq | ⟨socket, heq, hhub, hsubs, hwhy⟩
  · exact hbefore (heq ▸ hclosed)
  · by_cases hsock : (sh.conns sub.conn).socket = socket
    · have hnone : sh.subscribers sub.owner = none := by
        cases hsub : sh.subscribers sub.owner with
        | none => rfl
        | some s =>
            obtain rfl := hofSub s hsub
            rcases hwhy with hserv | ⟨c, rfl, _, hcurrent, hws⟩
            · exact absurd hsock (hI.unhooking _ _ hserv _ s hsub)
            · obtain ⟨hcur, hws'⟩ := hok socket rfl _ s hsub hsock
              cases hcurrent.symm.trans hcur
              cases hws.symm.trans hws'
      rw [hsubs, hhub]
      refine ⟨hnone, fun key ho => ?_⟩
      rcases hI.member key _ ho with ⟨s, hs⟩ | hended
      · cases hnone.symm.trans hs
      · rcases hwhy with hserv | ⟨_, _, hserv, _⟩
        · rw [hserv] at hended
          cases hended
        · rw [hserv] at hended
          cases hended
    · rw [heq, Function.update_of_ne hsock] at hclosed
      exact hbefore hclosed

theorem OwnersInv.sweeping_step (socket c : Nat) (hserv : sh'.service = .sweep socket c) (o : Nat)
    (sub : Subscription) (hsub : sh'.subscribers o = some sub)
    (hsock : (sh'.conns sub.conn).socket = socket) : sub.conn = c := by
  have hold : sh.subscribers o = some sub := by
    rcases h.of_subscribers hsub with hold | ⟨_, rest, _, hserv'⟩
    · exact hold
    · cases hserv.symm.trans hserv'
  have hclaim := (hL.known.subscriber o sub hold).2
  rw [(h.conn (hL.conns.claimed o sub hclaim)).2.1] at hsock
  rcases h.of_sweep hserv with hbefore | ⟨rfl, hcurrent, _⟩
  · exact hI.sweeping socket c hbefore o sub hold hsock
  · obtain ⟨hcur, _⟩ := hok socket rfl o sub hold hsock
    exact (Option.some.inj (hcurrent.symm.trans hcur)).symm

omit hok in
theorem OwnersInv.unhooking_step (socket : Nat) (ids : List Nat)
    (hserv : sh'.service = .unhookAll socket ids) (o : Nat) (sub : Subscription)
    (hsub : sh'.subscribers o = some sub) : (sh'.conns sub.conn).socket ≠ socket := by
  have hold : sh.subscribers o = some sub := by
    rcases h.of_subscribers hsub with hold | ⟨_, rest, _, hserv'⟩
    · exact hold
    · cases hserv.symm.trans hserv'
  have hclaim := (hL.known.subscriber o sub hold).2
  rw [(h.conn (hL.conns.claimed o sub hclaim)).2.1]
  rcases h.of_unhookAll hserv with ⟨ids', hbefore⟩ | ⟨c, hbefore, hswept⟩
  · exact hI.unhooking socket ids' hbefore o sub hold
  · intro hsock
    exact (hswept o sub hsub).2 (hI.sweeping socket c hbefore o sub hold hsock)

/-- **Step.** -/
theorem OwnersInv.step : OwnersInv sh' (↑made + others) where
  member := member_step hL hI hok h
  failed := failed_step hL hI hok h
  unsubscribed := unsubscribed_step hL hI hok h
  closed := closed_step hL hI hok h
  sweeping := sweeping_step hL hI hok h
  unhooking := unhooking_step hL hI h

end

/-! ## Runs

The condition is about all that came before a move. For a run that is written down it can be
followed move by move. -/

theorem owners_start : OwnersInv start.shared start.pending := by
  refine ⟨fun key o h => ?_, fun x h => ?_, fun sub h => ?_, fun o sub h => ?_,
    fun socket c h => ?_, fun socket ids h => ?_⟩
  all_goals cases h

/-- **No subscription outlives its owner, if it was in the hub by then.** In every run in which each
`add` is called for a subscriber that is still registered, a failed `add` leaves no id behind, and
HTTP requests leave no subscriber registered on the socket they close: with no job queued or
running, what was unsubscribed, and what belongs to a closed connection, is neither in
`m_subscribers` nor in any subscriber set of the hub. -/
theorem no_orphans {s : State Shared Section} (h : Run (bridge limit) ownersKnown start s) :
    NoOrphans s.shared s.pending := by
  obtain ⟨hL, hI⟩ := ledger_and_of_run owners_start
    (fun hL hI hok h => OwnersInv.step hL hI hok h) h
  rintro - o sub hclaim (hunsub | hclosed)
  · obtain ⟨rfl, _⟩ := hL.known.claims o sub hclaim
    exact ⟨(hL.ended _ (.unsubscribed hunsub rfl)).subscribers, hI.unsubscribed sub hunsub⟩
  · exact hI.closed o sub hclaim hclosed

/-- `ownersKnown`, of the ids handed out so far. -/
def ownersKnownSoFar : Guard Shared Section Choice BridgeEntry where
  run := ownersKnown.run
  enter sh _ ev := ∀ socket, ev = .detach socket →
    ∀ o < sh.nextSubscriberId, ∀ sub ∈ sh.subscribers o, (sh.conns sub.conn).socket = socket →
      sh.current socket = some sub.conn ∧ (sh.conns sub.conn).isWebsocket = true

instance : ownersKnownSoFar.Decided where
  run sh _ x _ := by
    induction x using Section.casesOn with
    | hub y =>
        induction y using Upstream.Pc.casesOn with
        | add sub key o =>
            exact decidable_of_iff ((sh.subscribers o).isSome = true) <| by
              rw [Option.isSome_iff_exists]
              exact ⟨fun h => ⟨by rintro _ _ _ ⟨⟩; exact h, by rintro _ _ _ _ ⟨⟩⟩,
                fun h => h.1 _ _ _ rfl⟩
        | undo sub key o a =>
            exact decidable_of_iff
              ((Pc.undo sub key o a).change sh.hub = .none → o ∉ sh.hub.members key)
              ⟨fun h => ⟨by rintro _ _ _ ⟨⟩, by rintro _ _ _ _ ⟨⟩; exact h⟩,
                fun h => h.2 _ _ _ _ rfl⟩
        | _ => exact isTrue ⟨by rintro _ _ _ ⟨⟩, by rintro _ _ _ _ ⟨⟩⟩
    | _ => exact isTrue ⟨by rintro _ _ _ ⟨⟩, by rintro _ _ _ _ ⟨⟩⟩
  enter sh _ ev := by
    induction ev using BridgeEntry.casesOn with
    | detach socket =>
        exact decidable_of_iff (∀ o < sh.nextSubscriberId, ∀ sub ∈ sh.subscribers o,
          (sh.conns sub.conn).socket = socket →
            sh.current socket = some sub.conn ∧ (sh.conns sub.conn).isWebsocket = true)
          ⟨by rintro h _ ⟨⟩; exact h, fun h => h socket rfl⟩
    | _ => exact isTrue (by rintro _ ⟨⟩)

/-- No other id has a subscriber. -/
theorem ownersKnown_of_soFar {s : State Shared Section}
    (h : Run (bridge limit) ownersKnownSoFar start s) : Run (bridge limit) ownersKnown start s := by
  refine h.weaken ?_
  intro t m ht hadmits
  cases m with
  | run i c => exact hadmits
  | enter ev =>
      intro socket hev o sub hsub
      have hK := (ledger_and_of_run (J := fun _ _ => True) trivial (fun _ _ _ _ => trivial) ht).1.known
      have hlt := (hK.claims o sub (hK.subscriber o sub hsub).2).2
      exact hadmits socket hev o hlt sub hsub

/-- The service thread handles an unsubscribe of `s`. -/
def unsubscribing : List (Move Choice BridgeEntry) :=
  [.enter (.body 0 [.unsubscribe (str "s")]), .enter (.serve true), .enter (.serve true),
   .enter (.serve true), .enter (.serve true)]

/-- A second WebSocket subscribes to another event as `t` and to `someEvent` as `u`. The client
refuses `t`; then the socket is closed. -/
def closing : List (Move Choice BridgeEntry) :=
  [.enter (.attach 1 true),
   .enter (.body 1 [.subscribe (str "t") ⟨str "m", str "f"⟩, .subscribe (str "u") someEvent])] ++
    List.replicate 7 (.enter (.serve true)) ++ List.replicate 11 (.run 18 { valid := false }) ++
    List.replicate 3 (.run 22 {}) ++
    .enter (.detach 1) :: List.replicate 3 (.enter (.serve true))

/-- One subscription is unsubscribed, one fails and one loses its socket. -/
theorem no_orphans_closed :
    ∃ s, Run (bridge 2) ownersKnown start s ∧ s.shared.unsubscribed.length = 1 ∧
      s.shared.closed 1 = true ∧ s.threads.flatten.all (fun x => x.job?.isNone) = true ∧
      NoOrphans s.shared s.pending := by
  have hmoves : ((bridge 2).replayUnder ownersKnownSoFar start
      (subscribed ++ unsubscribing ++ closing)).map (fun s => (s.shared.unsubscribed.length,
        s.shared.closed 1, s.threads.flatten.all fun x => x.job?.isNone)) = some (1, true, true) := rfl
  obtain ⟨s, hs, hend⟩ := Option.map_eq_some_iff.mp hmoves
  obtain ⟨hlength, hrest⟩ := Prod.mk.inj hend
  obtain ⟨hclosed, hidle⟩ := Prod.mk.inj hrest
  have hrun := ownersKnown_of_soFar (Run.start.replayUnder hs)
  exact ⟨s, hrun, hlength, hclosed, hidle, no_orphans hrun⟩

/-- **A subscription can outlive its owner.** It is unsubscribed before its job calls `add`, which
then puts its subscriber into the hub. -/
theorem not_no_orphans :
    ¬ ∀ s, Run (bridge 1) Guard.any start s → NoOrphans s.shared s.pending := by
  intro hno
  obtain ⟨s, hs⟩ : ∃ s, (bridge 1).replay start
      (subscribing ++ unsubscribing ++ List.replicate 8 (.run 5 {})) = some s := ⟨_, rfl⟩
  have hidle : s.threads.flatten.all (fun x => x.job?.isNone) = true := by
    cases hs
    rfl
  have horphan := hno s (Run.replay .start hs) fun x hx =>
    Option.isNone_iff_eq_none.mp (List.all_eq_true.mp hidle x (Multiset.mem_coe.mp hx))
  cases hs
  obtain ⟨_, hoff⟩ := horphan 1 _ rfl (.inl (List.mem_singleton_self _))
  exact hoff someEvent (by decide)

end JsonRpcBridge.Subscriptions
