import JsonRpcBridge.Upstream.Handover

/-!
# What outlives the shutdown

`survivors_of_run`: when the server is gone, the pump and the socket thread have come to rest, and
every client but the survivors is destroyed, with its last callback over. A survivor was replaced,
and the answer to its last call was about to give it up when the pump stopped: `close` did not find
it in its slot, and the pump did not take its release. `strandedRun` is a run that leaves one, whose
answer is still to be passed on.
-/

namespace JsonRpcBridge.Upstream.Registry.Shutdown

open Interleaving

variable {sh : Bridge} {p others : Multiset Section} {e : Effect Bridge Section} {ms : List Bytes}

/-! ## Callbacks

A client that runs a callback still exists: whoever drops its last reference waits for the
callback first. -/

/-- The client of a callback that is under way exists; and callbacks run on the clients' threads. -/
structure Alive (sh : Bridge) (p : Multiset Section) : Prop where
  inside : ∀ x ∈ p, ∀ k, x.inside? = some k → 0 < sh.registry.refs k
  who : ∀ who x, .work who x ∈ p → (who = .client ↔ x.inside?.isSome = true)

theorem le_refs_dropRef (sh : Shared) (k k' : Nat) :
    sh.refs k ≤ (sh.dropRef k').refs k ∨ k' = k ∧ sh.refs k ≤ (sh.dropRef k').refs k + 1 := by
  show sh.refs k ≤ Function.update sh.refs k' _ k ∨
    k' = k ∧ sh.refs k ≤ Function.update sh.refs k' _ k + 1
  by_cases hk : k = k'
  · right
    rw [hk, Function.update_self]
    exact ⟨rfl, by omega⟩
  · left
    rw [Function.update_of_ne hk]

theorem refs_dropBox_of_empty {sh : Shared} {b : Nat}
    (h : lastOf sh b = false ∧ 0 < (sh.boxes b).owners ∨ (sh.boxes b).full = false) :
    (sh.dropBox b).refs = sh.refs := by
  unfold Shared.dropBox
  dsimp only
  rw [if_neg]
  · rfl
  · rw [Bool.and_eq_true, not_and, beq_iff_eq]
    intro hlast
    rcases h with ⟨hnot, hpos⟩ | hempty
    · rw [lastOf, Bool.and_eq_false_imp] at hnot
      rw [hnot (by rw [beq_iff_eq]; omega)]
      exact Bool.false_ne_true
    · rw [hempty]
      exact Bool.false_ne_true

/-- A box takes the reference in it along with its last owner. -/
theorem le_refs_leaveBox {sh : Shared} {b : Nat} (h : 0 < (sh.boxes b).owners) (k : Nat) :
    sh.refs k ≤ (leaveBox sh b).refs k ∨
      (if lastOf sh b then some (sh.boxes b).client else none) = some k ∧
        sh.refs k ≤ (leaveBox sh b).refs k + 1 := by
  unfold leaveBox
  dsimp only
  cases hlast : lastOf sh b with
  | true =>
      rw [if_pos rfl, if_pos rfl, refs_dropBox_of_empty (.inr ?_)]
      · exact (le_refs_dropRef (sh.setBox b _) k _).imp_right fun hk => ⟨congrArg some hk.1, hk.2⟩
      · show (Function.update sh.boxes b _ b).full = false
        rw [Function.update_self]
  | false =>
      left
      rw [if_neg Bool.false_ne_true, refs_dropBox_of_empty (.inl ⟨hlast, h⟩)]

/-- A section lets at most one reference go, that of the client it drops. -/
theorem Accounts.refs {x : Section} (h : Accounts sh (x ::ₘ others))
    (hexec : Shutdown.exec sh x ms = some e) (k : Nat) :
    sh.registry.refs k ≤ e.shared.registry.refs k ∨
      x.drops sh.registry = some k ∧ sh.registry.refs k ≤ e.shared.registry.refs k + 1 := by
  have hledger := h.ledger
  rw [books_cons] at hledger
  -- a box in the books has an owner
  have howner : ∀ {y : Pc} {b : Nat}, y ∈ x.books sh.left → y.owns = some b →
      0 < (sh.registry.boxes b).owners := by
    intro y b hy howns
    rw [hledger.inv.boxes.owners b]
    exact carried_pos.mpr ⟨y, Multiset.mem_add.mpr (.inl (Multiset.mem_coe.mpr hy)), howns⟩
  cases x with
  | work who x =>
      by_cases hbox : ∃ k b, x = .dropBox k b
      · obtain ⟨j, b, rfl⟩ := hbox
        cases hexec
        apply le_refs_leaveBox
        cases hleft : sh.left.lookup b with
        | none =>
            have hbooks : (Section.work who (.dropBox j b)).books sh.left = [.dropBox j b] := by
              rw [Section.books, hleft]
            exact howner (hbooks ▸ List.mem_cons_self) rfl
        | some k' =>
            have hbooks : (Section.work who (.dropBox j b)).books sh.left = [.release k' b] := by
              rw [Section.books, hleft]
            exact howner (hbooks ▸ List.mem_cons_self) rfl
      · rw [exec_work fun k b heq => hbox ⟨k, b, heq⟩] at hexec
        obtain ⟨e', he', rfl⟩ := Option.map_eq_some_iff.mp hexec
        rw [books_work fun k b heq => absurd ⟨k, b, heq⟩ hbox, Multiset.coe_singleton,
          Multiset.singleton_add] at hledger
        rcases refs_exec hledger.inv he' k with hle | rfl | ⟨b, rfl⟩
        · exact .inl hle
        · cases he'
          exact .inr ⟨rfl, ((le_refs_dropRef sh.registry k k).elim Nat.le_succ_of_le And.right)⟩
        · right
          refine ⟨rfl, ?_⟩
          cases he'
          obtain ⟨hfull, hclient, -⟩ := hledger.inv.full rfl
          show _ ≤ (Shared.dropBox (if _ then _ else _) b).refs k + 1
          -- the job has emptied the box
          rw [if_pos hfull, refs_dropBox_of_empty (.inr ?_)]
          · exact (le_refs_dropRef (sh.registry.setBox b _) k _).elim Nat.le_succ_of_le And.right
          · show (Function.update sh.registry.boxes b _ b).full = false
            rw [Function.update_self]
  | closing dead =>
      cases dead with
      | nil =>
          cases hexec
          exact .inl (Nat.le_refl _)
      | cons k' dead =>
          cases hexec
          exact (le_refs_dropRef sh.registry k k').imp_right fun hk => ⟨congrArg some hk.1, hk.2⟩
  | dropping jobs =>
      cases jobs with
      | nil =>
          cases hexec
          exact .inl (Nat.le_refl _)
      | cons x jobs =>
          cases hexec
          cases x with
          | release k' b => exact le_refs_leaveBox (howner List.mem_cons_self rfl) k
          | _ => exact .inl (Nat.le_refl _)
  | report | close | stopPump | joinPump | stopServer | reset =>
      cases hexec
      exact .inl (Nat.le_refl _)

/-- What a section is followed by is in the same callback, or in none, and on the same thread. -/
theorem inside_made {x y : Section} (hexec : Shutdown.exec sh x ms = some e) (hy : y ∈ e.made) :
    (y.inside? = none ∧ y.host = x.host ∧ x.host = true) ∨
      ∃ who z z', x = .work who z ∧ y = .work who z' ∧ z'.inside? = z.inside? := by
  have hone : ∀ {sh' : Bridge} {z : Section}, e = { shared := sh', next := [z] } → z.inside? = none →
      z.host = x.host → x.host = true → y.inside? = none ∧ y.host = x.host ∧ x.host = true := by
    intro sh' z he hinside hhost hx
    rw [he] at hy
    obtain rfl : y = z := by simpa [Effect.made] using hy
    exact ⟨hinside, hhost, hx⟩
  cases x with
  | work who x =>
      right
      by_cases hbox : ∃ k b, x = .dropBox k b
      · obtain ⟨k, b, rfl⟩ := hbox
        cases hexec
        cases Multiset.mem_coe.mp hy
      · rw [exec_work fun k b heq => hbox ⟨k, b, heq⟩] at hexec
        obtain ⟨e', he', rfl⟩ := Option.map_eq_some_iff.mp hexec
        rw [Effect.made, List.flatten_nil, List.append_nil] at hy
        obtain ⟨z', hz', rfl⟩ := List.mem_map.mp (Multiset.mem_coe.mp hy)
        refine ⟨who, x, z', rfl, rfl, ?_⟩
        rcases List.mem_append.mp hz' with hnext | hget
        · exact (exec_leads he' hnext).inside
        · split at hget
          -- only a lease and `onReplaced` are followed by further leases, and neither is in a
          -- callback
          · rename_i hlease
            obtain ⟨m, -, rfl⟩ := List.mem_map.mp hget
            cases x with
            | get | onReplaced => rfl
            | _ => cases hlease
          · cases hget
  | closing dead =>
      left
      cases dead <;>
      · cases hexec
        exact hone rfl rfl rfl rfl
  | dropping jobs =>
      left
      cases jobs <;>
      · cases hexec
        exact hone rfl rfl rfl rfl
  | close | stopPump | joinPump | stopServer =>
      left
      cases hexec
      exact hone rfl rfl rfl rfl
  | report | reset =>
      cases hexec
      cases Multiset.mem_coe.mp hy

/-- **Step.** -/
theorem Alive.exec {x : Section} (h : Alive sh (x ::ₘ others)) (hacc : Accounts sh (x ::ₘ others))
    (hwaits : waits.run sh (x ::ₘ others) x ms) (hexec : Shutdown.exec sh x ms = some e) :
    Alive e.shared (e.made + others) := by
  -- no callback of a client is under way when its last reference goes
  have hkept : ∀ y ∈ x ::ₘ others, ∀ k, y.inside? = some k → 0 < e.shared.registry.refs k := by
    intro y hy k hk
    have hpos := h.inside y hy k hk
    -- a section drops one reference at most, and not the one of a callback that runs
    rcases hacc.refs hexec k with hle | ⟨hdrops, hle⟩
    · omega
    · by_contra hgone
      exact hwaits.1 k hdrops (by omega) y hy hk
  constructor
  · intro y hy k hk
    rcases Multiset.mem_add.mp hy with hmade | hother
    · rcases inside_made hexec hmade with ⟨hnone, -⟩ | ⟨who, z, z', rfl, rfl, hsame⟩
      · cases hnone.symm.trans hk
      · exact hkept _ (Multiset.mem_cons_self _ _) k (hsame.symm.trans hk)
    · exact hkept y (Multiset.mem_cons_of_mem hother) k hk
  · intro who y hy
    rcases Multiset.mem_add.mp hy with hmade | hother
    · rcases inside_made hexec hmade with ⟨-, hhost, hx⟩ | ⟨who', z, z', rfl, heq, hsame⟩
      · cases hhost.trans hx
      · cases heq
        rw [hsame]
        exact h.who _ _ (Multiset.mem_cons_self _ _)
    · exact h.who who y (Multiset.mem_cons_of_mem hother)

/-- **Step**, of an entry point. -/
theorem Alive.enter {ev : ShutdownEntry} (h : Alive sh p) (hacc : Accounts sh p)
    (henter : enter sh ev = some e) : Alive e.shared (e.made + p) := by
  have hsame : ∀ {sh' : Bridge} {l : List Section}, sh'.registry.refs = sh.registry.refs →
      (∀ y ∈ l, ∀ k, y.inside? = some k → 0 < sh.registry.refs k) →
      (∀ who x, .work who x ∈ l → (who = .client ↔ x.inside?.isSome = true)) →
      Alive sh' (({ shared := sh', next := l } : Effect Bridge Section).made + p) := by
    intro sh' l hrefs hinside hwho
    rw [Effect.made, List.flatten_nil, List.append_nil]
    constructor
    · intro y hy k hk
      rw [hrefs]
      exact (Multiset.mem_add.mp hy).elim (fun hy => hinside y (Multiset.mem_coe.mp hy) k hk)
        fun hy => h.inside y hy k hk
    · intro who x hx
      exact (Multiset.mem_add.mp hx).elim (fun hx => hwho who x (Multiset.mem_coe.mp hx))
        fun hx => h.who who x hx
  have hnone : ∀ {sh' : Bridge}, sh'.registry.refs = sh.registry.refs →
      Alive sh' (({ shared := sh' } : Effect Bridge Section).made + p) := by
    intro sh' hrefs
    exact hsame hrefs (fun y hy => by cases hy) fun who x hx => by cases hx
  cases ev with
  | tick elapsed =>
      cases henter
      exact hnone rfl
  | get m =>
      simp only [Shutdown.enter] at henter
      split at henter
      · cases henter
        refine hsame rfl ?_ ?_
        · intro y hy k hk
          cases List.mem_singleton.mp hy
          cases hk
        · intro who x hx
          cases List.mem_singleton.mp hx
          exact ⟨(fun hw => by cases hw), fun hin => by cases hin⟩
      · cases henter
  | call m =>
      simp only [Shutdown.enter] at henter
      split at henter <;>
      · cases henter
        exact hnone rfl
  | subscribe m =>
      cases henter
      apply hnone
      split <;> rfl
  | take =>
      simp only [Shutdown.enter] at henter
      split at henter
      · cases henter
      · rename_i x queue hqueue
        split at henter
        · cases henter
        · cases henter
          -- what the pump takes is a job, and no callback of a client
          have hjob := hacc.jobs x (hqueue ▸ List.mem_cons_self)
          have hinside : x.inside? = none := by
            cases x with
            | invoke | get | replace | release => rfl
            | _ => cases hjob
          refine hsame rfl ?_ ?_
          · intro y hy k hk
            cases List.mem_singleton.mp hy
            cases hinside.symm.trans hk
          · intro who y hy
            cases List.mem_singleton.mp hy
            rw [hinside]
            exact ⟨(fun hw => by cases hw), fun hin => by cases hin⟩
  | answer k call value err =>
      simp only [Shutdown.enter, Registry.enter] at henter
      split at henter
      · rename_i hok
        cases henter
        refine hsame rfl ?_ ?_
        · intro y hy k' hk'
          cases List.mem_singleton.mp hy
          cases hk'
          exact hok.2
        · intro who x hx
          cases List.mem_singleton.mp hx
          exact ⟨fun _ => rfl, fun _ => rfl⟩
      · cases henter
  | report k =>
      simp only [Shutdown.enter] at henter
      split at henter
      · rename_i hpos
        cases henter
        refine hsame rfl ?_ ?_
        · intro y hy k' hk'
          cases List.mem_singleton.mp hy
          cases hk'
          exact hpos
        · intro who x hx
          cases List.mem_singleton.mp hx
      · cases henter
  | shutdown =>
      simp only [Shutdown.enter] at henter
      split at henter
      · cases henter
      · cases henter
        refine hsame rfl ?_ ?_
        · intro y hy k hk
          cases List.mem_singleton.mp hy
          cases hk
        · intro who x hx
          cases List.mem_singleton.mp hx

/-! ## The order of the shutdown

One thread shuts down, and each of its steps comes after what it waits for. So a section that is
still pending says how far the shutdown can be. -/

/-- How far the shutdown is while the section is pending. -/
def Section.fits (sh : Bridge) : Section → Prop
  | .work .pump _ => sh.threads = true
  | .work .socket _ => sh.listening = true
  | .closing _ | .stopPump => sh.registry.closed = true
  | .dropping _ | .joinPump => sh.stopped = true
  | .stopServer => sh.threads = false
  | .reset => sh.listening = false
  | _ => True

/-- One thread shuts down, step by step. -/
structure Order (sh : Bridge) (p : Multiset Section) : Prop where
  fits : ∀ x ∈ p, x.fits sh
  one : p.countP (fun x => x.host = true) + (if sh.draining then 0 else 1) +
    (if sh.server then 0 else 1) = 1
  pump : sh.stopped = true → sh.registry.closed = true ∧ sh.queue = []
  joined : sh.threads = false → sh.stopped = true
  socket : sh.listening = false → sh.threads = false
  server : sh.server = false → sh.listening = false

/-- No step of the shutdown is taken back. -/
theorem Section.fits.mono {sh' : Bridge} {y : Section} (h : y.fits sh)
    (hclosed : sh.registry.closed = true → sh'.registry.closed = true)
    (hstopped : sh.stopped = true → sh'.stopped = true)
    (hthreads : sh'.threads = sh.threads ∨ sh'.threads = false ∧ y.who? ≠ some .pump)
    (hlistening : sh'.listening = sh.listening ∨ sh'.listening = false ∧ y.who? ≠ some .socket) :
    y.fits sh' := by
  cases y with
  | work who x =>
      cases who with
      | pump =>
          rcases hthreads with hsame | ⟨-, hnot⟩
          · exact hsame.trans h
          · exact absurd rfl hnot
      | socket =>
          rcases hlistening with hsame | ⟨-, hnot⟩
          · exact hsame.trans h
          · exact absurd rfl hnot
      | client => exact trivial
  | closing | stopPump => exact hclosed h
  | dropping | joinPump => exact hstopped h
  | stopServer => exact hthreads.elim (fun hsame => hsame.trans h) And.left
  | reset => exact hlistening.elim (fun hsame => hsame.trans h) And.left
  | report | close => exact trivial

theorem closed_leaveBox (sh : Shared) (b : Nat) : (leaveBox sh b).closed = sh.closed := by
  unfold leaveBox Shared.dropBox
  dsimp only
  repeat' split
  all_goals rfl

/-- The flags as they were, and maybe more closed. -/
theorem Order.step {sh' : Bridge} {q : Multiset Section} (h : Order sh p)
    (hfits : ∀ x ∈ q, x.fits sh')
    (hcount : q.countP (fun x => x.host = true) = p.countP fun x => x.host = true)
    (hclosed : sh.registry.closed = true → sh'.registry.closed = true)
    (hqueue : sh.stopped = true → sh.queue = [] → sh'.queue = [])
    (hdraining : sh'.draining = sh.draining) (hstopped : sh'.stopped = sh.stopped)
    (hthreads : sh'.threads = sh.threads) (hlistening : sh'.listening = sh.listening)
    (hserver : sh'.server = sh.server) : Order sh' q := by
  refine ⟨hfits, ?_, ?_, ?_, ?_, ?_⟩
  · rw [hcount, hdraining, hserver]
    exact h.one
  · intro hs
    rw [hstopped] at hs
    exact ⟨hclosed (h.pump hs).1, hqueue hs (h.pump hs).2⟩
  · rw [hthreads, hstopped]
    exact h.joined
  · rw [hlistening, hthreads]
    exact h.socket
  · rw [hserver, hlistening]
    exact h.server

theorem countP_host_cons {x y : Section} (h : y.host = x.host) :
    (y ::ₘ others).countP (fun x => x.host = true) =
      (x ::ₘ others).countP fun x => x.host = true := by
  rw [Multiset.countP_cons, Multiset.countP_cons, h]

theorem countP_host_step {x : Section} (h : x.host = true) :
    (x ::ₘ p).countP (fun x => x.host = true) = p.countP (fun x => x.host = true) + 1 := by
  rw [Multiset.countP_cons, if_pos h]

/-- **Step.** -/
theorem Order.exec {x : Section} (h : Order sh (x ::ₘ others)) (hacc : Accounts sh (x ::ₘ others))
    (hwaits : waits.run sh (x ::ₘ others) x ms) (hexec : Shutdown.exec sh x ms = some e) :
    Order e.shared (e.made + others) := by
  have hx := h.fits x (Multiset.mem_cons_self _ _)
  have hothers : ∀ y ∈ others, y.fits sh := fun y hy => h.fits y (Multiset.mem_cons_of_mem hy)
  -- a step of the shutdown that leaves the flags alone
  have hone : ∀ {sh' : Bridge} {y : Section}, y.host = x.host → y.fits sh' →
      (sh.registry.closed = true → sh'.registry.closed = true) → sh'.queue = sh.queue →
      sh'.draining = sh.draining → sh'.stopped = sh.stopped → sh'.threads = sh.threads →
      sh'.listening = sh.listening → sh'.server = sh.server →
      Order sh' (({ shared := sh', next := [y] } : Effect Bridge Section).made + others) := by
    intro sh' y hhost hy hclosed hqueue hdraining hstopped hthreads hlistening hserver
    rw [Effect.made, List.flatten_nil, List.append_nil, Multiset.coe_singleton,
      Multiset.singleton_add]
    apply h.step _ (countP_host_cons hhost) hclosed (fun _ hnil => hqueue.trans hnil) hdraining
      hstopped hthreads hlistening hserver
    intro z hz
    rcases Multiset.mem_cons.mp hz with rfl | hz
    · exact hy
    · exact (hothers z hz).mono hclosed hstopped.trans (.inl hthreads) (.inl hlistening)
  cases x with
  | work who x =>
      have hstill : ∀ {sh' : Bridge} {l : List Pc},
          (sh.registry.closed = true → sh'.registry.closed = true) →
          (sh.stopped = true → sh.queue = [] → sh'.queue = []) →
          sh'.draining = sh.draining → sh'.stopped = sh.stopped → sh'.threads = sh.threads →
          sh'.listening = sh.listening → sh'.server = sh.server →
          Order sh' (({ shared := sh', next := l.map (.work who) } : Effect Bridge Section).made +
            others) := by
        intro sh' l hclosed hqueue hdraining hstopped hthreads hlistening hserver
        rw [Effect.made, List.flatten_nil, List.append_nil]
        apply h.step _ _ hclosed hqueue hdraining hstopped hthreads hlistening hserver
        · intro z hz
          rcases Multiset.mem_add.mp hz with hz | hz
          · obtain ⟨y, -, rfl⟩ := List.mem_map.mp (Multiset.mem_coe.mp hz)
            have hy : (Section.work who y).fits sh := by
              cases who <;> exact hx
            exact hy.mono hclosed (fun hs => hstopped.trans hs) (.inl hthreads) (.inl hlistening)
          · exact (hothers z hz).mono hclosed (fun hs => hstopped.trans hs) (.inl hthreads)
              (.inl hlistening)
        · rw [Multiset.countP_add, Multiset.countP_cons_of_neg _ (by exact Bool.false_ne_true),
            Multiset.countP_eq_zero.mpr, zero_add]
          intro z hz
          obtain ⟨y, -, rfl⟩ := List.mem_map.mp (Multiset.mem_coe.mp hz)
          exact Bool.false_ne_true
      by_cases hbox : ∃ k b, x = .dropBox k b
      · obtain ⟨k, b, rfl⟩ := hbox
        cases hexec
        exact hstill (l := []) (fun hc => (closed_leaveBox _ _).trans hc) (fun _ hnil => hnil) rfl
          rfl rfl rfl rfl
      · rw [exec_work fun k b heq => hbox ⟨k, b, heq⟩] at hexec
        obtain ⟨e', he', rfl⟩ := Option.map_eq_some_iff.mp hexec
        have hledger := hacc.ledger
        rw [books_cons, books_work fun k b heq => absurd ⟨k, b, heq⟩ hbox, Multiset.coe_singleton,
          Multiset.singleton_add] at hledger
        refine hstill (Keeps.exec hledger.inv he').closed ?_ rfl rfl rfl rfl rfl
        intro hstopped hnil
        rcases exec_spawn he' with hnone | ⟨haccepted, -⟩
        · show sh.queue ++ e'.spawn.flatten = []
          rw [hnil, hnone]
          rfl
        · rw [hstopped] at haccepted
          cases haccepted
  | report k =>
      cases hexec
      rw [Effect.made, List.flatten_nil, List.append_nil, Multiset.coe_nil, zero_add]
      apply h.step hothers _ id (fun _ hnil => hnil) rfl rfl rfl rfl rfl
      exact (Multiset.countP_cons_of_neg _ (by exact Bool.false_ne_true)).symm
  | close =>
      cases hexec
      exact hone rfl rfl (fun _ => rfl) rfl rfl rfl rfl rfl rfl
  | closing dead =>
      cases dead with
      | nil =>
          cases hexec
          exact hone rfl hx id rfl rfl rfl rfl rfl rfl
      | cons k dead =>
          cases hexec
          exact hone rfl hx id rfl rfl rfl rfl rfl rfl
  | stopPump =>
      cases hexec
      rw [Effect.made, List.flatten_nil, List.append_nil, Multiset.coe_singleton,
        Multiset.singleton_add]
      refine ⟨?_, ?_, fun _ => ⟨hx, rfl⟩, fun _ => rfl, h.socket, h.server⟩
      · intro z hz
        rcases Multiset.mem_cons.mp hz with rfl | hz
        · rfl
        · exact (hothers z hz).mono id (fun _ => rfl) (.inl rfl) (.inl rfl)
      · rw [countP_host_cons (show (Section.dropping sh.queue).host = Section.stopPump.host from rfl)]
        exact h.one
  | dropping jobs =>
      cases jobs with
      | nil =>
          cases hexec
          exact hone rfl hx id rfl rfl rfl rfl rfl rfl
      | cons job jobs =>
          cases hexec
          cases job with
          | release k b =>
              exact hone rfl hx (fun hc => (closed_leaveBox _ _).trans hc) rfl rfl rfl rfl rfl rfl
          | _ => exact hone rfl hx id rfl rfl rfl rfl rfl rfl
  -- the join waited for the threads of the pump, so none of their sections is left
  | joinPump =>
      cases hexec
      rw [Effect.made, List.flatten_nil, List.append_nil, Multiset.coe_singleton,
        Multiset.singleton_add]
      refine ⟨?_, ?_, h.pump, fun _ => hx, fun _ => rfl, h.server⟩
      · intro z hz
        rcases Multiset.mem_cons.mp hz with rfl | hz
        · rfl
        · exact (hothers z hz).mono id id (.inr ⟨rfl, hwaits.2 .pump (.inl ⟨rfl, rfl⟩) z
            (Multiset.mem_cons_of_mem hz)⟩) (.inl rfl)
      · rw [countP_host_cons (show Section.stopServer.host = Section.joinPump.host from rfl)]
        exact h.one
  -- and for the socket thread
  | stopServer =>
      cases hexec
      rw [Effect.made, List.flatten_nil, List.append_nil, Multiset.coe_singleton,
        Multiset.singleton_add]
      refine ⟨?_, ?_, h.pump, h.joined, fun _ => hx, fun _ => rfl⟩
      · intro z hz
        rcases Multiset.mem_cons.mp hz with rfl | hz
        · rfl
        · exact (hothers z hz).mono id id (.inl rfl) (.inr ⟨rfl, hwaits.2 .socket (.inr ⟨rfl, rfl⟩) z
            (Multiset.mem_cons_of_mem hz)⟩)
      · rw [countP_host_cons (show Section.reset.host = Section.stopServer.host from rfl)]
        exact h.one
  | reset =>
      cases hexec
      rw [Effect.made, List.flatten_nil, List.append_nil, Multiset.coe_nil, zero_add]
      refine ⟨?_, ?_, h.pump, h.joined, h.socket, fun _ => hx⟩
      · exact fun z hz => (hothers z hz).mono id id (.inl rfl) (.inl rfl)
      · have hone := h.one
        rw [countP_host_step (show Section.reset.host = true from rfl)] at hone
        show _ + (if sh.draining = true then 0 else 1) + 1 = 1
        omega

/-- **Step**, of an entry point. -/
theorem Order.enter {ev : ShutdownEntry} (h : Order sh p) (henter : enter sh ev = some e) :
    Order e.shared (e.made + p) := by
  -- nothing that begins here is the host's, and it fits where it begins
  have hstep : ∀ {sh' : Bridge} {l : List Section}, (∀ y ∈ l, y.fits sh' ∧ y.host = false) →
      sh'.registry.closed = sh.registry.closed → (sh.stopped = true → sh.queue = [] → sh'.queue = []) →
      sh'.draining = sh.draining → sh'.stopped = sh.stopped → sh'.threads = sh.threads →
      sh'.listening = sh.listening → sh'.server = sh.server →
      Order sh' (({ shared := sh', next := l } : Effect Bridge Section).made + p) := by
    intro sh' l hl hclosed hqueue hdraining hstopped hthreads hlistening hserver
    rw [Effect.made, List.flatten_nil, List.append_nil]
    refine h.step ?_ ?_ hclosed.trans hqueue hdraining hstopped hthreads hlistening hserver
    · intro z hz
      rcases Multiset.mem_add.mp hz with hz | hz
      · exact (hl z (Multiset.mem_coe.mp hz)).1
      · exact (h.fits z hz).mono hclosed.trans hstopped.trans (.inl hthreads) (.inl hlistening)
    · rw [Multiset.countP_add, Multiset.countP_eq_zero.mpr, zero_add]
      intro z hz
      rw [(hl z (Multiset.mem_coe.mp hz)).2]
      exact Bool.false_ne_true
  have hnil : ∀ {sh' : Bridge}, ∀ y ∈ ([] : List Section), y.fits sh' ∧ y.host = false := by
    intro sh' y hy
    cases hy
  have hone : ∀ {sh' : Bridge} {x : Section}, x.fits sh' → x.host = false →
      ∀ y ∈ [x], y.fits sh' ∧ y.host = false := by
    intro sh' x hfits hhost y hy
    rw [List.mem_singleton.mp hy]
    exact ⟨hfits, hhost⟩
  cases ev with
  | tick elapsed =>
      cases henter
      exact hstep hnil rfl (fun _ hq => hq) rfl rfl rfl rfl rfl
  | get m =>
      simp only [Shutdown.enter] at henter
      split at henter
      · rename_i hlistening
        cases henter
        exact hstep (hone hlistening rfl) rfl (fun _ hq => hq) rfl rfl rfl rfl rfl
      · cases henter
  | call m =>
      simp only [Shutdown.enter] at henter
      split at henter
      · cases henter
        exact hstep hnil rfl (fun _ hq => hq) rfl rfl rfl rfl rfl
      · rename_i hrunning
        cases henter
        exact hstep hnil rfl (fun hstopped => absurd hstopped hrunning) rfl rfl rfl rfl rfl
  | subscribe m =>
      cases henter
      split
      · exact hstep hnil rfl (fun _ hq => hq) rfl rfl rfl rfl rfl
      · rename_i hrunning
        exact hstep hnil rfl (fun hstopped => absurd hstopped hrunning) rfl rfl rfl rfl rfl
  | take =>
      simp only [Shutdown.enter] at henter
      split at henter
      · cases henter
      · split at henter
        · cases henter
        · rename_i hrunning
          cases henter
          -- the pump has threads until it was joined, after it was stopped
          have hthreads : sh.threads = true := by
            by_contra hjoined
            exact hrunning (h.joined (by simpa using hjoined))
          exact hstep (hone hthreads rfl) rfl (fun hstopped => absurd hstopped hrunning) rfl rfl rfl
            rfl rfl
  | answer k call value err =>
      simp only [Shutdown.enter, Registry.enter] at henter
      split at henter
      · cases henter
        exact hstep (hone trivial rfl) rfl (fun _ hq => hq) rfl rfl rfl rfl rfl
      · cases henter
  | report k =>
      simp only [Shutdown.enter] at henter
      split at henter
      · cases henter
        exact hstep (hone trivial rfl) rfl (fun _ hq => hq) rfl rfl rfl rfl rfl
      · cases henter
  | shutdown =>
      simp only [Shutdown.enter] at henter
      split at henter
      · cases henter
      · rename_i hserving
        cases henter
        rw [Effect.made, List.flatten_nil, List.append_nil, Multiset.coe_singleton,
          Multiset.singleton_add]
        refine ⟨?_, ?_, h.pump, h.joined, h.socket, h.server⟩
        · intro z hz
          rcases Multiset.mem_cons.mp hz with rfl | hz
          · exact trivial
          · exact (h.fits z hz).mono id id (.inl rfl) (.inl rfl)
        · have hone := h.one
          -- the host comes in, with the first of its sections
          rw [if_neg hserving] at hone
          rw [countP_host_step (show Section.close.host = true from rfl)]
          show _ + 1 + (if true = true then 0 else 1) + _ = 1
          rw [if_pos rfl]
          omega

/-! ## Runs

The three invariants together, since each step needs the others. -/

/-- What holds after every section of a shutdown. -/
structure Shuts (sh : Bridge) (p : Multiset Section) : Prop where
  accounts : Accounts sh p
  alive : Alive sh p
  order : Order sh p

theorem shuts_start : Shuts start.shared start.pending where
  accounts :=
    { ledger :=
        { inv := inv_start
          homes := fun _ hk => by cases hk
          gives := ⟨fun x hx => absurd hx (Multiset.notMem_zero x), fun k hk => by cases hk⟩
          owners := fun _ => Nat.zero_le _
          lone := fun _ _ hb => by cases hb
          kept := fun k b _ => rfl }
      jobs := fun x hx => by cases hx
      dying := fun jobs hmem => absurd hmem (Multiset.notMem_zero _)
      dropped := fun x hx => by cases hx }
  alive := ⟨fun x hx => absurd hx (Multiset.notMem_zero x),
    fun who x hx => absurd hx (Multiset.notMem_zero _)⟩
  order :=
    { fits := fun x hx => absurd hx (Multiset.notMem_zero x)
      one := rfl
      pump := fun hs => by cases hs
      joined := fun hs => by cases hs
      socket := fun hs => by cases hs
      server := fun hs => by cases hs }

/-- **Run.** -/
theorem shuts_of_run {s : State Bridge Section} (h : Run shutdown waits start s) :
    Shuts s.shared s.pending := by
  apply Run.invariant (I := Shuts) shuts_start _ _ h
  · intro sh x ms e others hI hwaits hexec
    exact ⟨hI.accounts.exec hexec, hI.alive.exec hI.accounts hwaits hexec,
      hI.order.exec hI.accounts hwaits hexec⟩
  · intro sh ev e p hI _ henter
    exact ⟨hI.accounts.enter henter, hI.alive.enter hI.accounts henter, hI.order.enter henter⟩

/-! ## Who survives

With the pump and the socket thread gone, what is left are callbacks. The books say what a
callback can have in hand, and that is what survives. -/

/-- The section, in a callback, is about to give client `k` up. -/
def Section.givesUp (left : List (Nat × Nat)) : Section → Option Nat
  | .work _ (.postRelease k) | .work _ (.keep k _) => some k
  | .work _ (.dropBox _ b) => left.lookup b
  | _ => none

/-- The client was replaced, and its release went to nobody: it is in `m_unreleased`, or the answer
that is to put it there is still at it. -/
def Survives (s : State Bridge Section) (k : Nat) : Prop :=
  (s.shared.registry.slots k).retired = true ∧
    (k ∈ s.shared.registry.unreleased ∨ ∃ x ∈ s.pending, x.givesUp s.shared.left = some k)

theorem Accounts.hands {k : Nat} {y : Pc} (h : Accounts sh p) (hqueue : sh.queue = [])
    (hy : y ∈ books sh p) (hk : y.holds = some k) : ∃ x ∈ p, y ∈ x.books sh.left := by
  rcases Multiset.mem_add.mp hy with hy | hy
  · obtain ⟨x, hx, hyx⟩ := Multiset.mem_bind.mp hy
    exact ⟨x, hx, Multiset.mem_coe.mp hyx⟩
  · rw [hqueue, List.nil_append] at hy
    cases (h.dropped y (Multiset.mem_coe.mp hy)).2.symm.trans hk

/-- In a callback, a reference is in hand only to be given up. -/
theorem givesUp_of_holds {left : List (Nat × Nat)} {x y : Pc} {k : Nat} (hx : x.inside?.isSome = true)
    (hy : y ∈ (Section.work .client x).books left) (hk : y.holds = some k) :
    (Section.work .client x).givesUp left = some k ∧ y.gives = some k := by
  cases x with
  | dropBox j b =>
      rw [Section.books] at hy
      split at hy
      · rename_i k' hlookup
        obtain rfl := List.mem_singleton.mp hy
        cases hk
        exact ⟨hlookup, rfl⟩
      · obtain rfl := List.mem_singleton.mp hy
        cases hk
  | postRelease | keep =>
      obtain rfl := List.mem_singleton.mp hy
      cases hk
      exact ⟨rfl, rfl⟩
  | finished | postReplace =>
      obtain rfl := List.mem_singleton.mp hy
      cases hk
  | done =>
      obtain rfl := List.mem_singleton.mp hy
      cases hk
  | get | invoke | submit | replace | onReplaced | close | drop | release => cases hx

/-- When the server is gone, only callbacks are under way. -/
theorem Shuts.client (h : Shuts sh p) (hgone : sh.server = false) {x : Section} (hx : x ∈ p) :
    (∃ y, x = .work .client y ∧ y.inside?.isSome = true) ∨ ∃ k, x = .report k := by
  have hlistening := h.order.server hgone
  have hthreads := h.order.socket hlistening
  have hfits := h.order.fits x hx
  cases x with
  | work who y =>
      left
      cases who with
      | pump => cases hthreads.symm.trans hfits
      | socket => cases hlistening.symm.trans hfits
      | client => exact ⟨y, rfl, (h.alive.who _ _ hx).mp rfl⟩
  | report k => exact .inr ⟨k, rfl⟩
  | _ =>
      have hone := h.order.one
      have hpos : 0 < p.countP (fun x => x.host = true) := Multiset.countP_pos.mpr ⟨_, hx, rfl⟩
      rw [hgone, if_neg (show ¬false = true from Bool.false_ne_true)] at hone
      omega

/-- **Who survives the shutdown.** -/
theorem survivors_of_run {s : State Bridge Section} (h : Run shutdown waits start s)
    (hgone : s.shared.server = false) :
    s.shared.queue = [] ∧
      (∀ x ∈ s.pending, ∃ k, x.inside? = some k ∧ Survives s k) ∧
      ∀ k, 0 < s.shared.registry.refs k → Survives s k := by
  have hI := shuts_of_run h
  obtain ⟨hclosed, hqueue⟩ := hI.order.pump (hI.order.joined (hI.order.socket (hI.order.server hgone)))
  have hledger := hI.accounts.ledger
  have hsurvives : ∀ k, 0 < s.shared.registry.refs k → Survives s k := by
    intro k hpos
    have hempty : (s.shared.registry.slots k).client = false := by
      by_contra hheld
      cases (hledger.homes k (by simpa using hheld)).1.symm.trans hclosed
    rw [hledger.inv.refs k, hempty, if_neg Bool.false_ne_true, zero_add] at hpos
    -- kept when its post was refused, or in the hand of a callback that is under way
    by_cases hkept : k ∈ s.shared.registry.unreleased
    · exact ⟨hledger.gives.unreleased k hkept, .inl hkept⟩
    · rw [List.count_eq_zero_of_not_mem hkept, zero_add] at hpos
      obtain ⟨y, hy, hk⟩ := carried_pos.mp hpos
      obtain ⟨x, hx, hyx⟩ := hI.accounts.hands hqueue hy hk
      rcases hI.client hgone hx with ⟨z, rfl, hinside⟩ | ⟨k', rfl⟩
      · obtain ⟨hup, hgives⟩ := givesUp_of_holds hinside hyx hk
        exact ⟨hledger.gives.sections y hy k hgives, .inr ⟨_, hx, hup⟩⟩
      · cases hyx
  refine ⟨hqueue, ?_, hsurvives⟩
  intro x hx
  obtain ⟨k, hk⟩ : ∃ k, x.inside? = some k := by
    rcases hI.client hgone hx with ⟨y, rfl, hinside⟩ | ⟨k, rfl⟩
    · exact Option.isSome_iff_exists.mp hinside
    · exact ⟨k, rfl⟩
  exact ⟨k, hk, hsurvives k (hI.alive.inside x hx k hk)⟩

/-- A client is replaced while a call is out. Its answer takes the client out of the slot, and goes
on when everything is over. -/
def strandedRun : List (Move (List Bytes) ShutdownEntry) :=
  [.enter (.call (str "m")), .enter (.call (str "m")),
   .enter .take, .run 2 [], .run 2 [], .run 2 [],
   .enter .take, .run 3 [], .run 3 [], .run 3 [],
   .enter (.tick kFirstGap),
   .enter (.answer 0 0 .null ⟨str "object_unavailable", []⟩), .run 5 [], .run 5 [], .run 5 [],
   .enter .take, .run 6 [], .run 6 [],
   .enter (.answer 0 1 .null {}), .run 7 [],
   .enter .shutdown, .run 8 [], .run 8 [], .run 8 [], .run 8 [], .run 8 [], .run 8 [], .run 8 [],
   .run 8 [], .run 7 [], .run 7 [], .run 7 []]

theorem survivors_of_run_stranded : ∃ s, Run shutdown waits start s ∧ s.shared.server = false ∧
    s.threads.flatten.map Section.inside? = [some 0] ∧ Survives s 0 ∧
    ∀ k, 0 < s.shared.registry.refs k → Survives s k := by
  have hrun : (shutdown.replayUnder waits start strandedRun).map (fun s =>
      (s.shared.server, s.threads.flatten.map Section.inside?, s.shared.registry.refs 0)) =
        some (false, [some 0], 1) := by
    decide +kernel
  obtain ⟨s, hs, heq⟩ := Option.map_eq_some_iff.mp hrun
  obtain ⟨hserver, hrest⟩ := Prod.mk.inj heq
  obtain ⟨hthreads, hrefs⟩ := Prod.mk.inj hrest
  have hreached := Run.start.replayUnder hs
  have hall := (survivors_of_run hreached hserver).2.2
  exact ⟨s, hreached, hserver, hthreads, hall 0 (hrefs ▸ Nat.one_pos), hall⟩

end JsonRpcBridge.Upstream.Registry.Shutdown
