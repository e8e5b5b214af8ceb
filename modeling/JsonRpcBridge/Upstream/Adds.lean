import JsonRpcBridge.Interleaving.Basic
import JsonRpcBridge.Upstream.Members
import JsonRpcBridge.Upstream.Threads

/-!
# A successful add

The hub as a program of its own: any number of threads add, remove, lose and rebind, and clients
are replaced under them. `standing` holds the adds that have begun and that no removal or loss has
covered since, and `ended` what each add returned.

An add that joins an entry returns true at once, while the add that made the entry is still binding
it. If that bind fails the entry is erased, and whoever had joined it with it.

* `add_true`: if no other add stands whenever an entry is erased so, an add that returned true and
  still stands is on the roster.
* `not_add_true`: without that it need not be.
-/

namespace JsonRpcBridge.Upstream

open Interleaving

/-! ## The hub by itself

Beside the hub a record is kept of the adds that stand and of what each add returned. No section of
the hub reads it. -/

/-- An `add` that has begun. -/
structure AddOp where
  k : Nat
  key : Key
  id : Nat
  deriving DecidableEq

structure HubShared where
  hub : Hub := {}
  nextOp : Nat := 0
  standing : List AddOp := []
  ended : List (Nat × Bool) := []

/-- The entry points of the hub, and a replacement of a module's client with the hook that
follows. -/
inductive HubEntry where
  | add (key : Key) (id : Nat)
  | remove (key : Key) (id : Nat)
  | removeEverywhere (id : Nat)
  | rebind (module : Bytes)
  | status (module : Bytes) (epoch : Nat) (gone : Bool)
  | moduleLost (module : Bytes) (why : Bytes)
  | lost (key : Key) (why : Bytes)
  | deliver (a : Nat) (payload : Json)
  | replace (module : Bytes)
  | closeClients

/-- A removal of `id` from `key`, or a loss of `key`. -/
def Pc.covers {κ : Type} (key : Key) (id : Nat) : Pc κ → Bool
  | .remove k i => k == key && i == id
  | .removeEverywhere i => i == id
  | .lost k _ => k == key
  | _ => false

/-- The adds that stand after a section. -/
def Pc.standing (x : Pc Nat) (ops : List AddOp) : List AddOp :=
  match x with
  | .add k key id => ⟨k, key, id⟩ :: ops
  | _ => ops.filter fun op => !x.covers op.key op.id

/-- A section of the hub. The three functions it leaves through are noted or passed over. -/
def hubExec (sh : HubShared) (x : Pc Nat) (valid : Bool) : Option (Effect HubShared (Pc Nat)) :=
  match x with
  | .added k ok => some { shared := { sh with ended := sh.ended ++ [(k, ok)] } }
  | .onLost .. | .sink .. => some { shared := sh }
  | x =>
    (sh.hub.exec x valid).map fun r =>
      { shared := { sh with hub := r.1, standing := x.standing sh.standing }, next := r.2 }

/-- A call from the rest of the bridge. Adds are numbered. -/
def hubEnter (sh : HubShared) : HubEntry → Option (Effect HubShared (Pc Nat))
  | .add key id =>
    some { shared := { sh with nextOp := sh.nextOp + 1 }, next := [.add sh.nextOp key id] }
  | .remove key id => some { shared := sh, next := [.remove key id] }
  | .removeEverywhere id => some { shared := sh, next := [.removeEverywhere id] }
  | .rebind m => some { shared := sh, next := [.rebind m] }
  | .status m epoch gone => some { shared := sh, next := [.status m epoch gone] }
  | .moduleLost m why => some { shared := sh, next := [.moduleLost m why] }
  | .lost key why => some { shared := sh, next := [.lost key why] }
  | .deliver a payload => some { shared := sh, next := [.deliver a payload] }
  | .replace m =>
    let clients := sh.hub.clients.replace m
    some { shared := { sh with hub := { sh.hub with clients } }
           next := [.retire m (clients.epoch m), .rebind m] }
  | .closeClients =>
    let clients := { sh.hub.clients with closed := true }
    some { shared := { sh with hub := { sh.hub with clients } } }

def hubProgram : Program HubShared (Pc Nat) Bool HubEntry where
  exec := hubExec
  enter := hubEnter

def hubStart : State HubShared (Pc Nat) where
  shared := {}

/-! ## The invariant

An add that stands was put on the roster by its first section, and only the erase of its entry
takes it off without a removal or loss. So it is a member, or it has failed; and an add does not
both fail and return true, since each number ends once. -/

/-- The add `k` failed, or is about to return that it did. -/
def AddFailed (sh : HubShared) (p : Multiset (Pc Nat)) (k : Nat) : Prop :=
  (k, false) ∈ sh.ended ∨ .added k false ∈ p

/-- An entry is erased only while no add of its key stands but the one whose bind failed. -/
def erasedAlone : Guard HubShared (Pc Nat) Bool HubEntry where
  run sh p x _ := ∀ k key id a, x = .undo k key id a → x.change sh.hub = .empty key →
    ∀ op ∈ sh.standing, op.key = key → op.k = k ∨ AddFailed sh p op.k
  enter _ _ _ := True

/-- The add whose failure is returned next. -/
def Pc.failed? : Pc Nat → Option Nat
  | .added k false => some k
  | _ => none

instance (sh : HubShared) (p : Multiset (Pc Nat)) (k : Nat) : Decidable (AddFailed sh p k) :=
  decidable_of_iff ((k, false) ∈ sh.ended ∨ k ∈ p.filterMap Pc.failed?) <| or_congr Iff.rfl <| by
    rw [Multiset.mem_filterMap]
    constructor
    · rintro ⟨x, hx, hk⟩
      obtain rfl : x = .added k false := by
        unfold Pc.failed? at hk
        split at hk
        · rw [Option.some.inj hk]
        · cases hk
      exact hx
    · exact fun h => ⟨_, h, rfl⟩

instance : erasedAlone.Decided where
  run sh p x _ := by
    induction x using Pc.casesOn with
    | undo k key id a =>
        exact decidable_of_iff ((Pc.undo k key id a).change sh.hub = .empty key →
          ∀ op ∈ sh.standing, op.key = key → op.k = k ∨ AddFailed sh p op.k)
          ⟨by rintro h _ _ _ _ ⟨⟩; exact h, fun h => h _ _ _ _ rfl⟩
    | _ => exact isTrue (by rintro _ _ _ _ ⟨⟩)
  enter _ _ _ := isTrue trivial

/-- The adds under way and those that ended, each once. -/
def HubShared.ops (sh : HubShared) (p : Multiset (Pc Nat)) : Multiset Nat :=
  p.filterMap Pc.op? + ↑(sh.ended.map (·.1))

structure AddInv (sh : HubShared) (p : Multiset (Pc Nat)) : Prop where
  filed : sh.hub.Filed
  nodup : (sh.ops p).Nodup
  fresh : ∀ k ∈ sh.ops p, k < sh.nextOp
  member : ∀ op ∈ sh.standing, op.id ∈ sh.hub.roster op.key ∨ AddFailed sh p op.k

/-! ### Section by section -/

theorem hubExec_of_not_returns {sh : HubShared} {x : Pc Nat} {valid : Bool}
    {e : Effect HubShared (Pc Nat)} (hx : x.returns = false) (h : hubExec sh x valid = some e) :
    ∃ hub' next, sh.hub.exec x valid = some (hub', next) ∧
      e = { shared := { sh with hub := hub', standing := x.standing sh.standing }, next } := by
  cases x with
  | added | onLost | sink => cases hx
  | _ =>
      simp only [hubExec] at h
      obtain ⟨⟨hub', next⟩, hexec, rfl⟩ := Option.map_eq_some_iff.mp h
      exact ⟨hub', next, hexec, rfl⟩

/-- **Step.** A section keeps each add in one place. -/
theorem hubExec_ops {sh : HubShared} {x : Pc Nat} {valid : Bool} {e : Effect HubShared (Pc Nat)}
    (others : Multiset (Pc Nat)) (h : hubExec sh x valid = some e) :
    e.shared.ops (e.made + others) = sh.ops (x ::ₘ others) ∧ e.shared.nextOp = sh.nextOp := by
  cases hret : x.returns with
  | false =>
      obtain ⟨hub', next, hexec, rfl⟩ := hubExec_of_not_returns hret h
      refine ⟨?_, rfl⟩
      have hnext : Multiset.filterMap Pc.op? (↑next : Multiset (Pc Nat)) = ↑x.op?.toList := by
        rw [Multiset.filterMap_coe, Hub.exec_op hexec]
      simp only [HubShared.ops, Effect.made, List.flatten_nil, List.append_nil,
        Multiset.filterMap_add, filterMap_cons_toList, hnext]
  | true =>
      cases x with
      | added k ok =>
          cases h
          refine ⟨?_, rfl⟩
          have hended : (↑((sh.ended ++ [(k, ok)]).map (·.1)) : Multiset Nat) =
              ↑(sh.ended.map (·.1)) + {k} := by
            rw [List.map_append, ← Multiset.coe_add]
            rfl
          show Multiset.filterMap Pc.op? (0 + others) + _ = _
          rw [hended, zero_add, HubShared.ops, filterMap_cons_toList]
          show _ = ({k} + _ : Multiset Nat) + _
          rw [← add_assoc, add_comm]
          exact (add_assoc _ _ _).symm
      | onLost id key why =>
          cases h
          refine ⟨?_, rfl⟩
          show Multiset.filterMap Pc.op? (0 + others) + _ = _
          rw [zero_add, HubShared.ops, filterMap_cons_toList]
          simp [Pc.op?]
      | sink id key payload generation =>
          cases h
          refine ⟨?_, rfl⟩
          show Multiset.filterMap Pc.op? (0 + others) + _ = _
          rw [zero_add, HubShared.ops, filterMap_cons_toList]
          simp [Pc.op?]
      | _ => cases hret

theorem mem_standing_of_ne {x : Pc Nat} {ops : List AddOp} {op : AddOp}
    (hx : ∀ k key id, x ≠ .add k key id) :
    op ∈ x.standing ops ↔ op ∈ ops ∧ x.covers op.key op.id = false := by
  cases x with
  | add k key id => exact absurd rfl (hx k key id)
  | _ => simp [Pc.standing]

/-- Only an erased entry takes off the roster an id that is not covered. -/
theorem drops_of_not_covers {h : Hub} {x : Pc Nat} {key : Key} {id : Nat}
    (hdrop : (x.change h).Drops key id) (hcov : x.covers key id = false) :
    ∃ k i a, x = .undo k key i a ∧ x.change h = .empty key := by
  cases x with
  | add k k' i =>
      simp only [Pc.change] at hdrop
      split at hdrop <;> exact hdrop.elim
  | undo k k' i a =>
      by_cases hc : (h.find k' == some a && (h.heap a).epoch == 0) = true
      · have hchange : (Pc.undo k k' i a).change h = .empty k' := if_pos hc
        rw [hchange] at hdrop
        obtain rfl : k' = key := hdrop
        exact ⟨k, i, a, rfl, hchange⟩
      · have hchange : (Pc.undo k k' i a).change h = .none := if_neg hc
        rw [hchange] at hdrop
        exact hdrop.elim
  | remove k' i =>
      obtain ⟨rfl, rfl⟩ : k' = key ∧ i = id := hdrop
      simp [Pc.covers] at hcov
  | removeEverywhere i =>
      obtain rfl : i = id := hdrop
      simp [Pc.covers] at hcov
  | lost k' why =>
      obtain rfl : k' = key := hdrop
      simp [Pc.covers] at hcov
  | _ => exact absurd hdrop (by simp [Pc.change, Change.Drops])

/-- A failed add stays failed. -/
theorem AddFailed.step {sh : HubShared} {x : Pc Nat} {valid : Bool}
    {e : Effect HubShared (Pc Nat)} {others : Multiset (Pc Nat)} {k : Nat}
    (hfail : AddFailed sh (x ::ₘ others) k) (h : hubExec sh x valid = some e) :
    AddFailed e.shared (e.made + others) k := by
  have hended : ∀ y ∈ sh.ended, y ∈ e.shared.ended := by
    intro y hy
    cases hret : x.returns with
    | false =>
        obtain ⟨hub', next, _, rfl⟩ := hubExec_of_not_returns hret h
        exact hy
    | true =>
        cases x with
        | added k ok => cases h; exact List.mem_append_left _ hy
        | onLost | sink => cases h; exact hy
        | _ => cases hret
  rcases hfail with hfail | hfail
  · exact .inl (hended _ hfail)
  · rcases Multiset.mem_cons.mp hfail with rfl | hfail
    · cases h
      exact .inl (by simp)
    · exact .inr (Multiset.mem_add.mpr (.inr hfail))

/-- **Step.** -/
theorem hubExec_inv {sh : HubShared} {x : Pc Nat} {valid : Bool} {e : Effect HubShared (Pc Nat)}
    {others : Multiset (Pc Nat)} (hI : AddInv sh (x ::ₘ others))
    (hguard : erasedAlone.run sh (x ::ₘ others) x valid) (h : hubExec sh x valid = some e) :
    AddInv e.shared (e.made + others) := by
  obtain ⟨hops, hnext⟩ := hubExec_ops others h
  have hnodup : (e.shared.ops (e.made + others)).Nodup := hops ▸ hI.nodup
  have hfresh : ∀ k ∈ e.shared.ops (e.made + others), k < e.shared.nextOp := by
    rw [hops, hnext]
    exact hI.fresh
  cases hret : x.returns with
  | true =>
      have hsame : e.shared.hub = sh.hub ∧ e.shared.standing = sh.standing := by
        cases x with
        | added | onLost | sink => cases h; exact ⟨rfl, rfl⟩
        | _ => cases hret
      refine ⟨hsame.1 ▸ hI.filed, hnodup, hfresh, ?_⟩
      rw [hsame.1, hsame.2]
      intro op hop
      exact (hI.member op hop).imp_right fun hfail => hfail.step h
  | false =>
      obtain ⟨hub', next, hexec, rfl⟩ := hubExec_of_not_returns hret h
      obtain ⟨hfiled, hroster⟩ := Hub.exec_roster hI.filed hexec
      refine ⟨hfiled, hnodup, hfresh, ?_⟩
      intro op hop
      rw [hroster]
      -- an `add` puts itself on the roster; any other section at most takes somebody off
      by_cases hadd : ∃ k key id, x = .add k key id
      · obtain ⟨k, key, id, rfl⟩ := hadd
        rcases List.mem_cons.mp hop with rfl | hop
        · -- the add that begins here
          by_cases hclosed : sh.hub.closed = true
          · right
            simp only [Hub.exec, hclosed, if_true] at hexec
            cases hexec
            exact .inr (Multiset.mem_add.mpr (.inl (Effect.mem_made_next
              (List.mem_singleton_self _))))
          · left
            simp [Pc.change, hclosed, Change.apply]
        · rcases hI.member op hop with hmem | hfail
          · left
            apply Change.mem_apply hmem
            simp only [Pc.change]
            split <;> exact fun hd => hd
          · exact .inr (hfail.step h)
      · have hne : ∀ k key id, x ≠ .add k key id := fun k key id hx => hadd ⟨k, key, id, hx⟩
        obtain ⟨hold, hcov⟩ := (mem_standing_of_ne hne).mp hop
        rcases hI.member op hold with hmem | hfail
        -- taken off without being covered: by the guard it is the add whose own bind failed
        · by_cases hdrop : (x.change sh.hub).Drops op.key op.id
          · -- its entry is erased: this is the add that failed, or one that had failed before
            right
            obtain ⟨k, i, a, rfl, hchange⟩ := drops_of_not_covers hdrop hcov
            rcases hguard k op.key i a rfl hchange op hold rfl with rfl | hfail
            · have hend : Pc.added op.k false ∈ next := by
                simp only [Hub.exec] at hexec
                cases hexec
                exact List.mem_singleton_self _
              exact .inr (Multiset.mem_add.mpr (.inl (Effect.mem_made_next hend)))
            · exact hfail.step h
          · exact .inl (Change.mem_apply hmem hdrop)
        · exact .inr (hfail.step h)

/-- An entry point makes at most one add, a new one. -/
theorem hubEnter_inv {sh : HubShared} {ev : HubEntry} {e : Effect HubShared (Pc Nat)}
    {p : Multiset (Pc Nat)} (hI : AddInv sh p) (h : hubEnter sh ev = some e) :
    AddInv e.shared (e.made + p) := by
  have hmember : ∀ op ∈ sh.standing,
      op.id ∈ sh.hub.roster op.key ∨ AddFailed sh (e.made + p) op.k := by
    intro op hop
    refine (hI.member op hop).imp_right fun hfail => ?_
    rcases hfail with hend | hpend
    · exact .inl hend
    · exact .inr (Multiset.mem_add.mpr (.inr hpend))
  cases ev with
  | add key id =>
      cases h
      have hops : (↑[sh.nextOp] + p.filterMap Pc.op? + ↑(sh.ended.map (·.1)) : Multiset Nat) =
          sh.nextOp ::ₘ sh.ops p := by
        rw [add_assoc]
        rfl
      refine ⟨hI.filed, ?_, ?_, hmember⟩
      · simp only [HubShared.ops, Effect.made, List.flatten_nil, List.append_nil,
          Multiset.filterMap_add, Multiset.filterMap_coe]
        show (↑[sh.nextOp] + p.filterMap Pc.op? + ↑(sh.ended.map (·.1)) : Multiset Nat).Nodup
        rw [hops, Multiset.nodup_cons]
        exact ⟨fun hmem => Nat.lt_irrefl _ (hI.fresh _ hmem), hI.nodup⟩
      · simp only [HubShared.ops, Effect.made, List.flatten_nil, List.append_nil,
          Multiset.filterMap_add, Multiset.filterMap_coe]
        intro k hk
        replace hk : k ∈ (↑[sh.nextOp] + p.filterMap Pc.op? + ↑(sh.ended.map (·.1)) :
          Multiset Nat) := hk
        rw [hops] at hk
        rcases Multiset.mem_cons.mp hk with rfl | hk
        · exact Nat.lt_succ_self _
        · exact Nat.lt_succ_of_lt (hI.fresh k hk)
  | _ =>
      have hops : e.shared.ops (e.made + p) = sh.ops p := by
        have hmade : e.made.filterMap Pc.op? = 0 := by cases h; rfl
        rw [HubShared.ops, Multiset.filterMap_add, hmade, zero_add]
        cases h
        rfl
      have hnodup : (e.shared.ops (e.made + p)).Nodup := hops ▸ hI.nodup
      have hfresh : ∀ k ∈ e.shared.ops (e.made + p), k < sh.nextOp := hops ▸ hI.fresh
      cases h
      exact ⟨hI.filed, hnodup, hfresh, hmember⟩

/-! ## Runs

A failed add erases its entry. With another add on the same entry that stands, nothing of it
would be left. -/

/-- **Run.** -/
theorem addInv_of_run {s : State HubShared (Pc Nat)} (h : Run hubProgram erasedAlone hubStart s) :
    AddInv s.shared s.pending := by
  refine Run.invariant (I := AddInv) ?_ ?_ ?_ h
  · refine ⟨?_, ?_, ?_, ?_⟩
    · intro key a hfind
      cases hfind
    · simp [hubStart, HubShared.ops, State.pending]
    · simp [hubStart, HubShared.ops, State.pending]
    · simp [hubStart]
  · exact fun hI hguard hexec => hubExec_inv hI hguard hexec
  · exact fun hI _ henter => hubEnter_inv hI henter

/-- An add does not both fail and return true. -/
theorem AddInv.not_failed {sh : HubShared} {p : Multiset (Pc Nat)} (hI : AddInv sh p) {k : Nat}
    (htrue : (k, true) ∈ sh.ended) : ¬ AddFailed sh p k := by
  obtain ⟨_, hnodup, hdisj⟩ := Multiset.nodup_add.mp hI.nodup
  rintro (hfalse | hpend)
  · have heq := List.inj_on_of_nodup_map (Multiset.coe_nodup.mp hnodup) htrue hfalse rfl
    cases heq
  · have hk : k ∈ p.filterMap Pc.op? := (Multiset.mem_filterMap _ _).mpr ⟨_, hpend, rfl⟩
    have hk' : k ∈ sh.ended.map (·.1) := List.mem_map_of_mem htrue
    exact Multiset.disjoint_left.mp hdisj hk (Multiset.mem_coe.mpr hk')

/-- **A successful add is true, if an erased entry takes nobody else with it.** In every run that
erases an entry only while no other add of its key stands, an add that returned true, and that no
removal or loss has covered since it began, is in the subscriber set of the live entry. -/
theorem add_true {s : State HubShared (Pc Nat)} (h : Run hubProgram erasedAlone hubStart s) :
    ∀ op ∈ s.shared.standing, (op.k, true) ∈ s.shared.ended →
      op.id ∈ s.shared.hub.members op.key := by
  intro op hop hended
  have hI := addInv_of_run h
  rcases hI.member op hop with hmem | hfail
  · exact hmem
  · exact absurd hfail (hI.not_failed hended)

/-- An event of a module. -/
def someEvent : Key := ⟨str "m", str "e"⟩

/-- One add makes the entry, on thread `i`; another joins it and returns while the first is still
binding it. -/
def joinWhileBinding (i : Nat) : List (Move Bool HubEntry) :=
  [.enter (.add someEvent 1), .run i true, .enter (.add someEvent 2), .run (i + 1) true,
   .run (i + 1) true, .run i true, .run i true, .run i true]

/-- An add makes the entry, gets no valid handle, and erases the entry again. -/
def failAlone (i : Nat) : List (Move Bool HubEntry) :=
  .enter (.add someEvent 3) :: List.replicate 4 (.run i true) ++
    .run i false :: List.replicate 3 (.run i true)

/-- Two adds fail one after the other, each alone, before others make the entry and join it. -/
def joinAfterFailures : List (Move Bool HubEntry) :=
  failAlone 0 ++ failAlone 1 ++ joinWhileBinding 2 ++ List.replicate 4 (.run 2 true)

/-- Both adds that returned true are on the roster, and neither of those that failed. -/
theorem add_true_joined :
    ∃ s, Run hubProgram erasedAlone hubStart s ∧
      s.shared.ended = [(0, false), (1, false), (3, true), (2, true)] ∧
      s.shared.hub.members someEvent = [1, 2] ∧ 2 ∈ s.shared.hub.members someEvent := by
  have hmoves : (hubProgram.replayUnder erasedAlone hubStart joinAfterFailures).map (fun s =>
      (s.shared.ended, s.shared.hub.members someEvent,
        decide ((⟨3, someEvent, 2⟩ : AddOp) ∈ s.shared.standing))) =
      some ([(0, false), (1, false), (3, true), (2, true)], [1, 2], true) := by decide +kernel
  obtain ⟨s, hs, hend⟩ := Option.map_eq_some_iff.mp hmoves
  simp only [Prod.mk.injEq] at hend
  obtain ⟨hended, hmembers, hstanding⟩ := hend
  have hrun := Run.start.replayUnder hs
  exact ⟨s, hrun, hended, hmembers, add_true hrun _ (of_decide_eq_true hstanding)
    (hended ▸ List.mem_of_getElem? (i := 2) rfl)⟩

/-- **A subscriber that was told it is registered can be dropped.** The first add's handle turns out
invalid, and its entry is erased with the other one's subscriber. -/
theorem not_add_true :
    ¬ ∀ s, Run hubProgram Guard.any hubStart s →
      ∀ op ∈ s.shared.standing, (op.k, true) ∈ s.shared.ended →
        op.id ∈ s.shared.hub.members op.key := by
  intro htrue
  obtain ⟨s, hs⟩ : ∃ s, hubProgram.replay hubStart
      (joinWhileBinding 0 ++ [.run 0 false, .run 0 true, .run 0 true]) = some s := ⟨_, rfl⟩
  have hended : (1, true) ∈ s.shared.ended := by
    cases hs
    decide
  have hstanding : (⟨1, someEvent, 2⟩ : AddOp) ∈ s.shared.standing := by
    cases hs
    exact List.mem_cons_self
  have hempty : s.shared.hub.members someEvent = [] := by
    cases hs
    rfl
  have hmem := htrue s (Run.replay .start hs) _ hstanding hended
  rw [hempty] at hmem
  cases hmem

end JsonRpcBridge.Upstream
