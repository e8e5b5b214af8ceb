import JsonRpcBridge.Interleaving.Lift
import JsonRpcBridge.Upstream.Clearing
import JsonRpcBridge.Upstream.Losses
import Mathlib.Algebra.BigOperators.Group.Multiset.Basic
import Mathlib.Algebra.GroupWithZero.Nat

/-!
# Events, delivered once

An upstream event invokes the callback of each valid handle that exists for its module and event
when it is emitted, each once. Here emissions are numbered, a callback carries the number of its
emission, and `handed` records the calls of the sink.

`bind` subscribes on the new client before it lets go of the old handle, and two binds of one entry
may both subscribe, so an entry can have several valid handles for a while. Each of them delivers to
the same subscribers.

* `handed_once`: if no event is emitted while a bind of its entry is between its subscribe and the
  end of its round, every event is handed to a subscriber at most once.
* `not_handed_once`: an event emitted while an `add` and a `rebind` have both subscribed on the new
  client is handed over twice.

That the bind is over says only that no section has a handle in hand. What follows from it is that
one handle is left at the most: every handle that exists is in one place (`Held`), and the one that
is in no section is that of its entry; and an entry with a handle is the one in the table
(`Hub.Rooted`), so that a key has no second one.
-/

namespace JsonRpcBridge.Upstream

open Interleaving

/-! ## Emissions

An emission is an entry point. It calls back each valid handle of the event, and the sections
that follow carry its number. -/

/-- The valid handles for a module and event. -/
def Hub.handlesOf (h : Hub) (key : Key) : List (Nat × Nat) :=
  h.handles.filter fun e => (h.heap e.2).key = key

/-- A section of the hub, and the emission whose callback it is part of. -/
structure Tagged where
  event : Option Nat
  pc : Pc Nat

structure EmissionShared where
  hub : HubShared := {}
  /-- The emissions so far. -/
  emitted : Nat := 0
  /-- The calls of the sink, each with its emission and its subscriber. -/
  handed : List (Nat × Nat) := []

/-- The callbacks are invoked by emissions. -/
inductive EmissionEntry where
  | hub (ev : HubEntry)
  | emit (key : Key) (payload : Json)

/-- What a section hands to the sink. -/
def Tagged.hands (x : Tagged) : List (Nat × Nat) :=
  match x.event, x.pc with
  | some n, .sink id _ _ _ => [(n, id)]
  | _, _ => []

def emissionExec (sh : EmissionShared) (x : Tagged) (valid : Bool) :
    Option (Effect EmissionShared Tagged) :=
  (hubExec sh.hub x.pc valid).map
    (Effect.lift (fun hub => { sh with hub, handed := sh.handed ++ x.hands }) (Tagged.mk x.event))

def emissionEnter (sh : EmissionShared) : EmissionEntry → Option (Effect EmissionShared Tagged)
  | .hub (.deliver ..) => none
  | .hub ev => (hubEnter sh.hub ev).map (Effect.lift (fun hub => { sh with hub }) (Tagged.mk none))
  | .emit key payload =>
    some { shared := { sh with emitted := sh.emitted + 1 }
           spawn := (sh.hub.hub.handlesOf key).map fun e =>
             [⟨some sh.emitted, .deliver e.2 payload⟩] }

def emission : Program EmissionShared Tagged Bool EmissionEntry where
  exec := emissionExec
  enter := emissionEnter

def emissionStart : State EmissionShared Tagged where
  shared := {}

/-- The section has a handle for the module and event in hand: the one that `bind` has subscribed
with and not committed yet, or the one it lets go of and has not destroyed yet. -/
def Hub.moving (h : Hub) (key : Key) (x : Pc Nat) : Bool :=
  (h.handlesOf key).any fun e => x.owns == some e.1

/-- No event is emitted while a bind of its entry is between its subscribe and the end of its
round. -/
def unmoving : Guard EmissionShared Tagged Bool EmissionEntry where
  run _ _ _ _ := True
  enter sh p
    | .emit key _ => ∀ x ∈ p, sh.hub.hub.moving key x.pc = false
    | .hub _ => True

instance : unmoving.Decided where
  run _ _ _ _ := isTrue trivial
  enter sh p
    | .emit key _ =>
      inferInstanceAs (Decidable (∀ x ∈ p, sh.hub.hub.moving key x.pc = false))
    | .hub _ => isTrue trivial

/-! ## One handle at a time

While no section has one of the handles of an event in hand, there is one at the most. -/

/-- An entry with a handle is bound, and in the table. -/
def Hub.Rooted (h : Hub) : Prop :=
  ∀ a < h.made, (h.heap a).handle ≠ none →
    0 < (h.heap a).epoch ∧ h.find (h.heap a).key = some a

section

variable {h h' : Hub} {x : Pc Nat} {next : List (Pc Nat)} {p others : Multiset (Pc Nat)}

theorem Hub.Rooted.of_same (hr : h.Rooted) (hs : SameBindings h h') : h'.Rooted := by
  intro a ha hhandle
  rw [hs.handle] at hhandle
  rw [hs.epoch, hs.key, Hub.find, hs.up]
  exact hr a (hs.made ▸ ha) hhandle

/-- The new entry is filed under a key that no entry with a handle has. -/
theorem Hub.Rooted.create {key : Key} {id : Nat} (hr : h.Rooted) (hfind : h.find key = none) :
    Hub.Rooted ((h.emplace key).setUp h.made (Up.addSubscriber { key } id)) := by
  intro a ha hhandle
  show _ ∧ (h.emplace key).find _ = _
  rw [Hub.emplaced_heap] at hhandle ⊢
  split at hhandle
  · exact absurd Up.handle_addSubscriber hhandle
  · rename_i hmade
    have hlt : a < h.made := Nat.lt_of_le_of_ne (Nat.lt_succ_iff.mp ha) hmade
    obtain ⟨hepoch, hlive⟩ := hr a hlt hhandle
    have hne : (h.heap a).key ≠ key := by
      intro hkey
      rw [hkey, hfind] at hlive
      cases hlive
    rw [if_neg hmade, Hub.find_emplace hfind, if_neg hne]
    exact ⟨hepoch, hlive⟩

/-- A handle is committed to an entry of the table, with the epoch of a newer client. -/
theorem Hub.Rooted.bound {a epoch handle : Nat} (hr : h.Rooted) (hlive : h.live a = true)
    (hepoch : (h.heap a).epoch < epoch) : (h.bound a epoch handle).Rooted := by
  intro b hb hhandle
  rw [Hub.bound_key]
  rw [Hub.bound_heap] at hhandle ⊢
  split
  · rename_i hba
    subst hba
    exact ⟨Nat.zero_lt_of_lt hepoch, beq_iff_eq.mp hlive⟩
  · rename_i hba
    rw [if_neg hba] at hhandle
    exact hr b hb hhandle

/-- `add` takes back an entry that was never bound, so none with a handle. -/
theorem Hub.Rooted.erase {key : Key} {a : Nat} (hr : h.Rooted) (hfind : h.find key = some a)
    (hepoch : (h.heap a).epoch = 0) : (h.erase key).Rooted := by
  intro b hb hhandle
  obtain ⟨hpos, hlive⟩ := hr b hb hhandle
  refine ⟨hpos, ?_⟩
  show (h.erase key).find (h.heap b).key = some b
  have hne : (h.heap b).key ≠ key := by
    intro hkey
    rw [hkey, hfind] at hlive
    cases hlive
    exact absurd hepoch (Nat.ne_of_gt hpos)
  rw [Hub.find_erase, if_neg hne]
  exact hlive

/-- **Step.** -/
theorem Hub.Rooted.exec {valid : Bool} (hr : h.Rooted)
    (hexec : h.exec x valid = some (h', next)) : h'.Rooted := by
  cases x with
  | add k key id =>
      simp only [Hub.exec] at hexec
      split at hexec
      · cases hexec
        exact hr
      · split at hexec <;> cases hexec
        · exact hr.of_same (.setUp Up.key_addSubscriber Up.epoch_addSubscriber
            Up.handle_addSubscriber)
        · rename_i hfind
          exact hr.create hfind
  | commit w a round epoch handle =>
      simp only [Hub.exec] at hexec
      split at hexec
      · cases hexec
        exact hr
      · rename_i hdead
        split at hexec <;> cases hexec
        · exact hr
        · rename_i hepoch
          -- a handle goes only into an entry that is in the map, by the check before
          have hlive : h.live a = true := by
            by_contra hnot
            rw [Bool.eq_false_iff.mpr hnot] at hdead
            exact hdead (Bool.or_true _)
          exact hr.bound hlive (Nat.lt_of_not_le hepoch)
  | undo k key id a =>
      cases hexec
      split
      · rename_i hundo
        obtain ⟨hfind, hepoch⟩ := Bool.and_eq_true_iff.mp hundo
        exact hr.erase (beq_iff_eq.mp hfind) (beq_iff_eq.mp hepoch)
      · exact hr
  | remove key id =>
      simp only [Hub.exec] at hexec
      split at hexec <;> cases hexec
      · exact hr
      · exact hr.of_same (.setUp rfl rfl rfl)
  | removeEverywhere id =>
      cases hexec
      exact hr.of_same .removeEverywhere
  | lost key why =>
      simp only [Hub.exec] at hexec
      split at hexec <;> cases hexec
      · exact hr
      · exact hr.of_same (.setUp rfl rfl rfl)
  | lease | subscribe | status =>
      simp only [Hub.exec] at hexec
      split at hexec <;>
      · cases hexec
        exact hr
  | check w a round epoch =>
      simp only [Hub.exec] at hexec
      repeat' split at hexec
      all_goals
        cases hexec
        exact hr
  | watch | invalid | recheck | destroy | retire | rebind | moduleLost | deliver | deliverTo =>
      cases hexec
      exact hr
  | added | onLost | sink => cases hexec

/-- Where the handles are, the addresses in use, and which entries have a handle. -/
structure Stocked (h : Hub) (p : Multiset (Pc Nat)) : Prop where
  held : Held h p
  tabled : Tabled h
  placed : ∀ x ∈ p, ∀ a ∈ x.keeps, a < h.made
  rooted : h.Rooted

/-! ### Step by step -/

/-- **Step**, of a section of the hub. -/
theorem Stocked.exec {valid : Bool} (hs : Stocked h (x ::ₘ others))
    (hexec : h.exec x valid = some (h', next)) : Stocked h' (↑next + others) := by
  have hkeeps := hs.placed x (Multiset.mem_cons_self _ _)
  have hstays := Hub.exec_stays hexec hs.tabled hkeeps
  refine ⟨Hub.exec_held hexec hs.held hkeeps, hstays.tabled, ?_, hs.rooted.exec hexec⟩
  intro y hy a ha
  rcases Multiset.mem_add.mp hy with hy | hy
  · exact hstays.next y (Multiset.mem_coe.mp hy) a ha
  · exact Nat.lt_of_lt_of_le (hs.placed y (Multiset.mem_cons_of_mem hy) a ha) hstays.made

/-- A section that returns to a caller of the hub. -/
theorem Stocked.returned (hs : Stocked h (x ::ₘ others)) (hx : x.owns = none) :
    Stocked h others := by
  have hheld : Held h (↑([] : List (Pc Nat)) + others) :=
    hs.held.idle hx fun y hy => by cases hy
  rw [Multiset.coe_nil, zero_add] at hheld
  exact ⟨hheld, hs.tabled, fun y hy => hs.placed y (Multiset.mem_cons_of_mem hy), hs.rooted⟩

/-- A section is called that has no handle in hand. -/
theorem Stocked.entered (hs : Stocked h p) (hx : x.owns = none)
    (hkeeps : ∀ a ∈ x.keeps, a < h.made) : Stocked h (x ::ₘ p) := by
  refine ⟨hs.held.entered hx, hs.tabled, ?_, hs.rooted⟩
  intro y hy
  rcases Multiset.mem_cons.mp hy with rfl | hy
  · exact hkeeps
  · exact hs.placed y hy

/-- Several are, in threads of their own. -/
theorem Stocked.called {l : List (Pc Nat)} (hs : Stocked h p) (howns : ∀ y ∈ l, y.owns = none)
    (hkeeps : ∀ y ∈ l, ∀ a ∈ y.keeps, a < h.made) : Stocked h (↑l + p) := by
  induction l with
  | nil =>
      rw [Multiset.coe_nil, zero_add]
      exact hs
  | cons y l ih =>
      rw [← Multiset.cons_coe, Multiset.cons_add]
      apply (ih _ _).entered (howns y List.mem_cons_self) (hkeeps y List.mem_cons_self)
      · exact fun z hz => howns z (List.mem_cons_of_mem y hz)
      · exact fun z hz => hkeeps z (List.mem_cons_of_mem y hz)

theorem Stocked.of_clients (hs : Stocked h p) (clients : Clients) :
    Stocked { h with clients } p :=
  ⟨hs.held.of_clients clients, ⟨hs.tabled.table, hs.tabled.closed⟩, hs.placed, hs.rooted⟩

/-- **Step**, of a section of the program. -/
theorem Stocked.hubExec {sh : HubShared} {valid : Bool} {e : Effect HubShared (Pc Nat)}
    (hs : Stocked sh.hub (x ::ₘ others)) (hexec : hubExec sh x valid = some e) :
    Stocked e.shared.hub (e.made + others) := by
  cases hret : x.returns with
  | false =>
      obtain ⟨hub', next, hhub, rfl⟩ := hubExec_of_not_returns hret hexec
      rw [Effect.made, List.flatten_nil, List.append_nil]
      exact hs.exec hhub
  | true =>
      cases x with
      | added | onLost | sink =>
          cases hexec
          rw [Effect.made, List.flatten_nil, List.append_nil, Multiset.coe_nil, zero_add]
          exact hs.returned rfl
      | _ => cases hret

/-- **Step**, of an entry point: it starts with nothing in hand. -/
theorem Stocked.hubEnter {sh : HubShared} {ev : HubEntry} {e : Effect HubShared (Pc Nat)}
    (hs : Stocked sh.hub p) (hev : ∀ a payload, ev ≠ .deliver a payload)
    (henter : hubEnter sh ev = some e) : Stocked e.shared.hub (e.made + p) := by
  have hfresh : ∀ {l : List (Pc Nat)}, (∀ y ∈ l, y.owns = none ∧ y.keeps = []) →
      ∀ {clients : Clients}, Stocked { sh.hub with clients } (↑l + p) := by
    intro l hl clients
    apply (hs.of_clients clients).called fun y hy => (hl y hy).1
    intro y hy a ha
    rw [(hl y hy).2] at ha
    cases ha
  have hone : ∀ {y : Pc Nat}, y.owns = none → y.keeps = [] → ∀ z ∈ [y],
      z.owns = none ∧ z.keeps = [] := by
    intro y howns hkeeps z hz
    rw [List.mem_singleton.mp hz]
    exact ⟨howns, hkeeps⟩
  cases ev with
  | deliver a payload => exact absurd rfl (hev a payload)
  | replace m =>
      cases henter
      apply hfresh
      intro y hy
      rcases List.mem_cons.mp hy with rfl | hy
      · exact ⟨rfl, rfl⟩
      · rw [List.mem_singleton.mp hy]
        exact ⟨rfl, rfl⟩
  | closeClients =>
      cases henter
      exact hfresh (l := []) fun y hy => by cases hy
  | add | remove | removeEverywhere | rebind | status | moduleLost | lost =>
      cases henter
      exact hfresh (hone rfl rfl)

/-- A handle that is in no section's hand is that of the entry in the table. -/
theorem Stocked.entry_of_idle (hs : Stocked h p) {key : Key} {e : Nat × Nat}
    (hstill : ∀ x ∈ p, h.moving key x = false) (he : e ∈ h.handlesOf key) :
    (h.heap e.2).handle = some e.1 ∧ h.find key = some e.2 := by
  obtain ⟨hin, hkey⟩ := List.mem_filter.mp he
  have hidle : carried Pc.owns e.1 p = 0 := by
    apply carried_of_forall
    intro x hx hown
    have hnot := List.any_eq_false.mp (hstill x hx) e he
    exact hnot (beq_iff_eq.mpr hown)
  have honce := hs.held.once e hin
  rw [hidle, Nat.add_zero] at honce
  have hhandle : (h.heap e.2).handle = some e.1 := by
    by_contra hnot
    rw [if_neg hnot] at honce
    cases honce
  have hroot := (hs.rooted e.2 (hs.held.fresh e hin).2 (by rw [hhandle]; exact Option.some_ne_none _)).2
  rw [of_decide_eq_true hkey] at hroot
  exact ⟨hhandle, hroot⟩

/-- **One handle.** While no section has a handle of the event in hand, it has one at the most. -/
theorem Stocked.handlesOf_le_one (hs : Stocked h p) {key : Key}
    (hstill : ∀ x ∈ p, h.moving key x = false) : (h.handlesOf key).length ≤ 1 := by
  have hnodup : (h.handlesOf key).Nodup := (List.Nodup.of_map _ hs.held.nodup).filter _
  have hsame : ∀ e ∈ h.handlesOf key, ∀ e' ∈ h.handlesOf key, e = e' := by
    intro e he e' he'
    obtain ⟨hhandle, hfind⟩ := hs.entry_of_idle hstill he
    obtain ⟨hhandle', hfind'⟩ := hs.entry_of_idle hstill he'
    have haddress : e.2 = e'.2 := Option.some.inj (hfind.symm.trans hfind')
    rw [haddress, hhandle'] at hhandle
    exact Prod.ext (Option.some.inj hhandle).symm haddress
  cases hl : h.handlesOf key with
  | nil => exact Nat.zero_le _
  | cons e rest =>
      cases rest with
      | nil => exact Nat.le_refl _
      | cons e' rest =>
          rw [hl] at hsame hnodup
          have heq := hsame e List.mem_cons_self e' (List.mem_cons_of_mem e List.mem_cons_self)
          subst heq
          exact absurd List.mem_cons_self (List.nodup_cons.mp hnodup).1

end

/-! ## What a callback may still hand over

A section counts for what it and those that come of it may hand to a subscriber. -/

/-- How often a section may still lead to a call of the sink for `id`. -/
def Pc.hands (id : Nat) : Pc Nat → Nat
  | .deliver .. => 1
  | .deliverTo _ _ ids => ids.count id
  | .sink i .. => if i = id then 1 else 0
  | _ => 0

theorem Pc.hands_of_not_callback {x : Pc Nat} {id : Nat} (h : x.callback = false) :
    x.hands id = 0 := by
  cases x with
  | deliver | deliverTo | sink => cases h
  | _ => rfl

theorem sum_hands_sinks (ids : List Nat) (key : Key) (payload : Json) (generation id : Nat) :
    ((ids.map fun i => (Pc.sink i key payload generation : Pc Nat)).map (Pc.hands id)).sum =
      ids.count id := by
  induction ids with
  | nil => rfl
  | cons i ids ih =>
      rw [List.map_cons, List.map_cons, List.sum_cons, ih, List.count_cons, Nat.add_comm]
      congr 1
      show (if i = id then 1 else 0) = _
      simp only [beq_iff_eq]

/-- A section of the hub may lead to no more calls than before: a set of subscribers has none of
them twice. -/
theorem Hub.exec_hands {h h' : Hub} {x : Pc Nat} {valid : Bool} {next : List (Pc Nat)} {id : Nat}
    (hs : h.Sets) (hx : h.exec x valid = some (h', next)) :
    (next.map (Pc.hands id)).sum ≤ x.hands id := by
  cases hcall : x.callback with
  | false =>
      have hnone : ∀ y ∈ next, y.hands id = 0 := fun y hy =>
        Pc.hands_of_not_callback
          (by simpa using List.filter_eq_nil_iff.mp (Hub.exec_callback hx hcall) y hy)
      have hzero : (next.map (Pc.hands id)).sum = 0 := by
        apply List.sum_eq_zero
        intro n hn
        obtain ⟨y, hy, rfl⟩ := List.mem_map.mp hn
        exact hnone y hy
      exact hzero ▸ Nat.zero_le _
  | true =>
      cases x with
      | deliver a payload =>
          cases hx
          split
          · exact Nat.zero_le _
          · show (h.heap a).subscribers.count id ≤ 1
            exact List.nodup_iff_count_le_one.mp (hs a) id
      | deliverTo a payload ids =>
          cases hx
          exact Nat.le_of_eq (sum_hands_sinks ids _ payload _ id)
      | sink => cases hx
      | _ => cases hcall

/-! ## The invariant

Of each emission and each subscriber: what was handed over and what is still due come to one at
most. -/

/-- How often the section may still hand emission `n` to `id`. -/
def Tagged.owes (n id : Nat) (x : Tagged) : Nat := if x.event = some n then x.pc.hands id else 0

/-- The calls of the sink made for an emission and a subscriber, and those that may still come. -/
def EmissionShared.due (sh : EmissionShared) (p : Multiset Tagged) (n id : Nat) : Nat :=
  sh.handed.count (n, id) + (p.map (Tagged.owes n id)).sum

structure EmissionInv (sh : EmissionShared) (p : Multiset Tagged) : Prop where
  stocked : Stocked sh.hub.hub (p.map Tagged.pc)
  sets : sh.hub.hub.Sets
  fresh : ∀ n id, sh.emitted ≤ n → sh.due p n id = 0
  once : ∀ n id, sh.due p n id ≤ 1

theorem owes_mk (event : Option Nat) (l : List (Pc Nat)) (n id : Nat) :
    ((l.map (Tagged.mk event)).map (Tagged.owes n id)).sum =
      if event = some n then (l.map (Pc.hands id)).sum else 0 := by
  rw [List.map_map]
  split_ifs with hevent
  · congr 1
    refine List.map_congr_left fun pc _ => ?_
    exact if_pos hevent
  · apply List.sum_eq_zero
    intro k hk
    obtain ⟨pc, _, rfl⟩ := List.mem_map.mp hk
    exact if_neg hevent

/-- A section of the hub, and the calls it makes. -/
theorem hubExec_hands {sh : HubShared} {x : Tagged} {valid : Bool} {e : Effect HubShared (Pc Nat)}
    (hs : sh.hub.Sets) (hexec : hubExec sh x.pc valid = some e) (n id : Nat) :
    e.shared.hub.Sets ∧ e.spawn = [] ∧
      x.hands.count (n, id) + ((e.next.map (Tagged.mk x.event)).map (Tagged.owes n id)).sum ≤
        x.owes n id := by
  obtain ⟨event, pc⟩ := x
  cases hret : pc.returns with
  | false =>
      obtain ⟨hub', next, hhub, rfl⟩ := hubExec_of_not_returns hret hexec
      refine ⟨hs.exec hhub, rfl, ?_⟩
      have hnone : (Tagged.mk event pc).hands = [] := by
        cases pc with
        | sink => cases hret
        | _ => cases event <;> rfl
      rw [hnone, List.count_nil, Nat.zero_add, owes_mk, Tagged.owes]
      split_ifs
      · exact Hub.exec_hands hs hhub
      · exact Nat.le_refl _
  | true =>
      cases pc with
      | added | onLost =>
          cases hexec
          refine ⟨hs, rfl, ?_⟩
          cases event <;> exact Nat.zero_le _
      | sink i key payload generation =>
          cases hexec
          refine ⟨hs, rfl, ?_⟩
          cases event with
          | none => exact Nat.zero_le _
          | some k =>
              show [(k, i)].count (n, id) + 0 ≤
                if some k = some n then (if i = id then 1 else 0) else 0
              rw [List.count_singleton]
              split_ifs <;> simp_all
      | _ => cases hret

/-- **Step.** A section makes no more calls due. -/
theorem EmissionShared.due_exec {sh : EmissionShared} {x : Tagged} {valid : Bool}
    {e : Effect EmissionShared Tagged} (others : Multiset Tagged) (hs : sh.hub.hub.Sets)
    (hexec : emissionExec sh x valid = some e) (n id : Nat) :
    e.shared.hub.hub.Sets ∧ e.shared.emitted = sh.emitted ∧
      e.shared.due (e.made + others) n id ≤ sh.due (x ::ₘ others) n id := by
  obtain ⟨e, hhub, rfl⟩ := Option.map_eq_some_iff.mp hexec
  obtain ⟨hsets, hspawn, hle⟩ := hubExec_hands hs hhub n id
  refine ⟨hsets, rfl, ?_⟩
  have hmade : (Effect.lift (fun hub => { sh with hub, handed := sh.handed ++ x.hands })
      (Tagged.mk x.event) e).made = ↑(e.next.map (Tagged.mk x.event)) := by
    rw [Effect.made_lift, Effect.made, hspawn]
    simp
  rw [hmade]
  show (sh.handed ++ x.hands).count (n, id) + _ ≤ _
  rw [EmissionShared.due, List.count_append, Multiset.map_add, Multiset.sum_add,
    Multiset.map_cons, Multiset.sum_cons, Multiset.map_coe, Multiset.sum_coe]
  omega

/-- An entry point of the hub makes no call due. -/
theorem due_enter {sh : EmissionShared} {ev : HubEntry} {e : Effect HubShared (Pc Nat)}
    {p : Multiset Tagged} (henter : hubEnter sh.hub ev = some e) (n id : Nat) :
    e.shared.hub.heap = sh.hub.hub.heap ∧
      (e.lift (fun hub => { sh with hub }) (Tagged.mk none)).shared.due
        ((e.lift (fun hub => { sh with hub }) (Tagged.mk none)).made + p) n id =
        sh.due p n id := by
  have hheap : e.shared.hub.heap = sh.hub.hub.heap := by
    cases ev <;> cases henter <;> rfl
  refine ⟨hheap, ?_⟩
  have hnone : ((e.made.map (Tagged.mk none)).map (Tagged.owes n id)).sum = 0 := by
    rw [Multiset.map_map]
    apply Multiset.sum_eq_zero
    intro k hk
    obtain ⟨pc, _, rfl⟩ := Multiset.mem_map.mp hk
    rfl
  show sh.handed.count (n, id) + _ = _
  rw [Effect.made_lift, Multiset.map_add, Multiset.sum_add, hnone, Nat.zero_add]
  rfl

theorem owes_callbacks (handles : List (Nat × Nat)) (payload : Json) (m n id : Nat) :
    ((handles.map fun e => [(⟨some m, .deliver e.2 payload⟩ : Tagged)]).flatten.map
      (Tagged.owes n id)).sum = if m = n then handles.length else 0 := by
  induction handles with
  | nil => split_ifs <;> rfl
  | cons e handles ih =>
      rw [List.map_cons, List.flatten_cons, List.map_append, List.sum_append, ih]
      show (if some m = some n then 1 else 0) + 0 + _ = _
      simp only [Option.some_inj, List.length_cons]
      split_ifs <;> omega

/-- An emission makes one call due for each valid handle. -/
theorem due_emit (sh : EmissionShared) (p : Multiset Tagged) (key : Key) (payload : Json)
    (n id : Nat) :
    EmissionShared.due { sh with emitted := sh.emitted + 1 }
      (Effect.made { shared := { sh with emitted := sh.emitted + 1 }
                     spawn := (sh.hub.hub.handlesOf key).map fun e =>
                       [(⟨some sh.emitted, .deliver e.2 payload⟩ : Tagged)] } + p) n id =
      sh.due p n id + if sh.emitted = n then (sh.hub.hub.handlesOf key).length else 0 := by
  show sh.handed.count (n, id) + _ = _
  rw [Effect.made, List.nil_append, Multiset.map_add, Multiset.sum_add, Multiset.map_coe,
    Multiset.sum_coe, owes_callbacks, EmissionShared.due]
  omega

/-- The sections of a lifted effect are those of the hub's. -/
theorem map_pc_made {put : HubShared → EmissionShared} (event : Option Nat)
    (e : Effect HubShared (Pc Nat)) (p : Multiset Tagged) :
    ((e.lift put (Tagged.mk event)).made + p).map Tagged.pc = e.made + p.map Tagged.pc := by
  rw [Effect.made_lift, Multiset.map_add, Multiset.map_map]
  exact congrArg (· + _) (Multiset.map_id _)

/-- An emission calls back for handles that exist, and those deliver to entries that do. -/
theorem Stocked.emitted {h : Hub} {p : Multiset Tagged} (hs : Stocked h (p.map Tagged.pc))
    {sh : EmissionShared} {key : Key} {payload : Json} :
    Stocked h ((Effect.made { shared := sh
                              spawn := (h.handlesOf key).map fun e =>
                                [(⟨some sh.emitted, .deliver e.2 payload⟩ : Tagged)] } + p).map
      Tagged.pc) := by
  have hpcs : ((h.handlesOf key).map fun e =>
      [(⟨some sh.emitted, .deliver e.2 payload⟩ : Tagged)]).flatten.map Tagged.pc =
        (h.handlesOf key).map fun e => .deliver e.2 payload := by
    rw [← List.flatMap_def, List.map_flatMap]
    exact List.map_eq_flatMap.symm
  rw [Effect.made, List.nil_append, Multiset.map_add, Multiset.map_coe, hpcs]
  apply hs.called
  · intro y hy
    obtain ⟨e, -, rfl⟩ := List.mem_map.mp hy
    rfl
  · intro y hy a ha
    obtain ⟨e, he, rfl⟩ := List.mem_map.mp hy
    rw [List.mem_singleton.mp ha]
    exact (hs.held.fresh e (List.mem_filter.mp he).1).2

/-- **Step**, of an entry point. An emission makes one call due for each handle it finds, and it
finds one at the most. -/
theorem EmissionInv.enter {sh : EmissionShared} {ev : EmissionEntry}
    {e : Effect EmissionShared Tagged} {p : Multiset Tagged} (hI : EmissionInv sh p)
    (hok : unmoving.enter sh p ev) (henter : emissionEnter sh ev = some e) :
    EmissionInv e.shared (e.made + p) := by
  cases ev with
  | hub ev =>
      -- whatever else is called makes nothing due
      have hhub : (∀ a payload, ev ≠ .deliver a payload) ∧ ∃ e', hubEnter sh.hub ev = some e' ∧
          e = e'.lift (fun hub => { sh with hub }) (Tagged.mk none) := by
        cases ev with
        | deliver => cases henter
        | _ =>
            cases henter
            refine ⟨fun a payload heq => ?_, _, rfl, rfl⟩
            cases heq
      obtain ⟨hev, e', he', rfl⟩ := hhub
      refine ⟨?_, ?_, fun n id hn => ?_, fun n id => ?_⟩
      · rw [map_pc_made]
        exact hI.stocked.hubEnter hev he'
      · intro a
        have hheap := (due_enter (p := p) he' 0 0).1
        show (e'.shared.hub.heap a).subscribers.Nodup
        rw [hheap]
        exact hI.sets a
      · rw [(due_enter he' n id).2]
        exact hI.fresh n id hn
      · rw [(due_enter he' n id).2]
        exact hI.once n id
  | emit key payload =>
      cases henter
      have hdue (n id : Nat) := due_emit sh p key payload n id
      refine ⟨hI.stocked.emitted, hI.sets, fun n id hn => ?_, fun n id => ?_⟩
      · have hlater : sh.emitted + 1 ≤ n := hn
        rw [hdue, hI.fresh n id (by omega), if_neg (by omega)]
      · rw [hdue]
        split_ifs with hthis
        · -- nothing was due for an emission that had not happened
          have hfew : (sh.hub.hub.handlesOf key).length ≤ 1 := by
            apply hI.stocked.handlesOf_le_one
            intro pc hpc
            obtain ⟨x, hx, rfl⟩ := Multiset.mem_map.mp hpc
            exact hok x hx
          rw [hI.fresh n id (Nat.le_of_eq hthis), Nat.zero_add]
          exact hfew
        · exact hI.once n id

/-- **Step**, of a section. -/
theorem EmissionInv.exec {sh : EmissionShared} {x : Tagged} {valid : Bool}
    {e : Effect EmissionShared Tagged} {others : Multiset Tagged}
    (hI : EmissionInv sh (x ::ₘ others)) (hexec : emissionExec sh x valid = some e) :
    EmissionInv e.shared (e.made + others) := by
  obtain ⟨hsets, hemitted, -⟩ := EmissionShared.due_exec others hI.sets hexec 0 0
  have hle (n id : Nat) := (EmissionShared.due_exec others hI.sets hexec n id).2.2
  refine ⟨?_, hsets, fun n id hn => ?_, fun n id => ?_⟩
  · obtain ⟨e', hhub, rfl⟩ := Option.map_eq_some_iff.mp hexec
    have hstocked := hI.stocked
    rw [Multiset.map_cons] at hstocked
    rw [map_pc_made]
    exact hstocked.hubExec hhub
  · rw [hemitted] at hn
    exact Nat.le_zero.mp ((hle n id).trans_eq (hI.fresh n id hn))
  · exact (hle n id).trans (hI.once n id)

/-! ## Runs -/

theorem stocked_start : Stocked {} 0 where
  held := by
    refine ⟨?_, ?_, List.nodup_nil, ?_, ?_, ?_⟩
    · exact fun e he => by cases he
    · exact fun y hy => absurd hy (Multiset.notMem_zero y)
    · exact fun e he => by cases he
    · exact fun a ha => absurd ha (Nat.not_lt_zero a)
    · exact fun w a round epoch handle hmem => absurd hmem (Multiset.notMem_zero _)
  tabled := by
    constructor
    · exact fun e he => by cases he
    · exact fun hclosed => by cases hclosed
  placed x hx := absurd hx (Multiset.notMem_zero x)
  rooted a ha := absurd ha (Nat.not_lt_zero a)

theorem emissionInv_of_run {s : State EmissionShared Tagged}
    (h : Run emission unmoving emissionStart s) : EmissionInv s.shared s.pending := by
  refine Run.invariant (I := EmissionInv) ?_ ?_ ?_ h
  · exact ⟨stocked_start, fun _ => List.nodup_nil, fun _ _ _ => rfl, fun _ _ => Nat.zero_le _⟩
  · exact fun hI _ hexec => hI.exec hexec
  · exact fun hI hok henter => hI.enter hok henter

/-- **No event is handed over twice, unless its entry is being moved.** In every run in which no
event is emitted while a bind of its entry is between its subscribe and the end of its round, every
event is handed to each subscriber at most once. -/
theorem handed_once {s : State EmissionShared Tagged} (h : Run emission unmoving emissionStart s)
    (n id : Nat) : s.shared.handed.count (n, id) ≤ 1 := by
  have hdue : s.shared.due s.pending n id ≤ 1 := (emissionInv_of_run h).once n id
  exact (Nat.le_add_right _ _).trans hdue

/-- The client is replaced while an `add` is still in its `bind`, and both the `rebind` that follows
and the `add` subscribe on the new client; then both rounds end. The event is emitted before the
replacement and after the rounds, when another subscriber has joined. -/
def movedTwice : List (Move Bool EmissionEntry) :=
  .enter (.hub (.add someEvent 7)) :: List.replicate 6 (.run 0 true) ++
    -- the first handle is committed, and there was none to let go of
    .enter (.emit someEvent .null) :: .enter (.hub (.replace someEvent.module)) ::
    List.replicate 6 (.run 3 true) ++ List.replicate 5 (.run 0 true) ++
    -- three valid handles exist here
    List.replicate 3 (.run 3 true) ++ List.replicate 4 (.run 0 true) ++
    [.enter (.hub (.add someEvent 8)), .run 4 true, .run 4 true, .enter (.emit someEvent .null)] ++
    List.replicate 4 (.run 2 true) ++ List.replicate 4 (.run 6 true)

theorem handed_once_moved :
    ∃ s, Run emission unmoving emissionStart s ∧
      s.shared.handed = [(0, 7), (0, 8), (1, 7), (1, 8)] ∧
      ∀ n id, s.shared.handed.count (n, id) ≤ 1 := by
  have hreplay : (emission.replayUnder unmoving emissionStart movedTwice).map
      (fun s => s.shared.handed) = some [(0, 7), (0, 8), (1, 7), (1, 8)] := by decide +kernel
  obtain ⟨s, hs, hhanded⟩ := Option.map_eq_some_iff.mp hreplay
  have hrun := Run.start.replayUnder hs
  exact ⟨s, hrun, hhanded, fun n id => handed_once hrun n id⟩

/-- **An event can be handed over twice.** The client is replaced while an `add` is still in its
`bind`. The `add` goes round again and the `rebind` follows the replacement, and both subscribe on
the new client before either commits. -/
theorem not_handed_once :
    ¬ ∀ s, Run emission Guard.any emissionStart s →
      ∀ n id, s.shared.handed.count (n, id) ≤ 1 := by
  intro honce
  obtain ⟨s, hs⟩ : ∃ s, emission.replay emissionStart
      (.enter (.hub (.add someEvent 7)) :: List.replicate 6 (.run 0 true) ++
        .enter (.hub (.replace someEvent.module)) :: List.replicate 6 (.run 1 true) ++
        List.replicate 5 (.run 0 true) ++ [.enter (.emit someEvent .null)] ++
        -- thread 3 is the callback on the old client
        List.replicate 3 (.run 4 true) ++ List.replicate 3 (.run 5 true)) = some s := ⟨_, rfl⟩
  have hhanded : s.shared.handed = [(0, 7), (0, 7)] := by
    cases hs
    rfl
  have htwice := honce s (Run.replay .start hs) 0 7
  rw [hhanded] at htwice
  exact absurd htwice (by decide)

end JsonRpcBridge.Upstream
