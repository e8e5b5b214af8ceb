import JsonRpcBridge.Interleaving.Tokens
import JsonRpcBridge.Upstream.Binding

/-!
# Rebinding converges

The program of `Adds`, with the epoch each handle was obtained at written down beside it. `bind`
gives up after `kBindRounds` rounds, so a bind may leave an entry on a client that has been replaced
since. It is the hook of that replacement that owes the entry its new binding: `Pc.owes` says which
pending sections do, and every entry that is behind is owed by one.

* `rebinding_converges`: once no add, bind or hook is under way, every entry is on its module's
  current client with one handle, obtained from that client, and only that client's reports count.
  The subscribers stay throughout.
-/

namespace JsonRpcBridge.Upstream

open Interleaving

/-! ## The program

A handle does not say which client it came from, so the program notes it when the handle is
issued. -/

/-- The hub, with the epoch of the client that each handle came from. -/
structure Bound where
  base : HubShared := {}
  origin : Nat → Nat := fun _ => 0

abbrev Bound.hub (sh : Bound) : Hub := sh.base.hub

/-- A `subscribe` on the client of `epoch` issues the next handle. -/
def Pc.stamp (x : Pc Nat) (issued : Nat) (origin : Nat → Nat) : Nat → Nat :=
  match x with
  | .subscribe _ _ _ epoch => Function.update origin issued epoch
  | _ => origin

def Bound.after (sh : Bound) (x : Pc Nat) (e : Effect HubShared (Pc Nat)) :
    Effect Bound (Pc Nat) :=
  { shared := ⟨e.shared, x.stamp sh.hub.issued sh.origin⟩, next := e.next, spawn := e.spawn }

def rebinding : Program Bound (Pc Nat) Bool HubEntry where
  exec sh x valid := (hubExec sh.base x valid).map (sh.after x)
  enter sh ev := (hubEnter sh.base ev).map fun e =>
    { shared := ⟨e.shared, sh.origin⟩, next := e.next, spawn := e.spawn }

def rebindingStart : State Bound (Pc Nat) where
  shared := {}

/-- Every handle is valid, and the registry stays open. -/
def steady : Guard Bound (Pc Nat) Bool HubEntry where
  run _ _ _ valid := valid = true
  enter _ _ ev := ev ≠ .closeClients

instance : steady.Decided where
  run _ _ _ valid := (inferInstance : Decidable (valid = true))
  enter _ _ ev := by
    induction ev using HubEntry.casesOn with
    | closeClients => exact isFalse fun h => h rfl
    | _ => exact isTrue (by rintro ⟨⟩)

/-- A steady run in which no removal of `id` from `key`, and no loss of `key`, takes place. -/
def sparing (key : Key) (id : Nat) : Guard Bound (Pc Nat) Bool HubEntry where
  run _ _ x valid := valid = true ∧ x.covers key id = false
  enter _ _ ev := ev ≠ .closeClients

/-! ## What each section owes, and what it has in hand

A section that is about to bind an entry owes it the binding. One between `subscribe` and its end
has a handle in hand. -/

/-- The entry is among those a `rebind` has still to go to. -/
def Binder.waits (a : Nat) : Binder Nat → Prop
  | .rebinding rest => a ∈ rest
  | .adding .. => False

/-- The section, or one its own thread comes to, will bind the entry at `a` to the current
client. -/
def Pc.owes (h : Hub) (a : Nat) : Pc Nat → Prop
  | .rebind m => h.moduleOf a = m
  | .lease w b _ => b = a ∨ w.waits a
  | .check w b _ epoch | .watch w b _ epoch | .subscribe w b _ epoch | .commit w b _ epoch _ =>
    (b = a ∧ epoch = h.current (h.moduleOf a)) ∨ w.waits a
  | .recheck w _ _ _ _ => w.waits a
  | _ => False

/-- The handle a section has in hand. -/
def Pc.owns : Pc Nat → Option Nat
  | .commit _ _ _ _ handle | .destroy handle => some handle
  | .recheck _ _ _ _ old => old
  | _ => none

/-- What is true of the epoch and the handle a section goes by. -/
def Pc.sound (h : Hub) (origin : Nat → Nat) : Pc Nat → Prop
  | .check _ a _ epoch | .watch _ a _ epoch =>
    1 ≤ epoch ∧ epoch ≤ h.clients.epoch (h.moduleOf a)
  | .subscribe _ a _ epoch =>
    1 ≤ epoch ∧ epoch ≤ h.clients.epoch (h.moduleOf a) ∧ h.Installed (h.moduleOf a) epoch
  | .commit _ a _ epoch handle =>
    1 ≤ epoch ∧ epoch ≤ h.clients.epoch (h.moduleOf a) ∧ h.Installed (h.moduleOf a) epoch ∧
      handle < h.issued ∧ origin handle = epoch
  | .retire m epoch => epoch ≤ h.clients.epoch m
  | _ => True

/-! ## The invariant

Three things hold between any two sections. An entry's handle came from the client whose epoch
the entry records (`Sound`); every handle that exists is in exactly one place, its entry or the
hands of a section that will commit or destroy it (`Held`); and an entry that is behind its
module's client is owed a binding by somebody (`Owed`). Convergence reads these off once nobody
is left. -/

/-- The handle of an entry came from the client of the entry's epoch, whose watcher is installed. -/
structure Sound (h : Hub) (origin : Nat → Nat) (a : Nat) : Prop where
  epoch : (h.heap a).epoch ≤ h.clients.epoch (h.moduleOf a)
  bound : 0 < (h.heap a).epoch → h.Installed (h.moduleOf a) (h.heap a).epoch ∧
    ∃ handle, (h.heap a).handle = some handle ∧ origin handle = (h.heap a).epoch
  issued : ∀ handle, (h.heap a).handle = some handle → handle < h.issued

/-- Each handle that exists is in one place: its entry, or a section that will commit or destroy
it. -/
structure Held (h : Hub) (p : Multiset (Pc Nat)) : Prop where
  fresh : ∀ e ∈ h.handles, e.1 < h.issued ∧ e.2 < h.made
  unissued : ∀ x ∈ p, ∀ handle, x.owns = some handle → handle < h.issued
  nodup : (h.handles.map (·.1)).Nodup
  once : ∀ e ∈ h.handles,
    (if (h.heap e.2).handle = some e.1 then 1 else 0) + carried Pc.owns e.1 p = 1
  entry : ∀ a < h.made, ∀ handle, (h.heap a).handle = some handle → (handle, a) ∈ h.handles
  commit : ∀ w a round epoch handle, .commit w a round epoch handle ∈ p → (handle, a) ∈ h.handles

/-- No watcher counts that is older than the one installed or newer than the client. -/
def Watched (h : Hub) : Prop :=
  ∀ m w, h.watch m = some w → w.installed ≤ w.accept ∧ w.accept ≤ h.clients.epoch m

/-- Every entry that is behind its module's client is owed a binding by a pending section. -/
def Owed (h : Hub) (p : Multiset (Pc Nat)) : Prop :=
  ∀ a < h.made, (h.heap a).epoch < h.current (h.moduleOf a) → ∃ x ∈ p, x.owes h a

/-- What holds between any two sections of a steady run. -/
structure Bindings (h : Hub) (origin : Nat → Nat) (p : Multiset (Pc Nat)) : Prop where
  steady : Steady h
  placed : ∀ x ∈ p, x.placed h
  sections : ∀ x ∈ p, x.sound h origin
  entries : ∀ a < h.made, Sound h origin a
  watched : Watched h
  owed : Owed h p
  held : Held h p

variable {h h' : Hub} {origin : Nat → Nat} {x y : Pc Nat} {next : List (Pc Nat)}
  {p others : Multiset (Pc Nat)}

/-! ## Placement and soundness last

What a section in hand says of its epoch and handle cannot be undone by the others: epochs and
issued handles only grow, and an installed watcher is never taken away. So a step has to
establish it for the sections that follow it and for no others. -/

theorem Hub.Grows.moduleOf (hg : h.Grows h') {a : Nat} (ha : a < h.made) :
    h'.moduleOf a = h.moduleOf a := by
  rw [Hub.moduleOf, hg.key a ha, Hub.moduleOf]

theorem Pc.placed.grows (hp : y.placed h) (hg : h.Grows h') : y.placed h' := by
  cases y with
  | lease w | check w | watch w | subscribe w | commit w | recheck w =>
      refine ⟨Nat.lt_of_lt_of_le hp.1 hg.made, ?_⟩
      cases w with
      | adding => exact trivial
      | rebinding rest => exact fun b hb => Nat.lt_of_lt_of_le (hp.2 b hb) hg.made
  | invalid | undo => exact hp.elim
  | _ => exact trivial

theorem Pc.sound.grows (hy : y.sound h origin) (hp : y.placed h) (hg : h.Grows h')
    {origin' : Nat → Nat} (ho : ∀ i < h.issued, origin' i = origin i) : y.sound h' origin' := by
  cases y with
  | check w a round epoch =>
      refine ⟨hy.1, Nat.le_trans hy.2 ?_⟩
      rw [hg.moduleOf hp.1]
      exact hg.epoch _
  | watch w a round epoch =>
      refine ⟨hy.1, Nat.le_trans hy.2 ?_⟩
      rw [hg.moduleOf hp.1]
      exact hg.epoch _
  | subscribe w a round epoch =>
      obtain ⟨hpos, hle, hwatch⟩ := hy
      show _ ∧ epoch ≤ h'.clients.epoch (h'.moduleOf a) ∧ h'.Installed (h'.moduleOf a) epoch
      rw [hg.moduleOf hp.1]
      exact ⟨hpos, Nat.le_trans hle (hg.epoch _), hg.installed _ _ hwatch⟩
  | commit w a round epoch handle =>
      obtain ⟨hpos, hle, hwatch, hlt, horigin⟩ := hy
      show _ ∧ epoch ≤ h'.clients.epoch (h'.moduleOf a) ∧ h'.Installed (h'.moduleOf a) epoch ∧ _
      rw [hg.moduleOf hp.1, ho handle hlt]
      exact ⟨hpos, Nat.le_trans hle (hg.epoch _), hg.installed _ _ hwatch,
        Nat.lt_of_lt_of_le hlt hg.issued, horigin⟩
  | retire m epoch => exact Nat.le_trans hy (hg.epoch m)
  | _ => exact trivial

/-- The origin of a handle that exists is never written again. -/
theorem stamp_of_lt {i : Nat} (hi : i < h.issued) : x.stamp h.issued origin i = origin i := by
  cases x with
  | subscribe => exact Function.update_of_ne (Nat.ne_of_lt hi) ..
  | _ => rfl

/-- The sections that the next entry of a `rebind` starts with. -/
theorem placed_rebindNext {rest : List Nat} (h' : ∀ b ∈ rest, b < h.made) :
    ∀ y ∈ (rebindNext rest : List (Pc Nat)), y.placed h ∧ y.sound h origin := by
  cases rest with
  | nil => exact fun y hy => nomatch hy
  | cons a rest =>
      intro y hy
      rw [List.mem_singleton.mp hy]
      exact ⟨⟨h' a List.mem_cons_self, fun b hb => h' b (List.mem_cons_of_mem a hb)⟩, trivial⟩

theorem placed_done {w : Binder Nat} {a : Nat} (hw : w.placed h) :
    ∀ y ∈ w.done a true, y.placed h ∧ y.sound h origin := by
  cases w with
  | adding k key id =>
      intro y hy
      rw [List.mem_singleton.mp hy]
      exact ⟨trivial, trivial⟩
  | rebinding rest => exact placed_rebindNext hw

theorem placed_of_not_settling (hy : y.settling = false) : y.placed h ∧ y.sound h origin := by
  cases y with
  | add | lease | check | watch | subscribe | invalid | commit | recheck | destroy | undo | retire
  | rebind => cases hy
  | _ => exact ⟨trivial, trivial⟩

theorem Hub.mem_ofModule {m : Bytes} {a : Nat} :
    a ∈ h.ofModule m ↔ ∃ key, (key, a) ∈ h.up ∧ h.moduleOf a = m := by
  simp only [Hub.ofModule, List.mem_map, List.mem_filter, beq_iff_eq]
  constructor
  · rintro ⟨⟨key, b⟩, ⟨hmem, hm⟩, rfl⟩
    exact ⟨key, hmem, hm⟩
  · rintro ⟨key, hmem, hm⟩
    exact ⟨(key, a), ⟨hmem, hm⟩, rfl⟩

/-- **Step.** What follows a section goes by the right epoch and handle. -/
theorem Hub.Does.sound_next (hd : h.Does x h' next) (hs : Steady h) (hp : x.placed h)
    (hx : x.sound h origin) :
    ∀ y ∈ next, y.placed h' ∧ y.sound h' (x.stamp h.issued origin) := by
  cases hd with
  | idle _ _ hnext => exact fun y hy => placed_of_not_settling (hnext y hy)
  | create _ =>
      intro y hy
      rw [List.mem_singleton.mp hy]
      exact ⟨⟨Nat.lt_succ_self _, trivial⟩, trivial⟩
  | @lease w a round =>
      intro y hy
      rw [List.mem_singleton.mp hy]
      refine ⟨hp, Nat.le_max_right _ _, ?_⟩
      show _ ≤ (h.leased (h.moduleOf a)).clients.epoch (h.moduleOf a)
      rw [Hub.leased_epoch, if_pos rfl]
  | fresh _ => exact placed_done hp.2
  | stale _ =>
      intro y hy
      rw [List.mem_singleton.mp hy]
      exact ⟨hp, hx⟩
  -- the watcher of this epoch is installed before the handle is asked for
  | @watch w a round epoch =>
      intro y hy
      rw [List.mem_singleton.mp hy]
      refine ⟨hp, hx.1, hx.2, ?_⟩
      exact ⟨_, Function.update_self .., Hub.le_installed_watchedBy.2⟩
  | @subscribe w a round epoch =>
      intro y hy
      rw [List.mem_singleton.mp hy]
      obtain ⟨hpos, hle, hwatch⟩ := hx
      exact ⟨hp, hpos, hle, hwatch, Nat.lt_succ_self _, Function.update_self ..⟩
  | late _ =>
      intro y hy
      rw [List.mem_singleton.mp hy]
      exact ⟨hp, trivial⟩
  | commit _ =>
      intro y hy
      rw [List.mem_singleton.mp hy]
      exact ⟨hp, trivial⟩
  -- the round is over: the old handle goes, and the next entry of the hook comes
  | settled =>
      intro y hy
      rcases List.mem_append.mp hy with hy | hy
      · obtain ⟨handle, _, rfl⟩ := List.mem_map.mp hy
        exact ⟨trivial, trivial⟩
      · exact placed_done hp.2 y hy
  | again =>
      intro y hy
      rcases List.mem_append.mp hy with hy | hy
      · obtain ⟨handle, _, rfl⟩ := List.mem_map.mp hy
        exact ⟨trivial, trivial⟩
      · rw [List.mem_singleton.mp hy]
        exact ⟨hp, trivial⟩
  | destroy | retire => exact fun y hy => nomatch hy
  -- a hook goes by the table, and an address in the table has been made
  | rebind =>
      apply placed_rebindNext
      intro b hb
      obtain ⟨key, hmem, _⟩ := Hub.mem_ofModule.mp hb
      exact hs.table _ hmem

/-! ## The entries

Only a `commit` writes an entry's epoch and handle, and it writes the two that its `subscribe`
obtained together. -/

theorem Sound.grows {a : Nat} {origin' : Nat → Nat} (hs : Sound h origin a) (ha : a < h.made)
    (hg : h.Grows h') (hepoch : (h'.heap a).epoch = (h.heap a).epoch)
    (hhandle : (h'.heap a).handle = (h.heap a).handle)
    (ho : ∀ i < h.issued, origin' i = origin i) : Sound h' origin' a := by
  refine ⟨?_, ?_, ?_⟩
  · rw [hepoch, hg.moduleOf ha]
    exact Nat.le_trans hs.epoch (hg.epoch _)
  · rw [hepoch, hhandle, hg.moduleOf ha]
    intro hpos
    obtain ⟨hwatch, handle, hheld, horigin⟩ := hs.bound hpos
    refine ⟨hg.installed _ _ hwatch, handle, hheld, ?_⟩
    rw [ho handle (hs.issued handle hheld), horigin]
  · rw [hhandle]
    exact fun handle hheld => Nat.lt_of_lt_of_le (hs.issued handle hheld) hg.issued

/-- A section other than a `commit` or an `add` that makes the entry leaves its binding alone. -/
theorem Hub.Does.same_binding (hd : h.Does x h' next) {a : Nat} (ha : a < h.made)
    (hx : ∀ w round epoch handle, x ≠ .commit w a round epoch handle) :
    (h'.heap a).epoch = (h.heap a).epoch ∧ (h'.heap a).handle = (h.heap a).handle := by
  cases hd with
  | idle _ hsame _ => exact ⟨hsame.epoch a, hsame.handle a⟩
  | create _ =>
      rw [Hub.emplaced_heap, if_neg (Nat.ne_of_lt ha)]
      exact ⟨rfl, rfl⟩
  | @commit w b round epoch handle _ =>
      have hne : a ≠ b := by
        rintro rfl
        exact hx w round epoch handle rfl
      rw [Hub.bound_heap, if_neg hne]
      exact ⟨rfl, rfl⟩
  | _ => exact ⟨rfl, rfl⟩

/-- **Step.** -/
theorem Hub.Does.entries (hd : h.Does x h' next) (hp : x.placed h) (hx : x.sound h origin)
    (hs : ∀ a < h.made, Sound h origin a) :
    ∀ a < h'.made, Sound h' (x.stamp h.issued origin) a := by
  have hg := hd.grows
  intro a ha
  -- the section that writes the entry at `a` is its `commit`, or the `add` that makes it
  by_cases hlt : a < h.made
  · by_cases hcommit : ∃ w round epoch handle, x = .commit w a round epoch handle
    · obtain ⟨w, round, epoch, handle, rfl⟩ := hcommit
      obtain ⟨hpos, hle, hwatch, hissued, horigin⟩ := hx
      cases hd with
      | idle hinert _ _ => cases hinert
      | late _ => exact hs a hlt
      | commit _ =>
          have hheap : (h.bound a epoch handle).heap a =
              { h.heap a with handle := some handle, epoch } := by
            rw [Hub.bound_heap, if_pos rfl]
          have hmodule : (h.bound a epoch handle).moduleOf a = h.moduleOf a := hg.moduleOf hlt
          refine ⟨?_, ?_, ?_⟩
          · rw [hmodule, hheap]
            exact hle
          · rw [hmodule, hheap]
            exact fun _ => ⟨hwatch, handle, rfl, horigin⟩
          · rw [hheap]
            intro handle' hheld
            cases hheld
            exact hissued
    · obtain ⟨hepoch, hhandle⟩ := hd.same_binding hlt
        fun w round epoch handle hx => hcommit ⟨w, round, epoch, handle, hx⟩
      exact (hs a hlt).grows hlt hg hepoch hhandle fun i hi => stamp_of_lt hi
  · -- the entry that an `add` makes here is not bound yet
    cases hd with
    | @create k key id hfind =>
        obtain rfl : a = h.made := Nat.le_antisymm (Nat.lt_succ_iff.mp ha) (Nat.le_of_not_lt hlt)
        have hheap : ((h.emplace key).setUp h.made (Up.addSubscriber { key } id)).heap h.made =
            Up.addSubscriber { key } id := by
          rw [Hub.emplaced_heap, if_pos rfl]
        refine ⟨?_, ?_, ?_⟩
        · rw [hheap, Up.epoch_addSubscriber]
          exact Nat.zero_le _
        · rw [hheap, Up.epoch_addSubscriber]
          exact fun hpos => absurd hpos (Nat.lt_irrefl 0)
        · rw [hheap, Up.handle_addSubscriber]
          exact fun handle hheld => nomatch hheld
    | idle _ hsame _ => exact absurd (hsame.made ▸ ha) hlt
    | _ => exact absurd ha hlt

/-! ## The watches

`installWatch` and `retireWatch` raise their numbers with `max`, so the two may run in either
order. -/

theorem Watched.getD (hw : Watched h) (m : Bytes) :
    ((h.watch m).getD {}).installed ≤ ((h.watch m).getD {}).accept ∧
      ((h.watch m).getD {}).accept ≤ h.clients.epoch m := by
  cases hm : h.watch m with
  | none => exact ⟨Nat.le_refl _, Nat.zero_le _⟩
  | some w => exact hw m w hm

theorem Watched.setWatch {m : Bytes} {w : Watch} (hw : Watched h)
    (hle : w.installed ≤ w.accept ∧ w.accept ≤ h.clients.epoch m) : Watched (h.setWatch m w) := by
  intro m' w' hm'
  by_cases hm : m' = m
  · subst hm
    simp only [Hub.setWatch, Function.update_self] at hm'
    cases hm'
    exact hle
  · simp only [Hub.setWatch, Function.update_of_ne hm] at hm'
    exact hw m' w' hm'

/-- **Step.** -/
theorem Hub.Does.watched (hd : h.Does x h' next) (hx : x.sound h origin) (hw : Watched h) :
    Watched h' := by
  have hg := hd.grows
  cases hd with
  | idle _ hsame _ =>
      unfold Watched
      rw [hsame.watch, hsame.clients]
      exact hw
  | @watch w a round epoch =>
      apply hw.setWatch
      obtain ⟨hinstalled, haccept⟩ := hw.getD (h.moduleOf a)
      have hle : epoch ≤ h.clients.epoch (h.moduleOf a) := hx.2
      simp only [Hub.watchedBy]
      split
      · exact ⟨hinstalled, haccept⟩
      · exact ⟨Nat.le_max_right _ _, Nat.max_le.mpr ⟨haccept, hle⟩⟩
  | @retire m epoch =>
      apply hw.setWatch
      obtain ⟨hinstalled, haccept⟩ := hw.getD m
      exact ⟨Nat.le_trans hinstalled (Nat.le_max_left _ _), Nat.max_le.mpr ⟨haccept, hx⟩⟩
  -- a lease may create the client, and a higher epoch bounds all that the lower one did
  | lease =>
      intro m w hm
      obtain ⟨hinstalled, haccept⟩ := hw m w hm
      exact ⟨hinstalled, Nat.le_trans haccept (hg.epoch m)⟩
  | _ => exact hw

/-! ## Who owes a binding

The debt of an entry moves from section to section: the hook owes every entry of its module, the
`bind` it starts owes the entry it works on and those still to come, and a step that drops the
debt has brought the entry to the current client. -/

theorem owes_rebindNext {rest : List Nat} {a : Nat} (ha : a ∈ rest) :
    ∃ y ∈ (rebindNext rest : List (Pc Nat)), y.owes h a := by
  cases rest with
  | nil => cases ha
  | cons b rest => exact ⟨_, List.mem_singleton_self _, (List.mem_cons.mp ha).imp_left Eq.symm⟩

theorem owes_done {w : Binder Nat} {a b : Nat} (hw : w.waits a) :
    ∃ y ∈ w.done b true, y.owes h a := by
  cases w with
  | adding => exact hw.elim
  | rebinding rest => exact owes_rebindNext hw

/-- What is owed stays owed while the client is the same. -/
theorem Pc.owes.same {a : Nat} (hy : y.owes h a) (hmodule : h'.moduleOf a = h.moduleOf a)
    (hcurrent : h'.current (h.moduleOf a) = h.current (h.moduleOf a)) : y.owes h' a := by
  cases y with
  | rebind m => exact hmodule.trans hy
  | lease => exact hy
  | recheck => exact hy
  | check | watch | subscribe | commit =>
      refine hy.imp_left ?_
      rintro ⟨rfl, hepoch⟩
      refine ⟨rfl, ?_⟩
      rw [hmodule, hcurrent]
      exact hepoch
  | _ => exact hy.elim

theorem Pc.not_owes_of_inert {a : Nat} (hx : x.inert = true) : ¬ x.owes h a := by
  cases x with
  | lease | check | watch | subscribe | invalid | commit | recheck | destroy | undo | retire
  | rebind => cases hx
  | _ => exact fun ho => ho

/-- A section that owes a binding makes it, or hands on what it owes. -/
theorem Hub.Does.handsOn (hd : h.Does x h' next) (hs : Steady h) {a : Nat} (ha : a < h.made)
    (hx : x.owes h a) (hstale : (h'.heap a).epoch < h'.current (h'.moduleOf a)) :
    ∃ y ∈ next, y.owes h' a := by
  have hmodule := hd.grows.moduleOf ha
  have hcurrent := hd.current
  rw [hmodule, hcurrent] at hstale
  cases hd with
  | idle hinert _ _ => exact absurd hx (Pc.not_owes_of_inert hinert)
  | create _ => exact hx.elim
  | lease =>
      refine ⟨_, List.mem_singleton_self _, ?_⟩
      rcases hx with rfl | hwaits
      · exact .inl ⟨rfl, (hcurrent _).symm⟩
      · exact .inr hwaits
  -- the bind gives up its entry because it is on this epoch or a later one
  | fresh hepoch =>
      rcases hx with ⟨rfl, rfl⟩ | hwaits
      · exact absurd hstale (Nat.not_lt.mpr hepoch)
      · exact owes_done hwaits
  | stale _ => exact ⟨_, List.mem_singleton_self _, hx⟩
  | watch => exact ⟨_, List.mem_singleton_self _, hx⟩
  | subscribe => exact ⟨_, List.mem_singleton_self _, hx⟩
  | late hepoch =>
      rcases hx with ⟨rfl, rfl⟩ | hwaits
      · exact absurd hstale (Nat.not_lt.mpr hepoch)
      · exact ⟨_, List.mem_singleton_self _, hwaits⟩
  -- the commit pays the debt of its own entry
  | commit _ =>
      rcases hx with ⟨rfl, rfl⟩ | hwaits
      · rw [Hub.bound_heap, if_pos rfl] at hstale
        exact absurd hstale (Nat.lt_irrefl _)
      · exact ⟨_, List.mem_singleton_self _, hwaits⟩
  | settled =>
      obtain ⟨y, hy, hyo⟩ := owes_done hx
      exact ⟨y, List.mem_append_right _ hy, hyo⟩
  | again =>
      exact ⟨_, List.mem_append_right _ (List.mem_singleton_self _), .inr hx⟩
  | destroy | retire => exact hx.elim
  -- the hook goes to all entries of its module, and this one is live
  | @rebind m =>
      apply owes_rebindNext
      exact Hub.mem_ofModule.mpr ⟨_, List.mem_of_lookup (hs.live a ha), hx⟩

/-- **Step.** -/
theorem Hub.Does.owed (hd : h.Does x h' next) (hs : Steady h) (ho : Owed h (x ::ₘ others)) :
    Owed h' (↑next + others) := by
  have hnext : ∀ a, (∃ y ∈ next, y.owes h' a) → ∃ y ∈ (↑next + others : Multiset (Pc Nat)),
      y.owes h' a := by
    rintro a ⟨y, hy, hyo⟩
    exact ⟨y, Multiset.mem_add.mpr (.inl hy), hyo⟩
  intro a ha hstale
  -- an entry behind after the step was behind before it, for no step but `commit` moves it, and
  -- that one forwards
  by_cases hlt : a < h.made
  · have hmodule := hd.grows.moduleOf hlt
    have hcurrent := hd.current (h.moduleOf a)
    have hbefore : (h.heap a).epoch < h.current (h.moduleOf a) := by
      by_cases hcommit : ∃ w round epoch handle, x = .commit w a round epoch handle
      · obtain ⟨w, round, epoch, handle, rfl⟩ := hcommit
        rw [hmodule, hcurrent] at hstale
        cases hd with
        | idle hinert _ _ => cases hinert
        | late _ => exact hstale
        | commit hepoch =>
            rw [Hub.bound_heap, if_pos rfl] at hstale
            exact Nat.lt_trans hepoch hstale
      · obtain ⟨hepoch, _⟩ := hd.same_binding hlt
          fun w round epoch handle hx => hcommit ⟨w, round, epoch, handle, hx⟩
        rw [hepoch, hmodule, hcurrent] at hstale
        exact hstale
    obtain ⟨y, hy, hyo⟩ := ho a hlt hbefore
    rcases Multiset.mem_cons.mp hy with rfl | hy
    · exact hnext a (hd.handsOn hs hlt hyo hstale)
    · exact ⟨y, Multiset.mem_add.mpr (.inr hy), hyo.same hmodule hcurrent⟩
  · -- an entry is made by the `add` that goes on to bind it
    cases hd with
    | create _ =>
        obtain rfl : a = h.made := Nat.le_antisymm (Nat.lt_succ_iff.mp ha) (Nat.le_of_not_lt hlt)
        exact hnext _ ⟨_, List.mem_singleton_self _, .inl rfl⟩
    | idle _ hsame _ => exact absurd (hsame.made ▸ ha) hlt
    | _ => exact absurd ha hlt

/-! ## Who holds a handle

`subscribe` puts a new handle into a section's hands; `commit` exchanges it for the one the entry
had; `recheck` passes that one on to a `destroy`. At each of them the sum of `Held.once` stays
one. -/

theorem Pc.owns_of_inert (hx : x.inert = true) : x.owns = none := by
  cases x with
  | commit | recheck | destroy => cases hx
  | _ => rfl

theorem carried_destroys {old : Option Nat} {i : Nat} :
    carried Pc.owns i (↑(old.toList.map .destroy : List (Pc Nat)) : Multiset (Pc Nat)) =
      if old = some i then 1 else 0 := by
  cases old with
  | none => rfl
  | some handle => simp [Pc.owns]

theorem carried_recheck {w : Binder Nat} {a round epoch i : Nat} {old : Option Nat} :
    carried Pc.owns i (↑[Pc.recheck w a round epoch old] : Multiset (Pc Nat)) =
      if old = some i then 1 else 0 := by
  cases old with
  | none => rfl
  | some handle => simp [Pc.owns]

theorem carried_commit {w : Binder Nat} {a round epoch handle i : Nat} :
    carried Pc.owns i (↑[Pc.commit w a round epoch handle] : Multiset (Pc Nat)) =
      if handle = i then 1 else 0 := by
  simp [Pc.owns]

/-- A section that passes on what it has in hand, and leaves the handles and the entries alone. -/
theorem Held.kept (hh : Held h (x ::ₘ others)) (hhandles : h'.handles = h.handles)
    (hissued : h'.issued = h.issued) (hmade : h.made ≤ h'.made)
    (hold : ∀ a < h.made, (h'.heap a).handle = (h.heap a).handle)
    (hnew : ∀ a < h'.made, ¬ a < h.made → (h'.heap a).handle = none)
    (hcarried : ∀ i, carried Pc.owns i (↑next : Multiset (Pc Nat)) =
      if x.owns = some i then 1 else 0)
    (hcommit : ∀ w a round epoch handle, .commit w a round epoch handle ∈ next →
      (handle, a) ∈ h.handles) : Held h' (↑next + others) := by
  refine ⟨?_, ?_, ?_, ?_, ?_, ?_⟩
  · rw [hhandles, hissued]
    exact fun e he => ⟨(hh.fresh e he).1, Nat.lt_of_lt_of_le (hh.fresh e he).2 hmade⟩
  · rw [hissued]
    intro y hy handle hown
    rcases Multiset.mem_add.mp hy with hy | hy
    · have hpos : 0 < carried Pc.owns handle (↑next : Multiset (Pc Nat)) :=
        carried_pos.mpr ⟨y, hy, hown⟩
      rw [hcarried] at hpos
      split at hpos
      · rename_i hx
        exact hh.unissued x (Multiset.mem_cons_self _ _) handle hx
      · exact absurd hpos (Nat.lt_irrefl 0)
    · exact hh.unissued y (Multiset.mem_cons_of_mem hy) handle hown
  · rw [hhandles]
    exact hh.nodup
  · rw [hhandles]
    intro e he
    -- what the section had in hand, the next ones have
    have honce := hh.once e he
    rw [carried_cons] at honce
    rw [hold e.2 (hh.fresh e he).2, carried_add, hcarried]
    omega
  · rw [hhandles]
    intro a ha handle hheld
    by_cases hlt : a < h.made
    · rw [hold a hlt] at hheld
      exact hh.entry a hlt handle hheld
    · rw [hnew a ha hlt] at hheld
      cases hheld
  · rw [hhandles]
    intro w a round epoch handle hmem
    rcases Multiset.mem_add.mp hmem with hmem | hmem
    · exact hcommit w a round epoch handle hmem
    · exact hh.commit w a round epoch handle (Multiset.mem_cons_of_mem hmem)

theorem Held.address_eq (hh : Held h p) {i a b : Nat} (ha : (i, a) ∈ h.handles)
    (hb : (i, b) ∈ h.handles) : a = b := by
  have heq := List.inj_on_of_nodup_map hh.nodup ha hb rfl
  exact congrArg Prod.snd heq

/-- A new handle is in the hands of the section that will commit it. -/
theorem Held.issue {w : Binder Nat} {a round epoch : Nat}
    (hh : Held h (.subscribe w a round epoch ::ₘ others)) (ha : a < h.made) :
    Held (h.issue a) (↑[Pc.commit w a round epoch h.issued] + others) := by
  have hothers : carried Pc.owns h.issued others = 0 := by
    apply carried_of_forall
    intro y hy hown
    exact Nat.lt_irrefl _ (hh.unissued y (Multiset.mem_cons_of_mem hy) _ hown)
  refine ⟨?_, ?_, ?_, ?_, ?_, ?_⟩
  -- a handle that existed keeps its place, and the new one is in no entry
  · intro e he
    rcases List.mem_append.mp he with he | he
    · exact ⟨Nat.lt_succ_of_lt (hh.fresh e he).1, (hh.fresh e he).2⟩
    · rw [List.mem_singleton.mp he]
      exact ⟨Nat.lt_succ_self _, ha⟩
  · intro y hy handle hown
    rcases Multiset.mem_add.mp hy with hy | hy
    · obtain rfl := List.mem_singleton.mp hy
      cases hown
      exact Nat.lt_succ_self _
    · exact Nat.lt_succ_of_lt (hh.unissued y (Multiset.mem_cons_of_mem hy) handle hown)
  · simp only [Hub.issue, List.map_append, List.map_cons, List.map_nil]
    refine hh.nodup.append (List.nodup_singleton _) ?_
    intro i hi hnew
    obtain ⟨e, he, rfl⟩ := List.mem_map.mp hi
    exact absurd (List.mem_singleton.mp hnew) (Nat.ne_of_lt (hh.fresh e he).1)
  · intro e he
    rw [carried_add, carried_commit]
    rcases List.mem_append.mp he with he | he
    · have honce := hh.once e he
      rw [carried_cons_of_none rfl] at honce
      rw [if_neg (Nat.ne_of_lt (hh.fresh e he).1).symm]
      show (if (h.heap e.2).handle = some e.1 then 1 else 0) + _ = 1
      omega
    · obtain rfl := List.mem_singleton.mp he
      have hfree : ¬ (h.heap a).handle = some h.issued := by
        intro hheld
        exact Nat.lt_irrefl _ (hh.fresh _ (hh.entry a ha _ hheld)).1
      show (if (h.heap a).handle = some h.issued then 1 else 0) + _ = 1
      rw [if_neg hfree, hothers, if_pos rfl]
  · intro b hb handle hheld
    exact List.mem_append_left _ (hh.entry b hb handle hheld)
  · intro w' b round' epoch' handle hmem
    rcases Multiset.mem_add.mp hmem with hmem | hmem
    · cases List.mem_singleton.mp hmem
      exact List.mem_append_right _ (List.mem_singleton_self _)
    · exact List.mem_append_left _
        (hh.commit w' b round' epoch' handle (Multiset.mem_cons_of_mem hmem))

/-- A commit puts its handle into the entry, and takes the one that was there in hand. -/
theorem Held.bound {w : Binder Nat} {a round epoch handle : Nat}
    (hh : Held h (.commit w a round epoch handle ::ₘ others)) (ha : a < h.made) :
    Held (h.bound a epoch handle) (↑[Pc.recheck w a round epoch (h.heap a).handle] + others) := by
  have hmine : (handle, a) ∈ h.handles :=
    hh.commit w a round epoch handle (Multiset.mem_cons_self _ _)
  refine ⟨hh.fresh, ?_, hh.nodup, ?_, ?_, ?_⟩
  · intro y hy i hown
    rcases Multiset.mem_add.mp hy with hy | hy
    · obtain rfl := List.mem_singleton.mp hy
      exact (hh.fresh _ (hh.entry a ha i hown)).1
    · exact hh.unissued y (Multiset.mem_cons_of_mem hy) i hown
  · intro e he
    have honce := hh.once e he
    simp only [carried_cons, Pc.owns, Option.some.injEq] at honce
    rw [Hub.bound_heap, carried_add, carried_recheck]
    -- of the handles of this entry one goes in and one comes out; another entry has neither
    by_cases hea : e.2 = a
    · rw [hea] at honce
      rw [if_pos hea]
      simp only [Option.some.injEq]
      omega
    · rw [if_neg hea]
      have hmine' : ¬ handle = e.1 := by
        rintro rfl
        exact hea (hh.address_eq he hmine)
      have hold : ¬ (h.heap a).handle = some e.1 := fun hheld =>
        hea (hh.address_eq he (hh.entry a ha _ hheld))
      rw [if_neg hmine'] at honce
      rw [if_neg hold]
      omega
  · intro b hb i hheld
    rw [Hub.bound_heap] at hheld
    split at hheld
    · rename_i hba
      cases hheld
      exact hba ▸ hmine
    · exact hh.entry b hb i hheld
  · intro w' b round' epoch' i hmem
    rcases Multiset.mem_add.mp hmem with hmem | hmem
    · cases List.mem_singleton.mp hmem
    · exact hh.commit w' b round' epoch' i (Multiset.mem_cons_of_mem hmem)

/-- A handle in hand is in no entry and in nobody else's hand. -/
theorem Held.destroyed {handle : Nat} (hh : Held h (.destroy handle ::ₘ others)) :
    Held (h.destroyed handle) (↑([] : List (Pc Nat)) + others) := by
  have hkeep : ∀ e ∈ h.handles, e.1 ≠ handle → e ∈ (h.destroyed handle).handles := fun e he hne =>
    List.mem_filter.mpr ⟨he, bne_iff_ne.mpr hne⟩
  have hold : ∀ e ∈ (h.destroyed handle).handles, e ∈ h.handles ∧ e.1 ≠ handle := by
    intro e he
    obtain ⟨he, hne⟩ := List.mem_filter.mp he
    exact ⟨he, bne_iff_ne.mp hne⟩
  refine ⟨?_, ?_, ?_, ?_, ?_, ?_⟩
  · exact fun e he => hh.fresh e (hold e he).1
  · intro y hy i hown
    rcases Multiset.mem_add.mp hy with hy | hy
    · cases hy
    · exact hh.unissued y (Multiset.mem_cons_of_mem hy) i hown
  · exact hh.nodup.sublist (List.filter_sublist.map _)
  · intro e he
    obtain ⟨he, hne⟩ := hold e he
    have honce := hh.once e he
    simp only [carried_cons, Pc.owns, Option.some.injEq, if_neg (Ne.symm hne)] at honce
    rw [carried_add, carried_nil]
    show (if (h.heap e.2).handle = some e.1 then 1 else 0) + _ = 1
    omega
  -- an entry that held the handle would be a second place for it
  · intro a ha i hheld
    have hmem := hh.entry a ha i hheld
    apply hkeep _ hmem
    rintro rfl
    have honce := hh.once _ hmem
    have hin : (h.heap a).handle = some i := hheld
    simp only [carried_cons, Pc.owns, if_pos hin, if_true] at honce
    omega
  · intro w a round epoch i hmem
    rcases Multiset.mem_add.mp hmem with hmem | hmem
    · cases hmem
    · have hin := hh.commit w a round epoch i (Multiset.mem_cons_of_mem hmem)
      apply hkeep _ hin
      rintro rfl
      have honce := hh.once _ hin
      have hpos : 0 < carried Pc.owns i others := carried_pos.mpr ⟨_, hmem, rfl⟩
      simp only [carried_cons, Pc.owns, if_true] at honce
      omega

/-- A section that follows on from one that had nothing in hand. -/
theorem Held.plain (hh : Held h (x ::ₘ others)) (hx : x.owns = none)
    (hsame : h'.handles = h.handles ∧ h'.issued = h.issued ∧ h'.made = h.made)
    (hold : ∀ a, (h'.heap a).handle = (h.heap a).handle) (hnext : ∀ y ∈ next, y.owns = none) :
    Held h' (↑next + others) := by
  obtain ⟨hhandles, hissued, hmade⟩ := hsame
  refine hh.kept hhandles hissued hmade.ge (fun a _ => hold a) ?_ ?_ ?_
  · intro a ha hlt
    exact absurd (hmade ▸ ha) hlt
  · intro i
    rw [hx, if_neg (fun h => nomatch h)]
    apply carried_of_forall
    intro y hy hown
    rw [hnext y hy] at hown
    cases hown
  · intro w a round epoch handle hmem
    cases hnext _ hmem

theorem owns_rebindNext {rest : List Nat} :
    ∀ y ∈ (rebindNext rest : List (Pc Nat)), y.owns = none := by
  cases rest with
  | nil => exact fun y hy => nomatch hy
  | cons a rest =>
      intro y hy
      rw [List.mem_singleton.mp hy]
      rfl

theorem owns_done {w : Binder Nat} {a : Nat} : ∀ y ∈ w.done a true, y.owns = none := by
  cases w with
  | adding =>
      intro y hy
      rw [List.mem_singleton.mp hy]
      rfl
  | rebinding rest => exact owns_rebindNext

/-- A `recheck` hands what it holds to the `destroy` that follows. -/
theorem Held.rechecked {w : Binder Nat} {a round epoch : Nat} {old : Option Nat}
    {after : List (Pc Nat)} (hh : Held h (.recheck w a round epoch old ::ₘ others))
    (hafter : ∀ y ∈ after, y.owns = none) :
    Held h (↑(old.toList.map .destroy ++ after : List (Pc Nat)) + others) := by
  refine hh.kept rfl rfl (Nat.le_refl _) (fun _ _ => rfl) (fun a ha hlt => absurd ha hlt) ?_ ?_
  · intro i
    have hnone : carried Pc.owns i (↑after : Multiset (Pc Nat)) = 0 := by
      apply carried_of_forall
      intro y hy hown
      rw [hafter y hy] at hown
      cases hown
    rw [carried_coe_append, carried_destroys, hnone]
    rfl
  · intro w' b round' epoch' handle hmem
    rcases List.mem_append.mp hmem with hmem | hmem
    · obtain ⟨_, _, heq⟩ := List.mem_map.mp hmem
      cases heq
    · cases hafter _ hmem

/-- **Step.** -/
theorem Hub.Does.held (hd : h.Does x h' next) (hp : x.placed h) (hh : Held h (x ::ₘ others)) :
    Held h' (↑next + others) := by
  have hone : ∀ {z : Pc Nat}, z.owns = none → ∀ y ∈ [z], y.owns = none := by
    intro z hz y hy
    rw [List.mem_singleton.mp hy]
    exact hz
  cases hd with
  | idle hinert hsame hnext =>
      apply hh.plain (Pc.owns_of_inert hinert) ⟨hsame.handles, hsame.issued, hsame.made⟩
        hsame.handle
      exact fun y hy => Pc.owns_of_inert (Pc.inert_of_not_settling (hnext y hy))
  | create _ =>
      refine hh.kept rfl rfl (Nat.le_succ _) ?_ ?_ ?_ ?_
      · intro a ha
        rw [Hub.emplaced_heap, if_neg (Nat.ne_of_lt ha)]
      · intro a ha hlt
        have hmade : a = h.made :=
          Nat.le_antisymm (Nat.lt_succ_iff.mp ha) (Nat.le_of_not_lt hlt)
        rw [Hub.emplaced_heap, if_pos hmade, Up.handle_addSubscriber]
      · intro i
        rfl
      · intro w a round epoch handle hmem
        cases List.mem_singleton.mp hmem
  -- the sections without a handle, before and after
  | lease => exact hh.plain rfl ⟨rfl, rfl, rfl⟩ (fun _ => rfl) (hone rfl)
  | fresh _ => exact hh.plain rfl ⟨rfl, rfl, rfl⟩ (fun _ => rfl) owns_done
  | stale _ => exact hh.plain rfl ⟨rfl, rfl, rfl⟩ (fun _ => rfl) (hone rfl)
  | watch => exact hh.plain rfl ⟨rfl, rfl, rfl⟩ (fun _ => rfl) (hone rfl)
  | subscribe => exact hh.issue hp.1
  | @late w a round epoch handle _ =>
      refine hh.kept rfl rfl (Nat.le_refl _) (fun _ _ => rfl) (fun a ha hlt => absurd ha hlt)
        ?_ ?_
      · exact fun i => carried_recheck
      · intro w' b round' epoch' handle' hmem
        cases List.mem_singleton.mp hmem
  | commit _ => exact hh.bound hp.1
  | settled => exact hh.rechecked owns_done
  | again => exact hh.rechecked (hone rfl)
  | destroy => exact hh.destroyed
  | retire => exact hh.plain rfl ⟨rfl, rfl, rfl⟩ (fun _ => rfl) (fun y hy => nomatch hy)
  | rebind => exact hh.plain rfl ⟨rfl, rfl, rfl⟩ (fun _ => rfl) owns_rebindNext

/-! ## Steps and runs

`Hub.Does` says what each section does, so one lemma joins the seven parts; what is left is the
entry points, of which only a replacement puts entries behind. -/

/-- **Step.** -/
theorem Bindings.does (hI : Bindings h origin (x ::ₘ others)) (hd : h.Does x h' next) :
    Bindings h' (x.stamp h.issued origin) (↑next + others) := by
  have hp := hI.placed x (Multiset.mem_cons_self _ _)
  have hx := hI.sections x (Multiset.mem_cons_self _ _)
  have hg := hd.grows
  have hnext := hd.sound_next hI.steady hp hx
  refine ⟨hd.steady hI.steady, ?_, ?_, hd.entries hp hx hI.entries, hd.watched hx hI.watched,
    hd.owed hI.steady hI.owed, hd.held hp hI.held⟩
  · intro y hy
    rcases Multiset.mem_add.mp hy with hy | hy
    · exact (hnext y hy).1
    · exact (hI.placed y (Multiset.mem_cons_of_mem hy)).grows hg
  · intro y hy
    rcases Multiset.mem_add.mp hy with hy | hy
    · exact (hnext y hy).2
    · exact (hI.sections y (Multiset.mem_cons_of_mem hy)).grows
        (hI.placed y (Multiset.mem_cons_of_mem hy)) hg fun i hi => stamp_of_lt hi

/-- A section of the program is one of the hub's. -/
theorem hubExec_does {sh : HubShared} {e : Effect HubShared (Pc Nat)} (hs : Steady sh.hub)
    (hp : x.placed sh.hub) (h : hubExec sh x true = some e) :
    sh.hub.Does x e.shared.hub e.next ∧ e.spawn = [] := by
  cases hret : x.returns with
  | false =>
      obtain ⟨hub', next, hexec, rfl⟩ := hubExec_of_not_returns hret h
      exact ⟨Hub.exec_does hs hp hexec, rfl⟩
  | true =>
      cases x with
      | added | onLost | sink =>
          cases h
          exact ⟨.idle rfl .refl (fun y hy => nomatch hy), rfl⟩
      | _ => cases hret

/-- New threads that hold no handle, and clients that are no older. -/
theorem Bindings.called {clients : Clients} {l : List (Pc Nat)} (hI : Bindings h origin p)
    (hopen : clients.closed = false) (hmono : ∀ m, h.clients.epoch m ≤ clients.epoch m)
    (hl : ∀ y ∈ l, y.placed { h with clients } ∧ y.sound { h with clients } origin ∧
      y.owns = none)
    (howed : Owed { h with clients } (↑l + p)) :
    Bindings { h with clients } origin (↑l + p) := by
  have hg : h.Grows { h with clients } :=
    ⟨Nat.le_refl _, fun _ _ => rfl, hmono, fun _ _ hw => hw, Nat.le_refl _⟩
  refine ⟨⟨hI.steady.opened, hopen, hI.steady.filed, hI.steady.live, hI.steady.table⟩, ?_, ?_, ?_,
    ?_, howed, ⟨hI.held.fresh, ?_, hI.held.nodup, ?_, hI.held.entry, ?_⟩⟩
  · intro y hy
    rcases Multiset.mem_add.mp hy with hy | hy
    · exact (hl y hy).1
    · exact (hI.placed y hy).grows hg
  · intro y hy
    rcases Multiset.mem_add.mp hy with hy | hy
    · exact (hl y hy).2.1
    · exact (hI.sections y hy).grows (hI.placed y hy) hg fun _ _ => rfl
  · exact fun a ha => (hI.entries a ha).grows ha hg rfl rfl fun _ _ => rfl
  · intro m w hm
    obtain ⟨hinstalled, haccept⟩ := hI.watched m w hm
    exact ⟨hinstalled, Nat.le_trans haccept (hmono m)⟩
  · intro y hy handle hown
    rcases Multiset.mem_add.mp hy with hy | hy
    · rw [(hl y hy).2.2] at hown
      cases hown
    · exact hI.held.unissued y hy handle hown
  · intro e he
    have hnone : carried Pc.owns e.1 (↑l : Multiset (Pc Nat)) = 0 := by
      apply carried_of_forall
      intro y hy hown
      rw [(hl y hy).2.2] at hown
      cases hown
    rw [carried_add, hnone, Nat.zero_add]
    exact hI.held.once e he
  · intro w a round epoch handle hmem
    rcases Multiset.mem_add.mp hmem with hmem | hmem
    · cases (hl _ hmem).2.2
    · exact hI.held.commit w a round epoch handle hmem

/-- One new thread, which holds no handle. -/
theorem Bindings.started (hI : Bindings h origin p) (hp : x.placed h) (hx : x.sound h origin)
    (hown : x.owns = none) : Bindings h origin (↑[x] + p) := by
  refine hI.called hI.steady.clients (fun _ => Nat.le_refl _) ?_ ?_
  · intro y hy
    rw [List.mem_singleton.mp hy]
    exact ⟨hp, hx, hown⟩
  · intro a ha hstale
    obtain ⟨y, hy, hyo⟩ := hI.owed a ha hstale
    exact ⟨y, Multiset.mem_add.mpr (.inr hy), hyo⟩

/-- A replacement leaves entries behind, and its hook owes them their bindings. -/
theorem Bindings.replaced (hI : Bindings h origin p) (m : Bytes) :
    Bindings { h with clients := h.clients.replace m } origin
      (↑([.retire m ((h.clients.replace m).epoch m), .rebind m] : List (Pc Nat)) + p) := by
  have hmono : ∀ m', h.clients.epoch m' ≤ (h.clients.replace m).epoch m' := by
    intro m'
    simp only [Clients.replace, Function.update_apply]
    split
    · rename_i hm
      rw [hm]
      exact Nat.le_succ _
    · exact Nat.le_refl _
  refine hI.called hI.steady.clients hmono ?_ ?_
  · intro y hy
    rcases List.mem_cons.mp hy with rfl | hy
    · exact ⟨trivial, Nat.le_refl _, rfl⟩
    · rw [List.mem_singleton.mp hy]
      exact ⟨trivial, trivial, rfl⟩
  · intro a ha hstale
    -- the hook owes what it put behind; an entry of another module was behind already
    by_cases hm : h.moduleOf a = m
    · exact ⟨.rebind m, Multiset.mem_add.mpr (.inl (by simp)), hm⟩
    · have hcurrent : Hub.current { h with clients := h.clients.replace m } (h.moduleOf a) =
          h.current (h.moduleOf a) := by
        simp only [Hub.current, Clients.replace, Function.update_of_ne hm]
      have hbefore : (h.heap a).epoch < h.current (h.moduleOf a) := hcurrent ▸ hstale
      obtain ⟨y, hy, hyo⟩ := hI.owed a ha hbefore
      exact ⟨y, Multiset.mem_add.mpr (.inr hy), hyo.same rfl hcurrent⟩

/-- An entry point that is called. -/
theorem Bindings.enter {sh : HubShared} {ev : HubEntry} {e : Effect HubShared (Pc Nat)}
    (hI : Bindings sh.hub origin p) (hev : ev ≠ .closeClients) (h : hubEnter sh ev = some e) :
    Bindings e.shared.hub origin (e.made + p) := by
  cases ev with
  | closeClients => exact absurd rfl hev
  | replace m =>
      cases h
      exact hI.replaced m
  | _ =>
      cases h
      exact hI.started trivial trivial rfl

/-! ### Runs -/

theorem bindings_start : Bindings {} (fun _ => 0) 0 where
  steady := by
    refine ⟨rfl, rfl, ?_, ?_, ?_⟩
    · exact fun key a hfind => nomatch hfind
    · exact fun a ha => absurd ha (Nat.not_lt_zero a)
    · exact fun e he => nomatch he
  placed x hx := absurd hx (Multiset.notMem_zero x)
  sections x hx := absurd hx (Multiset.notMem_zero x)
  entries a ha := absurd ha (Nat.not_lt_zero a)
  watched m w hm := nomatch hm
  owed a ha := absurd ha (Nat.not_lt_zero a)
  held := by
    refine ⟨?_, ?_, List.nodup_nil, ?_, ?_, ?_⟩
    · exact fun e he => nomatch he
    · exact fun x hx => absurd hx (Multiset.notMem_zero x)
    · exact fun e he => nomatch he
    · exact fun a ha => absurd ha (Nat.not_lt_zero a)
    · exact fun w a round epoch handle hx => absurd hx (Multiset.notMem_zero _)

theorem rebinding_exec {sh : Bound} {valid : Bool} {e : Effect Bound (Pc Nat)}
    (hI : Bindings sh.hub sh.origin (x ::ₘ others)) (hvalid : valid = true)
    (h : rebinding.exec sh x valid = some e) :
    Bindings e.shared.hub e.shared.origin (e.made + others) := by
  obtain ⟨e', he, rfl⟩ := Option.map_eq_some_iff.mp h
  subst hvalid
  obtain ⟨hd, hspawn⟩ := hubExec_does hI.steady (hI.placed x (Multiset.mem_cons_self _ _)) he
  have hmade : (sh.after x e').made = ↑e'.next := by
    simp [Effect.made, Bound.after, hspawn]
  rw [hmade]
  exact hI.does hd

theorem rebinding_enter {sh : Bound} {ev : HubEntry} {e : Effect Bound (Pc Nat)}
    (hI : Bindings sh.hub sh.origin p) (hev : ev ≠ .closeClients)
    (h : rebinding.enter sh ev = some e) :
    Bindings e.shared.hub e.shared.origin (e.made + p) := by
  obtain ⟨e', he, rfl⟩ := Option.map_eq_some_iff.mp h
  exact hI.enter hev he

/-- **Run.** -/
theorem bindings_of_run {s : State Bound (Pc Nat)}
    (h : Run rebinding steady rebindingStart s) :
    Bindings s.shared.hub s.shared.origin s.pending := by
  refine Run.invariant (I := fun sh p => Bindings sh.hub sh.origin p) bindings_start ?_ ?_ h
  · exact fun hI hvalid hexec => rebinding_exec hI hvalid hexec
  · exact fun hI hev henter => rebinding_enter hI hev henter

/-! ## Convergence

With no section left nothing is owed, and no handle is in anybody's hand. -/

/-- A status report of the client of `epoch` is accepted. -/
def Hub.accepts (h : Hub) (m : Bytes) (epoch : Nat) : Prop :=
  ∃ w, h.watch m = some w ∧ w.accept = epoch

/-- Every entry of the table is on its module's current client with one handle, obtained from that
client, whose watcher is installed and whose reports alone are accepted. -/
def Converged (sh : Bound) : Prop :=
  ∀ key a, sh.hub.find key = some a →
    let current := sh.hub.clients.epoch key.module
    0 < current ∧ (sh.hub.heap a).epoch = current ∧
      (∃ handle, (sh.hub.heap a).handle = some handle ∧
        sh.hub.handles.filter (·.2 == a) = [(handle, a)] ∧ sh.origin handle = current) ∧
      sh.hub.Installed key.module current ∧
      ∀ epoch, sh.hub.accepts key.module epoch ↔ epoch = current

/-- With no bind under way an entry has the one handle it holds. -/
theorem Held.only (hh : Held h p) (hnone : ∀ x ∈ p, x.owns = none) {a handle : Nat}
    (ha : a < h.made) (hheld : (h.heap a).handle = some handle) :
    h.handles.filter (·.2 == a) = [(handle, a)] := by
  have hmem : (handle, a) ∈ h.handles.filter (·.2 == a) :=
    List.mem_filter.mpr ⟨hh.entry a ha handle hheld, beq_self_eq_true a⟩
  -- each of them is in the entry, since nobody has it in hand, and the entry holds one
  have honly : ∀ e ∈ h.handles.filter (·.2 == a), e = (handle, a) := by
    intro e he
    obtain ⟨i, b⟩ := e
    obtain ⟨hin, hea⟩ := List.mem_filter.mp he
    obtain rfl : b = a := beq_iff_eq.mp hea
    have honce := hh.once (i, b) hin
    have hzero : carried Pc.owns i p = 0 := by
      apply carried_of_forall
      intro x hx hown
      rw [hnone x hx] at hown
      cases hown
    rw [hzero, hheld] at honce
    split at honce
    · rename_i heq
      cases heq
      rfl
    · cases honce
  have hnodup : (h.handles.filter (·.2 == a)).Nodup :=
    (List.Nodup.of_map _ hh.nodup).filter _
  apply List.perm_singleton.mp
  rw [List.perm_ext_iff_of_nodup hnodup (List.nodup_singleton _)]
  intro e
  constructor
  · exact fun he => List.mem_singleton.mpr (honly e he)
  · intro he
    rw [List.mem_singleton.mp he]
    exact hmem

/-- With nothing under way no entry is behind, for nothing could be owed. -/
theorem Bindings.converged {sh : Bound} (hI : Bindings sh.hub sh.origin p)
    (hidle : ∀ x ∈ p, x.settling = false) : Converged sh := by
  intro key a hfind
  obtain ⟨hkey, ha⟩ := hI.steady.filed key a hfind
  have hmodule : sh.hub.moduleOf a = key.module := congrArg Key.module hkey
  have hsound := hI.entries a ha
  -- an entry behind would be owed by a section, and none is left that owes
  have hcurrent : sh.hub.current key.module ≤ (sh.hub.heap a).epoch := by
    by_contra hlt
    rw [← hmodule] at hlt
    obtain ⟨x, hx, hxo⟩ := hI.owed a ha (Nat.lt_of_not_le hlt)
    exact Pc.not_owes_of_inert (Pc.inert_of_not_settling (hidle x hx)) hxo
  have hle : (sh.hub.heap a).epoch ≤ sh.hub.clients.epoch key.module := hmodule ▸ hsound.epoch
  have hpos : 0 < (sh.hub.heap a).epoch := Nat.le_trans (Nat.le_max_right _ _) hcurrent
  have hepoch : (sh.hub.heap a).epoch = sh.hub.clients.epoch key.module :=
    Nat.le_antisymm hle (Nat.le_trans (Nat.le_max_left _ _) hcurrent)
  obtain ⟨hwatch, handle, hheld, horigin⟩ := hsound.bound hpos
  rw [hmodule, hepoch] at hwatch
  refine ⟨hepoch ▸ hpos, hepoch, ⟨handle, hheld, ?_, horigin.trans hepoch⟩, hwatch, ?_⟩
  · apply hI.held.only _ ha hheld
    exact fun x hx => Pc.owns_of_inert (Pc.inert_of_not_settling (hidle x hx))
  · obtain ⟨w, hw, hinstalled⟩ := hwatch
    obtain ⟨hia, hac⟩ := hI.watched _ _ hw
    -- the accepted epoch lies between the installed one and the current one
    have haccept : w.accept = sh.hub.clients.epoch key.module :=
      Nat.le_antisymm hac (Nat.le_trans hinstalled hia)
    intro epoch
    constructor
    · rintro ⟨w', hw', rfl⟩
      rw [hw] at hw'
      cases hw'
      exact haccept
    · rintro rfl
      exact ⟨w, hw, haccept⟩

/-! ## Subscribers

The subscriber half is about the roster alone: with valid handles no `undo` can run, so an entry
with a subscriber in it is not erased. -/

theorem hubEnter_members {sh : HubShared} {ev : HubEntry} {e : Effect HubShared (Pc Nat)}
    (h : hubEnter sh ev = some e) (key : Key) : e.shared.hub.members key = sh.hub.members key := by
  cases ev with
  | _ =>
      cases h
      rfl

/-- A section that does not remove or lose a subscriber keeps it. -/
theorem Bindings.members {sh : HubShared} {e : Effect HubShared (Pc Nat)} {key : Key} {id : Nat}
    (hI : Bindings sh.hub origin (x ::ₘ others)) (hcov : x.covers key id = false)
    (hid : id ∈ sh.hub.members key) (h : hubExec sh x true = some e) :
    id ∈ e.shared.hub.members key := by
  cases hret : x.returns with
  | false =>
      obtain ⟨hub', next, hexec, rfl⟩ := hubExec_of_not_returns hret h
      obtain ⟨_, hroster⟩ := Hub.exec_roster hI.steady.filed hexec
      rw [← Hub.mem_roster, hroster]
      apply Change.mem_apply hid
      intro hdrop
      -- only the entry of a failed bind would go, and no bind fails
      obtain ⟨k, i, a, rfl, _⟩ := drops_of_not_covers hdrop hcov
      exact hI.placed _ (Multiset.mem_cons_self _ _)
  | true =>
      cases x with
      | added | onLost | sink =>
          cases h
          exact hid
      | _ => cases hret

theorem members_of_run {s s' : State Bound (Pc Nat)} {key : Key} {id : Nat}
    (hI : Bindings s.shared.hub s.shared.origin s.pending)
    (h : Run rebinding (sparing key id) s s') (hid : id ∈ s.shared.hub.members key) :
    id ∈ s'.shared.hub.members key := by
  refine (Run.invariant
    (I := fun sh p => Bindings sh.hub sh.origin p ∧ id ∈ sh.hub.members key)
    ⟨hI, hid⟩ ?_ ?_ h).2
  · rintro sh x valid e others ⟨hI, hid⟩ ⟨hvalid, hcov⟩ hexec
    refine ⟨rebinding_exec hI hvalid hexec, ?_⟩
    obtain ⟨e', he, rfl⟩ := Option.map_eq_some_iff.mp hexec
    obtain rfl : valid = true := hvalid
    exact hI.members hcov hid he
  · rintro sh ev e p ⟨hI, hid⟩ hev henter
    refine ⟨rebinding_enter hI hev henter, ?_⟩
    obtain ⟨e', he, rfl⟩ := Option.map_eq_some_iff.mp henter
    show id ∈ e'.shared.hub.members key
    rw [hubEnter_members he]
    exact hid

/-- **Rebinding converges.** In every run with valid handles and nothing closed, whatever is
replaced meanwhile: once no add, bind or hook is under way every entry is on its module's current
client, with one handle from that client and only that client's reports accepted; and a subscriber
stays one until it is removed or its event lost. -/
theorem rebinding_converges {s : State Bound (Pc Nat)}
    (h : Run rebinding steady rebindingStart s) :
    ((∀ x ∈ s.pending, x.settling = false) → Converged s.shared) ∧
      ∀ key id s', Run rebinding (sparing key id) s s' → id ∈ s.shared.hub.members key →
        id ∈ s'.shared.hub.members key := by
  have hI := bindings_of_run h
  constructor
  · exact hI.converged
  · intro key id s' hrun hid
    exact members_of_run hI hrun hid

/-- The client is replaced while an `add` has a handle of the old one in hand; the hook overtakes
it, and the `add` has to go round again. -/
def overtaken : List (Move Bool HubEntry) :=
  .enter (.add someEvent 1) :: List.replicate 5 (.run 0 true) ++
    .enter (.replace (str "m")) :: List.replicate 8 (.run 1 true) ++ List.replicate 6 (.run 0 true)

theorem rebinding_converges_overtaken :
    ∃ s, Run rebinding steady rebindingStart s ∧ Converged s.shared ∧
      s.shared.hub.find someEvent = some 0 ∧ s.shared.hub.clients.epoch (str "m") = 2 := by
  obtain ⟨s, hs⟩ : ∃ s, rebinding.replayUnder steady rebindingStart overtaken = some s :=
    ⟨_, rfl⟩
  have hrun := Run.start.replayUnder hs
  have hidle : ∀ x ∈ s.pending, x.settling = false := by
    cases hs
    exact fun x hx => nomatch hx
  refine ⟨s, hrun, (rebinding_converges hrun).1 hidle, ?_, ?_⟩
  · cases hs
    rfl
  · cases hs
    rfl

end JsonRpcBridge.Upstream
