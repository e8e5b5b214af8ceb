import JsonRpcBridge.Upstream.Adds

/-!
# Binds, with nothing closed

What the sections of `bind` and of the replacement hook do while neither the hub nor the registry is
closed, every entry is live and every handle is valid (`Steady`).

* `Hub.Does` lists it, one constructor for each way a section can go.
* `Hub.exec_does`: that list is complete.
* `Hub.Does.grows`: epochs, watchers and the table only grow.
-/

namespace JsonRpcBridge.Upstream

open Interleaving

variable {κ : Type}

/-! ## Steady hubs

In a steady hub nothing is closed and no entry leaves the table, and a section changes the binding
of one entry at most. -/

/-- The epoch of the lease that `get` would give. -/
def Hub.current (h : Hub) (m : Bytes) : Nat := max (h.clients.epoch m) 1

/-- The module of an entry. -/
def Hub.moduleOf (h : Hub) (a : Nat) : Bytes := (h.heap a).key.module

/-- A section of an `add`, of a `bind` or of a hook. -/
def Pc.settling : Pc κ → Bool
  | .add .. | .lease .. | .check .. | .watch .. | .subscribe .. | .invalid .. | .commit ..
  | .recheck .. | .destroy _ | .undo .. | .retire .. | .rebind _ => true
  | _ => false

/-- A section that leaves every binding alone. -/
def Pc.inert : Pc κ → Bool
  | .lease .. | .check .. | .watch .. | .subscribe .. | .invalid .. | .commit ..
  | .recheck .. | .destroy _ | .undo .. | .retire .. | .rebind _ => false
  | _ => true

theorem Pc.inert_of_not_settling {x : Pc κ} (h : x.settling = false) : x.inert = true := by
  cases x with
  | add | lease | check | watch | subscribe | invalid | commit | recheck | destroy | undo | retire
  | rebind => cases h
  | _ => rfl

/-- Nothing is closed, and every entry ever made is in the table. -/
structure Steady (h : Hub) : Prop where
  opened : h.closed = false
  clients : h.clients.closed = false
  filed : h.Filed
  live : ∀ a < h.made, h.find (h.heap a).key = some a
  table : ∀ e ∈ h.up, e.2 < h.made

/-- `h'` has the bindings of `h`. -/
structure SameBindings (h h' : Hub) : Prop where
  closed : h'.closed = h.closed
  up : h'.up = h.up
  made : h'.made = h.made
  clients : h'.clients = h.clients
  watch : h'.watch = h.watch
  handles : h'.handles = h.handles
  issued : h'.issued = h.issued
  key : ∀ a, (h'.heap a).key = (h.heap a).key
  epoch : ∀ a, (h'.heap a).epoch = (h.heap a).epoch
  handle : ∀ a, (h'.heap a).handle = (h.heap a).handle

theorem SameBindings.refl {h : Hub} : SameBindings h h :=
  ⟨rfl, rfl, rfl, rfl, rfl, rfl, rfl, fun _ => rfl, fun _ => rfl, fun _ => rfl⟩

theorem SameBindings.setUp {h : Hub} {a : Nat} {u : Up} (hkey : u.key = (h.heap a).key)
    (hepoch : u.epoch = (h.heap a).epoch) (hhandle : u.handle = (h.heap a).handle) :
    SameBindings h (h.setUp a u) := by
  refine ⟨rfl, rfl, rfl, rfl, rfl, rfl, rfl, ?_, ?_, ?_⟩
  all_goals
    intro b
    by_cases hb : b = a
    · subst hb
      simp only [Hub.setUp, Function.update_self]
      assumption
    · simp only [Hub.setUp, Function.update_of_ne hb]

theorem Up.epoch_addSubscriber {u : Up} {id : Nat} : (u.addSubscriber id).epoch = u.epoch := by
  unfold Up.addSubscriber
  split <;> rfl

theorem Up.handle_addSubscriber {u : Up} {id : Nat} :
    (u.addSubscriber id).handle = u.handle := by
  unfold Up.addSubscriber
  split <;> rfl

/-- `removeEverywhere` changes subscribers only. -/
theorem SameBindings.removeEverywhere {h : Hub} {id : Nat} :
    SameBindings h (h.removeEverywhere id) := by
  refine ⟨rfl, rfl, rfl, rfl, rfl, rfl, rfl, ?_, ?_, ?_⟩
  all_goals
    intro a
    show _ = _
    simp only [Hub.removeEverywhere]
    split <;> rfl

/-! ## What a section does

The list is of what can happen to a binding. Sections that are about subscribers, reports or
deliveries are one case of it, `idle`. -/

/-- A new lease on the client of `m`. -/
def Hub.leased (h : Hub) (m : Bytes) : Hub :=
  { h with clients :=
      { h.clients with epoch := Function.update h.clients.epoch m (h.current m) } }

/-- The watch of `m` once the watcher of `epoch` is installed. -/
def Hub.watchedBy (h : Hub) (m : Bytes) (epoch : Nat) : Watch :=
  let old := (h.watch m).getD {}
  if old.installed ≥ epoch then old
  else { installed := epoch, accept := max old.accept epoch }

/-- The watch of `m` is now `w`. -/
def Hub.setWatch (h : Hub) (m : Bytes) (w : Watch) : Hub :=
  { h with watch := Function.update h.watch m (some w) }

/-- A new handle, which delivers to the entry at `a`. -/
def Hub.issue (h : Hub) (a : Nat) : Hub :=
  { h with handles := h.handles ++ [(h.issued, a)], issued := h.issued + 1 }

/-- The entry at `a` on a handle of the client of `epoch`. -/
def Hub.bound (h : Hub) (a epoch handle : Nat) : Hub :=
  h.setUp a { h.heap a with handle := some handle, epoch }

/-- The handle exists no longer. -/
def Hub.destroyed (h : Hub) (handle : Nat) : Hub :=
  { h with handles := h.handles.filter fun e => e.1 != handle }

/-- What a section does, and what follows it, in a steady hub. -/
inductive Hub.Does (h : Hub) : Pc κ → Hub → List (Pc κ) → Prop
  | idle {x : Pc κ} {h' : Hub} {next : List (Pc κ)} (hx : x.inert = true)
      (hsame : SameBindings h h') (hnext : ∀ y ∈ next, y.settling = false) : Does h x h' next
  | create {k : κ} {key : Key} {id : Nat} (hfind : h.find key = none) :
      Does h (.add k key id) ((h.emplace key).setUp h.made (Up.addSubscriber { key } id))
        [.lease (.adding k key id) h.made 0]
  | lease {w : Binder κ} {a round : Nat} :
      Does h (.lease w a round) (h.leased (h.moduleOf a))
        [.check w a round (h.current (h.moduleOf a))]
  | fresh {w : Binder κ} {a round epoch : Nat} (hepoch : epoch ≤ (h.heap a).epoch) :
      Does h (.check w a round epoch) h (w.done a true)
  | stale {w : Binder κ} {a round epoch : Nat} (hepoch : (h.heap a).epoch < epoch) :
      Does h (.check w a round epoch) h [.watch w a round epoch]
  | watch {w : Binder κ} {a round epoch : Nat} :
      Does h (.watch w a round epoch)
        (h.setWatch (h.moduleOf a) (h.watchedBy (h.moduleOf a) epoch))
        [.subscribe w a round epoch]
  | subscribe {w : Binder κ} {a round epoch : Nat} :
      Does h (.subscribe w a round epoch) (h.issue a) [.commit w a round epoch h.issued]
  | late {w : Binder κ} {a round epoch handle : Nat} (hepoch : epoch ≤ (h.heap a).epoch) :
      Does h (.commit w a round epoch handle) h [.recheck w a round epoch (some handle)]
  | commit {w : Binder κ} {a round epoch handle : Nat} (hepoch : (h.heap a).epoch < epoch) :
      Does h (.commit w a round epoch handle) (h.bound a epoch handle)
        [.recheck w a round epoch (h.heap a).handle]
  | settled {w : Binder κ} {a round epoch : Nat} {old : Option Nat} :
      Does h (.recheck w a round epoch old) h (old.toList.map .destroy ++ w.done a true)
  | again {w : Binder κ} {a round epoch : Nat} {old : Option Nat} :
      Does h (.recheck w a round epoch old) h
        (old.toList.map .destroy ++ [.lease w a (round + 1)])
  | destroy {handle : Nat} : Does h (.destroy handle) (h.destroyed handle) []
  | retire {m : Bytes} {epoch : Nat} :
      Does h (.retire m epoch)
        (h.setWatch m
          { (h.watch m).getD {} with accept := max ((h.watch m).getD {}).accept epoch }) []
  | rebind {m : Bytes} : Does h (.rebind m) h (rebindNext (h.ofModule m))

/-- The entries a `rebind` has left are at addresses in use. -/
def Binder.placed (h : Hub) : Binder κ → Prop
  | .rebinding rest => ∀ b ∈ rest, b < h.made
  | .adding .. => True

/-- An entry at an address in use, and not the failure of a bind. -/
def Pc.placed (h : Hub) : Pc κ → Prop
  | .lease w a _ | .check w a _ _ | .watch w a _ _ | .subscribe w a _ _ | .commit w a _ _ _
  | .recheck w a _ _ _ =>
    a < h.made ∧ w.placed h
  | .invalid .. | .undo .. => False
  | _ => True

theorem Steady.not_dead {h : Hub} (hs : Steady h) {a : Nat} (ha : a < h.made) :
    (h.closed || !h.live a) = false := by
  rw [hs.opened, Bool.false_or, Bool.not_eq_false']
  exact beq_iff_eq.mpr (hs.live a ha)

/-- **Inversion.** In a steady hub, with a valid handle, a section does what `Does` lists. -/
theorem Hub.exec_does {h h' : Hub} {x : Pc κ} {next : List (Pc κ)} (hs : Steady h)
    (hx : x.placed h) (hexec : h.exec x true = some (h', next)) : h.Does x h' next := by
  cases x with
  | add k key id =>
      simp only [Hub.exec, hs.opened, Bool.false_eq_true, if_false] at hexec
      split at hexec <;> cases hexec
      · rename_i a hfind
        apply Does.idle rfl
        · exact .setUp Up.key_addSubscriber Up.epoch_addSubscriber Up.handle_addSubscriber
        · intro y hy
          rw [List.mem_singleton.mp hy]
          rfl
      · rename_i hfind
        exact .create hfind
  -- the registry is open, so there is a client to lease
  | lease w a round =>
      have hget : h.clients.get (h.heap a).key.module =
          (some (h.current (h.moduleOf a)), (h.leased (h.moduleOf a)).clients) := by
        rw [Clients.get, if_neg (by rw [hs.clients]; exact Bool.false_ne_true)]
        rfl
      simp only [Hub.exec, hget] at hexec
      cases hexec
      exact .lease
  | check w a round epoch =>
      simp only [Hub.exec, hs.not_dead hx.1, Bool.false_eq_true, if_false] at hexec
      split at hexec <;> cases hexec
      · rename_i hepoch
        exact .fresh hepoch
      · rename_i hepoch
        exact .stale (Nat.lt_of_not_le hepoch)
  | watch w a round epoch =>
      cases hexec
      exact .watch
  | subscribe w a round epoch =>
      cases hexec
      exact .subscribe
  | invalid w a => exact hx.elim
  -- a client of a later epoch has been bound meanwhile, or not
  | commit w a round epoch handle =>
      simp only [Hub.exec, hs.not_dead hx.1, Bool.false_eq_true, if_false] at hexec
      split at hexec <;> cases hexec
      · rename_i hepoch
        exact .late hepoch
      · rename_i hepoch
        exact .commit (Nat.lt_of_not_le hepoch)
  | recheck w a round epoch old =>
      simp only [Hub.exec] at hexec
      cases hexec
      split
      · exact .settled
      · exact .again
  | destroy handle =>
      cases hexec
      exact .destroy
  -- only a bind without a handle is undone, and every handle is valid
  | undo k key id a => exact hx.elim
  | retire m epoch =>
      cases hexec
      exact .retire
  | rebind m =>
      simp only [Hub.exec, hs.opened, Bool.false_eq_true, if_false] at hexec
      cases hexec
      exact .rebind
  | remove key id =>
      simp only [Hub.exec] at hexec
      split at hexec <;> cases hexec
      · exact .idle rfl .refl (fun y hy => absurd hy List.not_mem_nil)
      · exact .idle rfl (.setUp rfl rfl rfl) (fun y hy => absurd hy List.not_mem_nil)
  | removeEverywhere id =>
      cases hexec
      exact .idle rfl .removeEverywhere (fun y hy => absurd hy List.not_mem_nil)
  | status m epoch gone =>
      simp only [Hub.exec] at hexec
      split at hexec <;> cases hexec
      · exact .idle rfl .refl (fun y hy => absurd hy List.not_mem_nil)
      · apply Does.idle rfl .refl
        intro y hy
        split at hy
        · rw [List.mem_singleton.mp hy]
          rfl
        · cases hy
  | moduleLost m why =>
      cases hexec
      apply Does.idle rfl .refl
      intro y hy
      obtain ⟨a, _, rfl⟩ := List.mem_map.mp hy
      rfl
  | lost key why =>
      simp only [Hub.exec] at hexec
      split at hexec <;> cases hexec
      · exact .idle rfl .refl (fun y hy => absurd hy List.not_mem_nil)
      · refine Does.idle rfl ?_ ?_
        · exact .setUp rfl rfl rfl
        · intro y hy
          obtain ⟨id, _, rfl⟩ := List.mem_map.mp hy
          rfl
  | deliver a payload =>
      cases hexec
      apply Does.idle rfl .refl
      intro y hy
      split at hy
      · cases hy
      · rw [List.mem_singleton.mp hy]
        rfl
  | deliverTo a payload ids =>
      cases hexec
      apply Does.idle rfl .refl
      intro y hy
      obtain ⟨id, _, rfl⟩ := List.mem_map.mp hy
      rfl
  | added | onLost | sink => cases hexec

/-! ## What lasts

Nothing here is taken back in a steady hub, so what a section has found out about epochs and
watchers holds until it acts on it. -/

/-- The watcher of the client of `epoch`, or a later one, is installed. -/
def Hub.Installed (h : Hub) (m : Bytes) (epoch : Nat) : Prop :=
  ∃ w, h.watch m = some w ∧ epoch ≤ w.installed

/-- `h'` is later than `h`. -/
structure Hub.Grows (h h' : Hub) : Prop where
  made : h.made ≤ h'.made
  key : ∀ a < h.made, (h'.heap a).key = (h.heap a).key
  epoch : ∀ m, h.clients.epoch m ≤ h'.clients.epoch m
  installed : ∀ m epoch, h.Installed m epoch → h'.Installed m epoch
  issued : h.issued ≤ h'.issued

theorem SameBindings.grows {h h' : Hub} (hs : SameBindings h h') : h.Grows h' where
  made := hs.made ▸ Nat.le_refl _
  key a _ := hs.key a
  epoch m := by rw [hs.clients]
  installed m epoch hw := by
    unfold Hub.Installed
    rw [hs.watch]
    exact hw
  issued := hs.issued ▸ Nat.le_refl _

theorem Hub.Grows.setUp {h : Hub} {a : Nat} {u : Up} (hkey : u.key = (h.heap a).key) :
    h.Grows (h.setUp a u) where
  made := Nat.le_refl _
  key b _ := by
    by_cases hb : b = a
    · subst hb
      simp only [Hub.setUp, Function.update_self, hkey]
    · simp only [Hub.setUp, Function.update_of_ne hb]
  epoch _ := Nat.le_refl _
  installed _ _ hw := hw
  issued := Nat.le_refl _

/-- A watch that is set does not lose the watcher that was installed. -/
theorem Hub.Grows.setWatch {h : Hub} {m : Bytes} {w : Watch}
    (hw : ((h.watch m).getD {}).installed ≤ w.installed) : h.Grows (h.setWatch m w) where
  made := Nat.le_refl _
  key _ _ := rfl
  epoch _ := Nat.le_refl _
  installed m' epoch := by
    rintro ⟨w', hw', hle⟩
    by_cases hm : m' = m
    · subst hm
      refine ⟨w, Function.update_self .., ?_⟩
      rw [hw'] at hw
      exact Nat.le_trans hle hw
    · exact ⟨w', (Function.update_of_ne hm ..).trans hw', hle⟩
  issued := Nat.le_refl _

theorem Hub.le_installed_watchedBy {h : Hub} {m : Bytes} {epoch : Nat} :
    ((h.watch m).getD {}).installed ≤ (h.watchedBy m epoch).installed ∧
      epoch ≤ (h.watchedBy m epoch).installed := by
  simp only [Hub.watchedBy]
  split
  · rename_i hle
    exact ⟨Nat.le_refl _, hle⟩
  · rename_i hlt
    exact ⟨Nat.le_of_lt (Nat.lt_of_not_le hlt), Nat.le_refl _⟩

theorem Hub.leased_epoch {h : Hub} {m m' : Bytes} :
    (h.leased m).clients.epoch m' = if m' = m then h.current m else h.clients.epoch m' := by
  simp only [Hub.leased, Function.update_apply]

theorem Hub.Does.grows {h h' : Hub} {x : Pc κ} {next : List (Pc κ)} (hd : h.Does x h' next) :
    h.Grows h' := by
  cases hd with
  | idle _ hsame _ => exact hsame.grows
  | create _ =>
      refine ⟨Nat.le_succ _, ?_, fun _ => Nat.le_refl _, fun _ _ hw => hw, Nat.le_refl _⟩
      intro a ha
      have hne : a ≠ h.made := Nat.ne_of_lt ha
      simp [Hub.emplace, Hub.setUp, Function.update_of_ne hne]
  | lease =>
      refine ⟨Nat.le_refl _, fun _ _ => rfl, ?_, fun _ _ hw => hw, Nat.le_refl _⟩
      intro m
      rw [Hub.leased_epoch]
      split
      · rename_i hm
        rw [hm]
        exact Nat.le_max_left _ _
      · exact Nat.le_refl _
  | watch => exact .setWatch Hub.le_installed_watchedBy.1
  | subscribe =>
      exact ⟨Nat.le_refl _, fun _ _ => rfl, fun _ => Nat.le_refl _, fun _ _ hw => hw,
        Nat.le_succ _⟩
  | commit _ => exact .setUp rfl
  | destroy =>
      exact ⟨Nat.le_refl _, fun _ _ => rfl, fun _ => Nat.le_refl _, fun _ _ hw => hw,
        Nat.le_refl _⟩
  | retire => exact .setWatch (Nat.le_refl _)
  | fresh | stale | late | settled | again | rebind => exact SameBindings.refl.grows

/-- A section does not change which epoch is current. -/
theorem Hub.Does.current {h h' : Hub} {x : Pc κ} {next : List (Pc κ)} (hd : h.Does x h' next)
    (m : Bytes) : h'.current m = h.current m := by
  cases hd with
  | idle _ hsame _ => rw [Hub.current, hsame.clients, Hub.current]
  | @lease w a round =>
      rw [Hub.current, Hub.leased_epoch]
      split
      · rename_i hm
        rw [hm, Hub.current]
        omega
      · rfl
  | _ => rfl

/-! ## Steadiness -/

theorem SameBindings.steady {h h' : Hub} (hsame : SameBindings h h') (hs : Steady h) :
    Steady h' where
  opened := hsame.closed.trans hs.opened
  clients := by rw [hsame.clients, hs.clients]
  filed key a hfind := by
    rw [Hub.find, hsame.up] at hfind
    rw [hsame.key, hsame.made]
    exact hs.filed key a hfind
  live a ha := by
    rw [hsame.made] at ha
    rw [Hub.find, hsame.up, hsame.key]
    exact hs.live a ha
  table := by
    rw [hsame.up, hsame.made]
    exact hs.table

theorem Hub.emplaced_heap {h : Hub} {key : Key} {id a : Nat} :
    ((h.emplace key).setUp h.made (Up.addSubscriber { key } id)).heap a =
      if a = h.made then Up.addSubscriber { key } id else h.heap a := by
  by_cases ha : a = h.made
  · simp [Hub.setUp, ha]
  · simp [Hub.emplace, Hub.setUp, ha]

theorem Steady.create {h : Hub} {key : Key} {id : Nat} (hs : Steady h)
    (hfind : h.find key = none) :
    Steady ((h.emplace key).setUp h.made (Up.addSubscriber { key } id)) where
  opened := hs.opened
  clients := hs.clients
  filed := by
    have hkey : ((h.emplace key).heap h.made).key = key := by simp [Hub.emplace, Hub.setUp]
    exact (hs.filed.emplace hfind).setUp (Up.key_addSubscriber.trans hkey.symm)
  live a ha := by
    rw [Hub.emplaced_heap]
    show (h.emplace key).find _ = _
    rw [Hub.find_emplace hfind]
    split
    · rename_i hmade
      rw [Up.key_addSubscriber, if_pos rfl, hmade]
    · rename_i hmade
      have hlt : a < h.made := Nat.lt_of_le_of_ne (Nat.lt_succ_iff.mp ha) hmade
      have hlive := hs.live a hlt
      have hne : (h.heap a).key ≠ key := by
        intro hk
        rw [hk, hfind] at hlive
        cases hlive
      rw [if_neg hne]
      exact hlive
  table e he := by
    rcases List.mem_append.mp he with he | he
    · exact Nat.lt_succ_of_lt (hs.table e he)
    · rw [List.mem_singleton.mp he]
      exact Nat.lt_succ_self _

/-- What a commit leaves of each entry. -/
theorem Hub.bound_heap {h : Hub} {a epoch handle b : Nat} :
    (h.bound a epoch handle).heap b =
      if b = a then { h.heap a with handle := some handle, epoch } else h.heap b := by
  by_cases hb : b = a
  · simp [Hub.bound, Hub.setUp, hb]
  · simp [Hub.bound, Hub.setUp, hb]

theorem Hub.bound_key {h : Hub} {a epoch handle b : Nat} :
    ((h.bound a epoch handle).heap b).key = (h.heap b).key := by
  rw [Hub.bound_heap]
  split
  · rename_i hb
    rw [hb]
  · rfl

theorem Steady.bound {h : Hub} {a epoch handle : Nat} (hs : Steady h) :
    Steady (h.bound a epoch handle) := by
  refine ⟨hs.opened, hs.clients, ?_, ?_, hs.table⟩
  · intro key b hfind
    rw [Hub.bound_key]
    exact hs.filed key b hfind
  · intro b hb
    rw [Hub.bound_key]
    exact hs.live b hb

/-- **Step.** -/
theorem Hub.Does.steady {h h' : Hub} {x : Pc κ} {next : List (Pc κ)} (hd : h.Does x h' next)
    (hs : Steady h) : Steady h' := by
  cases hd with
  | idle _ hsame _ => exact hsame.steady hs
  | create hfind => exact hs.create hfind
  | commit _ => exact hs.bound
  | lease | watch | subscribe | destroy | retire =>
      exact ⟨hs.opened, hs.clients, hs.filed, hs.live, hs.table⟩
  | fresh | stale | late | settled | again | rebind => exact hs

end JsonRpcBridge.Upstream
