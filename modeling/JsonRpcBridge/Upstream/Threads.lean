import JsonRpcBridge.Upstream.Hub

/-!
# The threads of the hub

What one section of the hub leads to, whatever the state of the hub.

* `Hub.exec_op`: an `add` is one thread. It is one section at a time until it returns.
* `Hub.exec_follows`: which section may come after which, as far as an `add` and the telling of a
  loss go (`Pc.Follows`). An `add` stays about the key and the id it was called with, fails only
  through `undo` or in a closed hub, and a loss is told to the members it took and to nobody else.
* `Hub.exec_delivers`: what the sections of a callback hand on (`Pc.Delivers`).
-/

namespace JsonRpcBridge.Upstream

variable {κ : Type}

/-- The sections that return to whoever called the hub. -/
def Pc.returns : Pc κ → Bool
  | .added .. | .onLost .. | .sink .. => true
  | _ => false

/-! ## Each add is one thread -/

def Binder.op? : Binder κ → Option κ
  | .adding k _ _ => some k
  | .rebinding _ => none

/-- The `add` a section belongs to. -/
def Pc.op? : Pc κ → Option κ
  | .add k _ _ | .undo k _ _ _ | .added k _ => some k
  | .lease w _ _ | .check w _ _ _ | .watch w _ _ _ | .subscribe w _ _ _ | .invalid w _
  | .commit w _ _ _ _ | .recheck w _ _ _ _ => w.op?
  | _ => none

theorem filterMap_op_rebindNext (rest : List Nat) :
    (rebindNext rest : List (Pc κ)).filterMap Pc.op? = [] := by
  cases rest <;> rfl

theorem Binder.filterMap_op_done (w : Binder κ) (a : Nat) (ok : Bool) :
    (w.done a ok).filterMap Pc.op? = w.op?.toList := by
  cases w with
  | adding k key id => cases ok <;> rfl
  | rebinding rest => exact filterMap_op_rebindNext rest

theorem filterMap_op_map {β : Type} (f : β → Pc κ) (hf : ∀ b, (f b).op? = none) (l : List β) :
    (l.map f).filterMap Pc.op? = [] := by
  rw [List.filterMap_map, List.filterMap_eq_nil_iff]
  exact fun b _ => hf b

/-- A section of an `add` is followed by one section of the same `add`, and no other leads to
one. -/
theorem Hub.exec_op {h h' : Hub} {x : Pc κ} {valid : Bool} {next : List (Pc κ)}
    (hx : h.exec x valid = some (h', next)) : next.filterMap Pc.op? = x.op?.toList := by
  cases x with
  -- `bind` ends, or goes into its next round
  | recheck w a round epoch old =>
      cases hx
      rw [List.filterMap_append, filterMap_op_map _ (fun _ => rfl), List.nil_append]
      split
      · exact w.filterMap_op_done a true
      · rfl
  | commit w a round epoch handle =>
      simp only [Hub.exec] at hx
      repeat' split at hx
      all_goals cases hx
      · exact w.filterMap_op_done a false
      · rfl
      · rfl
  | rebind m =>
      cases hx
      split
      · rfl
      · exact filterMap_op_rebindNext _
  | moduleLost m why => cases hx; exact filterMap_op_map _ (fun _ => rfl) _
  | deliverTo a payload ids => cases hx; exact filterMap_op_map _ (fun _ => rfl) _
  | lost key why =>
      simp only [Hub.exec] at hx
      split at hx <;> cases hx
      · rfl
      · exact filterMap_op_map _ (fun _ => rfl) _
  | added | onLost | sink => cases hx
  | lease w a round =>
      simp only [Hub.exec] at hx
      split at hx <;> cases hx
      · exact w.filterMap_op_done a false
      · rfl
  | check w a round epoch =>
      simp only [Hub.exec] at hx
      repeat' split at hx
      all_goals cases hx
      · exact w.filterMap_op_done a false
      · exact w.filterMap_op_done a true
      · rfl
  | invalid w a => cases hx; exact w.filterMap_op_done a _
  | _ =>
      simp only [Hub.exec] at hx
      repeat' split at hx
      all_goals cases hx
      all_goals rfl

/-! ## What comes after what -/

/-- The `bind` a section is part of, by who waits for it. -/
def Pc.binder? : Pc κ → Option (Binder κ)
  | .lease w _ _ | .check w _ _ _ | .watch w _ _ _ | .subscribe w _ _ _ | .invalid w _
  | .commit w _ _ _ _ | .recheck w _ _ _ _ => some w
  | _ => none

/-- A section that no subscriber has a part in: it neither belongs to an `add`, nor removes, nor
tells a loss. -/
def Pc.plain : Pc κ → Bool
  | .onLost .. | .remove .. | .removeEverywhere _ => false
  | x => x.op?.isNone

theorem Pc.op?_of_plain {x : Pc κ} (h : x.plain = true) : x.op? = none := by
  cases x with
  | onLost | remove | removeEverywhere => cases h
  | _ => exact Option.isNone_iff_eq_none.mp h

theorem Pc.op?_of_binder {x : Pc κ} {w : Binder κ} (h : x.binder? = some w) : x.op? = w.op? := by
  cases x with
  | lease | check | watch | subscribe | invalid | commit | recheck =>
      cases h
      rfl
  | _ => cases h

section Own
variable (keyOf : κ → Key) (idOf : κ → Nat)

/-- A section of an `add` about the key and the id it was called with, or one of another thread that
is not a removal. -/
def Pc.Own : Pc κ → Prop
  | .add k key id | .undo k key id _ => key = keyOf k ∧ id = idOf k
  | .remove .. | .removeEverywhere _ => False
  | x => ∀ k key id, x.binder? = some (.adding k key id) → key = keyOf k ∧ id = idOf k

variable {keyOf idOf}

theorem Pc.Own.of_plain {x : Pc κ} (h : x.plain = true) : x.Own keyOf idOf := by
  cases x with
  | add | undo | remove | removeEverywhere => cases h
  | _ =>
      intro k key id hw
      have hop := (Pc.op?_of_binder hw).symm.trans (Pc.op?_of_plain h)
      cases hop

theorem Pc.Own.of_binder {x : Pc κ} {k : κ} {key : Key} {id : Nat} (h : x.Own keyOf idOf)
    (hw : x.binder? = some (.adding k key id)) : key = keyOf k ∧ id = idOf k := by
  cases x with
  | add | undo | remove | removeEverywhere => cases hw
  | _ => exact h k key id hw
end Own

/-- Section `y` may come after `x`. -/
inductive Pc.Follows (h : Hub) : Pc κ → Pc κ → Prop
  | binding {x y : Pc κ} {w : Binder κ} (hx : x.binder? = some w) (hy : y.binder? = some w) :
      Follows h x y
  | bound {x : Pc κ} {k : κ} {key : Key} {id : Nat} (hx : x.binder? = some (.adding k key id)) :
      Follows h x (.added k true)
  | unbound {x : Pc κ} {k : κ} {key : Key} {id a : Nat}
      (hx : x.binder? = some (.adding k key id)) : Follows h x (.undo k key id a)
  | create {k : κ} {key : Key} {id a : Nat} (hopen : h.closed = false) :
      Follows h (.add k key id) (.lease (.adding k key id) a 0)
  | join {k : κ} {key : Key} {id : Nat} (hopen : h.closed = false) :
      Follows h (.add k key id) (.added k true)
  | refuse {k : κ} {key : Key} {id : Nat} (hclosed : h.closed = true) :
      Follows h (.add k key id) (.added k false)
  | undone {k : κ} {key : Key} {id a : Nat} : Follows h (.undo k key id a) (.added k false)
  | told {key : Key} {why : Bytes} {a id : Nat} (hfind : h.find key = some a)
      (hid : id ∈ (h.heap a).subscribers) : Follows h (.lost key why) (.onLost id (h.heap a).key why)
  | plain {x y : Pc κ} (hy : y.plain = true) : Follows h x y

theorem Pc.Follows.of_rebindNext {h : Hub} {x y : Pc κ} {rest : List Nat}
    (hy : y ∈ rebindNext rest) : Pc.Follows h x y := by
  cases rest with
  | nil => cases hy
  | cons a rest =>
      rw [List.mem_singleton.mp hy]
      exact .plain rfl

theorem Pc.Follows.of_done {h : Hub} {x y : Pc κ} {w : Binder κ} {a : Nat} {ok : Bool}
    (hx : x.binder? = some w) (hy : y ∈ w.done a ok) : Pc.Follows h x y := by
  cases w with
  | adding k key id =>
      cases ok with
      | true =>
          rw [List.mem_singleton.mp hy]
          exact .bound hx
      | false =>
          rw [List.mem_singleton.mp hy]
          exact .unbound hx
  | rebinding rest => exact .of_rebindNext hy

/-- **Inversion.** -/
theorem Hub.exec_follows {h h' : Hub} {x y : Pc κ} {valid : Bool} {next : List (Pc κ)}
    (hx : h.exec x valid = some (h', next)) (hy : y ∈ next) : Pc.Follows h x y := by
  cases x with
  | add k key id =>
      simp only [Hub.exec] at hx
      split at hx
      · rename_i hclosed
        cases hx
        rw [List.mem_singleton.mp hy]
        exact .refuse hclosed
      · rename_i hopen
        replace hopen := Bool.eq_false_iff.mpr hopen
        split at hx <;> cases hx
        · rw [List.mem_singleton.mp hy]
          exact .join hopen
        · rw [List.mem_singleton.mp hy]
          exact .create hopen
  | lease w a round =>
      simp only [Hub.exec] at hx
      split at hx <;> cases hx
      · exact .of_done rfl hy
      · rw [List.mem_singleton.mp hy]
        exact .binding rfl rfl
  | check w a round epoch =>
      simp only [Hub.exec] at hx
      repeat' split at hx
      all_goals cases hx
      · exact .of_done rfl hy
      · exact .of_done rfl hy
      · rw [List.mem_singleton.mp hy]
        exact .binding rfl rfl
  | watch w a round epoch =>
      cases hx
      rw [List.mem_singleton.mp hy]
      exact .binding rfl rfl
  | subscribe w a round epoch =>
      simp only [Hub.exec] at hx
      split at hx <;> cases hx
      all_goals
        rw [List.mem_singleton.mp hy]
        exact .binding rfl rfl
  | invalid w a =>
      cases hx
      exact .of_done rfl hy
  | commit w a round epoch handle =>
      simp only [Hub.exec] at hx
      repeat' split at hx
      all_goals cases hx
      -- the handle of an entry that is gone is destroyed before `bind` returns
      · rcases List.mem_cons.mp hy with rfl | hy
        · exact .plain rfl
        · exact .of_done rfl hy
      all_goals
        rw [List.mem_singleton.mp hy]
        exact .binding rfl rfl
  | recheck w a round epoch old =>
      cases hx
      rcases List.mem_append.mp hy with hy | hy
      · obtain ⟨handle, _, rfl⟩ := List.mem_map.mp hy
        exact .plain rfl
      · split at hy
        · exact .of_done rfl hy
        · rw [List.mem_singleton.mp hy]
          exact .binding rfl rfl
  | undo k key id a =>
      cases hx
      rw [List.mem_singleton.mp hy]
      exact .undone
  | rebind m =>
      cases hx
      split at hy
      · cases hy
      · exact .of_rebindNext hy
  | moduleLost m why =>
      cases hx
      obtain ⟨a, _, rfl⟩ := List.mem_map.mp hy
      exact .plain rfl
  | lost key why =>
      simp only [Hub.exec] at hx
      split at hx <;> cases hx
      · cases hy
      · rename_i a hfind
        obtain ⟨id, hid, rfl⟩ := List.mem_map.mp hy
        exact .told hfind hid
  | deliverTo a payload ids =>
      cases hx
      obtain ⟨id, _, rfl⟩ := List.mem_map.mp hy
      exact .plain rfl
  | status m epoch gone =>
      simp only [Hub.exec] at hx
      split at hx <;> cases hx
      · cases hy
      · split at hy
        · rw [List.mem_singleton.mp hy]
          exact .plain rfl
        · cases hy
  | deliver a payload =>
      cases hx
      split at hy
      · cases hy
      · rw [List.mem_singleton.mp hy]
        exact .plain rfl
  | remove key id =>
      simp only [Hub.exec] at hx
      split at hx <;> cases hx
      all_goals cases hy
  | added | onLost | sink => cases hx
  | _ =>
      cases hx
      cases hy

/-- The sections that follow one that is about its own key and id are so too. -/
theorem Pc.Follows.own {keyOf : κ → Key} {idOf : κ → Nat} {h : Hub} {x y : Pc κ}
    (hxy : Pc.Follows h x y) (hx : x.Own keyOf idOf) : y.Own keyOf idOf := by
  cases hxy with
  | @binding _ _ w hwx hwy =>
      cases y with
      | add | undo | remove | removeEverywhere => cases hwy
      | _ =>
          intro k key id hw
          obtain rfl : w = .adding k key id := Option.some.inj (hwy.symm.trans hw)
          exact hx.of_binder hwx
  | unbound hw => exact hx.of_binder hw
  | create =>
      intro k key id hw
      cases hw
      exact hx
  | bound | join | refuse | undone | told => intro k key id hw; cases hw
  | plain hy => exact .of_plain hy

/-! ## Callbacks -/

/-- The sections of a callback. -/
def Pc.callback : Pc κ → Bool
  | .deliver .. | .deliverTo .. | .sink .. => true
  | _ => false

/-- What the sections of a callback hand on: the subscribers it has loaded, then the generation. -/
inductive Pc.Delivers (h : Hub) : Pc κ → Pc κ → Prop
  | loaded {a : Nat} {payload : Json} :
      Pc.Delivers h (.deliver a payload) (.deliverTo a payload (h.heap a).subscribers)
  | handed {a id : Nat} {payload : Json} {ids : List Nat} (hid : id ∈ ids) :
      Pc.Delivers h (.deliverTo a payload ids)
        (.sink id (h.heap a).key payload (h.heap a).generation)

theorem filter_callback_rebindNext (rest : List Nat) :
    (rebindNext rest : List (Pc κ)).filter Pc.callback = [] := by
  cases rest <;> rfl

theorem Binder.filter_callback_done (w : Binder κ) (a : Nat) (ok : Bool) :
    (w.done a ok).filter Pc.callback = [] := by
  cases w with
  | adding k key id => cases ok <;> rfl
  | rebinding rest => exact filter_callback_rebindNext rest

theorem filter_callback_map {β : Type} (f : β → Pc κ) (hf : ∀ b, (f b).callback = false)
    (l : List β) : (l.map f).filter Pc.callback = [] := by
  rw [List.filter_eq_nil_iff]
  intro x hx
  obtain ⟨b, _, rfl⟩ := List.mem_map.mp hx
  simp [hf b]

theorem Hub.exec_callback {h h' : Hub} {x : Pc κ} {valid : Bool} {next : List (Pc κ)}
    (hx : h.exec x valid = some (h', next)) (hcall : x.callback = false) :
    next.filter Pc.callback = [] := by
  cases x with
  | deliver | deliverTo | sink => cases hcall
  | recheck w a round epoch old =>
      cases hx
      rw [List.filter_append, filter_callback_map _ (fun _ => rfl), List.nil_append]
      split
      · exact w.filter_callback_done a true
      · rfl
  | commit w a round epoch handle =>
      simp only [Hub.exec] at hx
      repeat' split at hx
      all_goals cases hx
      · exact w.filter_callback_done a false
      · rfl
      · rfl
  | rebind m =>
      cases hx
      split
      · rfl
      · exact filter_callback_rebindNext _
  | moduleLost m why => cases hx; exact filter_callback_map _ (fun _ => rfl) _
  | lost key why =>
      simp only [Hub.exec] at hx
      split at hx <;> cases hx
      · rfl
      · exact filter_callback_map _ (fun _ => rfl) _
  | added | onLost => cases hx
  | lease w a round =>
      simp only [Hub.exec] at hx
      split at hx <;> cases hx
      · exact w.filter_callback_done a false
      · rfl
  | check w a round epoch =>
      simp only [Hub.exec] at hx
      repeat' split at hx
      all_goals cases hx
      · exact w.filter_callback_done a false
      · exact w.filter_callback_done a true
      · rfl
  | invalid w a => cases hx; exact w.filter_callback_done a _
  | _ =>
      simp only [Hub.exec] at hx
      repeat' split at hx
      all_goals cases hx
      all_goals rfl

/-- A section of a callback follows from another one of it, and from nothing else. -/
theorem Hub.exec_delivers {h h' : Hub} {x y : Pc κ} {valid : Bool} {next : List (Pc κ)}
    (hx : h.exec x valid = some (h', next)) (hy : y ∈ next) (hcall : y.callback = true) :
    Pc.Delivers h x y := by
  cases hxcall : x.callback with
  | false =>
      have hnone := List.filter_eq_nil_iff.mp (Hub.exec_callback hx hxcall) y hy
      exact absurd hcall hnone
  | true =>
      cases x with
      | deliver a payload =>
          cases hx
          split at hy
          · cases hy
          · rw [List.mem_singleton.mp hy]
            exact .loaded
      | deliverTo a payload ids =>
          cases hx
          obtain ⟨id, hid, rfl⟩ := List.mem_map.mp hy
          exact .handed hid
      | sink => cases hx
      | _ => cases hxcall

end JsonRpcBridge.Upstream
