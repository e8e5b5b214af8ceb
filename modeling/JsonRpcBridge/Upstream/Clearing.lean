import JsonRpcBridge.Upstream.Rebinding

/-!
# No upstream subscription is left behind

A handle is a subscription upstream, and destroying it ends it. The hub destroys a handle when `bind`
has no use for it, and otherwise with its entry. An entry is freed when nobody holds it any more:
not `m_up`, not the `dead` of `clear`, not a section with it in hand (`counted`).

`handles_of_run`, for every interleaving of the hub's operations, valid and invalid handles,
replacements and `clear`: once nothing is in progress, every handle that exists is that of an entry of
the table, one for each entry at the most, and after `clear` there is none.
-/

namespace JsonRpcBridge.Upstream

open Interleaving

/-! ## State and sections

The hub of `Adds`, with `clear` and the freeing of entries. In the source an entry is freed by
the last `shared_ptr` to it; here it is an event of its own, and the guard allows it when nobody
holds one. -/

/-- The hub, and the number of the next add. -/
structure Clearing where
  hub : Hub := {}
  nextOp : Nat := 0

inductive ClearPc where
  | hub (x : Pc Nat)
  | clear
  /-- The entries that `clear` moved out, from the next one on. -/
  | bury (dead : List Nat)

inductive ClearEntry where
  | call (ev : HubEntry)
  /-- An event reaches the callback of a handle. -/
  | emit (handle : Nat) (payload : Json)
  | clear
  /-- The last reference to the entry at `a` goes. -/
  | free (a : Nat)

/-- The entry at `a` is freed, and its handle destroyed. -/
def Hub.free (h : Hub) (a : Nat) : Hub :=
  match (h.heap a).handle with
  | none => h
  | some handle => (h.destroyed handle).setUp a { h.heap a with handle := none }

/-- A section of the hub, or a step of `clear`: it moves the entries out, and lets go of them one by
one. -/
def clearExec (sh : Clearing) (x : ClearPc) (valid : Bool) : Option (Effect Clearing ClearPc) :=
  match x with
  | .hub (.added ..) | .hub (.onLost ..) | .hub (.sink ..) => some { shared := sh }
  | .hub x =>
    (sh.hub.exec x valid).map fun r =>
      { shared := { sh with hub := r.1 }, next := r.2.map .hub }
  | .clear =>
    some { shared := { sh with hub := { sh.hub with closed := true, up := [] } }
           next := [.bury (sh.hub.up.map (·.2))] }
  | .bury [] => some { shared := sh }
  | .bury (_ :: dead) => some { shared := sh, next := [.bury dead] }

def clearEnter (sh : Clearing) : ClearEntry → Option (Effect Clearing ClearPc)
  | .call (.deliver ..) => none
  | .call ev =>
    (hubEnter { hub := sh.hub, nextOp := sh.nextOp } ev).map fun e =>
      { shared := ⟨e.shared.hub, e.shared.nextOp⟩, next := e.next.map .hub }
  | .emit handle payload =>
    (sh.hub.handles.lookup handle).map fun a =>
      { shared := sh, next := [.hub (.deliver a payload)] }
  | .clear => some { shared := sh, next := [.clear] }
  | .free a =>
    if a < sh.hub.made then some { shared := { sh with hub := sh.hub.free a } } else none

def clearing : Program Clearing ClearPc Bool ClearEntry where
  exec := clearExec
  enter := clearEnter

def clearingStart : State Clearing ClearPc where
  shared := {}

/-! ## Who holds an entry

Besides the table these are the sections that have it in hand: a bind, the hook with its list,
and the `dead` of `clear`. -/

/-- The entries a `rebind` has left. -/
def Binder.rest : Binder Nat → List Nat
  | .rebinding rest => rest
  | .adding .. => []

/-- The entries a section has in hand. -/
def Pc.keeps : Pc Nat → List Nat
  | .lease w a _ | .check w a _ _ | .watch w a _ _ | .subscribe w a _ _ | .invalid w a
  | .commit w a _ _ _ | .recheck w a _ _ _ => a :: w.rest
  | .undo _ _ _ a | .deliver a _ | .deliverTo a _ _ => [a]
  | _ => []

def ClearPc.keeps : ClearPc → List Nat
  | .hub x => x.keeps
  | .clear => []
  | .bury dead => dead

def ClearPc.hub? : ClearPc → Option (Pc Nat)
  | .hub x => some x
  | _ => none

/-- An entry is freed when nobody holds it. -/
def counted : Guard Clearing ClearPc Bool ClearEntry where
  run _ _ _ _ := True
  enter sh p ev := ∀ a, ev = .free a →
    (∀ e ∈ sh.hub.up, e.2 ≠ a) ∧ ∀ x ∈ p, a ∉ x.keeps

instance : counted.Decided where
  run _ _ _ _ := isTrue trivial
  enter sh p ev := by
    induction ev using ClearEntry.casesOn with
    | free a =>
        exact decidable_of_iff ((∀ e ∈ sh.hub.up, e.2 ≠ a) ∧ ∀ x ∈ p, a ∉ x.keeps)
          ⟨by rintro h _ ⟨⟩; exact h, fun h => h a rfl⟩
    | _ => exact isTrue (by rintro _ ⟨⟩)

variable {h h' : Hub} {x y : Pc Nat} {next : List (Pc Nat)} {others : Multiset (Pc Nat)}

/-! ## What a section of the hub does to the handles

`Held` is the invariant of `Rebinding`. Here handles may be invalid and the hub closed, so a
section has more ways to end; in each of them it lets go of the handle it has. -/

theorem handle_setUp {a : Nat} {u : Up} (hu : u.handle = (h.heap a).handle) (b : Nat) :
    ((h.setUp a u).heap b).handle = (h.heap b).handle := by
  show (Function.update h.heap a u b).handle = _
  by_cases hb : b = a
  · rw [hb, Function.update_self, hu]
  · rw [Function.update_of_ne hb]

theorem Binder.owns_done (w : Binder Nat) (a : Nat) (ok : Bool) :
    ∀ y ∈ w.done a ok, y.owns = none := by
  cases w with
  | adding k key id =>
      intro y hy
      cases ok <;>
      · rw [List.mem_singleton.mp hy]
        rfl
  | rebinding rest => exact owns_rebindNext

theorem Held.idle (hh : Held h (x ::ₘ others)) (hx : x.owns = none)
    (hnext : ∀ y ∈ next, y.owns = none) : Held h (↑next + others) :=
  hh.plain hx ⟨rfl, rfl, rfl⟩ (fun _ => rfl) hnext

/-- A section is called that has no handle in hand. -/
theorem Held.entered {p : Multiset (Pc Nat)} (hh : Held h p) (hx : x.owns = none) :
    Held h (x ::ₘ p) := by
  refine ⟨hh.fresh, ?_, hh.nodup, ?_, hh.entry, ?_⟩
  · intro y hy handle hown
    rcases Multiset.mem_cons.mp hy with rfl | hy
    · cases hx.symm.trans hown
    · exact hh.unissued y hy handle hown
  · intro e he
    rw [carried_cons_of_none hx]
    exact hh.once e he
  · intro w a round epoch handle hmem
    rcases Multiset.mem_cons.mp hmem with rfl | hmem
    · cases hx
    · exact hh.commit w a round epoch handle hmem

/-- The registry is no concern of the handles. -/
theorem Held.of_clients {p : Multiset (Pc Nat)} (hh : Held h p) (clients : Clients) :
    Held { h with clients } p :=
  ⟨hh.fresh, hh.unissued, hh.nodup, hh.once, hh.entry, hh.commit⟩

/-- A handle that comes too late goes with the section. -/
theorem Held.dropped {w : Binder Nat} {a round epoch handle : Nat}
    (hh : Held h (.commit w a round epoch handle ::ₘ others)) (hnext : ∀ y ∈ next, y.owns = none) :
    Held h (↑(.destroy handle :: next) + others) := by
  refine hh.kept rfl rfl (Nat.le_refl _) (fun _ _ => rfl) (fun a ha hlt => absurd ha hlt) ?_ ?_
  · intro i
    have hnone : carried Pc.owns i (↑next : Multiset (Pc Nat)) = 0 := by
      apply carried_of_forall
      intro y hy hown
      cases (hnext y hy).symm.trans hown
    rw [carried_coe_cons, hnone, zero_add]
    rfl
  · intro w' b round' epoch' handle' hmem
    rcases List.mem_cons.mp hmem with heq | hmem
    · cases heq
    · cases hnext _ hmem

/-- **Step.** -/
theorem Hub.exec_held {valid : Bool} (hexec : h.exec x valid = some (h', next))
    (hh : Held h (x ::ₘ others)) (hkeeps : ∀ a ∈ x.keeps, a < h.made) :
    Held h' (↑next + others) := by
  have hone : ∀ {z : Pc Nat}, z.owns = none → ∀ y ∈ [z], y.owns = none := by
    intro z hz y hy
    rw [List.mem_singleton.mp hy]
    exact hz
  have hnil : ∀ y ∈ ([] : List (Pc Nat)), y.owns = none := fun y hy => by cases hy
  cases x with
  | add k key id =>
      simp only [Hub.exec] at hexec
      split at hexec
      · cases hexec
        exact hh.idle rfl (hone rfl)
      · split at hexec <;> cases hexec
        · exact hh.plain rfl ⟨rfl, rfl, rfl⟩ (handle_setUp Up.handle_addSubscriber) (hone rfl)
        · refine hh.kept rfl rfl (Nat.le_succ _) ?_ ?_ (fun _ => rfl) ?_
          · intro a ha
            rw [Hub.emplaced_heap, if_neg (Nat.ne_of_lt ha)]
          · intro a ha hlt
            have hmade : a = h.made :=
              Nat.le_antisymm (Nat.lt_succ_iff.mp ha) (Nat.le_of_not_lt hlt)
            rw [Hub.emplaced_heap, if_pos hmade, Up.handle_addSubscriber]
          · intro w a round epoch handle hmem
            cases List.mem_singleton.mp hmem
  -- a closed registry has no lease, and the bind gives up
  | lease w a round =>
      simp only [Hub.exec] at hexec
      split at hexec <;> cases hexec
      · exact hh.plain rfl ⟨rfl, rfl, rfl⟩ (fun _ => rfl) (w.owns_done a false)
      · exact hh.plain rfl ⟨rfl, rfl, rfl⟩ (fun _ => rfl) (hone rfl)
  | check w a round epoch =>
      simp only [Hub.exec] at hexec
      repeat' split at hexec
      all_goals cases hexec
      · exact hh.idle rfl (w.owns_done a false)
      · exact hh.idle rfl (w.owns_done a true)
      · exact hh.idle rfl (hone rfl)
  | watch w a round epoch =>
      cases hexec
      exact hh.plain rfl ⟨rfl, rfl, rfl⟩ (fun _ => rfl) (hone rfl)
  | subscribe w a round epoch =>
      simp only [Hub.exec] at hexec
      split at hexec <;> cases hexec
      · exact hh.issue (hkeeps a List.mem_cons_self)
      · exact hh.idle rfl (hone rfl)
  | invalid w a =>
      cases hexec
      exact hh.idle rfl (w.owns_done a _)
  -- the entry may be dead, or bound already; then the handle goes with the section
  | commit w a round epoch handle =>
      simp only [Hub.exec] at hexec
      repeat' split at hexec
      all_goals cases hexec
      · exact hh.dropped (w.owns_done a false)
      · refine hh.kept rfl rfl (Nat.le_refl _) (fun _ _ => rfl) (fun a ha hlt => absurd ha hlt)
          (fun _ => carried_recheck) ?_
        intro w' b round' epoch' handle' hmem
        cases List.mem_singleton.mp hmem
      · exact hh.bound (hkeeps a List.mem_cons_self)
  | recheck w a round epoch old =>
      cases hexec
      apply hh.rechecked
      split
      · exact w.owns_done a true
      · exact hone rfl
  | destroy handle =>
      cases hexec
      exact hh.destroyed
  | undo k key id a =>
      cases hexec
      refine hh.plain rfl ?_ (fun b => ?_) (hone rfl)
      · split <;> exact ⟨rfl, rfl, rfl⟩
      · split <;> rfl
  | remove key id =>
      simp only [Hub.exec] at hexec
      split at hexec <;> cases hexec
      · exact hh.idle rfl hnil
      · exact hh.plain rfl ⟨rfl, rfl, rfl⟩ (handle_setUp rfl) hnil
  | removeEverywhere id =>
      cases hexec
      refine hh.plain rfl ⟨rfl, rfl, rfl⟩ (fun b => ?_) hnil
      show (if _ then _ else _ : Up).handle = _
      split <;> rfl
  | retire m epoch =>
      cases hexec
      exact hh.plain rfl ⟨rfl, rfl, rfl⟩ (fun _ => rfl) hnil
  | rebind m =>
      cases hexec
      apply hh.idle rfl
      split
      · exact hnil
      · exact owns_rebindNext
  | status m epoch gone =>
      simp only [Hub.exec] at hexec
      split at hexec <;> cases hexec
      · exact hh.idle rfl hnil
      · apply hh.idle rfl
        split
        · exact hone rfl
        · exact hnil
  | moduleLost m why =>
      cases hexec
      apply hh.idle rfl
      intro y hy
      obtain ⟨a, -, rfl⟩ := List.mem_map.mp hy
      rfl
  | lost key why =>
      simp only [Hub.exec] at hexec
      split at hexec <;> cases hexec
      · exact hh.idle rfl hnil
      · refine hh.plain rfl ⟨rfl, rfl, rfl⟩ (handle_setUp rfl) ?_
        intro y hy
        obtain ⟨id, -, rfl⟩ := List.mem_map.mp hy
        rfl
  | deliver a payload =>
      cases hexec
      apply hh.idle rfl
      split
      · exact hnil
      · exact hone rfl
  | deliverTo a payload ids =>
      cases hexec
      apply hh.idle rfl
      intro y hy
      obtain ⟨id, -, rfl⟩ := List.mem_map.mp hy
      rfl
  | added | onLost | sink => cases hexec

/-! ## Addresses

An address that is in the table or in somebody's hand has been made. -/

/-- What is in the table is at an address in use, and nothing is once the hub is closed. -/
structure Tabled (h : Hub) : Prop where
  table : ∀ e ∈ h.up, e.2 < h.made
  closed : h.closed = true → h.up = []

theorem Tabled.find {key : Key} {a : Nat} (ht : Tabled h) (hfind : h.find key = some a) :
    a < h.made :=
  ht.table (key, a) (List.mem_of_lookup hfind)

/-- The addresses in use stay so. -/
structure Stays (h h' : Hub) (next : List (Pc Nat)) : Prop where
  made : h.made ≤ h'.made
  tabled : Tabled h'
  next : ∀ y ∈ next, ∀ a ∈ y.keeps, a < h'.made

theorem Tabled.stays (ht : Tabled h) (hmade : h'.made = h.made) (hup : h'.up = h.up)
    (hclosed : h'.closed = h.closed) (hnext : ∀ y ∈ next, ∀ a ∈ y.keeps, a < h.made) :
    Stays h h' next := by
  refine ⟨Nat.le_of_eq hmade.symm, ⟨?_, ?_⟩, ?_⟩
  · rw [hup, hmade]
    exact ht.table
  · rw [hup, hclosed]
    exact ht.closed
  · rw [hmade]
    exact hnext

/-! ### Section by section -/

theorem keeps_rebindNext {rest : List Nat} {n : Nat} (hrest : ∀ b ∈ rest, b < n) :
    ∀ y ∈ (rebindNext rest : List (Pc Nat)), ∀ a ∈ y.keeps, a < n := by
  cases rest with
  | nil =>
      intro y hy
      cases hy
  | cons b rest =>
      intro y hy
      rw [List.mem_singleton.mp hy]
      exact hrest

theorem Binder.keeps_done {w : Binder Nat} {a n : Nat} (ok : Bool)
    (hkeeps : ∀ b ∈ a :: w.rest, b < n) : ∀ y ∈ w.done a ok, ∀ b ∈ y.keeps, b < n := by
  cases w with
  | adding k key id =>
      intro y hy b hb
      cases ok with
      | true =>
          rw [List.mem_singleton.mp hy] at hb
          cases hb
      | false =>
          rw [List.mem_singleton.mp hy] at hb
          exact hkeeps b hb
  | rebinding rest =>
      exact keeps_rebindNext fun b hb => hkeeps b (List.mem_cons_of_mem a hb)

/-- **Step.** -/
theorem Hub.exec_stays {valid : Bool} (hexec : h.exec x valid = some (h', next)) (ht : Tabled h)
    (hkeeps : ∀ a ∈ x.keeps, a < h.made) : Stays h h' next := by
  have hone : ∀ {z : Pc Nat}, (∀ a ∈ z.keeps, a < h.made) → ∀ y ∈ [z], ∀ a ∈ y.keeps, a < h.made := by
    intro z hz y hy
    rw [List.mem_singleton.mp hy]
    exact hz
  have hnothing : ∀ {z : Pc Nat}, z.keeps = [] → ∀ a ∈ z.keeps, a < h.made := by
    intro z hz a ha
    rw [hz] at ha
    cases ha
  have hnil : ∀ y ∈ ([] : List (Pc Nat)), ∀ a ∈ y.keeps, a < h.made := fun y hy => by cases hy
  cases x with
  | add k key id =>
      simp only [Hub.exec] at hexec
      split at hexec
      · cases hexec
        exact ht.stays rfl rfl rfl (hone (hnothing rfl))
      · rename_i hopen
        split at hexec <;> cases hexec
        · exact ht.stays rfl rfl rfl (hone (hnothing rfl))
        · refine ⟨Nat.le_succ _, ⟨?_, fun hclosed => absurd hclosed hopen⟩, ?_⟩
          · intro e he
            rcases List.mem_append.mp he with he | he
            · exact Nat.lt_succ_of_lt (ht.table e he)
            · rw [List.mem_singleton.mp he]
              exact Nat.lt_succ_self _
          · intro y hy a ha
            rw [List.mem_singleton.mp hy] at ha
            rw [List.mem_singleton.mp ha]
            exact Nat.lt_succ_self _
  | lease w a round =>
      simp only [Hub.exec] at hexec
      split at hexec <;> cases hexec
      · exact ht.stays rfl rfl rfl (w.keeps_done false hkeeps)
      · exact ht.stays rfl rfl rfl (hone hkeeps)
  | check w a round epoch =>
      simp only [Hub.exec] at hexec
      repeat' split at hexec
      all_goals cases hexec
      · exact ht.stays rfl rfl rfl (w.keeps_done false hkeeps)
      · exact ht.stays rfl rfl rfl (w.keeps_done true hkeeps)
      · exact ht.stays rfl rfl rfl (hone hkeeps)
  | watch w a round epoch =>
      cases hexec
      exact ht.stays rfl rfl rfl (hone hkeeps)
  | subscribe w a round epoch =>
      simp only [Hub.exec] at hexec
      split at hexec <;>
      · cases hexec
        exact ht.stays rfl rfl rfl (hone hkeeps)
  | invalid w a =>
      cases hexec
      exact ht.stays rfl rfl rfl (w.keeps_done _ hkeeps)
  | commit w a round epoch handle =>
      simp only [Hub.exec] at hexec
      repeat' split at hexec
      all_goals cases hexec
      · refine ht.stays rfl rfl rfl ?_
        intro y hy
        rcases List.mem_cons.mp hy with rfl | hy
        · exact hnothing rfl
        · exact w.keeps_done false hkeeps y hy
      · exact ht.stays rfl rfl rfl (hone hkeeps)
      · exact ht.stays rfl rfl rfl (hone hkeeps)
  | recheck w a round epoch old =>
      cases hexec
      refine ht.stays rfl rfl rfl ?_
      intro y hy
      rcases List.mem_append.mp hy with hy | hy
      · obtain ⟨handle, -, rfl⟩ := List.mem_map.mp hy
        exact hnothing rfl
      · split at hy
        · exact w.keeps_done true hkeeps y hy
        · rw [List.mem_singleton.mp hy]
          exact hkeeps
  -- a failed bind may take its entry off the table; the address stays in use
  | undo k key id a =>
      cases hexec
      split
      · refine ⟨Nat.le_refl _, ⟨fun e he => ht.table e (List.mem_filter.mp he).1, ?_⟩, hone (hnothing rfl)⟩
        intro hclosed
        show h.up.filter _ = []
        rw [ht.closed hclosed, List.filter_nil]
      · exact ht.stays rfl rfl rfl (hone (hnothing rfl))
  | destroy | retire | removeEverywhere =>
      cases hexec
      exact ht.stays rfl rfl rfl hnil
  | remove key id =>
      simp only [Hub.exec] at hexec
      split at hexec <;>
      · cases hexec
        exact ht.stays rfl rfl rfl hnil
  | rebind m =>
      cases hexec
      refine ht.stays rfl rfl rfl ?_
      split
      · exact hnil
      · apply keeps_rebindNext
        intro b hb
        obtain ⟨key, hmem, -⟩ := Hub.mem_ofModule.mp hb
        exact ht.table _ hmem
  | status m epoch gone =>
      simp only [Hub.exec] at hexec
      split at hexec <;> cases hexec
      · exact ht.stays rfl rfl rfl hnil
      · refine ht.stays rfl rfl rfl ?_
        split
        · exact hone (hnothing rfl)
        · exact hnil
  | moduleLost m why =>
      cases hexec
      refine ht.stays rfl rfl rfl fun y hy => ?_
      obtain ⟨a, -, rfl⟩ := List.mem_map.mp hy
      exact hnothing rfl
  | lost key why =>
      simp only [Hub.exec] at hexec
      split at hexec <;> cases hexec
      · exact ht.stays rfl rfl rfl hnil
      · refine ht.stays rfl rfl rfl fun y hy => ?_
        obtain ⟨id, -, rfl⟩ := List.mem_map.mp hy
        exact hnothing rfl
  | deliver a payload =>
      cases hexec
      refine ht.stays rfl rfl rfl ?_
      split
      · exact hnil
      · exact hone hkeeps
  | deliverTo a payload ids =>
      cases hexec
      refine ht.stays rfl rfl rfl fun y hy => ?_
      obtain ⟨id, -, rfl⟩ := List.mem_map.mp hy
      exact hnothing rfl
  | added | onLost | sink => cases hexec

/-! ## Frees

Freeing an entry is the one step outside the hub that destroys a handle. -/

/-- A freed entry takes its handle with it, and nothing else. -/
theorem Held.freed {p : Multiset (Pc Nat)} {a : Nat} (hh : Held h p) (ha : a < h.made) :
    Held (h.free a) p := by
  unfold Hub.free
  cases hhandle : (h.heap a).handle with
  | none => exact hh
  | some handle =>
      dsimp only
      have hheap : ∀ b, (((h.destroyed handle).setUp a { h.heap a with handle := none }).heap b).handle =
          if b = a then none else (h.heap b).handle := by
        intro b
        show (Function.update h.heap a _ b).handle = _
        by_cases hb : b = a
        · rw [hb, Function.update_self, if_pos rfl]
        · rw [Function.update_of_ne hb, if_neg hb]
      -- the handle is destroyed, and the others stay
      have hold : ∀ e ∈ h.handles.filter (fun e => e.1 != handle), e ∈ h.handles ∧ e.1 ≠ handle := by
        intro e he
        obtain ⟨he, hne⟩ := List.mem_filter.mp he
        exact ⟨he, bne_iff_ne.mp hne⟩
      refine ⟨fun e he => hh.fresh e (hold e he).1, hh.unissued,
        hh.nodup.sublist (List.filter_sublist.map _), ?_, ?_, ?_⟩
      · intro e he
        obtain ⟨he, hne⟩ := hold e he
        have honce := hh.once e he
        rw [hheap]
        by_cases hea : e.2 = a
        · rw [hea, hhandle, if_neg fun heq => hne (Option.some.inj heq).symm] at honce
          rw [if_pos hea, if_neg fun heq => by cases heq]
          exact honce
        · rw [if_neg hea]
          exact honce
      · intro b hb i hheld
        rw [hheap] at hheld
        split at hheld
        · cases hheld
        · rename_i hba
          have hmem := hh.entry b hb i hheld
          refine List.mem_filter.mpr ⟨hmem, bne_iff_ne.mpr ?_⟩
          rintro rfl
          exact hba (hh.address_eq hmem (hh.entry a ha i hhandle))
      · intro w b round epoch i hmem
        have hin := hh.commit w b round epoch i hmem
        refine List.mem_filter.mpr ⟨hin, bne_iff_ne.mpr ?_⟩
        rintro rfl
        have honce : (if (h.heap a).handle = some i then 1 else 0) + carried Pc.owns i p = 1 :=
          hh.once _ (hh.entry a ha i hhandle)
        -- a handle of the entry is in no `commit`: it would be held twice
        have hpos : 0 < carried Pc.owns i p := carried_pos.mpr ⟨_, hmem, rfl⟩
        rw [if_pos hhandle] at honce
        omega

/-! ## Runs

In a quiet state no section has a handle in hand, so every handle is that of an entry; and an
entry that nobody holds has been freed. -/

/-- What holds after every section: the handles are held, and addresses are in use. -/
structure Stowed (sh : Clearing) (p : Multiset ClearPc) : Prop where
  held : Held sh.hub (p.filterMap ClearPc.hub?)
  tabled : Tabled sh.hub
  placed : ∀ x ∈ p, ∀ a ∈ x.keeps, a < sh.hub.made

variable {sh : Clearing} {p rest : Multiset ClearPc} {e : Effect Clearing ClearPc}

theorem filterMap_hub (l : List (Pc Nat)) :
    (↑(l.map ClearPc.hub) : Multiset ClearPc).filterMap ClearPc.hub? = ↑l := by
  rw [Multiset.filterMap_coe, List.filterMap_map]
  exact congrArg _ List.filterMap_some

/-- Nothing is done to the table or the handles, and no hub section comes of it. -/
theorem Stowed.of_same {x : ClearPc} (h : Stowed sh (x ::ₘ rest)) (next : List ClearPc)
    (hx : ∀ z, x.hub? = some z → z.owns = none) (hnext : next.filterMap ClearPc.hub? = [])
    (hkeeps : ∀ y ∈ next, ∀ a ∈ y.keeps, a < sh.hub.made) : Stowed sh (↑next + rest) := by
  refine ⟨?_, h.tabled, ?_⟩
  · have hrest : (↑next + rest : Multiset ClearPc).filterMap ClearPc.hub? =
        rest.filterMap ClearPc.hub? := by
      rw [Multiset.filterMap_add, Multiset.filterMap_coe, hnext, Multiset.coe_nil, zero_add]
    have hheld := h.held
    rw [filterMap_cons_toList] at hheld
    rw [hrest]
    cases hhub : x.hub? with
    | none => rwa [hhub, Option.toList_none, Multiset.coe_nil, zero_add] at hheld
    | some z =>
        rw [hhub, Option.toList_some, Multiset.coe_singleton, Multiset.singleton_add] at hheld
        have hdone : Held sh.hub (↑([] : List (Pc Nat)) + rest.filterMap ClearPc.hub?) :=
          hheld.idle (hx z hhub) fun y hy => by cases hy
        rwa [Multiset.coe_nil, zero_add] at hdone
  · intro y hy
    rcases Multiset.mem_add.mp hy with hy | hy
    · exact hkeeps y (Multiset.mem_coe.mp hy)
    · exact h.placed y (Multiset.mem_cons_of_mem hy)

/-- **Step**, of a section of the hub. -/
theorem Stowed.hub {x : Pc Nat} {valid : Bool} {h' : Hub} {next : List (Pc Nat)}
    (h : Stowed sh (.hub x ::ₘ rest)) (hexec : sh.hub.exec x valid = some (h', next)) :
    Stowed { sh with hub := h' } (↑(next.map ClearPc.hub) + rest) := by
  have hkeeps := h.placed _ (Multiset.mem_cons_self _ _)
  have hstays := Hub.exec_stays hexec h.tabled hkeeps
  have hheld := h.held
  rw [Multiset.filterMap_cons_some ClearPc.hub? _ _ (show (ClearPc.hub x).hub? = some x from rfl)] at hheld
  refine ⟨?_, hstays.tabled, ?_⟩
  · rw [Multiset.filterMap_add, filterMap_hub]
    exact Hub.exec_held hexec hheld hkeeps
  · intro y hy a ha
    rcases Multiset.mem_add.mp hy with hy | hy
    · obtain ⟨z, hz, rfl⟩ := List.mem_map.mp (Multiset.mem_coe.mp hy)
      exact hstays.next z hz a ha
    · exact Nat.lt_of_lt_of_le (h.placed y (Multiset.mem_cons_of_mem hy) a ha) hstays.made

theorem clearExec_hub {x : Pc Nat} {valid : Bool} (hx : x.returns = false) :
    clearExec sh (.hub x) valid = (sh.hub.exec x valid).map fun r =>
      { shared := { sh with hub := r.1 }, next := r.2.map .hub } := by
  cases x with
  | added | onLost | sink => cases hx
  | _ => rfl

/-- **Step.** -/
theorem Stowed.exec {x : ClearPc} {valid : Bool} (h : Stowed sh (x ::ₘ rest))
    (hexec : clearExec sh x valid = some e) : Stowed e.shared (e.made + rest) := by
  -- a section that is over held no handle
  have hover : x.hub? = none ∨ (∃ z, x = .hub z ∧ z.owns = none) →
      Stowed sh (({ shared := sh } : Effect Clearing ClearPc).made + rest) := by
    intro hx
    refine h.of_same [] ?_ rfl fun y hy => by cases hy
    intro z hz
    rcases hx with hnone | ⟨z', rfl, howns⟩
    · cases hnone.symm.trans hz
    · cases hz
      exact howns
  cases x with
  | hub x =>
      cases hx : x.returns with
      | true =>
          cases x with
          | added | onLost | sink =>
              cases hexec
              exact hover (.inr ⟨_, rfl, rfl⟩)
          | _ => cases hx
      | false =>
          rw [clearExec_hub hx] at hexec
          obtain ⟨r, hr, rfl⟩ := Option.map_eq_some_iff.mp hexec
          have hstep := h.hub hr
          rwa [Effect.made, List.flatten_nil, List.append_nil]
  | clear =>
      cases hexec
      have hsame := h.of_same [.bury (sh.hub.up.map (·.2))] (fun z hz => by cases hz) rfl ?_
      · refine ⟨?_, ⟨(fun e he => by cases he), fun _ => rfl⟩, hsame.placed⟩
        exact ⟨hsame.held.fresh, hsame.held.unissued, hsame.held.nodup, hsame.held.once,
          hsame.held.entry, hsame.held.commit⟩
      · intro y hy a ha
        rw [List.mem_singleton.mp hy] at ha
        obtain ⟨e, he, rfl⟩ := List.mem_map.mp ha
        exact h.tabled.table e he
  | bury dead =>
      have hdead := h.placed _ (Multiset.mem_cons_self _ _)
      cases dead with
      | nil =>
          cases hexec
          exact hover (.inl rfl)
      | cons a dead =>
          cases hexec
          apply h.of_same [.bury dead] (fun z hz => by cases hz) rfl
          intro y hy b hb
          rw [List.mem_singleton.mp hy] at hb
          exact hdead b (List.mem_cons_of_mem a hb)

theorem Stowed.entered (h : Stowed sh p) {x : Pc Nat} (hx : x.owns = none)
    (hkeeps : ∀ a ∈ x.keeps, a < sh.hub.made) : Stowed sh (.hub x ::ₘ p) := by
  refine ⟨?_, h.tabled, ?_⟩
  · rw [Multiset.filterMap_cons_some ClearPc.hub? _ _ (show (ClearPc.hub x).hub? = some x from rfl)]
    exact h.held.entered hx
  · intro y hy
    rcases Multiset.mem_cons.mp hy with rfl | hy
    · exact hkeeps
    · exact h.placed y hy

theorem Stowed.of_clients (h : Stowed sh p) (clients : Clients) (nextOp : Nat) :
    Stowed { hub := { sh.hub with clients }, nextOp } p :=
  ⟨h.held.of_clients clients, ⟨h.tabled.table, h.tabled.closed⟩, h.placed⟩

/-- **Step**, of an entry point. -/
theorem Stowed.enter {ev : ClearEntry} (h : Stowed sh p) (henter : clearEnter sh ev = some e) :
    Stowed e.shared (e.made + p) := by
  have hone : ∀ {sh' : Clearing} {q : Multiset ClearPc} {x : Pc Nat}, Stowed sh' q → x.owns = none →
      x.keeps = [] → Stowed sh' (.hub x ::ₘ q) := by
    intro sh' q x h' hx hkeeps
    apply h'.entered hx
    rw [hkeeps]
    intro a ha
    cases ha
  have hsame : ∀ nextOp, Stowed { sh with nextOp } p := fun nextOp => h.of_clients sh.hub.clients nextOp
  cases ev with
  | call ev =>
      cases ev with
      | deliver => cases henter
      | replace m =>
          cases henter
          have hreplaced := h.of_clients (sh.hub.clients.replace m) sh.nextOp
          have hrebind : Stowed _ (.hub (.rebind m) ::ₘ p) := hone hreplaced rfl rfl
          have hretire : Stowed _ (.hub (.retire m ((sh.hub.clients.replace m).epoch m)) ::ₘ
            .hub (.rebind m) ::ₘ p) := hone hrebind rfl rfl
          -- the two threads that a replacement starts
          have hmade : (↑([Pc.retire m ((sh.hub.clients.replace m).epoch m), Pc.rebind m].map ClearPc.hub) +
              p : Multiset ClearPc) = .hub (.retire m ((sh.hub.clients.replace m).epoch m)) ::ₘ
                .hub (.rebind m) ::ₘ p := by
            rw [List.map_cons, List.map_singleton, ← Multiset.cons_coe, Multiset.cons_add,
              Multiset.coe_singleton, Multiset.singleton_add]
          rw [← hmade] at hretire
          exact hretire
      | closeClients =>
          cases henter
          simpa [Effect.made] using h.of_clients { sh.hub.clients with closed := true } sh.nextOp
      | add | remove | removeEverywhere | rebind | status | moduleLost | lost =>
          cases henter
          exact hone (hsame _) rfl rfl
  | emit handle payload =>
      obtain ⟨a, ha, rfl⟩ := Option.map_eq_some_iff.mp henter
      apply h.entered rfl
      intro b hb
      rw [List.mem_singleton.mp hb]
      exact (h.held.fresh _ (List.mem_of_lookup ha)).2
  | clear =>
      cases henter
      rw [Effect.made, List.flatten_nil, List.append_nil, Multiset.coe_singleton,
        Multiset.singleton_add]
      refine ⟨?_, h.tabled, ?_⟩
      · rw [Multiset.filterMap_cons_none _ _ rfl]
        exact h.held
      · intro x hx
        rcases Multiset.mem_cons.mp hx with rfl | hx
        · intro a ha
          cases ha
        · exact h.placed x hx
  | free a =>
      simp only [clearEnter] at henter
      split at henter
      · rename_i ha
        cases henter
        rw [Effect.made, List.flatten_nil, List.append_nil, Multiset.coe_nil, zero_add]
        obtain ⟨hup, hmade, hclosed⟩ : (sh.hub.free a).up = sh.hub.up ∧
            (sh.hub.free a).made = sh.hub.made ∧ (sh.hub.free a).closed = sh.hub.closed := by
          unfold Hub.free
          split <;> exact ⟨rfl, rfl, rfl⟩
        refine ⟨h.held.freed ha, ⟨?_, ?_⟩, ?_⟩
        · rw [hup, hmade]
          exact h.tabled.table
        · rw [hup, hclosed]
          exact h.tabled.closed
        · rw [hmade]
          exact h.placed
      · cases henter

/-! ### Every run -/

/-- **Run.** -/
theorem stowed_of_run {s : State Clearing ClearPc} (h : Run clearing counted clearingStart s) :
    Stowed s.shared s.pending := by
  apply Run.invariant (I := Stowed) _ _ _ h
  · refine ⟨⟨?_, ?_, List.nodup_nil, ?_, ?_, ?_⟩, ⟨?_, ?_⟩, ?_⟩
    · exact fun e he => by cases he
    · exact fun y hy => absurd hy (Multiset.notMem_zero y)
    · exact fun e he => by cases he
    · exact fun a ha => absurd ha (Nat.not_lt_zero a)
    · exact fun w a round epoch handle hmem => absurd hmem (Multiset.notMem_zero _)
    · exact fun e he => by cases he
    · exact fun hclosed => by cases hclosed
    · exact fun x hx => absurd hx (Multiset.notMem_zero x)
  · exact fun hI _ hexec => hI.exec hexec
  · exact fun hI _ henter => hI.enter henter

/-- **Where the handles are**, once nothing is in progress and every entry that nobody holds is
freed. -/
theorem handles_of_run {s : State Clearing ClearPc} (h : Run clearing counted clearingStart s)
    (hquiet : s.pending = 0)
    (hfreed : ∀ a < s.shared.hub.made, counted.enter s.shared s.pending (.free a) →
      (s.shared.hub.heap a).handle = none) :
    (∀ e ∈ s.shared.hub.handles, (s.shared.hub.heap e.2).handle = some e.1 ∧
      ∃ key, (key, e.2) ∈ s.shared.hub.up) ∧
    (s.shared.hub.handles.map (·.2)).Nodup ∧
    (s.shared.hub.closed = true → s.shared.hub.handles = []) := by
  have hI := stowed_of_run h
  have howned : ∀ e ∈ s.shared.hub.handles, (s.shared.hub.heap e.2).handle = some e.1 := by
    intro e he
    have honce := hI.held.once e he
    rw [hquiet, Multiset.filterMap_zero, carried_zero, add_zero] at honce
    by_contra hnot
    rw [if_neg hnot] at honce
    cases honce
  have htabled : ∀ e ∈ s.shared.hub.handles, ∃ key, (key, e.2) ∈ s.shared.hub.up := by
    intro e he
    by_contra hnot
    -- an entry that is not in the table is held by nobody, and so it was freed
    have hnone := hfreed e.2 (hI.held.fresh e he).2 fun a ha => by
      cases ha
      refine ⟨fun e' he' heq => hnot ⟨e'.1, heq ▸ he'⟩, fun x hx => ?_⟩
      rw [hquiet] at hx
      cases Multiset.notMem_zero x hx
    cases hnone.symm.trans (howned e he)
  refine ⟨fun e he => ⟨howned e he, htabled e he⟩, ?_, ?_⟩
  · apply List.Nodup.map_on _ (List.Nodup.of_map _ hI.held.nodup)
    intro e he e' he' heq
    have hsame := howned e he
    rw [heq, howned e' he'] at hsame
    exact Prod.ext (Option.some.inj hsame).symm heq
  · intro hclosed
    rw [List.eq_nil_iff_forall_not_mem]
    intro e he
    obtain ⟨key, hmem⟩ := htabled e he
    rw [hI.tabled.closed hclosed] at hmem
    cases hmem

/-- An event of `m` is subscribed to, the client replaced, and the hub cleared while the entry is
bound to the new one: both handles outlive `clear`, and go when the bind is over. -/
def clearedRun : List (Move Bool ClearEntry) :=
  [.enter (.call (.add ⟨str "m", str "e"⟩ 1)), .run 0 true, .run 0 true, .run 0 true, .run 0 true,
   .run 0 true, .run 0 true, .run 0 true, .run 0 true,
   .enter (.call (.replace (str "m"))), .run 1 true, .run 1 true, .run 1 true, .run 1 true,
   .run 1 true, .run 1 true,
   .enter .clear, .run 2 true, .run 2 true, .run 2 true,
   .run 1 true, .run 1 true, .enter (.free 0)]

theorem handles_of_run_cleared : ∃ s, Run clearing counted clearingStart s ∧
    s.shared.hub.issued = 2 ∧ s.shared.hub.handles = [] := by
  have hrun : (clearing.replayUnder counted clearingStart clearedRun).map (fun s =>
      (s.shared.hub.issued, s.threads.flatten.length, s.shared.hub.made, (s.shared.hub.heap 0).handle,
        s.shared.hub.closed)) = some (2, 0, 1, none, true) := by
    decide +kernel
  obtain ⟨s, hs, heq⟩ := Option.map_eq_some_iff.mp hrun
  simp only [Prod.mk.injEq] at heq
  obtain ⟨hissued, hquiet, hmade, hfreed, hclosed⟩ := heq
  have hreached := Run.start.replayUnder hs
  refine ⟨s, hreached, hissued, (handles_of_run hreached ?_ ?_).2.2 hclosed⟩
  · rw [State.pending, List.length_eq_zero_iff.mp hquiet, Multiset.coe_nil]
  · intro a ha _
    rw [hmade] at ha
    rwa [Nat.lt_one_iff.mp ha]

end JsonRpcBridge.Upstream
