import JsonRpcBridge.Upstream.Registry
import Mathlib.Tactic.Abel

/-!
# The books of the registry

Ownership of a client moves between its slot, the threads that use it, a posted job and
`m_unreleased`. `Inv` keeps the books of it: who holds the references `refs` counts, whose calls
`inFlight` counts, who owns a box, where each call stands. Here they are kept through what the
registry does to its slots: making one, retiring one, sweeping, closing.
-/

namespace JsonRpcBridge.Upstream.Registry

open Interleaving

variable {sh sh' : Shared} {p others : Multiset Pc}

/-! ## Epochs

Slots are numbered as they are made, and the epochs of one module follow that order. -/

/-- A module's current slot is its newest one and the only one not retired. -/
structure Epochs (sh : Shared) : Prop where
  current : ∀ m md k, sh.modules m = some md → md.current = some k →
    k < sh.made ∧ (sh.slots k).module = m ∧ (sh.slots k).epoch = md.lastEpoch ∧
      (sh.slots k).retired = false
  filed : ∀ k, k < sh.made → ∃ md, sh.modules (sh.slots k).module = some md ∧
    (sh.slots k).epoch ≤ md.lastEpoch ∧ ((sh.slots k).retired = false → md.current = some k)
  increasing : ∀ i j, i < j → j < sh.made → (sh.slots i).module = (sh.slots j).module →
    (sh.slots i).epoch < (sh.slots j).epoch

/-- What `Epochs` reads of a slot and of a module. -/
def Slot.place (s : Slot) : Bytes × Nat × Bool := (s.module, s.epoch, s.retired)

def Module.place (md : Module) : Option Nat × Nat := (md.current, md.lastEpoch)

theorem Epochs.of_same (hE : Epochs sh) (hmade : sh'.made = sh.made)
    (hslots : ∀ k, (sh'.slots k).place = (sh.slots k).place)
    (hmodules : ∀ m, (sh'.modules m).map Module.place = (sh.modules m).map Module.place) :
    Epochs sh' := by
  have hslot : ∀ k, (sh'.slots k).module = (sh.slots k).module ∧
      (sh'.slots k).epoch = (sh.slots k).epoch ∧ (sh'.slots k).retired = (sh.slots k).retired := by
    intro k
    simpa [Slot.place] using hslots k
  refine ⟨fun m md k hm hk => ?_, fun k hk => ?_, fun i j hij hj hmodule => ?_⟩
  · have hplace := hmodules m
    rw [hm] at hplace
    obtain ⟨md', hm', heq⟩ := Option.map_eq_some_iff.mp hplace.symm
    obtain ⟨hcurrent, hlast⟩ := Prod.mk.inj heq
    rw [hmade, (hslot k).1, (hslot k).2.1, (hslot k).2.2, ← hlast]
    exact hE.current m md' k hm' (hcurrent.trans hk)
  · obtain ⟨md, hmd, hle, hretired⟩ := hE.filed k (hmade ▸ hk)
    have hplace := hmodules (sh.slots k).module
    rw [hmd] at hplace
    obtain ⟨md', hm', heq⟩ := Option.map_eq_some_iff.mp hplace
    obtain ⟨hcurrent, hlast⟩ := Prod.mk.inj heq
    rw [(hslot k).1, (hslot k).2.1, (hslot k).2.2]
    exact ⟨md', hm', hlast ▸ hle, fun h => hcurrent.trans (hretired h)⟩
  · rw [(hslot i).2.1, (hslot j).2.1]
    refine hE.increasing i j hij (hmade ▸ hj) ?_
    rw [← (hslot i).1, ← (hslot j).1]
    exact hmodule

/-- A new slot becomes current, and the one it replaces is retired. -/
theorem Epochs.of_made (hE : Epochs sh) {m : Bytes} {md new : Module}
    (hmd : sh.modules m = some md ∨ sh.modules m = none ∧ md.current = none)
    (hnew : new.place = (some sh.made, md.lastEpoch + 1)) (hmade : sh'.made = sh.made + 1)
    (hmodules : sh'.modules = Function.update sh.modules m (some new))
    (hslot : (sh'.slots sh.made).place = (m, md.lastEpoch + 1, false))
    (hslots : ∀ k, k < sh.made → (sh'.slots k).module = (sh.slots k).module ∧
      (sh'.slots k).epoch = (sh.slots k).epoch ∧
      (sh'.slots k).retired = ((sh.slots k).retired || md.current == some k)) :
    Epochs sh' := by
  obtain ⟨hcurrent, hlast⟩ := Prod.mk.inj hnew
  obtain ⟨hmodule, hslot⟩ := Prod.mk.inj hslot
  obtain ⟨hepoch, hretired⟩ := Prod.mk.inj hslot
  -- what is filed under the module is filed under `md`
  have hof : ∀ md', sh.modules m = some md' → md' = md := by
    intro md' hmd'
    rcases hmd with hsome | ⟨hnone, -⟩
    · exact Option.some.inj (hmd'.symm.trans hsome)
    · cases hmd'.symm.trans hnone
  have hle : ∀ k, k < sh.made → (sh.slots k).module = m → (sh.slots k).epoch ≤ md.lastEpoch ∧
      ((sh.slots k).retired = false → md.current = some k) := by
    intro k hk hkm
    obtain ⟨md', hmd', hle, hret⟩ := hE.filed k hk
    rw [hkm] at hmd'
    obtain rfl := hof md' hmd'
    exact ⟨hle, hret⟩
  refine ⟨fun m' md' k hm' hk => ?_, fun k hk => ?_, fun i j hij hj hsame => ?_⟩
  -- the module that is replaced in, and all others
  · rw [hmodules] at hm'
    by_cases hmm : m' = m
    · subst hmm
      rw [Function.update_self, Option.some.injEq] at hm'
      subst hm'
      obtain rfl : sh.made = k := Option.some.inj (hcurrent.symm.trans hk)
      exact ⟨by omega, hmodule, hepoch.trans hlast.symm, hretired⟩
    · rw [Function.update_of_ne hmm] at hm'
      obtain ⟨hlt, hkm, hke, hkr⟩ := hE.current m' md' k hm' hk
      obtain ⟨hkm', hke', hkr'⟩ := hslots k hlt
      refine ⟨by omega, hkm'.trans hkm, hke'.trans hke, ?_⟩
      have hne : md.current ≠ some k := by
        intro hcur
        rcases hmd with hsome | ⟨-, hnone⟩
        · exact hmm (hkm.symm.trans (hE.current m md k hsome hcur).2.1)
        · cases hcur.symm.trans hnone
      rw [hkr', hkr]
      simpa using hne
  · by_cases hkmade : k = sh.made
    · subst hkmade
      refine ⟨new, ?_, le_of_eq (hepoch.trans hlast.symm), fun _ => hcurrent⟩
      rw [hmodules, hmodule, Function.update_self]
    · obtain ⟨hkm', hke', hkr'⟩ := hslots k (by omega)
      rw [hmodules, hkm']
      by_cases hmm : (sh.slots k).module = m
      · obtain ⟨hkle, hkret⟩ := hle k (by omega) hmm
        refine ⟨new, by rw [hmm, Function.update_self], by omega, fun hfalse => ?_⟩
        rw [hkr', Bool.or_eq_false_iff] at hfalse
        rw [hkret hfalse.1] at hfalse
        simp at hfalse
      · obtain ⟨md', hmd', hkle, hkret⟩ := hE.filed k (by omega)
        refine ⟨md', by rw [Function.update_of_ne hmm, hmd'], by omega, fun hfalse => ?_⟩
        rw [hkr', Bool.or_eq_false_iff] at hfalse
        exact hkret hfalse.1
  · by_cases hjmade : j = sh.made
    · subst hjmade
      obtain ⟨him, hie, -⟩ := hslots i hij
      rw [him, hmodule] at hsame
      rw [hie, hepoch]
      exact Nat.lt_succ_of_le (hle i hij hsame).1
    · obtain ⟨him, hie, -⟩ := hslots i (by omega)
      obtain ⟨hjm, hje, -⟩ := hslots j (by omega)
      rw [hie, hje]
      exact hE.increasing i j hij (by omega) (him.symm.trans (hsame.trans hjm))

/-! ## The books

Each counter of the registry is held against what the sections carry: `refs` against the
references in hand, `inFlight` against the calls under way, the owners of a box against who is to
let go of it. -/

/-- The call a section is about. -/
def Pc.call? : Pc → Option Nat
  | .invoke _ call | .submit _ call | .finished _ call .. | .done _ call .. => some call
  | _ => none

/-- The client a call was started on whose answer the registry has not taken. -/
def Pc.flying : Pc → Option Nat
  | .submit k _ | .finished k .. => some k
  | _ => none

/-- The call whose callback is running. -/
def Pc.answering? : Pc → Option Nat
  | .finished _ call .. | .done _ call .. => some call
  | _ => none

/-- The box a section owns. -/
def Pc.owns : Pc → Option Nat
  | .release _ b | .keep _ b | .dropBox _ b => some b
  | _ => none

/-- The box a section is to empty, with the client in it. -/
def Pc.empties : Pc → Option (Nat × Nat)
  | .release k b | .keep k b => some (k, b)
  | _ => none

/-- The number of calls of client `k` that were started and are not answered yet. -/
def outstanding (sh : Shared) (p : Multiset Pc) (k : Nat) : Nat :=
  carried Pc.flying k p + sh.waiting.countP fun w => w.2 == k

/-- A slot gives up its reference when the registry is closed, or once it is retired: with no call
left, or past its deadline. -/
structure Slots (sh : Shared) : Prop where
  fresh : ∀ k, sh.made ≤ k → sh.refs k = 0 ∧ sh.slots k = {}
  current : sh.closed = false → ∀ m md k, sh.modules m = some md → md.current = some k →
    (sh.slots k).client = true
  released : ∀ k, k < sh.made → (sh.slots k).client = false → sh.closed = true ∨
    (sh.slots k).retired = true ∧ ((sh.slots k).inFlight = 0 ∨ sh.expired k = true)
  retired : ∀ k, k ∈ sh.retired → k < sh.made ∧ (sh.slots k).retired = true
  nodup : sh.retired.Nodup

/-- A box is owned by the sections that are to drop it, and full until one of them empties it. -/
structure Boxes (sh : Shared) (p : Multiset Pc) : Prop where
  owners : ∀ b, (sh.boxes b).owners = carried Pc.owns b p
  full : ∀ b k, carried Pc.empties (k, b) p =
    if (sh.boxes b).full ∧ (sh.boxes b).client = k then 1 else 0
  fresh : ∀ b, sh.madeBoxes ≤ b → (sh.boxes b).owners = 0

/-- Every call is in one place: a thread has it, a client has taken it, or its `done` has run. -/
structure Calls (sh : Shared) (p : Multiset Pc) : Prop where
  once : ∀ c, carried Pc.call? c p + sh.waiting.countP (fun w => w.1 == c) + sh.done.count c =
    if c < sh.nextCall then 1 else 0
  answered : ∀ c, c ∈ sh.answered → 0 < carried Pc.answering? c p + sh.done.count c

/-! ### What a change leaves alone -/

theorem Boxes.of_same {q : Multiset Pc} (h : Boxes sh p) (hboxes : sh'.boxes = sh.boxes)
    (hmade : sh'.madeBoxes = sh.madeBoxes) (howns : ∀ b, carried Pc.owns b q = carried Pc.owns b p)
    (hempties : ∀ t, carried Pc.empties t q = carried Pc.empties t p) : Boxes sh' q where
  owners b := by rw [hboxes, howns]; exact h.owners b
  full b k := by rw [hboxes, hempties]; exact h.full b k
  fresh b hb := by rw [hboxes]; exact h.fresh b (hmade ▸ hb)

theorem Calls.of_same {q : Multiset Pc} (h : Calls sh p) (hwaiting : sh'.waiting = sh.waiting)
    (hdone : sh'.done = sh.done) (hnext : sh'.nextCall = sh.nextCall)
    (hanswered : sh'.answered = sh.answered)
    (hcall : ∀ c, carried Pc.call? c q = carried Pc.call? c p)
    (hanswering : ∀ c, carried Pc.answering? c p ≤ carried Pc.answering? c q) : Calls sh' q where
  once c := by rw [hcall, hwaiting, hdone, hnext]; exact h.once c
  answered c hc := by
    have hpos := h.answered c (hanswered ▸ hc)
    have hle := hanswering c
    rw [hdone]
    omega

/-- The books, all of them. -/
structure Inv (sh : Shared) (p : Multiset Pc) : Prop where
  epochs : Epochs sh
  slots : Slots sh
  refs : ∀ k, sh.refs k =
    (if (sh.slots k).client then 1 else 0) + sh.unreleased.count k + carried Pc.holds k p
  inFlight : ∀ k, (sh.slots k).inFlight = outstanding sh p k
  boxes : Boxes sh p
  calls : Calls sh p

/-! ## Sections that leave the books alone

Most steps replace a section by another one that carries the same. The books see what is carried
and not the sections, so such a step needs no more than that. -/

/-- The sections hold the same. -/
structure SameBooks (p q : Multiset Pc) : Prop where
  holds : ∀ k, carried Pc.holds k q = carried Pc.holds k p
  flying : ∀ k, carried Pc.flying k q = carried Pc.flying k p
  owns : ∀ b, carried Pc.owns b q = carried Pc.owns b p
  empties : ∀ t, carried Pc.empties t q = carried Pc.empties t p
  call? : ∀ c, carried Pc.call? c q = carried Pc.call? c p
  answering? : ∀ c, carried Pc.answering? c q = carried Pc.answering? c p

theorem Inv.of_sameBooks {q : Multiset Pc} (h : Inv sh p) (hq : SameBooks p q) : Inv sh q where
  epochs := h.epochs
  slots := h.slots
  refs k := by rw [hq.holds]; exact h.refs k
  inFlight k := by rw [h.inFlight k, outstanding, outstanding, hq.flying]
  boxes := h.boxes.of_same rfl rfl hq.owns hq.empties
  calls := h.calls.of_same rfl rfl rfl rfl hq.call? fun c => Nat.le_of_eq (hq.answering? c).symm

/-- A section that holds nothing. -/
structure Pc.Idle (x : Pc) : Prop where
  holds : x.holds = none
  flying : x.flying = none
  owns : x.owns = none
  empties : x.empties = none
  call? : x.call? = none
  answering? : x.answering? = none

theorem Pc.Idle.sameBooks {x : Pc} (hx : x.Idle) : SameBooks (x ::ₘ p) p where
  holds k := by simp [hx.holds]
  flying k := by simp [hx.flying]
  owns b := by simp [hx.owns]
  empties t := by simp [hx.empties]
  call? c := by simp [hx.call?]
  answering? c := by simp [hx.answering?]

theorem SameBooks.symm {q : Multiset Pc} (h : SameBooks p q) : SameBooks q p where
  holds k := (h.holds k).symm
  flying k := (h.flying k).symm
  owns b := (h.owns b).symm
  empties t := (h.empties t).symm
  call? c := (h.call? c).symm
  answering? c := (h.answering? c).symm

theorem Inv.idle {x : Pc} (hx : x.Idle) : Inv sh (x ::ₘ p) ↔ Inv sh p :=
  ⟨fun h => h.of_sameBooks hx.sameBooks, fun h => h.of_sameBooks hx.sameBooks.symm⟩

/-! ### The idle sections -/

theorem idle_get (m : Bytes) : (Pc.get m).Idle := ⟨rfl, rfl, rfl, rfl, rfl, rfl⟩
theorem idle_replace (m : Bytes) (epoch : Nat) : (Pc.replace m epoch).Idle :=
  ⟨rfl, rfl, rfl, rfl, rfl, rfl⟩
theorem idle_onReplaced (m : Bytes) (epoch : Nat) : (Pc.onReplaced m epoch).Idle :=
  ⟨rfl, rfl, rfl, rfl, rfl, rfl⟩
theorem idle_close : Pc.close.Idle := ⟨rfl, rfl, rfl, rfl, rfl, rfl⟩
theorem idle_postReplace (k : Nat) (m : Bytes) (epoch : Nat) : (Pc.postReplace k m epoch).Idle :=
  ⟨rfl, rfl, rfl, rfl, rfl, rfl⟩

/-! ## References

A reference that leaves a slot or `m_unreleased` goes to a section that will release it. -/

theorem carried_holds_drop (l : List Nat) (k : Nat) :
    carried Pc.holds k (↑(l.map Pc.drop) : Multiset Pc) = l.count k := by
  induction l with
  | nil => rfl
  | cons a l ih =>
      rw [List.map_cons, carried_coe_cons, ih, List.count_cons]
      simp [Pc.holds]

/-- Releases hold references and nothing else. -/
theorem sameBooks_drop {τ : Type} [DecidableEq τ] {f : Pc → Option τ} (hf : ∀ k, f (.drop k) = none)
    (l : List Nat) (t : τ) : carried f t (↑(l.map Pc.drop) : Multiset Pc) = 0 := by
  apply carried_of_forall
  intro x hx
  obtain ⟨k, -, rfl⟩ := List.mem_map.mp (Multiset.mem_coe.mp hx)
  simp [hf]

/-- References move from where the registry kept them to a thread that is to release them. -/
theorem Inv.drops {l : List Nat} (h : Inv sh p) (hE : Epochs sh') (hS : Slots sh')
    (hrefs : ∀ k, sh'.refs k = (if (sh'.slots k).client then 1 else 0) + sh'.unreleased.count k +
      (l.count k + carried Pc.holds k p))
    (hinFlight : ∀ k, (sh'.slots k).inFlight = (sh.slots k).inFlight)
    (hboxes : sh'.boxes = sh.boxes) (hmade : sh'.madeBoxes = sh.madeBoxes)
    (hwaiting : sh'.waiting = sh.waiting) (hdone : sh'.done = sh.done)
    (hcalls : sh'.nextCall = sh.nextCall) (hanswered : sh'.answered = sh.answered) :
    Inv sh' (↑(l.map Pc.drop) + p) where
  epochs := hE
  slots := hS
  refs k := by rw [carried_add, carried_holds_drop]; exact hrefs k
  inFlight k := by
    rw [hinFlight, h.inFlight, outstanding, outstanding, carried_add,
      sameBooks_drop (fun _ => rfl), zero_add, hwaiting]
  boxes := h.boxes.of_same hboxes hmade
    (fun b => by rw [carried_add, sameBooks_drop (fun _ => rfl), zero_add])
    (fun t => by rw [carried_add, sameBooks_drop (fun _ => rfl), zero_add])
  calls := h.calls.of_same hwaiting hdone hcalls hanswered
    (fun c => by rw [carried_add, sameBooks_drop (fun _ => rfl), zero_add])
    (fun c => by rw [carried_add, sameBooks_drop (fun _ => rfl), zero_add])

/-- **Sweep.** -/
theorem Inv.sweep (h : Inv sh p) :
    Inv sh.sweepLocked.1 (↑(sh.sweepLocked.2.map Pc.drop) + p) := by
  have hgone : ∀ k, k ∈ sh.retired.filter sh.expired ↔ k ∈ sh.retired ∧ sh.expired k = true :=
    fun k => List.mem_filter
  have hslot : ∀ k, (sh.sweepLocked.1.slots k).place = (sh.slots k).place ∧
      (sh.sweepLocked.1.slots k).inFlight = (sh.slots k).inFlight ∧
      sh.sweepLocked.1.expired k = sh.expired k := by
    intro k
    simp only [Shared.sweepLocked, Shared.expired]
    split <;> exact ⟨rfl, rfl, rfl⟩
  have hclient : ∀ k, (sh.sweepLocked.1.slots k).client =
      (decide (k ∉ sh.retired.filter sh.expired) && (sh.slots k).client) := by
    intro k
    simp only [Shared.sweepLocked]
    by_cases hk : k ∈ sh.retired.filter sh.expired <;> simp [hk]
  have hplace : ∀ k, (sh.sweepLocked.1.slots k).retired = (sh.slots k).retired := by
    intro k
    have := (hslot k).1
    simp only [Slot.place, Prod.mk.injEq] at this
    exact this.2.2
  refine h.drops (h.epochs.of_same rfl (fun k => (hslot k).1) fun m => rfl) ?_ (fun k => ?_)
    (fun k => (hslot k).2.1) rfl rfl rfl rfl rfl rfl
  · refine ⟨fun k hk => ?_, fun hc m md k hm hk => ?_, fun k hk hfalse => ?_, fun k hk => ?_, ?_⟩
    · obtain ⟨hrefs, hfresh⟩ := h.slots.fresh k hk
      refine ⟨hrefs, ?_⟩
      simp only [Shared.sweepLocked, hfresh, ite_self]
    · rw [hclient, h.slots.current hc m md k hm hk, Bool.and_true, decide_eq_true_iff, hgone]
      rintro ⟨hmem, -⟩
      have hret := (h.slots.retired k hmem).2
      rw [(h.epochs.current m md k hm hk).2.2.2] at hret
      cases hret
    · rw [hplace, (hslot k).2.1, (hslot k).2.2]
      rw [hclient] at hfalse
      -- a slot past its deadline gives its reference up, unless it already had
      by_cases hmem : k ∈ sh.retired.filter sh.expired
      · obtain ⟨hret, hexp⟩ := (hgone k).mp hmem
        exact .inr ⟨(h.slots.retired k hret).2, .inr hexp⟩
      · simp only [hmem, not_false_eq_true, decide_true, Bool.true_and] at hfalse
        exact h.slots.released k hk hfalse
    · rw [hplace]
      exact h.slots.retired k (List.mem_filter.mp hk).1
    · exact h.slots.nodup.filter _
  · show sh.refs k = _ + sh.unreleased.count k + _
    rw [h.refs k, hclient]
    have hcount : sh.sweepLocked.2.count k =
        if k ∈ sh.retired.filter sh.expired ∧ (sh.slots k).client = true then 1 else 0 := by
      have hnodup : sh.sweepLocked.2.Nodup := (h.slots.nodup.filter _).filter _
      have hmem : k ∈ sh.sweepLocked.2 ↔
          k ∈ sh.retired.filter sh.expired ∧ (sh.slots k).client = true := List.mem_filter
      by_cases hk : k ∈ sh.sweepLocked.2
      · rw [List.count_eq_one_of_mem hnodup hk, if_pos (hmem.mp hk)]
      · rw [List.count_eq_zero_of_not_mem hk, if_neg (fun hc => hk (hmem.mpr hc))]
    rw [hcount]
    by_cases hmem : k ∈ sh.retired.filter sh.expired
    · by_cases hc : (sh.slots k).client = true
      · simp only [hmem, hc, and_self, if_true, not_true_eq_false, decide_false, Bool.false_and,
          Bool.false_eq_true, if_false]
        omega
      · simp [hmem, hc]
    · simp [hmem]

/-! ## The current client

`currentLocked` and what is done with the client it returns. -/

/-- What `makeSlot` does to the slots. -/
theorem slots_makeSlot {m : Bytes} {md : Module} (k : Nat) : (sh.makeSlot m md).slots k =
    if k = sh.made then { module := m, client := true, epoch := md.lastEpoch + 1 }
    else sh.slots k := by
  by_cases hk : k = sh.made
  · subst hk
    simp [Shared.makeSlot, Shared.setRefs, Shared.setModule, Shared.setSlot]
  · simp [Shared.makeSlot, Shared.setRefs, Shared.setModule, Shared.setSlot, hk]

/-- **A new client.** -/
theorem Inv.makeSlot (h : Inv sh p) {m : Bytes} {md : Module}
    (hmd : sh.modules m = some md ∨ sh.modules m = none) (hnone : md.current = none) :
    Inv (sh.makeSlot m md) p := by
  have hslot : ∀ k, (sh.makeSlot m md).slots k = _ := fun k => slots_makeSlot k
  have hold : ∀ k, k < sh.made → (sh.makeSlot m md).slots k = sh.slots k := by
    intro k hk
    rw [hslot, if_neg (Nat.ne_of_lt hk)]
  have hnew : (sh.makeSlot m md).slots sh.made =
      { module := m, client := true, epoch := md.lastEpoch + 1 } := by
    rw [hslot, if_pos rfl]
  -- nothing was known of the number of the new slot
  obtain ⟨hrefs, hfresh⟩ := h.slots.fresh sh.made (Nat.le_refl _)
  refine ⟨?_, ⟨fun k hk => ?_, fun hc m' md' k hm' hk => ?_, fun k hk hfalse => ?_,
    fun k hk => ?_, h.slots.nodup⟩, fun k => ?_, fun k => ?_,
    ⟨h.boxes.owners, h.boxes.full, h.boxes.fresh⟩, ⟨h.calls.once, h.calls.answered⟩⟩
  · refine h.epochs.of_made (hmd.imp_right fun hm => ⟨hm, hnone⟩) rfl rfl rfl ?_ fun k hk => ?_
    · rw [hnew]
      rfl
    · rw [hold k hk, hnone]
      simp
  · have hk' : sh.made + 1 ≤ k := hk
    rw [hslot, if_neg (by omega)]
    refine ⟨?_, (h.slots.fresh k (by omega)).2⟩
    simp only [Shared.makeSlot, Shared.setRefs]
    rw [Function.update_of_ne (by omega)]
    exact (h.slots.fresh k (by omega)).1
  · rw [hslot]
    by_cases hkm : k = sh.made
    · rw [if_pos hkm]
    · rw [if_neg hkm]
      replace hm' : Function.update sh.modules m
        (some { md with current := some sh.made, lastEpoch := md.lastEpoch + 1 }) m' = some md' := hm'
      by_cases hmm : m' = m
      · subst hmm
        rw [Function.update_self, Option.some.injEq] at hm'
        subst hm'
        exact absurd (Option.some.inj hk).symm hkm
      · rw [Function.update_of_ne hmm] at hm'
        exact h.slots.current hc m' md' k hm' hk
  · by_cases hkm : k = sh.made
    · subst hkm
      rw [hnew] at hfalse
      cases hfalse
    · have hlt : k < sh.made := by
        have hk' : k < sh.made + 1 := hk
        omega
      rw [hold k hlt] at hfalse ⊢
      simp only [Shared.expired, hold k hlt]
      exact h.slots.released k hlt hfalse
  · obtain ⟨hlt, hret⟩ := h.slots.retired k hk
    rw [hold k hlt]
    exact ⟨Nat.lt_succ_of_lt hlt, hret⟩
  · show Function.update sh.refs sh.made 1 k = _ + sh.unreleased.count k + _
    by_cases hk : k = sh.made
    · subst hk
      -- its one reference is the slot's own
      have hzero := h.refs sh.made
      rw [hnew, Function.update_self, if_pos rfl]
      omega
    · rw [Function.update_of_ne hk, hslot, if_neg hk]
      exact h.refs k
  · rw [hslot]
    show _ = ((outstanding sh p k : Nat) : Int)
    by_cases hk : k = sh.made
    · subst hk
      rw [if_pos rfl, ← h.inFlight, hfresh]
    · rw [if_neg hk]
      exact h.inFlight k

/-- The module's current slot, made if need be. -/
theorem Inv.currentLocked (h : Inv sh p) (m : Bytes) :
    Inv (sh.currentLocked m).1 p ∧ (sh.currentLocked m).1.closed = sh.closed ∧
      ∃ md, (sh.currentLocked m).1.modules m = some md ∧
        md.current = some (sh.currentLocked m).2 := by
  unfold Shared.currentLocked
  cases hm : sh.modules m with
  | some md =>
      simp only [Option.getD_some]
      cases hcur : md.current with
      | some k => exact ⟨h, rfl, md, hm, hcur⟩
      | none => exact ⟨h.makeSlot (.inl hm) hcur, rfl, _, Function.update_self .., rfl⟩
  | none => exact ⟨h.makeSlot (.inr hm) rfl, rfl, _, Function.update_self .., rfl⟩

theorem Slots.setRefs (h : Slots sh) {k : Nat} (hk : k < sh.made) (n : Nat) :
    Slots (sh.setRefs k n) where
  fresh k' hk' := by
    have hne : k' ≠ k := by
      have hle : sh.made ≤ k' := hk'
      omega
    exact ⟨(Function.update_of_ne hne _ _).trans (h.fresh k' hk').1, (h.fresh k' hk').2⟩
  current := h.current
  released := h.released
  retired := h.retired
  nodup := h.nodup

/-- One reference more, in the hands of a thread. -/
theorem Inv.retain (h : Inv sh p) {k : Nat} (hk : k < sh.made) :
    Inv (sh.setRefs k (sh.refs k + 1)) (.drop k ::ₘ p) := by
  have hdrops : Inv (sh.setRefs k (sh.refs k + 1)) (↑([k].map Pc.drop) + p) := by
    refine h.drops (h.epochs.of_same rfl (fun _ => rfl) (fun _ => rfl)) (h.slots.setRefs hk _) ?_
      (fun _ => rfl) rfl rfl rfl rfl rfl rfl
    intro k'
    have hrefs := h.refs k'
    show Function.update sh.refs k (sh.refs k + 1) k' =
      (if (sh.slots k').client then 1 else 0) + sh.unreleased.count k' + _
    by_cases hkk : k' = k
    · subst hkk
      rw [Function.update_self, hrefs]
      simp only [List.count_singleton, beq_self_eq_true, if_true]
      omega
    · rw [Function.update_of_ne hkk, hrefs]
      simp [Ne.symm hkk]
  exact hdrops

/-! ### Calls in flight -/

/-- The slot's count of calls, and nothing else of it. -/
def Shared.setInFlight (sh : Shared) (k : Nat) (n : Int) : Shared :=
  sh.setSlot k { sh.slots k with inFlight := n }

theorem slots_setInFlight {k : Nat} {n : Int} (k' : Nat) : (sh.setInFlight k n).slots k' =
    { sh.slots k' with inFlight := if k' = k then n else (sh.slots k').inFlight } := by
  by_cases hkk : k' = k
  · subst hkk
    simp [Shared.setInFlight, Shared.setSlot]
  · simp [Shared.setInFlight, Shared.setSlot, hkk]

theorem Epochs.setInFlight (h : Epochs sh) (k : Nat) (n : Int) : Epochs (sh.setInFlight k n) :=
  h.of_same rfl (fun k' => by rw [slots_setInFlight]; rfl) (fun _ => rfl)

theorem Slots.setInFlight (h : Slots sh) {k : Nat} (hk : k < sh.made) {n : Int}
    (hn : (sh.slots k).client = false → sh.closed = true ∨
      (sh.slots k).retired = true ∧ (n = 0 ∨ sh.expired k = true)) : Slots (sh.setInFlight k n) where
  fresh k' hk' := by
    have hne : k' ≠ k := by
      have hle : sh.made ≤ k' := hk'
      omega
    refine ⟨(h.fresh k' hk').1, ?_⟩
    rw [slots_setInFlight, if_neg hne]
    exact (h.fresh k' hk').2
  current hc m md k' hm hk' := by
    rw [slots_setInFlight]
    exact h.current hc m md k' hm hk'
  released k' hk' hfalse := by
    simp only [Shared.expired, slots_setInFlight] at hfalse ⊢
    by_cases hkk : k' = k
    · subst hkk
      rw [if_pos rfl]
      exact hn hfalse
    · rw [if_neg hkk]
      exact h.released k' hk' hfalse
  retired k' hk' := by
    rw [slots_setInFlight]
    exact h.retired k' hk'
  nodup := h.nodup

/-- **A call starts**, on a client that its slot holds. -/
theorem Inv.startCall {m : Bytes} {c k : Nat} (h : Inv sh (.invoke m c ::ₘ p)) (hk : k < sh.made)
    (hclient : (sh.slots k).client = true) :
    Inv ((sh.setInFlight k ((sh.slots k).inFlight + 1)).setRefs k (sh.refs k + 1))
      (.submit k c ::ₘ p) := by
  refine ⟨(h.epochs.setInFlight k _).of_same rfl (fun _ => rfl) (fun _ => rfl),
    (h.slots.setInFlight hk fun hfalse => nomatch hclient.symm.trans hfalse).setRefs hk _,
    fun k' => ?_, fun k' => ?_, h.boxes.of_same rfl rfl (fun b => ?_) fun t => ?_,
    h.calls.of_same rfl rfl rfl rfl (fun c' => ?_) fun c' => ?_⟩
  · have hrefs := h.refs k'
    rw [carried_cons_of_none rfl] at hrefs
    simp only [carried_cons, Pc.holds, Option.some.injEq]
    show Function.update sh.refs k (sh.refs k + 1) k' =
      (if ((sh.setInFlight k ((sh.slots k).inFlight + 1)).slots k').client then 1 else 0) +
        sh.unreleased.count k' + _
    rw [slots_setInFlight]
    show _ = (if (sh.slots k').client then 1 else 0) + _ + _
    by_cases hkk : k' = k
    · subst hkk
      rw [Function.update_self, if_pos rfl, hrefs]
      exact Nat.add_assoc _ _ _
    · rw [Function.update_of_ne hkk, if_neg (Ne.symm hkk)]
      exact hrefs
  · have hflying := h.inFlight k'
    rw [outstanding, carried_cons_of_none rfl] at hflying
    simp only [outstanding, carried_cons, Pc.flying, Option.some.injEq]
    show ((sh.setInFlight k ((sh.slots k).inFlight + 1)).slots k').inFlight = _
    rw [slots_setInFlight]
    show (if k' = k then _ else _) = ((_ + sh.waiting.countP (fun w => w.2 == k') : Nat) : Int)
    by_cases hkk : k' = k
    · subst hkk
      rw [if_pos rfl, if_pos rfl, hflying]
      omega
    · rw [if_neg hkk, if_neg (Ne.symm hkk)]
      exact hflying
  · rw [carried_cons_of_none rfl, carried_cons_of_none rfl]
  · rw [carried_cons_of_none rfl, carried_cons_of_none rfl]
  · rw [carried_cons, carried_cons]
    rfl
  · rw [carried_cons_of_none rfl, carried_cons_of_none rfl]

/-! ## Replacement and close

Both take slots out of use: one slot, whose client waits for its calls, or all of them at once. -/

theorem slots_replaceSlot {m : Bytes} {md : Module} {old : Nat} (hold : old < sh.made) (k : Nat) :
    (sh.replaceSlot m md old).slots k =
      if k = old then { sh.slots old with
        retired := true, retiredAt := sh.now
        client := (sh.slots old).client && !((sh.slots old).inFlight == 0) }
      else if k = sh.made then { module := m, client := true, epoch := md.lastEpoch + 1 }
      else sh.slots k := by
  have hne : old ≠ sh.made := by omega
  simp only [Shared.replaceSlot, Shared.setSlot, slots_makeSlot, if_neg hne]
  by_cases hk : k = old
  · subst hk
    rw [Function.update_self, if_pos rfl]
    rfl
  · rw [Function.update_of_ne hk, if_neg hk, slots_makeSlot]

/-- **A replacement.** -/
theorem Inv.replaceSlot (h : Inv sh p) {m : Bytes} {md : Module} {old : Nat}
    (hmd : sh.modules m = some md) (hcur : md.current = some old) (hopen : sh.closed = false) :
    Inv (sh.replaceSlot m md old)
      (↑((if (sh.slots old).inFlight = 0 then [old] else []).map Pc.drop) + p) := by
  obtain ⟨hlt, hmodule, hepoch, hretired⟩ := h.epochs.current m md old hmd hcur
  have hclient := h.slots.current hopen m md old hmd hcur
  have hslot : ∀ k, (sh.replaceSlot m md old).slots k = _ := fun k => slots_replaceSlot hlt k
  have hretiredList : ∀ k, k ∈ (sh.replaceSlot m md old).retired → k ∈ sh.retired ∨ k = old := by
    intro k hk
    simp only [Shared.replaceSlot] at hk
    split at hk
    · exact .inl hk
    · exact (List.mem_append.mp hk).imp_right List.mem_singleton.mp
  have hnot : old ∉ sh.retired := by
    intro hmem
    cases hretired.symm.trans (h.slots.retired old hmem).2
  refine h.drops ?_ ⟨fun k hk => ?_, fun hc m' md' k hm' hk => ?_, fun k hk hfalse => ?_,
    fun k hk => ?_, ?_⟩ (fun k => ?_) (fun k => ?_) rfl rfl rfl rfl rfl rfl
  · refine h.epochs.of_made (.inl hmd) rfl rfl rfl ?_ fun k hk => ?_
    · rw [hslot, if_neg (by omega), if_pos rfl]
      rfl
    · rw [hslot, if_neg (show ¬k = sh.made by omega)]
      by_cases hko : k = old
      · subst hko
        rw [if_pos rfl, hcur]
        simp
      · rw [if_neg hko, hcur]
        simp [Ne.symm hko]
  · have hk' : sh.made + 1 ≤ k := hk
    rw [hslot, if_neg (by omega), if_neg (by omega)]
    refine ⟨?_, (h.slots.fresh k (by omega)).2⟩
    show Function.update sh.refs sh.made 1 k = 0
    rw [Function.update_of_ne (by omega)]
    exact (h.slots.fresh k (by omega)).1
  · rw [hslot]
    replace hm' : Function.update sh.modules m
      (some { md with current := some sh.made, lastEpoch := md.lastEpoch + 1 }) m' = some md' := hm'
    by_cases hmm : m' = m
    · subst hmm
      rw [Function.update_self, Option.some.injEq] at hm'
      subst hm'
      obtain rfl : sh.made = k := Option.some.inj hk
      rw [if_neg (by omega), if_pos rfl]
    · rw [Function.update_of_ne hmm] at hm'
      obtain ⟨hklt, hkm, -⟩ := h.epochs.current m' md' k hm' hk
      have hko : k ≠ old := by
        rintro rfl
        exact hmm (hkm.symm.trans hmodule)
      rw [if_neg hko, if_neg (by omega)]
      exact h.slots.current hopen m' md' k hm' hk
  · have hk' : k < sh.made + 1 := hk
    simp only [Shared.expired, hslot] at hfalse ⊢
    by_cases hko : k = old
    · subst hko
      rw [if_pos rfl] at hfalse ⊢
      rw [hclient] at hfalse
      exact .inr ⟨rfl, .inl (by simpa using hfalse)⟩
    · rw [if_neg hko] at hfalse ⊢
      by_cases hkm : k = sh.made
      · rw [if_pos hkm] at hfalse
        cases hfalse
      · rw [if_neg hkm] at hfalse ⊢
        exact h.slots.released k (by omega) hfalse
  · rw [hslot]
    rcases hretiredList k hk with hmem | rfl
    · obtain ⟨hklt, hret⟩ := h.slots.retired k hmem
      have hko : k ≠ old := fun heq => hnot (heq ▸ hmem)
      rw [if_neg hko, if_neg (by omega)]
      exact ⟨Nat.lt_succ_of_lt hklt, hret⟩
    · rw [if_pos rfl]
      exact ⟨Nat.lt_succ_of_lt hlt, rfl⟩
  · simp only [Shared.replaceSlot]
    split
    · exact h.slots.nodup
    · refine List.nodup_append.mpr ⟨h.slots.nodup, by simp, ?_⟩
      intro a ha b hb heq
      obtain rfl := List.mem_singleton.mp hb
      exact hnot (heq ▸ ha)
  -- an idle client is released at once, a busy one stays in its slot
  · show Function.update sh.refs sh.made 1 k = _ + sh.unreleased.count k + _
    rw [hslot]
    have hrefs := h.refs k
    by_cases hko : k = old
    · subst hko
      rw [hclient, if_pos rfl] at hrefs
      rw [Function.update_of_ne (by omega), if_pos rfl, hrefs, hclient]
      by_cases hidle : (sh.slots k).inFlight = 0
      · simp only [hidle, beq_self_eq_true, Bool.not_true, Bool.and_false, Bool.false_eq_true,
          if_false, if_true, List.count_singleton]
        omega
      · simp [hidle]
    · rw [if_neg hko]
      have hcount : (if (sh.slots old).inFlight = 0 then [old] else []).count k = 0 := by
        split <;> simp [Ne.symm hko]
      rw [hcount]
      by_cases hkm : k = sh.made
      · subst hkm
        obtain ⟨hzero, hfresh⟩ := h.slots.fresh sh.made (Nat.le_refl _)
        rw [Function.update_self, if_pos rfl, if_pos rfl]
        omega
      · rw [Function.update_of_ne hkm, if_neg hkm]
        omega
  · rw [hslot]
    by_cases hko : k = old
    · subst hko
      rw [if_pos rfl]
    · rw [if_neg hko]
      by_cases hkm : k = sh.made
      · subst hkm
        rw [if_pos rfl, (h.slots.fresh sh.made (Nat.le_refl _)).2]
      · rw [if_neg hkm]

/-- **Close.** -/
theorem Inv.close (h : Inv sh p) :
    ∃ l : List Nat, (close sh).next = l.map Pc.drop ∧
      Inv (close sh).shared (↑(l.map Pc.drop) + p) := by
  -- the clients that are current or retired leave their slots, and those of `m_unreleased` go with
  -- them
  obtain ⟨dead, hdead⟩ : ∃ dead, dead = (List.range sh.made).filter fun k =>
      (sh.slots k).client &&
        ((sh.modules (sh.slots k).module).bind (·.current) == some k || k ∈ sh.retired) := ⟨_, rfl⟩
  have hslots : (Registry.close sh).shared.slots = fun k =>
      if k ∈ dead then { sh.slots k with client := false } else sh.slots k := by
    rw [hdead]
    rfl
  have hslot : ∀ k, (Registry.close sh).shared.slots k =
      { sh.slots k with client := decide (k ∉ dead) && (sh.slots k).client } := by
    intro k
    rw [hslots]
    by_cases hk : k ∈ dead <;> simp [hk]
  refine ⟨dead ++ sh.unreleased, by rw [hdead]; rfl, ?_⟩
  refine h.drops (h.epochs.of_same rfl (fun k => by rw [hslot]; rfl) (fun _ => rfl))
    ⟨fun k hk => ⟨(h.slots.fresh k hk).1, ?_⟩, (fun hc => nomatch hc), fun k hk hfalse => .inl rfl,
      (fun k hk => nomatch hk), List.nodup_nil⟩ (fun k => ?_) (fun k => by rw [hslot])
    rfl rfl rfl rfl rfl rfl
  · rw [hslot, (h.slots.fresh k hk).2]
    simp
  · show sh.refs k = _ + 0 + _
    rw [hslot, h.refs k, List.count_append]
    -- each reference that a slot gave up is one of the drops
    have hcount : dead.count k = if k ∈ dead then 1 else 0 := by
      have hnodup : dead.Nodup := by
        rw [hdead]
        exact List.nodup_range.filter _
      by_cases hk : k ∈ dead
      · rw [List.count_eq_one_of_mem hnodup hk, if_pos hk]
      · rw [List.count_eq_zero_of_not_mem hk, if_neg hk]
    have hclient : k ∈ dead → (sh.slots k).client = true := by
      intro hk
      rw [hdead] at hk
      exact (Bool.and_eq_true_iff.mp (List.mem_filter.mp hk).2).1
    rw [hcount]
    by_cases hk : k ∈ dead
    · rw [if_pos hk, hclient hk]
      simp [hk]
    · simp [hk]
      omega

end JsonRpcBridge.Upstream.Registry
