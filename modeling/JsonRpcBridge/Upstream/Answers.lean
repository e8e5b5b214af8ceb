import JsonRpcBridge.Upstream.Books

/-!
# Releases and answers

The books are kept when a reference goes out of scope, when a release goes through its box, and at
each station of a call: asked for, taken by a client, answered, done.
-/

namespace JsonRpcBridge.Upstream.Registry

open Interleaving

variable {sh sh' : Shared} {p others : Multiset Pc}

/-! ## Releases

One reference goes, and one section less holds it. -/

/-- A section that holds a reference holds that of a client that was made. -/
theorem Inv.lt_made {x : Pc} (h : Inv sh (x ::ₘ p)) {k : Nat} (hx : x.holds = some k) :
    k < sh.made ∧ 0 < sh.refs k := by
  have hrefs := h.refs k
  rw [carried_cons, if_pos hx] at hrefs
  refine ⟨?_, by omega⟩
  by_contra hle
  have hzero := (h.slots.fresh k (by omega)).1
  omega

/-- The books after a reference has gone. -/
theorem refs_dropRef (sh : Shared) {q : Multiset Pc} {k : Nat}
    (h : ∀ k', sh.refs k' = (if (sh.slots k').client then 1 else 0) + sh.unreleased.count k' +
      (carried Pc.holds k' q + if k = k' then 1 else 0)) (k' : Nat) :
    (sh.dropRef k).refs k' =
      (if (sh.slots k').client then 1 else 0) + sh.unreleased.count k' + carried Pc.holds k' q := by
  have hrefs := h k'
  show Function.update sh.refs k (sh.refs k - 1) k' = _
  by_cases hk : k' = k
  · subst hk
    rw [Function.update_self]
    rw [if_pos rfl] at hrefs
    omega
  · rw [Function.update_of_ne hk]
    rw [if_neg (Ne.symm hk)] at hrefs
    omega

/-- **A reference goes out of scope.** -/
theorem Inv.drop {k : Nat} (h : Inv sh (.drop k ::ₘ p)) : Inv (sh.dropRef k) p := by
  obtain ⟨hlt, -⟩ := h.lt_made rfl
  refine ⟨h.epochs.of_same rfl (fun _ => rfl) (fun _ => rfl), h.slots.setRefs hlt _,
    refs_dropRef sh (fun k' => ?_), fun k' => ?_, h.boxes.of_same rfl rfl (fun b => ?_) fun t => ?_,
    h.calls.of_same rfl rfl rfl rfl (fun c => ?_) fun c => ?_⟩
  · have hrefs := h.refs k'
    simpa only [carried_cons, Pc.holds, Option.some.injEq] using hrefs
  · have hflying := h.inFlight k'
    rw [outstanding, carried_cons_of_none rfl] at hflying
    exact hflying
  · rw [carried_cons_of_none rfl]
  · rw [carried_cons_of_none rfl]
  · rw [carried_cons_of_none rfl]
  · rw [carried_cons_of_none rfl]

/-! ## Boxes

A release job and the callback that posts it share a box. The reference is in the box while it is
full, and the two go out of scope in either order. -/

theorem Pc.owns_of_empties {x : Pc} {k b : Nat} (h : x.empties = some (k, b)) : x.owns = some b := by
  cases x with
  | release | keep =>
      cases h
      rfl
  | _ => cases h

/-- A box that nobody owns is in nobody's hands. -/
theorem carried_empties_of_owns {b : Nat} (h : carried Pc.owns b p = 0) (k : Nat) :
    carried Pc.empties (k, b) p = 0 := by
  rw [carried_eq_zero] at h ⊢
  intro x hx hempties
  exact h x hx (Pc.owns_of_empties hempties)

/-- A box is full while a section is to empty it. -/
theorem Inv.full {x : Pc} {k b : Nat} (h : Inv sh (x ::ₘ p)) (hx : x.empties = some (k, b)) :
    (sh.boxes b).full = true ∧ (sh.boxes b).client = k ∧
      ∀ k', carried Pc.empties (k', b) p = 0 := by
  have hfull := h.boxes.full b k
  rw [carried_cons, if_pos hx] at hfull
  split at hfull
  · rename_i hbox
    refine ⟨hbox.1, hbox.2, fun k' => ?_⟩
    have hfull' := h.boxes.full b k'
    rw [carried_cons, hx, hbox.2] at hfull'
    by_cases hk : k = k'
    · subst hk
      rw [if_pos rfl, if_pos ⟨hbox.1, rfl⟩] at hfull'
      omega
    · rw [if_neg (by simp [hk]), if_neg (by simp [hk])] at hfull'
      exact hfull'
  · omega

/-- **The release is posted.** The box is new, full, and owned by the job and by `finished`. -/
theorem Inv.post {k : Nat} (h : Inv sh (.postRelease k ::ₘ p)) :
    Inv ({ sh with madeBoxes := sh.madeBoxes + 1 }.setBox sh.madeBoxes
      { client := k, full := true, owners := 2 })
      (.dropBox k sh.madeBoxes ::ₘ .release k sh.madeBoxes ::ₘ p) ∧
    Inv ({ sh with madeBoxes := sh.madeBoxes + 1 }.setBox sh.madeBoxes
      { client := k, full := true, owners := 1 }) (.keep k sh.madeBoxes ::ₘ p) := by
  have hfree : carried Pc.owns sh.madeBoxes p = 0 := by
    have howners := h.boxes.owners sh.madeBoxes
    rw [carried_cons_of_none rfl, h.boxes.fresh _ (Nat.le_refl _)] at howners
    exact howners.symm
  have hbooks : ∀ (n : Nat) (q : Multiset Pc),
      (∀ k', carried Pc.holds k' q = carried Pc.holds k' (.postRelease k ::ₘ p)) →
      (∀ k', carried Pc.flying k' q = carried Pc.flying k' p) →
      (∀ b, carried Pc.owns b q = carried Pc.owns b p + if b = sh.madeBoxes then n else 0) →
      (∀ k' b, carried Pc.empties (k', b) q =
        carried Pc.empties (k', b) p + if k = k' ∧ b = sh.madeBoxes then 1 else 0) →
      (∀ c, carried Pc.call? c q = carried Pc.call? c p) →
      (∀ c, carried Pc.answering? c q = carried Pc.answering? c p) →
      Inv ({ sh with madeBoxes := sh.madeBoxes + 1 }.setBox sh.madeBoxes
        { client := k, full := true, owners := n }) q := by
    intro n q hholds hflying howns hempties hcall hanswering
    refine ⟨h.epochs.of_same rfl (fun _ => rfl) (fun _ => rfl),
      ⟨h.slots.fresh, h.slots.current, h.slots.released, h.slots.retired, h.slots.nodup⟩,
      fun k' => ?_, fun k' => ?_, ⟨fun b => ?_, fun b k' => ?_, fun b hb => ?_⟩,
      h.calls.of_same rfl rfl rfl rfl (fun c => ?_) fun c => ?_⟩
    · rw [hholds]
      exact h.refs k'
    · rw [outstanding, hflying]
      have hold := h.inFlight k'
      rw [outstanding, carried_cons_of_none rfl] at hold
      exact hold
    · have howners := h.boxes.owners b
      rw [carried_cons_of_none rfl] at howners
      show (Function.update sh.boxes _ _ b).owners = _
      rw [howns]
      by_cases hb : b = sh.madeBoxes
      · subst hb
        rw [Function.update_self, if_pos rfl, hfree, zero_add]
      · rw [Function.update_of_ne hb, if_neg hb, howners, add_zero]
    · have hfull := h.boxes.full b k'
      rw [carried_cons_of_none rfl] at hfull
      show _ = if (Function.update sh.boxes _ _ b).full ∧ (Function.update sh.boxes _ _ b).client = k'
        then 1 else 0
      rw [hempties]
      by_cases hb : b = sh.madeBoxes
      · subst hb
        rw [Function.update_self, carried_empties_of_owns hfree]
        simp
      · rw [Function.update_of_ne hb, if_neg (fun hkb => hb hkb.2), hfull, add_zero]
    · have hle : sh.madeBoxes + 1 ≤ b := hb
      show (Function.update sh.boxes _ _ b).owners = 0
      rw [Function.update_of_ne (by omega)]
      exact h.boxes.fresh b (by omega)
    · rw [hcall, carried_cons_of_none rfl]
    · rw [hanswering, carried_cons_of_none rfl]
  constructor
  -- the pump takes the job: it owns the box as well, and the callback only lets go of it
  · refine hbooks 2 _ (fun k' => ?_) (fun k' => ?_) (fun b => ?_) (fun k' b => ?_) (fun c => ?_)
      fun c => ?_
    · simp [Pc.holds]
    · simp [Pc.flying]
    · simp only [carried_cons, Pc.owns, Option.some.injEq]
      by_cases hb : sh.madeBoxes = b
      · simp [hb]
      · simp [hb, Ne.symm hb]
    · simp only [carried_cons, Pc.empties, Option.some.injEq, Prod.mk.injEq, reduceCtorEq, if_false,
        add_zero, eq_comm (a := b)]
    · simp [Pc.call?]
    · simp [Pc.answering?]
  -- the pump has stopped, and the callback keeps the client
  · refine hbooks 1 _ (fun k' => ?_) (fun k' => ?_) (fun b => ?_) (fun k' b => ?_) (fun c => ?_)
      fun c => ?_
    · simp [Pc.holds]
    · simp [Pc.flying]
    · simp [Pc.owns, eq_comm]
    · simp only [carried_cons, Pc.empties, Option.some.injEq, Prod.mk.injEq, eq_comm (a := b)]
    · simp [Pc.call?]
    · simp [Pc.answering?]

/-- **The box goes out of scope in the callback.** It takes no reference with it: if it is the last
owner, the box is empty. -/
theorem Inv.dropBox {k b : Nat} (h : Inv sh (.dropBox k b ::ₘ p)) :
    Inv (sh.dropBox b) p ∧ (sh.dropBox b).refs = sh.refs := by
  have howners := h.boxes.owners b
  rw [carried_cons, if_pos (show (Pc.dropBox k b).owns = some b from rfl)] at howners
  have hdrop : sh.dropBox b = sh.setBox b { sh.boxes b with owners := (sh.boxes b).owners - 1 } := by
    unfold Shared.dropBox
    dsimp only
    rw [if_neg]
    simp only [Bool.and_eq_true, beq_iff_eq, not_and, Bool.not_eq_true]
    intro hlast
    have hnone : carried Pc.owns b p = 0 := by omega
    by_contra hfull
    have hone := h.boxes.full b (sh.boxes b).client
    rw [carried_cons_of_none rfl, carried_empties_of_owns hnone,
      if_pos ⟨by simpa using hfull, rfl⟩] at hone
    cases hone
  rw [hdrop]
  refine ⟨⟨h.epochs.of_same rfl (fun _ => rfl) (fun _ => rfl),
    ⟨h.slots.fresh, h.slots.current, h.slots.released, h.slots.retired, h.slots.nodup⟩,
    fun k' => ?_, fun k' => ?_, ⟨fun b' => ?_, fun b' k' => ?_, fun b' hb' => ?_⟩,
    h.calls.of_same rfl rfl rfl rfl (fun c => ?_) fun c => ?_⟩, rfl⟩
  · have hrefs := h.refs k'
    rw [carried_cons_of_none rfl] at hrefs
    exact hrefs
  · have hflying := h.inFlight k'
    rw [outstanding, carried_cons_of_none rfl] at hflying
    exact hflying
  · show (Function.update sh.boxes _ _ b').owners = _
    by_cases hb : b' = b
    · subst hb
      rw [Function.update_self]
      show (sh.boxes b').owners - 1 = _
      omega
    · have hother := h.boxes.owners b'
      simp only [carried_cons, Pc.owns, Option.some.injEq, if_neg (Ne.symm hb), add_zero] at hother
      rw [Function.update_of_ne hb, hother]
  · have hfull := h.boxes.full b' k'
    rw [carried_cons_of_none rfl] at hfull
    rw [hfull]
    show _ = if (Function.update sh.boxes _ _ b').full ∧ (Function.update sh.boxes _ _ b').client = k'
      then 1 else 0
    by_cases hb : b' = b
    · subst hb
      rw [Function.update_self]
    · rw [Function.update_of_ne hb]
  · show (Function.update sh.boxes _ _ b').owners = 0
    by_cases hb : b' = b
    · subst hb
      rw [Function.update_self]
      show (sh.boxes b').owners - 1 = 0
      rw [h.boxes.fresh b' hb']
    · rw [Function.update_of_ne hb]
      exact h.boxes.fresh b' hb'
  · rw [carried_cons_of_none rfl]
  · rw [carried_cons_of_none rfl]

/-- **The box is emptied**, by the job or into `m_unreleased`; the section still owns it. -/
theorem Inv.emptied {x : Pc} {k b : Nat} (h : Inv sh (x ::ₘ p)) (hx : x.empties = some (k, b))
    {j : Nat} : Boxes (sh.setBox b { sh.boxes b with full := false }) (.dropBox j b ::ₘ p) := by
  obtain ⟨-, -, hnone⟩ := h.full hx
  refine ⟨fun b' => ?_, fun b' k' => ?_, fun b' hb' => ?_⟩
  · have howners := h.boxes.owners b'
    rw [carried_cons, Pc.owns_of_empties hx] at howners
    rw [carried_cons]
    show (Function.update sh.boxes _ _ b').owners =
      carried Pc.owns b' p + if some b = some b' then 1 else 0
    rw [← howners]
    by_cases hb : b' = b
    · subst hb
      rw [Function.update_self]
    · rw [Function.update_of_ne hb]
  · have hfull := h.boxes.full b' k'
    rw [carried_cons, hx] at hfull
    rw [carried_cons_of_none rfl]
    show _ = if (Function.update sh.boxes _ _ b').full ∧ (Function.update sh.boxes _ _ b').client = k'
      then 1 else 0
    by_cases hb : b' = b
    · subst hb
      rw [Function.update_self, hnone]
      simp
    · rw [Function.update_of_ne hb, ← hfull, if_neg (by simp [Ne.symm hb]), add_zero]
  · show (Function.update sh.boxes _ _ b').owners = 0
    by_cases hb : b' = b
    · subst hb
      rw [Function.update_self]
      exact h.boxes.fresh b' hb'
    · rw [Function.update_of_ne hb]
      exact h.boxes.fresh b' hb'

/-- **The job releases the client.** -/
theorem Inv.release {k b : Nat} (h : Inv sh (.release k b ::ₘ p)) :
    Inv (((sh.setBox b { sh.boxes b with full := false }).dropRef k).dropBox b) p := by
  have hlt := (h.lt_made rfl).1
  have hreleased : Inv ((sh.setBox b { sh.boxes b with full := false }).dropRef k)
      (.dropBox k b ::ₘ p) := by
    refine ⟨h.epochs.of_same rfl (fun _ => rfl) (fun _ => rfl), ?_,
      refs_dropRef (sh.setBox b _) fun k' => ?_, fun k' => ?_,
      (h.emptied rfl).of_same rfl rfl (fun _ => rfl) (fun _ => rfl),
      h.calls.of_same rfl rfl rfl rfl (fun c => ?_) fun c => ?_⟩
    · have hslots : Slots (sh.setBox b { sh.boxes b with full := false }) :=
        ⟨h.slots.fresh, h.slots.current, h.slots.released, h.slots.retired, h.slots.nodup⟩
      exact hslots.setRefs hlt _
    · have hrefs := h.refs k'
      simp only [carried_cons, Pc.holds, Option.some.injEq] at hrefs
      rw [carried_cons_of_none rfl]
      exact hrefs
    · have hflying := h.inFlight k'
      rw [outstanding, carried_cons_of_none rfl] at hflying
      rw [outstanding, carried_cons_of_none rfl]
      exact hflying
    · rw [carried_cons_of_none rfl, carried_cons_of_none rfl]
    · rw [carried_cons_of_none rfl, carried_cons_of_none rfl]
  exact hreleased.dropBox.1

/-- **The post was refused**, and the registry keeps the client. -/
theorem Inv.keep {k b : Nat} (h : Inv sh (.keep k b ::ₘ p)) :
    Inv { sh.setBox b { sh.boxes b with full := false } with unreleased := sh.unreleased ++ [k] }
      (.dropBox k b ::ₘ p) := by
  refine ⟨h.epochs.of_same rfl (fun _ => rfl) (fun _ => rfl),
    ⟨h.slots.fresh, h.slots.current, h.slots.released, h.slots.retired, h.slots.nodup⟩,
    fun k' => ?_, fun k' => ?_, (h.emptied rfl).of_same rfl rfl (fun _ => rfl) (fun _ => rfl),
    h.calls.of_same rfl rfl rfl rfl (fun c => ?_) fun c => ?_⟩
  · have hrefs := h.refs k'
    simp only [carried_cons, Pc.holds, Option.some.injEq] at hrefs
    rw [carried_cons_of_none rfl]
    show sh.refs k' = (if (sh.slots k').client then 1 else 0) + (sh.unreleased ++ [k]).count k' + _
    rw [hrefs, List.count_append, List.count_singleton]
    by_cases hk : k = k'
    · subst hk
      simp only [if_true, beq_self_eq_true]
      omega
    · simp [hk]
  · have hflying := h.inFlight k'
    rw [outstanding, carried_cons_of_none rfl] at hflying
    rw [outstanding, carried_cons_of_none rfl]
    exact hflying
  · rw [carried_cons_of_none rfl, carried_cons_of_none rfl]
  · rw [carried_cons_of_none rfl, carried_cons_of_none rfl]

/-! ## Calls and answers

A call is in one place at a time: with the thread that asks, with the client, or with the thread
of its answer. -/

/-- **The client takes a call.** -/
theorem Inv.submit {k c : Nat} (h : Inv sh (.submit k c ::ₘ p)) :
    Inv { sh with waiting := sh.waiting ++ [(c, k)] } (.drop k ::ₘ p) := by
  refine ⟨h.epochs.of_same rfl (fun _ => rfl) (fun _ => rfl),
    ⟨h.slots.fresh, h.slots.current, h.slots.released, h.slots.retired, h.slots.nodup⟩,
    fun k' => ?_, fun k' => ?_, h.boxes.of_same rfl rfl (fun b => ?_) (fun t => ?_),
    ⟨fun c' => ?_, fun c' hc' => ?_⟩⟩
  · have hrefs := h.refs k'
    rw [carried_cons] at hrefs ⊢
    exact hrefs
  · have hflying := h.inFlight k'
    simp only [outstanding, carried_cons, Pc.flying, Option.some.injEq] at hflying
    rw [outstanding, carried_cons_of_none rfl]
    show (sh.slots k').inFlight = ((_ + (sh.waiting ++ [(c, k)]).countP _ : Nat) : Int)
    rw [hflying, List.countP_append, List.countP_singleton]
    by_cases hk : k = k'
    · subst hk
      simp
      omega
    · simp [hk]
  · rw [carried_cons_of_none rfl, carried_cons_of_none rfl]
  · rw [carried_cons_of_none rfl, carried_cons_of_none rfl]
  · have honce := h.calls.once c'
    simp only [carried_cons, Pc.call?, Option.some.injEq] at honce
    rw [carried_cons_of_none rfl]
    show _ + (sh.waiting ++ [(c, k)]).countP _ + _ = _
    rw [← honce, List.countP_append, List.countP_singleton]
    by_cases hc : c = c'
    · subst hc
      simp
      omega
    · simp [hc]
  · have hanswered := h.calls.answered c' hc'
    rw [carried_cons_of_none rfl] at hanswered
    rw [carried_cons_of_none rfl]
    exact hanswered

/-- **`done` runs.** -/
theorem Inv.done {inside : Option Nat} {c : Nat} {value : Json} {e : CallError}
    (h : Inv sh (.done inside c value e ::ₘ p)) : Inv { sh with done := sh.done ++ [c] } p := by
  refine ⟨h.epochs.of_same rfl (fun _ => rfl) (fun _ => rfl),
    ⟨h.slots.fresh, h.slots.current, h.slots.released, h.slots.retired, h.slots.nodup⟩,
    fun k' => ?_, fun k' => ?_, h.boxes.of_same rfl rfl (fun b => ?_) (fun t => ?_),
    ⟨fun c' => ?_, fun c' hc' => ?_⟩⟩
  · have hrefs := h.refs k'
    rw [carried_cons_of_none rfl] at hrefs
    exact hrefs
  · have hflying := h.inFlight k'
    rw [outstanding, carried_cons_of_none rfl] at hflying
    exact hflying
  · rw [carried_cons_of_none rfl]
  · rw [carried_cons_of_none rfl]
  · have honce := h.calls.once c'
    simp only [carried_cons, Pc.call?, Option.some.injEq] at honce
    show _ + _ + (sh.done ++ [c]).count c' = _
    rw [← honce, List.count_append, List.count_singleton]
    by_cases hc : c = c'
    · subst hc
      simp only [if_true, beq_self_eq_true]
      omega
    · simp [hc]
  · have hanswered := h.calls.answered c' hc'
    simp only [carried_cons, Pc.answering?, Option.some.injEq] at hanswered
    show 0 < _ + (sh.done ++ [c]).count c'
    rw [List.count_append, List.count_singleton]
    by_cases hc : c = c'
    · subst hc
      simp only [beq_self_eq_true, if_true]
      omega
    · simpa [hc] using hanswered

/-- What an answer says of the module changes its policy and nothing else. -/
theorem judge_same (sh : Shared) (k : Nat) (e : CallError) :
    ∃ modules, (sh.judge k e).1 = { sh with modules } ∧
      ∀ m, (modules m).map Module.place = (sh.modules m).map Module.place := by
  have hset : ∀ {m : Bytes} {md : Module} (policy : RecyclePolicy), sh.modules m = some md →
      ∀ m', (Function.update sh.modules m (some { md with policy }) m').map Module.place =
        (sh.modules m').map Module.place := by
    intro m md policy hm m'
    by_cases hmm : m' = m
    · subst hmm
      rw [Function.update_self, hm]
      rfl
    · rw [Function.update_of_ne hmm]
  unfold Shared.judge
  dsimp only
  cases hm : sh.modules (sh.slots k).module with
  | none => exact ⟨sh.modules, rfl, fun _ => rfl⟩
  | some md =>
      dsimp only
      split
      · exact ⟨sh.modules, rfl, fun _ => rfl⟩
      · split
        · exact ⟨_, rfl, hset _ hm⟩
        · split
          · exact ⟨_, rfl, hset _ hm⟩
          · exact ⟨sh.modules, rfl, fun _ => rfl⟩

theorem Inv.judge (h : Inv sh p) (k : Nat) (e : CallError) : Inv (sh.judge k e).1 p := by
  obtain ⟨modules, heq, hplace⟩ := judge_same sh k e
  rw [heq]
  refine ⟨h.epochs.of_same rfl (fun _ => rfl) hplace, ⟨h.slots.fresh, fun hc m md k' hm hk => ?_,
    h.slots.released, h.slots.retired, h.slots.nodup⟩, h.refs, h.inFlight,
    h.boxes.of_same rfl rfl (fun _ => rfl) (fun _ => rfl),
    h.calls.of_same rfl rfl rfl rfl (fun _ => rfl) (fun _ => Nat.le_refl _)⟩
  have hmap := hplace m
  rw [show modules m = some md from hm] at hmap
  obtain ⟨md', hm', heq⟩ := Option.map_eq_some_iff.mp hmap.symm
  exact h.slots.current hc m md' k' hm' ((Prod.mk.inj heq).1.trans hk)

/-- **An answer is counted.** -/
theorem Inv.counted {k c : Nat} {value : Json} {e : CallError}
    (h : Inv sh (.finished k c value e ::ₘ p)) :
    Inv (sh.setInFlight k ((sh.slots k).inFlight - 1)) (.done (some k) c value e ::ₘ p) := by
  have hpos : 0 < (sh.slots k).inFlight := by
    rw [h.inFlight k, outstanding, carried_cons,
      if_pos (show (Pc.finished k c value e).flying = some k from rfl)]
    omega
  have hlt : k < sh.made := by
    by_contra hle
    rw [(h.slots.fresh k (by omega)).2] at hpos
    exact absurd hpos (Int.lt_irrefl 0)
  refine ⟨h.epochs.setInFlight k _, h.slots.setInFlight hlt fun hfalse => ?_, fun k' => ?_,
    fun k' => ?_, h.boxes.of_same rfl rfl (fun b => ?_) (fun t => ?_),
    h.calls.of_same rfl rfl rfl rfl (fun c => ?_) fun c => ?_⟩
  -- the slot had a call left, so it gave its client up only if closed or past the deadline
  · rcases h.slots.released k hlt hfalse with hclosed | ⟨hret, hzero | hexp⟩
    · exact .inl hclosed
    · omega
    · exact .inr ⟨hret, .inr hexp⟩
  · have hrefs := h.refs k'
    rw [carried_cons_of_none rfl] at hrefs
    rw [carried_cons_of_none rfl, slots_setInFlight]
    exact hrefs
  · have hflying := h.inFlight k'
    simp only [outstanding, carried_cons, Pc.flying, Option.some.injEq] at hflying
    rw [outstanding, carried_cons_of_none rfl, slots_setInFlight]
    show (if k' = k then _ else _) = ((_ + sh.waiting.countP (fun w => w.2 == k') : Nat) : Int)
    by_cases hk : k' = k
    · subst hk
      rw [if_pos rfl] at hflying ⊢
      omega
    · rw [if_neg hk]
      rw [if_neg (Ne.symm hk)] at hflying
      omega
  · rw [carried_cons_of_none rfl, carried_cons_of_none rfl]
  · rw [carried_cons_of_none rfl, carried_cons_of_none rfl]
  · rw [carried_cons, carried_cons]
    rfl
  · rw [carried_cons, carried_cons]
    rfl

/-- **The last answer takes the client out of its slot.** -/
theorem Inv.moveOut {k : Nat} (h : Inv sh p) (hret : (sh.slots k).retired = true)
    (hidle : (sh.slots k).inFlight = 0) (hclient : (sh.slots k).client = true) :
    Inv (sh.moveOut k) (.postRelease k ::ₘ p) := by
  have hlt : k < sh.made := by
    by_contra hle
    rw [(h.slots.fresh k (by omega)).2] at hclient
    cases hclient
  have hslot : ∀ k', (sh.moveOut k).slots k' =
      { sh.slots k' with client := decide (k' ≠ k) && (sh.slots k').client } := by
    intro k'
    show Function.update sh.slots k _ k' = _
    by_cases hk : k' = k
    · subst hk
      simp
    · simp [hk]
  refine ⟨h.epochs.of_same rfl (fun k' => by rw [hslot]; rfl) (fun _ => rfl),
    ⟨fun k' hk' => ?_, fun hc m md k' hm hk' => ?_, fun k' hk' hfalse => ?_, fun k' hk' => ?_,
      h.slots.nodup.filter _⟩, fun k' => ?_, fun k' => ?_,
    h.boxes.of_same rfl rfl (fun b => ?_) (fun t => ?_),
    h.calls.of_same rfl rfl rfl rfl (fun c => ?_) fun c => ?_⟩
  · obtain ⟨hrefs, hfresh⟩ := h.slots.fresh k' hk'
    refine ⟨hrefs, ?_⟩
    rw [hslot, hfresh]
    simp
  -- a retired slot is nobody's current one
  · have hne : k' ≠ k := by
      rintro rfl
      cases (h.epochs.current m md k' hm hk').2.2.2.symm.trans hret
    rw [hslot, h.slots.current hc m md k' hm hk']
    simp [hne]
  · simp only [Shared.expired, hslot] at hfalse ⊢
    by_cases hk : k' = k
    · subst hk
      exact .inr ⟨hret, .inl hidle⟩
    · exact h.slots.released k' hk' (by simpa [hk] using hfalse)
  · rw [hslot]
    exact h.slots.retired k' (List.mem_filter.mp hk').1
  · have hrefs := h.refs k'
    simp only [carried_cons, Pc.holds, Option.some.injEq]
    show sh.refs k' = _ + sh.unreleased.count k' + _
    rw [hslot, hrefs]
    -- the reference goes from the slot to the `postRelease`
    by_cases hk : k = k'
    · subst hk
      simp only [hclient, ne_eq, not_true_eq_false, decide_false, Bool.false_and, if_true,
        Bool.false_eq_true, if_false]
      omega
    · simp [hk, Ne.symm hk]
  · rw [hslot, outstanding, carried_cons_of_none rfl]
    exact h.inFlight k'
  · rw [carried_cons_of_none rfl]
  · rw [carried_cons_of_none rfl]
  · rw [carried_cons_of_none rfl]
  · rw [carried_cons_of_none rfl]

/-! ## Entry points

What comes from outside brings a section that holds nothing, but for an answer, which brings its
call. -/

theorem Inv.tick (h : Inv sh p) (elapsed : Nat) : Inv { sh with now := sh.now + elapsed } p := by
  refine ⟨h.epochs.of_same rfl (fun _ => rfl) (fun _ => rfl), ⟨h.slots.fresh, h.slots.current,
    fun k hk hfalse => ?_, h.slots.retired, h.slots.nodup⟩, h.refs, h.inFlight,
    h.boxes.of_same rfl rfl (fun _ => rfl) (fun _ => rfl),
    h.calls.of_same rfl rfl rfl rfl (fun _ => rfl) (fun _ => Nat.le_refl _)⟩
  rcases h.slots.released k hk hfalse with hclosed | ⟨hret, hzero | hexp⟩
  · exact .inl hclosed
  · exact .inr ⟨hret, .inl hzero⟩
  · refine .inr ⟨hret, .inr ?_⟩
    have hle : (sh.slots k).retiredAt + kRetiredDeadline ≤ sh.now := of_decide_eq_true hexp
    exact decide_eq_true (Nat.le_trans hle (Nat.le_add_right _ _))

/-- **A call is asked for**, under a fresh number. -/
theorem Inv.ask (h : Inv sh p) (m : Bytes) :
    Inv { sh with nextCall := sh.nextCall + 1 } (.invoke m sh.nextCall ::ₘ p) := by
  refine ⟨h.epochs.of_same rfl (fun _ => rfl) (fun _ => rfl),
    ⟨h.slots.fresh, h.slots.current, h.slots.released, h.slots.retired, h.slots.nodup⟩,
    fun k' => ?_, fun k' => ?_, h.boxes.of_same rfl rfl (fun b => ?_) (fun t => ?_),
    ⟨fun c' => ?_, fun c' hc' => ?_⟩⟩
  · rw [carried_cons_of_none rfl]
    exact h.refs k'
  · rw [outstanding, carried_cons_of_none rfl]
    exact h.inFlight k'
  · rw [carried_cons_of_none rfl]
  · rw [carried_cons_of_none rfl]
  · have honce := h.calls.once c'
    simp only [carried_cons, Pc.call?, Option.some.injEq]
    by_cases hc : sh.nextCall = c'
    · subst hc
      rw [if_neg (Nat.lt_irrefl _)] at honce
      rw [if_pos rfl, if_pos (Nat.lt_succ_self _)]
      omega
    · rw [if_neg hc, add_zero, honce]
      by_cases hlt : c' < sh.nextCall
      · rw [if_pos hlt, if_pos (by omega)]
      · rw [if_neg hlt, if_neg (by omega)]
  · rw [carried_cons_of_none rfl]
    exact h.calls.answered c' hc'

/-- One member less that counts. -/
theorem countP_erase_add {α : Type} [BEq α] [LawfulBEq α] (f : α → Bool) {l : List α} {a : α} (h : a ∈ l) :
    (l.erase a).countP f + (if f a = true then 1 else 0) = l.countP f := by
  rw [(List.perm_cons_erase h).countP_eq, List.countP_cons]

/-- **The client answers.** -/
theorem Inv.answer {k c : Nat} (h : Inv sh p) (hw : (c, k) ∈ sh.waiting) (value : Json)
    (e : CallError) :
    Inv { sh with waiting := sh.waiting.erase (c, k), answered := sh.answered ++ [c] }
      (.finished k c value e ::ₘ p) := by
  refine ⟨h.epochs.of_same rfl (fun _ => rfl) (fun _ => rfl),
    ⟨h.slots.fresh, h.slots.current, h.slots.released, h.slots.retired, h.slots.nodup⟩,
    fun k' => ?_, fun k' => ?_, h.boxes.of_same rfl rfl (fun b => ?_) (fun t => ?_),
    ⟨fun c' => ?_, fun c' hc' => ?_⟩⟩
  · rw [carried_cons_of_none rfl]
    exact h.refs k'
  · have hflying := h.inFlight k'
    rw [outstanding, ← countP_erase_add _ hw] at hflying
    simp only [outstanding, carried_cons, Pc.flying, Option.some.injEq]
    rw [hflying]
    simp only [beq_iff_eq]
    omega
  · rw [carried_cons_of_none rfl]
  · rw [carried_cons_of_none rfl]
  · have honce := h.calls.once c'
    rw [← countP_erase_add _ hw] at honce
    simp only [carried_cons, Pc.call?, Option.some.injEq]
    rw [← honce]
    simp only [beq_iff_eq]
    omega
  · simp only [carried_cons, Pc.answering?, Option.some.injEq]
    rcases List.mem_append.mp hc' with hold | hnew
    · have hanswered := h.calls.answered c' hold
      show 0 < _ + sh.done.count c'
      omega
    · rw [List.mem_singleton.mp hnew, if_pos rfl]
      omega

end JsonRpcBridge.Upstream.Registry
