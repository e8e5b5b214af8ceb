import JsonRpcBridge.Upstream.Lifecycle

/-!
# Where the registry looks for its clients

`close` goes through the current slots and the retired ones. A slot that still holds its client is
one of these (`Homes`), so `close` finds every client that a slot holds, and once it has run none
does. A client that an answer takes out of its slot was replaced before, and stays so (`Gives`).
-/

namespace JsonRpcBridge.Upstream.Registry

open Interleaving

variable {sh sh' : Shared} {p others : Multiset Pc} {e : Effect Shared Pc}

/-! ## Homes

`close` finds the slots that are current and those on the retired list, and no others. -/

/-- The slot is its module's current one, or on the retired list. -/
def Homed (sh : Shared) (k : Nat) : Prop :=
  (sh.modules (sh.slots k).module).bind (·.current) = some k ∨ k ∈ sh.retired

/-- Every slot that holds its client is where `close` looks, and none does after that. -/
def Homes (sh : Shared) : Prop :=
  ∀ k, (sh.slots k).client = true → sh.closed = false ∧ Homed sh k

/-- A replaced client whose reference is on its way out: to a release, or to `m_unreleased`. -/
def Pc.gives : Pc → Option Nat
  | .postRelease k | .keep k _ | .release k _ => some k
  | _ => none

/-- Who is given up was replaced. -/
structure Gives (sh : Shared) (p : Multiset Pc) : Prop where
  sections : ∀ x ∈ p, ∀ k, x.gives = some k → (sh.slots k).retired = true
  unreleased : ∀ k ∈ sh.unreleased, (sh.slots k).retired = true

/-! ## What the registry does to its slots

A slot changes its home twice: it is current when it is made, and on the retired list when it is
replaced with calls left. -/

/-- The slots keep their homes, those that are retired stay so, and what is closed stays closed. -/
structure Keeps (sh sh' : Shared) : Prop where
  closed : sh.closed = true → sh'.closed = true
  homes : Homes sh → Homes sh'
  retired : ∀ k, (sh.slots k).retired = true → (sh'.slots k).retired = true

theorem Keeps.refl (sh : Shared) : Keeps sh sh := ⟨id, id, fun _ => id⟩

theorem Keeps.trans {sh'' : Shared} (h : Keeps sh sh') (h' : Keeps sh' sh'') : Keeps sh sh'' :=
  ⟨h'.closed ∘ h.closed, h'.homes ∘ h.homes, fun k hk => h'.retired k (h.retired k hk)⟩

/-- A slot may lose its client, and a module its policy. -/
theorem Keeps.of_slots (hclosed : sh'.closed = sh.closed)
    (hslots : ∀ k, (sh'.slots k).place = (sh.slots k).place)
    (hmodules : ∀ m, (sh'.modules m).map Module.place = (sh.modules m).map Module.place)
    (hclient : ∀ k, (sh'.slots k).client = true →
      (sh.slots k).client = true ∧ (k ∈ sh.retired → k ∈ sh'.retired)) : Keeps sh sh' := by
  have hplace : ∀ k, (sh'.slots k).module = (sh.slots k).module ∧
      (sh'.slots k).retired = (sh.slots k).retired := by
    intro k
    obtain ⟨hmodule, hrest⟩ := Prod.mk.inj (hslots k)
    exact ⟨hmodule, (Prod.mk.inj hrest).2⟩
  have hcurrent : ∀ m, (sh'.modules m).bind (·.current) = (sh.modules m).bind (·.current) := by
    intro m
    have hmap := congrArg (fun o : Option (Option Nat × Nat) => o.bind (·.1)) (hmodules m)
    simpa [Option.bind_map, Function.comp_def, Module.place] using hmap
  refine ⟨hclosed.trans, ?_, ?_⟩
  · intro h k hk
    obtain ⟨hheld, hstays⟩ := hclient k hk
    obtain ⟨hopen, hhome⟩ := h k hheld
    refine ⟨hclosed.trans hopen, hhome.imp (fun hcur => ?_) hstays⟩
    rw [(hplace k).1, hcurrent, hcur]
  · intro k hk
    rw [(hplace k).2, hk]

theorem Keeps.of_same (hclosed : sh'.closed = sh.closed) (hslots : sh'.slots = sh.slots)
    (hmodules : sh'.modules = sh.modules) (hretired : sh'.retired = sh.retired) : Keeps sh sh' := by
  refine Keeps.of_slots hclosed ?_ ?_ ?_
  · intro k
    rw [hslots]
  · intro m
    rw [hmodules]
  · intro k hk
    rw [hretired]
    rw [hslots] at hk
    exact ⟨hk, id⟩

/-! ### Operation by operation -/

/-- A module that has no current client gets one. -/
theorem Keeps.makeSlot {m : Bytes} {md : Module} (hI : Inv sh p) (hopen : sh.closed = false)
    (hmd : (sh.modules m).bind (·.current) = none) : Keeps sh (sh.makeSlot m md) := by
  refine ⟨id, ?_, ?_⟩
  · intro h k hk
    refine ⟨hopen, ?_⟩
    unfold Homed
    rw [slots_makeSlot] at hk ⊢
    by_cases hnew : k = sh.made
    · left
      rw [if_pos hnew, hnew]
      show (Function.update sh.modules m _ m).bind _ = _
      rw [Function.update_self]
      rfl
    · rw [if_neg hnew] at hk ⊢
      refine (h k hk).2.imp_left fun hcur => ?_
      show (Function.update sh.modules m _ (sh.slots k).module).bind _ = _
      by_cases hm : (sh.slots k).module = m
      · rw [hm, hmd] at hcur
        cases hcur
      · rw [Function.update_of_ne hm, hcur]
  · intro k hk
    rw [slots_makeSlot]
    by_cases hnew : k = sh.made
    · rw [hnew, (hI.slots.fresh sh.made (Nat.le_refl _)).2] at hk
      cases hk
    · rw [if_neg hnew, hk]

theorem Keeps.currentLocked (hI : Inv sh p) (hopen : sh.closed = false) (m : Bytes) :
    Keeps sh (sh.currentLocked m).1 := by
  unfold Shared.currentLocked
  dsimp only
  split
  · exact .refl sh
  · rename_i hcur
    apply Keeps.makeSlot hI hopen
    cases hm : sh.modules m with
    | none => rfl
    | some md =>
        rw [hm, Option.getD_some] at hcur
        exact hcur

theorem Keeps.setRefs (sh : Shared) (k n : Nat) : Keeps sh (sh.setRefs k n) :=
  .of_same rfl rfl rfl rfl

theorem Keeps.setInFlight (sh : Shared) (k : Nat) (n : Int) : Keeps sh (sh.setInFlight k n) := by
  refine Keeps.of_slots rfl ?_ (fun _ => rfl) ?_
  · intro k'
    rw [slots_setInFlight]
    rfl
  · intro k' hk
    rw [slots_setInFlight] at hk
    exact ⟨hk, id⟩

theorem Keeps.sweep (sh : Shared) : Keeps sh sh.sweepLocked.1 := by
  have hslot : ∀ k, sh.sweepLocked.1.slots k =
      if k ∈ sh.retired.filter sh.expired then { sh.slots k with client := false }
      else sh.slots k := fun _ => rfl
  refine Keeps.of_slots rfl ?_ (fun _ => rfl) ?_
  · intro k
    rw [hslot]
    split <;> rfl
  · intro k hk
    rw [hslot] at hk
    split at hk
    · cases hk
    · rename_i hstays
      refine ⟨hk, fun hmem => List.mem_filter.mpr ⟨hmem, ?_⟩⟩
      simpa [hmem] using hstays

theorem Keeps.replaceSlot {m : Bytes} {md : Module} {old : Nat} (hI : Inv sh p)
    (hmd : sh.modules m = some md) (hcur : md.current = some old) (hopen : sh.closed = false) :
    Keeps sh (sh.replaceSlot m md old) := by
  obtain ⟨hlt, -⟩ := hI.epochs.current m md old hmd hcur
  have hmodules : (sh.replaceSlot m md old).modules = Function.update sh.modules m
      (some { md with current := some sh.made, lastEpoch := md.lastEpoch + 1 }) := rfl
  have hretired : (sh.replaceSlot m md old).retired =
      if (sh.slots old).inFlight == 0 then sh.retired else sh.retired ++ [old] := by
    unfold Shared.replaceSlot
    dsimp only
    rw [slots_makeSlot, if_neg (Nat.ne_of_lt hlt)]
    rfl
  refine ⟨id, ?_, ?_⟩
  · intro h k hk
    refine ⟨hopen, ?_⟩
    unfold Homed
    rw [slots_replaceSlot hlt] at hk
    rw [hretired]
    -- the old client is retired while it has calls; the new one is current; the rest stay where
    -- they are
    by_cases hold : k = old
    · right
      rw [if_pos hold] at hk
      have hbusy : ((sh.slots old).inFlight == 0) = false := by simpa using (Bool.and_eq_true_iff.mp hk).2
      rw [hbusy, hold]
      exact List.mem_append_right _ List.mem_cons_self
    · rw [if_neg hold] at hk
      by_cases hnew : k = sh.made
      · left
        rw [slots_replaceSlot hlt, if_neg hold, if_pos hnew, hnew, hmodules, Function.update_self]
        rfl
      · rw [if_neg hnew] at hk
        rw [slots_replaceSlot hlt, if_neg hold, if_neg hnew, hmodules]
        rcases (h k hk).2 with hhome | hmem
        · left
          by_cases hm : (sh.slots k).module = m
          · rw [hm, hmd] at hhome
            exact absurd (Option.some.inj (hhome.symm.trans hcur)) hold
          · rw [Function.update_of_ne hm, hhome]
        · right
          split
          · exact hmem
          · exact List.mem_append_left _ hmem
  · intro k hk
    rw [slots_replaceSlot hlt]
    split
    · rfl
    · split
      · rename_i hnew
        rw [hnew, (hI.slots.fresh sh.made (Nat.le_refl _)).2] at hk
        cases hk
      · exact hk

/-- `close` finds every client that a slot holds. -/
theorem Keeps.close (hI : Inv sh p) : Keeps sh (close sh).shared := by
  refine ⟨fun _ => rfl, ?_, ?_⟩
  · intro h k hk
    have hslot : (Registry.close sh).shared.slots k =
        if k ∈ (List.range sh.made).filter fun k => (sh.slots k).client &&
          ((sh.modules (sh.slots k).module).bind (·.current) == some k || k ∈ sh.retired)
        then { sh.slots k with client := false } else sh.slots k := rfl
    rw [hslot] at hk
    split at hk
    · cases hk
    · rename_i hmissed
      have hlt : k < sh.made := by
        by_contra hle
        rw [(hI.slots.fresh k (by omega)).2] at hk
        cases hk
      refine absurd (List.mem_filter.mpr ⟨List.mem_range.mpr hlt, ?_⟩) hmissed
      rw [hk, Bool.true_and, Bool.or_eq_true, beq_iff_eq, decide_eq_true_iff]
      exact (h k hk).2
  · intro k hk
    show ((if _ then _ else _ : Slot)).retired = true
    split <;> exact hk

theorem Keeps.judge (sh : Shared) (k : Nat) (err : CallError) : Keeps sh (sh.judge k err).1 := by
  obtain ⟨modules, hsame, hplace⟩ := judge_same sh k err
  rw [hsame]
  exact .of_slots rfl (fun _ => rfl) hplace fun _ hk => ⟨hk, id⟩

theorem Keeps.moveOut (sh : Shared) (k : Nat) : Keeps sh (sh.moveOut k) := by
  have hslot : ∀ k', (sh.moveOut k).slots k' =
      if k' = k then { sh.slots k with client := false } else sh.slots k' :=
    fun k' => Function.update_apply ..
  refine Keeps.of_slots rfl ?_ (fun _ => rfl) ?_
  · intro k'
    rw [hslot]
    split
    · rename_i heq
      rw [heq]
      rfl
    · rfl
  · intro k' hk
    rw [hslot] at hk
    split at hk
    · cases hk
    · rename_i hne
      exact ⟨hk, fun hmem => List.mem_filter.mpr ⟨hmem, bne_iff_ne.mpr hne⟩⟩

/-! ## Sections

None of the sections takes a slot that holds its client off both lists. -/

theorem Keeps.dropBox (sh : Shared) (b : Nat) : Keeps sh (sh.dropBox b) := by
  unfold Shared.dropBox
  dsimp only
  split <;> exact .of_same rfl rfl rfl rfl

theorem Keeps.finished (sh : Shared) (k c : Nat) (value : Json) (err : CallError) :
    Keeps sh (finished sh k c value err).shared := by
  have hjudged := (Keeps.setInFlight sh k ((sh.slots k).inFlight - 1)).trans (.judge _ k err)
  unfold Registry.finished
  dsimp only
  split
  · exact hjudged.trans (.moveOut _ k)
  · exact hjudged

/-- **Step.** -/
theorem Keeps.exec {x : Pc} {accepted : Bool} (hI : Inv sh (x ::ₘ others))
    (hexec : exec sh x accepted = some e) : Keeps sh e.shared := by
  cases x with
  | get m =>
      cases hexec
      unfold Registry.get
      dsimp only
      split
      · exact .refl sh
      · rename_i hopen
        have hcurrent := Keeps.currentLocked hI (by simpa using hopen) m
        split
        · exact hcurrent.trans (.setRefs _ _ _)
        · exact hcurrent
  -- the client is made if need be, gets a call more, and a reference
  | invoke m c =>
      cases hexec
      unfold Registry.invoke
      dsimp only
      split
      · exact .refl sh
      · rename_i hopen
        have hcurrent := Keeps.currentLocked hI (by simpa using hopen) m
        have hstarted := (hcurrent.trans (.setInFlight _ (sh.currentLocked m).2
          (((sh.currentLocked m).1.slots (sh.currentLocked m).2).inFlight + 1))).trans (.sweep _)
        split
        · exact hstarted.trans (.setRefs _ _ _)
        · exact hstarted
  | replace m epoch =>
      cases hexec
      unfold Registry.replace
      cases hmd : sh.modules m with
      | none => exact .refl sh
      | some md =>
          dsimp only
          cases hcur : md.current with
          | none => exact .refl sh
          | some old =>
              dsimp only
              split
              · exact .refl sh
              · rename_i hstale
                rw [Bool.or_eq_true, not_or, Bool.not_eq_true] at hstale
                exact (Keeps.replaceSlot hI hmd hcur hstale.1).trans (.sweep _)
  | close =>
      cases hexec
      exact .close hI
  | finished k c value err =>
      cases hexec
      exact .finished sh k c value err
  | release k b =>
      cases hexec
      refine Keeps.trans ?_ (.dropBox _ b)
      split <;> exact .of_same rfl rfl rfl rfl
  | postRelease k =>
      cases accepted <;>
      · cases hexec
        exact .of_same rfl rfl rfl rfl
  | dropBox k b =>
      cases hexec
      exact .dropBox sh b
  | submit | onReplaced | drop | keep | postReplace | done =>
      cases hexec
      exact .of_same rfl rfl rfl rfl

/-! ## What comes next

An inversion of `exec` for the sections it leaves, for proofs that follow a thread. -/

/-- Section `y` may come next after `x`, in the same thread. -/
inductive Pc.Leads (sh : Shared) : Pc → Pc → Prop
  | drop {x : Pc} {k : Nat} (hx : x.inside? = none) : Leads sh x (.drop k)
  | refuse {m : Bytes} {c : Nat} : Leads sh (.invoke m c) (.done none c .null stopping)
  | submit {m : Bytes} {c k : Nat} : Leads sh (.invoke m c) (.submit k c)
  | replaced {m : Bytes} {epoch epoch' : Nat} :
      Leads sh (.replace m epoch) (.onReplaced m epoch')
  | postRelease {k c : Nat} {value : Json} {err : CallError}
      (hretired : (sh.slots k).retired = true) :
      Leads sh (.finished k c value err) (.postRelease k)
  | postReplace {k c epoch : Nat} {value : Json} {err : CallError} {m : Bytes} :
      Leads sh (.finished k c value err) (.postReplace k m epoch)
  | done {k c : Nat} {value : Json} {err : CallError} :
      Leads sh (.finished k c value err) (.done (some k) c value err)
  | posted {k : Nat} : Leads sh (.postRelease k) (.dropBox k sh.madeBoxes)
  | refused {k : Nat} : Leads sh (.postRelease k) (.keep k sh.madeBoxes)
  | kept {k b : Nat} : Leads sh (.keep k b) (.dropBox k b)

theorem Pc.Leads.of_drops {x y : Pc} {l : List Nat} (hx : x.inside? = none)
    (hy : y ∈ l.map Pc.drop) : Pc.Leads sh x y := by
  obtain ⟨k, -, rfl⟩ := List.mem_map.mp hy
  exact .drop hx

/-- **Inversion.** -/
theorem exec_leads {x y : Pc} {accepted : Bool} (hexec : exec sh x accepted = some e)
    (hy : y ∈ e.next) : x.Leads sh y := by
  cases x with
  | get m =>
      cases hexec
      unfold Registry.get at hy
      dsimp only at hy
      repeat' split at hy
      · cases hy
      · rw [List.mem_singleton.mp hy]
        exact .drop rfl
      · cases hy
  | invoke m c =>
      cases hexec
      unfold Registry.invoke at hy
      dsimp only at hy
      repeat' split at hy
      · rw [List.mem_singleton.mp hy]
        exact .refuse
      · rcases List.mem_append.mp hy with hy | hy
        · exact .of_drops rfl hy
        · rw [List.mem_singleton.mp hy]
          exact .submit
      · rcases List.mem_append.mp hy with hy | hy
        · exact .of_drops rfl hy
        · rw [List.mem_singleton.mp hy]
          exact .refuse
  | replace m epoch =>
      cases hexec
      unfold Registry.replace at hy
      cases hmd : sh.modules m with
      | none =>
          rw [hmd] at hy
          cases hy
      | some md =>
          cases hcur : md.current with
          | none =>
              simp only [hmd, hcur] at hy
              cases hy
          | some old =>
              simp only [hmd, hcur] at hy
              by_cases hstale : (sh.closed || (sh.slots old).epoch != epoch) = true
              · rw [if_pos hstale] at hy
                cases hy
              · rw [if_neg hstale] at hy
                rcases List.mem_append.mp hy with hy | hy
                · rcases List.mem_append.mp hy with hy | hy
                  · obtain ⟨-, hy⟩ := List.mem_ite_nil_right.mp hy
                    rw [List.mem_singleton.mp hy]
                    exact .drop rfl
                  · exact .of_drops rfl hy
                · rw [List.mem_singleton.mp hy]
                  exact .replaced
  | close =>
      cases hexec
      exact .of_drops rfl hy
  | finished k c value err =>
      cases hexec
      rcases List.mem_append.mp hy with hy | hy
      · rcases List.mem_append.mp hy with hy | hy
        -- the last answer of a retired client that is still in its slot
        · obtain ⟨hdying, hy⟩ := List.mem_ite_nil_right.mp hy
          rw [List.mem_singleton.mp hy]
          rw [Bool.and_eq_true, Bool.and_eq_true] at hdying
          exact .postRelease hdying.1.1
        · obtain ⟨-, hy⟩ := List.mem_ite_nil_right.mp hy
          rw [List.mem_singleton.mp hy]
          exact .postReplace
      · rw [List.mem_singleton.mp hy]
        exact .done
  | submit k c =>
      cases hexec
      rw [List.mem_singleton.mp hy]
      exact .drop rfl
  | postRelease k =>
      cases accepted with
      | true =>
          cases hexec
          rw [List.mem_singleton.mp hy]
          exact .posted
      | false =>
          cases hexec
          rw [List.mem_singleton.mp hy]
          exact .refused
  | keep k b =>
      cases hexec
      rw [List.mem_singleton.mp hy]
      exact .kept
  | onReplaced | drop | release | dropBox | postReplace | done =>
      cases hexec
      cases hy

/-- What a section starts is a job of the pump. -/
theorem exec_spawn {x : Pc} {accepted : Bool} (hexec : exec sh x accepted = some e) :
    e.spawn = [] ∨ accepted = true ∧
      ((∃ k, x = .postRelease k ∧ e.spawn = [[.release k sh.madeBoxes]]) ∨
        ∃ k m epoch, x = .postReplace k m epoch ∧ e.spawn = [[.replace m epoch]]) := by
  cases x with
  | get m =>
      cases hexec
      left
      unfold Registry.get
      dsimp only
      repeat' split
      all_goals rfl
  | invoke m c =>
      cases hexec
      left
      unfold Registry.invoke
      dsimp only
      repeat' split
      all_goals rfl
  | replace m epoch =>
      cases hexec
      left
      unfold Registry.replace
      dsimp only
      repeat' split
      all_goals rfl
  | postRelease k =>
      cases accepted with
      | true =>
          cases hexec
          exact .inr ⟨rfl, .inl ⟨k, rfl, rfl⟩⟩
      | false =>
          cases hexec
          exact .inl rfl
  | postReplace k m epoch =>
      cases accepted with
      | true =>
          cases hexec
          exact .inr ⟨rfl, .inr ⟨k, m, epoch, rfl, rfl⟩⟩
      | false =>
          cases hexec
          exact .inl rfl
  | close | finished | submit | keep | onReplaced | drop | release | dropBox | done =>
      cases hexec
      exact .inl rfl

/-- A section goes on in the same callback, or in none. -/
theorem Pc.Leads.inside {x y : Pc} (h : x.Leads sh y) : y.inside? = x.inside? := by
  cases h with
  | drop hx => exact hx.symm
  | _ => rfl

/-! ## Who is given up

The release of a client begins with an answer that finds it retired and idle, and goes on in the
same callback. -/

/-- A section gives up a client that an earlier one gave up, or that has just come out of its
slot, which is retired. -/
theorem gives_made {x y : Pc} {accepted : Bool} (hexec : exec sh x accepted = some e)
    (hy : y ∈ e.made) {k : Nat} (hk : y.gives = some k) :
    x.gives = some k ∨ (sh.slots k).retired = true := by
  rcases Effect.mem_made.mp hy with hnext | ⟨t, ht, hyt⟩
  · cases exec_leads hexec hnext with
    | postRelease hretired =>
        cases hk
        exact .inr hretired
    | refused => exact .inl hk
    | _ => cases hk
  · rcases exec_spawn hexec with hnone | ⟨-, ⟨k', rfl, hspawn⟩ | ⟨k', m, epoch, rfl, hspawn⟩⟩
    · rw [hnone] at ht
      cases ht
    · rw [hspawn, List.mem_singleton] at ht
      rw [ht, List.mem_singleton] at hyt
      rw [hyt] at hk
      exact .inl hk
    · rw [hspawn, List.mem_singleton] at ht
      rw [ht, List.mem_singleton] at hyt
      rw [hyt] at hk
      cases hk

theorem unreleased_currentLocked (sh : Shared) (m : Bytes) :
    (sh.currentLocked m).1.unreleased = sh.unreleased := by
  unfold Shared.currentLocked
  dsimp only
  split <;> rfl

/-- A client comes into `m_unreleased` from a section that gives it up. -/
theorem unreleased_exec {x : Pc} {accepted : Bool} (hI : Inv sh (x ::ₘ others))
    (hexec : exec sh x accepted = some e) {k : Nat} (hk : k ∈ e.shared.unreleased) :
    k ∈ sh.unreleased ∨ x.gives = some k := by
  cases x with
  | get m =>
      cases hexec
      left
      unfold Registry.get at hk
      dsimp only at hk
      split at hk
      · exact hk
      · split at hk <;>
        · rw [← unreleased_currentLocked sh m]
          exact hk
  | invoke m c =>
      cases hexec
      left
      unfold Registry.invoke at hk
      dsimp only at hk
      split at hk
      · exact hk
      · split at hk <;>
        · rw [← unreleased_currentLocked sh m]
          exact hk
  | replace m epoch =>
      cases hexec
      left
      unfold Registry.replace at hk
      cases hmd : sh.modules m with
      | none =>
          rw [hmd] at hk
          exact hk
      | some md =>
          cases hcur : md.current with
          | none =>
              simp only [hmd, hcur] at hk
              exact hk
          | some old =>
              simp only [hmd, hcur] at hk
              split at hk <;> exact hk
  | close =>
      cases hexec
      cases hk
  | finished k' c value err =>
      cases hexec
      left
      obtain ⟨modules, hsame, -⟩ := judge_same (sh.setInFlight k' ((sh.slots k').inFlight - 1)) k' err
      have hunreleased : ((sh.setInFlight k' ((sh.slots k').inFlight - 1)).judge k' err).1.unreleased =
          sh.unreleased := by
        rw [hsame]
        rfl
      unfold Registry.finished at hk
      dsimp only at hk
      rw [← hunreleased]
      split at hk <;> exact hk
  | release k' b =>
      cases hexec
      left
      unfold Shared.dropBox at hk
      dsimp only at hk
      repeat' split at hk
      all_goals exact hk
  | postRelease k' =>
      left
      cases accepted <;>
      · cases hexec
        exact hk
  | dropBox k' b =>
      cases hexec
      left
      unfold Shared.dropBox at hk
      dsimp only at hk
      split at hk <;> exact hk
  | keep k' b =>
      cases hexec
      -- a release that was refused keeps its client here
      obtain ⟨hfull, hclient, -⟩ := hI.full rfl
      simp only [hfull, if_true, hclient, List.mem_append, List.mem_singleton] at hk
      exact hk.imp_right fun heq => congrArg some heq.symm
  | submit | onReplaced | drop | postReplace | done =>
      cases hexec
      exact .inl hk

/-- **Step.** -/
theorem Gives.exec {x : Pc} {accepted : Bool} (h : Gives sh (x ::ₘ others))
    (hI : Inv sh (x ::ₘ others)) (hexec : exec sh x accepted = some e) :
    Gives e.shared (e.made + others) := by
  have hkeeps := Keeps.exec hI hexec
  have hx : ∀ k, x.gives = some k → (sh.slots k).retired = true :=
    h.sections x (Multiset.mem_cons_self _ _)
  constructor
  · intro y hy k hk
    apply hkeeps.retired
    rcases Multiset.mem_add.mp hy with hmade | hother
    · exact (gives_made hexec hmade hk).elim (hx k) id
    · exact h.sections y (Multiset.mem_cons_of_mem hother) k hk
  · intro k hk
    apply hkeeps.retired
    exact (unreleased_exec hI hexec hk).elim (h.unreleased k) (hx k)

end JsonRpcBridge.Upstream.Registry
