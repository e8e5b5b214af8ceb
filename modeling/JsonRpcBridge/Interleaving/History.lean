import JsonRpcBridge.Interleaving.Basic

/-!
# Runs with a history

Some properties speak of what has happened and not only of the state: which event came last, how
often something was done. `Logged` is a run that keeps notes of the sections it runs, `note` saying
which. The program itself does not see them, so every run can be logged (`Run.logged`).
-/

namespace Interleaving

variable {σ α χ ε ν : Type}

/-! ## Notes

A note is taken from the state, the section and the choice, just before the section runs. -/

/-- `Logged P G note s₀ h s`: a run from `s₀` to `s` whose sections left the notes `h`. -/
inductive Logged (P : Program σ α χ ε) (G : Guard σ α χ ε) (note : σ → α → χ → List ν)
    (s₀ : State σ α) : List ν → State σ α → Prop
  | start : Logged P G note s₀ [] s₀
  | run {h : List ν} {s s' : State σ α} {i : Nat} {c : χ} {a : α} :
      Logged P G note s₀ h s → s.head i = some a → G.Admits s (.run i c) →
      P.step s (.run i c) = some s' → Logged P G note s₀ (h ++ note s.shared a c) s'
  | enter {h : List ν} {s s' : State σ α} {ev : ε} :
      Logged P G note s₀ h s → G.Admits s (.enter ev) → P.step s (.enter ev) = some s' →
      Logged P G note s₀ h s'

variable {P : Program σ α χ ε} {G : Guard σ α χ ε} {note : σ → α → χ → List ν} {s₀ s : State σ α}

theorem Guard.admits_any (s : State σ α) (m : Move χ ε) : Guard.any.Admits s m := by
  cases m with
  | run i c => exact fun _ _ => trivial
  | enter ev => exact trivial

/-- A logged run is a run. -/
theorem Logged.toRun {h : List ν} (hlog : Logged P G note s₀ h s) : Run P G s₀ s := by
  induction hlog with
  | start => exact .start
  | run _ _ hok hstep ih => exact ih.move hok hstep
  | enter _ hok hstep ih => exact ih.move hok hstep

/-- Every run can be logged. -/
theorem Run.logged (note : σ → α → χ → List ν) (hrun : Run P G s₀ s) :
    ∃ h, Logged P G note s₀ h s := by
  induction hrun with
  | start => exact ⟨[], .start⟩
  | @move s s' m _ hok hstep ih =>
      obtain ⟨h, hlog⟩ := ih
      cases m with
      | run i c =>
          obtain ⟨a, _, _, hhead, -⟩ := Program.step_run hstep
          exact ⟨_, hlog.run hhead hok hstep⟩
      | enter ev => exact ⟨h, hlog.enter hok hstep⟩

/-- `Run.invariant` on top of what is already known of every state of the run. -/
theorem Run.invariant_with {J I : σ → Multiset α → Prop}
    (hknown : ∀ s, Run P G s₀ s → J s.shared s.pending) (h₀ : I s₀.shared s₀.pending)
    (hrun : ∀ {sh : σ} {a : α} {c : χ} {e : Effect σ α} {others : Multiset α},
      J sh (a ::ₘ others) → I sh (a ::ₘ others) → G.run sh (a ::ₘ others) a c →
      P.exec sh a c = some e → I e.shared (e.made + others))
    (henter : ∀ {sh : σ} {ev : ε} {e : Effect σ α} {p : Multiset α},
      J sh p → I sh p → G.enter sh p ev → P.enter sh ev = some e → I e.shared (e.made + p))
    (h : Run P G s₀ s) : I s.shared s.pending := by
  induction h with
  | start => exact h₀
  | @move s s' m hrun' hok hstep ih =>
      have hJ := hknown s hrun'
      cases m with
      | run i c =>
          obtain ⟨a, e, others, hhead, hexec, hp, hs, hp'⟩ := Program.step_run hstep
          rw [hs, hp']
          rw [hp] at ih hJ
          exact hrun hJ ih (hp ▸ hok a hhead) hexec
      | enter ev =>
          obtain ⟨e, he, hs, hp'⟩ := Program.step_enter hstep
          rw [hs, hp']
          exact henter hJ ih hok he

/-- The same for a property of the notes and the state. -/
theorem Logged.invariant {h : List ν} {J : σ → Multiset α → Prop}
    {I : List ν → σ → Multiset α → Prop} (hknown : ∀ s, Run P G s₀ s → J s.shared s.pending)
    (h₀ : I [] s₀.shared s₀.pending)
    (hrun : ∀ {h : List ν} {sh : σ} {a : α} {c : χ} {e : Effect σ α} {others : Multiset α},
      J sh (a ::ₘ others) → I h sh (a ::ₘ others) → G.run sh (a ::ₘ others) a c →
      P.exec sh a c = some e → I (h ++ note sh a c) e.shared (e.made + others))
    (henter : ∀ {h : List ν} {sh : σ} {ev : ε} {e : Effect σ α} {p : Multiset α},
      J sh p → I h sh p → G.enter sh p ev → P.enter sh ev = some e → I h e.shared (e.made + p))
    (hlog : Logged P G note s₀ h s) : I h s.shared s.pending := by
  induction hlog with
  | start => exact h₀
  | @run h s s' i c a hlog hhead hok hstep ih =>
      obtain ⟨b, e, others, hhead', hexec, hp, hs, hp'⟩ := Program.step_run hstep
      obtain rfl : a = b := Option.some.inj (hhead.symm.trans hhead')
      have hJ := hknown s hlog.toRun
      rw [hs, hp']
      rw [hp] at ih hJ
      exact hrun hJ ih (hp ▸ hok a hhead) hexec
  | enter hlog hok hstep ih =>
      obtain ⟨e, he, hs, hp'⟩ := Program.step_enter hstep
      rw [hs, hp']
      exact henter (hknown _ hlog.toRun) ih hok he

/-! ## Given moves -/

/-- What one move is noted as. -/
def State.noted (note : σ → α → χ → List ν) (s : State σ α) : Move χ ε → List ν
  | .run i c => (s.head i).elim [] fun a => note s.shared a c
  | .enter _ => []

/-- What the moves of a list are noted as. -/
def Program.notes (P : Program σ α χ ε) (note : σ → α → χ → List ν) (s : State σ α) :
    List (Move χ ε) → List ν
  | [] => []
  | m :: ms => s.noted note m ++ (P.step s m).elim [] fun s' => P.notes note s' ms

/-- Moves that pass a test for the guard extend a logged run. -/
theorem Logged.replayIf {ok : State σ α → Move χ ε → Bool}
    (hok : ∀ s m, ok s m = true → G.Admits s m) {h : List ν} {s' : State σ α}
    {ms : List (Move χ ε)} (hlog : Logged P G note s₀ h s) (hs' : P.replayIf ok s ms = some s') :
    Logged P G note s₀ (h ++ P.notes note s ms) s' := by
  induction ms generalizing s h with
  | nil =>
      cases hs'
      rwa [Program.notes, List.append_nil]
  | cons m ms ih =>
      rw [Program.replayIf] at hs'
      split at hs'
      · rename_i hm
        obtain ⟨t, hstep, hrest⟩ := Option.bind_eq_some_iff.mp hs'
        rw [Program.notes, hstep, Option.elim_some, ← List.append_assoc]
        apply ih ?_ hrest
        cases m with
        | run i c =>
            obtain ⟨a, _, _, hhead, -⟩ := Program.step_run hstep
            rw [State.noted, hhead, Option.elim_some]
            exact hlog.run hhead (hok s _ hm) hstep
        | enter ev =>
            rw [State.noted, List.append_nil]
            exact hlog.enter (hok s _ hm) hstep
      · cases hs'

theorem Logged.replayUnder [G.Decided] {h : List ν} {s' : State σ α} {ms : List (Move χ ε)}
    (hlog : Logged P G note s₀ h s) (hs' : P.replayUnder G s ms = some s') :
    Logged P G note s₀ (h ++ P.notes note s ms) s' :=
  hlog.replayIf Guard.admits_of_admits hs'

theorem Logged.replay {h : List ν} {s' : State σ α} {ms : List (Move χ ε)}
    (hlog : Logged P Guard.any note s₀ h s) (hs' : P.replay s ms = some s') :
    Logged P Guard.any note s₀ (h ++ P.notes note s ms) s' := by
  exact hlog.replayIf (fun s m _ => Guard.admits_any s m) hs'

end Interleaving
