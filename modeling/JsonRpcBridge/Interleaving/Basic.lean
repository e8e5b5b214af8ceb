import Mathlib.Algebra.Order.Group.Multiset
import Mathlib.Data.Multiset.AddSub

/-!
# Interleaved threads of atomic sections

A concurrent program that guards its state with locks is a set of threads, each a sequence of
*atomic sections*: what a thread does while it holds a lock, or one call it makes without one. Any
thread may run its next section at any moment, and the environment may start new threads.

* `Program` gives the sections: `exec` runs one on the shared state, `enter` is an entry point
  called from outside.
* `State` is the shared state and what each thread still has to do; `State.pending` forgets which
  thread a section belongs to.
* `Run` is a run of the program in which every move satisfies a `Guard`. `Guard.any` asks for
  nothing, so `Run P Guard.any s₀ s` is plain reachability.
* `Guard.Decided` are the guards whose answers can be computed. Under one of these a list of moves
  can be replayed (`Program.replayUnder`), which is how a run is exhibited. Where the answers depend
  on choices that cannot be compared, `Program.choosing` fixes what is chosen among.

Invariants are proved over `(shared, pending)` by `Run.invariant`: one case for a section that
runs, one for an entry point that is called.
-/

namespace Interleaving

variable {σ α χ ε : Type}

/-- What one atomic section leaves behind: the shared state, what its own thread does next (before
what it still had to do), and the threads it starts. -/
structure Effect (σ α : Type) where
  shared : σ
  next : List α := []
  spawn : List (List α) := []

/-- Every section an effect adds to those pending. -/
def Effect.made (e : Effect σ α) : Multiset α := ↑(e.next ++ e.spawn.flatten)

theorem Effect.mem_made {e : Effect σ α} {x : α} :
    x ∈ e.made ↔ x ∈ e.next ∨ ∃ t ∈ e.spawn, x ∈ t := by
  simp [Effect.made]

theorem Effect.mem_made_next {e : Effect σ α} {x : α} (h : x ∈ e.next) : x ∈ e.made :=
  Effect.mem_made.mpr (.inl h)

theorem Effect.mem_made_spawn {e : Effect σ α} {x : α} {t : List α} (ht : t ∈ e.spawn)
    (h : x ∈ t) : x ∈ e.made :=
  Effect.mem_made.mpr (.inr ⟨t, ht, h⟩)

/-- What holds of the sections an effect adds and of those pending holds of all of them. -/
theorem Effect.forall_made {e : Effect σ α} {p : Multiset α} {Q : α → Prop}
    (hmade : ∀ x ∈ e.made, Q x) (hp : ∀ x ∈ p, Q x) : ∀ x ∈ e.made + p, Q x := by
  intro x hx
  rcases Multiset.mem_add.mp hx with h | h
  · exact hmade x h
  · exact hp x h

/-- The sections of a program. `χ` is what the environment decides inside a section (an answer, an
order), `ε` the entry points it may call. A section that cannot run now gives `none`. -/
structure Program (σ α χ ε : Type) where
  exec : σ → α → χ → Option (Effect σ α)
  enter : σ → ε → Option (Effect σ α)

/-- The shared state, and what each thread still has to do. -/
structure State (σ α : Type) where
  shared : σ
  threads : List (List α) := []

/-- The sections that some thread still has to run. -/
def State.pending (s : State σ α) : Multiset α := ↑s.threads.flatten

/-- The next section of thread `i`. -/
def State.head (s : State σ α) (i : Nat) : Option α := s.threads[i]?.bind List.head?

/-- Thread `i` runs its next section, or the environment calls an entry point. -/
inductive Move (χ ε : Type) where
  | run (i : Nat) (c : χ)
  | enter (ev : ε)

def Program.step (P : Program σ α χ ε) (s : State σ α) : Move χ ε → Option (State σ α)
  | .run i c =>
    match s.threads[i]? with
    | some (a :: rest) =>
      (P.exec s.shared a c).map fun e =>
        { shared := e.shared, threads := s.threads.set i (e.next ++ rest) ++ e.spawn }
    | _ => none
  | .enter ev =>
    (P.enter s.shared ev).map fun e =>
      { shared := e.shared, threads := s.threads ++ e.next :: e.spawn }

/-! ## What one move does to the pending sections

A section that runs is taken out and what it makes is put in, whichever thread it belongs to. -/

/-- Replacing the head of one thread replaces one pending section. -/
theorem flatten_set_cons {threads : List (List α)} {i : Nat} {a : α} {rest : List α}
    (h : threads[i]? = some (a :: rest)) :
    ∃ others : Multiset α, (↑threads.flatten : Multiset α) = a ::ₘ others ∧
      ∀ next : List α, (↑(threads.set i (next ++ rest)).flatten : Multiset α) = ↑next + others := by
  obtain ⟨hi, hget⟩ := List.getElem?_eq_some_iff.mp h
  refine ⟨↑((threads.take i).flatten ++ rest ++ (threads.drop (i + 1)).flatten), ?_, ?_⟩
  · have hsplit : threads = threads.take i ++ (a :: rest) :: threads.drop (i + 1) := by
      rw [← hget, List.getElem_cons_drop, List.take_append_drop]
    conv_lhs => rw [hsplit]
    simp only [List.flatten_append, List.flatten_cons, List.cons_append, List.append_assoc]
    exact Multiset.coe_eq_coe.mpr List.perm_middle
  · intro next
    rw [List.set_eq_take_append_cons_drop, if_pos hi]
    simp only [List.flatten_append, List.flatten_cons, List.append_assoc, Multiset.coe_add]
    exact Multiset.coe_eq_coe.mpr (List.perm_append_comm_assoc _ _ _)

theorem Program.step_run {P : Program σ α χ ε} {s s' : State σ α} {i : Nat} {c : χ}
    (h : P.step s (.run i c) = some s') :
    ∃ a e others, s.head i = some a ∧ P.exec s.shared a c = some e ∧
      s.pending = a ::ₘ others ∧ s'.shared = e.shared ∧ s'.pending = e.made + others := by
  simp only [Program.step] at h
  split at h
  case h_2 => cases h
  case h_1 a rest hget =>
    obtain ⟨e, hexec, rfl⟩ := Option.map_eq_some_iff.mp h
    obtain ⟨others, hp, hset⟩ := flatten_set_cons hget
    refine ⟨a, e, others, by simp [State.head, hget], hexec, hp, rfl, ?_⟩
    have hnext := hset e.next
    show (↑((s.threads.set i (e.next ++ rest) ++ e.spawn).flatten) : Multiset α) = _
    rw [List.flatten_append, ← Multiset.coe_add, hnext, Effect.made, ← Multiset.coe_add]
    exact add_right_comm _ _ _

theorem Program.step_enter {P : Program σ α χ ε} {s s' : State σ α} {ev : ε}
    (h : P.step s (.enter ev) = some s') :
    ∃ e, P.enter s.shared ev = some e ∧ s'.shared = e.shared ∧
      s'.pending = e.made + s.pending := by
  obtain ⟨e, henter, rfl⟩ := Option.map_eq_some_iff.mp h
  refine ⟨e, henter, rfl, ?_⟩
  show (↑((s.threads ++ e.next :: e.spawn).flatten) : Multiset α) = _
  rw [List.flatten_append, List.flatten_cons, ← Multiset.coe_add, add_comm]
  rfl

/-- The tokens that a pending section carries, set apart from those of the others. -/
theorem filterMap_cons_toList {τ : Type} (f : α → Option τ) (x : α) (p : Multiset α) :
    (x ::ₘ p).filterMap f = ↑(f x).toList + p.filterMap f := by
  cases hx : f x with
  | none => simp [Multiset.filterMap_cons_none x p hx]
  | some k => simp [Multiset.filterMap_cons_some f x p hx, Multiset.singleton_add]

/-! ## Runs -/

/-- A condition on the moves of a run: on a section that runs, in the shared state and with the
sections pending before it, and on an entry point that is called. -/
structure Guard (σ α χ ε : Type) where
  run : σ → Multiset α → α → χ → Prop
  enter : σ → Multiset α → ε → Prop

/-- The guard that admits every move. -/
def Guard.any : Guard σ α χ ε where
  run _ _ _ _ := True
  enter _ _ _ := True

def Guard.Admits (G : Guard σ α χ ε) (s : State σ α) : Move χ ε → Prop
  | .run i c => ∀ a, s.head i = some a → G.run s.shared s.pending a c
  | .enter ev => G.enter s.shared s.pending ev

/-- `Run P G s₀ s`: `s` is reached from `s₀` by moves that all satisfy `G`. -/
inductive Run (P : Program σ α χ ε) (G : Guard σ α χ ε) (s₀ : State σ α) : State σ α → Prop
  | start : Run P G s₀ s₀
  | move {s s' : State σ α} {m : Move χ ε} :
      Run P G s₀ s → G.Admits s m → P.step s m = some s' → Run P G s₀ s'

/-- What holds at the start, and is kept by every section that runs and every entry point that is
called, holds in every state of a run. -/
theorem Run.invariant {P : Program σ α χ ε} {G : Guard σ α χ ε} {s₀ s : State σ α}
    {I : σ → Multiset α → Prop} (h₀ : I s₀.shared s₀.pending)
    (hrun : ∀ {sh : σ} {a : α} {c : χ} {e : Effect σ α} {others : Multiset α},
      I sh (a ::ₘ others) → G.run sh (a ::ₘ others) a c → P.exec sh a c = some e →
      I e.shared (e.made + others))
    (henter : ∀ {sh : σ} {ev : ε} {e : Effect σ α} {p : Multiset α},
      I sh p → G.enter sh p ev → P.enter sh ev = some e → I e.shared (e.made + p))
    (h : Run P G s₀ s) : I s.shared s.pending := by
  induction h with
  | start => exact h₀
  | @move s s' m _ hok hstep ih =>
      cases m with
      | run i c =>
          obtain ⟨a, e, others, hhead, hexec, hp, hs, hp'⟩ := Program.step_run hstep
          rw [hs, hp']
          rw [hp] at ih
          exact hrun ih (hp ▸ hok a hhead) hexec
      | enter ev =>
          obtain ⟨e, he, hs, hp'⟩ := Program.step_enter hstep
          rw [hs, hp']
          exact henter ih hok he

/-- A run may go on under a guard that admits less. -/
theorem Run.trans {P : Program σ α χ ε} {G G' : Guard σ α χ ε} {s₀ s s' : State σ α}
    (hle : ∀ s m, G'.Admits s m → G.Admits s m) (h : Run P G s₀ s) (h' : Run P G' s s') :
    Run P G s₀ s' := by
  induction h' with
  | start => exact h
  | move _ hok hstep ih => exact ih.move (hle _ _ hok) hstep

/-- A run under one guard is a run under another that admits as much in the states it reaches. -/
theorem Run.weaken {P : Program σ α χ ε} {G G' : Guard σ α χ ε} {s₀ s : State σ α}
    (hle : ∀ {t m}, Run P G s₀ t → G.Admits t m → G'.Admits t m) (h : Run P G s₀ s) :
    Run P G' s₀ s := by
  induction h with
  | start => exact .start
  | move h hok hstep ih => exact ih.move (hle h hok) hstep

/-- A guard may be dropped. -/
theorem Run.toAny {P : Program σ α χ ε} {G : Guard σ α χ ε} {s₀ s : State σ α}
    (h : Run P G s₀ s) : Run P Guard.any s₀ s := by
  refine h.weaken ?_
  intro s m _ _
  cases m with
  | run i c => exact fun _ _ => trivial
  | enter ev => exact trivial

/-- The state after a list of moves that all pass a test. -/
def Program.replayIf (P : Program σ α χ ε) (ok : State σ α → Move χ ε → Bool) (s : State σ α) :
    List (Move χ ε) → Option (State σ α)
  | [] => some s
  | m :: ms => if ok s m then (P.step s m).bind fun s' => P.replayIf ok s' ms else none

/-- The state after a list of moves. -/
def Program.replay (P : Program σ α χ ε) (s : State σ α) (ms : List (Move χ ε)) :
    Option (State σ α) :=
  P.replayIf (fun _ _ => true) s ms

/-- Moves that pass a test for the guard extend a run. The test may rest on what is known of the
states, if it keeps it. -/
theorem Run.replayIf_with {P : Program σ α χ ε} {G : Guard σ α χ ε}
    {ok : State σ α → Move χ ε → Bool} {J : State σ α → Prop}
    (hok : ∀ s m, J s → ok s m = true → G.Admits s m)
    (hkeep : ∀ s m s', J s → ok s m = true → P.step s m = some s' → J s')
    {s₀ s s' : State σ α} {ms : List (Move χ ε)} (hJ : J s) (hrun : Run P G s₀ s)
    (h : P.replayIf ok s ms = some s') : Run P G s₀ s' := by
  induction ms generalizing s with
  | nil =>
      cases h
      exact hrun
  | cons m ms ih =>
      rw [Program.replayIf] at h
      split at h
      · rename_i hm
        obtain ⟨t, hstep, hrest⟩ := Option.bind_eq_some_iff.mp h
        exact ih (hkeep s m t hJ hm hstep) (hrun.move (hok s m hJ hm) hstep) hrest
      · cases h

theorem Run.replayIf {P : Program σ α χ ε} {G : Guard σ α χ ε}
    {ok : State σ α → Move χ ε → Bool} (hok : ∀ s m, ok s m = true → G.Admits s m)
    {s₀ s s' : State σ α} {ms : List (Move χ ε)} (hrun : Run P G s₀ s)
    (h : P.replayIf ok s ms = some s') : Run P G s₀ s' :=
  hrun.replayIf_with (fun s m _ => hok s m) (fun _ _ _ _ _ _ => trivial) trivial h

/-! ## Guards that can be computed

A run on given moves is checked by evaluation, with the guard asked at each move. -/

/-- A guard whose answers can be computed. -/
class Guard.Decided (G : Guard σ α χ ε) where
  run : ∀ (sh : σ) (p : Multiset α) (a : α) (c : χ), Decidable (G.run sh p a c)
  enter : ∀ (sh : σ) (p : Multiset α) (ev : ε), Decidable (G.enter sh p ev)

instance (G : Guard σ α χ ε) [h : G.Decided] (sh : σ) (p : Multiset α) (a : α) (c : χ) :
    Decidable (G.run sh p a c) := h.run sh p a c

instance (G : Guard σ α χ ε) [h : G.Decided] (sh : σ) (p : Multiset α) (ev : ε) :
    Decidable (G.enter sh p ev) := h.enter sh p ev

/-- Whether a guard admits a move. -/
def Guard.admits (G : Guard σ α χ ε) [G.Decided] (s : State σ α) : Move χ ε → Bool
  | .run i c =>
    match s.head i with
    | none => true
    | some a => decide (G.run s.shared s.pending a c)
  | .enter ev => decide (G.enter s.shared s.pending ev)

theorem Guard.admits_of_admits {G : Guard σ α χ ε} [G.Decided] (s : State σ α) (m : Move χ ε)
    (h : G.admits s m = true) : G.Admits s m := by
  cases m with
  | run i c =>
      intro a ha
      unfold Guard.admits at h
      dsimp only at h
      rw [ha] at h
      exact of_decide_eq_true h
  | enter ev => exact of_decide_eq_true (p := G.enter s.shared s.pending ev) h

/-- The state after a list of moves that a guard admits. -/
def Program.replayUnder (P : Program σ α χ ε) (G : Guard σ α χ ε) [G.Decided] (s : State σ α)
    (ms : List (Move χ ε)) : Option (State σ α) :=
  P.replayIf G.admits s ms

theorem Run.replayUnder {P : Program σ α χ ε} {G : Guard σ α χ ε} [G.Decided] {s₀ s s' : State σ α}
    {ms : List (Move χ ε)} (hrun : Run P G s₀ s) (h : P.replayUnder G s ms = some s') :
    Run P G s₀ s' :=
  hrun.replayIf Guard.admits_of_admits h

/-! ## Some of the choices

A program whose environment has less to choose from has fewer runs, and all of them are runs of
the program. -/

/-- The program whose environment chooses among the values of `f`. -/
def Program.choosing {χ' : Type} (P : Program σ α χ ε) (f : χ' → χ) : Program σ α χ' ε where
  exec s a c := P.exec s a (f c)
  enter := P.enter

/-- What a guard says of such a choice. -/
def Guard.choosing {χ' : Type} (G : Guard σ α χ ε) (f : χ' → χ) : Guard σ α χ' ε where
  run s p a c := G.run s p a (f c)
  enter := G.enter

instance {χ' : Type} (G : Guard σ α χ ε) [G.Decided] (f : χ' → χ) : (G.choosing f).Decided where
  run s p a c := (inferInstance : Decidable (G.run s p a (f c)))
  enter s p ev := (inferInstance : Decidable (G.enter s p ev))

/-- A run of it is a run of the program, under every guard that admits as much of these choices. -/
theorem Run.of_choosing {χ' : Type} {P : Program σ α χ ε} {G G' : Guard σ α χ ε} {f : χ' → χ}
    {s₀ s : State σ α} (hrun : ∀ {sh p a c}, G'.run sh p a (f c) → G.run sh p a (f c))
    (henter : ∀ {sh p ev}, G'.enter sh p ev → G.enter sh p ev)
    (h : Run (P.choosing f) (G'.choosing f) s₀ s) : Run P G s₀ s := by
  induction h with
  | start => exact .start
  | @move s s' m _ hok hstep ih =>
      cases m with
      | run i c => exact ih.move (m := .run i (f c)) (fun a ha => hrun (hok a ha)) hstep
      | enter ev => exact ih.move (m := .enter ev) (henter hok) hstep

/-! ## Runs without a guard

Where nothing is asked, a list of moves that can be made is a run. -/

theorem Run.replay {P : Program σ α χ ε} {s₀ s s' : State σ α} {ms : List (Move χ ε)}
    (hrun : Run P Guard.any s₀ s) (h : P.replay s ms = some s') : Run P Guard.any s₀ s' := by
  apply hrun.replayIf ?_ h
  intro s m _
  cases m with
  | run i c => exact fun _ _ => trivial
  | enter ev => exact trivial

end Interleaving
