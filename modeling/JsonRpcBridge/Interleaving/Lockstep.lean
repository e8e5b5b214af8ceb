import JsonRpcBridge.Interleaving.Basic

/-!
# Two programs in lockstep

Two programs with the same sections and entry points, each with a shared state of its own. When they
answer every section and every entry point alike on related states, they answer every list of moves
alike: `Lockstep.replay`.
-/

namespace Interleaving

variable {σ τ α χ ε : Type} {R : σ → τ → Prop}

/-- The same sections are left to be done, on related states. -/
structure Effect.Alike (R : σ → τ → Prop) (e : Effect σ α) (e' : Effect τ α) : Prop where
  shared : R e.shared e'.shared
  next : e'.next = e.next
  spawn : e'.spawn = e.spawn

/-- The same threads, on related states. -/
structure State.Alike (R : σ → τ → Prop) (s : State σ α) (s' : State τ α) : Prop where
  shared : R s.shared s'.shared
  threads : s'.threads = s.threads

structure Lockstep (R : σ → τ → Prop) (P : Program σ α χ ε) (Q : Program τ α χ ε) : Prop where
  exec : ∀ {sh : σ} {sh' : τ}, R sh sh' → ∀ a c,
    Option.Rel (Effect.Alike R) (P.exec sh a c) (Q.exec sh' a c)
  enter : ∀ {sh : σ} {sh' : τ}, R sh sh' → ∀ ev,
    Option.Rel (Effect.Alike R) (P.enter sh ev) (Q.enter sh' ev)

/-! ### Relations on options -/

theorem rel_mono {β γ : Type} {S T : β → γ → Prop} {x : Option β} {y : Option γ}
    (h : Option.Rel S x y) (hST : ∀ b c, S b c → T b c) : Option.Rel T x y := by
  cases h with
  | none => exact .none
  | some hbc => exact .some (hST _ _ hbc)

theorem rel_map {β γ β' γ' : Type} {S : β → γ → Prop} {T : β' → γ' → Prop} {x : Option β}
    {y : Option γ} {f : β → β'} {g : γ → γ'} (h : Option.Rel S x y)
    (hfg : ∀ b c, S b c → T (f b) (g c)) : Option.Rel T (x.map f) (y.map g) := by
  cases h with
  | none => exact .none
  | some hbc => exact .some (hfg _ _ hbc)

theorem rel_bind {β γ β' γ' : Type} {S : β → γ → Prop} {T : β' → γ' → Prop} {x : Option β}
    {y : Option γ} {f : β → Option β'} {g : γ → Option γ'} (h : Option.Rel S x y)
    (hfg : ∀ b c, S b c → Option.Rel T (f b) (g c)) : Option.Rel T (x.bind f) (y.bind g) := by
  cases h with
  | none => exact .none
  | some hbc => exact hfg _ _ hbc

theorem rel_ite {β γ : Type} {S : β → γ → Prop} {c : Prop} [Decidable c] {x y : Option β}
    {x' y' : Option γ} (hx : c → Option.Rel S x x') (hy : ¬c → Option.Rel S y y') :
    Option.Rel S (if c then x else y) (if c then x' else y') := by
  split
  · exact hx ‹_›
  · exact hy ‹_›

variable {P : Program σ α χ ε} {Q : Program τ α χ ε}

/-- **Step.** -/
theorem Lockstep.step (h : Lockstep R P Q) {s : State σ α} {s' : State τ α} (hs : s.Alike R s')
    (m : Move χ ε) : Option.Rel (State.Alike R) (P.step s m) (Q.step s' m) := by
  cases m with
  | run i c =>
      unfold Program.step
      dsimp only
      rw [hs.threads]
      split
      · rename_i a rest hthread
        apply rel_map (h.exec hs.shared a c)
        intro e e' he
        exact ⟨he.shared, by rw [he.next, he.spawn]⟩
      · exact .none
  | enter ev =>
      apply rel_map (h.enter hs.shared ev)
      intro e e' he
      exact ⟨he.shared, by rw [hs.threads, he.next, he.spawn]⟩

/-- **Run.** Both make every move of the list, or both get stuck at the same one. -/
theorem Lockstep.replay (h : Lockstep R P Q) {s : State σ α} {s' : State τ α} (hs : s.Alike R s')
    (ms : List (Move χ ε)) :
    Option.Rel (State.Alike R) (P.replay s ms) (Q.replay s' ms) := by
  unfold Program.replay
  induction ms generalizing s s' with
  | nil => exact .some hs
  | cons m ms ih =>
      rw [Program.replayIf, Program.replayIf, if_pos rfl, if_pos rfl]
      exact rel_bind (h.step hs m) fun t t' ht => ih ht

end Interleaving
