import JsonRpcBridge.Interleaving.Basic

/-!
# Programs that come to an end

* `Trailing`: sections that a program may block on stand last in their thread. Then what holds of the
  next section of every thread, and of no other kind of section, holds of all that are pending
  (`forall_pending_of_heads`): where no thread can move, no section can run.
* `replayIf_bound`: when every section that runs lowers a measure, and an entry point raises it by `K`
  at most, only so many sections can run.
-/

namespace Interleaving

variable {σ α χ ε : Type} {P : Program σ α χ ε} {G : Guard σ α χ ε} {s₀ s s' : State σ α}
  {Q R : α → Prop}

/-! ## Sections that stand last

A section that may block is the last of its thread, so nothing else of the thread is held up by
it. -/

/-- All sections of a thread but the last satisfy `Q`. -/
def Trails (Q : α → Prop) (t : List α) : Prop := ∀ x ∈ t.dropLast, Q x

theorem trails_nil : Trails Q ([] : List α) := fun _ hx => absurd hx List.not_mem_nil

theorem trails_singleton (x : α) : Trails Q [x] := fun _ hx => absurd hx List.not_mem_nil

theorem trails_append {l r : List α} (hl : ∀ x ∈ l, Q x) (hr : Trails Q r) : Trails Q (l ++ r) := by
  intro x hx
  cases r with
  | nil =>
      rw [List.append_nil] at hx
      exact hl x (List.dropLast_subset l hx)
  | cons y r =>
      rw [List.dropLast_append_of_ne_nil (List.cons_ne_nil _ _)] at hx
      rcases List.mem_append.mp hx with hx | hx
      · exact hl x hx
      · exact hr x hx

/-- A section that satisfies `Q` leaves its thread only such sections; another one leaves at most
one that does not, as the last. -/
structure Program.Trailing (P : Program σ α χ ε) (Q : α → Prop) : Prop where
  exec : ∀ {sh : σ} {a : α} {c : χ} {e : Effect σ α}, P.exec sh a c = some e →
    (Q a → ∀ x ∈ e.next, Q x) ∧ Trails Q e.next ∧ ∀ t ∈ e.spawn, Trails Q t
  enter : ∀ {sh : σ} {ev : ε} {e : Effect σ α}, P.enter sh ev = some e →
    Trails Q e.next ∧ ∀ t ∈ e.spawn, Trails Q t

theorem Program.Trailing.step (hP : P.Trailing Q) {m : Move χ ε} (hs : ∀ t ∈ s.threads, Trails Q t)
    (h : P.step s m = some s') : ∀ t ∈ s'.threads, Trails Q t := by
  intro t ht
  cases m with
  | run i c =>
      simp only [Program.step] at h
      split at h
      · rename_i a rest hget
        obtain ⟨e, hexec, rfl⟩ := Option.map_eq_some_iff.mp h
        obtain ⟨hkeeps, hnext, hspawn⟩ := hP.exec hexec
        have hthread := hs _ (List.mem_of_getElem? hget)
        rcases List.mem_append.mp ht with ht | ht
        · rcases List.mem_or_eq_of_mem_set ht with ht | rfl
          · exact hs t ht
          cases rest with
          | nil =>
              rw [List.append_nil]
              exact hnext
          | cons y rest =>
              -- more is to come after `a`, so `a` satisfies `Q`
              apply trails_append (hkeeps (hthread a List.mem_cons_self))
              exact fun x hx => hthread x (List.mem_cons_of_mem _ hx)
        · exact hspawn t ht
      · cases h
  | enter ev =>
      obtain ⟨e, henter, rfl⟩ := Option.map_eq_some_iff.mp h
      obtain ⟨hnext, hspawn⟩ := hP.enter henter
      rcases List.mem_append.mp ht with ht | ht
      · exact hs t ht
      · rcases List.mem_cons.mp ht with rfl | ht
        · exact hnext
        · exact hspawn t ht

theorem Program.Trailing.run (hP : P.Trailing Q) (h₀ : ∀ t ∈ s₀.threads, Trails Q t)
    (hrun : Run P G s₀ s) : ∀ t ∈ s.threads, Trails Q t := by
  induction hrun with
  | start => exact h₀
  | move _ _ hstep ih => exact hP.step ih hstep

/-! ### From heads to all sections -/

/-- What holds of the next section of every thread holds of all that are pending, unless it holds of
a section that satisfies `Q`. -/
theorem forall_pending_of_heads (hs : ∀ t ∈ s.threads, Trails Q t)
    (hheads : ∀ i a, s.head i = some a → R a) (hQ : ∀ a ∈ s.pending, Q a → ¬R a) :
    ∀ a ∈ s.pending, R a := by
  intro a ha
  obtain ⟨t, ht, hat⟩ := List.mem_flatten.mp ha
  obtain ⟨i, hi, rfl⟩ := List.mem_iff_getElem.mp ht
  cases hthread : s.threads[i] with
  | nil =>
      rw [hthread] at hat
      exact absurd hat List.not_mem_nil
  | cons y rest =>
      have hhead : R y := by
        apply hheads i
        rw [State.head, List.getElem?_eq_getElem hi, hthread]
        rfl
      rw [hthread] at hat
      rcases List.mem_cons.mp hat with rfl | hrest
      · exact hhead
      · have hy : Q y := by
          apply hs _ ht
          rw [hthread, List.dropLast_cons_of_ne_nil (List.ne_nil_of_mem hrest)]
          exact List.mem_cons_self
        refine absurd hhead (hQ y (List.mem_flatten.mpr ⟨_, ht, ?_⟩) hy)
        rw [hthread]
        exact List.mem_cons_self

theorem mem_pending_of_head {i : Nat} {a : α} (ha : s.head i = some a) : a ∈ s.pending := by
  obtain ⟨t, ht, hhead⟩ := Option.bind_eq_some_iff.mp ha
  exact List.mem_flatten.mpr ⟨t, List.mem_of_getElem? ht, List.mem_of_head? hhead⟩

/-- A thread that cannot move has a section that cannot run. -/
theorem blocked_of_stuck {i : Nat} {a : α} {c : χ} (hstuck : P.step s (.run i c) = none)
    (ha : s.head i = some a) : P.exec s.shared a c = none := by
  obtain ⟨t, ht, hhead⟩ := Option.bind_eq_some_iff.mp ha
  obtain ⟨rest, rfl⟩ := List.head?_eq_some_iff.mp hhead
  rw [Program.step, ht] at hstuck
  exact Option.map_eq_none_iff.mp hstuck

/-! ## A bound on the sections that run

Sections lower a number and entry points raise it, each by as much as is known of it. So the
number bounds how many sections run. -/

def Move.isRun : Move χ ε → Bool
  | .run _ _ => true
  | .enter _ => false

/-- `I` holds all along, every section that runs lowers `f`, and every entry point that is
called raises it by `K` at most. -/
theorem Program.replayIf_bound {ok : State σ α → Move χ ε → Bool} {I : State σ α → Prop}
    {f : State σ α → Nat} {K : Nat}
    (hrun : ∀ {s s' : State σ α} {i : Nat} {c : χ}, I s → ok s (.run i c) = true →
      P.step s (.run i c) = some s' → I s' ∧ f s' < f s)
    (henter : ∀ {s s' : State σ α} {ev : ε}, I s → ok s (.enter ev) = true →
      P.step s (.enter ev) = some s' → I s' ∧ f s' ≤ f s + K)
    {ms : List (Move χ ε)} (hI : I s) (h : P.replayIf ok s ms = some s') :
    I s' ∧ ms.countP Move.isRun + f s' ≤ f s + K * ms.countP fun m => !m.isRun := by
  induction ms generalizing s with
  | nil =>
      cases h
      exact ⟨hI, by simp⟩
  | cons m ms ih =>
      rw [Program.replayIf] at h
      split at h
      · rename_i hok
        obtain ⟨t, hstep, hrest⟩ := Option.bind_eq_some_iff.mp h
        cases m with
        | run i c =>
            obtain ⟨ht, hlt⟩ := hrun hI hok hstep
            obtain ⟨hs', hle⟩ := ih ht hrest
            refine ⟨hs', ?_⟩
            rw [List.countP_cons_of_pos rfl, List.countP_cons_of_neg (by simp [Move.isRun])]
            omega
        | enter ev =>
            obtain ⟨ht, hlt⟩ := henter hI hok hstep
            obtain ⟨hs', hle⟩ := ih ht hrest
            refine ⟨hs', ?_⟩
            rw [List.countP_cons_of_neg (by simp [Move.isRun]),
              List.countP_cons_of_pos (by simp [Move.isRun]), Nat.mul_succ]
            omega
      · cases h

/-- The moves of a replay have all passed the test. -/
theorem Program.replayIf_forall {ok : State σ α → Move χ ε → Bool} {T : Move χ ε → Prop}
    (hok : ∀ s m, ok s m = true → T m) {ms : List (Move χ ε)} (h : P.replayIf ok s ms = some s') :
    ∀ m ∈ ms, T m := by
  induction ms generalizing s with
  | nil => exact fun m hm => absurd hm List.not_mem_nil
  | cons m ms ih =>
      rw [Program.replayIf] at h
      split at h
      · rename_i hm
        obtain ⟨t, -, hrest⟩ := Option.bind_eq_some_iff.mp h
        intro n hn
        rcases List.mem_cons.mp hn with rfl | hn
        · exact hok s n hm
        · exact ih hrest n hn
      · cases h

end Interleaving
