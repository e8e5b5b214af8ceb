import JsonRpcBridge.Interleaving.Basic

/-!
# A program inside a larger one

A program whose shared state is one part of a larger state, and whose sections are some of a larger
program's: `Effect.lift` is its effect seen from there.
-/

namespace Interleaving

variable {σ σ' α α' : Type}

def Effect.lift (put : σ → σ') (f : α → α') (e : Effect σ α) : Effect σ' α' where
  shared := put e.shared
  next := e.next.map f
  spawn := e.spawn.map fun t => t.map f

@[simp] theorem Effect.shared_lift (put : σ → σ') (f : α → α') (e : Effect σ α) :
    (e.lift put f).shared = put e.shared := rfl

theorem Effect.made_lift (put : σ → σ') (f : α → α') (e : Effect σ α) :
    (e.lift put f).made = e.made.map f := by
  rw [made, made, Multiset.map_coe, List.map_append, List.map_flatten]
  rfl

theorem Effect.mem_made_lift {put : σ → σ'} {f : α → α'} {e : Effect σ α} {y : α'} :
    y ∈ (e.lift put f).made ↔ ∃ x ∈ e.made, f x = y := by
  simp only [Effect.mem_made, Effect.lift, List.mem_map]
  constructor
  · rintro (⟨x, hx, rfl⟩ | ⟨_, ⟨t, ht, rfl⟩, hy⟩)
    · exact ⟨x, Or.inl hx, rfl⟩
    · obtain ⟨x, hx, rfl⟩ := List.mem_map.mp hy
      exact ⟨x, Or.inr ⟨t, ht, hx⟩, rfl⟩
  · rintro ⟨x, hx | ⟨t, ht, hx⟩, rfl⟩
    · exact Or.inl ⟨x, hx, rfl⟩
    · exact Or.inr ⟨_, ⟨t, ht, rfl⟩, List.mem_map_of_mem hx⟩

end Interleaving
