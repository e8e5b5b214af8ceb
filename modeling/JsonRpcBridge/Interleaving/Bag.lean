import JsonRpcBridge.Interleaving.Basic

/-!
# Sections in a bag

A coarser run than `Run`: the pending sections are a bag, and any of them may run next, whatever
thread it belongs to. Every run is one (`Run.bag`), and `Bag.invariant` asks for the same two cases
as `Run.invariant`. A program that moves sections between threads, queues and pools of its own
refines another as soon as its sections are a bag that the other one reaches.
-/

namespace Interleaving

variable {σ α χ ε : Type}

/-- `Bag P G sh₀ p₀ sh p`: the shared state `sh` with the sections `p` pending is reached from `sh₀`
and `p₀`. -/
inductive Bag (P : Program σ α χ ε) (G : Guard σ α χ ε) (sh₀ : σ) (p₀ : Multiset α) :
    σ → Multiset α → Prop
  | start : Bag P G sh₀ p₀ sh₀ p₀
  | run {sh : σ} {a : α} {c : χ} {e : Effect σ α} {others : Multiset α} :
      Bag P G sh₀ p₀ sh (a ::ₘ others) → G.run sh (a ::ₘ others) a c → P.exec sh a c = some e →
      Bag P G sh₀ p₀ e.shared (e.made + others)
  | enter {sh : σ} {ev : ε} {e : Effect σ α} {p : Multiset α} :
      Bag P G sh₀ p₀ sh p → G.enter sh p ev → P.enter sh ev = some e →
      Bag P G sh₀ p₀ e.shared (e.made + p)

variable {P : Program σ α χ ε} {G : Guard σ α χ ε} {sh₀ sh : σ} {p₀ p : Multiset α}

/-- What every section and every entry point keeps. -/
theorem Bag.invariant {I : σ → Multiset α → Prop} (h₀ : I sh₀ p₀)
    (hrun : ∀ {sh : σ} {a : α} {c : χ} {e : Effect σ α} {others : Multiset α},
      I sh (a ::ₘ others) → G.run sh (a ::ₘ others) a c → P.exec sh a c = some e →
      I e.shared (e.made + others))
    (henter : ∀ {sh : σ} {ev : ε} {e : Effect σ α} {p : Multiset α},
      I sh p → G.enter sh p ev → P.enter sh ev = some e → I e.shared (e.made + p))
    (h : Bag P G sh₀ p₀ sh p) : I sh p := by
  induction h with
  | start => exact h₀
  | run _ hok hexec ih => exact hrun ih hok hexec
  | enter _ hok h ih => exact henter ih hok h

/-- A run forgets which thread a section belongs to. -/
theorem Run.bag {s₀ s : State σ α} (h : Run P G s₀ s) :
    Bag P G s₀.shared s₀.pending s.shared s.pending :=
  Run.invariant .start (fun ih hok hexec => ih.run hok hexec) (fun ih hok h => ih.enter hok h) h

end Interleaving
