import JsonRpcBridge.Interleaving.Basic
import Mathlib.Data.Multiset.Count

/-!
# Counting what pending sections hold

A section may hold a reference, a call, a right of which the shared state keeps a count. `carried`
is how many of the pending sections hold a given one.
-/

namespace Interleaving

variable {α τ : Type} [DecidableEq τ]

/-- How many of the sections hold `t`. -/
def carried (f : α → Option τ) (t : τ) (p : Multiset α) : Nat := p.countP fun x => f x = some t

variable {f : α → Option τ} {t : τ} {p q : Multiset α} {x : α}

@[simp] theorem carried_zero : carried f t 0 = 0 := Multiset.countP_zero _

@[simp] theorem carried_cons :
    carried f t (x ::ₘ p) = carried f t p + if f x = some t then 1 else 0 :=
  Multiset.countP_cons _ x p

theorem carried_cons_of_none (h : f x = none) : carried f t (x ::ₘ p) = carried f t p := by
  simp [h]

theorem carried_cons_of_some {u : τ} (h : f x = some u) :
    carried f t (x ::ₘ p) = carried f t p + if u = t then 1 else 0 := by
  simp [h]

@[simp] theorem carried_add : carried f t (p + q) = carried f t p + carried f t q :=
  Multiset.countP_add _ p q

@[simp] theorem carried_nil : carried f t (↑([] : List α) : Multiset α) = 0 := carried_zero

@[simp] theorem carried_singleton : carried f t {x} = if f x = some t then 1 else 0 := by
  rw [← Multiset.cons_zero, carried_cons, carried_zero, Nat.zero_add]

@[simp] theorem carried_coe_cons {l : List α} :
    carried f t (↑(x :: l) : Multiset α) = carried f t ↑l + if f x = some t then 1 else 0 := by
  rw [← Multiset.cons_coe, carried_cons]

@[simp] theorem carried_coe_append {l m : List α} :
    carried f t (↑(l ++ m) : Multiset α) = carried f t ↑l + carried f t ↑m := by
  rw [← Multiset.coe_add, carried_add]

theorem carried_pos : 0 < carried f t p ↔ ∃ x ∈ p, f x = some t := Multiset.countP_pos

theorem carried_eq_zero : carried f t p = 0 ↔ ∀ x ∈ p, f x ≠ some t := Multiset.countP_eq_zero

theorem carried_of_forall (h : ∀ x ∈ p, f x ≠ some t) : carried f t p = 0 :=
  Multiset.countP_eq_zero.mpr h

end Interleaving
