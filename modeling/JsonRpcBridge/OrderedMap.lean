import JsonRpcBridge.Assoc
import Mathlib.Tactic.SplitIfs

/-!
# Ordered maps

A map kept as the list of its pairs in the order of their keys, as `std::map` iterates over it. The
order `lt` is any strict total one (`StrictOrder`).

* `assign` is `m[k] = v`; `emplace` keeps the value that a key already has. What is found afterwards
  does not depend on the order: `lookup_assign`, `lookup_emplace`.
* `Sorted` is kept by `assign`, and each key of a sorted map stands once: `Sorted.mem_assign` says
  which pairs an assignment leaves.
-/

namespace OrderedMap

/-- A strict total order, as a map asks of its `std::less`. -/
class StrictOrder {α : Type} (lt : α → α → Bool) : Prop where
  irrefl : ∀ a, lt a a = false
  trans : ∀ {a b c}, lt a b = true → lt b c = true → lt a c = true
  total : ∀ {a b}, a ≠ b → lt a b = false → lt b a = true

variable {α β : Type} [BEq α] (lt : α → α → Bool)

/-- `m[k] = v`. -/
def assign (k : α) (v : β) : List (α × β) → List (α × β)
  | [] => [(k, v)]
  | (k', v') :: l =>
    if k == k' then (k, v) :: l
    else if lt k k' then (k, v) :: (k', v') :: l
    else (k', v') :: assign k v l

/-- `m.emplace(k, v)`: the first value of a key stays. -/
def emplace (k : α) (v : β) : List (α × β) → List (α × β)
  | [] => [(k, v)]
  | (k', v') :: l =>
    if k == k' then (k', v') :: l
    else if lt k k' then (k, v) :: (k', v') :: l
    else (k', v') :: emplace k v l

/-- The pairs stand in the order of their keys. -/
def Sorted (l : List (α × β)) : Prop := l.Pairwise fun a b => lt a.1 b.1 = true

/-! ## What is found

Neither the order nor that the list is sorted matters for what a key finds. -/

variable {lt} {k k' : α} {v : β} {e : α × β} {l : List (α × β)}

theorem mem_assign (h : e ∈ assign lt k v l) : e = (k, v) ∨ e ∈ l := by
  induction l with
  | nil => exact Or.inl (List.mem_singleton.mp h)
  | cons x l ih =>
      rw [assign] at h
      split_ifs at h
      · rcases List.mem_cons.mp h with h | h
        · exact Or.inl h
        · exact Or.inr (List.mem_cons_of_mem _ h)
      · exact List.mem_cons.mp h
      · rcases List.mem_cons.mp h with rfl | h
        · exact Or.inr List.mem_cons_self
        · exact (ih h).imp_right (List.mem_cons_of_mem _)

theorem mem_emplace (h : e ∈ emplace lt k v l) : e = (k, v) ∨ e ∈ l := by
  induction l with
  | nil => exact Or.inl (List.mem_singleton.mp h)
  | cons x l ih =>
      rw [emplace] at h
      split_ifs at h
      · exact Or.inr h
      · exact List.mem_cons.mp h
      · rcases List.mem_cons.mp h with rfl | h
        · exact Or.inr List.mem_cons_self
        · exact (ih h).imp_right (List.mem_cons_of_mem _)

theorem length_assign_le (lt : α → α → Bool) (k : α) (v : β) (l : List (α × β)) :
    (assign lt k v l).length ≤ l.length + 1 := by
  induction l with
  | nil => exact Nat.le_refl _
  | cons x l ih =>
      rw [assign]
      split_ifs <;> simp only [List.length_cons] <;> omega

section Lookup

variable [LawfulBEq α] [DecidableEq α]

theorem lookup_assign (k k' : α) (v : β) (l : List (α × β)) :
    (assign lt k v l).lookup k' = if k' = k then some v else l.lookup k' := by
  induction l with
  | nil => rw [assign, List.lookup_cons_if]
  | cons x l ih =>
      obtain ⟨k₀, v₀⟩ := x
      rw [assign]
      by_cases hk₀ : k = k₀
      · subst hk₀
        rw [if_pos (by simp), List.lookup_cons_if, List.lookup_cons_if]
        split <;> rfl
      · rw [if_neg (by simpa using hk₀)]
        split
        · rw [List.lookup_cons_if]
        · rw [List.lookup_cons_if, List.lookup_cons_if, ih]
          by_cases hk : k' = k
          · subst hk
            simp [hk₀]
          · rw [if_neg hk, if_neg hk]

omit [DecidableEq α] in
/-- A new key is put in where it would be assigned. -/
theorem emplace_eq_assign (h : k ∉ l.map Prod.fst) : emplace lt k v l = assign lt k v l := by
  induction l with
  | nil => rfl
  | cons x l ih =>
      rw [List.map_cons, List.mem_cons, not_or] at h
      have hbeq : ¬(k == x.1) = true := by simpa using h.1
      rw [emplace, assign, if_neg hbeq, if_neg hbeq, ih h.2]

theorem lookup_emplace (h : l.lookup k = none) (k' : α) (v : β) :
    (emplace lt k v l).lookup k' = if k' = k then some v else l.lookup k' := by
  have hnew : k ∉ l.map Prod.fst := by
    intro hmem
    obtain ⟨x, hx, rfl⟩ := List.mem_map.mp hmem
    have hne := List.lookup_eq_none_iff.mp h x hx
    simp at hne
  rw [emplace_eq_assign hnew, lookup_assign]

end Lookup

/-! ## Sorted maps

In a sorted map a key stands once, so that what is in the list and what is found are the same. -/

section Order

variable [StrictOrder lt]

omit [BEq α] in
theorem Sorted.nodup_keys (h : Sorted lt l) : (l.map Prod.fst).Nodup := by
  apply List.pairwise_map.mpr
  refine h.imp fun {a b} hlt heq => ?_
  have hirrefl : lt b.1 b.1 = false := StrictOrder.irrefl b.1
  rw [heq, hirrefl] at hlt
  cases hlt

variable [LawfulBEq α]

theorem Sorted.assign (h : Sorted lt l) (k : α) (v : β) : Sorted lt (assign lt k v l) := by
  induction l with
  | nil => exact List.pairwise_singleton _ _
  | cons x l ih =>
      obtain ⟨hhead, htail⟩ := List.pairwise_cons.mp h
      rw [OrderedMap.assign]
      split
      · rename_i heq
        obtain rfl := beq_iff_eq.mp heq
        exact List.pairwise_cons.mpr ⟨hhead, htail⟩
      · rename_i hne
        split
        · rename_i hlt
          refine List.pairwise_cons.mpr ⟨?_, h⟩
          intro b hb
          rcases List.mem_cons.mp hb with rfl | hb
          · exact hlt
          · exact StrictOrder.trans hlt (hhead b hb)
        · rename_i hge
          refine List.pairwise_cons.mpr ⟨?_, ih htail⟩
          intro b hb
          rcases OrderedMap.mem_assign hb with rfl | hb
          · exact StrictOrder.total (by simpa using hne) (by simpa using hge)
          · exact hhead b hb

variable [DecidableEq α]

/-- A pair of a sorted map is what its key finds. -/
theorem Sorted.mem_iff (h : Sorted lt l) : e ∈ l ↔ l.lookup e.1 = some e.2 :=
  ⟨List.lookup_of_mem h.nodup_keys, List.mem_of_lookup⟩

theorem Sorted.unique {v' : β} (h : Sorted lt l) (hv : (k, v) ∈ l) (hv' : (k, v') ∈ l) : v = v' :=
  Option.some.inj ((h.mem_iff.mp hv).symm.trans (h.mem_iff.mp hv'))

/-- An assignment leaves its own pair, and those of the other keys. -/
theorem Sorted.mem_assign (h : Sorted lt l) :
    e ∈ OrderedMap.assign lt k v l ↔ e = (k, v) ∨ e ∈ l ∧ e.1 ≠ k := by
  rw [(h.assign k v).mem_iff, lookup_assign, h.mem_iff]
  obtain ⟨k₀, v₀⟩ := e
  by_cases hk : k₀ = k
  · subst hk
    simp [eq_comm]
  · simp [hk]

end Order

end OrderedMap
