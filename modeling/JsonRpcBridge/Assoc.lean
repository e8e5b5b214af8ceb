import Mathlib.Data.List.Basic

/-!
# Association lists as maps

A map kept as a list of pairs: `find` is `List.lookup`, `emplace` of a missing key appends, `erase`
filters.
-/

namespace List

variable {α β : Type} [BEq α] [LawfulBEq α]

theorem lookup_cons_if [DecidableEq α] (k k' : α) (v : β) (l : List (α × β)) :
    ((k, v) :: l).lookup k' = if k' = k then some v else l.lookup k' := by
  rw [List.lookup_cons]
  by_cases hk : k' = k
  · simp [hk]
  · have hbeq : (k' == k) = false := by simp [hk]
    rw [hbeq, if_neg hk]

/-- Erasing a key forgets it and no other. -/
theorem lookup_filter_ne [DecidableEq α] (l : List (α × β)) (k k' : α) :
    (l.filter fun e => e.1 != k).lookup k' = if k' = k then none else l.lookup k' := by
  induction l with
  | nil => simp
  | cons e rest ih =>
      by_cases he : e.1 = k
      · rw [List.filter_cons_of_neg (by simp [he]), ih]
        by_cases hk : k' = k
        · rw [if_pos hk, if_pos hk]
        · have hbeq : (k' == e.1) = false := by simp [he, hk]
          rw [if_neg hk, if_neg hk, List.lookup_cons, hbeq]
      · rw [List.filter_cons_of_pos (by simp [he]), List.lookup_cons, List.lookup_cons, ih]
        by_cases hke : k' = e.1
        · subst hke
          simp [he]
        · have hbeq : (k' == e.1) = false := by simp [hke]
          rw [hbeq]

/-- Appending a missing key adds it and leaves the others. -/
theorem lookup_append_singleton [DecidableEq α] {l : List (α × β)} {k : α} (v : β) (h : l.lookup k = none)
    (k' : α) : (l ++ [(k, v)]).lookup k' = if k' = k then some v else l.lookup k' := by
  rw [List.lookup_append, List.lookup_cons, List.lookup_nil]
  by_cases hk : k' = k
  · simp [hk, h]
  · have hbeq : (k' == k) = false := by simp [hk]
    simp [hk, hbeq]

omit [LawfulBEq α] in
/-- Changing the values keeps the keys. -/
theorem lookup_map_snd {γ : Type} (l : List (α × β)) (g : β → γ) (k : α) :
    (l.map fun e => (e.1, g e.2)).lookup k = (l.lookup k).map g := by
  induction l with
  | nil => rfl
  | cons e rest ih =>
      rw [List.map_cons, List.lookup_cons, List.lookup_cons, ih]
      cases k == e.1 <;> rfl

/-- A pair that is found is one of the list. -/
theorem mem_of_lookup {l : List (α × β)} {k : α} {v : β} (h : l.lookup k = some v) :
    (k, v) ∈ l := by
  obtain ⟨l₁, l₂, rfl, _⟩ := List.lookup_eq_some_iff.mp h
  simp

/-- Where each key stands once, an entry is what its key finds. -/
theorem lookup_of_mem [DecidableEq α] {l : List (α × β)} {k : α} {v : β}
    (hkeys : (l.map Prod.fst).Nodup) (h : (k, v) ∈ l) : l.lookup k = some v := by
  induction l with
  | nil => cases h
  | cons e rest ih =>
      obtain ⟨k₀, v₀⟩ := e
      obtain ⟨hnew, hrest⟩ := List.nodup_cons.mp hkeys
      rw [lookup_cons_if]
      rcases List.mem_cons.mp h with heq | hmem
      · cases heq
        rw [if_pos rfl]
      · have hne : k ≠ k₀ := by
          rintro rfl
          exact hnew (List.mem_map.mpr ⟨_, hmem, rfl⟩)
        rw [if_neg hne]
        exact ih hrest hmem

/-- Assigning a key. -/
theorem lookup_assign [DecidableEq α] (l : List (α × β)) (k : α) (v : β) (k' : α) :
    ((l.filter fun e => e.1 != k) ++ [(k, v)]).lookup k' =
      if k' = k then some v else l.lookup k' := by
  have hgone : (l.filter fun e => e.1 != k).lookup k = none := by
    rw [lookup_filter_ne, if_pos rfl]
  rw [lookup_append_singleton v hgone, lookup_filter_ne]
  by_cases hk : k' = k
  · rw [if_pos hk, if_pos hk]
  · rw [if_neg hk, if_neg hk, if_neg hk]

theorem filter_ne_of_lookup {l : List (α × β)} {k : α} (h : l.lookup k = none) :
    (l.filter fun e => e.1 != k) = l := by
  apply List.filter_eq_self.mpr
  intro e he
  have hne := List.lookup_eq_none_iff.mp h e he
  apply bne_iff_ne.mpr
  rintro rfl
  simp at hne

/-- Erasing a key that is bound erases one pair. -/
theorem countP_filter_ne {l : List (α × β)} {k : α} {v : β} (hkeys : (l.map Prod.fst).Nodup)
    (h : l.lookup k = some v) (p : α × β → Bool) :
    l.countP p = (l.filter fun e => e.1 != k).countP p + if p (k, v) then 1 else 0 := by
  induction l with
  | nil => cases h
  | cons e rest ih =>
      rw [List.map_cons, List.nodup_cons] at hkeys
      by_cases he : k = e.1
      · subst he
        rw [List.lookup_cons_self] at h
        obtain rfl := Option.some.inj h
        have hgone : (rest.filter fun e' => e'.1 != e.1) = rest := by
          apply List.filter_eq_self.mpr
          intro e' he'
          have hne : e'.1 ≠ e.1 := fun heq => hkeys.1 (heq ▸ List.mem_map_of_mem he')
          simpa using hne
        rw [List.filter_cons_of_neg (by simp), hgone, List.countP_cons]
      · have hbeq : (k == e.1) = false := by simpa using he
        rw [List.lookup_cons, hbeq] at h
        rw [List.filter_cons_of_pos (by simpa using Ne.symm he), List.countP_cons, List.countP_cons,
          ih hkeys.2 h]
        omega

end List
