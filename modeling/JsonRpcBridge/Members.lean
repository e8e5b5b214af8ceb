import JsonRpcBridge.Json
import Mathlib.Data.Finset.Card
import Mathlib.Data.List.Nodup
import Mathlib.Data.List.Perm.Basic

/-!
# Objects written by assignment

`assignAll A` is the object that the assignments `A` make of an empty one: of two assignments to one
key the later stays. What is collected of its members is what was assigned, each once, exactly when
no two of the assignments that count share a key (`perm_filterMap`, `nodup_of_length`).
-/

namespace JsonRpcBridge

namespace Json

/-! ## Assignments

The last assignment to a key counts. -/

def assignAll (A : List (Bytes × Json)) : List (Bytes × Json) :=
  A.foldl (fun ms kv => OrderedMap.assign bytesLt kv.1 kv.2 ms) []

variable {A : List (Bytes × Json)} {a : Bytes × Json} {k : Bytes}

theorem sorted_assignAll (A : List (Bytes × Json)) : OrderedMap.Sorted bytesLt (assignAll A) :=
  List.foldlRecOn (motive := OrderedMap.Sorted bytesLt) A _ List.Pairwise.nil fun _ h kv _ =>
    h.assign kv.1 kv.2

theorem set_assignAll (A : List (Bytes × Json)) (k : Bytes) (v : Json) :
    (Json.obj (assignAll A)).set k v = .obj (assignAll (A ++ [(k, v)])) := by
  unfold assignAll
  rw [List.foldl_append]
  rfl

/-- What a fold writes, when each round writes its own assignments after the others. -/
theorem foldl_assigns {α β : Type} {add : β → α → β} {g : β → Json} {W : α → List (Bytes × Json)}
    (hadd : ∀ b a B, g b = .obj (assignAll B) → g (add b a) = .obj (assignAll (B ++ W a)))
    (l : List α) {b : β} {B : List (Bytes × Json)} (hb : g b = .obj (assignAll B)) :
    g (l.foldl add b) = .obj (assignAll (B ++ l.flatMap W)) := by
  induction l generalizing b B with
  | nil => rw [List.flatMap_nil, List.append_nil, List.foldl_nil, hb]
  | cons a l ih =>
      rw [List.foldl_cons, ih (hadd b a B hb), List.flatMap_cons, List.append_assoc]

/-! ### Looking a key up

The object answers with the last assignment to a key, as the reversed list of assignments does. -/

/-- The last assignment to a key stays. -/
theorem lookup_assignAll (A : List (Bytes × Json)) (k : Bytes) :
    (assignAll A).lookup k = A.reverse.lookup k := by
  have hfold : ∀ (A ms : List (Bytes × Json)),
      (A.foldl (fun ms kv => OrderedMap.assign bytesLt kv.1 kv.2 ms) ms).lookup k =
        (A.reverse.lookup k).or (ms.lookup k) := by
    intro A
    induction A with
    | nil => exact fun ms => rfl
    | cons kv A ih =>
        intro ms
        rw [List.foldl_cons, ih, OrderedMap.lookup_assign, List.reverse_cons, List.lookup_append, Option.or_assoc,
          List.lookup_cons_if]
        congr 1
        split <;> rfl
  exact (hfold A []).trans (Option.or_none)

theorem mem_assignAll_iff : a ∈ assignAll A ↔ A.reverse.lookup a.1 = some a.2 := by
  rw [← lookup_assignAll]
  exact ⟨List.lookup_of_mem (sorted_assignAll A).nodup_keys, List.mem_of_lookup⟩

theorem mem_of_mem_assignAll (h : a ∈ assignAll A) : a ∈ A :=
  List.mem_reverse.mp (List.mem_of_lookup (mem_assignAll_iff.mp h))

/-- What a later assignment has the key of is gone. -/
theorem mem_of_later {B : List (Bytes × Json)} (h : a ∈ assignAll (A ++ B))
    (hkey : a.1 ∈ B.map Prod.fst) : a ∈ B := by
  obtain ⟨b, hb, hb'⟩ := List.mem_map.mp hkey
  rw [mem_assignAll_iff, List.reverse_append, List.lookup_append] at h
  have hsome : (B.reverse.lookup a.1).isSome = true :=
    List.lookup_isSome_iff.mpr ⟨b, List.mem_reverse.mpr hb, by simp [hb']⟩
  obtain ⟨v, hv⟩ := Option.isSome_iff_exists.mp hsome
  rw [hv, Option.some_or] at h
  cases h
  exact List.mem_reverse.mp (List.mem_of_lookup hv)

/-- A literal whose keys differ is the assignments in its order. -/
theorem object_eq_assignAll (h : (A.map Prod.fst).Nodup) : object A = .obj (assignAll A) := by
  have hfold : ∀ (A ms : List (Bytes × Json)), (A.map Prod.fst).Nodup →
      (∀ k ∈ A.map Prod.fst, k ∉ ms.map Prod.fst) →
      A.foldl (fun ms kv => OrderedMap.emplace bytesLt kv.1 kv.2 ms) ms =
        A.foldl (fun ms kv => OrderedMap.assign bytesLt kv.1 kv.2 ms) ms := by
    intro A
    induction A with
    | nil => exact fun ms _ _ => rfl
    | cons kv A ih =>
        intro ms hkeys hnew
        obtain ⟨hfirst, hrest⟩ := List.nodup_cons.mp hkeys
        rw [List.foldl_cons, List.foldl_cons, OrderedMap.emplace_eq_assign (hnew kv.1 (by simp))]
        refine ih _ hrest ?_
        intro k hk hmem
        obtain ⟨a, ha, rfl⟩ := List.mem_map.mp hmem
        rcases OrderedMap.mem_assign ha with rfl | ha
        · exact hfirst hk
        · exact hnew _ (List.mem_cons_of_mem _ hk) (List.mem_map_of_mem ha)
  exact congrArg Json.obj (hfold A [] h (by simp))

theorem mem_keys_assignAll : k ∈ (assignAll A).map Prod.fst ↔ k ∈ A.map Prod.fst := by
  constructor
  · intro h
    obtain ⟨a, ha, rfl⟩ := List.mem_map.mp h
    exact List.mem_map_of_mem (mem_of_mem_assignAll ha)
  · intro h
    obtain ⟨a, ha, rfl⟩ := List.mem_map.mp h
    obtain ⟨v, hv⟩ : ∃ v, A.reverse.lookup a.1 = some v := by
      apply Option.isSome_iff_exists.mp
      exact List.lookup_isSome_iff.mpr ⟨a, List.mem_reverse.mpr ha, by simp⟩
    exact List.mem_map.mpr ⟨(a.1, v), mem_assignAll_iff.mpr hv, rfl⟩

/-- There are as many members with such a key as such keys were assigned to. -/
theorem length_filter_assignAll (A : List (Bytes × Json)) (p : Bytes → Bool) :
    ((assignAll A).filter fun a => p a.1).length =
      ((A.map Prod.fst).filter p).toFinset.card := by
  have hkeys : ∀ l : List (Bytes × Json), (l.filter fun a => p a.1).map Prod.fst =
      (l.map Prod.fst).filter p := by
    intro l
    rw [List.filter_map]
    rfl
  have hnodup : (((assignAll A).map Prod.fst).filter p).Nodup :=
    (sorted_assignAll A).nodup_keys.filter p
  have hset : (((assignAll A).map Prod.fst).filter p).toFinset =
      ((A.map Prod.fst).filter p).toFinset := by
    ext k
    rw [List.mem_toFinset, List.mem_toFinset, List.mem_filter, List.mem_filter, mem_keys_assignAll]
  have hlength : ((assignAll A).filter fun a => p a.1).length =
      (((assignAll A).map Prod.fst).filter p).length := by
    rw [← hkeys, List.length_map]
  rw [hlength, ← List.toFinset_card_of_nodup hnodup, hset]

/-! ## What is collected

The assignments that count are those that `f` takes. If no two of them share a key, each of them
is found once in the object, whatever else was assigned. -/

variable {ε τ : Type} {f : Bytes × Json → Option τ} {E : List ε} {key : ε → Bytes} {val : ε → Json}
  {T : ε → τ}

/-- Assignments under keys of their own are all collected, each once. -/
theorem perm_filterMap (hA : A.filter (fun a => (f a).isSome) = E.map fun e => (key e, val e))
    (hT : ∀ e ∈ E, f (key e, val e) = some (T e)) (hkeys : (E.map key).Nodup)
    (hown : ∀ e ∈ E, ∀ b ∈ A, b.1 = key e → (f b).isSome = true) :
    ((assignAll A).filterMap f).Perm (E.map T) := by
  have hnodup : ((A.filter fun a => (f a).isSome).map Prod.fst).Nodup := by
    rw [hA, List.map_map]
    exact hkeys
  have hmembers : ((assignAll A).filter fun a => (f a).isSome).Perm
      (A.filter fun a => (f a).isSome) := by
    refine (List.perm_ext_iff_of_nodup ((sorted_assignAll A).nodup_keys.of_map.filter _)
      hnodup.of_map).mpr ?_
    intro a
    rw [List.mem_filter, List.mem_filter]
    refine ⟨fun h => ⟨mem_of_mem_assignAll h.1, h.2⟩, fun h => ⟨?_, h.2⟩⟩
    -- what is found under the key of `a` counts too, so it is `a`
    obtain ⟨v, hv⟩ : ∃ v, A.reverse.lookup a.1 = some v := by
      apply Option.isSome_iff_exists.mp
      exact List.lookup_isSome_iff.mpr ⟨a, List.mem_reverse.mpr h.1, by simp⟩
    have hmem : (a.1, v) ∈ A := List.mem_reverse.mp (List.mem_of_lookup hv)
    have ha : a ∈ A.filter fun a => (f a).isSome := List.mem_filter.mpr h
    obtain ⟨e, he, rfl⟩ := List.mem_map.mp (hA ▸ ha)
    have hv' : (key e, v) ∈ A.filter fun a => (f a).isSome :=
      List.mem_filter.mpr ⟨hmem, hown e he _ hmem rfl⟩
    have heq : val e = v := congrArg Prod.snd (List.inj_on_of_nodup_map hnodup ha hv' rfl)
    rw [mem_assignAll_iff, hv, heq]
  have hsome : ∀ l : List (Bytes × Json), l.filterMap f = (l.filter fun a => (f a).isSome).filterMap f := by
    intro l
    induction l with
    | nil => rfl
    | cons x l ih =>
        cases hx : f x with
        | none => rw [List.filterMap_cons_none hx, List.filter_cons_of_neg (by simp [hx]), ih]
        | some t =>
            rw [List.filterMap_cons_some hx, List.filter_cons_of_pos (by simp [hx]),
              List.filterMap_cons_some hx, ih]
  rw [hsome]
  refine (hmembers.filterMap f).trans ?_
  rw [hA, List.filterMap_map]
  have hall : E.filterMap (f ∘ fun e => (key e, val e)) = E.filterMap fun e => some (T e) :=
    List.filterMap_congr hT
  rw [hall, List.filterMap_eq_map']

/-- As many collected as assigned: then the keys differ, and each still holds what counts. -/
theorem nodup_of_length (hA : A.filter (fun a => (f a).isSome) = E.map fun e => (key e, val e))
    (hlength : ((assignAll A).filterMap f).length = E.length) :
    (E.map key).Nodup ∧ ∀ e ∈ E, ∃ v, (key e, v) ∈ assignAll A ∧ (f (key e, v)).isSome = true := by
  have hsub : ((assignAll A).filter fun a => (f a).isSome).map Prod.fst ⊆ E.map key := by
    intro k hk
    obtain ⟨a, ha, rfl⟩ := List.mem_map.mp hk
    obtain ⟨hmem, hsome⟩ := List.mem_filter.mp ha
    have ha' : a ∈ A.filter fun a => (f a).isSome :=
      List.mem_filter.mpr ⟨mem_of_mem_assignAll hmem, hsome⟩
    obtain ⟨e, he, rfl⟩ := List.mem_map.mp (hA ▸ ha')
    exact List.mem_map_of_mem he
  have hnodup : (((assignAll A).filter fun a => (f a).isSome).map Prod.fst).Nodup :=
    (sorted_assignAll A).nodup_keys.sublist (List.filter_sublist.map _)
  have hcount : (((assignAll A).filter fun a => (f a).isSome).map Prod.fst).length = E.length := by
    rw [List.length_map, ← List.countP_eq_length_filter, ← List.length_filterMap_eq_countP, hlength]
  have hperm := (List.subperm_of_subset hnodup hsub).perm_of_length_le (by simp [hcount])
  refine ⟨hperm.nodup_iff.mp hnodup, ?_⟩
  intro e he
  obtain ⟨a, ha, hkey⟩ := List.mem_map.mp (hperm.mem_iff.mpr (List.mem_map_of_mem he))
  obtain ⟨hmem, hsome⟩ := List.mem_filter.mp ha
  exact ⟨a.2, hkey ▸ hmem, hkey ▸ hsome⟩

end Json

end JsonRpcBridge
