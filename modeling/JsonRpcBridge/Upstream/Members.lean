import JsonRpcBridge.Assoc
import JsonRpcBridge.Upstream.Hub
import Mathlib.Data.Set.Insert

/-!
# Who is subscribed

The subscriber sets as an abstract `Roster`, a set of ids for each key, with the five things that
can happen to it (`Change`). `Hub.exec_roster` is the refinement: one section of the hub makes one
change to the roster, the one `Pc.change` names, and everything else about the hub (leases, binds,
handles, watchers, deliveries) leaves it alone.

`Hub.exec_edits` is the inversion for the entries themselves, and what their generations do follows
from it: a generation grows with each loss, and a subscriber stays in the one it joined.
-/

namespace JsonRpcBridge.Upstream

variable {κ : Type}

/-! ## Rosters

The abstract hub: for each key a set of ids, and what can happen to them. -/

abbrev Roster := Key → Set Nat

inductive Change where
  | none
  | join (key : Key) (id : Nat)
  | leave (key : Key) (id : Nat)
  | leaveAll (id : Nat)
  | empty (key : Key)
  deriving DecidableEq

/-- The roster after a change. -/
def Change.apply (c : Change) (R : Roster) : Roster := fun k =>
  match c with
  | .none => R k
  | .join key id => if k = key then insert id (R k) else R k
  | .leave key id => if k = key then R k \ {id} else R k
  | .leaveAll id => R k \ {id}
  | .empty key => if k = key then ∅ else R k

/-- A change takes `id` off the roster of `key`. -/
def Change.Drops (c : Change) (key : Key) (id : Nat) : Prop :=
  match c with
  | .leave k i => k = key ∧ i = id
  | .leaveAll i => i = id
  | .empty k => k = key
  | _ => False

/-- An id on the roster stays on it unless it is dropped. -/
theorem Change.mem_apply {c : Change} {R : Roster} {key : Key} {id : Nat} (h : id ∈ R key)
    (hc : ¬ c.Drops key id) : id ∈ c.apply R key := by
  cases c with
  | none => exact h
  | join k i =>
      simp only [Change.apply]
      split
      · exact Set.mem_insert_of_mem i h
      · exact h
  | leave k i =>
      simp only [Change.apply]
      split
      · rename_i hk
        refine ⟨h, ?_⟩
        intro hi
        exact hc ⟨hk.symm, (Set.mem_singleton_iff.mp hi).symm⟩
      · exact h
  | leaveAll i =>
      refine ⟨h, ?_⟩
      intro hi
      exact hc (Set.mem_singleton_iff.mp hi).symm
  | empty k =>
      simp only [Change.apply]
      split
      · rename_i hk
        exact absurd hk.symm hc
      · exact h

/-- An id on the roster was on it before, or has just joined. -/
theorem Change.of_mem_apply {c : Change} {R : Roster} {key : Key} {id : Nat}
    (h : id ∈ c.apply R key) : (id ∈ R key ∧ ¬ c.Drops key id) ∨ c = .join key id := by
  cases c with
  | none => exact .inl ⟨h, fun hd => hd⟩
  | join k i =>
      simp only [Change.apply] at h
      split at h
      · rename_i hk
        rcases Set.mem_insert_iff.mp h with rfl | h
        · exact .inr (by rw [hk])
        · exact .inl ⟨h, not_false⟩
      · exact .inl ⟨h, not_false⟩
  | leave k i =>
      simp only [Change.apply] at h
      split at h
      · refine .inl ⟨h.1, ?_⟩
        rintro ⟨_, hi⟩
        exact h.2 (Set.mem_singleton_iff.mpr hi.symm)
      · rename_i hk
        refine .inl ⟨h, ?_⟩
        rintro ⟨hk', _⟩
        exact hk hk'.symm
  | leaveAll i =>
      refine .inl ⟨h.1, ?_⟩
      intro hi
      exact h.2 (Set.mem_singleton_iff.mpr hi.symm)
  | empty k =>
      simp only [Change.apply] at h
      split at h
      · exact absurd h (Set.notMem_empty id)
      · rename_i hk
        exact .inl ⟨h, fun hk' => hk hk'.symm⟩

/-! ## The table of entries

How the operations on the table show in the roster. An entry counts while its key leads to it. -/

namespace Hub

variable {h : Hub}

/-- Who is subscribed, as sets. -/
def roster (h : Hub) : Roster := fun key => { id | id ∈ h.members key }

theorem mem_roster {key : Key} {id : Nat} : id ∈ h.roster key ↔ id ∈ h.members key := Iff.rfl

theorem find_setUp {a : Nat} {u : Up} : (h.setUp a u).find = h.find := rfl

theorem members_setUp {a : Nat} {u : Up} {key : Key} :
    (h.setUp a u).members key = if h.find key = some a then u.subscribers else h.members key := by
  unfold members
  rw [find_setUp]
  cases hk : h.find key with
  | none => simp
  | some b =>
      by_cases hab : b = a
      · simp [hab, setUp]
      · simp [hab, setUp]

theorem find_emplace {key k : Key} (hnone : h.find key = none) :
    (h.emplace key).find k = if k = key then some h.made else h.find k :=
  List.lookup_append_singleton h.made hnone k

theorem find_erase {key k : Key} :
    (h.erase key).find k = if k = key then none else h.find k :=
  List.lookup_filter_ne h.up key k

/-- Two keys are not filed at one address. -/
theorem Filed.key_eq (hf : h.Filed) {key key' : Key} {a : Nat} (hk : h.find key = some a)
    (hk' : h.find key' = some a) : key = key' :=
  (hf key a hk).1.symm.trans (hf key' a hk').1

/-! ### The same subscribers -/

/-- `h'` files the same entries under the same keys, with the same subscribers. -/
structure Same (h h' : Hub) : Prop where
  find : h'.find = h.find
  made : h'.made = h.made
  key : ∀ a, (h'.heap a).key = (h.heap a).key
  subscribers : ∀ a, (h'.heap a).subscribers = (h.heap a).subscribers

theorem Same.of_heap {h' : Hub} (hup : h'.up = h.up) (hmade : h'.made = h.made)
    (hheap : h'.heap = h.heap) : Same h h' where
  find := by unfold Hub.find; rw [hup]
  made := hmade
  key a := by rw [hheap]
  subscribers a := by rw [hheap]

theorem Same.setUp {a : Nat} {u : Up} (hkey : u.key = (h.heap a).key)
    (hsubs : u.subscribers = (h.heap a).subscribers) : Same h (h.setUp a u) where
  find := rfl
  made := rfl
  key b := by
    by_cases hb : b = a
    · simp [Hub.setUp, hb, hkey]
    · simp [Hub.setUp, hb]
  subscribers b := by
    by_cases hb : b = a
    · simp [Hub.setUp, hb, hsubs]
    · simp [Hub.setUp, hb]

theorem Same.filed {h' : Hub} (hs : Same h h') (hf : h.Filed) : h'.Filed := by
  intro key a hfind
  rw [hs.find] at hfind
  rw [hs.key, hs.made]
  exact hf key a hfind

theorem Same.roster {h' : Hub} (hs : Same h h') : h'.roster = h.roster := by
  funext key
  ext id
  rw [mem_roster, mem_roster, members, members, hs.find]
  cases h.find key with
  | none => rfl
  | some a =>
      show id ∈ (h'.heap a).subscribers ↔ id ∈ (h.heap a).subscribers
      rw [hs.subscribers a]

/-- Replacing an entry by one with the same key keeps the table filed. -/
theorem Filed.setUp {a : Nat} {u : Up} (hf : h.Filed) (hkey : u.key = (h.heap a).key) :
    (h.setUp a u).Filed := by
  intro key b hfind
  obtain ⟨hb, hlt⟩ := hf key b hfind
  refine ⟨?_, hlt⟩
  by_cases hba : b = a
  · subst hba
    simp only [Hub.setUp, Function.update_self, hkey, hb]
  · simpa [Hub.setUp, hba] using hb

/-- A critical section on the live entry of `key` changes the roster of `key` alone. -/
theorem roster_setUp {key : Key} {a : Nat} {u : Up} (hf : h.Filed) (hk : h.find key = some a) :
    (h.setUp a u).roster = fun k => if k = key then { id | id ∈ u.subscribers } else h.roster k := by
  funext k
  ext id
  rw [mem_roster, members_setUp]
  by_cases hkk : k = key
  · simp [hkk, hk]
  · rw [if_neg hkk, if_neg fun hk' => hkk (hf.key_eq hk' hk)]
    rfl

theorem heap_emplace_of_lt {key : Key} {a : Nat} (ha : a < h.made) :
    (h.emplace key).heap a = h.heap a := by
  simp [emplace, setUp, Nat.ne_of_lt ha]

/-! ### Entries that come and go -/

theorem Filed.emplace {key : Key} (hf : h.Filed) (hnone : h.find key = none) :
    (h.emplace key).Filed := by
  intro k a hfind
  rw [find_emplace hnone] at hfind
  by_cases hk : k = key
  · rw [if_pos hk] at hfind
    cases hfind
    exact ⟨by simp [Hub.emplace, Hub.setUp, hk], Nat.lt_succ_self _⟩
  · rw [if_neg hk] at hfind
    obtain ⟨hkey, hlt⟩ := hf k a hfind
    exact ⟨by rw [heap_emplace_of_lt hlt, hkey], Nat.lt_succ_of_lt hlt⟩

theorem roster_emplace_of_ne {key k : Key} (hf : h.Filed) (hnone : h.find key = none)
    (hk : k ≠ key) : (h.emplace key).roster k = h.roster k := by
  ext id
  rw [mem_roster, mem_roster, members, members, find_emplace hnone, if_neg hk]
  cases hfind : h.find k with
  | none => rfl
  | some a =>
      show id ∈ ((h.emplace key).heap a).subscribers ↔ id ∈ (h.heap a).subscribers
      rw [heap_emplace_of_lt (hf k a hfind).2]

theorem Filed.erase {key : Key} (hf : h.Filed) : (h.erase key).Filed := by
  intro k a hfind
  rw [find_erase] at hfind
  by_cases hk : k = key
  · rw [if_pos hk] at hfind
    cases hfind
  · rw [if_neg hk] at hfind
    exact hf k a hfind

theorem roster_erase {key : Key} :
    (h.erase key).roster = fun k => if k = key then ∅ else h.roster k := by
  funext k
  ext id
  rw [mem_roster, members, find_erase]
  by_cases hk : k = key
  · simp [hk]
  · rw [if_neg hk, if_neg hk]
    rfl

theorem roster_of_find {key : Key} {a : Nat} (hk : h.find key = some a) :
    h.roster key = { id | id ∈ (h.heap a).subscribers } := by
  ext id
  rw [mem_roster, members, hk]
  rfl

theorem roster_of_find_none {key : Key} (hk : h.find key = none) : h.roster key = ∅ := by
  ext id
  rw [mem_roster, members, hk]
  simp

theorem Up.mem_removeSubscriber {u : Up} {id i : Nat} :
    i ∈ (u.removeSubscriber id).subscribers ↔ i ∈ u.subscribers ∧ i ≠ id := by
  simp [Up.removeSubscriber]

/-- An entry of the table is one `removeEverywhere` goes over. -/
theorem heap_removeEverywhere {key : Key} {a id : Nat} (hk : h.find key = some a) :
    (h.removeEverywhere id).heap a = (h.heap a).removeSubscriber id := by
  have hany : h.up.any (·.2 == a) = true :=
    List.any_eq_true.mpr ⟨(key, a), List.mem_of_lookup hk, by simp⟩
  exact if_pos hany

theorem Filed.removeEverywhere {id : Nat} (hf : h.Filed) : (h.removeEverywhere id).Filed := by
  intro key a hfind
  rw [heap_removeEverywhere (show h.find key = some a from hfind)]
  exact hf key a hfind

theorem roster_removeEverywhere {id : Nat} :
    (h.removeEverywhere id).roster = (Change.leaveAll id).apply h.roster := by
  funext key
  ext i
  rw [mem_roster, members, show (h.removeEverywhere id).find key = h.find key from rfl]
  simp only [Change.apply]
  cases hfind : h.find key with
  | none => simp [roster_of_find_none hfind]
  | some a =>
      rw [roster_of_find hfind]
      show i ∈ ((h.removeEverywhere id).heap a).subscribers ↔ _
      rw [heap_removeEverywhere hfind]
      exact Up.mem_removeSubscriber

end Hub

/-! ## What a section does to the roster

First the inversion for entries, then the refinement: the roster after a section is the change it
names, applied to the roster before. -/

theorem Up.mem_addSubscriber {u : Up} {id i : Nat} :
    i ∈ (u.addSubscriber id).subscribers ↔ i = id ∨ i ∈ u.subscribers := by
  unfold Up.addSubscriber
  split
  · rename_i hid
    constructor
    · exact .inr
    · rintro (rfl | hi)
      · exact hid
      · exact hi
  · simp [or_comm]

theorem Up.key_addSubscriber {u : Up} {id : Nat} : (u.addSubscriber id).key = u.key := by
  unfold Up.addSubscriber
  split <;> rfl

/-- The change a section makes. -/
def Pc.change (h : Hub) (x : Pc κ) : Change :=
  match x with
  | .add _ key id => if h.closed then .none else .join key id
  | .undo _ key _ a =>
    if h.find key == some a && (h.heap a).epoch == 0 then .empty key else .none
  | .remove key id => .leave key id
  | .removeEverywhere id => .leaveAll id
  | .lost key _ => .empty key
  | _ => .none

/-- `Edits h x h'`: what section `x` does to the entries, their subscribers and their generations.
-/
inductive Hub.Edits (h : Hub) : Pc κ → Hub → Prop
  | keep {x : Pc κ} {h' : Hub} (hchange : x.change h = .none) (hsame : Hub.Same h h')
      (hgeneration : ∀ a, (h'.heap a).generation = (h.heap a).generation) : Edits h x h'
  | join {k : κ} {key : Key} {id a : Nat} (hopen : h.closed = false) (hfind : h.find key = some a) :
      Edits h (.add k key id) (h.setUp a ((h.heap a).addSubscriber id))
  | create {k : κ} {key : Key} {id : Nat} (hopen : h.closed = false) (hfind : h.find key = none) :
      Edits h (.add k key id) ((h.emplace key).setUp h.made (Up.addSubscriber { key } id))
  | erase {k : κ} {key : Key} {id a : Nat}
      (hdrop : (h.find key == some a && (h.heap a).epoch == 0) = true) :
      Edits h (.undo k key id a) (h.erase key)
  | remove {key : Key} {id a : Nat} (hfind : h.find key = some a) :
      Edits h (.remove key id) (h.setUp a ((h.heap a).removeSubscriber id))
  | removeNone {key : Key} {id : Nat} (hfind : h.find key = none) : Edits h (.remove key id) h
  | removeEverywhere {id : Nat} : Edits h (.removeEverywhere id) (h.removeEverywhere id)
  | lose {key : Key} {why : Bytes} {a : Nat} (hfind : h.find key = some a) :
      Edits h (.lost key why) (h.setUp a (h.heap a).lose)
  | loseNone {key : Key} {why : Bytes} (hfind : h.find key = none) : Edits h (.lost key why) h

/-- A section that leaves the entries as they are. -/
theorem Hub.Edits.of_heap {h h' : Hub} {x : Pc κ} (hchange : x.change h = .none)
    (hup : h'.up = h.up) (hmade : h'.made = h.made) (hheap : h'.heap = h.heap) : h.Edits x h' :=
  .keep hchange (.of_heap hup hmade hheap) fun a => by rw [hheap]

/-- **Inversion.** -/
theorem Hub.exec_edits {h h' : Hub} {x : Pc κ} {valid : Bool} {next : List (Pc κ)}
    (hx : h.exec x valid = some (h', next)) : h.Edits x h' := by
  cases x with
  | add k key id =>
      simp only [Hub.exec] at hx
      split at hx
      · rename_i hclosed
        cases hx
        exact .of_heap (if_pos hclosed) rfl rfl rfl
      · rename_i hopen
        split at hx <;> cases hx
        · exact .join (Bool.eq_false_iff.mpr hopen) ‹_›
        · exact .create (Bool.eq_false_iff.mpr hopen) ‹_›
  | commit w a round epoch handle =>
      simp only [Hub.exec] at hx
      repeat' split at hx
      all_goals cases hx
      · exact .of_heap rfl rfl rfl rfl
      · exact .of_heap rfl rfl rfl rfl
      · -- the entry gets its handle and its epoch, and keeps the rest
        refine .keep rfl (.setUp rfl rfl) fun b => ?_
        by_cases hb : b = a
        · simp [Hub.setUp, hb]
        · simp [Hub.setUp, hb]
  | undo k key id a =>
      simp only [Hub.exec] at hx
      split at hx <;> cases hx
      · exact .erase ‹_›
      · rename_i hkeep
        exact .of_heap (if_neg hkeep) rfl rfl rfl
  | remove key id =>
      simp only [Hub.exec] at hx
      split at hx <;> cases hx
      · exact .removeNone ‹_›
      · exact .remove ‹_›
  | removeEverywhere id =>
      cases hx
      exact .removeEverywhere
  | lost key why =>
      simp only [Hub.exec] at hx
      split at hx <;> cases hx
      · exact .loseNone ‹_›
      · exact .lose ‹_›
  | added | onLost | sink => cases hx
  | _ =>
      simp only [Hub.exec] at hx
      repeat' split at hx
      all_goals cases hx
      all_goals exact .of_heap rfl rfl rfl rfl

/-- A key without an entry has nobody to take. -/
theorem Hub.roster_of_none {h : Hub} {c : Change} {key : Key} (hfind : h.find key = none)
    (hc : c = .empty key ∨ ∃ id, c = .leave key id) : h.roster = c.apply h.roster := by
  funext k
  by_cases hk : k = key
  · subst hk
    rw [Hub.roster_of_find_none hfind]
    rcases hc with rfl | ⟨id, rfl⟩
    · exact (if_pos rfl).symm
    · ext i
      simp [Change.apply, Hub.roster_of_find_none hfind]
  · rcases hc with rfl | ⟨id, rfl⟩
    · exact (if_neg hk).symm
    · exact (if_neg hk).symm

/-- **Refinement.** One section keeps the table filed and makes the change `Pc.change` names. -/
theorem Hub.exec_roster {h h' : Hub} {x : Pc κ} {valid : Bool} {next : List (Pc κ)}
    (hf : h.Filed) (hx : h.exec x valid = some (h', next)) :
    h'.Filed ∧ h'.roster = (x.change h).apply h.roster := by
  cases Hub.exec_edits hx with
  | keep hchange hsame =>
      refine ⟨hsame.filed hf, ?_⟩
      rw [hchange, hsame.roster]
      rfl
  | @join k key id a hopen hfind =>
      refine ⟨hf.setUp Up.key_addSubscriber, ?_⟩
      rw [Hub.roster_setUp hf hfind, Pc.change, hopen, if_neg Bool.false_ne_true]
      funext k'
      by_cases hk : k' = key
      · subst hk
        ext i
        simp only [Change.apply, if_pos, Hub.roster_of_find hfind]
        exact Up.mem_addSubscriber
      · simp [Change.apply, hk]
  -- as if an empty entry had been there
  | @create k key id hopen hfind =>
      have hnew : (h.emplace key).find key = some h.made := by
        rw [Hub.find_emplace hfind, if_pos rfl]
      have hkey : ((h.emplace key).heap h.made).key = key := by simp [Hub.emplace, Hub.setUp]
      refine ⟨(hf.emplace hfind).setUp (Up.key_addSubscriber.trans hkey.symm), ?_⟩
      rw [Hub.roster_setUp (hf.emplace hfind) hnew, Pc.change, hopen, if_neg Bool.false_ne_true]
      funext k'
      by_cases hk : k' = key
      · subst hk
        ext i
        simp only [Change.apply, if_pos, Hub.roster_of_find_none hfind]
        show i ∈ (Up.addSubscriber { key := k' } id).subscribers ↔ _
        rw [Up.mem_addSubscriber]
        simp
      · simp only [Change.apply, if_neg hk]
        exact Hub.roster_emplace_of_ne hf hfind hk
  | erase hdrop =>
      refine ⟨hf.erase, ?_⟩
      rw [Hub.roster_erase, Pc.change, if_pos hdrop]
      rfl
  | @remove key id a hfind =>
      refine ⟨hf.setUp rfl, ?_⟩
      rw [Hub.roster_setUp hf hfind]
      funext k
      by_cases hk : k = key
      · subst hk
        ext i
        simp only [Pc.change, Change.apply, if_pos, Hub.roster_of_find hfind]
        exact Up.mem_removeSubscriber
      · simp [Pc.change, Change.apply, hk]
  | removeNone hfind => exact ⟨hf, Hub.roster_of_none hfind (.inr ⟨_, rfl⟩)⟩
  | removeEverywhere => exact ⟨hf.removeEverywhere, Hub.roster_removeEverywhere⟩
  | @lose key why a hfind =>
      refine ⟨hf.setUp rfl, ?_⟩
      rw [Hub.roster_setUp hf hfind]
      funext k
      by_cases hk : k = key
      · simp [Pc.change, Change.apply, hk, Up.lose]
      · simp [Pc.change, Change.apply, hk]
  | loseNone hfind => exact ⟨hf, Hub.roster_of_none hfind (.inl rfl)⟩

/-! ## Generations

A generation tells the losses of an entry apart. It starts anew only when an entry is erased and
its key made again. -/

namespace Hub

/-- The generation of a key's entry, and what it will be for a key that has none. -/
def generationOf (h : Hub) (key : Key) : Nat :=
  match h.find key with
  | some a => (h.heap a).generation
  | none => 1

variable {h h' : Hub} {x : Pc κ}

theorem generationOf_of_find {key : Key} {a : Nat} (hfind : h.find key = some a) :
    h.generationOf key = (h.heap a).generation := by
  rw [generationOf, hfind]

theorem generationOf_of_find_none {key : Key} (hfind : h.find key = none) :
    h.generationOf key = 1 := by
  rw [generationOf, hfind]

theorem generationOf_setUp {key : Key} {a : Nat} {u : Up} :
    (h.setUp a u).generationOf key =
      if h.find key = some a then u.generation else h.generationOf key := by
  unfold generationOf
  rw [find_setUp]
  cases hk : h.find key with
  | none => simp
  | some b =>
      by_cases hab : b = a
      · simp [hab, setUp]
      · simp [hab, setUp]

theorem generation_addSubscriber {u : Up} {id : Nat} :
    (u.addSubscriber id).generation = u.generation := by
  unfold Up.addSubscriber
  split <;> rfl

/-- An entry replaced by one of no smaller generation. -/
theorem le_generationOf_setUp {a : Nat} {u : Up} (hu : (h.heap a).generation ≤ u.generation)
    (key : Key) : h.generationOf key ≤ (h.setUp a u).generationOf key := by
  rw [generationOf_setUp]
  split
  · rename_i hfind
    rw [generationOf_of_find hfind]
    exact hu
  · exact Nat.le_refl _

/-- Generations grow, unless an entry that was lost is erased and its key starts anew. -/
theorem Edits.generationOf_le (he : h.Edits x h') (hf : h.Filed)
    (herase : ∀ k key id a, x = .undo k key id a → x.change h = .empty key →
      (h.heap a).generation = 1) (key : Key) : h.generationOf key ≤ h'.generationOf key := by
  cases he with
  | keep _ hsame hgeneration =>
      unfold generationOf
      rw [hsame.find]
      split
      · rw [hgeneration]
      · exact Nat.le_refl _
  | join => exact le_generationOf_setUp (Nat.le_of_eq generation_addSubscriber.symm) key
  | @create _ k _ _ hfind =>
      -- a new entry has generation one, as the key without an entry had
      by_cases hk : key = k
      · subst hk
        rw [generationOf_of_find_none hfind, generationOf_setUp, find_emplace hfind, if_pos rfl,
          if_pos rfl, generation_addSubscriber]
      · rw [generationOf_setUp, find_emplace hfind, if_neg hk]
        split
        · rename_i hmade
          exact absurd (hf key _ hmade).2 (Nat.lt_irrefl _)
        · unfold generationOf
          rw [find_emplace hfind, if_neg hk]
          split
          · rename_i a hother
            rw [heap_emplace_of_lt (hf key a hother).2]
          · exact Nat.le_refl _
  | @erase _ k _ a hdrop =>
      rw [generationOf, generationOf, find_erase]
      by_cases hk : key = k
      · subst hk
        have hone := herase _ key _ a rfl (if_pos hdrop)
        have hfind : h.find key = some a := by
          rw [Bool.and_eq_true] at hdrop
          exact eq_of_beq hdrop.1
        rw [if_pos rfl, hfind]
        exact Nat.le_of_eq hone
      · rw [if_neg hk]
        exact Nat.le_refl _
  | remove =>
      refine le_generationOf_setUp ?_ key
      exact Nat.le_refl _
  | removeNone | loseNone => exact Nat.le_refl _
  | removeEverywhere =>
      show h.generationOf key ≤ match h.find key with
        | some a => ((h.removeEverywhere _).heap a).generation
        | none => 1
      unfold generationOf
      split
      · rename_i hfind
        rw [heap_removeEverywhere hfind]
        exact Nat.le_refl _
      · exact Nat.le_refl _
  | lose => exact le_generationOf_setUp (Nat.le_succ _) key

/-- A loss starts a new generation. -/
theorem Edits.generationOf_lt {key : Key} {why : Bytes}
    (he : h.Edits (.lost key why : Pc κ) h') (hfind : h.find key ≠ none) :
    h.generationOf key < h'.generationOf key := by
  cases he with
  | keep hchange => cases hchange
  | lose hsome =>
      rw [generationOf_setUp, if_pos hsome, generationOf_of_find hsome]
      exact Nat.lt_succ_self _
  | loseNone hnone => exact absurd hnone hfind

/-- A subscriber of an entry was there before, in the same generation, or joins in the generation of
its key. -/
theorem Edits.subscriber (he : h.Edits x h') {a id : Nat} (hid : id ∈ (h'.heap a).subscribers) :
    id ∈ (h.heap a).subscribers ∧ (h'.heap a).generation = (h.heap a).generation ∨
      ∃ k key, x = .add k key id ∧ h.closed = false ∧
        (h'.heap a).generation = h.generationOf key := by
  -- a section changes one entry, or takes the subscriber out of each
  have hset {b : Nat} {u : Up} {h₀ : Hub} (hid : id ∈ ((h₀.setUp b u).heap a).subscribers) :
      a = b ∧ id ∈ u.subscribers ∧ ((h₀.setUp b u).heap a).generation = u.generation ∨
        a ≠ b ∧ id ∈ (h₀.heap a).subscribers ∧
          ((h₀.setUp b u).heap a).generation = (h₀.heap a).generation := by
    by_cases hab : a = b
    · subst hab
      left
      simpa [setUp] using hid
    · right
      simpa [setUp, hab] using hid
  cases he with
  | keep _ hsame hgeneration => exact .inl ⟨hsame.subscribers a ▸ hid, hgeneration a⟩
  | @join k key i b hopen hfind =>
      rcases hset hid with ⟨rfl, hid, hgen⟩ | ⟨_, hold⟩
      · rw [generation_addSubscriber] at hgen
        rcases Up.mem_addSubscriber.mp hid with rfl | hid
        · exact .inr ⟨k, key, rfl, hopen, hgen.trans (generationOf_of_find hfind).symm⟩
        · exact .inl ⟨hid, hgen⟩
      · exact .inl hold
  | @create k key i hopen hfind =>
      rcases hset hid with ⟨rfl, hid, hgen⟩ | ⟨hne, hid, hgen⟩
      · rw [generation_addSubscriber] at hgen
        rcases Up.mem_addSubscriber.mp hid with rfl | hid
        · exact .inr ⟨k, key, rfl, hopen, hgen.trans (generationOf_of_find_none hfind).symm⟩
        · cases hid
      · have hheap : (h.emplace key).heap a = h.heap a := by simp [emplace, setUp, hne]
        rw [hheap] at hid hgen
        exact .inl ⟨hid, hgen⟩
  | erase | removeNone | loseNone => exact .inl ⟨hid, rfl⟩
  | remove =>
      rcases hset hid with ⟨rfl, hid, hgen⟩ | ⟨_, hold⟩
      · exact .inl ⟨(Up.mem_removeSubscriber.mp hid).1, hgen⟩
      · exact .inl hold
  | @removeEverywhere i =>
      have hcases : (h.removeEverywhere i).heap a = (h.heap a).removeSubscriber i ∨
          (h.removeEverywhere i).heap a = h.heap a := by
        simp only [Hub.removeEverywhere]
        split
        · exact .inl rfl
        · exact .inr rfl
      rcases hcases with heq | heq
      · rw [heq] at hid ⊢
        exact .inl ⟨(Up.mem_removeSubscriber.mp hid).1, rfl⟩
      · rw [heq] at hid ⊢
        exact .inl ⟨hid, rfl⟩
  | lose =>
      rcases hset hid with ⟨_, hid, _⟩ | ⟨_, hold⟩
      · cases hid
      · exact .inl hold

end Hub

end JsonRpcBridge.Upstream
