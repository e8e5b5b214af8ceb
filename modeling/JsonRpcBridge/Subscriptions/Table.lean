import JsonRpcBridge.Assoc
import JsonRpcBridge.Upstream.Hub

/-!
# A connection's subscription table

`subscription_table.h`: one connection's subscriptions, keyed by the client-assigned id. An id is
its JSON dump throughout.
-/

namespace JsonRpcBridge.Subscriptions

open Upstream

abbrev ClientId := Bytes

/-! ## The table -/

/-- `owner` is the bridge subscriber id that holds the client id. -/
structure Entry where
  key : Key
  owner : Nat
  deriving DecidableEq

inductive Claim where
  | fresh
  | duplicate
  | full
  deriving DecidableEq, Repr

abbrev SubscriptionTable := List (ClientId × Entry)

namespace SubscriptionTable

variable (t : SubscriptionTable) (id : ClientId)

def find (t : SubscriptionTable) (id : ClientId) : Option Entry := t.lookup id

/-- Duplicate is checked before full, so re-subscribing a live id stays idempotent at the limit. -/
def claim (key : Key) (owner : Nat) (limit : Int) : Claim × SubscriptionTable :=
  if (t.find id).isSome then (.duplicate, t)
  else if (t.length : Int) ≥ limit then (.full, t)
  else (.fresh, t ++ [(id, ⟨key, owner⟩)])

def erase : SubscriptionTable := t.filter fun e => e.1 != id

/-- Frees `id` only while `owner` still holds it, so a stale release cannot free a newer claim. -/
def release (owner : Nat) : SubscriptionTable :=
  match t.find id with
  | some e => if e.owner = owner then t.erase id else t
  | none => t

/-- Unsubscribe: frees `id` whoever holds it, and reports what it was. -/
def take : Option Entry × SubscriptionTable :=
  match t.find id with
  | some e => (some e, t.erase id)
  | none => (none, t)

variable {t id}

/-! ## Lookups -/

theorem find_erase {k : ClientId} : (t.erase id).find k = if k = id then none else t.find k :=
  List.lookup_filter_ne t id k

theorem find_release {owner : Nat} {k : ClientId} :
    (t.release id owner).find k =
      if k = id ∧ (t.find id).any (·.owner = owner) then none else t.find k := by
  unfold release
  cases hfind : t.find id with
  | none => simp
  | some e =>
      by_cases howner : e.owner = owner
      · simp [howner, find_erase]
      · simp [howner]

/-- A claim is fresh only for an id that is free, and then files it. -/
theorem claim_fresh {key : Key} {owner : Nat} {limit : Int} {t' : SubscriptionTable}
    (h : t.claim id key owner limit = (.fresh, t')) :
    t.find id = none ∧ ∀ k, t'.find k = if k = id then some ⟨key, owner⟩ else t.find k := by
  unfold claim at h
  split at h
  · cases h
  · rename_i hfree
    split at h <;> cases h
    have hnone : t.find id = none := by simpa using hfree
    exact ⟨hnone, List.lookup_append_singleton _ hnone⟩

theorem take_eq_some {e : Entry} {t' : SubscriptionTable} (h : t.take id = (some e, t')) :
    t.find id = some e ∧ t' = t.erase id := by
  unfold take at h
  split at h <;> cases h
  rename_i hfind
  exact ⟨hfind, rfl⟩

end SubscriptionTable

end JsonRpcBridge.Subscriptions
