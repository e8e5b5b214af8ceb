import JsonRpcBridge.Interleaving.History
import JsonRpcBridge.Interleaving.Tokens
import JsonRpcBridge.Upstream.Adds

/-!
# Losses, told once

`notifyLost` takes the subscribers of a key in one critical section and tells each of them after it.
Several threads may be telling losses of one module at once, while others add and remove.

`toldOnce_of_logged`: in every run of the hub, a taking tells each subscriber it took once and nobody
else, and an id that two takings took was added in between. The calls themselves may come in any
order, so the adds are counted between the takings.
-/

namespace JsonRpcBridge.Upstream

open Interleaving

/-! ## What happens to subscribers

The log has a note for each id that is added, each set that is taken, and each loss that is told. -/

inductive HubNote where
  | joined (key : Key) (id : Nat)
  | taken (key : Key) (ids : List Nat)
  | told (id : Nat) (key : Key)
deriving DecidableEq

/-- A key that has no entry has no members to take. -/
def hubNote (sh : HubShared) (x : Pc Nat) (_ : Bool) : List HubNote :=
  match x with
  | .add _ key id => if sh.hub.closed then [] else [.joined key id]
  | .lost key _ => [.taken key (sh.hub.members key)]
  | .onLost id key _ => [.told id key]
  | _ => []

/-- `id` was among those a `notifyLost` of `key` took. -/
def HubNote.takes (key : Key) (id : Nat) : HubNote → Bool
  | .taken k ids => k == key && ids.contains id
  | _ => false

/-- Who an `onLost` still to be called is about. -/
def Pc.told? : Pc Nat → Option (Nat × Key)
  | .onLost id key _ => some (id, key)
  | _ => none

/-- The losses told in a run that left the notes `h` and ended in `s`. -/
structure ToldOnce (h : List HubNote) (s : State HubShared (Pc Nat)) : Prop where
  /-- A `notifyLost` goes on to tell each member once, and nobody else. -/
  members : ∀ key why valid e, hubExec s.shared (.lost key why) valid = some e →
    e.next = (s.shared.hub.members key).map (fun id => .onLost id key why) ∧
      (s.shared.hub.members key).Nodup
  /-- The calls made and still to be made are those of the takings. -/
  calls : ∀ id key, h.count (.told id key) + carried Pc.told? (id, key) s.pending =
    h.countP (HubNote.takes key id)
  /-- Between two takings of an id there is an add of it. -/
  rejoined : ∀ a key ids b ids' c id, h = a ++ .taken key ids :: (b ++ .taken key ids' :: c) →
    id ∈ ids → id ∈ ids' → .joined key id ∈ b
  /-- There are no more calls than adds. -/
  adds : ∀ id key, h.count (.told id key) ≤ h.count (.joined key id)

/-! ## Sets of subscribers

A subscriber is in an entry once, so that a taking tells it once. -/

theorem Up.nodup_addSubscriber {u : Up} {id : Nat} (h : u.subscribers.Nodup) :
    (u.addSubscriber id).subscribers.Nodup := by
  unfold Up.addSubscriber
  split
  · exact h
  · rename_i hid
    exact List.nodup_append.mpr ⟨h, List.nodup_singleton id, fun a ha b hb => by
      rw [List.mem_singleton.mp hb]
      exact fun hab => hid (hab ▸ ha)⟩

theorem Up.nodup_removeSubscriber {u : Up} {id : Nat} (h : u.subscribers.Nodup) :
    (u.removeSubscriber id).subscribers.Nodup :=
  h.filter _

/-- No entry has a subscriber twice. -/
def Hub.Sets (h : Hub) : Prop := ∀ a, (h.heap a).subscribers.Nodup

theorem Hub.Sets.setUp {h : Hub} {a : Nat} {u : Up} (hs : h.Sets) (hu : u.subscribers.Nodup) :
    (h.setUp a u).Sets := by
  intro b
  show (Function.update h.heap a u b).subscribers.Nodup
  by_cases hb : b = a
  · subst hb
    rw [Function.update_self]
    exact hu
  · rw [Function.update_of_ne hb]
    exact hs b

theorem Hub.Sets.members {h : Hub} (hs : h.Sets) (key : Key) : (h.members key).Nodup := by
  unfold Hub.members
  split
  · exact hs _
  · exact List.nodup_nil

theorem Hub.Sets.exec {κ : Type} {h h' : Hub} {x : Pc κ} {valid : Bool} {next : List (Pc κ)}
    (hs : h.Sets) (hx : h.exec x valid = some (h', next)) : h'.Sets := by
  cases Hub.exec_edits hx with
  | keep _ hsame =>
      intro a
      rw [hsame.subscribers a]
      exact hs a
  | join => exact hs.setUp (Up.nodup_addSubscriber (hs _))
  | @create _ key =>
      have hnew : (h.emplace key).Sets := hs.setUp (u := { key }) List.nodup_nil
      exact hnew.setUp (Up.nodup_addSubscriber List.nodup_nil)
  | erase | removeNone | loseNone => exact hs
  | remove => exact hs.setUp (Up.nodup_removeSubscriber (hs _))
  | removeEverywhere =>
      intro a
      show (if _ then _ else _ : Up).subscribers.Nodup
      split
      · exact Up.nodup_removeSubscriber (hs a)
      · exact hs a
  | lose => exact hs.setUp List.nodup_nil

/-! ## The telling

A taking is one section and the calls that follow it are others, so the sections pending count as
told. -/

/-- **One taking.** -/
theorem Hub.lost_next {h h' : Hub} {key : Key} {why : Bytes} {valid : Bool} {next : List (Pc Nat)}
    (hf : h.Filed) (hx : h.exec (.lost key why) valid = some (h', next)) :
    next = (h.members key).map fun id => .onLost id key why := by
  simp only [Hub.exec] at hx
  split at hx <;> cases hx
  · rename_i hnone
    simp [Hub.members, hnone]
  · rename_i a hfind
    rw [(hf key a hfind).1, Hub.members, hfind]

/-- Only a taking tells. -/
theorem Hub.told_next {h h' : Hub} {x y : Pc Nat} {valid : Bool} {next : List (Pc Nat)}
    (hx : h.exec x valid = some (h', next)) (hlost : ∀ key why, x ≠ .lost key why) (hy : y ∈ next) :
    y.told? = none := by
  have hxy := Hub.exec_follows hx hy
  cases hxy with
  | told => exact absurd rfl (hlost _ _)
  | binding hwx hwy =>
      cases y with
      | onLost => cases hwy
      | _ => rfl
  | plain hplain =>
      cases y with
      | onLost => cases hplain
      | _ => rfl
  | _ => rfl

theorem carried_told_map {ids : List Nat} (hids : ids.Nodup) (key key' : Key) (id : Nat)
    (why : Bytes) :
    carried Pc.told? (id, key) (↑(ids.map fun i => (.onLost i key' why : Pc Nat)) : Multiset (Pc Nat)) =
      if HubNote.takes key id (.taken key' ids) then 1 else 0 := by
  have hcount : carried Pc.told? (id, key)
      (↑(ids.map fun i => (.onLost i key' why : Pc Nat)) : Multiset (Pc Nat)) =
      ids.countP fun i => decide (i = id ∧ key' = key) := by
    rw [carried, Multiset.coe_countP, List.countP_map]
    congr 1
    funext i
    simp [Pc.told?]
  rw [hcount]
  by_cases hk : key' = key
  · subst hk
    have heq : (fun i => decide (i = id ∧ key' = key')) = fun i => i == id := by
      funext i
      simp [Bool.beq_eq_decide_eq]
    rw [heq, ← List.count_eq_countP, HubNote.takes, beq_self_eq_true, Bool.true_and]
    by_cases hid : id ∈ ids
    · rw [if_pos (List.contains_iff_mem.mpr hid), List.count_eq_one_of_mem hids hid]
    · rw [if_neg (fun h => hid (List.contains_iff_mem.mp h)), List.count_eq_zero_of_not_mem hid]
  · rw [HubNote.takes, beq_eq_false_iff_ne.mpr hk, Bool.false_and, if_neg Bool.false_ne_true,
      List.countP_eq_zero]
    intro i _
    simp [hk]

/-! ## The invariant

Told and to be told come to what was taken; and an id is taken again only if it was added again,
for the taking left the entry empty. -/

/-- What the log and the pending sections come to. -/
structure LossInv (h : List HubNote) (sh : HubShared) (p : Multiset (Pc Nat)) : Prop where
  filed : sh.hub.Filed
  sets : sh.hub.Sets
  calls : ∀ id key, h.count (.told id key) + carried Pc.told? (id, key) p =
    h.countP (HubNote.takes key id)
  rejoined : ∀ a key ids b ids' c id, h = a ++ .taken key ids :: (b ++ .taken key ids' :: c) →
    id ∈ ids → id ∈ ids' → .joined key id ∈ b
  member : ∀ a key ids b id, h = a ++ .taken key ids :: b → id ∈ ids → id ∈ sh.hub.members key →
    .joined key id ∈ b
  /-- A member has been added once more than it was taken. -/
  adds : ∀ id key, h.countP (HubNote.takes key id) + (if id ∈ sh.hub.members key then 1 else 0) ≤
    h.count (.joined key id)

/-- Where the last note of a history stands in a split of it. -/
theorem append_singleton_split {α : Type} {h a b : List α} {n x : α} (heq : h ++ [n] = a ++ x :: b) :
    (b = [] ∧ n = x ∧ h = a) ∨ ∃ b', b = b' ++ [n] ∧ h = a ++ x :: b' := by
  rcases List.eq_nil_or_concat b with rfl | ⟨b', y, rfl⟩
  · obtain ⟨rfl, hx⟩ := List.append_inj' heq rfl
    exact Or.inl ⟨rfl, (List.cons.inj hx).1, rfl⟩
  · right
    rw [List.concat_eq_append, ← List.cons_append, ← List.append_assoc] at heq
    obtain ⟨rfl, hy⟩ := List.append_inj' heq rfl
    obtain rfl := (List.cons.inj hy).1
    exact ⟨b', List.concat_eq_append, rfl⟩

variable {sh : HubShared} {others : Multiset (Pc Nat)} {h : List HubNote}
  {e : Effect HubShared (Pc Nat)}

/-! ### Step by step -/

/-- A section is noted at most once. -/
theorem hubNote_cases (sh : HubShared) (x : Pc Nat) (valid : Bool) :
    hubNote sh x valid = [] ∨ ∃ n, hubNote sh x valid = [n] := by
  cases x with
  | add k key id =>
      simp only [hubNote]
      split
      · exact Or.inl rfl
      · exact Or.inr ⟨_, rfl⟩
  | lost | onLost => exact Or.inr ⟨_, rfl⟩
  | _ => exact Or.inl rfl

theorem joined_of_change {x : Pc Nat} {key : Key} {id : Nat}
    (hx : x.change sh.hub = .join key id) (valid : Bool) :
    hubNote sh x valid = [.joined key id] := by
  cases x with
  | add k key' id' =>
      simp only [Pc.change] at hx
      split at hx <;> cases hx
      rename_i hopen
      exact if_neg hopen
  | undo k key' id' a =>
      simp only [Pc.change] at hx
      split at hx <;> cases hx
  | _ => cases hx

theorem lost_of_takes {x : Pc Nat} {valid : Bool} {key : Key} {ids : List Nat}
    (hx : .taken key ids ∈ hubNote sh x valid) :
    (∃ why, x = .lost key why) ∧ ids = sh.hub.members key := by
  cases x with
  | add k key' id =>
      simp only [hubNote] at hx
      split at hx
      · cases hx
      · cases List.mem_singleton.mp hx
  | lost key' why =>
      cases List.mem_singleton.mp hx
      exact ⟨⟨why, rfl⟩, rfl⟩
  | onLost id key' why => cases List.mem_singleton.mp hx
  | _ => cases hx

/-- What a section does to the table of entries. -/
theorem hubExec_table {x : Pc Nat} {valid : Bool} (hf : sh.hub.Filed) (hs : sh.hub.Sets)
    (hx : hubExec sh x valid = some e) :
    e.shared.hub.Filed ∧ e.shared.hub.Sets ∧
      e.shared.hub.roster = (x.change sh.hub).apply sh.hub.roster := by
  cases hret : x.returns with
  | false =>
      obtain ⟨hub', next, hexec, rfl⟩ := hubExec_of_not_returns hret hx
      obtain ⟨hfiled, hroster⟩ := Hub.exec_roster hf hexec
      exact ⟨hfiled, hs.exec hexec, hroster⟩
  | true =>
      cases x with
      | added | onLost | sink =>
          cases hx
          exact ⟨hf, hs, rfl⟩
      | _ => cases hret

/-- The calls a section leaves to be made are those it is noted to take. -/
theorem calls_step {x : Pc Nat} {valid : Bool} (hf : sh.hub.Filed) (hs : sh.hub.Sets)
    (hx : hubExec sh x valid = some e) (id : Nat) (key : Key) :
    (hubNote sh x valid).count (.told id key) + carried Pc.told? (id, key) e.made =
      (hubNote sh x valid).countP (HubNote.takes key id) +
        if x.told? = some (id, key) then 1 else 0 := by
  cases hret : x.returns with
  | false =>
      obtain ⟨hub', next, hexec, rfl⟩ := hubExec_of_not_returns hret hx
      have hmade : (({ shared := { sh with hub := hub', standing := x.standing sh.standing }, next } :
          Effect HubShared (Pc Nat)).made) = ↑next := by
        simp [Effect.made]
      rw [hmade]
      -- `lost` makes one call for each subscriber of the entry, and each is a member once
      by_cases hlost : ∃ key' why, x = .lost key' why
      · obtain ⟨key', why, rfl⟩ := hlost
        rw [Hub.lost_next hf hexec, carried_told_map (hs.members key'), hubNote,
          List.countP_singleton, List.count_singleton]
        simp [Pc.told?]
      · have hnone : carried Pc.told? (id, key) (↑next : Multiset (Pc Nat)) = 0 := by
          refine carried_of_forall fun y hy htold => ?_
          rw [Hub.told_next hexec (fun key why hx => hlost ⟨key, why, hx⟩) hy] at htold
          cases htold
        rw [hnone]
        cases x with
        | onLost => cases hret
        | lost key' why => exact absurd ⟨key', why, rfl⟩ hlost
        | add k key' id' =>
            rw [hubNote]
            split <;> simp [HubNote.takes, Pc.told?]
        | _ => rfl
  | true =>
      cases x with
      | onLost id' key' why =>
          cases hx
          have hmade : (({ shared := sh } : Effect HubShared (Pc Nat)).made) = 0 := rfl
          rw [hmade, carried_zero, hubNote, List.count_singleton, List.countP_singleton]
          simp [HubNote.takes, Pc.told?]
      | added | sink =>
          cases hx
          rfl
      | _ => cases hret

/-- Nobody is taken who was not added. -/
theorem adds_step {x : Pc Nat} (valid : Bool)
    (hroster : e.shared.hub.roster = (x.change sh.hub).apply sh.hub.roster) (id : Nat) (key : Key) :
    (hubNote sh x valid).countP (HubNote.takes key id) +
        (if id ∈ e.shared.hub.members key then 1 else 0) ≤
      (hubNote sh x valid).count (.joined key id) +
        if id ∈ sh.hub.members key then 1 else 0 := by
  have htakes : (hubNote sh x valid).countP (HubNote.takes key id) ≠ 0 →
      (∃ why, x = .lost key why) ∧ id ∈ sh.hub.members key ∧
        (hubNote sh x valid).countP (HubNote.takes key id) = 1 := by
    intro hne
    rcases hubNote_cases sh x valid with hnil | ⟨n, hn⟩
    · rw [hnil] at hne
      exact absurd rfl hne
    · rw [hn, List.countP_singleton] at hne ⊢
      have htake : HubNote.takes key id n = true := by
        by_contra hfalse
        exact hne (if_neg hfalse)
      rw [if_pos htake]
      cases n with
      | taken k ids =>
          rw [HubNote.takes, Bool.and_eq_true, beq_iff_eq, List.contains_iff_mem] at htake
          obtain ⟨rfl, hid⟩ := htake
          have hnoted : .taken k ids ∈ hubNote sh x valid := by
            rw [hn]
            exact List.mem_singleton_self _
          obtain ⟨hlost, rfl⟩ := lost_of_takes hnoted
          exact ⟨hlost, hid, rfl⟩
      | _ => cases htake
  -- the id is on the roster afterwards: it stayed, or was added; or it is off, and was taken at
  -- most once
  by_cases hnew : id ∈ e.shared.hub.members key
  · rw [if_pos hnew]
    rw [← Hub.mem_roster, hroster] at hnew
    rcases Change.of_mem_apply hnew with ⟨hold, hkept⟩ | hjoin
    · rw [if_pos (Hub.mem_roster.mp hold)]
      have hzero : (hubNote sh x valid).countP (HubNote.takes key id) = 0 := by
        by_contra hne
        obtain ⟨⟨why, rfl⟩, -⟩ := htakes hne
        exact hkept rfl
      omega
    · rw [joined_of_change hjoin valid]
      simp [HubNote.takes]
  · rw [if_neg hnew, Nat.add_zero]
    by_cases hzero : (hubNote sh x valid).countP (HubNote.takes key id) = 0
    · omega
    · obtain ⟨-, hold, hone⟩ := htakes hzero
      rw [hone, if_pos hold]
      omega

/-- **Step**, of a section. -/
theorem LossInv.exec {x : Pc Nat} {valid : Bool} (hI : LossInv h sh (x ::ₘ others))
    (hx : hubExec sh x valid = some e) :
    LossInv (h ++ hubNote sh x valid) e.shared (e.made + others) := by
  obtain ⟨hfiled, hsets, hroster⟩ := hubExec_table hI.filed hI.sets hx
  refine ⟨hfiled, hsets, fun id key => ?_, ?_, ?_, fun id key => ?_⟩
  · have hold := hI.calls id key
    have hstep := calls_step hI.filed hI.sets hx id key
    rw [carried_cons] at hold
    rw [List.count_append, List.countP_append, carried_add]
    omega
  · intro a key ids b ids' c id heq hid hid'
    rcases hubNote_cases sh x valid with hnil | ⟨n, hn⟩
    · rw [hnil, List.append_nil] at heq
      exact hI.rejoined a key ids b ids' c id heq hid hid'
    · rw [hn] at heq
      rcases append_singleton_split heq with ⟨hnil, -⟩ | ⟨m, hm, hh⟩
      · exact absurd hnil (by simp)
      · rcases append_singleton_split hm.symm with ⟨-, rfl, rfl⟩ | ⟨c', -, rfl⟩
        · -- the new taking takes members
          have hnoted : .taken key ids' ∈ hubNote sh x valid := by
            rw [hn]
            exact List.mem_singleton_self _
          rw [(lost_of_takes hnoted).2] at hid'
          exact hI.member a key ids m id hh hid hid'
        · exact hI.rejoined a key ids b ids' c' id hh hid hid'
  -- a member that was there at the last note of it was added after its taking
  · intro a key ids b id heq hid hmember
    rw [← Hub.mem_roster, hroster] at hmember
    rcases Change.of_mem_apply hmember with ⟨hold, hkept⟩ | hjoin
    · rcases hubNote_cases sh x valid with hnil | ⟨n, hn⟩
      · rw [hnil, List.append_nil] at heq
        exact hI.member a key ids b id heq hid hold
      · rw [hn] at heq
        rcases append_singleton_split heq with ⟨-, rfl, -⟩ | ⟨b', rfl, hh⟩
        · have hnoted : .taken key ids ∈ hubNote sh x valid := by
            rw [hn]
            exact List.mem_singleton_self _
          obtain ⟨⟨why, rfl⟩, -⟩ := lost_of_takes hnoted
          exact absurd rfl hkept
        · exact List.mem_append_left _ (hI.member a key ids b' id hh hid hold)
    · rw [joined_of_change hjoin valid] at heq
      rcases append_singleton_split heq with ⟨-, hne, -⟩ | ⟨b', rfl, -⟩
      · cases hne
      · exact List.mem_append_right _ (List.mem_singleton_self _)
  · have hold := hI.adds id key
    have hstep := adds_step valid hroster id key
    rw [List.count_append, List.countP_append]
    omega

/-- **Step**, of an entry point. -/
theorem LossInv.enter {ev : HubEntry} {p : Multiset (Pc Nat)} (hI : LossInv h sh p)
    (henter : hubEnter sh ev = some e) : LossInv h e.shared (e.made + p) := by
  have hquiet : ∀ {sh' : HubShared} {next : List (Pc Nat)}, Hub.Same sh.hub sh'.hub →
      sh'.hub.members = sh.hub.members → (∀ y ∈ next, y.told? = none) →
      LossInv h sh' (({ shared := sh', next } : Effect HubShared (Pc Nat)).made + p) := by
    intro sh' next hsame hmembers hnext
    refine ⟨hsame.filed hI.filed, fun a => ?_, fun id key => ?_, hI.rejoined, ?_, fun id key => ?_⟩
    · rw [hsame.subscribers a]
      exact hI.sets a
    · have hnone : carried Pc.told? (id, key)
          (({ shared := sh', next } : Effect HubShared (Pc Nat)).made) = 0 := by
        refine carried_of_forall fun y hy htold => ?_
        rcases Effect.mem_made.mp hy with hy | ⟨t, ht, -⟩
        · rw [hnext y hy] at htold
          cases htold
        · cases ht
      rw [carried_add, hnone, Nat.zero_add]
      exact hI.calls id key
    · rw [hmembers]
      exact hI.member
    · rw [hmembers]
      exact hI.adds id key
  cases ev with
  | replace m =>
      cases henter
      exact hquiet (.of_heap rfl rfl rfl) rfl (by simp [Pc.told?])
  | closeClients =>
      cases henter
      exact hquiet (.of_heap rfl rfl rfl) rfl (by simp)
  | _ =>
      cases henter
      exact hquiet (.of_heap rfl rfl rfl) rfl (by simp [Pc.told?])

theorem loss_start : LossInv [] hubStart.shared hubStart.pending where
  filed key a hfind := nomatch hfind
  sets a := List.nodup_nil
  calls id key := rfl
  rejoined a key ids b ids' c id heq := by simp at heq
  member a key ids b id heq := by simp at heq
  adds id key := Nat.le_refl _

/-! ### Every run -/

/-- **Run.** -/
theorem toldOnce_of_logged {s : State HubShared (Pc Nat)}
    (hlog : Logged hubProgram Guard.any hubNote hubStart h s) : ToldOnce h s := by
  have hI : LossInv h s.shared s.pending := by
    refine Logged.invariant (J := fun _ _ => True) (I := LossInv) (fun _ _ => trivial) loss_start
      ?_ ?_ hlog
    · intro h sh a c e others _ hI _ hexec
      exact hI.exec hexec
    · intro h sh ev e p _ hI _ henter
      exact hI.enter henter
  refine ⟨fun key why valid e hexec => ?_, hI.calls, hI.rejoined, fun id key => ?_⟩
  · obtain ⟨hub', next, hlost, rfl⟩ := hubExec_of_not_returns rfl hexec
    exact ⟨Hub.lost_next hI.filed hlost, hI.sets.members key⟩
  · have hcalls := hI.calls id key
    have hadds := hI.adds id key
    omega

end JsonRpcBridge.Upstream
