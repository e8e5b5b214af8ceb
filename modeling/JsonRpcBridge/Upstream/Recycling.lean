import JsonRpcBridge.Interleaving.History
import JsonRpcBridge.Upstream.Lifecycle

/-!
# How soon a client is replaced

A client is to be replaced at the first answer that finds its module unavailable at least 2 s after
the client was made, and then no sooner than 4, 8, … up to 60 s after the last replacement while the
module answers nothing. `Spaced` says so of what has happened to a module.

The policy measures from the moment a replacement was *decided* (`RecyclePolicy.since`). The client
is made later, when the pump gets to the job, and an answer may come in between. So the registry
keeps to the spacing as long as neither makes a difference:

* `Waited`: no `object_unavailable` comes through a client in the time between the end of the gap as
  the policy measures it and the end of the gap measured from when the client was made;
* `settled`: no answer resets the gap while a replacement of the client it came through is decided
  and not carried out.

The first is about the times of the answers alone. That one which comes before both ends lets
nothing go is the policy's doing (`onUnavailable_early`).

`replaced_spaced` proves it of every such run; `not_replaced_spaced` is a run with a late job, in
which a client is replaced one second after it was made.
-/

namespace JsonRpcBridge.Upstream.Registry

open Interleaving

deriving instance DecidableEq for RecyclePolicy

/-! ## What happens to a module

The log is kept per module, from what the sections do to it. Times are those of the section. -/

/-- `unavailable` and `replaced` are about the current client, `reached` about any of the module's
clients. -/
inductive Happened where
  | created (now : Nat)
  | replaced (now : Nat)
  | unavailable (policy : RecyclePolicy) (now : Nat)
  | reached
deriving DecidableEq

/-- The module's policy and slot, while the registry is open. -/
def Shared.inUse (sh : Shared) (m : Bytes) : Option (Module × Nat) :=
  if sh.closed then none
  else (sh.modules m).bind fun md => md.current.map fun k => (md, k)

/-- The module has answered through a client. -/
def reaches (e : CallError) : Bool := e.ok || e.code == str "unauthorized"

/-- What a section does to which module. -/
def note (sh : Shared) (x : Pc) (_ : Bool) : List (Bytes × Happened) :=
  match x with
  | .get m | .invoke m _ =>
    if sh.closed || (sh.inUse m).isSome then [] else [(m, .created sh.now)]
  | .replace m epoch =>
    match sh.inUse m with
    | some (_, k) => if (sh.slots k).epoch = epoch then [(m, .replaced sh.now)] else []
    | none => []
  | .finished k _ _ e =>
    let m := (sh.slots k).module
    if e.code = str "object_unavailable" then
      match sh.inUse m with
      | some (md, current) => if current = k then [(m, .unavailable md.policy sh.now)] else []
      | none => []
    else if reaches e then [(m, .reached)]
    else []
  | _ => []

/-- What has happened to module `m`, newest first. -/
def past (m : Bytes) (h : List (Bytes × Happened)) : List Happened :=
  (h.filterMap fun n => if n.1 = m then some n.2 else none).reverse

@[simp] theorem past_append (m : Bytes) (h l : List (Bytes × Happened)) :
    past m (h ++ l) = past m l ++ past m h := by
  simp [past]

@[simp] theorem past_nil (m : Bytes) : past m [] = [] := rfl

@[simp] theorem past_self (m : Bytes) (x : Happened) : past m [(m, x)] = [x] := by
  simp [past]

theorem past_of_ne {m m' : Bytes} (hm : m' ≠ m) (x : Happened) : past m [(m', x)] = [] := by
  simp [past, hm]

/-! ## The spacing

`Spaced` and `Waited` are about such a past alone. `streak` counts the replacements since the
module last answered anything; the wait before the next one goes by its length. -/

/-- When the module's current client was made: at the module's first use, or in the last
replacement. -/
def madeAt : List Happened → Option Nat
  | .created now :: _ | .replaced now :: _ => some now
  | _ :: past => madeAt past
  | [] => none

/-- The replacements since the module last answered, newest first. -/
def streak : List Happened → List Nat
  | .replaced now :: past => now :: streak past
  | .unavailable .. :: past => streak past
  | _ => []

/-- 2, 4, 8, … up to 60 s. -/
def backoff (n : Nat) : Nat := min (ms (1000 * 2 ^ (n + 1))) kMaxGap

/-- Every client was replaced at least 2 s after it was made, and, while the module answered
nothing, each replacement came at least 4, 8, … up to 60 s after the one before it. -/
def Spaced : List Happened → Prop
  | [] => True
  | .replaced now :: past =>
    (∃ made ∈ madeAt past, made + kFirstGap ≤ now) ∧
      (∀ last ∈ (streak past).head?, last + backoff (streak past).length ≤ now) ∧ Spaced past
  | _ :: past => Spaced past

/-- No `object_unavailable` comes through the current client after the gap has passed since the
policy's `since` and before it has passed since the client was made. -/
def Waited : List Happened → Prop
  | [] => True
  | .unavailable policy now :: past =>
    (∀ made ∈ madeAt past, ¬ (policy.since + policy.gap ≤ now ∧ now < made + policy.gap)) ∧
      Waited past
  | _ :: past => Waited past

instance decidableSpaced : (past : List Happened) → Decidable (Spaced past)
  | [] => .isTrue trivial
  | .replaced now :: past =>
    have := decidableSpaced past
    inferInstanceAs (Decidable ((∃ made ∈ madeAt past, made + kFirstGap ≤ now) ∧
      (∀ last ∈ (streak past).head?, last + backoff (streak past).length ≤ now) ∧ Spaced past))
  | .created _ :: past | .unavailable .. :: past | .reached :: past => decidableSpaced past

instance decidableWaited : (past : List Happened) → Decidable (Waited past)
  | [] => .isTrue trivial
  | .unavailable policy now :: past =>
    have := decidableWaited past
    inferInstanceAs (Decidable ((∀ made ∈ madeAt past,
      ¬ (policy.since + policy.gap ≤ now ∧ now < made + policy.gap)) ∧ Waited past))
  | .created _ :: past | .replaced _ :: past | .reached :: past => decidableWaited past

/-! ### The policy and the past -/

theorem backoff_zero : backoff 0 = kFirstGap := by
  unfold backoff kFirstGap kMaxGap ms
  omega

theorem backoff_mono {a b : Nat} (h : a ≤ b) : backoff a ≤ backoff b := by
  have hpow : 2 ^ (a + 1) ≤ 2 ^ (b + 1) := Nat.pow_le_pow_right (by omega) (by omega)
  unfold backoff ms
  omega

/-- The policy doubles its gap as the spacing asks. -/
theorem backoff_succ {n gap : Nat} (h : backoff n ≤ gap) : backoff (n + 1) ≤ min (gap * 2) kMaxGap := by
  rw [backoff, min_le_iff] at h
  have hpow : ms (1000 * 2 ^ (n + 1 + 1)) = ms (1000 * 2 ^ (n + 1)) * 2 := by
    unfold ms
    rw [Nat.pow_succ 2 (n + 1)]
    omega
  rw [backoff, hpow]
  apply le_min ?_ (Nat.min_le_right _ _)
  rcases h with h | h
  · exact (Nat.min_le_left _ _).trans (Nat.mul_le_mul_right 2 h)
  · exact (Nat.min_le_right _ _).trans (h.trans (Nat.le_mul_of_pos_right _ (by omega)))

theorem madeAt_of_streak {past : List Happened} {last : Nat} (h : last ∈ (streak past).head?) :
    last ∈ madeAt past := by
  induction past with
  | nil => cases h
  | cons x past ih =>
      cases x with
      | replaced now => exact h
      | unavailable policy now => exact ih h
      | created now => cases h
      | reached => cases h

/-- An answer that comes before the gap has passed since `since` changes nothing. -/
theorem onUnavailable_early {policy : RecyclePolicy} {now : Nat}
    (hearly : now < policy.since + policy.gap) : policy.onUnavailable now = (false, policy) :=
  if_pos hearly

/-- What the policy lets go has waited for its gap since `since`. -/
theorem since_of_onUnavailable {policy : RecyclePolicy} {now : Nat}
    (hgo : (policy.onUnavailable now).1 = true) : policy.since + policy.gap ≤ now := by
  by_contra hnot
  rw [onUnavailable_early (Nat.lt_of_not_le hnot)] at hgo
  cases hgo

/-! ## What a section does

The registry has a dozen sections and only six effects on the policy and the slot of a module. -/

variable {sh : Shared} {p others : Multiset Pc} {e : Effect Shared Pc}

/-- The client a section is to replace. -/
def Pc.replaces? : Pc → Option (Bytes × Nat)
  | .postReplace _ m epoch | .replace m epoch => some (m, epoch)
  | _ => none

theorem inUse_eq {m : Bytes} {md : Module} {k : Nat} :
    sh.inUse m = some (md, k) ↔
      sh.closed = false ∧ sh.modules m = some md ∧ md.current = some k := by
  unfold Shared.inUse
  cases sh.closed
  · simp only [Bool.false_eq_true, if_false, Option.bind_eq_some_iff, Option.map_eq_some_iff,
      Prod.mk.injEq, true_and]
    constructor
    · rintro ⟨md', hmd, k', hk, rfl, rfl⟩
      exact ⟨hmd, hk⟩
    · rintro ⟨hmd, hk⟩
      exact ⟨md, hmd, k, hk, rfl, rfl⟩
  · simp

/-- What section `x` does to the modules and leaves to be replaced, by what it is noted as. -/
inductive Recycling (sh : Shared) (x : Pc) (e : Effect Shared Pc) : List (Bytes × Happened) → Prop
  | idle (hmodules : e.shared.modules = sh.modules)
      (hjobs : ∀ y ∈ e.made, y.replaces? = none ∨ y.replaces? = x.replaces?) : Recycling sh x e []
  | created {m : Bytes} {md : Module}
      (hmd : sh.modules m = some md ∨ sh.modules m = none ∧ md.policy.gap = kFirstGap)
      (hmodules : e.shared.modules = Function.update sh.modules m
        (some { md with current := some sh.made, lastEpoch := md.lastEpoch + 1 }))
      (hjobs : ∀ y ∈ e.made, y.replaces? = none) : Recycling sh x e [(m, .created sh.now)]
  | replaced {m : Bytes} {md : Module} {old : Nat} (hx : x = .replace m (sh.slots old).epoch)
      (hmd : sh.modules m = some md) (hold : md.current = some old)
      (hmodules : e.shared.modules = Function.update sh.modules m
        (some { md with current := some sh.made, lastEpoch := md.lastEpoch + 1 }))
      (hjobs : ∀ y ∈ e.made, y.replaces? = none) : Recycling sh x e [(m, .replaced sh.now)]
  | unavailable {k : Nat} {md : Module} (hmd : sh.modules (sh.slots k).module = some md)
      (hk : md.current = some k)
      (hmodules : e.shared.modules = Function.update sh.modules (sh.slots k).module
        (some { md with policy := (md.policy.onUnavailable sh.now).2 }))
      (hjobs : ∀ y ∈ e.made, y.replaces? = none ∨ (md.policy.onUnavailable sh.now).1 = true ∧
        y.replaces? = some ((sh.slots k).module, (sh.slots k).epoch)) :
      Recycling sh x e [((sh.slots k).module, .unavailable md.policy sh.now)]
  | reset {k call : Nat} {value : Json} {err : CallError} {md : Module}
      (hx : x = .finished k call value err) (herr : reaches err = true)
      (huse : sh.inUse (sh.slots k).module = some (md, k))
      (hmodules : e.shared.modules = Function.update sh.modules (sh.slots k).module
        (some { md with policy := md.policy.onReached }))
      (hjobs : ∀ y ∈ e.made, y.replaces? = none) :
      Recycling sh x e [((sh.slots k).module, .reached)]
  | reached {m : Bytes} (hmodules : e.shared.modules = sh.modules)
      (hjobs : ∀ y ∈ e.made, y.replaces? = none) : Recycling sh x e [(m, .reached)]

theorem modules_currentLocked (sh : Shared) (m : Bytes) :
    (∃ md k, sh.modules m = some md ∧ md.current = some k ∧ sh.currentLocked m = (sh, k)) ∨
    ((∀ md, sh.modules m = some md → md.current = none) ∧ ∃ md : Module,
      (sh.modules m = some md ∨ sh.modules m = none ∧ md.policy.gap = kFirstGap) ∧
      (sh.currentLocked m).1.modules = Function.update sh.modules m
        (some { md with current := some sh.made, lastEpoch := md.lastEpoch + 1 })) := by
  unfold Shared.currentLocked
  cases hmd : sh.modules m with
  | none =>
      right
      exact ⟨fun md h => (nomatch h), _, Or.inr ⟨rfl, rfl⟩, rfl⟩
  | some md =>
      cases hk : md.current with
      | none =>
          right
          refine ⟨fun md' h => Option.some.inj h ▸ hk, md, Or.inl rfl, ?_⟩
          simp only [Option.getD_some, hk]
          rfl
      | some k =>
          left
          refine ⟨md, k, rfl, hk, ?_⟩
          simp only [Option.getD_some, hk]

theorem Recycling.of_currentLocked {x : Pc} {m : Bytes} (hopen : sh.closed = false)
    (hmodules : e.shared.modules = (sh.currentLocked m).1.modules)
    (hjobs : ∀ y ∈ e.made, y.replaces? = none) :
    Recycling sh x e
      (if sh.closed || (sh.inUse m).isSome then [] else [(m, .created sh.now)]) := by
  rcases modules_currentLocked sh m with ⟨md, k, hmd, hk, hcur⟩ | ⟨hnone, md, hmd, hnew⟩
  · rw [inUse_eq.mpr ⟨hopen, hmd, hk⟩, Option.isSome_some, Bool.or_true, if_pos rfl]
    rw [hcur] at hmodules
    exact .idle hmodules fun y hy => Or.inl (hjobs y hy)
  · have huse : sh.inUse m = none := by
      rw [Option.eq_none_iff_forall_ne_some]
      rintro ⟨md', k⟩ huse
      obtain ⟨-, hmd', hk⟩ := inUse_eq.mp huse
      rw [hnone md' hmd'] at hk
      cases hk
    rw [huse, hopen, if_neg (by decide)]
    exact .created hmd (hmodules.trans hnew) hjobs

/-- A section that leaves the modules alone and posts nothing new. -/
theorem Recycling.quiet {x : Pc} (hmodules : e.shared.modules = sh.modules)
    (hjobs : ∀ y ∈ e.made, y.replaces? = none) : Recycling sh x e [] :=
  .idle hmodules fun y hy => Or.inl (hjobs y hy)

theorem replaces_drops {l : List Nat} {x : Pc} (hx : x.replaces? = none) :
    ∀ y ∈ l.map Pc.drop ++ [x], y.replaces? = none := by
  intro y hy
  rcases List.mem_append.mp hy with hy | hy
  · obtain ⟨k, -, rfl⟩ := List.mem_map.mp hy
    rfl
  · rw [List.mem_singleton.mp hy]
    exact hx

theorem Effect.replaces_next {s : Shared} {l : List Pc} (hl : ∀ y ∈ l, y.replaces? = none) :
    ∀ y ∈ ({ shared := s, next := l } : Effect Shared Pc).made, y.replaces? = none := by
  intro y hy
  rcases Effect.mem_made.mp hy with hy | ⟨t, ht, -⟩
  · exact hl y hy
  · cases ht

/-! ### Section by section -/

theorem Recycling.get (m : Bytes) (c : Bool) : Recycling sh (.get m) (get sh m) (note sh (.get m) c) := by
  unfold Registry.get note
  by_cases hclosed : sh.closed = true
  · rw [if_pos hclosed, hclosed]
    exact .quiet rfl (Effect.replaces_next (by simp))
  · rw [if_neg hclosed]
    apply Recycling.of_currentLocked (Bool.eq_false_iff.mpr hclosed)
    · dsimp only
      split <;> rfl
    · dsimp only
      split
      · exact Effect.replaces_next (by simp [Pc.replaces?])
      · exact Effect.replaces_next (by simp)

theorem Recycling.invoke (m : Bytes) (call : Nat) (c : Bool) :
    Recycling sh (.invoke m call) (invoke sh m call) (note sh (.invoke m call) c) := by
  unfold Registry.invoke note
  by_cases hclosed : sh.closed = true
  · rw [if_pos hclosed, hclosed]
    exact .quiet rfl (Effect.replaces_next (by simp [Pc.replaces?]))
  · rw [if_neg hclosed]
    apply Recycling.of_currentLocked (Bool.eq_false_iff.mpr hclosed)
    · dsimp only
      split <;> rfl
    · dsimp only
      split
      · exact Effect.replaces_next (replaces_drops rfl)
      · exact Effect.replaces_next (replaces_drops rfl)

theorem Recycling.replace (m : Bytes) (epoch : Nat) (c : Bool) :
    Recycling sh (.replace m epoch) (replace sh m epoch) (note sh (.replace m epoch) c) := by
  -- nothing is replaced where there is no client, another one, or none any more
  have hnone : Recycling sh (.replace m epoch) { shared := sh } [] :=
    .quiet rfl (Effect.replaces_next (by simp))
  unfold Registry.replace note
  cases hmd : sh.modules m with
  | none =>
      have huse : sh.inUse m = none := by simp [Shared.inUse, hmd]
      dsimp only
      rw [huse]
      exact hnone
  | some md =>
      dsimp only
      cases hcur : md.current with
      | none =>
          have huse : sh.inUse m = none := by simp [Shared.inUse, hmd, hcur]
          rw [huse]
          exact hnone
      | some old =>
          dsimp only
          by_cases hclosed : sh.closed = true
          · have huse : sh.inUse m = none := by simp [Shared.inUse, hclosed]
            rw [huse, hclosed, Bool.true_or, if_pos rfl]
            exact hnone
          · rw [inUse_eq.mpr ⟨Bool.eq_false_iff.mpr hclosed, hmd, hcur⟩]
            dsimp only
            rw [Bool.eq_false_iff.mpr hclosed, Bool.false_or]
            by_cases hepoch : (sh.slots old).epoch = epoch
            · subst hepoch
              rw [bne_self_eq_false, if_neg Bool.false_ne_true, if_pos rfl]
              refine .replaced rfl hmd hcur rfl (Effect.replaces_next fun y hy => ?_)
              rw [List.append_assoc] at hy
              rcases List.mem_append.mp hy with hy | hy
              · split at hy
                · rw [List.mem_singleton.mp hy]
                  rfl
                · cases hy
              · exact replaces_drops (x := .onReplaced m (md.lastEpoch + 1)) rfl y hy
            · rw [if_pos (bne_iff_ne.mpr hepoch), if_neg hepoch]
              exact hnone

theorem judge_inUse {k : Nat} {md : Module} (err : CallError)
    (huse : sh.inUse (sh.slots k).module = some (md, k)) :
    sh.judge k err =
      if err.code = str "object_unavailable" then
        (sh.setModule (sh.slots k).module { md with policy := (md.policy.onUnavailable sh.now).2 },
          (md.policy.onUnavailable sh.now).1)
      else if reaches err then
        (sh.setModule (sh.slots k).module { md with policy := md.policy.onReached }, false)
      else (sh, false) := by
  obtain ⟨hopen, hmd, hk⟩ := inUse_eq.mp huse
  unfold Shared.judge
  dsimp only
  rw [hmd]
  dsimp only
  rw [hopen, hk, bne_self_eq_false, Bool.false_or, if_neg Bool.false_ne_true]
  simp only [beq_iff_eq]
  rfl

theorem judge_notInUse {k : Nat} (err : CallError)
    (huse : ∀ md, sh.inUse (sh.slots k).module ≠ some (md, k)) : sh.judge k err = (sh, false) := by
  unfold Shared.judge
  dsimp only
  cases hmd : sh.modules (sh.slots k).module with
  | none => rfl
  | some md =>
      dsimp only
      rw [if_pos]
      by_contra hneg
      simp only [Bool.or_eq_true, bne_iff_ne, ne_eq, not_or, Bool.not_eq_true, not_not] at hneg
      exact huse md (inUse_eq.mpr ⟨hneg.1, hmd, hneg.2⟩)

theorem Recycling.finished (k call : Nat) (value : Json) (err : CallError) (c : Bool) :
    Recycling sh (.finished k call value err) (finished sh k call value err)
      (note sh (.finished k call value err) c) := by
  -- the call is counted off first, which the judgement does not see
  have hslot : ((sh.setInFlight k ((sh.slots k).inFlight - 1)).slots k).module =
      (sh.slots k).module := by
    rw [slots_setInFlight, if_pos rfl]
  have hmodules : (Registry.finished sh k call value err).shared.modules =
      ((sh.setInFlight k ((sh.slots k).inFlight - 1)).judge k err).1.modules := by
    unfold Registry.finished
    dsimp only
    split <;> rfl
  have hjobs : ∀ y ∈ (Registry.finished sh k call value err).made, y.replaces? = none ∨
      ((sh.setInFlight k ((sh.slots k).inFlight - 1)).judge k err).2 = true ∧
        y.replaces? = some ((sh.slots k).module, (sh.slots k).epoch) := by
    intro y hy
    rcases Effect.mem_made.mp hy with hy | ⟨t, ht, -⟩
    · unfold Registry.finished at hy
      rcases List.mem_append.mp hy with hy | hy
      · rcases List.mem_append.mp hy with hy | hy
        · left
          split at hy
          · rw [List.mem_singleton.mp hy]
            rfl
          · cases hy
        · split at hy
          · rename_i hnow
            rw [List.mem_singleton.mp hy]
            exact Or.inr ⟨hnow, rfl⟩
          · cases hy
      · left
        rw [List.mem_singleton.mp hy]
        rfl
    · cases ht
  unfold note
  dsimp only
  -- answers through a client that is no longer current are not judged
  by_cases huse : ∃ md, sh.inUse (sh.slots k).module = some (md, k)
  · obtain ⟨md, huse⟩ := huse
    have huse' : (sh.setInFlight k ((sh.slots k).inFlight - 1)).inUse
        ((sh.setInFlight k ((sh.slots k).inFlight - 1)).slots k).module = some (md, k) := by
      rw [hslot]
      exact huse
    rw [judge_inUse err huse', hslot] at hmodules hjobs
    rw [huse]
    dsimp only
    obtain ⟨-, hmd, hk⟩ := inUse_eq.mp huse
    by_cases hcode : err.code = str "object_unavailable"
    · rw [if_pos hcode] at hmodules hjobs
      rw [if_pos hcode, if_pos rfl]
      exact .unavailable hmd hk hmodules hjobs
    · rw [if_neg hcode] at hmodules hjobs
      rw [if_neg hcode]
      by_cases hreached : reaches err = true
      · rw [if_pos hreached] at hmodules hjobs
        rw [if_pos hreached]
        refine .reset rfl hreached huse hmodules fun y hy => ?_
        rcases hjobs y hy with hy | ⟨hfalse, -⟩
        · exact hy
        · cases hfalse
      · rw [if_neg hreached] at hmodules hjobs
        rw [if_neg hreached]
        refine .quiet hmodules fun y hy => ?_
        rcases hjobs y hy with hy | ⟨hfalse, -⟩
        · exact hy
        · cases hfalse
  · have hno : ∀ md, sh.inUse (sh.slots k).module ≠ some (md, k) := fun md hmd => huse ⟨md, hmd⟩
    rw [judge_notInUse err (by rw [hslot]; exact hno)] at hmodules hjobs
    replace hjobs : ∀ y ∈ (Registry.finished sh k call value err).made, y.replaces? = none := by
      intro y hy
      rcases hjobs y hy with hy | ⟨hfalse, -⟩
      · exact hy
      · cases hfalse
    split
    · split
      · rename_i md current hmd
        rw [if_neg fun hk : current = k => hno md (hk ▸ hmd)]
        exact .quiet hmodules hjobs
      · exact .quiet hmodules hjobs
    · split
      · exact .reached hmodules hjobs
      · exact .quiet hmodules hjobs

theorem modules_dropBox (sh : Shared) (b : Nat) : (sh.dropBox b).modules = sh.modules := by
  unfold Shared.dropBox
  dsimp only
  split <;> rfl

/-- **Inversion.** -/
theorem exec_recycling {x : Pc} {accepted : Bool} (hexec : exec sh x accepted = some e) :
    Recycling sh x e (note sh x accepted) := by
  -- to drop a client asks for no replacement
  have hdrops : ∀ l : List Nat, ∀ y ∈ l.map Pc.drop, y.replaces? = none := by
    intro l y hy
    obtain ⟨k, -, rfl⟩ := List.mem_map.mp hy
    rfl
  cases x with
  | get m =>
      cases hexec
      exact .get m accepted
  | invoke m call =>
      cases hexec
      exact .invoke m call accepted
  | replace m epoch =>
      cases hexec
      exact .replace m epoch accepted
  | finished k call value err =>
      cases hexec
      exact .finished k call value err accepted
  | postReplace k m epoch =>
      cases hexec
      refine .idle rfl fun y hy => ?_
      rcases Effect.mem_made.mp hy with hnext | ⟨t, ht, hyt⟩
      · cases hnext
      · right
        cases accepted
        · cases ht
        -- the job is the replacement that was decided
        · rw [List.mem_singleton.mp ht] at hyt
          rw [List.mem_singleton.mp hyt]
          rfl
  | postRelease k =>
      cases accepted <;> cases hexec
      · exact .quiet rfl (Effect.replaces_next (by simp [Pc.replaces?]))
      · refine .quiet rfl fun y hy => ?_
        rcases Effect.mem_made.mp hy with hnext | ⟨t, ht, hyt⟩
        · rw [List.mem_singleton.mp hnext]
          rfl
        · rw [List.mem_singleton.mp ht] at hyt
          rw [List.mem_singleton.mp hyt]
          rfl
  | close =>
      cases hexec
      exact .quiet rfl (Effect.replaces_next (hdrops _))
  | submit k call =>
      cases hexec
      exact .quiet rfl (Effect.replaces_next (hdrops [k]))
  | onReplaced | done =>
      cases hexec
      exact .quiet rfl (Effect.replaces_next (hdrops []))
  | drop k =>
      cases hexec
      exact .quiet rfl (Effect.replaces_next (hdrops []))
  | release k b =>
      cases hexec
      refine .quiet ((modules_dropBox _ b).trans ?_) (Effect.replaces_next (hdrops []))
      split <;> rfl
  | keep k b =>
      cases hexec
      exact .quiet rfl (Effect.replaces_next (by simp [Pc.replaces?]))
  | dropBox k b =>
      cases hexec
      exact .quiet (modules_dropBox sh b) (Effect.replaces_next (hdrops []))

theorem now_currentLocked (sh : Shared) (m : Bytes) : (sh.currentLocked m).1.now = sh.now := by
  unfold Shared.currentLocked
  dsimp only
  split <;> rfl

/-- A section takes no time. -/
theorem now_exec {x : Pc} {accepted : Bool} (hexec : exec sh x accepted = some e) :
    e.shared.now = sh.now := by
  cases x with
  | get m =>
      cases hexec
      unfold Registry.get
      dsimp only
      split
      · rfl
      · split <;> exact now_currentLocked sh m
  | invoke m call =>
      cases hexec
      unfold Registry.invoke
      dsimp only
      split
      · rfl
      · split <;> exact now_currentLocked sh m
  | replace m epoch =>
      cases hexec
      unfold Registry.replace
      dsimp only
      repeat' split
      all_goals rfl
  | finished k call value err =>
      cases hexec
      obtain ⟨modules, hjudge, -⟩ := judge_same (sh.setInFlight k ((sh.slots k).inFlight - 1)) k err
      have hnow := congrArg Shared.now hjudge
      unfold Registry.finished
      dsimp only
      split <;> exact hnow
  | postRelease k => cases accepted <;> cases hexec <;> rfl
  | release k b =>
      cases hexec
      unfold Shared.dropBox
      dsimp only
      repeat' split
      all_goals rfl
  | dropBox k b =>
      cases hexec
      unfold Shared.dropBox
      dsimp only
      split <;> rfl
  | _ =>
      cases hexec
      rfl

/-! ## The runs

A job that was decided carries the promise of `Due`: by the clock as it was then, its wait is
over. The promise keeps, for time does not go back. -/

/-- The entry points that the bridge calls: `replace` comes from the jobs of `finished` alone. -/
def RegistryEntry.called : RegistryEntry → Bool
  | .replace .. => false
  | _ => true

/-- Clients are replaced by the jobs of `finished` alone, as in the bridge. -/
def decided : Guard Shared Pc Bool RegistryEntry where
  run _ _ _ _ := True
  enter _ _ ev := ev.called = true

instance : decided.Decided where
  run _ _ _ _ := isTrue trivial
  enter _ _ ev := inferInstanceAs (Decidable (ev.called = true))

/-- No answer of the module resets the gap while a replacement of the client it came through is
decided and not carried out. -/
def settled : Guard Shared Pc Bool RegistryEntry where
  run sh p x _ :=
    match x with
    | .finished k _ _ err =>
      reaches err = true → (sh.inUse (sh.slots k).module).map Prod.snd = some k →
        ∀ y ∈ p, y.replaces? ≠ some ((sh.slots k).module, (sh.slots k).epoch)
    | _ => True
  enter _ _ ev := ev.called = true

instance : settled.Decided where
  run sh p x _ :=
    match x with
    | .finished k _ _ err => inferInstanceAs (Decidable (reaches err = true →
        (sh.inUse (sh.slots k).module).map Prod.snd = some k →
          ∀ y ∈ p, y.replaces? ≠ some ((sh.slots k).module, (sh.slots k).epoch)))
    | .get .. | .invoke .. | .submit .. | .replace .. | .onReplaced .. | .close | .drop _
    | .release .. | .postRelease _ | .keep .. | .dropBox .. | .postReplace .. | .done .. =>
      isTrue trivial
  enter _ _ ev := inferInstanceAs (Decidable (ev.called = true))

/-! ### The invariant -/

/-- A replacement decided and not carried out: its time has come, and the gap is already that of the
next one. -/
def Due (sh : Shared) (m : Bytes) (epoch : Nat) (past : List Happened) : Prop :=
  ∃ md, sh.modules m = some md ∧ epoch ≤ md.lastEpoch ∧ (epoch = md.lastEpoch →
    (∀ made ∈ madeAt past, made + backoff (streak past).length ≤ sh.now) ∧
      backoff ((streak past).length + 1) ≤ md.policy.gap)

/-- What is known of module `m` and of what has happened to it. -/
structure Paced (sh : Shared) (p : Multiset Pc) (m : Bytes) (past : List Happened) : Prop where
  spaced : Spaced past
  made : ∀ md k, sh.modules m = some md → md.current = some k → (madeAt past).isSome
  gap : ∀ md, sh.modules m = some md → backoff (streak past).length ≤ md.policy.gap
  due : ∀ y ∈ p, ∀ epoch, y.replaces? = some (m, epoch) → Due sh m epoch past

/-- Only what a module's entry, its past and the jobs about it are matters. -/
theorem Paced.of_same {sh' : Shared} {q : Multiset Pc} {m : Bytes} {past : List Happened}
    (h : Paced sh p m past) (hmodules : sh'.modules m = sh.modules m) (hnow : sh.now ≤ sh'.now)
    (hjobs : ∀ y ∈ q, ∀ epoch, y.replaces? = some (m, epoch) →
      ∃ z ∈ p, z.replaces? = some (m, epoch)) : Paced sh' q m past where
  spaced := h.spaced
  made := by rw [hmodules]; exact h.made
  gap := by rw [hmodules]; exact h.gap
  due := by
    intro y hy epoch hepoch
    obtain ⟨z, hz, hzepoch⟩ := hjobs y hy epoch hepoch
    obtain ⟨md, hmd, hle, hdue⟩ := h.due z hz epoch hzepoch
    refine ⟨md, hmodules.trans hmd, hle, fun heq => ?_⟩
    obtain ⟨hmade, hgap⟩ := hdue heq
    exact ⟨fun made hin => (hmade made hin).trans hnow, hgap⟩

section Step
variable {sh' : Shared} {q : Multiset Pc} {m : Bytes} {md : Module} {past : List Happened}

/-- With a new client, no job decided before is about the current one. -/
theorem Paced.due_renewed (h : Paced sh p m past)
    (hmd : sh.modules m = some md ∨ sh.modules m = none ∧ md.policy.gap = kFirstGap)
    {current : Option Nat}
    (hmodules : sh'.modules m = some { md with current, lastEpoch := md.lastEpoch + 1 })
    (hjobs : ∀ y ∈ q, ∀ epoch, y.replaces? = some (m, epoch) → y ∈ p) (past' : List Happened) :
    ∀ y ∈ q, ∀ epoch, y.replaces? = some (m, epoch) → Due sh' m epoch past' := by
  intro y hy epoch hepoch
  obtain ⟨md', hmd', hle, -⟩ := h.due y (hjobs y hy epoch hepoch) epoch hepoch
  rcases hmd with hmd | ⟨hnone, -⟩
  · obtain rfl : md = md' := Option.some.inj (hmd.symm.trans hmd')
    refine ⟨_, hmodules, ?_, ?_⟩
    · show epoch ≤ md.lastEpoch + 1
      omega
    · intro heq
      have hlast : epoch = md.lastEpoch + 1 := heq
      omega
  · rw [hnone] at hmd'
    cases hmd'

theorem Paced.created (h : Paced sh p m past)
    (hmd : sh.modules m = some md ∨ sh.modules m = none ∧ md.policy.gap = kFirstGap)
    {current : Option Nat}
    (hmodules : sh'.modules m = some { md with current, lastEpoch := md.lastEpoch + 1 })
    (hjobs : ∀ y ∈ q, ∀ epoch, y.replaces? = some (m, epoch) → y ∈ p) :
    Paced sh' q m (.created sh.now :: past) where
  spaced := h.spaced
  made _ _ _ _ := rfl
  gap := by
    intro md' hmd'
    rw [hmodules, Option.some.injEq] at hmd'
    subst hmd'
    show backoff 0 ≤ md.policy.gap
    rcases hmd with hmd | ⟨-, hgap⟩
    · exact (backoff_mono (Nat.zero_le _)).trans (h.gap md hmd)
    · rw [hgap]
      exact le_of_eq backoff_zero
  due := h.due_renewed hmd hmodules hjobs _

/-- **A replacement is carried out.** Its time had come when it was decided. -/
theorem Paced.replaced (h : Paced sh p m past) (hmd : sh.modules m = some md) {old : Nat}
    (hold : md.current = some old) {x : Pc} (hx : x ∈ p)
    (hreplaces : x.replaces? = some (m, md.lastEpoch)) {current : Option Nat}
    (hmodules : sh'.modules m = some { md with current, lastEpoch := md.lastEpoch + 1 })
    (hjobs : ∀ y ∈ q, ∀ epoch, y.replaces? = some (m, epoch) → y ∈ p) :
    Paced sh' q m (.replaced sh.now :: past) := by
  obtain ⟨md', hmd', -, hdue⟩ := h.due x hx md.lastEpoch hreplaces
  obtain rfl : md = md' := Option.some.inj (hmd.symm.trans hmd')
  obtain ⟨htime, hgap⟩ := hdue rfl
  obtain ⟨made, hmade⟩ := Option.isSome_iff_exists.mp (h.made md old hmd hold)
  refine ⟨⟨⟨made, hmade, ?_⟩, fun last hlast => htime last (madeAt_of_streak hlast), h.spaced⟩,
    fun _ _ _ _ => rfl, ?_, h.due_renewed (Or.inl hmd) hmodules hjobs _⟩
  · have hfirst : backoff 0 ≤ backoff (streak past).length := backoff_mono (Nat.zero_le _)
    rw [backoff_zero] at hfirst
    have := htime made hmade
    omega
  · intro md' hmd'
    rw [hmodules, Option.some.injEq] at hmd'
    subst hmd'
    exact hgap

/-- **The policy decides.** It lets a replacement go once its gap has passed since `since`, so here
also since the client was made, and doubles its gap. -/
theorem Paced.unavailable (h : Paced sh p m past) (hmd : sh.modules m = some md)
    (hwaited : ∀ made ∈ madeAt past,
      ¬ (md.policy.since + md.policy.gap ≤ sh.now ∧ sh.now < made + md.policy.gap))
    (hmodules : sh'.modules m = some { md with policy := (md.policy.onUnavailable sh.now).2 })
    (hnow : sh'.now = sh.now)
    (hjobs : ∀ y ∈ q, ∀ epoch, y.replaces? = some (m, epoch) →
      y ∈ p ∨ (md.policy.onUnavailable sh.now).1 = true ∧ epoch = md.lastEpoch) :
    Paced sh' q m (.unavailable md.policy sh.now :: past) := by
  have hold := h.gap md hmd
  have hgrown : md.policy.gap ≤ (md.policy.onUnavailable sh.now).2.gap ∨
      (md.policy.onUnavailable sh.now).2.gap = kMaxGap := by
    unfold RecyclePolicy.onUnavailable
    split
    · exact Or.inl (Nat.le_refl _)
    · show md.policy.gap ≤ min (md.policy.gap * 2) kMaxGap ∨ min (md.policy.gap * 2) kMaxGap = kMaxGap
      omega
  -- whatever the gap was enough for, it still is
  have hkept : ∀ n, backoff n ≤ md.policy.gap → backoff n ≤ (md.policy.onUnavailable sh.now).2.gap := by
    intro n hn
    rcases hgrown with hle | hmax
    · exact hn.trans hle
    · rw [hmax]
      exact Nat.min_le_right _ _
  refine ⟨h.spaced, fun md' k hmd' hk => ?_, fun md' hmd' => ?_, fun y hy epoch hepoch => ?_⟩
  · rw [hmodules, Option.some.injEq] at hmd'
    subst hmd'
    exact h.made md k hmd hk
  · rw [hmodules, Option.some.injEq] at hmd'
    subst hmd'
    exact hkept _ hold
  · rcases hjobs y hy epoch hepoch with hin | ⟨hgo, rfl⟩
    · obtain ⟨md', hmd', hle, hdue⟩ := h.due y hin epoch hepoch
      obtain rfl : md = md' := Option.some.inj (hmd.symm.trans hmd')
      refine ⟨_, hmodules, hle, fun heq => ?_⟩
      obtain ⟨htime, hgap⟩ := hdue heq
      rw [hnow]
      exact ⟨htime, hkept _ hgap⟩
    · refine ⟨_, hmodules, Nat.le_refl _, fun _ => ⟨fun made hmade => ?_, ?_⟩⟩
      · have hsince := since_of_onUnavailable hgo
        have hmadeAgo : ¬ sh.now < made + md.policy.gap :=
          fun hsoon => hwaited made hmade ⟨hsince, hsoon⟩
        show made + backoff (streak past).length ≤ sh'.now
        omega
      · show backoff ((streak past).length + 1) ≤ (md.policy.onUnavailable sh.now).2.gap
        unfold RecyclePolicy.onUnavailable at hgo ⊢
        split at hgo
        · cases hgo
        · rename_i hlate
          rw [if_neg hlate]
          exact backoff_succ hold

/-- **The module answers**, and the policy does not see it: any gap is enough for a new streak. -/
theorem Paced.reached (h : Paced sh p m past) (hmodules : sh'.modules m = sh.modules m)
    (hnow : sh'.now = sh.now)
    (hjobs : ∀ y ∈ q, ∀ epoch, y.replaces? = some (m, epoch) → y ∈ p) :
    Paced sh' q m (.reached :: past) := by
  have hzero : backoff 0 ≤ backoff (streak past).length := backoff_mono (Nat.zero_le _)
  refine ⟨h.spaced, fun md k hmd hk => ?_, fun md hmd => ?_, fun y hy epoch hepoch => ?_⟩
  · rw [hmodules] at hmd
    exact h.made md k hmd hk
  · rw [hmodules] at hmd
    exact hzero.trans (h.gap md hmd)
  · obtain ⟨md, hmd, hle, hdue⟩ := h.due y (hjobs y hy epoch hepoch) epoch hepoch
    refine ⟨md, hmodules.trans hmd, hle, fun heq => ?_⟩
    obtain ⟨htime, hgap⟩ := hdue heq
    refine ⟨fun made hmade => ?_, (backoff_mono (by simp [streak])).trans hgap⟩
    have := htime made hmade
    show made + backoff 0 ≤ sh'.now
    omega

/-- **The module answers** through its current client, none of whose replacements is under way. -/
theorem Paced.reset (h : Paced sh p m past) (hmd : sh.modules m = some md)
    (hmodules : sh'.modules m = some { md with policy := md.policy.onReached })
    (hjobs : ∀ y ∈ q, ∀ epoch, y.replaces? = some (m, epoch) → y ∈ p ∧ epoch ≠ md.lastEpoch) :
    Paced sh' q m (.reached :: past) := by
  refine ⟨h.spaced, fun md' k hmd' hk => ?_, fun md' hmd' => ?_, fun y hy epoch hepoch => ?_⟩
  · rw [hmodules, Option.some.injEq] at hmd'
    subst hmd'
    exact h.made md k hmd hk
  · rw [hmodules, Option.some.injEq] at hmd'
    subst hmd'
    exact le_of_eq backoff_zero
  · obtain ⟨hin, hne⟩ := hjobs y hy epoch hepoch
    obtain ⟨md', hmd', hle, -⟩ := h.due y hin epoch hepoch
    obtain rfl : md = md' := Option.some.inj (hmd.symm.trans hmd')
    exact ⟨_, hmodules, hle, fun heq => absurd heq hne⟩
end Step

theorem Waited.of_append {l past : List Happened} (h : Waited (l ++ past)) : Waited past := by
  induction l with
  | nil => exact h
  | cons x l ih =>
      cases x with
      | unavailable policy now => exact ih h.2
      | created | replaced | reached => exact ih h

/-- **Step**, of a section. -/
theorem Paced.exec {x : Pc} {accepted : Bool} {h : List (Bytes × Happened)} (hE : Epochs sh)
    (hpaced : ∀ m, Paced sh (x ::ₘ others) m (past m h))
    (hok : settled.run sh (x ::ₘ others) x accepted)
    (hwaited : ∀ m, Waited (past m (h ++ note sh x accepted)))
    (hexec : exec sh x accepted = some e) (m : Bytes) :
    Paced e.shared (e.made + others) m (past m (h ++ note sh x accepted)) := by
  have hnow := now_exec hexec
  -- a job that was there before the section still is
  have hbefore : ∀ {y : Pc}, y ∈ e.made + others → (y ∈ e.made → y.replaces? = none) →
      ∀ {m epoch}, y.replaces? = some (m, epoch) → y ∈ x ::ₘ others := by
    intro y hy hnone m epoch hepoch
    rcases Multiset.mem_add.mp hy with hmade | hy
    · rw [hnone hmade] at hepoch
      cases hepoch
    · exact Multiset.mem_cons_of_mem hy
  -- what is about another module does not matter
  have hother : ∀ {m'} {new : Module} {n : Happened}, m' ≠ m →
      e.shared.modules = Function.update sh.modules m' (some new) →
      (∀ y ∈ e.made, y.replaces? = none ∨ ∃ epoch, y.replaces? = some (m', epoch)) →
      Paced e.shared (e.made + others) m (past m [(m', n)] ++ past m h) := by
    intro m' new n hm hmodules hjobs
    rw [past_of_ne hm, List.nil_append]
    refine (hpaced m).of_same ?_ (le_of_eq hnow.symm) fun y hy epoch hepoch => ⟨y, ?_, hepoch⟩
    · rw [hmodules, Function.update_of_ne (Ne.symm hm)]
    · refine hbefore hy (fun hmade => ?_) hepoch
      rcases hjobs y hmade with hnone | ⟨epoch', hepoch'⟩
      · exact hnone
      · rw [hepoch] at hepoch'
        exact absurd (Prod.mk.inj (Option.some.inj hepoch')).1.symm hm
  have hwaited' := hwaited m
  have hcase := exec_recycling hexec
  rw [past_append] at hwaited' ⊢
  revert hwaited' hcase
  generalize note sh x accepted = l
  intro hwaited' hcase
  -- one case for each effect; what happens to another module is put aside in each
  cases hcase with
  | idle hmodules hjobs =>
      refine (hpaced m).of_same (congrFun hmodules m) (le_of_eq hnow.symm)
        fun y hy epoch hepoch => ?_
      rcases Multiset.mem_add.mp hy with hmade | hy
      · rcases hjobs y hmade with hnone | hsame
        · rw [hnone] at hepoch
          cases hepoch
        · exact ⟨x, Multiset.mem_cons_self .., hsame.symm.trans hepoch⟩
      · exact ⟨y, Multiset.mem_cons_of_mem hy, hepoch⟩
  | @created m' md hmd hmodules hjobs =>
      by_cases hm : m' = m
      · subst hm
        rw [past_self]
        have hentry := congrFun hmodules m'
        rw [Function.update_self] at hentry
        exact (hpaced m').created hmd hentry fun y hy epoch hepoch => hbefore hy (hjobs y) hepoch
      · exact hother hm hmodules fun y hy => Or.inl (hjobs y hy)
  | @replaced m' md old hx hmd hold hmodules hjobs =>
      by_cases hm : m' = m
      · subst hm
        rw [past_self]
        obtain ⟨-, -, hepoch, -⟩ := hE.current m' md old hmd hold
        have hentry := congrFun hmodules m'
        rw [Function.update_self] at hentry
        refine (hpaced m').replaced hmd hold (Multiset.mem_cons_self ..) ?_ hentry
          fun y hy epoch hepoch => hbefore hy (hjobs y) hepoch
        rw [hx, hepoch]
        rfl
      · exact hother hm hmodules fun y hy => Or.inl (hjobs y hy)
  | @unavailable k md hmd hk hmodules hjobs =>
      by_cases hm : (sh.slots k).module = m
      · subst hm
        rw [past_self] at hwaited' ⊢
        obtain ⟨-, -, hepoch, -⟩ := hE.current _ md k hmd hk
        refine (hpaced _).unavailable hmd hwaited'.1 ?_ hnow fun y hy epoch hy' => ?_
        · rw [hmodules, Function.update_self]
        · rcases Multiset.mem_add.mp hy with hmade | hy
          · rcases hjobs y hmade with hnone | ⟨hgo, hnew⟩
            · rw [hnone] at hy'
              cases hy'
            · rw [hy'] at hnew
              exact Or.inr ⟨hgo, (Prod.mk.inj (Option.some.inj hnew)).2.trans hepoch⟩
          · exact Or.inl (Multiset.mem_cons_of_mem hy)
      · refine hother hm hmodules fun y hy => ?_
        rcases hjobs y hy with hnone | ⟨-, hnew⟩
        · exact Or.inl hnone
        · exact Or.inr ⟨_, hnew⟩
  | @reset k call value err md hx herr huse hmodules hjobs =>
      by_cases hm : (sh.slots k).module = m
      · subst hm
        rw [past_self]
        obtain ⟨-, hmd, hk⟩ := inUse_eq.mp huse
        obtain ⟨-, -, hepoch, -⟩ := hE.current _ md k hmd hk
        refine (hpaced _).reset hmd ?_ fun y hy epoch hy' => ?_
        · rw [hmodules, Function.update_self]
        · have hin := hbefore hy (hjobs y) hy'
          subst hx
          have huse' : (sh.inUse (sh.slots k).module).map Prod.snd = some k := by
            rw [huse]
            rfl
          refine ⟨hin, fun heq => hok herr huse' y hin ?_⟩
          rw [hy', heq, hepoch]
      · exact hother hm hmodules fun y hy => Or.inl (hjobs y hy)
  | @reached m' hmodules hjobs =>
      by_cases hm : m' = m
      · subst hm
        rw [past_self]
        exact (hpaced m').reached (congrFun hmodules m') hnow
          fun y hy epoch hepoch => hbefore hy (hjobs y) hepoch
      · rw [past_of_ne hm, List.nil_append]
        exact (hpaced m).of_same (congrFun hmodules m) (le_of_eq hnow.symm)
          fun y hy epoch hepoch => ⟨y, hbefore hy (hjobs y) hepoch, hepoch⟩

/-- **Step**, of an entry point. -/
theorem Paced.enter {ev : RegistryEntry} {m : Bytes} {past : List Happened}
    (hpaced : Paced sh p m past) (hev : ev.called = true)
    (henter : enter sh ev = some e) : Paced e.shared (e.made + p) m past := by
  have hquiet : ∀ {s : Shared} {l : List Pc}, s.modules = sh.modules → sh.now ≤ s.now →
      (∀ y ∈ l, y.replaces? = none) →
      Paced s (({ shared := s, next := l } : Effect Shared Pc).made + p) m past := by
    intro s l hmodules hnow hl
    refine hpaced.of_same (congrFun hmodules m) hnow fun y hy epoch hepoch => ?_
    rcases Multiset.mem_add.mp hy with hmade | hy
    · rw [Effect.replaces_next hl y hmade] at hepoch
      cases hepoch
    · exact ⟨y, hy, hepoch⟩
  cases ev with
  | tick elapsed =>
      cases henter
      exact hquiet rfl (Nat.le_add_right _ _) (by simp)
  | get m' =>
      cases henter
      exact hquiet rfl (Nat.le_refl _) (by simp [Pc.replaces?])
  | invoke m' =>
      cases henter
      exact hquiet rfl (Nat.le_refl _) (by simp [Pc.replaces?])
  | replace m' epoch => cases hev
  | close =>
      cases henter
      exact hquiet rfl (Nat.le_refl _) (by simp [Pc.replaces?])
  | answer k call value err =>
      simp only [Registry.enter] at henter
      split at henter
      · cases henter
        exact hquiet rfl (Nat.le_refl _) (by simp [Pc.replaces?])
      · cases henter

variable {s : State Shared Pc} {h : List (Bytes × Happened)}

/-! ### Every run -/

theorem paced_of_run (hlog : Logged registry settled note start h s)
    (hwaited : ∀ m, Waited (past m h)) (m : Bytes) :
    Paced s.shared s.pending m (past m h) := by
  have hall : (∀ m, Waited (past m h)) → ∀ m, Paced s.shared s.pending m (past m h) := by
    refine Logged.invariant (J := Inv) (I := fun h sh p => (∀ m, Waited (past m h)) →
      ∀ m, Paced sh p m (past m h)) (fun _ hrun => inv_of_run hrun) ?_ ?_ ?_ hlog
    · intro _ m
      exact ⟨trivial, fun md k hmd => (nomatch hmd), fun md hmd => (nomatch hmd),
        fun y hy => (nomatch hy)⟩
    · intro h sh x c e others hinv ih hok hexec hwaited
      refine Paced.exec hinv.epochs (ih fun m => ?_) hok hwaited hexec
      have hlater := hwaited m
      rw [past_append] at hlater
      exact hlater.of_append
    · intro h sh ev e p _ ih hok henter hwaited m
      exact (ih hwaited m).enter hok henter
  exact hall hwaited m

/-- **Clients are not replaced too soon**, in a run in which no answer resets the gap while a
replacement is under way (`settled`) and none that finds the module unavailable comes between the
end of the gap since the decision and its end since the client was made (`Waited`). -/
theorem replaced_spaced (hlog : Logged registry settled note start h s)
    (hwaited : ∀ m, Waited (past m h)) (m : Bytes) : Spaced (past m h) :=
  (paced_of_run hlog hwaited m).spaced

/-- The call numbered `call`, through client `k`, is started on thread `i`; it finds the module
unavailable `after` ms later, which the policy takes note of and the caller hears. -/
def refusedMoves (i k call after : Nat) : List (Move Bool RegistryEntry) :=
  [.enter (.invoke (str "m")), .run i true, .run i true, .run i true, .enter (.tick (ms after)),
    .enter (.answer k call .null ⟨str "object_unavailable", []⟩),
    .run (i + 2) true, .run (i + 2) true]

/-- The same for an answer that has the client replaced: a job for that is posted. -/
def unavailableMoves (i k call after : Nat) : List (Move Bool RegistryEntry) :=
  refusedMoves i k call after ++ [.run (i + 2) true]

/-- The call finds the module unavailable 1 s after the client was made, and again at 2 s, when a
replacement is decided. It is carried out at 3 s. The next finds it unavailable at 4 s, and another
at 7 s, which is 4 s after the client was made. -/
def waitedMoves : List (Move Bool RegistryEntry) :=
  refusedMoves 0 0 0 1000 ++ unavailableMoves 3 0 1 1000 ++ [.enter (.tick (ms 1000)), .run 6 true] ++
    refusedMoves 8 1 2 1000 ++ unavailableMoves 11 1 3 3000 ++ [.run 14 true]

theorem replaced_spaced_waited :
    past (str "m") (registry.notes note start waitedMoves) =
      [.replaced (ms 7000), .unavailable ⟨ms 2000, ms 4000⟩ (ms 7000),
        .unavailable ⟨ms 2000, ms 4000⟩ (ms 4000), .replaced (ms 3000),
        .unavailable ⟨0, ms 2000⟩ (ms 2000), .unavailable ⟨0, ms 2000⟩ (ms 1000), .created 0] ∧
      Spaced (past (str "m") (registry.notes note start waitedMoves)) := by
  have hnotes : registry.notes note start waitedMoves =
      [(str "m", .created 0), (str "m", .unavailable ⟨0, ms 2000⟩ (ms 1000)),
        (str "m", .unavailable ⟨0, ms 2000⟩ (ms 2000)), (str "m", .replaced (ms 3000)),
        (str "m", .unavailable ⟨ms 2000, ms 4000⟩ (ms 4000)),
        (str "m", .unavailable ⟨ms 2000, ms 4000⟩ (ms 7000)), (str "m", .replaced (ms 7000))] := by
    decide +kernel
  have hsome : (registry.replayUnder settled start waitedMoves).isSome = true := by decide +kernel
  obtain ⟨s, hs⟩ := Option.isSome_iff_exists.mp hsome
  have hstart : Logged registry settled note start [] start := .start
  have hlog := hstart.replayUnder hs
  rw [List.nil_append] at hlog
  rw [hnotes] at hlog ⊢
  refine ⟨by decide +kernel, replaced_spaced hlog (fun m => ?_) (str "m")⟩
  by_cases hm : str "m" = m
  · subst hm
    decide +kernel
  · simp [past, hm, Waited]

/-- The first replacement is carried out 3 s after it was decided, and the client made then is
replaced after 1 s. -/
def lateMoves : List (Move Bool RegistryEntry) :=
  unavailableMoves 0 0 0 2000 ++ [.enter (.tick (ms 3000)), .run 3 true] ++
    unavailableMoves 5 1 1 1000 ++ [.run 8 true]

theorem not_replaced_spaced :
    ¬ ∀ h s, Logged registry decided note start h s → ∀ m, Spaced (past m h) := by
  intro hall
  obtain ⟨s, hs⟩ : ∃ s, registry.replayUnder decided start lateMoves = some s :=
    Option.isSome_iff_exists.mp (by decide +kernel)
  have hstart : Logged registry decided note start [] start := .start
  have hlog := hstart.replayUnder hs
  have hspaced := hall _ _ hlog (str "m")
  revert hspaced
  decide +kernel

end JsonRpcBridge.Upstream.Registry
