import JsonRpcBridge.Interleaving.Lift
import JsonRpcBridge.Interleaving.Progress
import JsonRpcBridge.Scheduler.Timers
import Mathlib.Algebra.BigOperators.Group.Multiset.Basic
import Mathlib.Algebra.GroupWithZero.Nat

/-!
# No timer is overslept

When the loop of `RetryScheduler` finds nothing to do it waits on `m_cv`: until somebody notifies it,
and until the first deadline that it has seen. `Scheduler.exec` lets it look again at any moment; here
it sleeps, and `schedule` and `stop` notify it only after they have let go of `m_mu`.

* `Inv.sleep`: what happens is still what `Scheduler.exec` does.
* `Vigil`: whoever changes what the loop sleeps for is about to wake it.
* `timers_not_overslept`: so the loop does not sleep past a deadline, only so many sections run, and
  where none can run nothing is due, and `stop` has returned.
-/

namespace JsonRpcBridge.Scheduler

open Interleaving

variable {Callable : Type}

/-! ## The loop asleep

The state of the scheduler, and the deadline the loop sleeps for, if it sleeps. A notification is
a section of its own, after the one that held `m_mu`. -/

structure Sleeper (Callable : Type) where
  base : RetryScheduler Callable := {}
  /-- The loop is in `m_cv.wait`, or in `m_cv.wait_until` with this deadline. -/
  asleep : Option (Option Int) := none

inductive Task (Callable : Type) where
  | base (x : Section Callable)
  | notifyAll
  /-- The loop, in `m_cv`. -/
  | wait

/-- What the task is to the scheduler: a loop that waits is one that has yet to look. -/
def Task.section? : Task Callable → Option (Section Callable)
  | .base x => some x
  | .notifyAll => none
  | .wait => some .loop

/-- The loop finds nothing to do. -/
def RetryScheduler.rests (s : RetryScheduler Callable) : Section Callable → Bool
  | .loop => !s.stop && s.ready.isNone
  | _ => false

/-- What `schedule` and `stop` do once they have let go of the lock. -/
def RetryScheduler.notifies (s : RetryScheduler Callable) : Section Callable → List (Task Callable)
  | .schedule key delay job => if (s.schedule key delay job).1 then [.notifyAll] else []
  | .stop => [.notifyAll]
  | _ => []

namespace Sleeper

/-- Nobody has notified the loop, and its deadline is still to come. -/
def sleepsOn (s : Sleeper Callable) : Bool :=
  match s.asleep with
  | none => false
  | some none => true
  | some (some due) => decide (s.base.now < due)

def exec (s : Sleeper Callable) :
    Task Callable → Unit → Option (Effect (Sleeper Callable) (Task Callable))
  | .base x, c =>
    if s.base.rests x then
      some { shared := { s with asleep := some (s.base.next.map fun e => e.2.due) }, next := [.wait] }
    else
      (Scheduler.exec s.base x c).map fun e =>
        { shared := { s with base := e.shared }
          next := s.base.notifies x ++ e.next.map .base
          spawn := e.spawn.map fun t => t.map .base }
  | .notifyAll, _ => some { shared := { s with asleep := none } }
  -- notified, timed out, or for no reason
  | .wait, _ => some { shared := { s with asleep := none }, next := [.base .loop] }

def enter (s : Sleeper Callable) (ev : Entry Callable) :
    Option (Effect (Sleeper Callable) (Task Callable)) :=
  (Scheduler.enter s.base ev).map fun e => e.lift (fun base => { s with base }) .base

def note (s : Sleeper Callable) : Task Callable → Unit → List Event
  | .base x, c => Scheduler.note s.base x c
  | _, _ => []

end Sleeper

def sleeper : Program (Sleeper Callable) (Task Callable) Unit (Entry Callable) where
  exec := Sleeper.exec
  enter := Sleeper.enter

def unslept : State (Sleeper Callable) (Task Callable) where
  shared := {}

/-! ## What a section of the scheduler does

The branches of `Scheduler.exec`, one constructor each. -/

inductive Does (s : RetryScheduler Callable) :
    Section Callable → Effect (RetryScheduler Callable) (Section Callable) → Prop
  | begins : s.thread = .none →
      Does s .start { shared := { s with stop := false, thread := .running }, spawn := [[.loop]] }
  | begun : s.thread ≠ .none → Does s .start { shared := s }
  | schedules {key : Bytes} {delay : Int} {job : Option Callable} :
      Does s (.schedule key delay job) { shared := (s.schedule key delay job).2 }
  | stops : Does s .stop { shared := { s with stop := true, timers := [] }, next := [.join] }
  | joined : s.thread = .none → Does s .join { shared := s }
  | joins : s.thread = .ended → Does s .join { shared := { s with thread := .none } }
  | ends : s.stop = true → Does s .loop { shared := { s with thread := .ended } }
  | looks : s.stop = false → s.ready = none → Does s .loop { shared := s, next := [.loop] }
  | takes {key : Bytes} {timer : Timer Callable} : s.stop = false → s.ready = some (key, timer) →
      Does s .loop { shared := { s with timers := s.timers.filter fun e => e.1 != key }
                     next := [.run timer] }
  | runs {timer : Timer Callable} : Does s (.run timer) { shared := s, next := [.loop] }

theorem exec_does {s : RetryScheduler Callable} {y : Section Callable} {c : Unit}
    {e : Effect (RetryScheduler Callable) (Section Callable)} (hexec : exec s y c = some e) :
    Does s y e := by
  cases y with
  | start =>
      rw [exec] at hexec
      split at hexec
      · rename_i hnone
        cases hexec
        exact .begins hnone
      · rename_i hsome
        cases hexec
        exact .begun hsome
  | schedule key delay job =>
      cases hexec
      exact .schedules
  | stop =>
      cases hexec
      exact .stops
  | join =>
      rw [exec] at hexec
      split at hexec
      · rename_i hnone
        cases hexec
        exact .joined hnone
      · cases hexec
      · rename_i hended
        cases hexec
        exact .joins hended
  | loop =>
      rw [exec] at hexec
      split at hexec
      · rename_i hstop
        cases hexec
        exact .ends hstop
      · rename_i hgoes
        rw [Bool.not_eq_true] at hgoes
        split at hexec
        · rename_i hnone
          cases hexec
          exact .looks hgoes hnone
        · rename_i key timer hready
          cases hexec
          exact .takes hgoes hready
  | run timer =>
      cases hexec
      exact .runs

/-- A section that cannot run waits for the loop to end. -/
theorem joins_of_blocked {s : RetryScheduler Callable} {y : Section Callable} {c : Unit}
    (hnone : exec s y c = none) : y = .join ∧ s.thread = .running := by
  cases y with
  | join =>
      rw [exec] at hnone
      split at hnone
      · cases hnone
      · rename_i hrunning
        exact ⟨rfl, hrunning⟩
      · cases hnone
  | start =>
      rw [exec] at hnone
      split at hnone
      · cases hnone
      · cases hnone
  | loop =>
      rw [exec] at hnone
      split at hnone
      · cases hnone
      · split at hnone
        · cases hnone
        · cases hnone
  | _ => cases hnone

/-! ## It is the same scheduler

Sleeping only forbids: each section of `sleeper` is one of the scheduler, or moves nothing in it. -/

section

variable {s : Sleeper Callable} {x : Task Callable} {y : Section Callable} {c : Unit}
  {others p : Multiset (Task Callable)} {h : List Event}
  {e : Effect (Sleeper Callable) (Task Callable)}

theorem filterMap_base (m : Multiset (Section Callable)) :
    (m.map Task.base).filterMap Task.section? = m := by
  rw [Multiset.filterMap_map]
  exact Multiset.filterMap_some m

theorem mem_notifies (s : RetryScheduler Callable) (y : Section Callable) :
    s.notifies y = [] ∨ s.notifies y = [.notifyAll] := by
  cases y with
  | schedule key delay job =>
      unfold RetryScheduler.notifies
      dsimp only
      split
      · exact .inr rfl
      · exact .inl rfl
  | stop => exact .inr rfl
  | _ => exact .inl rfl

theorem filterMap_notifies (s : RetryScheduler Callable) (y : Section Callable) :
    (Multiset.ofList (s.notifies y)).filterMap Task.section? = 0 := by
  rcases mem_notifies s y with heq | heq
  · rw [heq]
    rfl
  · rw [heq]
    rfl

/-- The loop that goes to sleep. -/
theorem rests_spec {s : RetryScheduler Callable} (hrests : s.rests y = true) :
    y = .loop ∧ s.stop = false ∧ s.ready = none := by
  cases y with
  | loop =>
      simp only [RetryScheduler.rests, Bool.and_eq_true, Bool.not_eq_true', Option.isNone_iff_eq_none]
        at hrests
      exact ⟨rfl, hrests⟩
  | _ => cases hrests

/-- A section of the scheduler that runs: the loop goes to sleep, or it does what it did. -/
theorem exec_base (hexec : s.exec (.base y) c = some e) :
    (y = .loop ∧ s.base.stop = false ∧ s.base.ready = none ∧
        e = { shared := { s with asleep := some (s.base.next.map fun e => e.2.due) },
              next := [.wait] }) ∨
      s.base.rests y = false ∧ ∃ e₀, Scheduler.exec s.base y c = some e₀ ∧
        e.shared = { s with base := e₀.shared } ∧
        e.made = ↑(s.base.notifies y) + e₀.made.map Task.base := by
  simp only [Sleeper.exec] at hexec
  split at hexec
  · rename_i hrests
    obtain ⟨hloop, hstop, hready⟩ := rests_spec hrests
    exact .inl ⟨hloop, hstop, hready, (Option.some.inj hexec).symm⟩
  · rename_i hrests
    obtain ⟨e₀, h₀, rfl⟩ := Option.map_eq_some_iff.mp hexec
    refine .inr ⟨by simpa using hrests, e₀, h₀, rfl, ?_⟩
    rw [Effect.made, Effect.made, Multiset.map_coe, List.map_append, List.map_flatten,
      List.append_assoc]
    rfl

/-- **Refinement.** -/
theorem Inv.sleep (hi : Inv h s.base ((x ::ₘ others).filterMap Task.section?))
    (hexec : s.exec x c = some e) :
    Inv (h ++ s.note x c) e.shared.base ((e.made + others).filterMap Task.section?) := by
  rw [Multiset.filterMap_add]
  cases x with
  | notifyAll =>
      cases hexec
      rw [Multiset.filterMap_cons_none Task.notifyAll _ rfl] at hi
      show Inv (h ++ []) s.base (0 + others.filterMap Task.section?)
      rw [List.append_nil, zero_add]
      exact hi
  | wait =>
      cases hexec
      rw [Multiset.filterMap_cons_some Task.section? Task.wait _ rfl] at hi
      show Inv (h ++ []) s.base ({.loop} + others.filterMap Task.section?)
      rw [List.append_nil, Multiset.singleton_add]
      exact hi
  | base y =>
      rw [Multiset.filterMap_cons_some Task.section? (Task.base y) _ rfl] at hi
      rcases exec_base hexec with ⟨rfl, hstop, hready, rfl⟩ | ⟨-, e₀, h₀, hshared, hmade⟩
      · -- the scheduler's loop has looked, and looks again
        have hlook : Scheduler.exec s.base .loop c = some { shared := s.base, next := [.loop] } := by
          rw [Scheduler.exec, if_neg (by rw [hstop]; exact Bool.false_ne_true), hready]
        exact hi.exec hlook
      · rw [hshared, hmade, Multiset.filterMap_add, filterMap_notifies, zero_add, filterMap_base]
        exact hi.exec h₀

theorem Inv.call_sleep {ev : Entry Callable} (hi : Inv h s.base (p.filterMap Task.section?))
    (henter : s.enter ev = some e) :
    Inv h e.shared.base ((e.made + p).filterMap Task.section?) := by
  obtain ⟨e₀, h₀, rfl⟩ := Option.map_eq_some_iff.mp henter
  rw [Multiset.filterMap_add, Effect.made_lift, filterMap_base]
  exact hi.enter h₀

theorem inv_of_logged {s : State (Sleeper Callable) (Task Callable)}
    (hlog : Logged sleeper Guard.any Sleeper.note unslept h s) :
    Inv h s.shared.base (s.pending.filterMap Task.section?) := by
  apply Logged.invariant (J := fun _ _ => True)
    (I := fun h sh p => Inv h sh.base (p.filterMap Task.section?)) (fun _ _ => trivial) inv_initial
    _ _ hlog
  · exact fun _ hi _ hexec => hi.sleep hexec
  · exact fun _ hi _ henter => hi.call_sleep henter

/-! ## What the loop sleeps for

The loop sleeps until the first deadline there was. A deadline that is earlier comes with a
notification, which is pending until the loop is awake. -/

/-- While the loop sleeps somebody is about to notify it, or it is not stopped and its deadline is
no later than that of any timer. -/
def Vigil (s : Sleeper Callable) (p : Multiset (Task Callable)) : Prop :=
  ∀ deadline, s.asleep = some deadline → .notifyAll ∈ p ∨
    s.base.stop = false ∧ ∀ e ∈ s.base.timers, ∃ due, deadline = some due ∧ due ≤ e.2.due

theorem next_le {s : RetryScheduler Callable} {t : Bytes × Timer Callable} (ht : t ∈ s.timers) :
    ∃ due, (s.next.map fun e => e.2.due) = some due ∧ due ≤ t.2.due := by
  unfold RetryScheduler.next
  split
  · rename_i hnone
    rw [hnone] at ht
    cases ht
  · rename_i e rest htimers
    rw [htimers] at ht
    exact ⟨_, rfl, (foldl_earlier e rest).2 t ht⟩

/-- A section that notifies nobody sets no timer and stops nothing. -/
theorem Does.quiet {s : RetryScheduler Callable}
    {e : Effect (RetryScheduler Callable) (Section Callable)} (hdoes : Does s y e)
    (hquiet : s.notifies y = []) :
    (s.stop = false → e.shared.stop = false) ∧ ∀ t ∈ e.shared.timers, t ∈ s.timers := by
  cases hdoes with
  | begins _ => exact ⟨fun _ => rfl, fun t ht => ht⟩
  | @schedules key delay job =>
      have hrefused : (s.schedule key delay job).1 = false := by
        by_contra haccepted
        rw [RetryScheduler.notifies, if_pos (by simpa using haccepted)] at hquiet
        cases hquiet
      unfold RetryScheduler.schedule at hrefused ⊢
      split at hrefused
      · rename_i hstop
        rw [if_pos hstop]
        exact ⟨id, fun t ht => ht⟩
      · cases hrefused
  | stops => cases hquiet
  | takes _ _ => exact ⟨id, fun t ht => List.mem_of_mem_filter ht⟩
  | _ => exact ⟨id, fun t ht => ht⟩

/-- **Step.** -/
theorem Vigil.exec (hv : Vigil s (x ::ₘ others)) (hexec : s.exec x c = some e) :
    Vigil e.shared (e.made + others) := by
  intro deadline hdeadline
  cases x with
  | notifyAll =>
      cases hexec
      cases hdeadline
  | wait =>
      cases hexec
      cases hdeadline
  | base y =>
      rcases exec_base hexec with ⟨rfl, hstop, -, rfl⟩ | ⟨-, e₀, h₀, hshared, hmade⟩
      · obtain rfl := Option.some.inj hdeadline
        exact .inr ⟨hstop, fun t ht => next_le ht⟩
      · rw [hmade]
        rw [hshared] at hdeadline ⊢
        rcases mem_notifies s.base y with hquiet | hnotifies
        · obtain ⟨hgoes, htimers⟩ := (exec_does h₀).quiet hquiet
          rcases hv deadline hdeadline with hmem | ⟨hstop, hdue⟩
          · rcases Multiset.mem_cons.mp hmem with heq | hmem
            · cases heq
            · exact .inl (Multiset.mem_add.mpr (.inr hmem))
          · exact .inr ⟨hgoes hstop, fun t ht => hdue t (htimers t ht)⟩
        · left
          rw [hnotifies]
          exact Multiset.mem_add.mpr (.inl (Multiset.mem_add.mpr (.inl (Multiset.mem_singleton_self _))))

theorem Vigil.enter {ev : Entry Callable} (hv : Vigil s p) (henter : s.enter ev = some e) :
    Vigil e.shared (e.made + p) := by
  intro deadline hdeadline
  have hsame : e.shared.asleep = s.asleep ∧ e.shared.base.stop = s.base.stop ∧
      e.shared.base.timers = s.base.timers := by
    cases ev with
    | _ =>
        cases henter
        exact ⟨rfl, rfl, rfl⟩
  rw [hsame.1] at hdeadline
  rw [hsame.2.1, hsame.2.2]
  exact (hv deadline hdeadline).imp_left fun hmem => Multiset.mem_add.mpr (.inr hmem)

theorem vigil_of_logged {s : State (Sleeper Callable) (Task Callable)}
    (hlog : Logged sleeper Guard.any Sleeper.note unslept h s) : Vigil s.shared s.pending := by
  apply Run.invariant (I := Vigil) _ _ _ hlog.toRun
  · intro deadline hdeadline
    cases hdeadline
  · exact fun hv _ hexec => hv.exec hexec
  · exact fun hv _ henter => hv.enter henter

end

/-! ## What is left to be done

Each section costs more than those it makes. `schedule` pays for its notification and for the run
of its job. -/

/-- How many sections may come of a task, with the loop asleep or not. -/
def Task.cost (asleep : Bool) : Task Callable → Nat
  | .base .start => 2
  | .base (.schedule _ _ _) => 6
  | .base .stop => 5
  | .base .join => 1
  | .base .loop => 1
  | .base (.run _) => 2
  | .notifyAll => 3
  | .wait => if asleep then 0 else 2

/-- A timer is good for two sections: it is run, and the loop looks again. -/
def left (s : Sleeper Callable) (p : Multiset (Task Callable)) : Nat :=
  (p.map (Task.cost s.sleepsOn)).sum + 2 * s.base.timers.length

def Task.waits : Task Callable → Bool
  | .wait => true
  | _ => false

section

variable {s : Sleeper Callable} {x : Task Callable} {y : Section Callable} {c : Unit}
  {others p q : Multiset (Task Callable)} {h : List Event}
  {e : Effect (Sleeper Callable) (Task Callable)}

theorem left_cons : left s (x ::ₘ p) = x.cost s.sleepsOn + left s p := by
  rw [left, Multiset.map_cons, Multiset.sum_cons, Nat.add_assoc, left]

theorem left_add : left s (q + p) = (q.map (Task.cost s.sleepsOn)).sum + left s p := by
  rw [left, Multiset.map_add, Multiset.sum_add, Nat.add_assoc, left]

theorem cost_awake (p : Multiset (Task Callable)) : (p.map (Task.cost false)).sum =
    (p.map (Task.cost true)).sum + 2 * p.countP fun x => x.waits = true := by
  induction p using Multiset.induction with
  | empty => rfl
  | cons x p ih =>
      rw [Multiset.map_cons, Multiset.sum_cons, Multiset.map_cons, Multiset.sum_cons,
        Multiset.countP_cons, ih]
      have hx : x.cost false = x.cost true + 2 * if x.waits = true then 1 else 0 := by
        cases x with
        | base y => cases y with
          | _ => rfl
        | _ => rfl
      omega

/-! ### One loop

A notification turns a loop that waits into one that looks, which costs two sections more. There
is one loop, so it is paid for once. -/

/-- The loop is one thread. -/
theorem waits_le (hi : Inv h s.base (p.filterMap Task.section?)) :
    (p.countP fun x => x.waits = true) ≤ 1 := by
  have hle : ∀ p : Multiset (Task Callable), (p.countP fun x => x.waits = true) ≤
      (p.filterMap Task.section?).countP fun y => y.ofLoop := by
    intro p
    induction p using Multiset.induction with
    | empty => exact Nat.le_refl _
    | cons x p ih =>
        rw [Multiset.countP_cons, filterMap_cons_toList, Multiset.countP_add, Nat.add_comm]
        apply Nat.add_le_add _ ih
        cases x with
        | wait => exact Nat.le_refl _
        | _ => exact Nat.zero_le _
  have hloops := hi.loops
  have hp := hle p
  split at hloops
  · omega
  · omega

theorem cost_le (asleep asleep' : Bool) (hone : (p.countP fun x => x.waits = true) ≤ 1) :
    (p.map (Task.cost asleep')).sum ≤ (p.map (Task.cost asleep)).sum + 2 := by
  have hp := cost_awake p
  cases asleep with
  | true => cases asleep' with
    | _ => omega
  | false => cases asleep' with
    | _ => omega

theorem cost_asleep_le (asleep : Bool) (p : Multiset (Task Callable)) :
    (p.map (Task.cost true)).sum ≤ (p.map (Task.cost asleep)).sum := by
  have hp := cost_awake p
  cases asleep with
  | _ => omega

/-! ### Step by step -/

theorem length_take {s : RetryScheduler Callable} {key : Bytes} {timer : Timer Callable}
    (hready : s.ready = some (key, timer)) :
    (s.timers.filter fun e => e.1 != key).length < s.timers.length := by
  obtain ⟨hmem, -, -⟩ := ready_spec hready
  apply List.length_filter_lt_length_iff_exists.mpr
  exact ⟨_, hmem, by simp⟩

/-- A section of the scheduler, its notification included, leaves less to do, unless the loop goes
to sleep. -/
theorem Does.cost {s : RetryScheduler Callable}
    {e : Effect (RetryScheduler Callable) (Section Callable)} (asleep : Bool) (hdoes : Does s y e)
    (hrests : s.rests y = false) :
    e.shared.now = s.now ∧
      ((↑(s.notifies y) + e.made.map Task.base).map (Task.cost asleep)).sum +
        2 * e.shared.timers.length < (Task.base y).cost asleep + 2 * s.timers.length := by
  cases hdoes with
  | @schedules key delay job =>
      unfold RetryScheduler.notifies RetryScheduler.schedule
      dsimp only
      split
      · simp [Effect.made, Task.cost]
      · have hlength := OrderedMap.length_assign_le bytesLt key
          { due := s.deadline delay, job, ticket := s.tickets } s.timers
        simp only [if_true, Effect.made, Task.cost]
        refine ⟨trivial, ?_⟩
        show 3 + 2 * _ < _
        omega
  | stops =>
      refine ⟨rfl, ?_⟩
      show 3 + 1 + 2 * 0 < 5 + _
      omega
  | looks hgoes hnone =>
      -- it would have gone to sleep
      simp [RetryScheduler.rests, hgoes, hnone] at hrests
  | @takes key timer hgoes hready =>
      have hlength := length_take hready
      refine ⟨rfl, ?_⟩
      show 2 + 2 * (s.timers.filter fun e => e.1 != key).length < 1 + 2 * s.timers.length
      omega
  | _ => simp [RetryScheduler.notifies, Effect.made, Task.cost]

/-- A loop that goes to sleep sleeps on. -/
theorem sleepsOn_rests (hready : s.base.ready = none) :
    ({ s with asleep := some (s.base.next.map fun e => e.2.due) } : Sleeper Callable).sleepsOn =
      true := by
  unfold RetryScheduler.ready at hready
  unfold Sleeper.sleepsOn
  dsimp only
  cases hnext : s.base.next with
  | none => rfl
  | some e =>
      rw [hnext] at hready
      simpa using hready

/-- **Step.** -/
theorem left_exec (hi : Inv h s.base ((x ::ₘ others).filterMap Task.section?))
    (hgenuine : x = .wait → s.sleepsOn = false) (hexec : s.exec x c = some e) :
    left e.shared (e.made + others) < left s (x ::ₘ others) := by
  -- the loop is one thread, so at most one section waits and can be roused
  have hone : (others.countP fun x => x.waits = true) ≤ 1 := by
    have hle := waits_le hi
    rw [Multiset.countP_cons] at hle
    omega
  rw [left_cons]
  cases x with
  | notifyAll =>
      cases hexec
      -- the notification costs three: one for itself, and two for the loop it may wake
      have hcost := cost_le s.sleepsOn false hone
      show left { s with asleep := none } (0 + others) < _
      rw [zero_add]
      show (others.map (Task.cost false)).sum + 2 * s.base.timers.length <
        3 + ((others.map (Task.cost s.sleepsOn)).sum + 2 * s.base.timers.length)
      omega
  | wait =>
      cases hexec
      show left { s with asleep := none } ({.base .loop} + others) < _
      rw [Multiset.singleton_add, left_cons, left, left, hgenuine rfl]
      show 1 + ((others.map (Task.cost false)).sum + 2 * s.base.timers.length) <
        2 + ((others.map (Task.cost false)).sum + 2 * s.base.timers.length)
      omega
  | base y =>
      rcases exec_base hexec with ⟨rfl, -, hready, rfl⟩ | ⟨hrests, e₀, h₀, hshared, hmade⟩
      · have hcost := cost_asleep_le s.sleepsOn others
        show left { s with asleep := some _ } ({.wait} + others) < _
        rw [Multiset.singleton_add, left_cons, left, left, sleepsOn_rests hready]
        show 0 + ((others.map (Task.cost true)).sum + 2 * s.base.timers.length) <
          1 + ((others.map (Task.cost s.sleepsOn)).sum + 2 * s.base.timers.length)
        omega
      · obtain ⟨hnow, hcost⟩ := (exec_does h₀).cost s.sleepsOn hrests
        have hsleeps : ({ s with base := e₀.shared } : Sleeper Callable).sleepsOn = s.sleepsOn := by
          unfold Sleeper.sleepsOn
          dsimp only
          rw [hnow]
        rw [hmade, hshared, left_add, left, left, hsleeps]
        dsimp only
        omega

theorem left_enter {ev : Entry Callable} (hi : Inv h s.base (p.filterMap Task.section?))
    (henter : s.enter ev = some e) : left e.shared (e.made + p) ≤ left s p + 6 := by
  cases ev with
  | tick d =>
      cases henter
      have hcost := cost_le s.sleepsOn
        ({ s with base := { s.base with now := s.base.now + d } } : Sleeper Callable).sleepsOn
        (waits_le hi)
      show left { s with base := { s.base with now := s.base.now + d } } (0 + p) ≤ _
      rw [zero_add]
      apply Nat.le_trans (Nat.add_le_add_right hcost (2 * s.base.timers.length))
      rw [left]
      omega
  | start =>
      cases henter
      show left s ({.base .start} + p) ≤ _
      rw [Multiset.singleton_add, left_cons]
      show 2 + _ ≤ _
      omega
  | schedule key delay job =>
      cases henter
      show left s ({.base (.schedule key delay job)} + p) ≤ _
      rw [Multiset.singleton_add, left_cons]
      show 6 + _ ≤ _
      omega
  | stop =>
      cases henter
      show left s ({.base .stop} + p) ≤ _
      rw [Multiset.singleton_add, left_cons]
      show 5 + _ ≤ _
      omega

end

/-! ## Where nothing can run

Then the loop sleeps, and rightly so, or it has ended. -/

/-- The loop does not wake for no reason. -/
def genuine (s : State (Sleeper Callable) (Task Callable)) : Move Unit (Entry Callable) → Bool
  | .run i _ =>
    match s.head i with
    | some .wait => !s.shared.sleepsOn
    | _ => true
  | .enter _ => true

/-- A task that runs at once, and leaves only such tasks to its thread. -/
def Task.brief : Task Callable → Prop
  | .notifyAll | .base .start | .base (.schedule _ _ _) => True
  | _ => False

theorem brief_notifies {s : RetryScheduler Callable} {y : Section Callable} :
    ∀ x ∈ s.notifies y, x.brief := by
  rcases mem_notifies s y with heq | heq
  · rw [heq]
    exact fun x hx => absurd hx List.not_mem_nil
  · rw [heq]
    intro x hx
    rw [List.mem_singleton.mp hx]
    exact trivial

/-- What a section of the scheduler leaves to its thread and to others is one section at most. -/
theorem Does.single {s : RetryScheduler Callable} {y : Section Callable}
    {e : Effect (RetryScheduler Callable) (Section Callable)} (hdoes : Does s y e) :
    (e.next = [] ∨ ¬(Task.base y).brief ∧ ∃ z, e.next = [z]) ∧ ∀ t ∈ e.spawn, t = [.loop] := by
  cases hdoes with
  | begins _ => exact ⟨.inl rfl, fun t ht => List.mem_singleton.mp ht⟩
  | stops | looks _ _ | takes _ _ | runs =>
      exact ⟨.inr ⟨id, _, rfl⟩, fun t ht => absurd ht List.not_mem_nil⟩
  | _ => exact ⟨.inl rfl, fun t ht => absurd ht List.not_mem_nil⟩

theorem trailing :
    (sleeper : Program (Sleeper Callable) (Task Callable) Unit (Entry Callable)).Trailing
      Task.brief := by
  constructor
  · intro sh x c e hexec
    cases x with
    | notifyAll =>
        cases hexec
        exact ⟨fun _ x hx => absurd hx List.not_mem_nil, trails_nil,
          fun t ht => absurd ht List.not_mem_nil⟩
    | wait =>
        cases hexec
        exact ⟨fun h => absurd h id, trails_singleton _, fun t ht => absurd ht List.not_mem_nil⟩
    | base y =>
        change sh.exec (.base y) c = some e at hexec
        simp only [Sleeper.exec] at hexec
        split at hexec
        · rename_i hrests
          obtain ⟨rfl, -, -⟩ := rests_spec hrests
          cases hexec
          exact ⟨fun h => absurd h id, trails_singleton _, fun t ht => absurd ht List.not_mem_nil⟩
        · obtain ⟨e₀, h₀, rfl⟩ := Option.map_eq_some_iff.mp hexec
          obtain ⟨hnext, hspawn⟩ := (exec_does h₀).single
          refine ⟨fun hbrief => ?_, ?_, ?_⟩
          · rcases hnext with hnone | ⟨hlong, -⟩
            · dsimp only
              rw [hnone, List.map_nil, List.append_nil]
              exact brief_notifies
            · exact absurd hbrief hlong
          -- the notification comes before whatever the section goes on with
          · apply trails_append brief_notifies
            rcases hnext with hnone | ⟨-, z, hone⟩
            · rw [hnone]
              exact trails_nil
            · rw [hone]
              exact trails_singleton _
          · intro t ht
            obtain ⟨t₀, ht₀, rfl⟩ := List.mem_map.mp ht
            rw [hspawn t₀ ht₀]
            exact trails_singleton _
  · intro sh ev e henter
    cases ev with
    | tick d =>
        cases henter
        exact ⟨trails_nil, fun t ht => absurd ht List.not_mem_nil⟩
    | _ =>
        cases henter
        exact ⟨trails_singleton _, fun t ht => absurd ht List.not_mem_nil⟩

section

variable {s : State (Sleeper Callable) (Task Callable)} {h : List Event}

/-! ### Who is left -/

/-- Whoever cannot run is asleep, or waits for the loop to end. -/
theorem blocked_of_rest (hlog : Logged sleeper Guard.any Sleeper.note unslept h s)
    (hrest : ∀ i c, genuine s (.run i c) = true → sleeper.step s (.run i c) = none) :
    ∀ x ∈ s.pending, x = .wait ∧ s.shared.sleepsOn = true ∨
      x = .base .join ∧ s.shared.base.thread = .running := by
  have htrails : ∀ t ∈ s.threads, Trails Task.brief t :=
    trailing.run (fun t ht => absurd ht List.not_mem_nil) hlog.toRun
  apply forall_pending_of_heads (R := fun x => x = .wait ∧ s.shared.sleepsOn = true ∨
    x = .base .join ∧ s.shared.base.thread = .running) htrails
  · intro i x hhead
    by_cases hgenuine : genuine s (.run i ()) = true
    · have hnone : s.shared.exec x () = none := blocked_of_stuck (hrest i () hgenuine) hhead
      cases x with
      | notifyAll => cases hnone
      | wait => cases hnone
      | base y =>
          simp only [Sleeper.exec] at hnone
          split at hnone
          · cases hnone
          · obtain ⟨rfl, hrunning⟩ := joins_of_blocked (Option.map_eq_none_iff.mp hnone)
            exact .inr ⟨rfl, hrunning⟩
    · simp only [genuine, hhead] at hgenuine
      cases x with
      | wait => exact .inl ⟨rfl, by simpa using hgenuine⟩
      | _ => exact absurd rfl hgenuine
  · rintro x - hbrief (⟨rfl, -⟩ | ⟨rfl, -⟩)
    · exact hbrief
    · exact hbrief

/-- The thread of the loop, where nothing can run: it sleeps. -/
theorem asleep_of_rest (hlog : Logged sleeper Guard.any Sleeper.note unslept h s)
    (hrest : ∀ i c, genuine s (.run i c) = true → sleeper.step s (.run i c) = none)
    (hrunning : s.shared.base.thread = .running) :
    ∃ deadline, s.shared.asleep = some deadline ∧ s.shared.base.stop = false ∧
      ∀ e ∈ s.shared.base.timers, ∃ due, deadline = some due ∧ s.shared.base.now < due ∧
        due ≤ e.2.due := by
  have hblocked := blocked_of_rest hlog hrest
  have hloops := (inv_of_logged hlog).loops
  rw [if_pos hrunning] at hloops
  obtain ⟨y, hy, hloop⟩ := Multiset.countP_pos.mp (by rw [hloops]; exact Nat.one_pos)
  obtain ⟨x, hx, hsection⟩ := (Multiset.mem_filterMap _ _).mp hy
  have hsleeps : s.shared.sleepsOn = true := by
    rcases hblocked x hx with ⟨-, hsleeps⟩ | ⟨rfl, -⟩
    · exact hsleeps
    · cases hsection
      cases hloop
  cases hasleep : s.shared.asleep with
  | none =>
      rw [Sleeper.sleepsOn, hasleep] at hsleeps
      cases hsleeps
  | some deadline =>
      rcases vigil_of_logged hlog deadline hasleep with hnotify | ⟨hstop, hdue⟩
      · rcases hblocked _ hnotify with ⟨heq, -⟩ | ⟨heq, -⟩
        · cases heq
        · cases heq
      · refine ⟨deadline, rfl, hstop, fun e he => ?_⟩
        obtain ⟨due, rfl, hle⟩ := hdue e he
        rw [Sleeper.sleepsOn, hasleep] at hsleeps
        exact ⟨due, rfl, of_decide_eq_true hsleeps, hle⟩

/-- **No timer is overslept.** In every state of every run, a loop that sleeps while nobody is about
to notify it is not stopped, and its deadline is no later than that of any job that waits. Each
section that runs leaves less to do, unless the loop wakes for no reason. Where none can run, no job
that waits is due, and after a `stop` nothing is left. -/
theorem timers_not_overslept (hlog : Logged sleeper Guard.any Sleeper.note unslept h s) :
    (∀ deadline, s.shared.asleep = some deadline → .notifyAll ∉ s.pending →
      s.shared.base.stop = false ∧
        ∀ t key due, Waiting h t key due → ∃ d, deadline = some d ∧ d ≤ due) ∧
    (∀ ms s', sleeper.replayIf genuine s ms = some s' →
      ms.countP Move.isRun + left s'.shared s'.pending ≤
        left s.shared s.pending + 6 * ms.countP fun m => !m.isRun) ∧
    ((∀ i c, genuine s (.run i c) = true → sleeper.step s (.run i c) = none) →
      (s.shared.base.stop = true → s.pending = 0) ∧
        ∀ t key due, Waiting h t key due → s.shared.base.now < due) := by
  have hi := inv_of_logged hlog
  refine ⟨?_, ?_, ?_⟩
  · intro deadline hasleep hquiet
    obtain ⟨hstop, hdue⟩ := (vigil_of_logged hlog deadline hasleep).resolve_left hquiet
    refine ⟨hstop, fun t key due hwaiting => ?_⟩
    obtain ⟨timer, hmem, -, rfl⟩ := (hi.books.waiting t key due).mp hwaiting
    exact hdue _ hmem
  · intro ms s' hs'
    apply (Program.replayIf_bound
      (I := fun t => ∃ h, Logged sleeper Guard.any Sleeper.note unslept h t)
      (f := fun t => left t.shared t.pending) (K := 6) _ _ ⟨h, hlog⟩ hs').2
    · rintro t t' i c ⟨g, hg⟩ hok hstep
      obtain ⟨x, e, others, hhead, hexec, hp, hs, hp'⟩ := Program.step_run hstep
      refine ⟨⟨_, hg.run hhead (Guard.admits_any _ _) hstep⟩, ?_⟩
      have hinv := inv_of_logged hg
      rw [hp] at hinv
      rw [hs, hp', hp]
      apply left_exec hinv _ hexec
      rintro rfl
      simpa only [genuine, hhead, Bool.not_eq_true'] using hok
    · rintro t t' ev ⟨g, hg⟩ - hstep
      obtain ⟨e, henter, hs, hp'⟩ := Program.step_enter hstep
      refine ⟨⟨_, hg.enter (Guard.admits_any _ _) hstep⟩, ?_⟩
      rw [hs, hp']
      exact left_enter (inv_of_logged hg) henter
  · intro hrest
    have hblocked := blocked_of_rest hlog hrest
    constructor
    · intro hstop
      apply Multiset.eq_zero_of_forall_notMem
      intro x hx
      -- whoever is left waits for the loop, which would be asleep and not stopped
      have hrunning : s.shared.base.thread = .running := by
        rcases hblocked x hx with ⟨rfl, -⟩ | ⟨-, hrunning⟩
        · by_contra hnot
          have hloops := hi.loops
          rw [if_neg hnot] at hloops
          have hloop : Section.loop ∈ s.pending.filterMap Task.section? :=
            (Multiset.mem_filterMap _ _).mpr ⟨_, hx, rfl⟩
          exact Multiset.countP_eq_zero.mp hloops _ hloop rfl
        · exact hrunning
      obtain ⟨-, -, hgoes, -⟩ := asleep_of_rest hlog hrest hrunning
      cases hstop.symm.trans hgoes
    · intro t key due hwaiting
      obtain ⟨timer, hmem, -, rfl⟩ := (hi.books.waiting t key due).mp hwaiting
      have hgoes : s.shared.base.stop = false := by
        by_contra hstop
        rw [hi.dropped (by simpa using hstop)] at hmem
        cases hmem
      have hrunning : s.shared.base.thread = .running := by
        by_contra hnot
        cases hgoes.symm.trans (hi.joined hnot)
      obtain ⟨deadline, -, -, hdue⟩ := asleep_of_rest hlog hrest hrunning
      obtain ⟨d, -, hnow, hle⟩ := hdue _ hmem
      exact Int.lt_of_lt_of_le hnow hle

end

/-- The loop sleeps with nothing to do, is notified of a job, and sleeps until that is due. -/
def asleepMoves : List (Move Unit (Entry Unit)) :=
  [.enter .start, .run 0 (), .run 1 (), .enter (.schedule (str "m1") 5 (some ())), .run 2 (),
   .run 2 (), .run 1 (), .run 1 ()]

def asleepState : State (Sleeper Unit) (Task Unit) where
  shared := {
    base := {
      timers := [(str "m1", { due := 5000000, job := some (), ticket := 0 })]
      thread := .running
      stop := false
      tickets := 1 }
    asleep := some (some 5000000) }
  threads := [[], [.wait], []]

theorem timers_not_overslept_asleep :
    Logged sleeper Guard.any Sleeper.note unslept [.begun, .accepted 0 (str "m1") 5000000]
      asleepState ∧
    ∀ t key due, Waiting [.begun, .accepted 0 (str "m1") 5000000] t key due → 0 < due := by
  have hreplay : sleeper.replay unslept asleepMoves = some asleepState := by rfl
  have hnotes : sleeper.notes Sleeper.note unslept asleepMoves =
      [.begun, .accepted 0 (str "m1") 5000000] := by decide +kernel
  have hlog : Logged sleeper Guard.any Sleeper.note unslept _ asleepState :=
    Logged.start.replay hreplay
  rw [hnotes] at hlog
  refine ⟨hlog, ((timers_not_overslept hlog).2.2 ?_).2⟩
  intro i c hgenuine
  rcases i with _ | _ | _ | i
  · rfl
  · cases hgenuine
  · rfl
  · rfl

end JsonRpcBridge.Scheduler
