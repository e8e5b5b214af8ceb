import JsonRpcBridge.Bytes
import JsonRpcBridge.Interleaving.History

/-!
# The retry scheduler

`RetryScheduler` (`retry_scheduler.h`): one thread for keyed, delayed jobs. Threads call `start`,
`stop` and `schedule` at any moment; each of their sections holds `m_mu`. The loop lets go of it
while it waits, which may end at any time, and while it runs a job. Time is the steady clock's, in
nanoseconds; the delays are milliseconds.
-/

namespace JsonRpcBridge.Scheduler

open Interleaving

variable {Callable : Type}

/-! ## State and sections

The timers are a list in the order of their keys, as the map of the source keeps them. Delays are
in milliseconds, the clock and the deadlines in nanoseconds. -/

/-- `Timer`; a job may be an empty `std::function`. `ticket` says which accepted call set it and
is not in the source. -/
structure Timer (Callable : Type) where
  due : Int
  job : Option Callable
  ticket : Nat

/-- `m_thread`: not joinable, in `loop`, or out of it and not joined yet. -/
inductive Thread where
  | none
  | running
  | ended
  deriving DecidableEq

structure RetryScheduler (Callable : Type) where
  /-- Ordered by the keys, as every `std::map`. -/
  timers : List (Bytes × Timer Callable) := []
  thread : Thread := .none
  stop : Bool := true
  /-- `Clock::now()`. -/
  now : Int := 0
  /-- How many calls of `schedule` have been accepted. -/
  tickets : Nat := 0

def earlier (x y : Bytes × Timer Callable) : Bytes × Timer Callable :=
  if y.2.due < x.2.due then y else x

namespace RetryScheduler

def deadline (s : RetryScheduler Callable) (delay : Int) : Int := s.now + delay * 1000000

def schedule (s : RetryScheduler Callable) (key : Bytes) (delay : Int) (job : Option Callable) :
    Bool × RetryScheduler Callable :=
  if s.stop then (false, s)
  else
    (true, { s with
      timers :=
        OrderedMap.assign bytesLt key { due := s.deadline delay, job, ticket := s.tickets } s.timers
      tickets := s.tickets + 1 })

/-- `std::min_element` of the timers: the first that no other is before. -/
def next (s : RetryScheduler Callable) : Option (Bytes × Timer Callable) :=
  match s.timers with
  | [] => none
  | e :: rest => some (rest.foldl earlier e)

/-- The timer that the loop takes when it holds the lock and has not been stopped. -/
def ready (s : RetryScheduler Callable) : Option (Bytes × Timer Callable) :=
  s.next.filter fun e => e.2.due ≤ s.now

end RetryScheduler

/-! ### The program -/

/-- What holds the lock once, and `join` and the start of a job, which do not. -/
inductive Section (Callable : Type) where
  | start
  | schedule (key : Bytes) (delay : Int) (job : Option Callable)
  | stop
  | join
  | loop
  | run (timer : Timer Callable)

inductive Entry (Callable : Type) where
  | start
  | schedule (key : Bytes) (delay : Int) (job : Option Callable)
  | stop
  | tick (d : Nat)

def exec (s : RetryScheduler Callable) :
    Section Callable → Unit → Option (Effect (RetryScheduler Callable) (Section Callable))
  | .start, _ =>
    match s.thread with
    | .none => some { shared := { s with stop := false, thread := .running }, spawn := [[.loop]] }
    | _ => some { shared := s }
  | .schedule key delay job, _ => some { shared := (s.schedule key delay job).2 }
  | .stop, _ => some { shared := { s with stop := true, timers := [] }, next := [.join] }
  | .join, _ =>
    match s.thread with
    | .none => some { shared := s }
    | .running => none
    | .ended => some { shared := { s with thread := .none } }
  | .loop, _ =>
    if s.stop then some { shared := { s with thread := .ended } }
    else
      match s.ready with
      | none => some { shared := s, next := [.loop] }
      | some (key, timer) =>
        some { shared := { s with timers := s.timers.filter fun e => e.1 != key }
               next := [.run timer] }
  | .run _, _ => some { shared := s, next := [.loop] }

def enter (s : RetryScheduler Callable) :
    Entry Callable → Option (Effect (RetryScheduler Callable) (Section Callable))
  | .start => some { shared := s, next := [.start] }
  | .schedule key delay job => some { shared := s, next := [.schedule key delay job] }
  | .stop => some { shared := s, next := [.stop] }
  | .tick d => some { shared := { s with now := s.now + d } }

def scheduler : Program (RetryScheduler Callable) (Section Callable) Unit (Entry Callable) where
  exec := exec
  enter := enter

def initial : State (RetryScheduler Callable) (Section Callable) where
  shared := {}

/-! ## What has happened

The history of a run: what `schedule` answered, which jobs were taken and run, and what `start`
and `stop` have done. -/

inductive Event where
  | begun
  /-- `schedule` has returned true: the ticket of the job, and its deadline. -/
  | accepted (ticket : Nat) (key : Bytes) (due : Int)
  | refused
  /-- `stop` has dropped every timer. -/
  | cleared
  /-- `stop` has returned. -/
  | stopped
  | took (ticket : Nat) (now : Int)
  | started (ticket : Nat) (now : Int)
  deriving DecidableEq

def note (s : RetryScheduler Callable) : Section Callable → Unit → List Event
  | .start, _ => if s.thread = .none then [.begun] else []
  | .schedule key delay job, _ =>
    if (s.schedule key delay job).1 then [.accepted s.tickets key (s.deadline delay)]
    else [.refused]
  | .stop, _ => [.cleared]
  | .join, _ => [.stopped]
  | .loop, _ =>
    if s.stop then [] else s.ready.elim [] fun e => [.took e.2.ticket s.now]
  | .run timer, _ => if timer.job.isSome then [.started timer.ticket s.now] else []

end JsonRpcBridge.Scheduler
