import JsonRpcBridge.Interleaving.Basic

/-!
# The call pump

`CallPump` (`upstream.h`): a few threads that take jobs out of one queue, oldest first. A section is
one hold of `m_mu`, one notification, one `join`, or a whole job, which runs with no lock held.

`waiting` is who waits on `m_cv`. A notification takes threads out of it, and so may the system, at
any moment and for no reason: each thread then looks at the queue again.

`start` and `stop` work on `m_threads` without a lock. They are the owner's calls, made one at a
time and not from a job.
-/

namespace JsonRpcBridge.Pump

open Interleaving

variable {Job : Type}

/-! ## State and sections -/

/-- Jobs carry the number of the call that submitted them. The fields below `owned` are history:
how many threads were made, the jobs that were accepted, taken out of the queue, begun and dropped,
and whether the last call of the owner to get as far was a `stop` that returned. -/
structure CallPump (Job : Type) where
  queue : List (Nat × Job) := []
  stop : Bool := true
  /-- `m_threads`. -/
  threads : List Nat := []
  /-- The threads whose `loop` has returned. -/
  ended : List Nat := []
  waiting : List Nat := []
  /-- A call of `start` or `stop` has not returned yet. -/
  owned : Bool := false
  made : Nat := 0
  accepted : List Job := []
  taken : List (Nat × Job) := []
  started : List (Nat × Job) := []
  dropped : List (Nat × Job) := []
  halted : Bool := true

inductive Section (Job : Type) where
  /-- `m_stop.store(false)`. -/
  | start (threads : Nat)
  /-- `m_threads.emplace_back`, so many times more. -/
  | launch (threads : Nat)
  | submit (job : Job)
  | notifyOne
  | stop
  | notifyAll
  /-- `t.join()` for the threads that are left, then `m_threads.clear()`. -/
  | join (threads : List Nat)
  /-- `loop`, with the lock held. -/
  | loop (w : Nat)
  | wait (w : Nat)
  | run (w ticket : Nat) (job : Job)

inductive Entry (Job : Type) where
  | start (threads : Nat)
  | submit (job : Job)
  | stop

namespace CallPump

def submit (s : CallPump Job) (job : Job) : Bool × CallPump Job :=
  if s.stop then (false, s)
  else
    (true, { s with
      queue := s.queue ++ [(s.accepted.length, job)]
      accepted := s.accepted ++ [job] })

/-- `dropped.swap(m_queue)`. -/
def drop (s : CallPump Job) : CallPump Job :=
  { s with stop := true, queue := [], dropped := s.dropped ++ s.queue }

/-- A thread no longer waits. -/
def wake (s : CallPump Job) (w : Nat) : CallPump Job :=
  { s with waiting := s.waiting.filter (· != w) }

end CallPump

/-- One section; the choice is the thread that `notify_one` wakes. -/
def exec (s : CallPump Job) :
    Section Job → Nat → Option (Effect (CallPump Job) (Section Job))
  | .start n, _ => some { shared := { s with stop := false, halted := false }, next := [.launch n] }
  | .launch 0, _ => some { shared := { s with owned := false } }
  | .launch (n + 1), _ =>
    some { shared := { s with threads := s.threads ++ [s.made], made := s.made + 1 }
           next := [.launch n]
           spawn := [[.loop s.made]] }
  | .submit job, _ =>
    some { shared := (s.submit job).2, next := if (s.submit job).1 then [.notifyOne] else [] }
  | .notifyOne, w =>
    if s.waiting = [] then some { shared := s }
    else if w ∈ s.waiting then some { shared := s.wake w }
    else none
  | .stop, _ => some { shared := s.drop, next := [.notifyAll] }
  | .notifyAll, _ => some { shared := { s with waiting := [] }, next := [.join s.threads] }
  | .join (w :: rest), _ => if w ∈ s.ended then some { shared := s, next := [.join rest] } else none
  | .join [], _ => some { shared := { s with threads := [], owned := false, halted := true } }
  | .loop w, _ =>
    if s.stop then some { shared := { s with ended := w :: s.ended } }
    else
      match s.queue with
      | [] => some { shared := { s with waiting := w :: s.waiting }, next := [.wait w] }
      | (ticket, job) :: rest =>
        some { shared := { s with queue := rest, taken := s.taken ++ [(ticket, job)] }
               next := [.run w ticket job] }
  | .wait w, _ => some { shared := s.wake w, next := [.loop w] }
  | .run w ticket job, _ =>
    some { shared := { s with started := s.started ++ [(ticket, job)] }, next := [.loop w] }

def enter (s : CallPump Job) : Entry Job → Option (Effect (CallPump Job) (Section Job))
  | .start n =>
    if s.owned then none else some { shared := { s with owned := true }, next := [.start n] }
  | .submit job => some { shared := s, next := [.submit job] }
  | .stop => if s.owned then none else some { shared := { s with owned := true }, next := [.stop] }

/-- Any number of threads that submit, and an owner. -/
def pump : Program (CallPump Job) (Section Job) Nat (Entry Job) where
  exec := exec
  enter := enter

def initial : State (CallPump Job) (Section Job) where
  shared := {}

/-! ## What a section does

The branches of `exec`, one constructor each, with what the branch has tested. -/

/-- `Does s x s' made`: the section `x` takes the pump from `s` to `s'` and leaves `made` to be
done. -/
inductive Does (s : CallPump Job) :
    Section Job → CallPump Job → Multiset (Section Job) → Prop
  | starts {n : Nat} :
      Does s (.start n) { s with stop := false, halted := false } {.launch n}
  | launched : Does s (.launch 0) { s with owned := false } 0
  | launches {n : Nat} :
      Does s (.launch (n + 1)) { s with threads := s.threads ++ [s.made], made := s.made + 1 }
        (.launch n ::ₘ {.loop s.made})
  | accepts {job : Job} : s.stop = false →
      Does s (.submit job)
        { s with
          queue := s.queue ++ [(s.accepted.length, job)]
          accepted := s.accepted ++ [job] }
        {.notifyOne}
  | refuses {job : Job} : s.stop = true → Does s (.submit job) s 0
  | idle : s.waiting = [] → Does s .notifyOne s 0
  | wakes {w : Nat} : w ∈ s.waiting → Does s .notifyOne (s.wake w) 0
  | drops : Does s .stop s.drop {.notifyAll}
  | wakesAll : Does s .notifyAll { s with waiting := [] } {.join s.threads}
  | joins {w : Nat} {rest : List Nat} : w ∈ s.ended → Does s (.join (w :: rest)) s {.join rest}
  | returns :
      Does s (.join []) { s with threads := [], owned := false, halted := true } 0
  | ends {w : Nat} : s.stop = true → Does s (.loop w) { s with ended := w :: s.ended } 0
  | sleeps {w : Nat} : s.stop = false → s.queue = [] →
      Does s (.loop w) { s with waiting := w :: s.waiting } {.wait w}
  | takes {w ticket : Nat} {job : Job} {rest : List (Nat × Job)} :
      s.stop = false → s.queue = (ticket, job) :: rest →
      Does s (.loop w) { s with queue := rest, taken := s.taken ++ [(ticket, job)] }
        {.run w ticket job}
  | rouses {w : Nat} : Does s (.wait w) (s.wake w) {.loop w}
  | runs {w ticket : Nat} {job : Job} :
      Does s (.run w ticket job) { s with started := s.started ++ [(ticket, job)] } {.loop w}

theorem exec_does {s : CallPump Job} {x : Section Job} {c : Nat}
    {e : Effect (CallPump Job) (Section Job)} (h : exec s x c = some e) :
    Does s x e.shared e.made := by
  cases x with
  | start n =>
      cases h
      exact .starts
  | launch n =>
      cases n with
      | zero =>
          cases h
          exact .launched
      | succ n =>
          cases h
          exact .launches
  | submit job =>
      cases h
      cases hstop : s.stop with
      | true => simpa [CallPump.submit, hstop, Effect.made] using Does.refuses hstop
      | false => simpa [CallPump.submit, hstop, Effect.made] using Does.accepts hstop
  | notifyOne =>
      simp only [exec] at h
      split_ifs at h with hnone hmem
      · cases h
        exact .idle hnone
      · cases h
        exact .wakes hmem
  | stop =>
      cases h
      exact .drops
  | notifyAll =>
      cases h
      exact .wakesAll
  | join threads =>
      cases threads with
      | nil =>
          cases h
          exact .returns
      | cons w rest =>
          simp only [exec] at h
          split_ifs at h with hended
          cases h
          exact .joins hended
  | loop w =>
      simp only [exec] at h
      split_ifs at h with hstop
      · cases h
        exact .ends hstop
      · rw [Bool.not_eq_true] at hstop
        split at h
        · rename_i hqueue
          cases h
          exact .sleeps hstop hqueue
        · rename_i ticket job rest hqueue
          cases h
          exact .takes hstop hqueue
  | wait w =>
      cases h
      exact .rouses
  | run w ticket job =>
      cases h
      exact .runs

/-! ## Whose section it is

A thread of the pump has one section at a time, and so has the owner; the threads that submit are
anybody's. -/

/-- The thread of the pump that a section is the next step of. -/
def Section.worker? : Section Job → Option Nat
  | .loop w | .wait w | .run w _ _ => some w
  | _ => none

/-- The job that a thread of the pump has taken and not begun. -/
def Section.job? : Section Job → Option (Nat × Job)
  | .run _ ticket job => some (ticket, job)
  | _ => none

/-- The owner is inside `stop`, past the point where the queue was dropped. -/
def Section.stops : Section Job → Bool
  | .notifyAll | .join _ => true
  | _ => false

def Section.owners : Section Job → Bool
  | .start _ | .launch _ | .stop | .notifyAll | .join _ => true
  | _ => false

end JsonRpcBridge.Pump
