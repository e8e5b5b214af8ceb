import JsonRpcBridge.Discovery.Model
import JsonRpcBridge.Interleaving.Basic
import Mathlib.Logic.Function.Basic

/-!
# Discovery's calls, locks and timers

`discovery.h` as a program of atomic sections: each `Section` is one critical section of `m_mu`, or
one call of an injected hook made without it. An asynchronous chain is a section waiting for its
answer (`await`, `awaitRead`), which the environment may give once or never; a job handed to the
pump is a new thread; the scheduler's map is `timers`, where `schedule` replaces the job of a key.
`post` and `schedule` accept every job.

A `Call` records, besides what identifies it, two things the code does not keep: how many provider
losses, restarts and client replacements of its module had taken effect when it was issued
(`resets`), and how many client replacements among them (`client`). `published` records what each
`publish` installed and the answers it was built from.
-/

namespace JsonRpcBridge.Discovery

open Interleaving

/-! ## Calls and attempts

What the bridge asks of a module, and what is carried from one answer to the next. -/

/-- `CallOutcome`; the error is empty on success. -/
structure CallOutcome where
  value : Json := .null
  error : Bytes := []

def CallOutcome.ok (r : CallOutcome) : Bool := r.error.isEmpty

/-- One upstream call: a step of attempt `attempt`, or a revalidation read made while `attempt` was
the current one. -/
structure Call where
  module : Bytes
  method : Bytes
  attempt : Nat
  revalidation : Bool
  resets : Nat
  client : Nat

structure Answer where
  call : Call
  outcome : CallOutcome

/-- The answers a view was built from, as far as its attempt got. -/
structure Sources where
  report : Answer
  text : Option Answer := none
  version : Option Answer := none

def Sources.answers (src : Sources) : List Answer :=
  src.report :: (src.text.toList ++ src.version.toList)

/-- What a call's continuation does with the answer: `onInterface`, `onContract`, or the lambda
that checks the contract. Each holds what the earlier answers gave. -/
inductive Stage where
  | interface
  | contract (live : LiveReport) (report : Answer)
  | version (live : LiveReport) (typed : TypedContract) (contractSha256 : Bytes)
      (report text : Answer)

/-- The method called to reach a stage. -/
def Stage.method : Stage → Bytes
  | .interface => str "getPluginInterface"
  | .contract .. => str "lidl"
  | .version .. => str "version"

/-- The answers a stage already holds. -/
def Stage.answers : Stage → List Answer
  | .interface => []
  | .contract _ report => [report]
  | .version _ _ _ report text => [report, text]

/-! ### The state

A slot for each module of the configuration, the timers of the scheduler, and a record of what
has happened, which no section reads. -/

structure Slot where
  view : ModuleView
  attempt : Nat := 0
  inFlight : Bool := false
  retryArmed : Bool := false
  checking : Bool := false
  failures : Nat := 0
  armedGeneration : Nat := 0

inductive TimerJob where
  | refresh (module : Bytes)
  | revalidate

/-- What one `publish` installed. `current` and `resets` are the slot's attempt and the module's
resets at that moment. -/
structure Publication where
  module : Bytes
  attempt : Nat
  current : Nat
  resets : Nat
  view : ModuleView
  sources : Sources

structure Shared where
  slots : Bytes → Option Slot
  timers : Bytes → Option (Nat × TimerJob) := fun _ => none
  resets : Bytes → Nat := fun _ => 0
  client : Bytes → Nat := fun _ => 0
  published : List Publication := []

/-! ### Sections and entry points -/

inductive Section where
  | refresh (module : Bytes)
  | providerLost (module : Bytes)
  | providerArmed (module : Bytes) (generation : Nat)
  | clientReplaced (module : Bytes)
  | callUnavailable (module : Bytes)
  /-- `m_io.viewChanged`. -/
  | changed (module : Bytes)
  /-- `m_io.providerChanged`. -/
  | providerChanged (module : Bytes)
  /-- `scheduleRefresh`, after the lock is released. -/
  | schedule (module : Bytes) (delay : Nat)
  /-- The job of a timer that has fired. -/
  | fired (job : TimerJob)
  /-- `call`, before `m_io.invoke`. -/
  | invoke (module : Bytes) (attempt : Nat) (stage : Stage)
  /-- An outstanding call of an attempt. -/
  | await (call : Call) (stage : Stage)
  /-- The posted continuation of a call, before `current`. -/
  | resume (answer : Answer) (stage : Stage)
  /-- The continuation of a call whose attempt was current. -/
  | proceed (module : Bytes) (attempt : Nat) (stage : Stage) (answer : Answer)
  | missed (module : Bytes) (attempt : Nat)
  | publish (module : Bytes) (attempt : Nat) (next : ModuleView) (retry : Bool) (src : Sources)
  /-- The rest of a revalidation round. -/
  | revalidate (modules : List Bytes)
  /-- A revalidation read, before `m_io.invoke`. -/
  | read (module : Bytes) (attempt : Nat)
  /-- An outstanding revalidation read. -/
  | awaitRead (call : Call)
  /-- `onRevalidated`. -/
  | revalidated (answer : Answer)
  /-- `onRevalidated`, from its second critical section on. -/
  | restart (answer : Answer)

/-- The entry points the rest of the bridge calls, and the scheduler taking a timer. -/
inductive Entry where
  | refresh (module : Bytes)
  | providerLost (module : Bytes)
  | providerArmed (module : Bytes) (generation : Nat)
  | clientReplaced (module : Bytes)
  | callUnavailable (module : Bytes)
  | revalidate
  | fire (key : Bytes)

/-- The revalidation timer's key; module names cannot contain a space. -/
def kRevalidateTimer : Bytes := str "revalidate modules"

/-! ## Critical sections, on one slot

Each of these is what one section of `m_mu` writes to the slot it has found, without the test
that comes before it. -/

def Slot.refresh (s : Slot) : Slot :=
  { s with attempt := s.attempt + 1, inFlight := true, retryArmed := false }

def Slot.providerLost (s : Slot) : Slot :=
  { s with attempt := s.attempt + 1, inFlight := false, view := staleView s.view, failures := 1,
           retryArmed := true }

/-- A higher generation than the last one seen: the provider came back. -/
def Slot.restarted (s : Slot) (generation : Nat) : Bool :=
  s.armedGeneration != 0 && decide (generation > s.armedGeneration)

def Slot.sawGeneration (s : Slot) (generation : Nat) : Slot :=
  { s with armedGeneration := max s.armedGeneration generation }

def Slot.rediscover (s : Slot) : Slot :=
  { s with attempt := s.attempt + 1, inFlight := false, retryArmed := true,
           view := staleView s.view }

/-- Whether `onClientReplaced` swaps the view. -/
def Slot.settledView (s : Slot) : Bool := s.view.resolved && !s.view.stale

def Slot.clientReplaced (s : Slot) : Slot :=
  { s with attempt := s.attempt + 1, inFlight := false, retryArmed := true, armedGeneration := 0,
           view := if s.settledView then staleView s.view else s.view }

def Slot.callUnavailable (s : Slot) : Slot :=
  { s with view := staleView s.view, failures := 1, retryArmed := true }

def Slot.missed (s : Slot) : Slot :=
  { s with inFlight := false, failures := s.failures + 1, retryArmed := true }

def Slot.publish (s : Slot) (next : ModuleView) (retry : Bool) : Slot :=
  { s with view := { next with generation := s.view.generation + 1, stale := false }
           inFlight := false
           failures := if retry then s.failures + 1 else 0
           retryArmed := retry }

/-- Whether a revalidation round reads this module. -/
def Slot.readable (s : Slot) : Bool :=
  !(s.inFlight || s.retryArmed || s.checking || !s.view.resolved)

def Slot.restart (s : Slot) : Slot :=
  { s with attempt := s.attempt + 1, inFlight := true, view := staleView s.view }

/-! ## The program

A section that is left by a lock is split there: the code before and after another `m_mu`
section, an injected call or a queued job are sections of their own, and the environment may run
anything in between. The counters of resets and the list of publications are written beside the
slots and are never read by a section. -/

namespace Shared

/-- The slot of `m` is now `s`. -/
def put (sh : Shared) (m : Bytes) (s : Slot) : Shared :=
  { sh with slots := Function.update sh.slots m (some s) }

/-- A loss, restart or replacement of `m` has taken effect. -/
def reset (sh : Shared) (m : Bytes) : Shared :=
  { sh with resets := Function.update sh.resets m (sh.resets m + 1) }

/-- Of the resets of `m`, this one was a client replacement. -/
def replaced (sh : Shared) (m : Bytes) : Shared :=
  { sh with client := Function.update sh.client m (sh.client m + 1) }

/-- `schedule` of the scheduler: the key has one timer, and the last call sets it. -/
def arm (sh : Shared) (key : Bytes) (delay : Nat) (job : TimerJob) : Shared :=
  { sh with timers := Function.update sh.timers key (some (delay, job)) }

/-- The scheduler takes a timer off its map before it runs the job. -/
def disarm (sh : Shared) (key : Bytes) : Shared :=
  { sh with timers := Function.update sh.timers key none }

/-- `view(module)`: a pending view for a module without a slot. -/
def viewOf (sh : Shared) (m : Bytes) : ModuleView :=
  match sh.slots m with
  | some s => s.view
  | none => pendingView m

/-- `views()`: every exposed module's current view, in config order. -/
def views (cfg : BridgeConfig) (sh : Shared) : List ModuleView :=
  cfg.modules.filterMap fun em => (sh.slots em.name).map (·.view)

section
variable (sh : Shared) (m k : Bytes) (s : Slot) (d : Nat) (job : TimerJob)

/-! ### Updates

Each operation writes one member of the state and leaves the others. -/

@[simp] theorem slots_put :
    (sh.put m s).slots k = if k = m then some s else sh.slots k := by
  simp [put, Function.update_apply]

@[simp] theorem resets_put : (sh.put m s).resets = sh.resets := rfl
@[simp] theorem client_put : (sh.put m s).client = sh.client := rfl
@[simp] theorem timers_put : (sh.put m s).timers = sh.timers := rfl
@[simp] theorem published_put : (sh.put m s).published = sh.published := rfl

@[simp] theorem resets_reset :
    (sh.reset m).resets k = if k = m then sh.resets m + 1 else sh.resets k := by
  simp [reset, Function.update_apply]

@[simp] theorem slots_reset : (sh.reset m).slots = sh.slots := rfl
@[simp] theorem client_reset : (sh.reset m).client = sh.client := rfl
@[simp] theorem timers_reset : (sh.reset m).timers = sh.timers := rfl
@[simp] theorem published_reset : (sh.reset m).published = sh.published := rfl

@[simp] theorem client_replaced :
    (sh.replaced m).client k = if k = m then sh.client m + 1 else sh.client k := by
  simp [replaced, Function.update_apply]

@[simp] theorem slots_replaced : (sh.replaced m).slots = sh.slots := rfl
@[simp] theorem resets_replaced : (sh.replaced m).resets = sh.resets := rfl
@[simp] theorem timers_replaced : (sh.replaced m).timers = sh.timers := rfl
@[simp] theorem published_replaced : (sh.replaced m).published = sh.published := rfl

@[simp] theorem timers_arm :
    (sh.arm m d job).timers k = if k = m then some (d, job) else sh.timers k := by
  simp [arm, Function.update_apply]

@[simp] theorem slots_arm : (sh.arm m d job).slots = sh.slots := rfl
@[simp] theorem resets_arm : (sh.arm m d job).resets = sh.resets := rfl
@[simp] theorem client_arm : (sh.arm m d job).client = sh.client := rfl
@[simp] theorem published_arm : (sh.arm m d job).published = sh.published := rfl

@[simp] theorem timers_disarm :
    (sh.disarm m).timers k = if k = m then none else sh.timers k := by
  simp [disarm, Function.update_apply]

@[simp] theorem slots_disarm : (sh.disarm m).slots = sh.slots := rfl
@[simp] theorem resets_disarm : (sh.disarm m).resets = sh.resets := rfl
@[simp] theorem client_disarm : (sh.disarm m).client = sh.client := rfl
@[simp] theorem published_disarm : (sh.disarm m).published = sh.published := rfl

end

end Shared

section Program

variable (cfg : BridgeConfig) (lib : Nlohmann) (reader : ContractReader)

/-- A call issued now. -/
def issue (sh : Shared) (m method : Bytes) (attempt : Nat) (revalidation : Bool) : Call :=
  { module := m, method, attempt, revalidation, resets := sh.resets m, client := sh.client m }

/-! ### What an answer leads to -/

/-- `onInterface`. -/
def onInterface (sh : Shared) (m : Bytes) (n : Nat) (a : Answer) : List Section :=
  match if a.outcome.ok then parseLiveReport lib a.outcome.value else none with
  | none => [.missed m n]
  | some live =>
    if !lidlPresent live then
      [.publish m n (untypedView (sh.viewOf m) live) false { report := a }]
    else [.invoke m n (.contract live a)]

/-- `onContract`. -/
def onContract (sh : Shared) (m : Bytes) (n : Nat) (live : LiveReport) (report a : Answer) :
    List Section :=
  let src : Sources := { report, text := some a }
  let text := lidlText a.outcome.ok a.outcome.value
  if !text.ok then
    [.publish m n (invalidView (sh.viewOf m) live text.error) text.retryable src]
  else
    let contractSha256 := sha256Hex text.text
    let contract := reader.readContract text.text m
    let invalid (error : Bytes) : List Section :=
      [.publish m n { invalidView (sh.viewOf m) live error with contractSha256 } false src]
    if !contract.ok then invalid (contractErrorText contract reader.lidlReaderRev)
    else
      match typedContract lib contract with
      | none => invalid (str "the contract could not be served")
      | some typed => [.invoke m n (.version live typed contractSha256 report a)]

/-- The continuation of a stage, given its answer. -/
def proceed (sh : Shared) (m : Bytes) (n : Nat) (stage : Stage) (a : Answer) : List Section :=
  match stage with
  | .interface => onInterface lib sh m n a
  | .contract live report => onContract lib reader sh m n live report a
  | .version live typed contractSha256 report text =>
    [.publish m n (checkedView (sh.viewOf m) live typed
        (runtimeVersion a.outcome.ok a.outcome.value) contractSha256) false
      { report, text := some text, version := some a }]

/-- The view `publish` stores, before it is renumbered under the lock. -/
def exposed (m : Bytes) (next : ModuleView) : ModuleView :=
  match cfg.find m with
  | some em => withExposure em next
  | none => next

/-! ### The revalidation timer -/

/-- `scheduleRevalidation`. -/
def scheduleRevalidation (sh : Shared) : Shared :=
  if cfg.revalidateMs = 0 then sh else sh.arm kRevalidateTimer cfg.revalidateMs .revalidate

@[simp] theorem slots_scheduleRevalidation (sh : Shared) :
    (scheduleRevalidation cfg sh).slots = sh.slots := by
  unfold scheduleRevalidation
  split <;> rfl

@[simp] theorem resets_scheduleRevalidation (sh : Shared) :
    (scheduleRevalidation cfg sh).resets = sh.resets := by
  unfold scheduleRevalidation
  split <;> rfl

@[simp] theorem client_scheduleRevalidation (sh : Shared) :
    (scheduleRevalidation cfg sh).client = sh.client := by
  unfold scheduleRevalidation
  split <;> rfl

@[simp] theorem published_scheduleRevalidation (sh : Shared) :
    (scheduleRevalidation cfg sh).published = sh.published := by
  unfold scheduleRevalidation
  split <;> rfl

theorem timers_scheduleRevalidation {sh : Shared} {k : Bytes} (h : k ≠ kRevalidateTimer) :
    (scheduleRevalidation cfg sh).timers k = sh.timers k := by
  unfold scheduleRevalidation
  split
  · rfl
  · rw [Shared.timers_arm, if_neg h]

/-! ### Running -/

/-- One section, run atomically. The argument `r` is the answer an outstanding call gets. -/
def exec (sh : Shared) (x : Section) (r : CallOutcome) : Option (Effect Shared Section) :=
  match x with
  | .refresh m =>
    match sh.slots m with
    | none => some { shared := sh }
    | some s =>
      some { shared := sh.put m s.refresh, next := [.invoke m (s.attempt + 1) .interface] }
  | .providerLost m =>
    match sh.slots m with
    | none => some { shared := sh }
    | some s =>
      some { shared := (sh.put m s.providerLost).reset m
             next := [.changed m, .schedule m (retryDelay 1)] }
  | .providerArmed m g =>
    match sh.slots m with
    | none => some { shared := sh }
    | some s =>
      -- a generation seen before, or the first one, of a provider whose view still stands
      if !s.restarted g && !s.view.stale then some { shared := sh.put m (s.sawGeneration g) }
      else
        some { shared := (sh.put m (s.sawGeneration g).rediscover).reset m
               next := [.changed m, .schedule m 0] }
  | .clientReplaced m =>
    match sh.slots m with
    | none => some { shared := sh }
    | some s =>
      some { shared := ((sh.put m s.clientReplaced).reset m).replaced m
             -- a view that was pending or stale has not changed
             next := (if s.settledView then [.changed m] else []) ++ [.schedule m 0] }
  | .callUnavailable m =>
    match sh.slots m with
    | none => some { shared := sh }
    | some s =>
      -- an attempt or a retry is under way and will find out by itself
      if s.inFlight || s.retryArmed then some { shared := sh }
      else
        some { shared := sh.put m s.callUnavailable
               next := [.changed m, .schedule m (retryDelay 1)] }
  | .changed _ => some { shared := sh }
  | .providerChanged _ => some { shared := sh }
  | .schedule m delay => some { shared := sh.arm m delay (.refresh m) }
  | .fired (.refresh m) => some { shared := sh, spawn := [[.refresh m]] }
  | .fired .revalidate =>
    some { shared := scheduleRevalidation cfg sh
           spawn := [[.revalidate (cfg.modules.map (·.name))]] }
  | .invoke m n stage =>
    some { shared := sh, spawn := [[.await (issue sh m stage.method n false) stage]] }
  -- the answer is queued to the pump, and the number is checked when the job runs
  | .await call stage => some { shared := sh, spawn := [[.resume ⟨call, r⟩ stage]] }
  | .resume a stage =>
    match sh.slots a.call.module with
    | none => some { shared := sh }
    | some s =>
      -- a superseded attempt ends here, without a word
      if s.attempt = a.call.attempt then
        some { shared := sh, next := [.proceed a.call.module a.call.attempt stage a] }
      else some { shared := sh }
  | .proceed m n stage a => some { shared := sh, next := proceed lib reader sh m n stage a }
  | .missed m n =>
    match sh.slots m with
    | none => some { shared := sh }
    | some s =>
      if s.attempt = n then
        some { shared := sh.put m s.missed, next := [.schedule m (retryDelay s.missed.failures)] }
      else some { shared := sh }
  | .publish m n next retry src =>
    match sh.slots m with
    | none => some { shared := sh }
    | some s =>
      if s.attempt = n then
        -- the view is exposed and numbered under the lock
        let s' := s.publish (exposed cfg m next) retry
        let p : Publication :=
          { module := m, attempt := n, current := s.attempt, resets := sh.resets m
            view := s'.view, sources := src }
        some { shared := { sh.put m s' with published := sh.published ++ [p] }
               next := .changed m :: if retry then [.schedule m (retryDelay s'.failures)] else [] }
      else some { shared := sh }
  | .revalidate [] => some { shared := sh }
  | .revalidate (m :: rest) =>
    match sh.slots m with
    | none => some { shared := sh, next := [.revalidate rest] }
    | some s =>
      if s.readable then
        some { shared := sh.put m { s with checking := true }
               next := [.read m s.attempt, .revalidate rest] }
      else some { shared := sh, next := [.revalidate rest] }
  | .read m n =>
    some { shared := sh, spawn := [[.awaitRead (issue sh m (str "getPluginInterface") n true)]] }
  | .awaitRead call => some { shared := sh, spawn := [[.revalidated ⟨call, r⟩]] }
  | .revalidated a =>
    match sh.slots a.call.module with
    | none => some { shared := sh }
    | some s =>
      let sh' := sh.put a.call.module { s with checking := false }
      -- an attempt that began since the read supersedes it
      if s.attempt ≠ a.call.attempt ∨ s.inFlight ∨ s.retryArmed then some { shared := sh' }
      else
        match revalidation lib s.view a.outcome.ok a.outcome.error a.outcome.value with
        | .keep => some { shared := sh' }
        | .markStale => some { shared := sh', next := [.callUnavailable a.call.module] }
        | .refresh => some { shared := sh', next := [.restart a] }
  | .restart a =>
    match sh.slots a.call.module with
    | none => some { shared := sh }
    | some s =>
      -- the lock was let go of, so the same test is made again
      if s.attempt ≠ a.call.attempt ∨ s.inFlight ∨ s.retryArmed then some { shared := sh }
      else
        some { shared := sh.put a.call.module s.restart
               next := [.changed a.call.module,
                 .proceed a.call.module (s.attempt + 1) .interface a,
                 .providerChanged a.call.module] }

/-- A call of an entry point starts its first section. A timer can fire only while it is armed. -/
def enter (sh : Shared) : Entry → Option (Effect Shared Section)
  | .refresh m => some { shared := sh, next := [.refresh m] }
  | .providerLost m => some { shared := sh, next := [.providerLost m] }
  | .providerArmed m g => some { shared := sh, next := [.providerArmed m g] }
  | .clientReplaced m => some { shared := sh, next := [.clientReplaced m] }
  | .callUnavailable m => some { shared := sh, next := [.callUnavailable m] }
  | .revalidate => some { shared := sh, next := [.revalidate (cfg.modules.map (·.name))] }
  | .fire key => (sh.timers key).map fun t => { shared := sh.disarm key, next := [.fired t.2] }

/-- Discovery: its sections, and the entry points anyone may call at any time. -/
def discovery : Program Shared Section CallOutcome Entry where
  exec := exec cfg lib reader
  enter := enter cfg

/-- The slots as the constructor leaves them. -/
def initialSlots (m : Bytes) : Option Slot :=
  (cfg.find m).map fun em => { view := pendingView em.name }

/-- After `start()`: one refresh queued per module, and the revalidation timer armed. -/
def start : State Shared Section where
  shared := scheduleRevalidation cfg { slots := initialSlots cfg }
  threads := cfg.modules.map fun em => [.refresh em.name]

end Program

end JsonRpcBridge.Discovery
