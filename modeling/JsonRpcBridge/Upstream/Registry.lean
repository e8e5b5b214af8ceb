import JsonRpcBridge.ErrorMap
import JsonRpcBridge.Interleaving.Tokens
import Mathlib.Logic.Function.Basic

/-!
# The client registry

`BasicClientRegistry` of `upstream.h` and `recycle_policy.h`, as a program of atomic sections: the
critical sections of `m_mu`, the calls it makes without the lock, and every release of a reference
to a client.

* A slot and the client made with it have one number. `refs` is the use count of the client: the
  client exists until it is 0. `Pc.holds` says which sections hold a reference.
* A call is known by a fresh number. `waiting` are the calls a client has taken and not answered;
  an answer comes at any time while the client exists, on a thread of its own.
* `get`, `invoke`, `replace` and `close` are called outside the clients' callbacks, as their comments
  ask. A job that the pump has accepted stays queued until it runs.
* Time is in nanoseconds and never goes back.
* `answered` and `done` are history: the calls whose callback a client has run, and those whose
  `done` has run.
-/

namespace JsonRpcBridge.Upstream.Registry

open Interleaving

def ms (n : Nat) : Nat := n * 1000000

/-! ## When to replace a client

`recycle_policy.h`: a first gap, doubled with each replacement up to a maximum. -/

def kFirstGap : Nat := ms 2000
def kMaxGap : Nat := ms 60000

/-- `since` is when the current client was created. -/
structure RecyclePolicy where
  since : Nat
  gap : Nat := kFirstGap

/-- A call through the current client found the module unavailable. True: replace it now. -/
def RecyclePolicy.onUnavailable (p : RecyclePolicy) (now : Nat) : Bool × RecyclePolicy :=
  if now < p.since + p.gap then (false, p)
  else (true, { since := now, gap := min (p.gap * 2) kMaxGap })

/-- The provider answered through the current client. -/
def RecyclePolicy.onReached (p : RecyclePolicy) : RecyclePolicy := { p with gap := kFirstGap }

/-! ## State

A slot is never reused, so the number of a slot stands for its client and its epoch for ever. -/

/-- A replaced client whose calls never all come back is released anyway after this. -/
def kRetiredDeadline : Nat := ms (5 * 60 * 1000)

/-- `client`: the slot still holds its reference. -/
structure Slot where
  module : Bytes := []
  client : Bool := false
  epoch : Nat := 0
  inFlight : Int := 0
  retired : Bool := false
  retiredAt : Nat := 0

structure Module where
  current : Option Nat := none
  lastEpoch : Nat := 0
  policy : RecyclePolicy

/-- What a release job and `finished` share: the reference, while `full`, and how many of the two
still own the box. -/
structure Box where
  client : Nat := 0
  full : Bool := false
  owners : Nat := 0

/-- The registry, with its clients and the calls they have taken. -/
structure Shared where
  now : Nat := 0
  /-- The slots made so far are those below `made`. -/
  slots : Nat → Slot := fun _ => {}
  made : Nat := 0
  refs : Nat → Nat := fun _ => 0
  modules : Bytes → Option Module := fun _ => none
  retired : List Nat := []
  unreleased : List Nat := []
  boxes : Nat → Box := fun _ => {}
  madeBoxes : Nat := 0
  replacements : Nat := 0
  closed : Bool := false
  nextCall : Nat := 0
  /-- A call and the client that has taken it. -/
  waiting : List (Nat × Nat) := []
  answered : List Nat := []
  done : List Nat := []

/-- What a thread does next. The sections of a callback name the client whose callback it is. -/
inductive Pc where
  | get (module : Bytes)
  | invoke (module : Bytes) (call : Nat)
  /-- `client->invokeAsyncResult`, with the thread's own reference. -/
  | submit (k call : Nat)
  | replace (module : Bytes) (epoch : Nat)
  /-- `m_onReplaced`. -/
  | onReplaced (module : Bytes) (epoch : Nat)
  | close
  /-- A reference goes out of scope. -/
  | drop (k : Nat)
  /-- The job that releases client `k`: `box->reset()`. -/
  | release (k b : Nat)
  | finished (k call : Nat) (value : Json) (e : CallError)
  /-- `finished` posts the release of `dying`. -/
  | postRelease (k : Nat)
  /-- The post was refused: before `m_unreleased.push_back`. -/
  | keep (k b : Nat)
  /-- The box goes out of scope in `finished`. -/
  | dropBox (k b : Nat)
  | postReplace (k : Nat) (module : Bytes) (epoch : Nat)
  /-- `done`, in a callback, or in `invoke` when there is no client. -/
  | done (inside : Option Nat) (call : Nat) (value : Json) (e : CallError)

/-- The client whose callback runs the section. -/
def Pc.inside? : Pc → Option Nat
  | .finished k .. | .postRelease k | .keep k _ | .dropBox k _ | .postReplace k .. => some k
  | .done inside .. => inside
  | _ => none

/-- The client a section holds a reference to, itself or in the box it is to empty. -/
def Pc.holds : Pc → Option Nat
  | .submit k _ | .drop k | .postRelease k | .release k _ | .keep k _ => some k
  | _ => none

namespace Shared

def setSlot (sh : Shared) (k : Nat) (s : Slot) : Shared :=
  { sh with slots := Function.update sh.slots k s }

def setModule (sh : Shared) (m : Bytes) (md : Module) : Shared :=
  { sh with modules := Function.update sh.modules m (some md) }

def setRefs (sh : Shared) (k n : Nat) : Shared :=
  { sh with refs := Function.update sh.refs k n }

def setBox (sh : Shared) (b : Nat) (box : Box) : Shared :=
  { sh with boxes := Function.update sh.boxes b box }

/-- One reference goes; at 0 the client is destroyed. -/
def dropRef (sh : Shared) (k : Nat) : Shared := sh.setRefs k (sh.refs k - 1)

/-- `makeSlotLocked`, with the slot as the module's current one. -/
def makeSlot (sh : Shared) (m : Bytes) (md : Module) : Shared :=
  let epoch := md.lastEpoch + 1
  { ((sh.setSlot sh.made { module := m, client := true, epoch }).setModule m
      { md with current := some sh.made, lastEpoch := epoch }).setRefs sh.made 1 with
    made := sh.made + 1 }

/-- `currentLocked`. -/
def currentLocked (sh : Shared) (m : Bytes) : Shared × Nat :=
  let md := (sh.modules m).getD { policy := { since := sh.now } }
  match md.current with
  | some k => (sh, k)
  | none => (sh.makeSlot m md, sh.made)

/-- A retired slot gives up its reference. -/
def moveOut (sh : Shared) (k : Nat) : Shared :=
  { sh.setSlot k { sh.slots k with client := false } with
    retired := sh.retired.filter fun other => other != k }

/-- A replaced client is past its deadline. -/
def expired (sh : Shared) (k : Nat) : Bool := (sh.slots k).retiredAt + kRetiredDeadline ≤ sh.now

/-- `sweepLocked`, with the references it moves out. -/
def sweepLocked (sh : Shared) : Shared × List Nat :=
  let gone := sh.retired.filter sh.expired
  ({ sh with
      slots := fun k => if k ∈ gone then { sh.slots k with client := false } else sh.slots k
      retired := sh.retired.filter fun k => !sh.expired k },
    gone.filter fun k => (sh.slots k).client)

end Shared

/-! ## Sections

Each is one critical section. A reference that is moved out under the lock is released after it,
by the same thread. -/

/-- `logos::callErrorObjectUnavailable(module, "the bridge is stopping")`. -/
def stopping : CallError := ⟨str "object_unavailable", str "the bridge is stopping"⟩

def get (sh : Shared) (m : Bytes) : Effect Shared Pc :=
  if sh.closed then { shared := sh }
  else
    let (sh, k) := sh.currentLocked m
    if (sh.slots k).client then
      { shared := sh.setRefs k (sh.refs k + 1), next := [.drop k] }
    else { shared := sh }

/-- A call leases the current client, or is refused at once when the registry is closed. -/
def invoke (sh : Shared) (m : Bytes) (call : Nat) : Effect Shared Pc :=
  if sh.closed then { shared := sh, next := [.done none call .null stopping] }
  else
    let (sh, k) := sh.currentLocked m
    let slot := sh.slots k
    let (sh, expired) := (sh.setSlot k { slot with inFlight := slot.inFlight + 1 }).sweepLocked
    if slot.client then
      { shared := sh.setRefs k (sh.refs k + 1), next := expired.map .drop ++ [.submit k call] }
    else { shared := sh, next := expired.map .drop ++ [.done none call .null stopping] }

/-- A new client takes the place of `old`, which goes on the retired list if it has calls left. -/
def Shared.replaceSlot (sh : Shared) (m : Bytes) (md : Module) (old : Nat) : Shared :=
  let sh := sh.makeSlot m md
  let slot := sh.slots old
  let idle := slot.inFlight == 0
  { sh.setSlot old { slot with
      retired := true, retiredAt := sh.now, client := slot.client && !idle } with
    replacements := sh.replacements + 1
    retired := if idle then sh.retired else sh.retired ++ [old] }

/-- Nothing is replaced but the client the caller saw. -/
def replace (sh : Shared) (m : Bytes) (epoch : Nat) : Effect Shared Pc :=
  match sh.modules m with
  | none => { shared := sh }
  | some md =>
    match md.current with
    | none => { shared := sh }
    | some old =>
      if sh.closed || (sh.slots old).epoch != epoch then { shared := sh }
      else
        let dying := (sh.slots old).inFlight == 0 && (sh.slots old).client
        let (sh, expired) := (sh.replaceSlot m md old).sweepLocked
        { shared := sh
          next := (if dying then [.drop old] else []) ++ expired.map .drop ++
            [.onReplaced m (md.lastEpoch + 1)] }

/-- `close` moves out the references of all current and retired slots. -/
def close (sh : Shared) : Effect Shared Pc :=
  let dead := (List.range sh.made).filter fun k =>
    (sh.slots k).client &&
      ((sh.modules (sh.slots k).module).bind (·.current) == some k || k ∈ sh.retired)
  { shared := { sh with
      closed := true
      slots := fun k => if k ∈ dead then { sh.slots k with client := false } else sh.slots k
      retired := []
      unreleased := [] }
    next := (dead ++ sh.unreleased).map .drop }

/-- What an answer says about the module, if the client is the current one, and whether to replace
it. -/
def Shared.judge (sh : Shared) (k : Nat) (e : CallError) : Shared × Bool :=
  let m := (sh.slots k).module
  match sh.modules m with
  | none => (sh, false)
  | some md =>
    if sh.closed || md.current != some k then (sh, false)
    else if e.code == str "object_unavailable" then
      let (now, policy) := md.policy.onUnavailable sh.now
      (sh.setModule m { md with policy }, now)
    else if e.ok || e.code == str "unauthorized" then
      (sh.setModule m { md with policy := md.policy.onReached }, false)
    else (sh, false)

/-- The callback of a call: it is counted off and judged, and the client may be given up or
replaced. -/
def finished (sh : Shared) (k call : Nat) (value : Json) (e : CallError) : Effect Shared Pc :=
  let slot := { sh.slots k with inFlight := (sh.slots k).inFlight - 1 }
  let (sh, now) := (sh.setSlot k slot).judge k e
  let dying := slot.retired && slot.inFlight == 0 && slot.client
  { shared := if dying then sh.moveOut k else sh
    next := (if dying then [.postRelease k] else []) ++
      (if now then [.postReplace k slot.module slot.epoch] else []) ++
      [.done (some k) call value e] }

/-- An owner of the box goes, and the last one takes the reference with it. -/
def Shared.dropBox (sh : Shared) (b : Nat) : Shared :=
  let box := sh.boxes b
  let sh := sh.setBox b { box with owners := box.owners - 1 }
  if box.owners - 1 == 0 && box.full then sh.dropRef box.client else sh

/-- One section, run atomically. `accepted` is what `m_post` answers. -/
def exec (sh : Shared) (x : Pc) (accepted : Bool) : Option (Effect Shared Pc) :=
  match x with
  | .get m => some (get sh m)
  | .invoke m call => some (invoke sh m call)
  | .submit k call =>
    some { shared := { sh with waiting := sh.waiting ++ [(call, k)] }, next := [.drop k] }
  | .replace m epoch => some (replace sh m epoch)
  | .onReplaced .. => some { shared := sh }
  | .close => some (close sh)
  | .drop k => some { shared := sh.dropRef k }
  | .release _ b =>
    let box := sh.boxes b
    let reset := sh.setBox b { box with full := false }
    some { shared := (if box.full then reset.dropRef box.client else reset).dropBox b }
  | .finished k call value e => some (finished sh k call value e)
  | .postRelease k =>
    let b := sh.madeBoxes
    let sh := { sh with madeBoxes := b + 1 }
    some (if accepted then
        { shared := sh.setBox b { client := k, full := true, owners := 2 }
          next := [.dropBox k b], spawn := [[.release k b]] }
      else { shared := sh.setBox b { client := k, full := true, owners := 1 }, next := [.keep k b] })
  | .keep k b =>
    let box := sh.boxes b
    some { shared := { sh.setBox b { box with full := false } with
             unreleased := sh.unreleased ++ if box.full then [box.client] else [] }
           next := [.dropBox k b] }
  | .dropBox _ b => some { shared := sh.dropBox b }
  | .postReplace _ m epoch =>
    some { shared := sh, spawn := if accepted then [[.replace m epoch]] else [] }
  | .done _ call _ _ => some { shared := { sh with done := sh.done ++ [call] } }

/-! ## Entry points

What the rest of the bridge calls, time, and the answers of the clients. -/

inductive RegistryEntry where
  | tick (elapsed : Nat)
  | get (module : Bytes)
  | invoke (module : Bytes)
  | replace (module : Bytes) (epoch : Nat)
  | close
  /-- Client `k` runs the callback of a call: at most once, and never after it was destroyed. -/
  | answer (k call : Nat) (value : Json) (e : CallError)

def enter (sh : Shared) : RegistryEntry → Option (Effect Shared Pc)
  | .tick elapsed => some { shared := { sh with now := sh.now + elapsed } }
  | .get m => some { shared := sh, next := [.get m] }
  | .invoke m =>
    some { shared := { sh with nextCall := sh.nextCall + 1 }, next := [.invoke m sh.nextCall] }
  | .replace m epoch => some { shared := sh, next := [.replace m epoch] }
  | .close => some { shared := sh, next := [.close] }
  | .answer k call value e =>
    if (call, k) ∈ sh.waiting ∧ 0 < sh.refs k then
      some { shared := { sh with
               waiting := sh.waiting.erase (call, k)
               answered := sh.answered ++ [call] }
             next := [.finished k call value e] }
    else none

def registry : Program Shared Pc Bool RegistryEntry where
  exec := exec
  enter := enter

def start : State Shared Pc where
  shared := {}

end JsonRpcBridge.Upstream.Registry
