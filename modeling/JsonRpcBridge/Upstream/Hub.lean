import JsonRpcBridge.Json
import Mathlib.Data.List.Basic
import Mathlib.Logic.Function.Basic

/-!
# The subscription hub

`BasicSubscriptionHub` of `upstream.h` as atomic sections. Each `Pc` is one critical section of
`m_subMu`, one call into the client registry or a client, or one atomic access of a delivery, which
takes no lock. `Hub.exec` runs one and says what its own thread does next.

A thread enters the hub at `add`, `remove`, `removeEverywhere`, `retire`, `rebind`, `status`,
`moduleLost`, `lost` or `deliver`. It leaves through the last three: `added` is the return of `add`
to the caller known as `k`, `onLost` and `sink` are the two functions the hub was given. The hub does
not run these.

An `Up` is known by its address, so that an entry that was erased and made again is a different
one. `m_up` is a list of keys and addresses; the source's map is in key order, and nothing depends on
the order.
-/

namespace JsonRpcBridge.Upstream

/-! ## State and sections

Entries are shared and go on living when they leave the table, so they have addresses of their
own. -/

structure Key where
  module : Bytes
  event : Bytes
  deriving DecidableEq

/-- One upstream subscription. `epoch` is that of the client `handle` came from, 0 until bound. -/
structure Up where
  key : Key := ⟨[], []⟩
  handle : Option Nat := none
  epoch : Nat := 0
  subscribers : List Nat := []
  generation : Nat := 1

/-- Per module: the client epoch whose watcher is installed, and the one whose reports count. -/
structure Watch where
  installed : Nat := 0
  accept : Nat := 0

/-- What the hub sees of the client registry: the epoch of each module's client, 0 before the
first. -/
structure Clients where
  epoch : Bytes → Nat := fun _ => 0
  closed : Bool := false

/-- `get`: the epoch of the lease, making the module's first client if there is none. -/
def Clients.get (c : Clients) (m : Bytes) : Option Nat × Clients :=
  if c.closed then (none, c)
  else
    let epoch := max (c.epoch m) 1
    (some epoch, { c with epoch := Function.update c.epoch m epoch })

/-- A replacement of the module's client. -/
def Clients.replace (c : Clients) (m : Bytes) : Clients :=
  { c with epoch := Function.update c.epoch m (c.epoch m + 1) }

/-- `handles` are the valid handles that exist, each with the entry its callback delivers to. -/
structure Hub where
  clients : Clients := {}
  up : List (Key × Nat) := []
  heap : Nat → Up := fun _ => {}
  made : Nat := 0
  watch : Bytes → Option Watch := fun _ => none
  closed : Bool := false
  handles : List (Nat × Nat) := []
  issued : Nat := 0

/-- Who waits for a `bind`: the `add` that created the entry, or `rebind` with the entries left. -/
inductive Binder (κ : Type) where
  | adding (k : κ) (key : Key) (id : Nat)
  | rebinding (rest : List Nat)

inductive Pc (κ : Type) where
  | add (k : κ) (key : Key) (id : Nat)
  /-- `bind`, from the top of a round: `m_clients->get`. -/
  | lease (w : Binder κ) (a round : Nat)
  | check (w : Binder κ) (a round epoch : Nat)
  /-- `ensureLossWatcher`. -/
  | watch (w : Binder κ) (a round epoch : Nat)
  /-- `lease.client->subscribe`. -/
  | subscribe (w : Binder κ) (a round epoch : Nat)
  /-- The handle is not valid. -/
  | invalid (w : Binder κ) (a : Nat)
  | commit (w : Binder κ) (a round epoch handle : Nat)
  /-- `m_clients->epoch(..) == lease.epoch`. -/
  | recheck (w : Binder κ) (a round epoch : Nat) (old : Option Nat)
  /-- `old` goes out of scope. -/
  | destroy (handle : Nat)
  /-- `add`, after its `bind` failed. -/
  | undo (k : κ) (key : Key) (id a : Nat)
  | remove (key : Key) (id : Nat)
  | removeEverywhere (id : Nat)
  | retire (module : Bytes) (epoch : Nat)
  | rebind (module : Bytes)
  /-- A status report of the watcher of one client; `gone` for a status other than `Armed`. -/
  | status (module : Bytes) (epoch : Nat) (gone : Bool)
  | moduleLost (module : Bytes) (why : Bytes)
  | lost (key : Key) (why : Bytes)
  /-- The callback of a handle, up to its load of the subscribers. -/
  | deliver (a : Nat) (payload : Json)
  /-- The rest of it, from its load of the generation. -/
  | deliverTo (a : Nat) (payload : Json) (ids : List Nat)
  | added (k : κ) (ok : Bool)
  | onLost (id : Nat) (key : Key) (why : Bytes)
  | sink (id : Nat) (key : Key) (payload : Json) (generation : Nat)

def kProviderUnavailable : Bytes := str "provider_unavailable"
def kProviderChanged : Bytes := str "provider_changed"

/-- A replacement racing a subscribe makes `bind` go round again. -/
def kBindRounds : Nat := 4

variable {κ : Type}

/-! ## One entry -/

def Up.addSubscriber (u : Up) (id : Nat) : Up :=
  if id ∈ u.subscribers then u else { u with subscribers := u.subscribers ++ [id] }

def Up.removeSubscriber (u : Up) (id : Nat) : Up :=
  { u with subscribers := u.subscribers.filter fun existing => existing != id }

/-- `notifyLost` takes the set and starts a new generation. -/
def Up.lose (u : Up) : Up := { u with generation := u.generation + 1, subscribers := [] }

/-! ## The table -/

namespace Hub

/-- `m_up.find`. -/
def find (h : Hub) (key : Key) : Option Nat := h.up.lookup key

def setUp (h : Hub) (a : Nat) (u : Up) : Hub := { h with heap := Function.update h.heap a u }

/-- A new entry for a key that has none. -/
def emplace (h : Hub) (key : Key) : Hub :=
  { h.setUp h.made { key } with up := h.up ++ [(key, h.made)], made := h.made + 1 }

def erase (h : Hub) (key : Key) : Hub := { h with up := h.up.filter fun e => e.1 != key }

/-- `liveLocked`. -/
def live (h : Hub) (a : Nat) : Bool := h.find (h.heap a).key == some a

/-- `removeSubscriberLocked` on every entry of the table. -/
def removeEverywhere (h : Hub) (id : Nat) : Hub :=
  { h with heap := fun a =>
      if h.up.any (·.2 == a) then (h.heap a).removeSubscriber id else h.heap a }

/-- The addresses of a module's entries. -/
def ofModule (h : Hub) (m : Bytes) : List Nat :=
  (h.up.filter fun e => (h.heap e.2).key.module == m).map (·.2)

end Hub

/-! ## The sections -/

/-- `rebind` goes on with the next entry. -/
def rebindNext : List Nat → List (Pc κ)
  | [] => []
  | a :: rest => [.lease (.rebinding rest) a 0]

/-- What follows a `bind` of the entry at `a`. -/
def Binder.done (w : Binder κ) (a : Nat) (ok : Bool) : List (Pc κ) :=
  match w with
  | .adding k key id => if ok then [.added k true] else [.undo k key id a]
  | .rebinding rest => rebindNext rest

/-- One section, run atomically. `valid` is what the client's `subscribe` answers: whether the
handle is valid. -/
def Hub.exec (h : Hub) (x : Pc κ) (valid : Bool) : Option (Hub × List (Pc κ)) :=
  match x with
  | .add k key id =>
    if h.closed then some (h, [.added k false])
    else
      match h.find key with
      | some a => some (h.setUp a ((h.heap a).addSubscriber id), [.added k true])
      | none =>
        some ((h.emplace key).setUp h.made (Up.addSubscriber { key } id),
          [.lease (.adding k key id) h.made 0])
  | .lease w a round =>
    match h.clients.get (h.heap a).key.module with
    | (none, clients) => some ({ h with clients }, w.done a false)
    | (some epoch, clients) => some ({ h with clients }, [.check w a round epoch])
  | .check w a round epoch =>
    if h.closed || !h.live a then some (h, w.done a false)
    else if (h.heap a).epoch ≥ epoch then some (h, w.done a true)
    else some (h, [.watch w a round epoch])
  | .watch w a round epoch =>
    let m := (h.heap a).key.module
    let old := (h.watch m).getD {}
    let new : Watch :=
      if old.installed ≥ epoch then old
      else { installed := epoch, accept := max old.accept epoch }
    some ({ h with watch := Function.update h.watch m (some new) }, [.subscribe w a round epoch])
  | .subscribe w a round epoch =>
    if valid then
      some ({ h with handles := h.handles ++ [(h.issued, a)], issued := h.issued + 1 },
        [.commit w a round epoch h.issued])
    else some (h, [.invalid w a])
  | .invalid w a => some (h, w.done a ((h.heap a).epoch != 0))
  | .commit w a round epoch handle =>
    if h.closed || !h.live a then some (h, .destroy handle :: w.done a false)
    else if (h.heap a).epoch ≥ epoch then some (h, [.recheck w a round epoch (some handle)])
    else
      some (h.setUp a { h.heap a with handle := some handle, epoch },
        [.recheck w a round epoch (h.heap a).handle])
  | .recheck w a round epoch old =>
    let after :=
      if h.clients.epoch (h.heap a).key.module == epoch || round + 1 == kBindRounds then
        w.done a true
      else [.lease w a (round + 1)]
    some (h, old.toList.map .destroy ++ after)
  | .destroy handle => some ({ h with handles := h.handles.filter fun e => e.1 != handle }, [])
  | .undo k key _ a =>
    some (if h.find key == some a && (h.heap a).epoch == 0 then h.erase key else h,
      [.added k false])
  | .remove key id =>
    match h.find key with
    | none => some (h, [])
    | some a => some (h.setUp a ((h.heap a).removeSubscriber id), [])
  | .removeEverywhere id => some (h.removeEverywhere id, [])
  | .retire m epoch =>
    let w := (h.watch m).getD {}
    let new : Watch := { w with accept := max w.accept epoch }
    some ({ h with watch := Function.update h.watch m (some new) }, [])
  | .rebind m => some (h, if h.closed then [] else rebindNext (h.ofModule m))
  | .status m epoch gone =>
    match h.watch m with
    | none => some (h, [])
    | some w =>
      some (h, if !h.closed && w.accept == epoch && gone then
        [.moduleLost m kProviderUnavailable] else [])
  | .moduleLost m why =>
    some (h, (h.ofModule m).map fun a => .lost ⟨m, (h.heap a).key.event⟩ why)
  | .lost key why =>
    match h.find key with
    | none => some (h, [])
    | some a =>
      some (h.setUp a (h.heap a).lose,
        (h.heap a).subscribers.map fun id => .onLost id (h.heap a).key why)
  | .deliver a payload =>
    some (h, if (h.heap a).subscribers.isEmpty then []
      else [.deliverTo a payload (h.heap a).subscribers])
  | .deliverTo a payload ids =>
    some (h, ids.map fun id => .sink id (h.heap a).key payload (h.heap a).generation)
  | .added .. | .onLost .. | .sink .. => none

/-! ## Who is subscribed -/

/-- The subscribers of the live entry of `key`. -/
def Hub.members (h : Hub) (key : Key) : List Nat :=
  match h.find key with
  | some a => (h.heap a).subscribers
  | none => []

/-- Every entry of the table is filed under its own key, at an address in use. -/
def Hub.Filed (h : Hub) : Prop :=
  ∀ key a, h.find key = some a → (h.heap a).key = key ∧ a < h.made

end JsonRpcBridge.Upstream
