import JsonRpcBridge.Upstream.Homes

/-!
# Shutting down

`BridgeCore::shutdown` from `m_clients->close()` on, against everything else that goes on in the
registry: jobs on the pump's threads, the socket thread, callbacks of the clients. It closes the
registry, stops and joins the pump, joins the socket thread and destroys the server, in this order.
Whoever calls the server afterwards calls freed memory.

* A section belongs to a thread of the pump, to the socket thread or to a callback of a client
  (`Who`), or is the next step of the shutdown itself.
* `CallPump` has a queue of jobs. Those that `stop` finds there die with the queue, and a box that
  loses its last owner takes the client in it along.
* `waits`: `lp_client_destroy` returns once no callback of the client is under way, and `join` once
  the thread has ended.

-/

namespace JsonRpcBridge.Upstream.Registry.Shutdown

open Interleaving

/-! ## State

The registry, and how far each of the threads that `shutdown` waits for has come. -/

/-- The thread of a section: one of the pump's, the socket thread, or one that runs a client's
callback. -/
inductive Who where
  | pump
  | socket
  | client
  deriving DecidableEq

/-- `threads` and `listening`: the pump's threads, and the socket thread, are not joined yet.
`dropped` are the jobs that died in the queue. `left` are the boxes whose release died there while
`finished` still owned the box, each with its client. -/
structure Bridge where
  registry : Shared := {}
  queue : List Pc := []
  draining : Bool := false
  stopped : Bool := false
  threads : Bool := true
  listening : Bool := true
  server : Bool := true
  dropped : List Pc := []
  left : List (Nat × Nat) := []

inductive Section where
  | work (who : Who) (x : Pc)
  /-- The loss watcher of a client reports. -/
  | report (k : Nat)
  /-- `m_clients->close()`. -/
  | close
  /-- The clients that `close` moved out, from the next one on. -/
  | closing (dead : List Nat)
  /-- `m_pump.stop()`: the queue is swapped out. -/
  | stopPump
  /-- The jobs that were in the queue, from the next one on. -/
  | dropping (jobs : List Pc)
  | joinPump
  /-- `m_server->stop()`. -/
  | stopServer
  /-- `m_server.reset()`. -/
  | reset

/-- The client whose callback runs the section. -/
def Section.inside? : Section → Option Nat
  | .work _ x => x.inside?
  | .report k => some k
  | _ => none

def Section.who? : Section → Option Who
  | .work who _ => some who
  | _ => none

/-- A step of `shutdown`. -/
def Section.host : Section → Bool
  | .work .. | .report _ => false
  | _ => true

/-! ## Sections

A section of the registry goes on in its thread. The others are the report of a loss and the steps
of `shutdown`, one after the other. -/

/-- The box has one owner, and a client in it. -/
def lastOf (sh : Shared) (b : Nat) : Bool := (sh.boxes b).owners == 1 && (sh.boxes b).full

/-- An owner of the box goes, and the last one takes the client with it. -/
def leaveBox (sh : Shared) (b : Nat) : Shared :=
  let box := sh.boxes b
  let rest :=
    if lastOf sh b then (sh.setBox b { box with full := false }).dropRef box.client else sh
  rest.dropBox b

/-- A job dies in the queue. -/
def Bridge.die (sh : Bridge) (job : Pc) : Bridge :=
  match job with
  | .release k b =>
    { sh with
      registry := leaveBox sh.registry b
      left := if (sh.registry.boxes b).owners == 1 then sh.left else (b, k) :: sh.left }
  | job => { sh with dropped := job :: sh.dropped }

/-- A `bind` may go round again, and the hook of a replacement rebinds other events. -/
def leases : Pc → Bool
  | .get _ | .onReplaced .. => true
  | _ => false

/-- One section, run atomically. `ms` are the modules that its thread leases a client of next. -/
def exec (sh : Bridge) (x : Section) (ms : List Bytes) : Option (Effect Bridge Section) :=
  match x with
  | .work _ (.dropBox _ b) =>
    some { shared := { sh with registry := leaveBox sh.registry b } }
  | .work who x =>
    (Registry.exec sh.registry x (!sh.stopped)).map fun e =>
      { shared := { sh with registry := e.shared, queue := sh.queue ++ e.spawn.flatten }
        next := (e.next ++ if leases x then ms.map .get else []).map (.work who) }
  | .report _ => some { shared := sh }
  | .close =>
    let e := Registry.close sh.registry
    some { shared := { sh with registry := e.shared }
           next := [.closing (e.next.filterMap Pc.holds)] }
  | .closing [] => some { shared := sh, next := [.stopPump] }
  | .closing (k :: dead) =>
    some { shared := { sh with registry := sh.registry.dropRef k }, next := [.closing dead] }
  | .stopPump =>
    some { shared := { sh with stopped := true, queue := [] }, next := [.dropping sh.queue] }
  | .dropping [] => some { shared := sh, next := [.joinPump] }
  | .dropping (job :: jobs) => some { shared := sh.die job, next := [.dropping jobs] }
  | .joinPump => some { shared := { sh with threads := false }, next := [.stopServer] }
  | .stopServer => some { shared := { sh with listening := false }, next := [.reset] }
  | .reset => some { shared := { sh with server := false } }

/-! ## Entry points

The socket thread leases clients while there is one, and jobs begin until the pump is stopped. -/

inductive ShutdownEntry where
  | tick (elapsed : Nat)
  /-- The socket thread leases a client. -/
  | get (module : Bytes)
  /-- A call is submitted to the pump. -/
  | call (module : Bytes)
  /-- A subscription is submitted to the pump. -/
  | subscribe (module : Bytes)
  /-- A thread of the pump takes the next job. -/
  | take
  | answer (k call : Nat) (value : Json) (e : CallError)
  | report (k : Nat)
  | shutdown

def enter (sh : Bridge) : ShutdownEntry → Option (Effect Bridge Section)
  | .tick elapsed =>
    some { shared := { sh with registry := { sh.registry with now := sh.registry.now + elapsed } } }
  | .get m => if sh.listening then some { shared := sh, next := [.work .socket (.get m)] } else none
  | .call m =>
    if sh.stopped then some { shared := sh }
    else
      let c := sh.registry.nextCall
      some { shared := { sh with
               registry := { sh.registry with nextCall := c + 1 }
               queue := sh.queue ++ [.invoke m c] } }
  | .subscribe m =>
    some { shared := if sh.stopped then sh else { sh with queue := sh.queue ++ [.get m] } }
  | .take =>
    match sh.queue with
    | [] => none
    | job :: queue =>
      if sh.stopped then none
      else some { shared := { sh with queue }, next := [.work .pump job] }
  | .answer k call value e =>
    (Registry.enter sh.registry (.answer k call value e)).map fun e =>
      { shared := { sh with registry := e.shared }, next := e.next.map (.work .client) }
  | .report k =>
    if 0 < sh.registry.refs k then some { shared := sh, next := [.report k] } else none
  | .shutdown =>
    if sh.draining then none else some { shared := { sh with draining := true }, next := [.close] }

def shutdown : Program Bridge Section (List Bytes) ShutdownEntry where
  exec := exec
  enter := enter

def start : State Bridge Section where
  shared := {}

/-- The client a section lets a reference go of. -/
def Section.drops (sh : Shared) : Section → Option Nat
  | .closing (k :: _) | .work _ (.drop k) | .work _ (.release k _) => some k
  | .work _ (.dropBox _ b) | .dropping (.release _ b :: _) =>
    if lastOf sh b then some (sh.boxes b).client else none
  | _ => none

/-- A client is destroyed while no callback of it is under way, and a join is over when the thread
is. -/
def waits : Guard Bridge Section (List Bytes) ShutdownEntry where
  run sh p x _ :=
    (∀ k, x.drops sh.registry = some k → sh.registry.refs k = 1 → ∀ y ∈ p, y.inside? ≠ some k) ∧
    (∀ who, (x = .joinPump ∧ who = .pump ∨ x = .stopServer ∧ who = .socket) →
      ∀ y ∈ p, y.who? ≠ some who)
  enter _ _ _ := True

/-- The thread whose end the section waits for. -/
def Section.joins? : Section → Option Who
  | .joinPump => some .pump
  | .stopServer => some .socket
  | _ => none

theorem Section.joins?_eq_some {x : Section} {who : Who} : x.joins? = some who ↔
    x = .joinPump ∧ who = .pump ∨ x = .stopServer ∧ who = .socket := by
  constructor
  · intro h
    cases x with
    | joinPump => exact .inl ⟨rfl, (Option.some.inj h).symm⟩
    | stopServer => exact .inr ⟨rfl, (Option.some.inj h).symm⟩
    | _ => cases h
  · rintro (⟨rfl, rfl⟩ | ⟨rfl, rfl⟩)
    · rfl
    · rfl

instance : waits.Decided where
  run sh p x _ := decidable_of_iff
    ((∀ k ∈ x.drops sh.registry, sh.registry.refs k = 1 → ∀ y ∈ p, y.inside? ≠ some k) ∧
      ∀ who ∈ x.joins?, ∀ y ∈ p, y.who? ≠ some who)
    (and_congr Iff.rfl (forall_congr' fun _ => imp_congr_left Section.joins?_eq_some))
  enter _ _ _ := isTrue trivial

end JsonRpcBridge.Upstream.Registry.Shutdown
