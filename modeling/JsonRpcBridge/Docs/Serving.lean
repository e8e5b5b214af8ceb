import JsonRpcBridge.Discovery.Io
import JsonRpcBridge.Docs.Snapshot
import JsonRpcBridge.Interleaving.Lift

/-!
# The document publisher

`doc_publisher.h` beside discovery, as one program of atomic sections: a view that changes calls
`request`, a request arms the document timer unless one is pending, the timer hands a rebuild to the
pump, and a rebuild holds `m_buildMu` from the clearing of the flag to the swap of the snapshot.
`start()` builds the first snapshot itself.

The scheduler and the pump may refuse, and an input or a build may throw.
-/

namespace JsonRpcBridge.Docs

open Interleaving

/-- Discovery's state, the publisher's, and whether its timer is armed. `building` is `m_buildMu`.
-/
structure Serving where
  discovery : Discovery.Shared
  pending : Bool := false
  armed : Bool := false
  building : Bool := false
  current : Option DocSet := none
  failures : Nat := 0

namespace Serving

inductive Section where
  | discovery (x : Discovery.Section)
  /-- `request`, up to the release of `m_mu`. -/
  | request
  /-- `m_io.schedule`. -/
  | schedule
  /-- The timer's job. -/
  | fired
  /-- `clearPending`, after a refusal. -/
  | refused
  /-- `rebuild`, which waits for `m_buildMu`. -/
  | rebuild
  /-- `clearPending`, in a rebuild. -/
  | clear
  /-- `m_io.inputs`. -/
  | inputs
  /-- The comparison with the current snapshot, and the build. -/
  | build (ctx : DocContext)
  | store (next : DocSet)
  /-- The end of a rebuild. -/
  | unlock

/-- What the environment decides in a section: an answer to discovery, whether the scheduler or the
pump takes a job, whether an input or a build throws. -/
structure Choice where
  outcome : Discovery.CallOutcome := {}
  accepted : Bool := true
  throws : Bool := false

/-- Discovery's entry points, and the scheduler taking the document timer. -/
inductive Entry where
  | discovery (ev : Discovery.Entry)
  | fire

section

variable (cfg : BridgeConfig) (lib : Nlohmann) (reader : ContractReader)
  (bridgeVersion : Bytes)

/-- What the builders read now. -/
def now (sh : Serving) : DocContext := docContext cfg bridgeVersion (sh.discovery.views cfg)

/-- `m_io.viewChanged`. -/
def viewChanged : Discovery.Section → List Section
  | .changed _ => [.request]
  | _ => []

/-- A step of discovery. -/
def ofDiscovery (sh : Serving) (x : Discovery.Section)
    (e : Effect Discovery.Shared Discovery.Section) : Effect Serving Section :=
  let e' := e.lift (fun d => { sh with discovery := d }) Section.discovery
  { e' with next := viewChanged x ++ e'.next }

/-- The exception is counted, and the previous snapshot stays. -/
def failed (sh : Serving) : Effect Serving Section :=
  { shared := { sh with failures := sh.failures + 1 }, next := [.unlock] }

def exec (sh : Serving) (x : Section) (c : Choice) : Option (Effect Serving Section) :=
  match x with
  | .discovery x =>
    (Discovery.exec cfg lib reader sh.discovery x c.outcome).map (ofDiscovery sh x)
  | .request =>
    if sh.pending then some { shared := sh }
    else some { shared := { sh with pending := true }, next := [.schedule] }
  | .schedule =>
    if c.accepted then some { shared := { sh with armed := true } }
    else some { shared := sh, next := [.refused] }
  | .fired =>
    if c.accepted then some { shared := sh, spawn := [[.rebuild]] }
    else some { shared := sh, next := [.refused] }
  | .refused => some { shared := { sh with pending := false } }
  | .rebuild =>
    if sh.building then none
    else some { shared := { sh with building := true }, next := [.clear] }
  | .clear => some { shared := { sh with pending := false }, next := [.inputs] }
  | .inputs =>
    if c.throws then some (failed sh)
    else some { shared := sh, next := [.build (now cfg bridgeVersion sh)] }
  | .build ctx =>
    if c.throws then some (failed sh)
    else
      let key := docInputsKey lib ctx
      match sh.current with
      | none => some { shared := sh, next := [.store (buildDocSet lib ctx key 1)] }
      | some prev =>
        if prev.inputsKey = key then some { shared := sh, next := [.unlock] }
        else some { shared := sh, next := [.store (buildDocSet lib ctx key (prev.generation + 1))] }
  | .store next => some { shared := { sh with current := some next }, next := [.unlock] }
  | .unlock => some { shared := { sh with building := false } }

def enter (sh : Serving) : Entry → Option (Effect Serving Section)
  | .discovery ev =>
    (Discovery.enter cfg sh.discovery ev).map fun e =>
      e.lift (fun d => { sh with discovery := d }) Section.discovery
  | .fire =>
    if sh.armed then some { shared := { sh with armed := false }, next := [.fired] } else none

end

end Serving

open Serving in
/-- Discovery and the publisher it notifies. -/
def serving (cfg : BridgeConfig) (lib : Nlohmann) (reader : ContractReader)
    (bridgeVersion : Bytes) : Program Serving Section Choice Entry where
  exec := exec cfg lib reader bridgeVersion
  enter := enter cfg

/-- `start()`: the first build, and discovery's threads. -/
def Serving.start (cfg : BridgeConfig) : State Serving Serving.Section where
  shared := { discovery := (Discovery.start cfg).shared }
  threads := [.rebuild] :: (Discovery.start cfg).threads.map fun t => t.map .discovery

end JsonRpcBridge.Docs
