import JsonRpcBridge.Dispatcher.Serialise
import JsonRpcBridge.Interleaving.Tokens

/-!
# Batches

`Batch` collects the responses of a body out of order and answers with them once they are all in.
The thread that read the body dispatches its requests one after another; each fills its slot there,
or hands the pump a job that fills it, or that makes an upstream call whose `done` fills it, on any
thread and at any time or never.

`exec_does` is what a section does to its batch and leaves to be done; what all of them together
keep is `Dispatcher.BatchLedger`.
-/

namespace JsonRpcBridge.Dispatcher

open Interleaving Subscriptions

/-! ## The program

A batch is worked off by many threads: the dispatching one, the jobs, the answers from upstream.
They share the slots and the countdown. -/

/-- `filled` and `sent` are history: the slots that `fill` stored, and the frames that went out. -/
structure Batch where
  route : Bytes
  body : Bytes
  requests : List Json
  single : Bool
  restShape : Bool
  /-- `m_slots`; a slot that was not filled is null. -/
  slots : List Json
  remaining : Nat
  filled : List Nat := []
  sent : List Bytes := []

/-- `crashed`: an exception left a callback of the C library, and the process ended. -/
structure Batches where
  batch : Nat → Option Batch := fun _ => none
  made : Nat := 0
  crashed : Bool := false

inductive Section where
  /-- `handleOne` of request `i`. -/
  | handle (k i : Nat) (raw : Json)
  /-- A job of the pump. -/
  | job (k i : Nat) (job : Job)
  /-- The `done` of an upstream call. -/
  | done (k i : Nat) (job : Job)
  /-- `fill`, up to the counter. -/
  | store (k i : Nat) (response : Json)
  /-- `m_remaining.fetch_sub(1)`. -/
  | countDown (k : Nat)
  /-- `flush`, up to the end of its critical section. -/
  | flush (k : Nat)
  /-- `flush`, from then on. -/
  | send (k : Nat) (slots : List Json)

/-- What the environment decides: the bridge as a request finds it, and what upstream says. -/
structure Choice where
  bridge : Bridge := .undiscovered
  told : Upstreamed := {}

/-- A body arrives. -/
structure Arrival where
  draining : Bool := false
  route : Bytes := []
  body : Bytes

namespace Batch

def store (b : Batch) (i : Nat) (response : Json) : Batch :=
  { b with slots := b.slots.set i response, filled := b.filled ++ [i] }

def countDown (b : Batch) : Batch := { b with remaining := b.remaining - 1 }

/-- `slots = std::move(m_slots)`. -/
def taken (b : Batch) : Batch := { b with slots := [] }

def sentOff (b : Batch) (frame : Bytes) : Batch := { b with sent := b.sent ++ [frame] }

end Batch

namespace Batches

def put (sh : Batches) (k : Nat) (b : Batch) : Batches :=
  { sh with batch := Function.update sh.batch k (some b) }

def add (sh : Batches) (b : Batch) : Batches :=
  { sh.put sh.made b with made := sh.made + 1 }

def crash (sh : Batches) : Batches := { sh with crashed := true }

@[simp] theorem batch_put (sh : Batches) (k : Nat) (b : Batch) (k' : Nat) :
    (sh.put k b).batch k' = if k' = k then some b else sh.batch k' := by
  simp [put, Function.update_apply]

@[simp] theorem made_put (sh : Batches) (k : Nat) (b : Batch) : (sh.put k b).made = sh.made := rfl
@[simp] theorem crashed_put (sh : Batches) (k : Nat) (b : Batch) :
    (sh.put k b).crashed = sh.crashed := rfl

@[simp] theorem batch_add (sh : Batches) (b : Batch) (k : Nat) :
    (sh.add b).batch k = if k = sh.made then some b else sh.batch k := batch_put sh sh.made b k

@[simp] theorem made_add (sh : Batches) (b : Batch) : (sh.add b).made = sh.made + 1 := rfl
@[simp] theorem crashed_add (sh : Batches) (b : Batch) : (sh.add b).crashed = sh.crashed := rfl

end Batches

section Program

variable (cfg : BridgeConfig) (lib : Nlohmann)

/-! ### Steps of the code

The steps are cut where another thread may come in between: before a store, before the countdown,
before the frame goes out. -/

/-- The batch a body makes. -/
def newBatch (route body : Bytes) (requests : List Json) (single restShape : Bool) : Batch where
  route := route
  body := body
  requests := requests
  single := single
  restShape := restShape
  slots := List.replicate requests.length .null
  remaining := requests.length

/-- What a request leaves to be done about its slot. -/
def dispatched (k i : Nat) : Outcome → Effect Batches Section → Effect Batches Section
  | .fill response, e => { e with next := [.store k i response] }
  | .submit job, e => { e with spawn := [[.job k i job]] }

/-- The frame of a full batch, or the end of the process. -/
def sendOff (sh : Batches) (k : Nat) (b : Batch) (slots : List Json) : Batches :=
  match flush lib b.single b.restShape slots with
  | .ok frame => sh.put k (b.sentOff frame)
  | .error _ => sh.crash

/-- One section, run atomically. -/
def exec (sh : Batches) (x : Section) (c : Choice) : Option (Effect Batches Section) :=
  if sh.crashed then none
  else
    match x with
    | .handle k i raw =>
      match handleOne cfg lib c.bridge raw with
      | .error _ => some { shared := sh.crash }
      | .ok (out, _) => some (dispatched k i out { shared := sh })
    | .job k i (.call id t args timeoutMs) =>
      some { shared := sh, spawn := [[.done k i (.call id t args timeoutMs)]] }
    | .job k i job => some { shared := sh, next := [.store k i (job.response c.told)] }
    | .done k i job => some { shared := sh, next := [.store k i (job.response c.told)] }
    | .store k i response =>
      (sh.batch k).map fun b => { shared := sh.put k (b.store i response), next := [.countDown k] }
    | .countDown k =>
      (sh.batch k).map fun b =>
        { shared := sh.put k b.countDown, next := if b.remaining = 1 then [.flush k] else [] }
    | .flush k =>
      (sh.batch k).map fun b => { shared := sh.put k b.taken, next := [.send k b.slots] }
    | .send k slots => (sh.batch k).map fun b => { shared := sendOff lib sh k b slots }

/-- `onBody`. A body that is answered at once makes no batch. -/
def enter (sh : Batches) (ev : Arrival) : Option (Effect Batches Section) :=
  if sh.crashed then none
  else
    match readBody cfg lib ev.draining ev.route ev.body with
    | .answer response =>
      match lib.dump response with
      | .ok _ => some { shared := sh }
      | .error _ => some { shared := sh.crash }
    | .dispatch requests single restShape =>
      some { shared := sh.add (newBatch ev.route ev.body requests single restShape)
             next := requests.mapIdx fun i raw => .handle sh.made i raw }

/-- The batches of all bodies, any number of them at once. -/
def batching : Program Batches Section Choice Arrival where
  exec := exec cfg lib
  enter := enter cfg lib

end Program

/-! ## What a section does

What a section changes of its own batch. It touches no other. -/

def Section.batch : Section → Nat
  | .handle k _ _ | .job k _ _ | .done k _ _ | .store k _ _ | .countDown k | .flush k | .send k _ => k

/-- `Does c x b b' made`: a section of a batch that raises nothing takes the batch `b` to `b'` and
leaves `made` to be done. -/
inductive Does (cfg : BridgeConfig) (lib : Nlohmann) (c : Choice) :
    Section → Batch → Batch → List Section → Prop
  | fills {k i : Nat} {raw response : Json} {b : Batch} {now : Bridge} :
      handleOne cfg lib c.bridge raw = .ok (.fill response, now) →
      Does cfg lib c (.handle k i raw) b b [.store k i response]
  | submits {k i : Nat} {raw : Json} {b : Batch} {job : Job} {now : Bridge} :
      handleOne cfg lib c.bridge raw = .ok (.submit job, now) →
      Does cfg lib c (.handle k i raw) b b [.job k i job]
  | invokes {k i : Nat} {b : Batch} {job : Job} : Does cfg lib c (.job k i job) b b [.done k i job]
  | completes {k i : Nat} {b : Batch} {job : Job} :
      Does cfg lib c (.job k i job) b b [.store k i (job.response c.told)]
  | answered {k i : Nat} {b : Batch} {job : Job} :
      Does cfg lib c (.done k i job) b b [.store k i (job.response c.told)]
  | stores {k i : Nat} {b : Batch} {response : Json} :
      Does cfg lib c (.store k i response) b (b.store i response) [.countDown k]
  | counts {k : Nat} {b : Batch} : b.remaining ≠ 1 →
      Does cfg lib c (.countDown k) b b.countDown []
  | last {k : Nat} {b : Batch} : b.remaining = 1 →
      Does cfg lib c (.countDown k) b b.countDown [.flush k]
  | takes {k : Nat} {b : Batch} : Does cfg lib c (.flush k) b b.taken [.send k b.slots]
  | sends {k : Nat} {b : Batch} {slots : List Json} {frame : Bytes} :
      Dispatcher.flush lib b.single b.restShape slots = .ok frame →
      Does cfg lib c (.send k slots) b (b.sentOff frame) []

/-- The two places an exception can come from. -/
def Section.Quiet (cfg : BridgeConfig) (lib : Nlohmann) (c : Choice) (b : Batch) : Section → Prop
  | .handle _ _ raw => JsonRpcBridge.Quiet (handleOne cfg lib c.bridge raw)
  | .send _ slots => JsonRpcBridge.Quiet (Dispatcher.flush lib b.single b.restShape slots)
  | _ => True

section

variable {cfg : BridgeConfig} {lib : Nlohmann}

theorem Batches.put_self {sh : Batches} {k : Nat} {b : Batch} (h : sh.batch k = some b) :
    sh.put k b = sh := by
  unfold Batches.put
  rw [← h, Function.update_eq_self]

/-! ### Each section does what it may

`exec` follows the source. Its branches are gone through here once, and the invariants of batches
are proved from `Does`. -/

theorem exec_does {sh : Batches} {x : Section} {c : Choice} {e : Effect Batches Section} {b : Batch}
    (hb : sh.batch x.batch = some b) (hquiet : x.Quiet cfg lib c b)
    (h : exec cfg lib sh x c = some e) :
    ∃ b' made, Does cfg lib c x b b' made ∧ e.shared = sh.put x.batch b' ∧ e.made = ↑made := by
  unfold exec at h
  split at h
  · cases h
  · cases x with
    | handle k i raw =>
        obtain ⟨⟨out, now⟩, hout⟩ := hquiet
        dsimp only at h
        rw [hout] at h
        cases out with
        | fill response =>
            cases h
            exact ⟨b, _, .fills hout, (Batches.put_self hb).symm, rfl⟩
        | submit job =>
            cases h
            exact ⟨b, _, .submits hout, (Batches.put_self hb).symm, rfl⟩
    | job k i job =>
        cases job with
        | call id t args timeoutMs =>
            cases h
            exact ⟨b, _, .invokes, (Batches.put_self hb).symm, rfl⟩
        | discover id openrpc =>
            cases h
            exact ⟨b, _, .completes, (Batches.put_self hb).symm, rfl⟩
        | subscribe id t sid =>
            cases h
            exact ⟨b, _, .completes, (Batches.put_self hb).symm, rfl⟩
    | done k i job =>
        cases h
        exact ⟨b, _, .answered, (Batches.put_self hb).symm, rfl⟩
    | store k i response =>
        -- from here on the section changes the batch itself
        have hb : sh.batch k = some b := hb
        dsimp only at h
        rw [hb] at h
        cases h
        exact ⟨_, _, .stores, rfl, rfl⟩
    | countDown k =>
        have hb : sh.batch k = some b := hb
        dsimp only at h
        rw [hb] at h
        by_cases hlast : b.remaining = 1
        · rw [Option.map_some, if_pos hlast] at h
          cases h
          exact ⟨_, _, .last hlast, rfl, rfl⟩
        · rw [Option.map_some, if_neg hlast] at h
          cases h
          exact ⟨_, _, .counts hlast, rfl, rfl⟩
    | flush k =>
        have hb : sh.batch k = some b := hb
        dsimp only at h
        rw [hb] at h
        cases h
        exact ⟨_, _, .takes, rfl, rfl⟩
    | send k slots =>
        have hb : sh.batch k = some b := hb
        obtain ⟨frame, hframe⟩ := hquiet
        dsimp only at h
        rw [hb, Option.map_some, sendOff, hframe] at h
        cases h
        exact ⟨_, _, .sends hframe, rfl, rfl⟩

/-- A section that raises ends the process. -/
theorem exec_cases {sh : Batches} {x : Section} {c : Choice} {e : Effect Batches Section} {b : Batch}
    (hb : sh.batch x.batch = some b) (h : exec cfg lib sh x c = some e) :
    (∃ b' made, Does cfg lib c x b b' made ∧ e.shared = sh.put x.batch b' ∧ e.made = ↑made) ∨
      (¬x.Quiet cfg lib c b ∧ e.shared = sh.crash ∧ e.made = 0) := by
  by_cases hquiet : x.Quiet cfg lib c b
  · exact .inl (exec_does hb hquiet h)
  refine .inr ⟨hquiet, ?_⟩
  unfold exec at h
  split at h
  · cases h
  cases x with
  | handle k i raw =>
      dsimp only at h
      cases hout : handleOne cfg lib c.bridge raw with
      | ok out => exact absurd ⟨out, hout⟩ hquiet
      | error err =>
          rw [hout] at h
          cases h
          exact ⟨rfl, rfl⟩
  | send k slots =>
      have hb : sh.batch k = some b := hb
      dsimp only at h
      rw [hb, Option.map_some, sendOff] at h
      cases hframe : flush lib b.single b.restShape slots with
      | ok frame => exact absurd ⟨frame, hframe⟩ hquiet
      | error err =>
          rw [hframe] at h
          cases h
          exact ⟨rfl, rfl⟩
  | _ => exact absurd trivial hquiet

/-- A section leaves only sections of its own batch, and a batch keeps its requests and its
shape. -/
theorem Does.keeps {c : Choice} {x : Section} {b b' : Batch} {made : List Section}
    (h : Does cfg lib c x b b' made) : (∀ y ∈ made, y.batch = x.batch) ∧
      b'.requests = b.requests ∧ b'.route = b.route ∧ b'.body = b.body ∧ b'.single = b.single ∧
      b'.restShape = b.restShape := by
  cases h with
  | counts _ => exact ⟨fun y hy => (List.not_mem_nil hy).elim, rfl, rfl, rfl, rfl, rfl⟩
  | sends _ => exact ⟨fun y hy => (List.not_mem_nil hy).elim, rfl, rfl, rfl, rfl, rfl⟩
  | _ => exact ⟨fun y hy => List.mem_singleton.mp hy ▸ rfl, rfl, rfl, rfl, rfl, rfl⟩

end

end JsonRpcBridge.Dispatcher
