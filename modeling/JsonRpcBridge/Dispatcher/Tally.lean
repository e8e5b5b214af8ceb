import JsonRpcBridge.Dispatcher.Batch

/-!
# The count of a batch

A batch counts the slots it waits for, and sends its frame when the count is down to zero. `Tally`
says so of a batch and its own pending sections, whatever its responses hold: each slot is waited for
by one section, and one section at most has the frame, until it is out. So no batch sends a second
frame (`Tally.sent_le_one`).
-/

namespace JsonRpcBridge.Dispatcher

open Interleaving Subscriptions

/-- How far a section has come with its slot, or with its batch. -/
inductive Phase where
  | filling
  | counting
  | flushing
  | sending
  deriving DecidableEq

def Section.phase : Section → Phase
  | .handle _ _ _ | .job _ _ _ | .done _ _ _ | .store _ _ _ => .filling
  | .countDown _ => .counting
  | .flush _ => .flushing
  | .send _ _ => .sending

@[simp] theorem Section.phase_store (k i : Nat) (response : Json) :
    (Section.store k i response).phase = .filling := rfl
@[simp] theorem Section.phase_countDown (k : Nat) : (Section.countDown k).phase = .counting := rfl
@[simp] theorem Section.phase_flush (k : Nat) : (Section.flush k).phase = .flushing := rfl
@[simp] theorem Section.phase_send (k : Nat) (slots : List Json) :
    (Section.send k slots).phase = .sending := rfl

/-- How many of the sections are in a phase. -/
def toDo (t : Phase) (q : Multiset Section) : Nat := carried (fun x => some x.phase) t q

@[simp] theorem toDo_zero (t : Phase) : toDo t 0 = 0 := carried_zero

@[simp] theorem toDo_cons (t : Phase) (x : Section) (q : Multiset Section) :
    toDo t (x ::ₘ q) = toDo t q + if x.phase = t then 1 else 0 := by
  rw [toDo, carried_cons, toDo]
  simp only [Option.some.injEq]

theorem toDo_handles (t : Phase) (k : Nat) (requests : List Json) :
    toDo t ↑(requests.mapIdx fun i raw => Section.handle k i raw) =
      if t = .filling then requests.length else 0 := by
  induction requests using List.reverseRecOn with
  | nil => simp [toDo]
  | append_singleton requests raw ih =>
      rw [List.mapIdx_concat, toDo, carried_coe_append, ← toDo, ih, List.length_append,
        List.length_singleton]
      show _ + carried _ t {Section.handle k requests.length raw} = _
      rw [carried_singleton]
      show _ + (if some Phase.filling = some t then 1 else 0) = _
      simp only [Option.some.injEq, eq_comm (a := t)]
      split_ifs <;> omega

/-- The pending sections of batch `k`. -/
def mine (k : Nat) (p : Multiset Section) : Multiset Section := p.filter fun x => x.batch = k

section

variable {cfg : BridgeConfig} {lib : Nlohmann} {c : Choice} {b b' : Batch} {p q : Multiset Section}
  {x y : Section} {k : Nat} {made : List Section}

/-! ### The sections of one batch

A step of one batch takes out a section of it and adds sections of it; the sections of the others
stay where they are. -/

@[simp] theorem mine_add (k : Nat) (p q : Multiset Section) : mine k (p + q) = mine k p + mine k q :=
  Multiset.filter_add _ p q

theorem mine_of_forall {p : Multiset Section} (h : ∀ x ∈ p, x.batch = k) : mine k p = p :=
  Multiset.filter_eq_self.mpr h

theorem mine_of_none {p : Multiset Section} (h : ∀ x ∈ p, x.batch ≠ k) : mine k p = 0 :=
  Multiset.filter_eq_nil.mpr h

theorem mine_cons_of_ne {p : Multiset Section} (h : x.batch ≠ k) : mine k (x ::ₘ p) = mine k p :=
  Multiset.filter_cons_of_neg p h

theorem mine_cons_self (x : Section) (p : Multiset Section) :
    mine x.batch (x ::ₘ p) = x ::ₘ mine x.batch p :=
  Multiset.filter_cons_of_pos p rfl

/-! ## One batch

Each section takes one unit of work from the batch to the next phase, or out of it. -/

/-- `q` are the pending sections of the batch `b`. -/
structure Tally (b : Batch) (q : Multiset Section) : Prop where
  remaining : b.remaining = toDo .filling q + toDo .counting q
  closing : toDo .flushing q + toDo .sending q + b.sent.length = if b.remaining = 0 then 1 else 0

theorem Tally.sent_le_one (h : Tally b q) : b.sent.length ≤ 1 := by
  have hclosing := h.closing
  split_ifs at hclosing <;> omega

/-- A section that hands its slot on to another. -/
theorem Tally.relay (h : Tally b (x ::ₘ q)) (hphase : y.phase = x.phase) : Tally b (y ::ₘ q) := by
  have hcount : ∀ t, toDo t (y ::ₘ q) = toDo t (x ::ₘ q) := by
    intro t
    rw [toDo_cons, toDo_cons, hphase]
  refine ⟨?_, ?_⟩
  · rw [hcount, hcount]
    exact h.remaining
  · rw [hcount, hcount]
    exact h.closing

theorem Tally.store {i : Nat} {response : Json} (h : Tally b (.store k i response ::ₘ q)) :
    Tally (b.store i response) (.countDown k ::ₘ q) := by
  obtain ⟨hremaining, hclosing⟩ := h
  simp at hremaining hclosing
  refine ⟨?_, ?_⟩
  · show b.remaining = _
    simp
    omega
  · show _ = if b.remaining = 0 then 1 else 0
    rw [← hclosing]
    simp [Batch.store]

theorem Tally.counts (h : Tally b (.countDown k ::ₘ q)) (hmore : b.remaining ≠ 1) :
    Tally b.countDown q := by
  obtain ⟨hremaining, hclosing⟩ := h
  simp at hremaining hclosing
  refine ⟨?_, ?_⟩
  · show b.remaining - 1 = _
    omega
  · show _ + b.sent.length = if b.remaining - 1 = 0 then 1 else 0
    rw [if_neg (by omega)]
    rwa [if_neg (by omega)] at hclosing

theorem Tally.last (h : Tally b (.countDown k ::ₘ q)) (hlast : b.remaining = 1) :
    Tally b.countDown (.flush k ::ₘ q) := by
  obtain ⟨hremaining, hclosing⟩ := h
  simp at hremaining hclosing
  refine ⟨?_, ?_⟩
  · show b.remaining - 1 = _
    simp
    omega
  · show _ + b.sent.length = if b.remaining - 1 = 0 then 1 else 0
    rw [if_pos (by omega)]
    rw [if_neg (by omega)] at hclosing
    simp
    omega

/-- The frame is taken when nothing is waited for any more. -/
theorem Tally.flush (h : Tally b (.flush k ::ₘ q)) :
    Tally b.taken (.send k b.slots ::ₘ q) ∧ b.remaining = 0 := by
  obtain ⟨hremaining, hclosing⟩ := h
  simp at hremaining hclosing
  have hzero : b.remaining = 0 := by
    by_contra hne
    rw [if_neg hne] at hclosing
    omega
  rw [if_pos hzero] at hclosing
  refine ⟨⟨?_, ?_⟩, hzero⟩
  · show b.remaining = _
    simpa using hremaining
  · show _ + b.sent.length = if b.remaining = 0 then 1 else 0
    rw [if_pos hzero]
    simp
    omega

theorem Tally.send {slots : List Json} (h : Tally b (.send k slots ::ₘ q)) (frame : Bytes) :
    Tally (b.sentOff frame) q := by
  obtain ⟨hremaining, hclosing⟩ := h
  simp at hremaining hclosing
  refine ⟨hremaining, ?_⟩
  show _ = if b.remaining = 0 then 1 else 0
  rw [← hclosing]
  simp [Batch.sentOff]
  omega

/-- **Step.** -/
theorem Does.tally (hdoes : Does cfg lib c x b b' made) (h : Tally b (x ::ₘ q)) :
    Tally b' (↑made + q) := by
  cases hdoes with
  | fills | submits | invokes | completes | answered => exact h.relay rfl
  | stores => exact h.store
  | counts hmore =>
      rw [Multiset.coe_nil, zero_add]
      exact h.counts hmore
  | last hlast => exact h.last hlast
  | takes => exact h.flush.1
  | sends =>
      rw [Multiset.coe_nil, zero_add]
      exact h.send _

theorem tally_newBatch {route body : Bytes} {requests : List Json} {single restShape : Bool}
    (hne : requests ≠ []) (k : Nat) : Tally (newBatch route body requests single restShape)
      ↑(requests.mapIdx fun i raw => Section.handle k i raw) := by
  have hlength : requests.length ≠ 0 := fun hnil => hne (List.length_eq_zero_iff.mp hnil)
  refine ⟨?_, ?_⟩
  · rw [toDo_handles, toDo_handles]
    rfl
  · rw [toDo_handles, toDo_handles]
    show 0 = if requests.length = 0 then 1 else 0
    rw [if_neg hlength]

end

end JsonRpcBridge.Dispatcher
