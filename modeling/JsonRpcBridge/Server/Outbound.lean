import JsonRpcBridge.Config.Parse
import JsonRpcBridge.Server.Table

/-!
# The queue of one WebSocket

`send` and the writeable callback meet in `Conn::outbound`: any thread queues a frame under
`Conn::mu`, the service thread takes one out under it, writes without it, and keeps what lws left
under it again. `writer` has these critical sections, so that every other thread may run between
two of them.

* `Filled` is the invariant: what was written, what is left of the frame at hand and the queue are
  the accepted frames; and no frame is begun that a dropped one came before.
* `prefix_of_run`: a slow reader sees a prefix.
* `writeable_alone`: the sections of a callback, run without a break, are `serverWriteable`.
-/

namespace JsonRpcBridge.Server

/-- A frame that `send` came to the queue with. -/
structure Offer where
  frame : Bytes
  taken : Bool

/-- The frames that the queue took, in the order of the critical sections. -/
def accepted (os : List Offer) : List Bytes := (os.filter Offer.taken).map Offer.frame

/-- The critical section of `send`. -/
def Conn.offer (limit : Int) (c : Conn) (frame : Bytes) : Conn × Offer :=
  if (c.outbound.length : Int) ≥ limit then ({ c with wantClose := .policy }, ⟨frame, false⟩)
  else ({ c with outbound := c.outbound ++ [frame] }, ⟨frame, true⟩)

/-- The last critical section of `writeQueued`, after lws took `wrote` bytes. -/
def Conn.keep (c : Conn) (frame : Bytes) (offset wrote : Nat) : Conn :=
  if wrote < frame.length - offset then
    { c with partialFrame := frame, partialOffset := offset + wrote }
  else { c with partialFrame := [], partialOffset := 0 }

/-- One connection, and what went through it. -/
structure Outbound where
  conn : Conn
  /-- The connection is in the table. -/
  attached : Bool := true
  /-- The service thread is inside the writeable callback. -/
  serving : Bool := false
  /-- A callback told lws to close the socket. -/
  closed : Bool := false
  offers : List Offer := []
  /-- The frames given to `lws_write`, whole or in part. -/
  begun : List Bytes := []
  /-- The bytes that `lws_write` took. -/
  written : Bytes := []

/-- What a thread does to a connection without giving up a lock, or in one call to lws. -/
inductive Stage where
  /-- `send`, under `Conn::mu`. -/
  | enqueue (frame : Bytes)
  /-- The callback reads `wantClose`. -/
  | load
  /-- `writeQueued` takes a frame, or what is left of one. -/
  | pop
  | write (frame : Bytes) (offset : Nat)
  /-- `writeQueued` keeps what lws left. -/
  | keep (frame : Bytes) (offset wrote : Nat)

/-- The calls from outside. Every caller of `requestClose` names a reason. -/
inductive Call where
  | send (frame : Bytes)
  | requestClose (why : CloseReason)
  | writeable
  | detach

/-- `wrote` is what `lws_write` returns; `none` is a failure. -/
def Outbound.exec (limit : Int) (o : Outbound) (x : Stage) (wrote : Option Nat) :
    Option (Interleaving.Effect Outbound Stage) :=
  match x with
  | .enqueue frame =>
    let (c, offer) := o.conn.offer limit frame
    some { shared := { o with conn := c, offers := o.offers ++ [offer] } }
  | .load =>
    if o.conn.wantClose != .none then some { shared := { o with serving := false, closed := true } }
    else some { shared := o, next := [.pop] }
  | .pop =>
    if !o.conn.partialFrame.isEmpty then
      some { shared := o, next := [.write o.conn.partialFrame o.conn.partialOffset] }
    else
      match o.conn.outbound with
      | [] => some { shared := { o with serving := false } }
      | frame :: rest =>
        some
          { shared :=
              { o with conn := { o.conn with outbound := rest }, begun := o.begun ++ [frame] }
            next := [.write frame 0] }
  | .write frame offset =>
    match wrote with
    | none => some { shared := { o with serving := false, closed := true } }
    | some n =>
      if n ≤ frame.length - offset then
        some
          { shared := { o with written := o.written ++ (frame.drop offset).take n }
            next := [.keep frame offset n] }
      else none
  | .keep frame offset n =>
    some { shared := { o with conn := o.conn.keep frame offset n, serving := false } }

/-- `detach` and the writeable callback are both the service thread's, so neither starts inside
the other. -/
def Outbound.enter (o : Outbound) : Call → Option (Interleaving.Effect Outbound Stage)
  | .send frame => some { shared := o, next := if o.attached then [.enqueue frame] else [] }
  | .requestClose why =>
    if why = .none then none
    else some { shared := { o with conn := { o.conn with wantClose := why } } }
  | .writeable =>
    if o.attached && !o.serving && !o.closed then
      some { shared := { o with serving := true }, next := [.load] }
    else none
  | .detach => if o.serving then none else some { shared := { o with attached := false } }

def writer (limit : Int) : Interleaving.Program Outbound Stage (Option Nat) Call where
  exec := Outbound.exec limit
  enter := Outbound.enter

/-- A WebSocket that was just opened. -/
def Outbound.opened (id : Nat) (authenticated : Bool) (peer : Bytes) : Outbound where
  conn := { id := id, isWebsocket := true, authenticated := authenticated, peer := peer }

/-! ## The invariant

Three pieces in a row make up the accepted frames: those begun, the rest of the one at hand, and
the queue. A section moves a frame from one piece to the next. -/

/-- The sections of the service thread. -/
def Stage.isService : Stage → Bool
  | .enqueue _ => false
  | _ => true

/-- What is left to write of the frame at hand, when the service thread is at `stage`. -/
def Outbound.rest (o : Outbound) : Option Stage → Bytes
  | some (.write frame offset) => frame.drop offset
  | some (.keep frame offset wrote) => frame.drop (offset + wrote)
  | _ => o.conn.partialFrame.drop o.conn.partialOffset

/-- The service thread is at `stage`, of all that is pending. -/
def Outbound.At (o : Outbound) (p : Multiset Stage) (stage : Option Stage) : Prop :=
  p.filter (fun x => x.isService) = ↑stage.toList ∧ o.serving = stage.isSome

/-- Nothing that comes after a dropped frame is begun: the close is asked for, and a callback that
is past it takes what was in the queue then. -/
def Outbound.Honest (o : Outbound) (stage : Option Stage) : Prop :=
  ∀ before f after, o.offers = before ++ ⟨f, false⟩ :: after →
    o.conn.wantClose ≠ .none ∧ o.begun <+: accepted before ∧
      (stage = some .pop → o.begun.length < (accepted before).length)

/-- What was begun, what is left, and what was dropped. -/
structure Filled (limit : Int) (o : Outbound) (stage : Option Stage) : Prop where
  queue : o.begun ++ o.conn.outbound = accepted o.offers
  bounded : (o.conn.outbound.length : Int) ≤ limit
  written : o.written <+: o.begun.flatten
  left : o.closed = false → o.written ++ o.rest stage = o.begun.flatten
  honest : o.Honest stage

section Invariant

variable {limit : Int} {o : Outbound} {stage : Option Stage} {p : Multiset Stage}

theorem accepted_append (os os' : List Offer) :
    accepted (os ++ os') = accepted os ++ accepted os' := by
  simp [accepted]

/-- An element of a list with one more at its end is that one, or stood in the list before. -/
theorem append_singleton_eq_split {α : Type} {xs before after : List α} {x y : α}
    (h : xs ++ [x] = before ++ y :: after) :
    (before = xs ∧ y = x) ∨ ∃ rest, xs = before ++ y :: rest := by
  rcases List.eq_nil_or_concat after with rfl | ⟨rest, z, rfl⟩
  · obtain ⟨hxs, hxy⟩ := List.append_inj' h rfl
    exact .inl ⟨hxs.symm, (List.cons.inj hxy).1.symm⟩
  · rw [List.concat_eq_append, ← List.cons_append, ← List.append_assoc] at h
    exact .inr ⟨rest, (List.append_inj' h rfl).1⟩

/-- The one section of the service thread that is pending is the one that runs. -/
theorem Outbound.At.running {x : Stage} (h : o.At (x ::ₘ p) stage) (hx : x.isService = true) :
    stage = some x ∧ p.filter (fun x => x.isService = true) = 0 := by
  have hp := h.1
  rw [Multiset.filter_cons_of_pos p (p := fun x => x.isService = true) hx] at hp
  cases stage with
  | none => exact absurd hp (Multiset.cons_ne_zero)
  | some y =>
      obtain ⟨hy, hempty⟩ := (Multiset.singleton_eq_cons_iff _).mp hp.symm
      exact ⟨congrArg some hy, hempty⟩

/-- The service thread goes on to `stage`, or leaves the callback. -/
theorem Outbound.at_next {e : Interleaving.Effect Outbound Stage}
    (hp : p.filter (fun x => x.isService = true) = 0) (hnext : e.next = stage.toList)
    (hspawn : e.spawn = []) (hservice : ∀ x, stage = some x → x.isService = true)
    (hserving : e.shared.serving = stage.isSome) : e.shared.At (e.made + p) stage := by
  refine ⟨?_, hserving⟩
  have hmade : e.made = ↑stage.toList := by
    rw [Interleaving.Effect.made, hnext, hspawn, List.flatten_nil, List.append_nil]
  rw [hmade, Multiset.filter_add, hp, add_zero]
  cases stage with
  | none => rfl
  | some x => exact Multiset.filter_eq_self.mpr (by simpa using hservice x rfl)

/-! ### Section by section -/

theorem filled_opened (hlimit : 0 ≤ limit) (id : Nat) (authenticated : Bool) (peer : Bytes) :
    Filled limit (.opened id authenticated peer) none where
  queue := rfl
  bounded := hlimit
  written := List.prefix_rfl
  left _ := rfl
  honest before f after h := absurd h.symm (by simp [Outbound.opened])

/-- `send` queues a frame, or drops it and asks for the close. -/
theorem Filled.enqueue (hlimit : 0 < limit) (h : Filled limit o stage) (frame : Bytes) :
    Filled limit { o with
      conn := (o.conn.offer limit frame).1
      offers := o.offers ++ [(o.conn.offer limit frame).2] } stage := by
  have hrest (c : Conn) (os : List Offer) (hp : c.partialFrame = o.conn.partialFrame)
      (ho : c.partialOffset = o.conn.partialOffset) :
      { o with conn := c, offers := os }.rest stage = o.rest stage := by
    cases stage with
    | none => simp only [Outbound.rest, hp, ho]
    | some x => cases x <;> simp only [Outbound.rest, hp, ho]
  have hlen := congrArg List.length h.queue
  rw [List.length_append] at hlen
  by_cases hfull : (o.conn.outbound.length : Int) ≥ limit
  · rw [Conn.offer, if_pos hfull]
    have hqueue : o.begun ++ o.conn.outbound = accepted (o.offers ++ [⟨frame, false⟩]) := by
      rw [accepted_append, h.queue]
      exact (List.append_nil _).symm
    refine ⟨hqueue, h.bounded, h.written, fun hc => ?_, fun before f after hos => ⟨nofun, ?_⟩⟩
    · exact (congrArg (o.written ++ ·) (hrest _ _ rfl rfl)).trans (h.left hc)
    · rcases append_singleton_eq_split hos with ⟨rfl, -⟩ | ⟨rest, hold⟩
      · -- all that was begun was accepted before this frame, and the queue is not empty
        refine ⟨⟨o.conn.outbound, h.queue⟩, fun _ => ?_⟩
        show o.begun.length < _
        omega
      · exact (h.honest before f rest hold).2
  · rw [Conn.offer, if_neg hfull]
    have hqueue : o.begun ++ (o.conn.outbound ++ [frame]) =
        accepted (o.offers ++ [⟨frame, true⟩]) := by
      rw [accepted_append, ← h.queue, List.append_assoc]
      rfl
    refine ⟨hqueue, ?_, h.written, fun hc => ?_, fun before f after hos => ?_⟩
    · show ((o.conn.outbound ++ [frame]).length : Int) ≤ limit
      rw [List.length_append, List.length_singleton]
      omega
    · exact (congrArg (o.written ++ ·) (hrest _ _ rfl rfl)).trans (h.left hc)
    · rcases append_singleton_eq_split hos with ⟨-, hf⟩ | ⟨rest, hold⟩
      · cases hf
      · exact h.honest before f rest hold

/-- A section that leaves the queue and what was begun and written, and does not go on to take a
frame. -/
theorem Filled.pass (h : Filled limit o stage) {serving closed attached : Bool} {c : Conn}
    {stage' : Option Stage} (hqueue : c.outbound = o.conn.outbound)
    (hwant : o.conn.wantClose ≠ .none → c.wantClose ≠ .none)
    (hleft : closed = false → o.closed = false ∧
      { o with conn := c }.rest stage' = o.rest stage)
    (hpop : stage' = some .pop → stage = some .pop ∨ o.conn.wantClose = .none) :
    Filled limit { o with conn := c, serving := serving, closed := closed, attached := attached }
      stage' := by
  refine ⟨?_, ?_, h.written, fun hc => ?_, fun before f after hos => ?_⟩
  · rw [← h.queue, ← hqueue]
  · rw [show (_ : Conn).outbound = o.conn.outbound from hqueue]
    exact h.bounded
  · obtain ⟨hopen, hrest⟩ := hleft hc
    rw [← h.left hopen, ← hrest]
    rfl
  · obtain ⟨hasked, hbegun, hpopped⟩ := h.honest before f after hos
    refine ⟨hwant hasked, hbegun, fun hs => ?_⟩
    rcases hpop hs with hstage | hnone
    · exact hpopped hstage
    · exact absurd hnone hasked

/-- `writeQueued` takes the front of the queue. -/
theorem Filled.pop {frame : Bytes} {rest : List Bytes} (h : Filled limit o (some .pop))
    (hopen : o.closed = false) (hheld : o.conn.partialFrame = [])
    (hfront : o.conn.outbound = frame :: rest) :
    Filled limit { o with
      conn := { o.conn with outbound := rest }
      begun := o.begun ++ [frame] } (some (.write frame 0)) := by
  have hdone : o.written = o.begun.flatten := by
    have hleft := h.left hopen
    rw [show o.rest (some .pop) = o.conn.partialFrame.drop o.conn.partialOffset from rfl, hheld,
      List.drop_nil, List.append_nil] at hleft
    exact hleft
  have hflat : (o.begun ++ [frame]).flatten = o.written ++ frame := by
    rw [List.flatten_append, hdone]
    simp
  refine ⟨?_, ?_, ?_, fun _ => hflat.symm, fun before f after hos => ?_⟩
  · show (o.begun ++ [frame]) ++ rest = accepted o.offers
    rw [← h.queue, hfront, List.append_assoc]
    rfl
  · have hbound := h.bounded
    rw [hfront, List.length_cons] at hbound
    show (rest.length : Int) ≤ limit
    omega
  · exact ⟨frame, hflat.symm⟩
  · obtain ⟨hasked, hbegun, hpopped⟩ := h.honest before f after hos
    have hshort := hpopped rfl
    refine ⟨hasked, ?_, nofun⟩
    -- both are the first frames accepted
    have hall : o.begun ++ [frame] <+: accepted o.offers :=
      ⟨rest, by rw [← h.queue, hfront, List.append_assoc]; rfl⟩
    have hbefore : accepted before <+: accepted o.offers := by
      rw [hos, accepted_append]
      exact List.prefix_append _ _
    apply List.prefix_of_prefix_length_le hall hbefore
    rw [List.length_append, List.length_singleton]
    omega

/-- lws takes some of the bytes it is offered. -/
theorem Filled.write {frame : Bytes} {offset n : Nat}
    (h : Filled limit o (some (.write frame offset))) (hopen : o.closed = false) :
    Filled limit { o with written := o.written ++ (frame.drop offset).take n }
      (some (.keep frame offset n)) := by
  have hsplit : (o.written ++ (frame.drop offset).take n) ++ frame.drop (offset + n) =
      o.begun.flatten := by
    rw [List.append_assoc, ← List.drop_drop, List.take_append_drop]
    exact h.left hopen
  exact ⟨h.queue, h.bounded, ⟨_, hsplit⟩, fun _ => hsplit, fun before f after hos =>
    ⟨(h.honest before f after hos).1, (h.honest before f after hos).2.1, nofun⟩⟩

/-- What lws left is kept. -/
theorem rest_keep {frame : Bytes} {offset n : Nat} :
    { o with conn := o.conn.keep frame offset n }.rest none = frame.drop (offset + n) := by
  unfold Conn.keep
  split_ifs with hshort
  · rfl
  · have hlen : frame.length ≤ offset + n := by omega
    rw [List.drop_eq_nil_of_le hlen]
    rfl

end Invariant

/-! ## Runs

The frames are accepted under the lock in the order they are queued, and one service thread takes
them out. -/

/-- The service thread is at some stage, and the invariant holds there. -/
def Held (limit : Int) (o : Outbound) (p : Multiset Stage) : Prop :=
  ∃ stage, o.At p stage ∧ Filled limit o stage ∧ (stage ≠ none → o.closed = false)

section Runs

variable {limit : Int} {o : Outbound} {p : Multiset Stage}

theorem Held.exec (hlimit : 0 < limit) {x : Stage} {wrote : Option Nat}
    {e : Interleaving.Effect Outbound Stage} (h : Held limit o (x ::ₘ p))
    (he : o.exec limit x wrote = some e) : Held limit e.shared (e.made + p) := by
  obtain ⟨stage, hat, hfilled, hopen⟩ := h
  cases x with
  -- any thread may put a frame at the end of the queue while the service thread is at its own
  | enqueue frame =>
      cases he
      refine ⟨stage, ⟨?_, hat.2⟩, hfilled.enqueue hlimit frame, hopen⟩
      have hp := hat.1
      rw [Multiset.filter_cons_of_neg p (p := fun x => x.isService = true)
        (by simp [Stage.isService])] at hp
      rw [← hp]
      exact congrArg _ (zero_add p)
  -- the rest is the service thread's, and there is one such section at a time
  | load =>
      obtain ⟨rfl, hp⟩ := hat.running rfl
      simp only [Outbound.exec] at he
      split_ifs at he with hasked
      · cases he
        refine ⟨none, Outbound.at_next hp rfl rfl nofun rfl, ?_, fun hs => absurd rfl hs⟩
        exact hfilled.pass rfl id nofun nofun
      · cases he
        have hnone : o.conn.wantClose = .none := by simpa using hasked
        refine ⟨some .pop, Outbound.at_next hp rfl rfl (by simp [Stage.isService]) hat.2, ?_,
          fun _ => hopen nofun⟩
        exact hfilled.pass rfl id (fun hc => ⟨hc, rfl⟩) fun _ => .inr hnone
  | pop =>
      obtain ⟨rfl, hp⟩ := hat.running rfl
      simp only [Outbound.exec] at he
      split_ifs at he with hheld
      · cases he
        refine ⟨some (.write o.conn.partialFrame o.conn.partialOffset),
          Outbound.at_next hp rfl rfl (by simp [Stage.isService]) hat.2, ?_, fun _ => hopen nofun⟩
        exact hfilled.pass rfl id (fun hc => ⟨hc, rfl⟩) fun hx => by cases hx
      · split at he
        · cases he
          refine ⟨none, Outbound.at_next hp rfl rfl nofun rfl, ?_, fun hs => absurd rfl hs⟩
          exact hfilled.pass rfl id (fun hc => ⟨hc, rfl⟩) fun hx => by cases hx
        · rename_i frame rest hfront
          cases he
          refine ⟨some (.write frame 0), Outbound.at_next hp rfl rfl (by simp [Stage.isService])
            hat.2, ?_, fun _ => hopen nofun⟩
          exact hfilled.pop (hopen nofun) (by simpa using hheld) hfront
  | write frame offset =>
      obtain ⟨rfl, hp⟩ := hat.running rfl
      simp only [Outbound.exec] at he
      split at he
      · cases he
        refine ⟨none, Outbound.at_next hp rfl rfl nofun rfl, ?_, fun hs => absurd rfl hs⟩
        exact hfilled.pass rfl id nofun nofun
      · rename_i n
        split_ifs at he with hn
        cases he
        refine ⟨some (.keep frame offset n), Outbound.at_next hp rfl rfl
          (by simp [Stage.isService]) hat.2, ?_, fun _ => hopen nofun⟩
        exact hfilled.write (hopen nofun)
  | keep frame offset n =>
      obtain ⟨rfl, hp⟩ := hat.running rfl
      cases he
      refine ⟨none, Outbound.at_next hp rfl rfl nofun rfl, ?_, fun hs => absurd rfl hs⟩
      refine hfilled.pass ?_ (fun hasked => ?_) (fun hc => ⟨hc, rest_keep⟩) nofun
      · unfold Conn.keep
        split_ifs <;> rfl
      · unfold Conn.keep
        split_ifs <;> exact hasked

theorem Held.enter {ev : Call} {e : Interleaving.Effect Outbound Stage} (h : Held limit o p)
    (he : o.enter ev = some e) : Held limit e.shared (e.made + p) := by
  obtain ⟨stage, hat, hfilled, hopen⟩ := h
  cases ev with
  | send frame =>
      cases he
      refine ⟨stage, ⟨?_, hat.2⟩, hfilled, hopen⟩
      rw [← hat.1, Multiset.filter_add]
      cases o.attached with
      | true =>
          have hmade : (({ shared := o, next := [.enqueue frame] } :
              Interleaving.Effect Outbound Stage).made).filter (fun x => x.isService = true) = 0 :=
            Multiset.filter_eq_nil.mpr (by simp [Interleaving.Effect.made, Stage.isService])
          exact (congrArg (· + _) hmade).trans (zero_add _)
      | false => exact zero_add _
  -- once a close is asked for, no frame is begun any more
  | requestClose why =>
      simp only [Outbound.enter] at he
      split_ifs at he with hwhy
      cases he
      refine ⟨stage, ⟨?_, hat.2⟩, ?_, hopen⟩
      · rw [← hat.1]
        exact congrArg _ (zero_add p)
      · refine hfilled.pass rfl (fun _ => hwhy) (fun hc => ⟨hc, ?_⟩) .inl
        cases stage with
        | none => rfl
        | some x => cases x <;> rfl
  | writeable =>
      simp only [Outbound.enter] at he
      split_ifs at he with hfree
      cases he
      simp only [Bool.and_eq_true, Bool.not_eq_true'] at hfree
      obtain ⟨⟨-, hserving⟩, hclosed⟩ := hfree
      obtain rfl : stage = none := by
        have := hat.2
        rw [hserving] at this
        simpa using this.symm
      refine ⟨some .load, Outbound.at_next hat.1 rfl rfl (by simp [Stage.isService]) rfl, ?_,
        fun _ => hclosed⟩
      exact hfilled.pass rfl id (fun hc => ⟨hc, rfl⟩) fun hx => by cases hx
  | detach =>
      simp only [Outbound.enter] at he
      split_ifs at he with hserving
      cases he
      refine ⟨stage, ⟨?_, hat.2⟩, ?_, hopen⟩
      · rw [← hat.1]
        exact congrArg _ (zero_add p)
      · exact hfilled.pass rfl id (fun hc => ⟨hc, rfl⟩) .inl

theorem held_of_run (hlimit : 0 < limit) {id : Nat} {authenticated : Bool} {peer : Bytes}
    {s : Interleaving.State Outbound Stage} (hrun : Interleaving.Run (writer limit)
      Interleaving.Guard.any { shared := .opened id authenticated peer } s) :
    Held limit s.shared s.pending := by
  refine Interleaving.Run.invariant (I := Held limit) ?_ (fun h _ he => h.exec hlimit he)
    (fun h _ he => h.enter he) hrun
  exact ⟨none, ⟨rfl, rfl⟩, filled_opened hlimit.le id authenticated peer, fun hs => absurd rfl hs⟩

end Runs

/-- **A slow reader sees a prefix.** In every state of every run the bytes written are the first
ones of the accepted frames, the queue is within its bound, and what was written after a frame was
dropped had all been accepted before it. -/
theorem prefix_of_run (lib : Nlohmann) (own text : Bytes) (cfg : BridgeConfig)
    (hcfg : parseBridgeConfig lib own text = .ok cfg) (id : Nat) (authenticated : Bool)
    (peer : Bytes) (s : Interleaving.State Outbound Stage)
    (hrun : Interleaving.Run (writer cfg.limits.maxQueuedFramesPerConnection)
      Interleaving.Guard.any { shared := .opened id authenticated peer } s) :
    s.shared.written <+: (accepted s.shared.offers).flatten ∧
    (s.shared.conn.outbound.length : Int) ≤ cfg.limits.maxQueuedFramesPerConnection ∧
    ∀ before f after, s.shared.offers = before ++ ⟨f, false⟩ :: after →
      s.shared.begun <+: accepted before ∧ s.shared.written <+: (accepted before).flatten := by
  have hlimit : 0 < cfg.limits.maxQueuedFramesPerConnection :=
    (accepted_of_parse hcfg).positive (str "max_queued_frames_per_connection", _)
      (by simp [Limits.named])
  obtain ⟨stage, -, hfilled, -⟩ := held_of_run hlimit hrun
  refine ⟨?_, hfilled.bounded, fun before f after hos => ?_⟩
  · rw [← hfilled.queue, List.flatten_append]
    exact hfilled.written.trans (List.prefix_append _ _)
  · obtain ⟨-, hbegun, -⟩ := hfilled.honest before f after hos
    refine ⟨hbegun, hfilled.written.trans ?_⟩
    obtain ⟨later, hlater⟩ := hbegun
    rw [← hlater, List.flatten_append]
    exact List.prefix_append _ _

/-! ## The sections run without a break

`writer` splits `send` and the callback at their locks. Run from end to end, the sections do what
the functions of `WsServer` do. -/

/-- `WsServer.send` is the lookup, the critical section and the wake. -/
theorem send_eq_offer (cfg : BridgeConfig) (s : WsServer) (id : Nat) (frame : Bytes) :
    s.send cfg id frame =
      match s.socketOf id with
      | none => s
      | some wsi =>
        (s.update id fun c =>
          (c.offer cfg.limits.maxQueuedFramesPerConnection frame).1).wake wsi := by
  unfold WsServer.send
  cases s.socketOf id with
  | none => rfl
  | some wsi =>
      have hsame : (fun c : Conn =>
          (c.offer cfg.limits.maxQueuedFramesPerConnection frame).1) = fun c =>
          if (c.outbound.length : Int) ≥ cfg.limits.maxQueuedFramesPerConnection then
            { c with wantClose := .policy }
          else { c with outbound := c.outbound ++ [frame] } := by
        funext c
        unfold Conn.offer
        split_ifs <;> rfl
      rw [hsame]

/-! ### The writeable callback

A callback that runs alone is a chain of sections, each begun by the one before. -/

/-- What the next write offers. -/
def Conn.offered (c : Conn) : Bytes :=
  if !c.partialFrame.isEmpty then c.partialFrame.drop c.partialOffset else c.outbound.headD []

/-- The bytes of the frames that a callback hands to lws. -/
def framesOf (outputs : List Output) : Bytes :=
  outputs.flatMap fun
    | .frame taken => taken
    | _ => []

/-- The service thread at `x`, and no other thread. -/
def alone (o : Outbound) (x : Stage) : Interleaving.State Outbound Stage :=
  { shared := o, threads := [[x]] }

variable {limit : Int} {o o' : Outbound} {x y : Stage} {wrote : Option Nat}

theorem replay_alone {ms : List (Interleaving.Move (Option Nat) Call)}
    (he : o.exec limit x wrote = some { shared := o', next := [y] }) :
    (writer limit).replay (alone o x) (.run 0 wrote :: ms) =
      (writer limit).replay (alone o' y) ms := by
  simp [Interleaving.Program.replay, Interleaving.Program.replayIf, Interleaving.Program.step,
    writer, alone, he]

theorem replay_alone_last (he : o.exec limit x wrote = some { shared := o' }) :
    (writer limit).replay (alone o x) [.run 0 wrote] =
      some { shared := o', threads := [[]] } := by
  simp [Interleaving.Program.replay, Interleaving.Program.replayIf, Interleaving.Program.step,
    writer, alone, he]

/-- `writeQueued`, once it has a frame. -/
def WsServer.writeFrame (s : WsServer) (v : Lws) (a : Answers) (c : Conn) (frame : Bytes)
    (offset : Nat) : Outcome :=
  match a.wrote with
  | none => { server := s.put v.wsi c, ret := -1 }
  | some n =>
    { server := s.put v.wsi (c.keep frame offset n)
      outputs := [.frame ((frame.drop offset).take n)] }

theorem writeQueued_eq (s : WsServer) (v : Lws) (a : Answers) (c : Conn) :
    s.writeQueued v a c =
      if !c.partialFrame.isEmpty then s.writeFrame v a c c.partialFrame c.partialOffset
      else
        match c.outbound with
        | [] => { server := s }
        | frame :: rest => s.writeFrame v a { c with outbound := rest } frame 0 := by
  unfold WsServer.writeQueued
  split_ifs with hheld
  · unfold WsServer.writeFrame
    cases a.wrote <;> rfl
  · cases c.outbound with
    | nil => rfl
    | cons frame rest =>
        unfold WsServer.writeFrame
        cases a.wrote <;> rfl

/-- What the sections from `x` on leave is what a callback leaves. -/
def Agrees (limit : Int) (o : Outbound) (x : Stage) (v : Lws) (out : Outcome) : Prop :=
  ∃ ms o', (writer limit).replay (alone o x) ms = some { shared := o', threads := [[]] } ∧
    out.server.lookup v.wsi = some o'.conn ∧ o'.closed = decide (out.ret ≠ 0) ∧
    o'.written = o.written ++ framesOf out.outputs

theorem agrees_write (s : WsServer) (v : Lws) (a : Answers) {frame : Bytes} {offset : Nat}
    (hopen : o.closed = false) (hwrote : ∀ n, a.wrote = some n → n ≤ frame.length - offset) :
    Agrees limit o (.write frame offset) v (s.writeFrame v a o.conn frame offset) := by
  unfold WsServer.writeFrame
  cases hw : a.wrote with
  | none =>
      refine ⟨[.run 0 none], _, replay_alone_last rfl, ?_, rfl, (List.append_nil _).symm⟩
      exact (s.lookup_put v.wsi _ v.wsi).trans (if_pos rfl)
  | some n =>
      have hn := hwrote n hw
      have hwritten : o.exec limit (.write frame offset) (some n) =
          some { shared := { o with written := o.written ++ (frame.drop offset).take n }
                 next := [.keep frame offset n] } := by
        simp [Outbound.exec, hn]
      refine ⟨[.run 0 (some n), .run 0 none], _,
        (replay_alone hwritten).trans (replay_alone_last rfl), ?_, hopen, ?_⟩
      · exact (s.lookup_put v.wsi _ v.wsi).trans (if_pos rfl)
      · simp [framesOf]

theorem Agrees.before {v : Lws} {out : Outcome} (h : Agrees limit o' y v out)
    (he : o.exec limit x none = some { shared := o', next := [y] })
    (hsame : o'.written = o.written) : Agrees limit o x v out := by
  obtain ⟨ms, o'', hms, hlookup, hclosed, hwritten⟩ := h
  exact ⟨.run 0 none :: ms, o'', (replay_alone he).trans hms, hlookup, hclosed, hsame ▸ hwritten⟩

/-- The writeable callback of the transport is its sections run one after another. -/
theorem writeable_alone (s : WsServer) (v : Lws) (a : Answers)
    (hc : s.lookup v.wsi = some o.conn) (hopen : o.closed = false)
    (hwrote : ∀ n, a.wrote = some n → n ≤ o.conn.offered.length) :
    Agrees limit { o with serving := true } .load v (s.serverWriteable v a) := by
  unfold WsServer.serverWriteable
  rw [hc]
  by_cases hasked : o.conn.wantClose = .none
  · have hload : Outbound.exec limit { o with serving := true } .load none =
        some { shared := { o with serving := true }, next := [.pop] } := by
      simp [Outbound.exec, hasked]
    simp only [hasked, bne_self_eq_false, Bool.false_eq_true, if_false]
    refine Agrees.before ?_ hload rfl
    -- what is left of a frame goes before the next one
    rw [writeQueued_eq]
    split_ifs with hheld
    · have hpop : Outbound.exec limit { o with serving := true } .pop none =
          some { shared := { o with serving := true }
                 next := [.write o.conn.partialFrame o.conn.partialOffset] } := by
        simp only [Outbound.exec, hheld, if_true]
      refine Agrees.before (agrees_write (o := { o with serving := true }) s v a hopen
        fun n hn => ?_) hpop rfl
      have hle := hwrote n hn
      rw [Conn.offered, if_pos hheld, List.length_drop] at hle
      exact hle
    · cases hfront : o.conn.outbound with
      | nil =>
          refine ⟨[.run 0 none], { o with serving := false }, ?_, hc, hopen, ?_⟩
          · apply replay_alone_last
            simp [Outbound.exec, hheld, hfront]
          · exact (List.append_nil _).symm
      | cons frame rest =>
          have hpop : Outbound.exec limit { o with serving := true } .pop none =
              some
                { shared :=
                    { o with
                      serving := true
                      conn := { o.conn with outbound := rest }
                      begun := o.begun ++ [frame] }
                  next := [.write frame 0] } := by
            simp [Outbound.exec, hheld, hfront]
          refine Agrees.before (agrees_write s v a (by exact hopen) fun n hn => ?_) hpop rfl
          have hle := hwrote n hn
          rw [Conn.offered, if_neg hheld, hfront] at hle
          exact hle
  · refine ⟨[.run 0 none], { o with serving := false, closed := true }, ?_, ?_⟩
    · apply replay_alone_last
      simp [Outbound.exec, hasked]
    · simp [hasked, hc, framesOf]

/-! ## A run

One frame is written in part, the next is dropped, and a third is accepted and never written. -/

/-- `{"expose":{"modules":["m1"]},"limits":{"max_queued_frames_per_connection":1}}`, and its
value. -/
def oneQueuedText : Bytes := str
  "\x7b\"expose\":\x7b\"modules\":[\"m1\"]\x7d,\"limits\":\x7b\"max_queued_frames_per_connection\":1\x7d\x7d"

def oneQueuedJson : Json :=
  Json.object [(str "expose", Json.object [(str "modules", .arr [.str (str "m1")])]),
    (str "limits", Json.object [(str "max_queued_frames_per_connection", .uint 1)])]

def oneQueuedLib : Nlohmann := .only oneQueuedText oneQueuedJson (by decide)

def oneQueuedConfig : BridgeConfig :=
  { modules := [{ name := str "m1" }], limits := { maxQueuedFramesPerConnection := 1 } }

/-- A frame is dropped while the callback is past the load; the next is queued again, but never
written. -/
def droppedBetween : List (Interleaving.Move (Option Nat) Call) :=
  [.enter (.send (str "first")), .run 0 none,
   .enter .writeable, .run 1 none,
   .enter (.send (str "dropped")), .run 2 none,
   .run 1 none,
   .enter (.send (str "late")), .run 3 none,
   .run 1 (some 2), .run 1 none,
   .enter .writeable, .run 4 none]

theorem prefix_of_run_dropped : ∃ s : Interleaving.State Outbound Stage,
    (s.shared.written = str "fi" ∧ s.shared.closed = true ∧
      accepted s.shared.offers = [str "first", str "late"]) ∧
    s.shared.written <+: (accepted s.shared.offers).flatten := by
  have hmoves : ((writer oneQueuedConfig.limits.maxQueuedFramesPerConnection).replay
      { shared := .opened 1 true [] } droppedBetween).map (fun s =>
        (s.shared.written, s.shared.closed, accepted s.shared.offers)) =
      some (str "fi", true, [str "first", str "late"]) := by rfl
  obtain ⟨s, hs, hend⟩ := Option.map_eq_some_iff.mp hmoves
  simp only [Prod.mk.injEq] at hend
  exact ⟨s, hend, (prefix_of_run oneQueuedLib (str "json_rpc_bridge") oneQueuedText oneQueuedConfig
    (by rfl) 1 true [] s (Interleaving.Run.start.replay hs)).1⟩

end JsonRpcBridge.Server
