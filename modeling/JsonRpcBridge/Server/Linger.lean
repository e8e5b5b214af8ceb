import JsonRpcBridge.Config.Parse
import JsonRpcBridge.Server.Transport

/-!
# Sockets that linger

A request whose body the bridge does not read is answered with `Connection: close`, and lws closes the
socket at once. A copy of its descriptor keeps it open meanwhile, so that the peer can read the
answer: `linger` makes the copy, and a timer of lws drops what the peer still sends until it closes
or five seconds are over.

* `Tended` is the invariant: the copies that are open are those in `m_lingering`, and the timer is
  armed early enough for each of them.
* `lingering_of_run`: over every run there are sixteen at most, none is closed twice or left open, and
  none outlives its deadline by more than a tick and what lws is late.
-/

namespace JsonRpcBridge.Server

open Interleaving

/-! ## The model

`linger`, its timer and `stop`, on the service thread. The system is a parameter at each step:
what `dup` returns and what every `recv` answers. -/

/-- `kLingerUs`. -/
def lingerUs : Nat := 5 * 1000000

/-- `kLingerTickUs`. -/
def lingerTickUs : Nat := 20 * 1000

/-- `kLingerReadsPerTick`. -/
def lingerReadsPerTick : Nat := 16

/-- `kMaxLingering`. -/
def maxLingering : Nat := 16

/-- What `recv` may answer: some bytes, the end, `EAGAIN` and its like, or another error. -/
inductive Recv where
  | data
  | eof
  | again
  | failed

structure Lingering where
  fd : Nat
  /-- `until` in the source. -/
  deadline : Nat

/-- What the system answers in one call of `linger`: whether lws holds a part of the answer, what
`dup` returns, and what `recv` does on a descriptor the first time, the second time, and so on. -/
structure Kernel where
  buffered : Bool := false
  dup : Option Nat := none
  recv : Nat → Nat → Recv := fun _ _ => .again

/-- The service thread. `held` are the copies that the system has open; a call of `close` on any
other descriptor goes into `unheld`. -/
structure Closing where
  world : World := {}
  now : Nat := 0
  running : Bool := true
  lingering : List Lingering := []
  timer : Option Nat := none
  held : List Nat := []
  unheld : List Nat := []

/-- The reads of one descriptor, `left` at most; `true` when it is done with. -/
def readsDone (recv : Nat → Recv) : (left i : Nat) → Bool
  | 0, _ => false
  | left + 1, i =>
    match recv i with
    | .data => readsDone recv left (i + 1)
    | .eof | .failed => true
    | .again => false

/-- The loop of `drainLingering`: the sockets it keeps, and the descriptors it closes. -/
def drainLoop (now : Nat) (closeAll : Bool) (recv : Nat → Nat → Recv) :
    List Lingering → List Lingering × List Nat
  | [] => ([], [])
  | l :: rest =>
    let done := closeAll || decide (l.deadline ≤ now) || readsDone (recv l.fd) lingerReadsPerTick 0
    let (kept, closed) := drainLoop now closeAll recv rest
    if done then (kept, l.fd :: closed) else (l :: kept, closed)

namespace Closing

/-- `::close`. -/
def close (s : Closing) (fd : Nat) : Closing :=
  if fd ∈ s.held then { s with held := s.held.erase fd } else { s with unheld := fd :: s.unheld }

def drainLingering (s : Closing) (closeAll : Bool) (recv : Nat → Nat → Recv) : Closing :=
  let (kept, closed) := drainLoop s.now closeAll recv s.lingering
  closed.foldl close { s with lingering := kept }

/-- The first line of `linger`. -/
def reap (s : Closing) (recv : Nat → Nat → Recv) : Closing :=
  if s.lingering.length ≥ maxLingering then s.drainLingering false recv else s

/-- `lws_sul_schedule`. -/
def schedule (s : Closing) : Closing := { s with timer := some (s.now + lingerTickUs) }

/-- The copy `fd` begins to linger. -/
def keepOpen (s : Closing) (fd : Nat) : Closing :=
  { s with
    held := fd :: s.held
    lingering := s.lingering ++ [{ fd := fd, deadline := s.now + lingerUs }] }

def linger (s : Closing) (k : Kernel) : Closing :=
  let s := s.reap k.recv
  if k.buffered || decide (s.lingering.length ≥ maxLingering) then s
  else
    match k.dup with
    | none => s
    | some fd =>
      let s := s.keepOpen fd
      if s.lingering.length = 1 then s.schedule else s

def onLingerTimer (s : Closing) (recv : Nat → Nat → Recv) : Closing :=
  let s := { s with timer := none }.drainLingering false recv
  if s.lingering.isEmpty then s else s.schedule

/-- `stop`, once the service thread has ended. -/
def stop (s : Closing) (recv : Nat → Nat → Recv) : Closing :=
  { s with timer := none, running := false }.drainLingering true recv

end Closing

/-! ### The program -/

/-- A callback that went from `w` to `w'` ended the answer to a request whose body was to come: it
refused the request, or wrote the last slice for a `GET`. -/
def World.leavesBody (w w' : World) : Bool :=
  (w'.history.drop w.history.length).any fun h =>
    match h.output with
    | .statusPage _ true => true
    | .httpSlice _ true => (w.server.lookup h.wsi).any Conn.httpClose
    | _ => false

/-- What happens on the service thread: an event of the transport, the timer, or the end. The clock
stands still meanwhile. -/
inductive Tending where
  | transport (ev : Event) (k : Kernel)
  | pass (us : Nat)
  | timer (recv : Nat → Nat → Recv)
  | stop (recv : Nat → Nat → Recv)

variable (cfg : BridgeConfig) (checkBearer : Option (Bytes → Bool))

def Closing.step (s : Closing) : Tending → Option Closing
  | .transport ev k =>
    if s.running then
      (s.world.step cfg checkBearer ev).map fun world =>
        if s.world.leavesBody world then { s with world }.linger k else { s with world }
    else none
  | .pass us => some { s with now := s.now + us }
  | .timer recv =>
    match s.timer with
    | none => none
    | some due => if s.running && decide (due ≤ s.now) then some (s.onLingerTimer recv) else none
  | .stop recv => if s.running then some (s.stop recv) else none

def closing : Program Closing Empty Unit Tending where
  exec _ x _ := nomatch x
  enter s ev := (s.step cfg checkBearer ev).map fun s' => { shared := s' }

/-- lws runs the timer at most `late` microseconds after it is due, and `dup` gives a descriptor
that is not open. -/
def punctual (late : Nat) : Guard Closing Empty Unit Tending where
  run _ _ _ _ := True
  enter s _ ev :=
    match ev with
    | .transport _ k => ∀ fd, k.dup = some fd → fd ∉ (s.reap k.recv).held
    | .pass us => s.running = true → ∀ due, s.timer = some due → s.now + us ≤ due + late
    | _ => True

instance (late : Nat) : (punctual late).Decided where
  run _ _ _ _ := isTrue trivial
  enter s _ ev :=
    match ev with
    | .transport _ k => (inferInstance : Decidable (∀ fd ∈ k.dup, fd ∉ (s.reap k.recv).held))
    | .pass us => (inferInstance :
        Decidable (s.running = true → ∀ due ∈ s.timer, s.now + us ≤ due + late))
    | .timer _ | .stop _ => isTrue trivial

/-! ## Descriptors

`drainLingering` splits the list into what it keeps and what it closes, so a copy is in one of
the two. -/

section

variable {s : Closing} {recv : Nat → Nat → Recv}

/-- The loop keeps a socket or closes it. -/
theorem drainLoop_perm (now : Nat) (closeAll : Bool) (recv : Nat → Nat → Recv) (ls : List Lingering) :
    (ls.map Lingering.fd).Perm
      ((drainLoop now closeAll recv ls).2 ++ (drainLoop now closeAll recv ls).1.map Lingering.fd) := by
  induction ls with
  | nil => exact List.Perm.nil
  | cons l rest ih =>
      simp only [drainLoop]
      split
      · exact ih.cons l.fd
      · exact (ih.cons l.fd).trans List.perm_middle.symm

theorem drainLoop_sublist (now : Nat) (closeAll : Bool) (recv : Nat → Nat → Recv) (ls : List Lingering) :
    ((drainLoop now closeAll recv ls).1).Sublist ls := by
  induction ls with
  | nil => exact List.Sublist.refl _
  | cons l rest ih =>
      simp only [drainLoop]
      split
      · exact ih.cons l
      · exact ih.cons_cons l

/-- What the loop keeps is before its deadline. -/
theorem drainLoop_deadline {now : Nat} {closeAll : Bool} {ls : List Lingering} {l : Lingering}
    (h : l ∈ (drainLoop now closeAll recv ls).1) : closeAll = false ∧ now < l.deadline := by
  induction ls with
  | nil => exact absurd h List.not_mem_nil
  | cons l' rest ih =>
      simp only [drainLoop] at h
      split at h
      · exact ih h
      · rename_i hdone
        rcases List.mem_cons.mp h with rfl | hrest
        · simp only [Bool.or_eq_true, not_or, Bool.not_eq_true, decide_eq_true_eq, not_le] at hdone
          exact hdone.1
        · exact ih hrest

/-- Closing descriptors that are open. -/
theorem foldl_close {closed rest : List Nat} (h : s.held.Perm (closed ++ rest)) :
    (closed.foldl Closing.close s).held.Perm rest ∧
      closed.foldl Closing.close s = { s with held := (closed.foldl Closing.close s).held } := by
  induction closed generalizing s with
  | nil => exact ⟨h, rfl⟩
  | cons fd closed ih =>
      have hin : fd ∈ s.held := h.symm.subset List.mem_cons_self
      have hclose : s.close fd = { s with held := s.held.erase fd } := if_pos hin
      have herase : (s.held.erase fd).Perm (closed ++ rest) := by
        have hperm := h.erase fd
        rwa [List.cons_append, List.erase_cons_head] at hperm
      rw [List.foldl_cons, hclose]
      obtain ⟨hheld, heq⟩ := ih (s := { s with held := s.held.erase fd }) herase
      exact ⟨hheld, heq⟩

/-- The descriptors do not depend on what else the service thread does. -/
theorem reap_world (s : Closing) (w : World) (recv : Nat → Nat → Recv) :
    Closing.reap { s with world := w } recv = { s.reap recv with world := w } := by
  have hfold : ∀ (closed : List Nat) (s : Closing),
      closed.foldl Closing.close { s with world := w } =
        { closed.foldl Closing.close s with world := w } := by
    intro closed
    induction closed with
    | nil => exact fun _ => rfl
    | cons fd closed ih =>
        intro s
        rw [List.foldl_cons, List.foldl_cons, ← ih]
        congr 1
        unfold Closing.close
        split
        · rfl
        · rfl
  unfold Closing.reap
  split
  · exact hfold (drainLoop s.now false recv s.lingering).2
      { s with lingering := (drainLoop s.now false recv s.lingering).1 }
  · rfl

/-- The copies that are open are those that linger. -/
structure Closing.Owns (s : Closing) : Prop where
  held : s.held.Perm (s.lingering.map Lingering.fd)
  nodup : s.held.Nodup
  unheld : s.unheld = []

/-- A drain closes what it drops from `m_lingering`, and changes nothing else. -/
theorem Closing.Owns.drain (h : s.Owns) (closeAll : Bool) (recv : Nat → Nat → Recv) :
    (s.drainLingering closeAll recv).Owns ∧
      s.drainLingering closeAll recv = { s with
        lingering := (drainLoop s.now closeAll recv s.lingering).1
        held := (s.drainLingering closeAll recv).held } := by
  have hperm := h.held.trans (drainLoop_perm s.now closeAll recv s.lingering)
  obtain ⟨hheld, heq⟩ := foldl_close
    (s := { s with lingering := (drainLoop s.now closeAll recv s.lingering).1 }) hperm
  have hnodup := (hperm.nodup_iff.mp h.nodup).of_append_right
  have heq' : s.drainLingering closeAll recv = { s with
      lingering := (drainLoop s.now closeAll recv s.lingering).1
      held := (s.drainLingering closeAll recv).held } := heq
  refine ⟨⟨?_, ?_, ?_⟩, heq'⟩
  · rw [congrArg Closing.lingering heq']
    exact hheld
  · exact hheld.nodup_iff.mpr hnodup
  · rw [congrArg Closing.unheld heq']
    exact h.unheld

/-! ## The timer

While something lingers the timer is armed, no later than a tick after the last time it was set;
`lws` may be late for it. -/

/-- What holds between two events of the service thread. -/
structure Closing.Tended (late : Nat) (s : Closing) : Prop where
  owns : s.Owns
  few : s.lingering.length ≤ maxLingering
  armed : s.lingering ≠ [] → s.timer.isSome = true
  early : ∀ due, s.timer = some due → ∀ l ∈ s.lingering, due < l.deadline + lingerTickUs
  soon : ∀ due, s.timer = some due → due ≤ s.now + lingerTickUs
  onTime : s.running = true → ∀ due, s.timer = some due → s.now ≤ due + late
  young : ∀ l ∈ s.lingering, l.deadline ≤ s.now + lingerUs
  ended : s.running = false → s.lingering = []

variable {late : Nat}

theorem tended_start : Closing.Tended late {} where
  owns := ⟨List.Perm.nil, List.nodup_nil, rfl⟩
  few := Nat.zero_le _
  armed h := absurd rfl h
  early _ h := by cases h
  soon _ h := by cases h
  onTime _ _ h := by cases h
  young _ h := absurd h List.not_mem_nil
  ended _ := rfl

namespace Closing.Tended

/-- A drain without the timer. -/
theorem drain (h : s.Tended late) (closeAll : Bool) (recv : Nat → Nat → Recv) :
    (s.drainLingering closeAll recv).Tended late := by
  obtain ⟨howns, heq⟩ := h.owns.drain closeAll recv
  have hsub := drainLoop_sublist s.now closeAll recv s.lingering
  generalize (drainLoop s.now closeAll recv s.lingering).1 = kept at heq hsub
  generalize s.drainLingering closeAll recv = t at heq howns
  generalize t.held = held at heq
  subst heq
  exact
    { owns := howns
      few := hsub.length_le.trans h.few
      armed := fun hne => h.armed fun hnil => hne (List.sublist_nil.mp (hnil ▸ hsub))
      early := fun due hdue l hl => h.early due hdue l (hsub.subset hl)
      soon := h.soon
      onTime := h.onTime
      young := fun l hl => h.young l (hsub.subset hl)
      ended := fun hstop => List.sublist_nil.mp (h.ended hstop ▸ hsub) }

theorem reap (h : s.Tended late) (recv : Nat → Nat → Recv) : (s.reap recv).Tended late := by
  unfold Closing.reap
  split
  · exact h.drain false recv
  · exact h

theorem running_reap (h : s.Tended late) (recv : Nat → Nat → Recv) :
    (s.reap recv).running = s.running := by
  unfold Closing.reap
  split
  · rw [(h.owns.drain false recv).2]
  · rfl

/-- A new copy lingers: the timer is armed already, or is armed now. -/
theorem linger (h : s.Tended late) (hrun : s.running = true) {k : Kernel}
    (hfresh : ∀ fd, k.dup = some fd → fd ∉ (s.reap k.recv).held) : (s.linger k).Tended late := by
  have ht := h.reap k.recv
  have hrun' := (h.running_reap k.recv).trans hrun
  unfold Closing.linger
  dsimp only
  generalize s.reap k.recv = t at ht hfresh hrun'
  split
  · exact ht
  · rename_i hroom
    cases hdup : k.dup with
    | none => exact ht
    | some fd =>
        have hfew : t.lingering.length < maxLingering := by
          simp only [Bool.or_eq_true, not_or, decide_eq_true_eq, not_le] at hroom
          exact hroom.2
        have howns : (t.keepOpen fd).Owns := by
          refine ⟨?_, List.nodup_cons.mpr ⟨hfresh fd hdup, ht.owns.nodup⟩, ht.owns.unheld⟩
          show (fd :: t.held).Perm ((t.lingering ++ [_]).map Lingering.fd)
          rw [List.map_append]
          exact (ht.owns.held.cons fd).trans (List.perm_append_singleton fd _).symm
        have hlen : (t.keepOpen fd).lingering.length = t.lingering.length + 1 :=
          List.length_append
        have hyoung : ∀ l ∈ (t.keepOpen fd).lingering, l.deadline ≤ t.now + lingerUs := by
          intro l hl
          rcases List.mem_append.mp hl with hold | hnew
          · exact ht.young l hold
          · obtain rfl := List.mem_singleton.mp hnew
            exact Nat.le_refl _
        have hnone : t.running = false → (t.keepOpen fd).lingering = [] := by
          intro hstop
          cases hrun'.symm.trans hstop
        dsimp only
        split
        · rename_i hone
          -- the only one: its deadline is further off than a tick
          refine ⟨⟨howns.held, howns.nodup, howns.unheld⟩, hlen ▸ hfew, fun _ => rfl, ?_, ?_, ?_, hyoung,
            hnone⟩
          · intro due hdue l hl
            obtain rfl := Option.some.inj hdue
            have hnil : t.lingering = [] := List.length_eq_zero_iff.mp (by omega)
            have hl : l ∈ t.lingering ++ [{ fd := fd, deadline := t.now + lingerUs }] := hl
            rw [hnil, List.nil_append, List.mem_singleton] at hl
            rw [hl]
            show t.now + lingerTickUs < t.now + lingerUs + lingerTickUs
            simp only [lingerUs]
            omega
          · intro due hdue
            obtain rfl := Option.some.inj hdue
            exact Nat.le_refl _
          · intro _ due hdue
            obtain rfl := Option.some.inj hdue
            show t.now ≤ t.now + lingerTickUs + late
            omega
        · rename_i hmore
          refine ⟨howns, hlen ▸ hfew, fun _ => ht.armed ?_, ?_, ht.soon, ht.onTime, hyoung, hnone⟩
          · intro hnil
            rw [hlen, hnil] at hmore
            exact hmore rfl
          · intro due hdue l hl
            rcases List.mem_append.mp hl with hold | hnew
            · exact ht.early due hdue l hold
            · obtain rfl := List.mem_singleton.mp hnew
              have hsoon := ht.soon due hdue
              show due < t.now + lingerUs + lingerTickUs
              simp only [lingerUs]
              omega

/-- The timer runs, and is armed again when something is left. -/
theorem onLingerTimer (h : s.Tended late) (hrun : s.running = true) (recv : Nat → Nat → Recv) :
    (s.onLingerTimer recv).Tended late := by
  have howns : Closing.Owns { s with timer := none } := ⟨h.owns.held, h.owns.nodup, h.owns.unheld⟩
  obtain ⟨howns, heq⟩ := howns.drain false recv
  have hsub := drainLoop_sublist s.now false recv s.lingering
  have hkept : ∀ l, l ∈ (drainLoop s.now false recv s.lingering).1 →
      false = false ∧ s.now < l.deadline := fun l => drainLoop_deadline
  unfold Closing.onLingerTimer
  dsimp only
  -- what is drained is known by its lemmas from here on
  generalize (drainLoop s.now false recv s.lingering).1 = kept at heq hsub hkept
  generalize Closing.drainLingering { s with timer := none } false recv = t at heq howns ⊢
  generalize t.held = held at heq
  subst heq
  have hyoung : ∀ l ∈ kept, l.deadline ≤ s.now + lingerUs := fun l hl => h.young l (hsub.subset hl)
  have hnone : s.running = false → kept = [] := by
    intro hstop
    cases hrun.symm.trans hstop
  split
  · rename_i hempty
    have hnil : kept = [] := List.isEmpty_iff.mp hempty
    refine ⟨howns, hsub.length_le.trans h.few, fun hne => absurd hnil hne, ?_, ?_, ?_, hyoung, hnone⟩
    · intro _ hdue
      cases hdue
    · intro _ hdue
      cases hdue
    · intro _ _ hdue
      cases hdue
  · refine ⟨⟨howns.held, howns.nodup, howns.unheld⟩, hsub.length_le.trans h.few, fun _ => rfl, ?_, ?_,
      ?_, hyoung, hnone⟩
    · intro due hdue l hl
      obtain rfl := Option.some.inj hdue
      -- the timer comes at most a tick after the earliest deadline
      have hbefore := (hkept l hl).2
      show s.now + lingerTickUs < l.deadline + lingerTickUs
      omega
    · intro due hdue
      obtain rfl := Option.some.inj hdue
      exact Nat.le_refl _
    · intro _ due hdue
      obtain rfl := Option.some.inj hdue
      show s.now ≤ s.now + lingerTickUs + late
      omega

/-- Nothing is left open at the end. -/
theorem stop (h : s.Tended late) (recv : Nat → Nat → Recv) : (s.stop recv).Tended late := by
  have howns : Closing.Owns { s with timer := none, running := false } :=
    ⟨h.owns.held, h.owns.nodup, h.owns.unheld⟩
  obtain ⟨howns, heq⟩ := howns.drain true recv
  have hnil : (drainLoop s.now true recv s.lingering).1 = [] := by
    apply List.eq_nil_iff_forall_not_mem.mpr
    intro l hl
    cases (drainLoop_deadline hl).1
  unfold Closing.stop
  generalize Closing.drainLingering { s with timer := none, running := false } true recv = t
    at heq howns ⊢
  generalize t.held = held at heq
  rw [hnil] at heq
  subst heq
  exact
    { owns := howns
      few := Nat.zero_le _
      armed := fun hne => absurd rfl hne
      early := fun _ hdue => by cases hdue
      soon := fun _ hdue => by cases hdue
      onTime := fun _ _ hdue => by cases hdue
      young := fun _ hl => absurd hl List.not_mem_nil
      ended := fun _ => rfl }

theorem step (h : s.Tended late) {ev : Tending} {s' : Closing} (hok : (punctual late).enter s 0 ev)
    (hstep : s.step cfg checkBearer ev = some s') : s'.Tended late := by
  cases ev with
  | transport ev k =>
      simp only [Closing.step] at hstep
      split at hstep
      · rename_i hrun
        obtain ⟨w, _, rfl⟩ := Option.map_eq_some_iff.mp hstep
        have hw : Closing.Tended late { s with world := w } :=
          ⟨⟨h.owns.held, h.owns.nodup, h.owns.unheld⟩, h.few, h.armed, h.early, h.soon, h.onTime, h.young,
            h.ended⟩
        split
        · apply hw.linger hrun
          intro fd hfd
          -- a socket that is reaped is put among those that linger, under a descriptor that is not
          -- in use
          rw [reap_world]
          exact hok fd hfd
        · exact hw
      · cases hstep
  | pass us =>
      obtain rfl := Option.some.inj hstep
      refine ⟨⟨h.owns.held, h.owns.nodup, h.owns.unheld⟩, h.few, h.armed, h.early, ?_, hok, ?_, h.ended⟩
      · intro due hdue
        exact (h.soon due hdue).trans (Nat.add_le_add_right (Nat.le_add_right _ _) _)
      · intro l hl
        exact (h.young l hl).trans (Nat.add_le_add_right (Nat.le_add_right _ _) _)
  | timer recv =>
      simp only [Closing.step] at hstep
      split at hstep
      · cases hstep
      · split at hstep
        · rename_i hdue
          obtain rfl := Option.some.inj hstep
          simp only [Bool.and_eq_true] at hdue
          exact h.onLingerTimer hdue.1 recv
        · cases hstep
  | stop recv =>
      simp only [Closing.step] at hstep
      split at hstep
      · obtain rfl := Option.some.inj hstep
        exact h.stop recv
      · cases hstep

end Closing.Tended

/-! ## Runs

The copies that are open are those that linger, so a bound on the list is one on descriptors. -/

/-- **No socket lingers for ever.** There are sixteen at most; the copies that are open are theirs,
and none is closed twice; as long as the timer runs at most `late` too late, each is closed within a
tick and `late` of its deadline; after `stop` none is open. -/
theorem lingering_of_run (cfg : BridgeConfig) (checkBearer : Option (Bytes → Bool)) (late : Nat)
    {t : State Closing Empty} (hrun : Run (closing cfg checkBearer) (punctual late) { shared := {} } t) :
    t.shared.lingering.length ≤ maxLingering ∧
      t.shared.held.Perm (t.shared.lingering.map Lingering.fd) ∧ t.shared.held.Nodup ∧
      t.shared.unheld = [] ∧
      (∀ l ∈ t.shared.lingering,
        l.deadline ≤ t.shared.now + lingerUs ∧ t.shared.now < l.deadline + lingerTickUs + late) ∧
      (t.shared.running = false → t.shared.held = []) := by
  have htended : t.shared.Tended late := by
    apply Run.invariant (I := fun s _ => s.Tended late) tended_start _ _ hrun
    · intro sh x
      exact x.elim
    · intro sh ev e p h hok he
      obtain ⟨s', hs', rfl⟩ := Option.map_eq_some_iff.mp he
      exact h.step cfg checkBearer hok hs'
  have howns := htended.owns
  refine ⟨htended.few, howns.held, howns.nodup, howns.unheld, ?_, ?_⟩
  · intro l hl
    refine ⟨htended.young l hl, ?_⟩
    have hne : t.shared.lingering ≠ [] := List.ne_nil_of_mem hl
    obtain ⟨due, hdue⟩ := Option.isSome_iff_exists.mp (htended.armed hne)
    have hearly := htended.early due hdue l hl
    have honTime : t.shared.now ≤ due + late := by
      cases hrunning : t.shared.running with
      | true => exact htended.onTime hrunning due hdue
      | false => exact absurd (htended.ended hrunning) hne
    omega
  · intro hstop
    have hperm := howns.held
    rw [htended.ended hstop] at hperm
    exact hperm.eq_nil

/-- A POST for another host is refused with five bytes of body to come; a tick later the peer has
sent nothing more, and its socket lingers on. -/
theorem lingering_of_run_refused : ∃ t : State Closing Empty,
    Run (closing minimalConfig none) (punctual 0) { shared := {} } t ∧
    t.shared.lingering.map Lingering.deadline = [5000000] ∧ t.shared.now = 20000 ∧
    (t.shared.held.Perm (t.shared.lingering.map Lingering.fd) ∧
      ∀ l ∈ t.shared.lingering, t.shared.now < l.deadline + lingerTickUs + 0) := by
  have hmoves : ((closing minimalConfig none).replayUnder (punctual 0) { shared := {} }
      [.enter (.transport (.connect 1 (str "127.0.0.1") false) {}),
       .enter (.transport (.headers 1
         { host := str "elsewhere", postUri := str "/rpc", contentLength := str "5" }) {}),
       .enter (.transport (.callback 1 (.http none) {}) { dup := some 7 }),
       .enter (.pass 20000),
       .enter (.timer fun _ _ => .again)]).map
      (fun t => (t.shared.lingering.map Lingering.deadline, t.shared.now)) =
      some ([5000000], 20000) := by decide +kernel
  obtain ⟨t, ht, hstate⟩ := Option.map_eq_some_iff.mp hmoves
  obtain ⟨hlingering, hnow⟩ := Prod.mk.inj hstate
  have hrun := Run.start.replayUnder ht
  obtain ⟨_, hheld, _, _, hdeadlines, _⟩ := lingering_of_run minimalConfig none 0 hrun
  exact ⟨t, hrun, hlingering, hnow, hheld, fun l hl => (hdeadlines l hl).2⟩

end

end JsonRpcBridge.Server
