import JsonRpcBridge.Config.Parse
import JsonRpcBridge.Server.Table
import Mathlib.Data.List.Chain

/-!
# Reassembling messages

A WebSocket message arrives in fragments, and `RECEIVE` collects them in the buffer of its
connection. A message over `maxFrameBytes` empties the buffer and asks to close the connection, but
nothing remembers to skip the rest of the message: until the close takes effect its tail is read as
a message of its own.

* `dispatched_iff`: over every run, what is handed to `onBody` is the text messages within the
  limit, exactly when every longer one goes over the limit with its last fragment.
* `not_dispatched_tail`: the tail of an oversized message is handed over.
-/

namespace JsonRpcBridge.Server

/-! ## Fragments and messages

What a connection receives, cut where a fragment is the last of its message. -/

structure Fragment where
  data : Bytes
  binary : Bool
  final : Bool

/-- The messages that are complete. -/
def messages : List Fragment → List (List Fragment)
  | [] => []
  | f :: fs =>
    if f.final then [f] :: messages fs
    else
      match messages fs with
      | [] => []
      | m :: ms => (f :: m) :: ms

def isText (m : List Fragment) : Bool := m.all fun f => !f.binary

def content (m : List Fragment) : Bytes := m.flatMap Fragment.data

/-- The text messages whose length is at most `limit`. -/
def textMessages (limit : Nat) (fs : List Fragment) : List Bytes :=
  ((messages fs).filter fun m => isText m && (content m).length ≤ limit).map content

/-- Reading fragments of these lengths, and starting over whenever they sum up to more than
`limit`, the last one makes the sum go over it. -/
def overAtLast (limit : Nat) : Nat → List Nat → Bool
  | _, [] => false
  | n, [last] => n + last > limit
  | n, x :: y :: xs => overAtLast limit (if n + x > limit then 0 else n + x) (y :: xs)

/-- A message that is within the limit, or goes over it with its last fragment. -/
def Contained (limit : Nat) (m : List Fragment) : Prop :=
  (content m).length ≤ limit ∨ overAtLast limit 0 (m.map fun f => f.data.length) = true

/-- The fragments of a message are all of text or all binary: lws has one flag for the message. -/
def Framed (fs : List Fragment) : Prop :=
  fs.IsChain fun f g => f.final = false → g.binary = f.binary

instance (fs : List Fragment) : Decidable (Framed fs) := by
  unfold Framed
  infer_instance

/-! ## `RECEIVE`, on the buffer alone

The callback reads the fragment and the buffer, and nothing else of the connection decides what
is handed over. -/

/-- The buffer after a fragment, and the body that is handed over. -/
def Fragment.receive (limit : Nat) (buf : Bytes) (f : Fragment) : Bytes × Option Bytes :=
  if f.binary then (buf, none)
  else if (buf ++ f.data).length > limit then ([], none)
  else if f.final then ([], some (buf ++ f.data))
  else (buf ++ f.data, none)

def bufferAfter (limit : Nat) : Bytes → List Fragment → Bytes
  | buf, [] => buf
  | buf, f :: fs => bufferAfter limit (f.receive limit buf).1 fs

def bodiesOf (limit : Nat) : Bytes → List Fragment → List Bytes
  | _, [] => []
  | buf, f :: fs => (f.receive limit buf).2.toList ++ bodiesOf limit (f.receive limit buf).1 fs

variable {limit : Nat} {buf : Bytes} {f : Fragment} {fs gs m : List Fragment}

/-! ### Many fragments -/

theorem bufferAfter_append :
    bufferAfter limit buf (fs ++ gs) = bufferAfter limit (bufferAfter limit buf fs) gs := by
  induction fs generalizing buf with
  | nil => rfl
  | cons f fs ih => exact ih

theorem bodiesOf_append : bodiesOf limit buf (fs ++ gs) =
    bodiesOf limit buf fs ++ bodiesOf limit (bufferAfter limit buf fs) gs := by
  induction fs generalizing buf with
  | nil => rfl
  | cons f fs ih =>
      show _ ++ bodiesOf limit _ (fs ++ gs) = _ ++ _ ++ _
      rw [ih, List.append_assoc]
      rfl

theorem receive_of_binary (h : f.binary = true) : f.receive limit buf = (buf, none) := if_pos h

/-- Only a final fragment hands a body over. -/
theorem receive_of_not_final (h : f.final = false) : (f.receive limit buf).2 = none := by
  unfold Fragment.receive
  split_ifs with hbinary hover hfinal
  · rfl
  · rfl
  · rw [h] at hfinal
    cases hfinal
  · rfl

/-- A final fragment of text leaves nothing behind. -/
theorem receive_of_final (hfinal : f.final = true) (htext : f.binary = false) :
    (f.receive limit buf).1 = [] := by
  unfold Fragment.receive
  rw [if_neg (by rw [htext]; exact Bool.false_ne_true), if_pos hfinal]
  split <;> rfl

theorem bodiesOf_of_not_final (h : ∀ f ∈ fs, f.final = false) : bodiesOf limit buf fs = [] := by
  induction fs generalizing buf with
  | nil => rfl
  | cons f fs ih =>
      rw [bodiesOf, receive_of_not_final (h f List.mem_cons_self),
        ih fun g hg => h g (List.mem_cons_of_mem _ hg)]
      rfl

theorem bufferAfter_of_binary (h : ∀ f ∈ fs, f.binary = true) : bufferAfter limit buf fs = buf := by
  induction fs with
  | nil => rfl
  | cons f fs ih =>
      rw [bufferAfter, receive_of_binary (h f List.mem_cons_self)]
      exact ih fun g hg => h g (List.mem_cons_of_mem _ hg)

/-! ## One message at a time

Every message starts on an empty buffer: its predecessor was binary and left the buffer alone, or
text and emptied it at its end. -/

/-- Fragments without an end, or a message and what follows it. -/
theorem messages_cases (fs : List Fragment) :
    (messages fs = [] ∧ ∀ f ∈ fs, f.final = false) ∨
      ∃ pre last rest, fs = pre ++ last :: rest ∧ (∀ f ∈ pre, f.final = false) ∧
        last.final = true ∧ messages fs = (pre ++ [last]) :: messages rest := by
  induction fs with
  | nil => exact .inl ⟨rfl, fun f hf => (List.not_mem_nil hf).elim⟩
  | cons f fs ih =>
      cases hfinal : f.final with
      | true =>
          refine .inr ⟨[], f, fs, rfl, fun g hg => (List.not_mem_nil hg).elim, hfinal, ?_⟩
          rw [messages, if_pos hfinal]
          rfl
      | false =>
          have hmore : messages (f :: fs) = match messages fs with
              | [] => []
              | m :: ms => (f :: m) :: ms := by
            rw [messages, if_neg (by rw [hfinal]; exact Bool.false_ne_true)]
          rcases ih with ⟨hnone, hall⟩ | ⟨pre, last, rest, rfl, hpre, hlast, hfirst⟩
          · refine .inl ⟨by rw [hmore, hnone], fun g hg => ?_⟩
            rcases List.mem_cons.mp hg with rfl | hg
            · exact hfinal
            · exact hall g hg
          · refine .inr ⟨f :: pre, last, rest, rfl, fun g hg => ?_, hlast, by rw [hmore, hfirst]; rfl⟩
            rcases List.mem_cons.mp hg with rfl | hg
            · exact hfinal
            · exact hpre g hg

/-- All fragments of a message have the flag of its last one. -/
theorem Framed.flag {pre rest : List Fragment} {last : Fragment} (h : Framed (pre ++ last :: rest))
    (hpre : ∀ f ∈ pre, f.final = false) : ∀ f ∈ pre, f.binary = last.binary := by
  induction pre with
  | nil => exact fun f hf => (List.not_mem_nil hf).elim
  | cons f pre ih =>
      have hfinal := hpre f List.mem_cons_self
      have htail : Framed (pre ++ last :: rest) := List.IsChain.tail h
      have hflags := ih htail fun g hg => hpre g (List.mem_cons_of_mem _ hg)
      intro g hg
      rcases List.mem_cons.mp hg with rfl | hg
      · cases pre with
        | nil => exact ((List.isChain_cons_cons.mp h).1 hfinal).symm
        | cons f' pre =>
            have hstep := (List.isChain_cons_cons.mp h).1 hfinal
            rw [← hstep]
            exact hflags f' List.mem_cons_self
      · exact hflags g hg

theorem Framed.rest {pre rest : List Fragment} (h : Framed (pre ++ rest)) : Framed rest :=
  List.IsChain.right_of_append h

/-! ### What is handed over -/

/-- What the fragments of one message hand over. -/
def delivered (limit : Nat) (m : List Fragment) : Option Bytes := (bodiesOf limit [] m).head?

/-- What a message should hand over. -/
def expected (limit : Nat) (m : List Fragment) : Option Bytes :=
  if isText m && (content m).length ≤ limit then some (content m) else none

theorem textMessages_eq (limit : Nat) (fs : List Fragment) :
    textMessages limit fs = (messages fs).filterMap (expected limit) := by
  unfold textMessages
  induction messages fs with
  | nil => rfl
  | cons m ms ih =>
      rw [List.filter_cons, List.filterMap_cons, expected]
      split
      · rw [List.map_cons, ih]
      · exact ih

/-- A message hands over at most one body, and leaves the buffer empty. -/
theorem bodiesOf_message (limit : Nat) {pre : List Fragment} {last : Fragment}
    (hpre : ∀ f ∈ pre, f.final = false) (hlast : last.final = true)
    (hflag : ∀ f ∈ pre, f.binary = last.binary) :
    bodiesOf limit [] (pre ++ [last]) = (delivered limit (pre ++ [last])).toList ∧
      bufferAfter limit [] (pre ++ [last]) = [] := by
  constructor
  · rw [delivered, bodiesOf_append, bodiesOf_of_not_final hpre, List.nil_append, bodiesOf, bodiesOf,
      List.append_nil]
    cases (last.receive limit (bufferAfter limit [] pre)).2 with
    | none => rfl
    | some body => rfl
  · rw [bufferAfter_append]
    cases hbinary : last.binary with
    | false => exact receive_of_final hlast hbinary
    | true =>
        rw [bufferAfter_of_binary fun f hf => (hflag f hf).trans hbinary]
        exact congrArg Prod.fst (receive_of_binary hbinary)

/-- The fragments hand over what their messages do. -/
theorem bodiesOf_eq (h : Framed fs) :
    bodiesOf limit [] fs = (messages fs).filterMap (delivered limit) := by
  induction hn : fs.length using Nat.strongRecOn generalizing fs with
  | ind n ih =>
      rcases messages_cases fs with ⟨hnone, hall⟩ | ⟨pre, last, rest, rfl, hpre, hlast, hfirst⟩
      · rw [hnone, bodiesOf_of_not_final hall]
        rfl
      · have hsplit : pre ++ last :: rest = (pre ++ [last]) ++ rest := by simp
        have hrest : Framed rest := Framed.rest (hsplit ▸ h)
        have hlength : rest.length < n := by
          rw [← hn, List.length_append, List.length_cons]
          omega
        obtain ⟨hbodies, hbuffer⟩ := bodiesOf_message limit hpre hlast (h.flag hpre)
        rw [hfirst, hsplit, bodiesOf_append, hbodies, hbuffer, ih _ hlength hrest rfl,
          List.filterMap_cons]
        cases delivered limit (pre ++ [last]) with
        | none => rfl
        | some body => rfl

/-! ## Where the two agree

A message that goes over the limit before its end empties the buffer, and its tail is handed over
as if it were a message. -/

/-- Two ways to read a list, of which the first finds all the second does, read the same exactly
when they agree on every element. -/
theorem filterMap_eq_iff {α β : Type} {d e : α → Option β} {l : List α}
    (h : ∀ a ∈ l, ∀ b, e a = some b → d a = some b) :
    l.filterMap d = l.filterMap e ↔ ∀ a ∈ l, d a = e a := by
  -- the first reading is at least as long as the second
  have hlength : ∀ l : List α, (∀ a ∈ l, ∀ b, e a = some b → d a = some b) →
      (l.filterMap e).length ≤ (l.filterMap d).length := by
    intro l hl
    induction l with
    | nil => exact Nat.le_refl _
    | cons a l ih =>
        have hrest := ih fun a' ha' => hl a' (List.mem_cons_of_mem _ ha')
        rw [List.filterMap_cons, List.filterMap_cons]
        cases he : e a with
        | some b =>
            rw [hl a List.mem_cons_self b he]
            exact Nat.succ_le_succ hrest
        | none =>
            cases d a with
            | none => exact hrest
            | some b => exact Nat.le_succ_of_le hrest
  induction l with
  | nil => exact ⟨fun _ a ha => (List.not_mem_nil ha).elim, fun _ => rfl⟩
  | cons a l ih =>
      have hrest : ∀ a ∈ l, ∀ b, e a = some b → d a = some b :=
        fun a' ha' => h a' (List.mem_cons_of_mem _ ha')
      rw [List.forall_mem_cons, List.filterMap_cons, List.filterMap_cons]
      refine Iff.trans ?_ (and_congr_right fun _ => ih hrest)
      cases he : e a with
      -- here it has one element more, so it would have to be longer in the rest
      | some b =>
          rw [h a List.mem_cons_self b he]
          exact ⟨fun heq => ⟨rfl, List.tail_eq_of_cons_eq heq⟩, fun heq => congrArg _ heq.2⟩
      | none =>
          cases hd : d a with
          | none => exact ⟨fun heq => ⟨rfl, heq⟩, fun heq => heq.2⟩
          | some b =>
              refine ⟨fun heq => ?_, fun heq => by cases heq.1⟩
              have heq : b :: l.filterMap d = l.filterMap e := heq
              have hlt := hlength l hrest
              have hshort := congrArg List.length heq
              rw [List.length_cons] at hshort
              omega

/-- A text message within the limit is handed over whole. -/
theorem bodiesOf_within {pre : List Fragment} {last : Fragment} (hpre : ∀ f ∈ pre, f.final = false)
    (hlast : last.final = true) (htext : isText (pre ++ [last]) = true)
    (hlimit : (buf ++ content (pre ++ [last])).length ≤ limit) :
    bodiesOf limit buf (pre ++ [last]) = [buf ++ content (pre ++ [last])] := by
  induction pre generalizing buf with
  | nil =>
      have hbinary : last.binary = false := by simpa [isText] using htext
      have hcontent : content [last] = last.data := List.append_nil _
      rw [List.nil_append, hcontent] at hlimit ⊢
      rw [bodiesOf, Fragment.receive, if_neg (by rw [hbinary]; exact Bool.false_ne_true),
        if_neg (Nat.not_lt.mpr hlimit), if_pos hlast]
      rfl
  | cons f pre ih =>
      obtain ⟨hbinary, htext⟩ : f.binary = false ∧ isText (pre ++ [last]) = true := by
        simpa [isText] using htext
      have hcontent : buf ++ content (f :: pre ++ [last]) =
          (buf ++ f.data) ++ content (pre ++ [last]) := by
        simp [content]
      rw [hcontent] at hlimit ⊢
      have hstep : f.receive limit buf = (buf ++ f.data, none) := by
        rw [List.length_append] at hlimit
        rw [Fragment.receive, if_neg (by rw [hbinary]; exact Bool.false_ne_true), if_neg (by omega),
          if_neg (by rw [hpre f List.mem_cons_self]; exact Bool.false_ne_true)]
      rw [List.cons_append, bodiesOf, hstep]
      exact ih (fun g hg => hpre g (List.mem_cons_of_mem _ hg)) htext hlimit

/-- A text message hands nothing over exactly when it goes over the limit with its last fragment. -/
theorem bodiesOf_over {pre : List Fragment} {last : Fragment} (hpre : ∀ f ∈ pre, f.final = false)
    (hlast : last.final = true) (htext : isText (pre ++ [last]) = true) :
    bodiesOf limit buf (pre ++ [last]) = [] ↔
      overAtLast limit buf.length ((pre ++ [last]).map fun f => f.data.length) = true := by
  induction pre generalizing buf with
  | nil =>
      have hbinary : last.binary = false := by simpa [isText] using htext
      rw [List.nil_append, bodiesOf, Fragment.receive,
        if_neg (by rw [hbinary]; exact Bool.false_ne_true), if_pos hlast, List.map_singleton,
        overAtLast, decide_eq_true_eq, ← List.length_append]
      split
      · rename_i hover
        exact ⟨fun _ => hover, fun _ => rfl⟩
      · rename_i hover
        exact ⟨fun h => (List.cons_ne_nil _ _ h).elim, fun h => absurd h hover⟩
  | cons f pre ih =>
      obtain ⟨hbinary, htext⟩ : f.binary = false ∧ isText (pre ++ [last]) = true := by
        simpa [isText] using htext
      have hstep : f.receive limit buf =
          (if (buf ++ f.data).length > limit then [] else buf ++ f.data, none) := by
        rw [Fragment.receive, if_neg (by rw [hbinary]; exact Bool.false_ne_true),
          if_neg (c := f.final = true) (by rw [hpre f List.mem_cons_self]; exact Bool.false_ne_true)]
        split <;> rfl
      have hlengths : overAtLast limit buf.length ((f :: pre ++ [last]).map fun f => f.data.length) =
          overAtLast limit (f.receive limit buf).1.length
            ((pre ++ [last]).map fun f => f.data.length) := by
        rw [hstep]
        obtain ⟨g, gs, hg⟩ : ∃ g gs, pre ++ [last] = g :: gs :=
          List.exists_cons_of_ne_nil (by simp)
        rw [List.cons_append, hg, List.map_cons, List.map_cons, overAtLast, ← List.length_append]
        split <;> rfl
      rw [hlengths, List.cons_append, bodiesOf, hstep]
      exact ih (fun g hg => hpre g (List.mem_cons_of_mem _ hg)) htext

/-- A message of framed fragments: its last fragment is final, no other is, and all have one
flag. -/
theorem message_of_mem (h : Framed fs) (hm : m ∈ messages fs) :
    ∃ pre last, m = pre ++ [last] ∧ (∀ f ∈ pre, f.final = false) ∧ last.final = true ∧
      ∀ f ∈ pre, f.binary = last.binary := by
  induction hn : fs.length using Nat.strongRecOn generalizing fs with
  | ind n ih =>
      rcases messages_cases fs with ⟨hnone, -⟩ | ⟨pre, last, rest, rfl, hpre, hlast, hfirst⟩
      · rw [hnone] at hm
        cases hm
      · rw [hfirst] at hm
        rcases List.mem_cons.mp hm with rfl | hm
        · exact ⟨pre, last, rfl, hpre, hlast, h.flag hpre⟩
        · have hsplit : pre ++ last :: rest = (pre ++ [last]) ++ rest := by simp
          have hlength : rest.length < n := by
            rw [← hn, List.length_append, List.length_cons]
            omega
          exact ih _ hlength (Framed.rest (hsplit ▸ h)) hm rfl

theorem delivered_of_expected {b : Bytes} (h : Framed fs) (hm : m ∈ messages fs)
    (hb : expected limit m = some b) : delivered limit m = some b := by
  obtain ⟨pre, last, rfl, hpre, hlast, -⟩ := message_of_mem h hm
  unfold expected at hb
  split at hb
  · rename_i hwithin
    rw [Bool.and_eq_true, decide_eq_true_eq] at hwithin
    rw [delivered, bodiesOf_within hpre hlast hwithin.1 hwithin.2]
    exact hb
  · cases hb

/-- A message hands over what it should, unless it is a text whose tail is handed over. -/
theorem delivered_iff (h : Framed fs) (hm : m ∈ messages fs) :
    delivered limit m = expected limit m ↔ (isText m = true → Contained limit m) := by
  obtain ⟨pre, last, rfl, hpre, hlast, hflag⟩ := message_of_mem h hm
  cases htext : isText (pre ++ [last]) with
  | false =>
      have hbinary : last.binary = true := by
        by_contra hnot
        have hlastText : last.binary = false := by simpa using hnot
        have hall : isText (pre ++ [last]) = true := by
          apply List.all_eq_true.mpr
          intro f hf
          rcases List.mem_append.mp hf with hf | hf
          · rw [hflag f hf, hlastText]
            rfl
          · rw [List.mem_singleton.mp hf, hlastText]
            rfl
        rw [hall] at htext
        cases htext
      have hnone : delivered limit (pre ++ [last]) = none := by
        rw [delivered, bodiesOf_append, bodiesOf_of_not_final hpre, bodiesOf,
          receive_of_binary hbinary]
        rfl
      rw [hnone, expected, htext]
      exact ⟨fun _ htrue => (Bool.false_ne_true htrue).elim, fun _ => rfl⟩
  | true =>
      have hover : bodiesOf limit [] (pre ++ [last]) = [] ↔ _ := bodiesOf_over hpre hlast htext
      have hmessage := (bodiesOf_message limit hpre hlast hflag).1
      -- within the limit it is handed over whole; beyond it, nothing should be
      by_cases hwithin : (content (pre ++ [last])).length ≤ limit
      · have hexpected : expected limit (pre ++ [last]) = some (content (pre ++ [last])) := by
          rw [expected, htext, decide_eq_true hwithin]
          rfl
        rw [hexpected, delivered_of_expected h hm hexpected]
        exact ⟨fun _ _ => Or.inl hwithin, fun _ => rfl⟩
      · have hexpected : expected limit (pre ++ [last]) = none := by
          rw [expected, htext, decide_eq_false hwithin]
          rfl
        rw [hexpected]
        constructor
        · intro hnone _
          rw [hnone] at hmessage
          exact Or.inr (hover.mp hmessage)
        · intro hcontained
          have hempty := hover.mpr ((hcontained rfl).resolve_left hwithin)
          rw [delivered, hempty]
          rfl

theorem bodiesOf_iff (h : Framed fs) : bodiesOf limit [] fs = textMessages limit fs ↔
    ∀ m ∈ messages fs, isText m = true → Contained limit m := by
  rw [bodiesOf_eq h, textMessages_eq,
    filterMap_eq_iff fun m hm b hb => delivered_of_expected h hm hb]
  exact forall₂_congr fun m hm => delivered_iff h hm

/-! ## The log of a connection

The fragments and the bodies of each connection, so that they can be compared over a run. -/

/-- What has reached a connection, and what was handed to `onBody` for it. -/
structure Log where
  received : List Fragment := []
  dispatched : List Bytes := []

def Log.add (l : Log) (f : Fragment) (bodies : List Bytes) : Log where
  received := l.received ++ [f]
  dispatched := l.dispatched ++ bodies

/-- The transport, with the log of each connection under its number. -/
structure Traffic where
  world : World := {}
  log : Nat → Log := fun _ => {}

/-- The messages among what a callback hands out. -/
def messageBodies (outputs : List Output) : List Bytes :=
  outputs.filterMap fun
    | .onBody _ body true => some body
    | _ => none

section

variable (cfg : BridgeConfig) (checkBearer : Option (Bytes → Bool))

def Traffic.recorded (t : Traffic) : Event → Nat → Log
  | .callback wsi (.receive data binary final) _ =>
    match t.world.sockets wsi, t.world.server.lookup wsi with
    | some k, some c =>
      Function.update t.log c.id ((t.log c.id).add ⟨data, binary, final⟩
        (messageBodies (t.world.server.receive cfg (k.lws wsi) data binary final).outputs))
    | _, _ => t.log
  | _ => t.log

def Traffic.step (t : Traffic) (ev : Event) : Option Traffic :=
  (t.world.step cfg checkBearer ev).map fun w => { world := w, log := t.recorded cfg ev }

def traffic : Interleaving.Program Traffic Empty Unit Event where
  exec _ a _ := nomatch a
  enter t ev := (t.step cfg checkBearer ev).map fun t' => { shared := t' }

/-- lws gives the fragments of one message one flag. -/
def oneFlag : Interleaving.Guard Traffic Empty Unit Event where
  run _ _ _ _ := True
  enter t _ ev :=
    match ev with
    | .callback wsi (.receive data binary final) _ =>
      ∀ c, t.world.server.lookup wsi = some c →
        Framed ((t.log c.id).received ++ [⟨data, binary, final⟩])
    | _ => True

instance : oneFlag.Decided where
  run _ _ _ _ := isTrue trivial
  enter t _ ev := by
    induction ev using Event.casesOn with
    | callback wsi cb a =>
        induction cb using Callback.casesOn with
        | receive data binary final => exact (inferInstance :
            Decidable (∀ c ∈ t.world.server.lookup wsi,
              Framed ((t.log c.id).received ++ [⟨data, binary, final⟩])))
        | _ => exact isTrue trivial
    | _ => exact isTrue trivial

end

/-! ### The buffer in a run -/

/-- Nothing is handed over but what `RECEIVE` makes of the fragments, and the buffer of a WebSocket
holds what is left of them. -/
structure Collected (limit : Nat) (t : Traffic) : Prop where
  wired : Wired t.world
  fresh : ∀ id, t.world.server.nextConnId ≤ id → t.log id = {}
  framed : ∀ id, Framed (t.log id).received
  dispatched : ∀ id, (t.log id).dispatched = bodiesOf limit [] (t.log id).received
  buffer : ∀ wsi c, t.world.server.lookup wsi = some c → c.isWebsocket = true →
    c.httpBody = bufferAfter limit [] (t.log c.id).received

variable {cfg : BridgeConfig} {checkBearer : Option (Bytes → Bool)} {t t' : Traffic} {ev : Event}
  {p : Multiset Empty}

theorem collected_start (limit : Nat) : Collected limit {} where
  wired := wired_start
  fresh _ _ := rfl
  framed _ := List.IsChain.nil
  dispatched _ := rfl
  buffer _ _ h := nomatch h

/-- What `RECEIVE` does to the connection, in terms of the buffer. -/
theorem receive_spec (cfg : BridgeConfig) {s : WsServer} {v : Lws} {c : Conn} (hc : s.lookup v.wsi = some c)
    (f : Fragment) :
    messageBodies (s.receive cfg v f.data f.binary f.final).outputs =
        (f.receive (sizeT cfg.limits.maxFrameBytes) c.httpBody).2.toList ∧
      ∀ c', (s.receive cfg v f.data f.binary f.final).server.lookup v.wsi = some c' →
        c'.httpBody = (f.receive (sizeT cfg.limits.maxFrameBytes) c.httpBody).1 := by
  have hput : ∀ c₁ c', (s.put v.wsi c₁).lookup v.wsi = some c' → c' = c₁ := by
    intro c₁ c' hc'
    rw [WsServer.lookup_put, if_pos rfl] at hc'
    exact (Option.some.inj hc').symm
  unfold WsServer.receive Fragment.receive
  rw [hc]
  dsimp only
  split
  · refine ⟨rfl, fun c' hc' => ?_⟩
    obtain ⟨c₀, hc₀, hsame⟩ := lookup_requestClose_some hc'
    obtain rfl : c₀ = c := Option.some.inj (hc₀.symm.trans hc)
    rcases hsame with rfl | rfl
    · rfl
    · rfl
  · split
    · refine ⟨rfl, fun c' hc' => ?_⟩
      obtain ⟨c₀, hc₀, rfl | rfl⟩ := lookup_requestClose_some hc'
      · rw [hput _ _ hc₀]
      · rw [hput _ _ hc₀]
    · cases f.final with
      | false => exact ⟨rfl, fun c' hc' => by rw [hput _ _ hc']; rfl⟩
      | true => exact ⟨rfl, fun c' hc' => by rw [hput _ _ hc']; rfl⟩

/-- A connection that was there keeps its buffer, or it is new and its buffer is empty. -/
theorem Collected.keep {limit : Nat} (h : Collected limit t) {w' : World} (hwired : Wired w')
    (hnext : t.world.server.nextConnId ≤ w'.server.nextConnId)
    (hconn : ∀ i c', w'.server.lookup i = some c' → c'.isWebsocket = true →
      (∃ c, t.world.server.lookup i = some c ∧ c'.tag = c.tag ∧ c'.httpBody = c.httpBody) ∨
        (c'.id = t.world.server.nextConnId ∧ c'.httpBody = [])) :
    Collected limit { t with world := w' } where
  wired := hwired
  fresh id hid := h.fresh id (Nat.le_trans hnext hid)
  framed := h.framed
  dispatched := h.dispatched
  buffer i c' hc' hws := by
    show c'.httpBody = bufferAfter limit [] (t.log c'.id).received
    rcases hconn i c' hc' hws with ⟨c, hc, htag, hbody⟩ | ⟨hid, hbody⟩
    · obtain ⟨hid, hkind⟩ := Prod.mk.inj htag
      rw [hbody, hid]
      exact h.buffer i c hc (hkind ▸ hws)
    · rw [hbody, h.fresh c'.id hid.ge]
      rfl

/-- A fragment that reaches a connection. -/
theorem Collected.receive (h : Collected (sizeT cfg.limits.maxFrameBytes) t) {wsi : Nat} {k : Socket}
    {c : Conn} (hc : t.world.server.lookup wsi = some c) (hws : c.isWebsocket = true) (f : Fragment)
    (hframed : Framed ((t.log c.id).received ++ [f])) {w' : World} (hwired : Wired w')
    (hserver : w'.server = (t.world.server.receive cfg (k.lws wsi) f.data f.binary f.final).server) :
    Collected (sizeT cfg.limits.maxFrameBytes)
      { world := w'
        log := Function.update t.log c.id ((t.log c.id).add f (messageBodies
          (t.world.server.receive cfg (k.lws wsi) f.data f.binary f.final).outputs)) } := by
  have halters : Alters cfg none t.world.server (k.lws wsi) (.receive f.data f.binary f.final)
      w'.server := by
    rw [hserver]
    exact alters_receive cfg none t.world.server (k.lws wsi) f.data f.binary f.final
  have hself : t.world.server.lookup (k.lws wsi).wsi = some c := hc
  obtain ⟨hbodies, hbuffer⟩ := receive_spec cfg hself f
  have hold := h.buffer wsi c hc hws
  obtain ⟨hnext, htags⟩ : w'.server.nextConnId = t.world.server.nextConnId ∧
      ∀ i, w'.server.tag i = t.world.server.tag i := by
    rcases halters.tags with ⟨-, hnext, htags⟩ | ⟨_, -, hopens, -⟩ | ⟨hcloses, -⟩
    · exact ⟨hnext, htags⟩
    · cases hopens
    · cases hcloses
  have hnumber := h.wired.numbered wsi c.tag (by rw [WsServer.tag, hc]; rfl)
  refine ⟨hwired, fun id hid => ?_, fun id => ?_, fun id => ?_, fun i c' hc' hws' => ?_⟩
  · rw [hnext] at hid
    show Function.update t.log c.id _ id = _
    rw [Function.update_of_ne (by rintro rfl; exact absurd hnumber (Nat.not_lt.mpr hid))]
    exact h.fresh id hid
  · show Framed (Function.update t.log c.id _ id).received
    by_cases hid : id = c.id
    · rw [hid, Function.update_self]
      exact hframed
    · rw [Function.update_of_ne hid]
      exact h.framed id
  · show (Function.update t.log c.id _ id).dispatched =
      bodiesOf _ [] (Function.update t.log c.id _ id).received
    by_cases hid : id = c.id
    · rw [hid, Function.update_self]
      show (t.log c.id).dispatched ++ messageBodies _ = bodiesOf _ [] ((t.log c.id).received ++ [f])
      rw [bodiesOf_append, ← h.dispatched, ← hold, hbodies, bodiesOf, bodiesOf, List.append_nil]
    · rw [Function.update_of_ne hid]
      exact h.dispatched id
  · show c'.httpBody = bufferAfter _ [] (Function.update t.log c.id _ c'.id).received
    -- a fragment changes the buffer of its own connection and no other
    rcases halters.conn hc' with ⟨c₀, hc₀, htag, hbody⟩ | ⟨-, hid, -⟩
    · obtain ⟨hid, hkind⟩ := Prod.mk.inj htag
      by_cases hi : i = wsi
      · subst hi
        obtain rfl : c₀ = c := Option.some.inj (hc₀.symm.trans hc)
        rw [hid, Function.update_self]
        show _ = bufferAfter _ [] ((t.log c₀.id).received ++ [f])
        rw [bufferAfter_append, ← hold, bufferAfter, bufferAfter]
        exact hbuffer c' (by rw [← hserver]; exact hc')
      · have hne : c'.id ≠ c.id := by
          intro heq
          apply hi
          exact h.wired.distinct i wsi c₀.tag c.tag (by rw [WsServer.tag, hc₀]; rfl)
            (by rw [WsServer.tag]; exact congrArg _ hc) (hid.symm.trans heq)
        rw [Function.update_of_ne hne, hbody (.inl hi), hid]
        exact h.buffer i c₀ hc₀ (hkind ▸ hws')
    · -- a fragment opens no connection
      have htag : t.world.server.tag i = some c'.tag := by
        rw [← htags i, WsServer.tag]
        exact congrArg _ hc'
      have hlt := h.wired.numbered i c'.tag htag
      exact absurd hid (Nat.ne_of_lt hlt)

/-- Any other callback. -/
theorem Collected.deliver {limit : Nat} (h : Collected limit t) {wsi : Nat} {k : Socket}
    {cb : Callback} {a : Answers} (hk : t.world.sockets wsi = some k)
    (hd : k.phase.delivers cb = true) (hne : ∀ data binary final, cb ≠ .receive data binary final)
    (hwired : Wired (t.world.deliver cfg checkBearer wsi k cb a)) :
    Collected limit { t with world := t.world.deliver cfg checkBearer wsi k cb a } := by
  have halters := alters_dispatch cfg checkBearer t.world.server (k.lws wsi) a cb
  have hnext : t.world.server.nextConnId ≤
      (t.world.server.dispatch cfg checkBearer (k.lws wsi) a cb).server.nextConnId := by
    rcases halters.tags with ⟨-, hnext, -⟩ | ⟨_, -, -, hnext, -⟩ | ⟨-, hnext, -⟩ <;> omega
  refine h.keep hwired hnext fun i c' hc' hws => ?_
  rcases halters.conn hc' with ⟨c, hc, htag, hbody⟩ | ⟨-, hid, hbody⟩
  · refine .inl ⟨c, hc, htag, hbody ?_⟩
    by_cases hi : i = wsi
    · right
      subst hi
      have hkind : c.isWebsocket = true := (Prod.mk.inj htag).2 ▸ hws
      have hfits := h.wired.fits i k hk
      rw [WsServer.tag, hc] at hfits
      have hnot : ¬k.phase.Fits (some true) ∨ cb.reads = false := by
        cases cb with
        | receive data binary final => exact absurd rfl (hne data binary final)
        | httpBody data =>
            left
            cases hph : k.phase with
            | request hd' => exact fun hfit => hfit rfl
            | _ => rw [hph] at hd; cases hd
        | httpBodyCompletion =>
            left
            cases hph : k.phase with
            | request hd' => exact fun hfit => hfit rfl
            | _ => rw [hph] at hd; cases hd
        | _ => exact .inr rfl
      have hsome : ((some c).map Conn.tag).map Prod.snd = some true := congrArg some hkind
      rw [hsome] at hfits
      exact hnot.resolve_left fun hn => hn hfits
    · exact .inl hi
  · exact .inr ⟨hid, hbody⟩

theorem Collected.step (h : Collected (sizeT cfg.limits.maxFrameBytes) t)
    (hok : oneFlag.enter t p ev) (hstep : t.step cfg checkBearer ev = some t') :
    Collected (sizeT cfg.limits.maxFrameBytes) t' := by
  obtain ⟨w', hw', rfl⟩ := Option.map_eq_some_iff.mp hstep
  have hwired := h.wired.step cfg checkBearer hw'
  cases ev with
  | connect wsi peer h2Stream =>
      simp only [World.step] at hw'
      split at hw'
      · cases hw'
      · cases hw'
        exact h.keep hwired (Nat.le_refl _) fun i c' hc' _ => .inl ⟨c', hc', rfl, rfl⟩
  | headers wsi hd =>
      simp only [World.step] at hw'
      split at hw'
      · cases hw'
        exact h.keep hwired (Nat.le_refl _) fun i c' hc' _ => .inl ⟨c', hc', rfl, rfl⟩
      · cases hw'
  | woken =>
      cases hw'
      exact h.keep hwired (Nat.le_refl _) fun i c' hc' _ => .inl ⟨c', hc', rfl, rfl⟩
  | send id frame =>
      cases hw'
      refine h.keep hwired (nextConnId_send cfg t.world.server id frame).ge fun i c' hc' _ => .inl ?_
      obtain ⟨c, hc, rfl | rfl | rfl⟩ := lookup_send_some hc' <;> exact ⟨_, hc, rfl, rfl⟩
  | requestClose id why =>
      cases hw'
      refine h.keep hwired (nextConnId_requestClose t.world.server id why).ge
        fun i c' hc' _ => .inl ?_
      obtain ⟨c, hc, rfl | rfl⟩ := lookup_requestClose_some hc' <;> exact ⟨_, hc, rfl, rfl⟩
  | callback wsi cb a =>
      simp only [World.step] at hw'
      split at hw'
      · cases hw'
      · rename_i k hk
        split_ifs at hw' with hd
        cases hw'
        cases cb with
        | receive data binary final =>
            cases hc : t.world.server.lookup wsi with
            | none =>
                -- no connection: `receive` does nothing, and nothing is recorded
                have hlog : t.recorded cfg (.callback wsi (.receive data binary final) a) = t.log := by
                  simp only [Traffic.recorded, hk, hc]
                have hserver : (t.world.server.receive cfg (k.lws wsi) data binary final).server =
                    t.world.server := by
                  unfold WsServer.receive
                  rw [show t.world.server.lookup (k.lws wsi).wsi = none from hc]
                rw [hlog]
                refine h.keep hwired (congrArg WsServer.nextConnId hserver).ge fun i c' hc' _ =>
                  .inl ⟨c', ?_, rfl, rfl⟩
                rw [← hserver]
                exact hc'
            | some c =>
                have hlog : t.recorded cfg (.callback wsi (.receive data binary final) a) =
                    Function.update t.log c.id ((t.log c.id).add ⟨data, binary, final⟩ (messageBodies
                      (t.world.server.receive cfg (k.lws wsi) data binary final).outputs)) := by
                  simp only [Traffic.recorded, hk, hc]
                -- lws delivers messages to WebSockets only
                have hws : c.isWebsocket = true := by
                  have hfits := h.wired.fits wsi k hk
                  rw [WsServer.tag, hc] at hfits
                  cases hph : k.phase with
                  | websocket hd' =>
                      rw [hph] at hfits
                      cases hkind : c.isWebsocket with
                      | true => rfl
                      | false => exact absurd (congrArg some hkind) hfits
                  | _ => rw [hph] at hd; cases hd
                rw [hlog]
                exact h.receive hc hws ⟨data, binary, final⟩ (hok c hc) hwired rfl
        | _ => exact h.deliver hk hd (fun _ _ _ hcb => by cases hcb) hwired

theorem collected_of_run {s : Interleaving.State Traffic Empty}
    (hrun : Interleaving.Run (traffic cfg checkBearer) oneFlag { shared := {} } s) :
    Collected (sizeT cfg.limits.maxFrameBytes) s.shared := by
  refine Interleaving.Run.invariant (I := fun t _ => Collected (sizeT cfg.limits.maxFrameBytes) t)
    (collected_start _) (fun {_ a _ _ _} _ _ _ => a.elim) ?_ hrun
  intro t ev e p h hok he
  obtain ⟨t', ht', rfl⟩ := Option.map_eq_some_iff.mp he
  exact h.step hok ht'

/-! ### The result -/

/-- **WebSocket reassembly is exact** on a connection exactly when each text message that was longer
than the limit went over it with its last fragment. -/
theorem dispatched_iff (lib : Nlohmann) (own text : Bytes) (cfg : BridgeConfig)
    (hcfg : parseBridgeConfig lib own text = .ok cfg) (checkBearer : Option (Bytes → Bool))
    (s : Interleaving.State Traffic Empty)
    (hrun : Interleaving.Run (traffic cfg checkBearer) oneFlag { shared := {} } s) (id : Nat) :
    (s.shared.log id).dispatched =
        textMessages cfg.limits.maxFrameBytes.toNat (s.shared.log id).received ↔
      ∀ m ∈ messages (s.shared.log id).received, isText m = true →
        Contained cfg.limits.maxFrameBytes.toNat m := by
  have hlimit : sizeT cfg.limits.maxFrameBytes = cfg.limits.maxFrameBytes.toNat := by
    have hmem : (str "max_frame_bytes", cfg.limits.maxFrameBytes) ∈ cfg.limits.named := by
      simp [Limits.named]
    have hpositive := (accepted_of_parse hcfg).positive _ hmem
    have hint := limits_lt_of_parse hcfg _ hmem
    unfold sizeT
    omega
  have h := collected_of_run hrun
  rw [← hlimit, h.dispatched id]
  exact bodiesOf_iff (h.framed id)

/-! ## Two runs

With a limit of four bytes: a message within it, and one that goes over it before its last
fragment. -/

/-- `{"expose":{"modules":["m1"]},"limits":{"max_frame_bytes":4}}`, and its value. -/
def shortFramesText : Bytes := str
  "\x7b\"expose\":\x7b\"modules\":[\"m1\"]\x7d,\"limits\":\x7b\"max_frame_bytes\":4\x7d\x7d"

def shortFramesJson : Json :=
  Json.object [(str "expose", Json.object [(str "modules", .arr [.str (str "m1")])]),
    (str "limits", Json.object [(str "max_frame_bytes", .uint 4)])]

def shortFramesLib : Nlohmann := .only shortFramesText shortFramesJson (by decide)

def shortFramesConfig : BridgeConfig :=
  { modules := [{ name := str "m1" }], limits := { maxFrameBytes := 4 } }

theorem parse_shortFrames : parseBridgeConfig shortFramesLib (str "json_rpc_bridge") shortFramesText =
    .ok shortFramesConfig := by rfl

/-- A WebSocket that receives a message in two fragments. -/
def twoFragments (first last : String) : List (Interleaving.Move Unit Event) :=
  [.enter (.connect 1 (str "127.0.0.1") false),
   .enter (.headers 1 { host := str "localhost" }),
   .enter (.callback 1 .filterProtocolConnection {}),
   .enter (.callback 1 .established {}),
   .enter (.callback 1 (.receive (str first) false false) {}),
   .enter (.callback 1 (.receive (str last) false true) {})]

/-- Four bytes in two fragments. -/
theorem dispatched_short : ∃ s,
    Interleaving.Run (traffic shortFramesConfig none) oneFlag { shared := {} } s ∧
    (s.shared.log 1).dispatched = [str "[  ]"] ∧
    ((s.shared.log 1).dispatched = textMessages 4 (s.shared.log 1).received ↔
      ∀ m ∈ messages (s.shared.log 1).received, isText m = true → Contained 4 m) := by
  have hmoves : ((traffic shortFramesConfig none).replayUnder oneFlag { shared := {} }
      (twoFragments "[ " " ]")).map (fun s => (s.shared.log 1).dispatched) = some [str "[  ]"] := by
    rfl
  obtain ⟨s, hs, hlog⟩ := Option.map_eq_some_iff.mp hmoves
  have hrun := Interleaving.Run.start.replayUnder hs
  exact ⟨s, hrun, hlog, dispatched_iff shortFramesLib (str "json_rpc_bridge") shortFramesText
    shortFramesConfig parse_shortFrames none s hrun 1⟩

/-- **The tail of an oversized message is handed over**: of `[1,2,` and `[]`, a text of seven bytes
where four are allowed, the last two are a body. -/
theorem not_dispatched_tail :
    parseBridgeConfig shortFramesLib (str "json_rpc_bridge") shortFramesText = .ok shortFramesConfig ∧
    ¬∀ s, Interleaving.Run (traffic shortFramesConfig none) oneFlag { shared := {} } s → ∀ id,
      (s.shared.log id).dispatched =
        textMessages shortFramesConfig.limits.maxFrameBytes.toNat (s.shared.log id).received := by
  refine ⟨parse_shortFrames, fun hall => ?_⟩
  have hmoves : ((traffic shortFramesConfig none).replayUnder oneFlag { shared := {} }
      (twoFragments "[1,2," "[]")).map (fun s => ((s.shared.log 1).dispatched,
        textMessages 4 (s.shared.log 1).received)) = some ([str "[]"], []) := by rfl
  obtain ⟨s, hs, hlog⟩ := Option.map_eq_some_iff.mp hmoves
  obtain ⟨hdispatched, htexts⟩ := Prod.mk.inj hlog
  have heq := hall s (Interleaving.Run.start.replayUnder hs) 1
  rw [hdispatched] at heq
  exact absurd (heq.trans htexts) (List.cons_ne_nil _ _)

end JsonRpcBridge.Server
