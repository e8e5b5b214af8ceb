import JsonRpcBridge.Compact
import JsonRpcBridge.Dispatcher.Ids
import JsonRpcBridge.Dispatcher.Tally
import Mathlib.Data.List.Forall2

/-!
# What a batch is owed

Of everything a batch still needs, some section is pending for each part exactly once: what fills a
slot, what counts it, what sends the frame. `Ledger` is that for one batch and its own sections,
`Owes` for all batches at once, and `answers_once` is what a client sees of it.
-/

namespace JsonRpcBridge.Dispatcher

open Discovery Interleaving Subscriptions

/-! ## Responses

What counts as the answer to a request, whatever the state of the bridge was when it was handled. -/

/-- `response` is what `handleOne`, or the job it submitted, answers the request `raw` with. -/
structure Reply (cfg : BridgeConfig) (lib : Nlohmann) (raw response : Json) : Prop where
  answers : ∃ bridge out now a, handleOne cfg lib bridge raw = .ok (out, now) ∧
    response = out.response a
  clean : response.Clean
  object : response.isObject = true

/-- What a full batch answers with. -/
def Batch.answer (b : Batch) : List Json → Json
  | [response] =>
    if b.restShape then restAnswer response else if b.single then response else .arr [response]
  | responses => .arr responses

section

variable {cfg : BridgeConfig} {lib : Nlohmann} {reader : ContractReader} {b : Batch}

theorem isObject_restAnswer (response : Json) : (restAnswer response).isObject = true := by
  unfold restAnswer
  split
  · rfl
  · split <;> rfl

theorem Outcome.Carries.find {out : Outcome} {id : Json} (h : out.Carries id) (a : Upstreamed) :
    (out.response a).find? (str "id") = some id := by
  cases out with
  | fill response => exact h
  | submit job => exact h a

/-- Every response is an object, for it carries an id. -/
theorem isObject_response {bridge now : Bridge} {raw : Json} {out : Outcome}
    (h : handleOne cfg lib bridge raw = .ok (out, now)) (a : Upstreamed) :
    (out.response a).isObject = true := by
  rcases answers_handleOne h with ⟨err, -, -, rfl⟩ | ⟨req, -, hanswers⟩
  · exact Json.isObject_of_find (find_id_makeError .null err)
  · exact Json.isObject_of_find (hanswers.carries.find a)

/-- The shape of a batch: it has a request, and only one unless the body was an array. -/
theorem shape_of_dispatch {draining single restShape : Bool} {route body : Bytes}
    {requests : List Json}
    (h : readBody cfg lib draining route body = .dispatch requests single restShape) :
    requests ≠ [] ∧ (single = true → requests.length = 1) ∧ (restShape = true → single = true) := by
  rcases readBody_cases cfg lib draining route body with ⟨response, hread, -⟩ |
    ⟨-, -, module, method, inner, -, -, hread⟩ | ⟨-, -, j, -, hne, -, hread⟩
  all_goals rw [hread] at h
  all_goals cases h
  · exact ⟨List.cons_ne_nil _ _, fun _ => rfl, fun _ => rfl⟩
  · refine ⟨hne, fun hsingle => ?_, fun hrest => by cases hrest⟩
    cases j with
    | arr xs => cases hsingle
    | _ => rfl

/-! ### A full batch

When every slot holds the reply to its request, the frame is the array of them in order, or the
one reply by itself. -/

theorem reply_of_forall {requests slots : List Json}
    (h : List.Forall₂ (Reply cfg lib) requests slots) :
    ∀ s ∈ slots, s.Clean ∧ s.isObject = true := by
  induction h with
  | nil => exact fun s hs => (List.not_mem_nil hs).elim
  | cons hreply _ ih =>
      intro s hs
      rcases List.mem_cons.mp hs with rfl | hs
      · exact ⟨hreply.clean, hreply.object⟩
      · exact ih s hs

/-- The slots of a full batch are all answered with. -/
theorem flushed_full {draining : Bool} {route body : Bytes}
    (hread : readBody cfg lib draining route body = .dispatch b.requests b.single b.restShape)
    {slots : List Json} (hfull : List.Forall₂ (Reply cfg lib) b.requests slots) :
    flushed b.single b.restShape slots = some (b.answer slots) := by
  obtain ⟨hne, hone, hrest⟩ := shape_of_dispatch hread
  have hfilter : slots.filter (fun s => !s.isNull) = slots := by
    apply List.filter_eq_self.mpr
    intro s hs
    obtain ⟨ms, rfl⟩ := Json.eq_obj_of_isObject (reply_of_forall hfull s hs).2
    rfl
  have hlength := hfull.length_eq
  rw [flushed, hfilter]
  cases slots with
  | nil => exact absurd (List.length_eq_zero_iff.mp hlength) hne
  | cons out more =>
      cases more with
      | nil =>
          show (if b.restShape then some _ else if b.single && true then _ else _) =
            some (if b.restShape then _ else _)
          rw [Bool.and_true]
          split
          · rfl
          · split <;> rfl
      | cons next more =>
          have hmany : b.requests.length ≠ 1 := by
            rw [hlength, List.length_cons, List.length_cons]
            omega
          have hsingle : b.single = false := by
            cases hb : b.single with
            | true => exact absurd (hone hb) hmany
            | false => rfl
          have hshape : b.restShape = false := by
            cases hb : b.restShape with
            | true => exact absurd (hone (hrest hb)) hmany
            | false => rfl
          rw [hsingle, hshape]
          rfl

theorem flush_full {draining : Bool} {route body : Bytes}
    (hread : readBody cfg lib draining route body = .dispatch b.requests b.single b.restShape)
    {slots : List Json} (hfull : List.Forall₂ (Reply cfg lib) b.requests slots) :
    flush lib b.single b.restShape slots = .ok (lib.text (b.answer slots)) := by
  have hflushed := flushed_full hread hfull
  have hclean : (b.answer slots).Clean :=
    clean_flushed (fun s hs => (reply_of_forall hfull s hs).1) hflushed
  rw [flush, hflushed]
  exact if_pos hclean

/-- A body that is no array, and a REST call, are answered with one object. -/
theorem isObject_answer {draining : Bool} {route body : Bytes}
    (hread : readBody cfg lib draining route body = .dispatch b.requests b.single b.restShape)
    (hbody : isRest route = true ∨ ∀ j, lib.parse body = some j → j.isArray = false)
    {responses : List Json} (hfull : List.Forall₂ (Reply cfg lib) b.requests responses) :
    (b.answer responses).isObject = true := by
  have hone : b.single = true := by
    rcases readBody_cases cfg lib draining route body with ⟨response, hread', -⟩ |
      ⟨-, -, module, method, inner, -, -, hread'⟩ | ⟨-, hroute, j, hparse, -, -, hread'⟩
    all_goals rw [hread'] at hread
    · cases hread
    · exact (Body.dispatch.inj hread).2.1.symm
    · rw [← (Body.dispatch.inj hread).2.1]
      rcases hbody with hrest | hbody
      · rw [hroute] at hrest
        cases hrest
      · rw [hbody j hparse]
        rfl
  obtain ⟨response, rfl⟩ : ∃ response, responses = [response] := by
    apply List.length_eq_one_iff.mp
    rw [← hfull.length_eq]
    exact (shape_of_dispatch hread).2.1 hone
  rw [Batch.answer, if_pos hone]
  split
  · exact isObject_restAnswer response
  · exact (reply_of_forall hfull response (List.mem_singleton_self _)).2

end

/-! ## The ledger of a batch

Every request of a batch is in one place: with a section that will fill its slot, in the slot, or
with the countdown that follows. The last one to count down sends. -/

/-- The slot a section has still to fill. -/
def Section.slot? : Section → Option Nat
  | .handle _ i _ | .job _ i _ | .done _ i _ | .store _ i _ => some i
  | .countDown _ | .flush _ | .send _ _ => none

@[simp] theorem Section.slot_store (k i : Nat) (response : Json) :
    (Section.store k i response).slot? = some i := rfl
@[simp] theorem Section.slot_countDown (k : Nat) : (Section.countDown k).slot? = none := rfl
@[simp] theorem Section.slot_flush (k : Nat) : (Section.flush k).slot? = none := rfl
@[simp] theorem Section.slot_send (k : Nat) (slots : List Json) :
    (Section.send k slots).slot? = none := rfl

theorem Section.phase_of_slot {x : Section} {i : Nat} (h : x.slot? = some i) :
    x.phase = .filling := by
  cases x with
  | countDown k => cases h
  | flush k => cases h
  | send k slots => cases h
  | _ => rfl

/-- What a section carries fits the request it is about. -/
def Section.Sound (cfg : BridgeConfig) (lib : Nlohmann) (requests : List Json) : Section → Prop
  | .handle _ i raw => requests[i]? = some raw
  | .job _ i work | .done _ i work => ∃ raw, requests[i]? = some raw ∧
      ∀ a : Upstreamed, a.value.Clean → Reply cfg lib raw (work.response a)
  | .store _ i response => ∃ raw, requests[i]? = some raw ∧ Reply cfg lib raw response
  | .send _ slots => List.Forall₂ (Reply cfg lib) requests slots
  | .countDown _ | .flush _ => True

/-- `q` are the pending sections of the batch `b`. -/
structure Ledger (cfg : BridgeConfig) (lib : Nlohmann) (b : Batch) (q : Multiset Section) :
    Prop where
  read : readBody cfg lib false b.route b.body = .dispatch b.requests b.single b.restShape
  /-- A slot was filled, or one section is to fill it. -/
  slot : ∀ i, b.filled.count i + carried Section.slot? i q = if i < b.requests.length then 1 else 0
  remaining : b.remaining = toDo .filling q + toDo .counting q
  closing : toDo .flushing q + toDo .sending q + b.sent.length = if b.remaining = 0 then 1 else 0
  /-- Until `flush` takes the slots. -/
  slots : toDo .filling q + toDo .counting q + toDo .flushing q ≠ 0 →
    b.slots.length = b.requests.length ∧ ∀ i ∈ b.filled, ∃ raw response,
      b.requests[i]? = some raw ∧ b.slots[i]? = some response ∧ Reply cfg lib raw response
  frames : ∀ frame ∈ b.sent, ∃ responses, List.Forall₂ (Reply cfg lib) b.requests responses ∧
    frame = lib.text (b.answer responses)

section

variable {cfg : BridgeConfig} {lib : Nlohmann} {c : Choice} {b b' : Batch} {q : Multiset Section}
  {x y : Section} {k : Nat}

/-! ### Moving through the ledger

One lemma for each way a section ends: it hands its slot on, it fills it, it counts, it is the
last to count, it takes the slots, it sends them. -/

theorem Ledger.tally (h : Ledger cfg lib b q) : Tally b q := ⟨h.remaining, h.closing⟩

/-- A section that hands its slot on to another. -/
theorem Ledger.relay (h : Ledger cfg lib b (x ::ₘ q)) (hslot : y.slot? = x.slot?)
    (hphase : y.phase = x.phase) : Ledger cfg lib b (y ::ₘ q) := by
  have hcount : ∀ t, toDo t (y ::ₘ q) = toDo t (x ::ₘ q) := by
    intro t
    rw [toDo_cons, toDo_cons, hphase]
  obtain ⟨hremaining, hclosing⟩ := h.tally.relay hphase
  refine ⟨h.read, fun i => ?_, hremaining, hclosing, ?_, h.frames⟩
  · rw [carried_cons, hslot, ← carried_cons]
    exact h.slot i
  · rw [hcount, hcount, hcount]
    exact h.slots

theorem Ledger.store {i : Nat} {raw response : Json}
    (h : Ledger cfg lib b (.store k i response ::ₘ q)) (hraw : b.requests[i]? = some raw)
    (hreply : Reply cfg lib raw response) :
    Ledger cfg lib (b.store i response) (.countDown k ::ₘ q) := by
  obtain ⟨hremaining, hclosing⟩ := h.tally.store
  obtain ⟨hread, hslot, -, -, hslots, hframes⟩ := h
  simp at hslot
  refine ⟨hread, fun j => ?_, hremaining, hclosing, fun _ => ?_, hframes⟩
  · show (b.filled ++ [i]).count j + _ = if j < b.requests.length then 1 else 0
    rw [← hslot j]
    simp [List.count_singleton]
    omega
  · obtain ⟨hlength, hfilled⟩ := hslots (by simp)
    have hlt : i < b.slots.length := hlength ▸ (List.getElem?_eq_some_iff.mp hraw).1
    refine ⟨by simpa [Batch.store] using hlength, fun j hj => ?_⟩
    by_cases hji : j = i
    · subst hji
      exact ⟨raw, response, hraw, by simp [Batch.store, hlt], hreply⟩
    · have hmem : j ∈ b.filled := by simpa [Batch.store, hji] using hj
      obtain ⟨raw', response', hraw', hget, hreply'⟩ := hfilled j hmem
      refine ⟨raw', response', hraw', ?_, hreply'⟩
      rw [← hget]
      exact List.getElem?_set_ne (Ne.symm hji)

theorem Ledger.counts (h : Ledger cfg lib b (.countDown k ::ₘ q)) (hmore : b.remaining ≠ 1) :
    Ledger cfg lib b.countDown q := by
  obtain ⟨hremaining, hclosing⟩ := h.tally.counts hmore
  obtain ⟨hread, hslot, -, -, hslots, hframes⟩ := h
  simp at hslot
  exact ⟨hread, hslot, hremaining, hclosing, fun _ => hslots (by simp), hframes⟩

theorem Ledger.last (h : Ledger cfg lib b (.countDown k ::ₘ q)) (hlast : b.remaining = 1) :
    Ledger cfg lib b.countDown (.flush k ::ₘ q) := by
  obtain ⟨hremaining, hclosing⟩ := h.tally.last hlast
  obtain ⟨hread, hslot, -, -, hslots, hframes⟩ := h
  simp at hslot
  refine ⟨hread, fun i => ?_, hremaining, hclosing, fun _ => hslots (by simp), hframes⟩
  rw [carried_cons_of_none rfl]
  exact hslot i

/-- When nothing fills a slot any more, every slot was filled once. -/
theorem Ledger.count_filled (h : Ledger cfg lib b q) (hdone : toDo .filling q = 0) (i : Nat) :
    b.filled.count i = if i < b.requests.length then 1 else 0 := by
  have hcarried : carried Section.slot? i q = 0 := by
    apply carried_of_forall
    intro x hx hslot
    exact carried_eq_zero.mp hdone x hx (congrArg some (Section.phase_of_slot hslot))
  have hslot := h.slot i
  omega

theorem Ledger.flush (h : Ledger cfg lib b (.flush k ::ₘ q)) :
    Ledger cfg lib b.taken (.send k b.slots ::ₘ q) ∧
      List.Forall₂ (Reply cfg lib) b.requests b.slots := by
  have hall := h
  obtain ⟨⟨hremaining', hclosing'⟩, hzero⟩ := h.tally.flush
  obtain ⟨hread, hslot, hremaining, hclosing, hslots, hframes⟩ := h
  simp at hslot hremaining hclosing
  rw [if_pos hzero] at hclosing
  constructor
  · refine ⟨hread, ?_, hremaining', hclosing', ?_, hframes⟩
    · intro i
      rw [carried_cons_of_none rfl]
      exact hslot i
    · intro hpending
      simp only [toDo_cons, Section.phase_send, reduceCtorEq, if_false, add_zero] at hpending
      omega
  · obtain ⟨hlength, hfilled⟩ := hslots (by simp)
    refine List.forall₂_iff_get.mpr ⟨hlength.symm, fun i hi hi' => ?_⟩
    have hcount := hall.count_filled (by simp; omega) i
    rw [if_pos hi] at hcount
    obtain ⟨raw, response, hraw, hget, hreply⟩ :=
      hfilled i (List.count_pos_iff.mp (by omega))
    obtain ⟨_, rfl⟩ := List.getElem?_eq_some_iff.mp hraw
    obtain ⟨_, rfl⟩ := List.getElem?_eq_some_iff.mp hget
    exact hreply

theorem Ledger.send {slots : List Json} {frame : Bytes}
    (h : Ledger cfg lib b (.send k slots ::ₘ q))
    (hfull : List.Forall₂ (Reply cfg lib) b.requests slots)
    (hflush : Dispatcher.flush lib b.single b.restShape slots = .ok frame) :
    Ledger cfg lib (b.sentOff frame) q := by
  obtain ⟨hremaining, hclosing⟩ := h.tally.send frame
  obtain ⟨hread, hslot, -, -, hslots, hframes⟩ := h
  have hframe : frame = lib.text (b.answer slots) :=
    Except.ok.inj (hflush.symm.trans (flush_full hread hfull))
  simp at hslot
  refine ⟨hread, hslot, hremaining, hclosing, ?_, fun f hf => ?_⟩
  · intro hpending
    exact hslots (by simpa using hpending)
  · rcases List.mem_append.mp hf with hf | hf
    · exact hframes f hf
    · exact ⟨slots, hfull, (List.mem_singleton.mp hf).trans hframe⟩

/-- Every slot of a batch was filled once when nothing fills one any more. -/
theorem Ledger.filled_perm (h : Ledger cfg lib b q) (hdone : toDo .filling q = 0) :
    b.filled.Perm (List.range b.requests.length) := by
  apply List.perm_iff_count.mpr
  intro i
  rw [h.count_filled hdone, List.count_range]

/-! ## What one section does to the ledger

A section keeps its request, or hands it on to one other. -/

/-- Upstream answers with a value that can be dumped, and `handleOne` is not asked to raise or to
echo a path. -/
def Section.Answerable (cfg : BridgeConfig) (lib : Nlohmann) (reader : ContractReader) (c : Choice) :
    Section → Prop
  | .handle _ _ raw => c.bridge.Discovered cfg lib reader ∧
      (raw.isObject = true → VersionReadable raw) ∧ ¬EchoesName cfg c.bridge raw
  | .job _ _ _ | .done _ _ _ => c.told.value.Clean
  | _ => True

/-- The condition under which every body is answered. -/
def answerable (cfg : BridgeConfig) (lib : Nlohmann) (reader : ContractReader) :
    Guard Batches Section Choice Arrival where
  run _ _ x c := x.Answerable cfg lib reader c
  enter _ _ _ := True

variable {reader : ContractReader} {made : List Section}

theorem Ledger.quiet (h : Ledger cfg lib b (x ::ₘ q)) (hsound : x.Sound cfg lib b.requests)
    (hok : x.Answerable cfg lib reader c) : x.Quiet cfg lib c b := by
  cases x with
  | handle k i raw => exact quiet_dispatched h.read (List.mem_of_getElem? hsound) hok.2.1
  | send k slots => exact ⟨_, flush_full h.read hsound⟩
  | _ => trivial

/-- Whatever a request is answered with replies to it. -/
theorem reply_of_handleOne {own text : Bytes} (hcfg : parseBridgeConfig lib own text = .ok cfg)
    (hreader : reader.Clean) {draining single restShape : Bool} {route body : Bytes}
    {requests : List Json}
    (hread : readBody cfg lib draining route body = .dispatch requests single restShape)
    {bridge now : Bridge} {raw : Json} {out : Outcome} (hraw : raw ∈ requests)
    (hbridge : bridge.Discovered cfg lib reader) (hecho : ¬EchoesName cfg bridge raw)
    (h : handleOne cfg lib bridge raw = .ok (out, now)) {a : Upstreamed} (ha : a.value.Clean) :
    Reply cfg lib raw (out.response a) :=
  ⟨⟨bridge, out, now, a, h, rfl⟩,
    clean_dispatched (hbridge.clean hcfg hreader) hread hraw hecho h ha, isObject_response h a⟩

theorem Does.ledger {own text : Bytes} (hcfg : parseBridgeConfig lib own text = .ok cfg)
    (hreader : reader.Clean) (hdoes : Does cfg lib c x b b' made)
    (h : Ledger cfg lib b (x ::ₘ q)) (hsound : x.Sound cfg lib b.requests)
    (hok : x.Answerable cfg lib reader c) :
    Ledger cfg lib b' (↑made + q) ∧ ∀ y ∈ made, y.Sound cfg lib b'.requests := by
  cases hdoes with
  -- a section that passes a response on owes the reply to its own request; where it is made, it is
  -- one
  | fills hout =>
      have hmem := List.mem_of_getElem? hsound
      obtain ⟨hbridge, -, hecho⟩ := hok
      have hreply : Reply cfg lib _ (Outcome.response {} _) :=
        reply_of_handleOne hcfg hreader h.read hmem hbridge hecho hout Json.clean_null
      exact ⟨h.relay rfl rfl, fun y hy => List.mem_singleton.mp hy ▸ ⟨_, hsound, hreply⟩⟩
  | submits hout =>
      have hmem := List.mem_of_getElem? hsound
      obtain ⟨hbridge, -, hecho⟩ := hok
      refine ⟨h.relay rfl rfl, fun y hy => ?_⟩
      obtain rfl := List.mem_singleton.mp hy
      exact ⟨_, hsound, fun a ha =>
        reply_of_handleOne hcfg hreader h.read hmem hbridge hecho hout ha⟩
  | invokes =>
      exact ⟨h.relay rfl rfl, fun y hy => List.mem_singleton.mp hy ▸ hsound⟩
  | completes =>
      obtain ⟨raw, hraw, hreply⟩ := hsound
      exact ⟨h.relay rfl rfl, fun y hy => List.mem_singleton.mp hy ▸ ⟨raw, hraw, hreply _ hok⟩⟩
  | answered =>
      obtain ⟨raw, hraw, hreply⟩ := hsound
      exact ⟨h.relay rfl rfl, fun y hy => List.mem_singleton.mp hy ▸ ⟨raw, hraw, hreply _ hok⟩⟩
  | stores =>
      obtain ⟨raw, hraw, hreply⟩ := hsound
      exact ⟨h.store hraw hreply, fun y hy => List.mem_singleton.mp hy ▸ trivial⟩
  | counts hmore =>
      refine ⟨?_, fun y hy => (List.not_mem_nil hy).elim⟩
      rw [Multiset.coe_nil, zero_add]
      exact h.counts hmore
  | last hlast => exact ⟨h.last hlast, fun y hy => List.mem_singleton.mp hy ▸ trivial⟩
  -- the count is zero, so every slot has been stored
  | takes =>
      obtain ⟨htaken, hfull⟩ := h.flush
      exact ⟨htaken, fun y hy => List.mem_singleton.mp hy ▸ hfull⟩
  | sends hflush =>
      refine ⟨?_, fun y hy => (List.not_mem_nil hy).elim⟩
      rw [Multiset.coe_nil, zero_add]
      exact h.send hsound hflush

/-! ## All batches

Batches do not share anything, so the ledgers are kept one by one. -/

/-- The process runs, and the ledger of every batch is kept. -/
structure Owes (cfg : BridgeConfig) (lib : Nlohmann) (sh : Batches) (p : Multiset Section) :
    Prop where
  alive : sh.crashed = false
  fresh : ∀ k, sh.made ≤ k → sh.batch k = none
  sound : ∀ x ∈ p, ∃ b, sh.batch x.batch = some b ∧ x.Sound cfg lib b.requests
  ledger : ∀ k b, sh.batch k = some b → Ledger cfg lib b (mine k p)

variable {sh : Batches} {p : Multiset Section} {e : Effect Batches Section} {ev : Arrival}

theorem owes_start (cfg : BridgeConfig) (lib : Nlohmann) : Owes cfg lib {} 0 where
  alive := rfl
  fresh _ _ := rfl
  sound _ hx := (Multiset.notMem_zero _ hx).elim
  ledger _ _ hb := nomatch hb

theorem Owes.run {own text : Bytes} (hcfg : parseBridgeConfig lib own text = .ok cfg)
    (hreader : reader.Clean) (h : Owes cfg lib sh (x ::ₘ p)) (hok : x.Answerable cfg lib reader c)
    (hexec : exec cfg lib sh x c = some e) : Owes cfg lib e.shared (e.made + p) := by
  obtain ⟨b, hb, hsound⟩ := h.sound x (Multiset.mem_cons_self x p)
  have hledger := h.ledger _ b hb
  rw [mine_cons_self] at hledger
  obtain ⟨b', made, hdoes, hshared, hmade⟩ := exec_does hb (hledger.quiet hsound hok) hexec
  obtain ⟨hledger', hsound'⟩ := hdoes.ledger hcfg hreader hledger hsound hok
  obtain ⟨hbatch, hrequests, -⟩ := hdoes.keeps
  have hmine : mine x.batch ↑made = (↑made : Multiset Section) := mine_of_forall hbatch
  rw [hshared, hmade]
  refine ⟨h.alive, fun k hk => ?_, fun y hy => ?_, fun k b'' hb'' => ?_⟩
  · rw [Batches.batch_put, if_neg ?_]
    · exact h.fresh k hk
    · rintro rfl
      rw [h.fresh _ hk] at hb
      cases hb
  · rcases Multiset.mem_add.mp hy with hy | hy
    · exact ⟨b', by rw [Batches.batch_put, if_pos (hbatch y hy)], hsound' y hy⟩
    · obtain ⟨b'', hb'', hy'⟩ := h.sound y (Multiset.mem_cons_of_mem hy)
      rw [Batches.batch_put]
      by_cases hsame : y.batch = x.batch
      · rw [if_pos hsame]
        rw [hsame, hb] at hb''
        cases hb''
        exact ⟨b', rfl, hrequests ▸ hy'⟩
      · rw [if_neg hsame]
        exact ⟨b'', hb'', hy'⟩
  · rw [Batches.batch_put] at hb''
    by_cases hsame : k = x.batch
    · rw [if_pos hsame] at hb''
      cases hb''
      rw [hsame, mine_add, hmine]
      exact hledger'
    · rw [if_neg hsame] at hb''
      rw [mine_add, mine_of_none fun y hy => by rw [hbatch y hy]; exact Ne.symm hsame, zero_add]
      have hother := h.ledger k b'' hb''
      rwa [mine_cons_of_ne (Ne.symm hsame)] at hother

/-! ## A body arrives

It brings a batch of its own, with a section for each request. -/

/-- One section is to fill each slot of a new batch. -/
theorem carried_handles (k i : Nat) (requests : List Json) :
    carried Section.slot? i ↑(requests.mapIdx fun i raw => Section.handle k i raw) =
      if i < requests.length then 1 else 0 := by
  induction requests using List.reverseRecOn with
  | nil => rfl
  | append_singleton requests raw ih =>
      rw [List.mapIdx_concat, carried_coe_append, ih, List.length_append, List.length_singleton]
      show _ + carried Section.slot? i {Section.handle k requests.length raw} = _
      rw [carried_singleton]
      show _ + (if some requests.length = some i then 1 else 0) = _
      simp only [Option.some.injEq]
      split_ifs <;> omega

theorem ledger_newBatch {route body : Bytes} {requests : List Json} {single restShape : Bool}
    (hread : readBody cfg lib false route body = .dispatch requests single restShape) (k : Nat) :
    Ledger cfg lib (newBatch route body requests single restShape)
      ↑(requests.mapIdx fun i raw => Section.handle k i raw) := by
  obtain ⟨hremaining, hclosing⟩ := tally_newBatch (shape_of_dispatch hread).1 k
  refine ⟨hread, fun i => ?_, hremaining, hclosing,
    fun _ => ⟨List.length_replicate, fun i hi => ?_⟩, ?_⟩
  · rw [carried_handles]
    exact Nat.zero_add _
  · exact (List.not_mem_nil hi).elim
  · exact fun frame hframe => (List.not_mem_nil hframe).elim

/-- The batch of a body that is dispatched. -/
theorem Owes.add {route body : Bytes} {requests : List Json} {single restShape : Bool}
    (h : Owes cfg lib sh p)
    (hread : readBody cfg lib false route body = .dispatch requests single restShape) :
    Owes cfg lib (sh.add (newBatch route body requests single restShape))
      (↑(requests.mapIdx fun i raw => Section.handle sh.made i raw) + p) := by
  have hold : ∀ x ∈ p, x.batch ≠ sh.made := by
    intro x hx hbatch
    obtain ⟨b, hb, -⟩ := h.sound x hx
    rw [h.fresh _ hbatch.ge] at hb
    cases hb
  have hnew : ∀ x ∈ (↑(requests.mapIdx fun i raw => Section.handle sh.made i raw) :
      Multiset Section), x.batch = sh.made ∧ x.Sound cfg lib requests := by
    intro x hx
    obtain ⟨i, hi, rfl⟩ := List.mem_mapIdx.mp (Multiset.mem_coe.mp hx)
    exact ⟨rfl, List.getElem?_eq_getElem hi⟩
  refine ⟨h.alive, fun k hk => ?_, fun x hx => ?_, fun k b hb => ?_⟩
  · rw [Batches.made_add] at hk
    rw [Batches.batch_add, if_neg (by omega)]
    exact h.fresh k (by omega)
  · rcases Multiset.mem_add.mp hx with hx | hx
    · obtain ⟨hbatch, hsound⟩ := hnew x hx
      exact ⟨_, by rw [Batches.batch_add, if_pos hbatch], hsound⟩
    · obtain ⟨b, hb, hsound⟩ := h.sound x hx
      exact ⟨b, by rw [Batches.batch_add, if_neg (hold x hx), hb], hsound⟩
  · rw [Batches.batch_add] at hb
    by_cases hsame : k = sh.made
    · rw [if_pos hsame] at hb
      cases hb
      rw [hsame, mine_add, mine_of_forall fun x hx => (hnew x hx).1, mine_of_none hold, add_zero]
      exact ledger_newBatch hread _
    · rw [if_neg hsame] at hb
      rw [mine_add, mine_of_none fun x hx => (hnew x hx).1.trans_ne (Ne.symm hsame), zero_add]
      exact h.ledger k b hb

theorem Owes.enter (h : Owes cfg lib sh p) (henter : enter cfg lib sh ev = some e) :
    Owes cfg lib e.shared (e.made + p) := by
  unfold Dispatcher.enter at henter
  rw [if_neg (by rw [h.alive]; exact Bool.false_ne_true)] at henter
  have hdispatch : ∀ {requests : List Json} {single restShape : Bool}, ev.draining = false →
      readBody cfg lib ev.draining ev.route ev.body = .dispatch requests single restShape →
      Owes cfg lib e.shared (e.made + p) := by
    intro requests single restShape hdraining hread
    rw [hread] at henter
    cases henter
    show Owes cfg lib _ (↑(_ ++ [] : List Section) + p)
    rw [List.append_nil]
    exact h.add (hdraining ▸ hread)
  rcases readBody_cases cfg lib ev.draining ev.route ev.body with ⟨response, hread, hclean, -⟩ |
    ⟨hdraining, -, module, method, inner, -, -, hread⟩ | ⟨hdraining, -, j, -, -, -, hread⟩
  · obtain ⟨text, htext⟩ : Quiet (lib.dump response) := quiet_dump hclean
    rw [hread] at henter
    dsimp only at henter
    rw [htext] at henter
    cases henter
    exact (zero_add p).symm ▸ h
  · exact hdispatch hdraining hread
  · exact hdispatch hdraining hread

/-! ## Every run

The ledgers of all batches hold throughout. So a frame that went out is the answer to the body,
and a batch with nothing pending has sent one. -/

/-- **What batches owe is kept** over every run whose requests can be answered. -/
theorem owes_of_run {own text : Bytes} (hcfg : parseBridgeConfig lib own text = .ok cfg)
    (hreader : reader.Clean) {s : State Batches Section}
    (hrun : Run (batching cfg lib) (answerable cfg lib reader) { shared := {} } s) :
    Owes cfg lib s.shared s.pending :=
  Run.invariant (owes_start cfg lib) (fun h hok hexec => h.run hcfg hreader hok hexec)
    (fun h _ henter => h.enter henter) hrun

/-- No section of a batch is ever stuck. -/
theorem Owes.runs (h : Owes cfg lib sh p) (hx : x ∈ p) (c : Choice) :
    (exec cfg lib sh x c).isSome = true := by
  obtain ⟨b, hb, -⟩ := h.sound x hx
  unfold exec
  rw [if_neg (by rw [h.alive]; exact Bool.false_ne_true)]
  cases x with
  | handle k i raw =>
      dsimp only
      split <;> rfl
  | job k i job => cases job <;> rfl
  | done k i job => rfl
  | store k i response => exact Option.isSome_map.trans (Option.isSome_of_mem hb)
  | countDown k => exact Option.isSome_map.trans (Option.isSome_of_mem hb)
  | flush k => exact Option.isSome_map.trans (Option.isSome_of_mem hb)
  | send k slots => exact Option.isSome_map.trans (Option.isSome_of_mem hb)

/-- A frame goes out only when every slot was filled. -/
theorem Ledger.done_of_sent (h : Ledger cfg lib b q) (hsent : b.sent ≠ []) :
    toDo .filling q = 0 := by
  have hpos := List.length_pos_of_ne_nil hsent
  have hclosing := h.closing
  have hremaining := h.remaining
  split_ifs at hclosing with hzero <;> omega

end

/-- **Batches answer once, completely and in order**, whatever the order in which their sections
run, as long as requests can be answered. A slot is filled once or one section is to fill it; the
frame goes out once, full, and holds a reply to each request in its place; and it is out when no
section of the batch is left. -/
theorem answers_once (lib : Nlohmann) (own text : Bytes) (cfg : BridgeConfig)
    (hcfg : parseBridgeConfig lib own text = .ok cfg) (reader : ContractReader)
    (hreader : reader.Clean) (s : State Batches Section)
    (hrun : Run (batching cfg lib) (answerable cfg lib reader) { shared := {} } s) (k : Nat)
    (b : Batch) (hb : s.shared.batch k = some b) :
    s.shared.crashed = false ∧
    readBody cfg lib false b.route b.body = .dispatch b.requests b.single b.restShape ∧
    (∀ i, b.filled.count i + carried Section.slot? i (mine k s.pending) =
      if i < b.requests.length then 1 else 0) ∧
    b.sent.length ≤ 1 ∧
    (∀ frame ∈ b.sent, b.filled.Perm (List.range b.requests.length) ∧
      ∃ responses, List.Forall₂ (Reply cfg lib) b.requests responses ∧
        frame = lib.text (b.answer responses) ∧
        (isRest b.route = true ∨ (∀ j, lib.parse b.body = some j → j.isArray = false) →
          (b.answer responses).isObject = true)) ∧
    ((∀ x ∈ s.pending, x.batch ≠ k) → b.sent.length = 1) ∧
    ∀ x ∈ s.pending, ∀ c, (exec cfg lib s.shared x c).isSome = true := by
  have howes := owes_of_run hcfg hreader hrun
  have hledger := howes.ledger k b hb
  have hclosing := hledger.closing
  refine ⟨howes.alive, hledger.read, hledger.slot, ?_, fun frame hframe => ?_, fun hnone => ?_,
    fun x hx c => howes.runs hx c⟩
  · split_ifs at hclosing <;> omega
  · obtain ⟨responses, hfull, heq⟩ := hledger.frames frame hframe
    have hdone := hledger.done_of_sent (List.ne_nil_of_mem hframe)
    exact ⟨hledger.filled_perm hdone, responses, hfull, heq,
      fun hbody => isObject_answer hledger.read hbody hfull⟩
  · have hremaining := hledger.remaining
    rw [mine_of_none hnone] at hremaining hclosing
    simp only [toDo_zero, Nat.zero_add] at hremaining hclosing
    rw [hclosing, if_pos hremaining]

/-! ## A batch, and a body that raises

A run with a batch whose first answer comes last, and the input that breaks the condition. -/

/-- What `Section.Answerable` asks beyond a bridge that discovery has led to, said without it: the
version is readable, a method that is named in the params is UTF-8, and upstream answers with a
value that can be dumped. -/
def Section.Calm (told : Upstreamed) : Section → Prop
  | .handle _ _ raw => (∀ v ∈ raw.find? (str "jsonrpc"), v.isString = true) ∧
      ∀ p ∈ raw.find? (str "params"), ∀ name ∈ p.find? (str "method"), name.Clean
  | .job _ _ _ | .done _ _ _ => told.value.Clean
  | _ => True

def calm : Guard Batches Section Choice Arrival where
  run _ _ x c := x.Calm c.told
  enter _ _ _ := True

instance (told : Upstreamed) (x : Section) : Decidable (x.Calm told) :=
  match x with
  | .handle _ _ raw => (inferInstance : Decidable
      ((∀ v ∈ raw.find? (str "jsonrpc"), v.isString = true) ∧
        ∀ p ∈ raw.find? (str "params"), ∀ name ∈ p.find? (str "method"), name.Clean))
  | .job _ _ _ | .done _ _ _ => (inferInstance : Decidable told.value.Clean)
  | .store _ _ _ | .countDown _ | .flush _ | .send _ _ => isTrue trivial

instance : calm.Decided where
  run _ _ x c := (inferInstance : Decidable (x.Calm c.told))
  enter _ _ _ := isTrue trivial

theorem Section.Calm.answerable {x : Section} {c : Choice} (h : x.Calm c.told)
    (hbridge : c.bridge.Discovered cfg lib reader) : x.Answerable cfg lib reader c := by
  cases x with
  | handle k i raw =>
      refine ⟨hbridge, fun _ v hv => h.1 v hv, ?_⟩
      rintro ⟨module, method, byName, rfl, hmethod, -⟩
      have hname : (Json.str method).Clean :=
        h.2 _ rfl _ (find_method_restTarget module method (.obj byName))
      exact hmethod (Json.clean_str_iff.mp hname)
  | _ => exact h

/-! ### A batch of three, and a REST call -/

/-- A request finds the bridge as it has just started. -/
def atStart (cfg : BridgeConfig) (told : Upstreamed) : Choice := { bridge := .started cfg, told }

/-- `[{"jsonrpc":"2.0","id":1,"method":"rpc.ping"},{"jsonrpc":"2.0","id":2,"method":"m1.x"},`
`{"jsonrpc":"2.0","id":3,"method":"m1.y"}]`, and its value. -/
def threeText : Bytes := str
  ("[\x7b\"jsonrpc\":\"2.0\",\"id\":1,\"method\":\"rpc.ping\"\x7d," ++
    "\x7b\"jsonrpc\":\"2.0\",\"id\":2,\"method\":\"m1.x\"\x7d," ++
    "\x7b\"jsonrpc\":\"2.0\",\"id\":3,\"method\":\"m1.y\"\x7d]")

def threeJson : Json :=
  let request : Nat → Bytes → Json := fun id method =>
    Json.object [(str "jsonrpc", .str (str "2.0")), (str "id", .uint id), (str "method", .str method)]
  .arr [request 1 kPing, request 2 (str "m1.x"), request 3 (str "m1.y")]

def threeLib : Nlohmann :=
  { minimalLib.also threeText threeJson (by decide +kernel) with
    text := Json.compact
    textReplacing := Json.compact }

set_option maxRecDepth 2000 in
theorem parse_threeLib :
    parseBridgeConfig threeLib (str "json_rpc_bridge") minimalText = .ok minimalConfig := by rfl

/-- A REST call comes while the batch is handled. Upstream answers the batch's second call before
its first, and the REST call is refused in between. -/
def threeMoves : List (Move Upstreamed Arrival) :=
  [.enter { body := threeText }, .run 0 {}, .run 0 {}, .run 0 {}, .run 0 {},
    .enter { route := str "/modules/m1/x", body := [] }, .run 0 {}, .run 1 {}, .run 3 {},
    .run 5 { value := .uint 3 }, .run 2 {}, .run 2 {}, .run 5 {}, .run 2 {}, .run 2 {}, .run 2 {},
    .run 5 {}, .run 4 { value := .uint 2 }, .run 4 {}, .run 4 {}, .run 4 {}, .run 4 {}]

/-- `[{"id":1,"jsonrpc":"2.0","result":"pong"},{"id":2,"jsonrpc":"2.0","result":2},`
`{"id":3,"jsonrpc":"2.0","result":3}]`. -/
def threeFrame : Bytes := str
  ("[\x7b\"id\":1,\"jsonrpc\":\"2.0\",\"result\":\"pong\"\x7d," ++
    "\x7b\"id\":2,\"jsonrpc\":\"2.0\",\"result\":2\x7d," ++
    "\x7b\"id\":3,\"jsonrpc\":\"2.0\",\"result\":3\x7d]")

theorem run_of_calm {cfg : BridgeConfig} {lib : Nlohmann} {reader : ContractReader}
    {s₀ s : State Batches Section}
    (h : Run ((batching cfg lib).choosing (atStart cfg)) (calm.choosing (atStart cfg)) s₀ s) :
    Run (batching cfg lib) (answerable cfg lib reader) s₀ s := by
  apply Run.of_choosing ?_ ?_ h
  · intro sh p x told hcalm
    exact Section.Calm.answerable hcalm (Bridge.discovered_started _ _ _)
  · exact fun _ => trivial

/-- The slots are filled in the order of the answers, and the frame holds them in that of the
requests. -/
theorem answers_once_three : ∃ s b,
    Run (batching minimalConfig threeLib) (answerable minimalConfig threeLib .refusing)
      { shared := {} } s ∧
    s.shared.batch 0 = some b ∧ b.filled = [0, 2, 1] ∧ b.sent = [threeFrame] ∧
    ∃ responses, List.Forall₂ (Reply minimalConfig threeLib) b.requests responses ∧
      threeFrame = threeLib.text (b.answer responses) := by
  have hmoves : (((batching minimalConfig threeLib).choosing (atStart minimalConfig)).replayUnder
      (calm.choosing (atStart minimalConfig)) { shared := {} } threeMoves).map
      (fun s => (s.shared.batch 0).map fun b => (b.filled, b.sent)) =
      some (some ([0, 2, 1], [threeFrame])) := by decide +kernel
  obtain ⟨s, hs, hbatch⟩ := Option.map_eq_some_iff.mp hmoves
  obtain ⟨b, hb, hend⟩ := Option.map_eq_some_iff.mp hbatch
  obtain ⟨hfilled, hsent⟩ := Prod.mk.inj hend
  have hrun : Run (batching minimalConfig threeLib)
      (answerable minimalConfig threeLib .refusing) { shared := {} } s :=
    run_of_calm (Run.start.replayUnder hs)
  obtain ⟨-, -, -, -, hframes, -, -⟩ := answers_once threeLib (str "json_rpc_bridge") minimalText
    minimalConfig parse_threeLib .refusing ContractReader.clean_refusing s hrun 0 b hb
  obtain ⟨-, responses, hreplies, htext, -⟩ :=
    hframes threeFrame (hsent ▸ List.mem_singleton_self threeFrame)
  exact ⟨s, b, hrun, hb, hfilled, hsent, responses, hreplies, htext⟩

/-- The batch of a ping whose version is the number 2 is never answered: handling it ends the
process. -/
theorem not_answers_once_numericVersion : ∃ s b,
    Run (batching minimalConfig numericVersionLib) Guard.any { shared := {} } s ∧
    s.shared.batch 0 = some b ∧ (∀ x ∈ s.pending, x.batch ≠ 0) ∧ b.requests.length = 1 ∧
    b.filled = [] ∧ b.sent = [] := by
  have hruns : (batching minimalConfig numericVersionLib).replay { shared := {} }
      [.enter { body := numericVersionText }, .run 0 {}] =
      some { shared := Batches.crash (Batches.add {} (newBatch [] numericVersionText
        [Json.object [(str "jsonrpc", .uint 2), (str "id", .uint 1), (str "method", .str kPing)]]
        true false)), threads := [[]] } := by rfl
  refine ⟨_, _, Run.start.replay hruns, rfl, ?_, rfl, rfl, rfl⟩
  intro x hx
  exact absurd hx (Multiset.notMem_zero x)

end JsonRpcBridge.Dispatcher
