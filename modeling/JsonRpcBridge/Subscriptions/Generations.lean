import JsonRpcBridge.Subscriptions.Events
import JsonRpcBridge.Upstream.Losses

/-!
# One subscription, one generation

A delivery takes no lock. It loads the set of subscribers and then the generation, and a loss may
replace both in between. What it then sends carries the new generation, to the old subscribers.

* `one_generation`: if every delivery loads its generation while the subscribers it loaded are still
  in the set, or no longer registered, and no entry that was ever lost is erased, all the events of a
  subscriber carry one generation, and those of two subscribers of one event that a loss separates
  carry different ones.
* `not_one_generation`: in other runs both may fail.

`notifyLost` writes the generation before the set, both in one section here: a delivery that loads
the set between the two writes loads what it would have loaded before them.
-/

namespace JsonRpcBridge.Subscriptions

open Interleaving Upstream

variable {limit : Int} {sh sh' : Shared} {cause : Cause} {made : List Section}

/-! ## What is observed

The log has what `add` and `notifyLost` do to the generations of the entries; the events sent
carry theirs themselves. -/

inductive GenNote where
  /-- `add` puts a subscriber into the set of an entry of this generation. -/
  | joined (key : Key) (id generation : Nat)
  | lost (key : Key)
deriving DecidableEq

def genNote (sh : Shared) (x : Section) (_ : Choice) : List GenNote :=
  match x with
  | .hub (.add _ key id) =>
    if sh.hub.closed then [] else [.joined key id (sh.hub.generationOf key)]
  | .hub (.lost key _) => if (sh.hub.find key).isSome then [.lost key] else []
  | _ => []

/-- The subscriber and the generation of an `rpc.event` frame. -/
def Message.stamp? : Message → Option (Nat × Nat)
  | .event sub _ _ generation => some (sub.owner, generation)
  | _ => none

def Section.stamp? : Section → Option (Nat × Nat)
  | .send _ m => m.stamp?
  | _ => none

/-- All the events of a subscriber carry one generation. -/
def OneGeneration (sent : List (Nat × Message)) : Prop :=
  ∀ y ∈ sent, ∀ z ∈ sent, ∀ id g g', y.2.stamp? = some (id, g) → z.2.stamp? = some (id, g') → g = g'

/-- The subscriber joins the entry of the key in this part of the history. -/
def Joins (h : List GenNote) (key : Key) (id : Nat) : Prop := ∃ g, .joined key id g ∈ h

/-- The events of two subscribers of a key that a loss of it separates carry different
generations. -/
def SplitByLoss (h : List GenNote) (sent : List (Nat × Message)) : Prop :=
  ∀ a key b id id', h = a ++ .lost key :: b → Joins a key id → Joins b key id' →
    ∀ y ∈ sent, ∀ z ∈ sent, ∀ g g', y.2.stamp? = some (id, g) → z.2.stamp? = some (id', g') → g ≠ g'

/-- When a delivery loads the generation, each subscriber it loaded is still in the set or no longer
registered. An `add` that failed erases its entry only if that was never lost. -/
def settledLoads : Guard Shared Section Choice BridgeEntry where
  run sh _ x _ :=
    (∀ a payload ids, x = .hub (.deliverTo a payload ids) →
      ∀ id ∈ ids, id ∈ (sh.hub.heap a).subscribers ∨ sh.subscribers id = none) ∧
    ∀ sub key id a, x = .hub (.undo sub key id a) →
      (Pc.undo sub key id a).change sh.hub = .empty key → (sh.hub.heap a).generation = 1
  enter _ _ _ := True

instance : settledLoads.Decided where
  run sh _ x _ := by
    induction x using Section.casesOn with
    | hub y =>
        induction y using Upstream.Pc.casesOn with
        | deliverTo a payload ids =>
            exact decidable_of_iff
              (∀ id ∈ ids, id ∈ (sh.hub.heap a).subscribers ∨ sh.subscribers id = none)
              ⟨fun h => ⟨by rintro _ _ _ ⟨⟩; exact h, by rintro _ _ _ _ ⟨⟩⟩,
                fun h => h.1 a payload ids rfl⟩
        | undo sub key id a =>
            exact decidable_of_iff ((Pc.undo sub key id a).change sh.hub = .empty key →
              (sh.hub.heap a).generation = 1)
              ⟨fun h => ⟨by rintro _ _ _ ⟨⟩, by rintro _ _ _ _ ⟨⟩; exact h⟩,
                fun h => h.2 sub key id a rfl⟩
        | _ => exact isTrue ⟨by rintro _ _ _ ⟨⟩, by rintro _ _ _ _ ⟨⟩⟩
    | _ => exact isTrue ⟨by rintro _ _ _ ⟨⟩, by rintro _ _ _ _ ⟨⟩⟩
  enter _ _ _ := isTrue trivial

/-! ## What a move adds

A generation gets into a message in one section, where the delivery loads it. -/

/-- A section of a delivery follows from another one of it. -/
theorem Act.callback {x : Section} (h : Act limit sh (.run x) sh' made) {y : Pc Subscription}
    (hy : .hub y ∈ made) (hcall : y.callback = true) :
    ∃ z, x = .hub z ∧ Pc.Delivers sh.hub z y := by
  cases h with
  | hub hx hexec =>
      obtain ⟨z, hz, hzy⟩ := List.mem_map.mp hy
      cases hzy
      exact ⟨_, rfl, Hub.exec_delivers hexec hz hcall⟩
  | joined | failed | lost | heard | dropSubscriber | releaseKey | release =>
      cases List.mem_singleton.mp hy
  | _ => cases hy

/-- The service thread delivers nothing. -/
theorem serve_callback {queued : Bool} {e : Effect Shared Section} (h : serve limit sh queued = some e)
    {y : Pc Subscription} (hy : .hub y ∈ e.made) : y.callback ≠ true := by
  unfold serve at h
  split at h
  case h_3 =>
    cases h
    simp only [subscribe, Effect.made] at hy
    split at hy
    all_goals simp at hy
  case h_4 =>
    cases h
    simp only [unsubscribe, Effect.made] at hy
    split at hy
    all_goals simp at hy
  case h_6 =>
    split at h
    all_goals cases h
    · -- the pump takes the job, which begins with its `add`
      cases List.mem_singleton.mp (Multiset.mem_coe.mp hy)
      exact Bool.false_ne_true
    · cases hy
  case h_10 | h_13 =>
    obtain ⟨_, _, rfl⟩ := Option.map_eq_some_iff.mp h
    simp [Effect.made] at hy
  case h_1 => cases h
  all_goals
    cases h
    simp [Effect.made] at hy

/-- A section of a delivery that is called from outside is the first. -/
theorem enter_callback {ev : BridgeEntry} {e : Effect Shared Section} (h : enter limit sh ev = some e)
    {y : Pc Subscription} (hy : .hub y ∈ e.made) (hcall : y.callback = true) :
    ∃ a payload, y = .deliver a payload := by
  cases ev with
  | serve queued => exact absurd hcall (serve_callback h hy)
  | attach | body | detach =>
      simp only [enter] at h
      split at h <;> cases h
      cases hy
  | deliver a payload =>
      cases h
      cases List.mem_singleton.mp (Multiset.mem_coe.mp hy)
      exact ⟨a, payload, rfl⟩
  | status | moduleLost =>
      cases h
      cases List.mem_singleton.mp (Multiset.mem_coe.mp hy)
      cases hcall
  | replace m =>
      cases h
      rcases List.mem_cons.mp (Multiset.mem_coe.mp hy) with hy | hy
      · cases hy
        cases hcall
      · cases List.mem_singleton.mp hy
        cases hcall

/-- An event is built by a delivery that finds its subscriber registered. -/
theorem Act.stamp_of_made (h : Act limit sh cause sh' made) {y : Section} (hy : y ∈ made)
    {id g : Nat} (hstamp : y.stamp? = some (id, g)) :
    ∃ sid key payload sub, cause = .run (.hub (.sink sid key payload g)) ∧
      sh.subscribers sid = some sub ∧ sub.owner = id := by
  cases h with
  | hub hx hexec =>
      obtain ⟨z, _, rfl⟩ := List.mem_map.mp hy
      cases hstamp
  | heard hsub =>
      rw [List.mem_singleton.mp hy] at hstamp
      cases hstamp
      exact ⟨_, _, _, _, rfl, hsub, rfl⟩
  | @answer _ _ _ _ _ m hs hn hm =>
      rw [List.mem_singleton.mp hy] at hstamp
      cases m with
      | event => cases hm
      | _ => cases hstamp
  | outside hmade =>
      obtain ⟨x, rfl, _⟩ := hmade y hy
      cases hstamp
  | joined | failed | lost | dropSubscriber | releaseKey | release | submit | releaseRefused
  | unhook =>
      rw [List.mem_singleton.mp hy] at hstamp
      cases hstamp
  | _ => cases hy

/-- The entry an `add` that failed erases was never lost. -/
def ErasesFresh (hub : Hub) (x : Pc Subscription) : Prop :=
  ∀ sub key id a, x = .undo sub key id a → x.change hub = .empty key → (hub.heap a).generation = 1

theorem Act.generationOf_le (h : Act limit sh cause sh' made) (hf : sh.hub.Filed)
    (herase : ∀ x, cause = .run (.hub x) → ErasesFresh sh.hub x) (key : Key) :
    sh.hub.generationOf key ≤ sh'.hub.generationOf key := by
  cases h with
  | hub _ hexec => exact (Hub.exec_edits hexec).generationOf_le hf (herase _ rfl) key
  | unhook _ hexec | unhookNext _ hexec =>
      exact (Hub.exec_edits hexec).generationOf_le hf (fun _ _ _ _ hx => nomatch hx) key
  | _ => exact Nat.le_refl _

theorem Act.generationOf_lt {key : Key} {why : Bytes}
    (h : Act limit sh (.run (.hub (.lost key why))) sh' made) (hfind : sh.hub.find key ≠ none) :
    sh.hub.generationOf key < sh'.hub.generationOf key := by
  cases h with
  | hub _ hexec => exact (Hub.exec_edits hexec).generationOf_lt hfind

theorem Act.subscriber (h : Act limit sh cause sh' made) {a id : Nat}
    (hid : id ∈ (sh'.hub.heap a).subscribers) :
    id ∈ (sh.hub.heap a).subscribers ∧
        (sh'.hub.heap a).generation = (sh.hub.heap a).generation ∨
      ∃ sub key, cause = .run (.hub (.add sub key id)) ∧ sh.hub.closed = false ∧
        (sh'.hub.heap a).generation = sh.hub.generationOf key := by
  cases h with
  | hub _ hexec =>
      rcases (Hub.exec_edits hexec).subscriber hid with hold | ⟨sub, key, rfl, hopen, hgen⟩
      · exact .inl hold
      · exact .inr ⟨sub, key, rfl, hopen, hgen⟩
  | unhook _ hexec | unhookNext _ hexec =>
      rcases (Hub.exec_edits hexec).subscriber hid with hold | ⟨_, _, hx, _⟩
      · exact .inl hold
      · cases hx
  | _ => exact .inl ⟨hid, rfl⟩

/-! ## Who has entered the hub

A subscription enters the hub once, by its `add`, and only while it is registered. -/

/-- The subscriber has been claimed, and its `add` has run. -/
def Entered (sh : Shared) (p : Multiset Section) (id : Nat) : Prop :=
  ∃ sub, sh.claimed id = some sub ∧ ¬ Waiting sh p sub

variable {others : Multiset Section} {id : Nat}

theorem Entered.step (hK : Known sh (cause.used + others)) (h : Act limit sh cause sh' made)
    (hid : Entered sh (cause.used + others) id) : Entered sh' (↑made + others) id := by
  obtain ⟨sub, hclaim, hnot⟩ := hid
  refine ⟨sub, hK.claimed_mono h hclaim, fun hw => ?_⟩
  rcases h.of_waiting hw with hserv | ⟨y, hy, hyw⟩ | hnew
  · exact hnot (.inl hserv)
  · exact hnot (.inr ⟨y, Multiset.mem_add.mpr (.inr hy), hyw⟩)
  · obtain ⟨rfl, hlt⟩ := hK.claims id sub hclaim
    exact Nat.ne_of_lt hlt hnew

/-- One that has entered and is not registered any more is not registered again. -/
theorem Entered.unregistered (hK : Known sh (cause.used + others))
    (h : Act limit sh cause sh' made) (hid : Entered sh (cause.used + others) id)
    (hnone : sh.subscribers id = none) : sh'.subscribers id = none := by
  obtain ⟨sub, hclaim, hnot⟩ := hid
  by_contra hsome
  obtain ⟨sub', hsub'⟩ := Option.ne_none_iff_exists'.mp hsome
  rcases h.of_subscribers hsub' with hold | ⟨rfl, rest, hserv, _⟩
  · cases hnone.symm.trans hold
  · have hclaim' := hK.serving sub' (by rw [hserv]; rfl)
    obtain rfl : sub = sub' := Option.some.inj (hclaim.symm.trans hclaim')
    exact hnot (.inl (by rw [hserv]; rfl))

/-- The subscriber of an `add` has entered once that has run, and not before. -/
theorem entered_of_add {sub : Subscription} {key : Key}
    (hK : Known sh ((Cause.run (.hub (.add sub key id))).used + others))
    (hN : Counted sh ((Cause.run (.hub (.add sub key id))).used + others))
    (h : Act limit sh (.run (.hub (.add sub key id))) sh' made) :
    Entered sh' (↑made + others) id ∧
      ¬ Entered sh ((Cause.run (.hub (.add sub key id))).used + others) id := by
  have hmem := Cause.mem_run (.hub (.add sub key id)) others
  obtain ⟨_, rfl⟩ := hK.own _ hmem
  have hclaim := hK.pending _ hmem sub rfl
  refine ⟨⟨sub, hK.claimed_mono h hclaim, hN.not_waiting hK h⟩, ?_⟩
  rintro ⟨sub', hclaim', hnot⟩
  obtain rfl : sub = sub' := Option.some.inj (hclaim.symm.trans hclaim')
  exact hnot (.inr ⟨_, hmem, rfl⟩)

/-! ## The invariant

The generation that a subscriber was born in is that of its entry at the time; everything sent to
it, or on its way, carries it. -/

/-- The subscriber joined an entry of this generation. -/
def BornIn (h : List GenNote) (id g : Nat) : Prop := ∃ key, .joined key id g ∈ h

structure GenInv (h : List GenNote) (sh : Shared) (p : Multiset Section) : Prop where
  member : ∀ a id, id ∈ (sh.hub.heap a).subscribers → BornIn h id (sh.hub.heap a).generation
  entered : ∀ id g, BornIn h id g → Entered sh p id
  unique : ∀ id g g', BornIn h id g → BornIn h id g' → g = g'
  loaded : ∀ a payload ids, .hub (.deliverTo a payload ids) ∈ p → ∀ id ∈ ids, ∃ g, BornIn h id g
  /-- A delivery has the generation of its subscriber, or finds nobody. -/
  sinks : ∀ id key payload g, .hub (.sink id key payload g) ∈ p →
    BornIn h id g ∨ (∃ g', BornIn h id g') ∧ sh.subscribers id = none
  pending : ∀ x ∈ p, ∀ id g, x.stamp? = some (id, g) → BornIn h id g
  sent : ∀ y ∈ sh.sent, ∀ id g, y.2.stamp? = some (id, g) → BornIn h id g
  grown : ∀ key id g, .joined key id g ∈ h → g ≤ sh.hub.generationOf key
  passed : ∀ a key b id g, h = a ++ .lost key :: b → .joined key id g ∈ a →
    g < sh.hub.generationOf key
  apart : ∀ a key b id g id' g', h = a ++ .lost key :: b → .joined key id g ∈ a →
    .joined key id' g' ∈ b → g < g'

/-! ### Notes and what they leave -/

theorem BornIn.mono {h h' : List GenNote} {g : Nat} (hborn : BornIn h id g) :
    BornIn (h ++ h') id g :=
  hborn.imp fun _ hkey => List.mem_append_left _ hkey

/-- What a move is noted as. -/
def Cause.noted (sh : Shared) : Cause → List GenNote
  | .run x => genNote sh x {}
  | .call _ => []

/-- A move is noted as a joining, as a loss, or not at all. -/
theorem Cause.noted_cases (sh : Shared) (cause : Cause) :
    cause.noted sh = [] ∨
    (∃ sub key id, cause = .run (.hub (.add sub key id)) ∧
      cause.noted sh = [.joined key id (sh.hub.generationOf key)]) ∨
    ∃ key why, cause = .run (.hub (.lost key why)) ∧ sh.hub.find key ≠ none ∧
      cause.noted sh = [.lost key] := by
  cases cause with
  | call => exact .inl rfl
  | run x =>
      cases x with
      | hub x =>
          cases x with
          | add sub key id =>
              simp only [noted, genNote]
              split
              · exact .inl rfl
              · exact .inr (.inl ⟨sub, key, id, rfl, rfl⟩)
          | lost key why =>
              simp only [noted, genNote]
              split
              · rename_i hfind
                exact .inr (.inr ⟨key, why, rfl, Option.isSome_iff_ne_none.mp hfind, rfl⟩)
              · exact .inl rfl
          | _ => exact .inl rfl
      | _ => exact .inl rfl

theorem Cause.noted_add {sub : Subscription} {key : Key} (hopen : sh.hub.closed = false) :
    (Cause.run (.hub (.add sub key id))).noted sh = [.joined key id (sh.hub.generationOf key)] := by
  simp [noted, genNote, hopen]

section Step
variable {h : List GenNote}

/-- A joining that is noted now is of a subscriber that had not joined. -/
theorem GenInv.fresh (hI : GenInv h sh (cause.used + others))
    (hL : Ledger sh (cause.used + others)) (hact : Act limit sh cause sh' made) {key : Key}
    {g : Nat} (hnoted : .joined key id g ∈ cause.noted sh) :
    cause.noted sh = [.joined key id g] ∧ g = sh.hub.generationOf key ∧
      Entered sh' (↑made + others) id ∧ ∀ g', ¬ BornIn h id g' := by
  rcases cause.noted_cases sh with hnil | ⟨sub, k, i, rfl, hadd⟩ | ⟨_, _, _, _, hlost⟩
  · rw [hnil] at hnoted
    cases hnoted
  · rw [hadd] at hnoted
    cases List.mem_singleton.mp hnoted
    obtain ⟨hafter, hbefore⟩ := entered_of_add hL.known hL.counted hact
    exact ⟨hadd, rfl, hafter, fun g' hborn => hbefore (hI.entered id g' hborn)⟩
  · rw [hlost] at hnoted
    cases List.mem_singleton.mp hnoted

/-- **Step**, of the notes. -/
theorem GenInv.step_notes (hI : GenInv h sh (cause.used + others))
    (hL : Ledger sh (cause.used + others)) (hact : Act limit sh cause sh' made)
    (herase : ∀ x, cause = .run (.hub x) → ErasesFresh sh.hub x) :
    (∀ key id g, .joined key id g ∈ h ++ cause.noted sh → g ≤ sh'.hub.generationOf key) ∧
    (∀ a key b id g, h ++ cause.noted sh = a ++ .lost key :: b → .joined key id g ∈ a →
      g < sh'.hub.generationOf key) ∧
    ∀ a key b id g id' g', h ++ cause.noted sh = a ++ .lost key :: b → .joined key id g ∈ a →
      .joined key id' g' ∈ b → g < g' := by
  have hle := hact.generationOf_le hL.known.filed herase
  -- generations only grow; a loss raises that of its key; who joins after it joins above
  refine ⟨fun key id g hborn => ?_, fun a key b id g heq hborn => ?_,
    fun a key b id g id' g' heq hborn hborn' => ?_⟩
  · rcases List.mem_append.mp hborn with hborn | hnew
    · exact (hI.grown key id g hborn).trans (hle key)
    · rw [(hI.fresh hL hact hnew).2.1]
      exact hle key
  · rcases cause.noted_cases sh with hnil | ⟨_, _, _, _, hadd⟩ | ⟨k, why, rfl, hfind, hlost⟩
    · rw [hnil, List.append_nil] at heq
      exact (hI.passed a key b id g heq hborn).trans_le (hle key)
    · rw [hadd] at heq
      rcases append_singleton_split heq with ⟨_, hne, _⟩ | ⟨b', _, hh⟩
      · cases hne
      · exact (hI.passed a key b' id g hh hborn).trans_le (hle key)
    · rw [hlost] at heq
      rcases append_singleton_split heq with ⟨_, hlast, rfl⟩ | ⟨b', _, hh⟩
      · -- the loss that is noted now
        cases hlast
        exact (hI.grown key id g hborn).trans_lt (hact.generationOf_lt hfind)
      · exact (hI.passed a key b' id g hh hborn).trans_le (hle key)
  · rcases cause.noted_cases sh with hnil | ⟨_, _, _, rfl, hadd⟩ | ⟨_, _, _, _, hlost⟩
    · rw [hnil, List.append_nil] at heq
      exact hI.apart a key b id g id' g' heq hborn hborn'
    · rw [hadd] at heq
      rcases append_singleton_split heq with ⟨_, hne, _⟩ | ⟨b', rfl, hh⟩
      · cases hne
      · rcases List.mem_append.mp hborn' with hborn' | hnew
        · exact hI.apart a key b' id g id' g' hh hborn hborn'
        · -- who joins now joins in the generation of the key
          cases List.mem_singleton.mp hnew
          exact hI.passed a key b' id g hh hborn
    · rw [hlost] at heq
      rcases append_singleton_split heq with ⟨rfl, _, _⟩ | ⟨b', rfl, hh⟩
      · cases hborn'
      · rcases List.mem_append.mp hborn' with hborn' | hnew
        · exact hI.apart a key b' id g id' g' hh hborn hborn'
        · cases List.mem_singleton.mp hnew

/-- **Step.** -/
theorem GenInv.step (hI : GenInv h sh (cause.used + others))
    (hL : Ledger sh (cause.used + others))
    (hok : Allows settledLoads sh (cause.used + others) cause)
    (hcalls : ∀ y : Pc Subscription, .hub y ∈ made → y.callback = true →
      (∃ a payload, y = .deliver a payload) ∨
        ∃ z, cause = .run (.hub z) ∧ Pc.Delivers sh.hub z y)
    (hact : Act limit sh cause sh' made) :
    GenInv (h ++ cause.noted sh) sh' (↑made + others) := by
  have herase : ∀ x, cause = .run (.hub x) → ErasesFresh sh.hub x := by
    rintro x rfl sub key id a rfl
    obtain ⟨ch, _, hundo⟩ := hok
    exact hundo sub key id a rfl
  obtain ⟨hgrown, hpassed, hapart⟩ := hI.step_notes hL hact herase
  refine ⟨fun a id hid => ?_, ?_, ?_, ?_, ?_, ?_, ?_, hgrown, hpassed, hapart⟩
  · rcases hact.subscriber hid with ⟨hold, hgen⟩ | ⟨sub, key, rfl, hopen, hgen⟩
    · rw [hgen]
      exact (hI.member a id hold).mono
    · rw [hgen, Cause.noted_add hopen]
      exact ⟨key, List.mem_append_right _ (List.mem_singleton_self _)⟩
  · rintro id g ⟨key, hborn⟩
    rcases List.mem_append.mp hborn with hborn | hnew
    · exact (hI.entered id g ⟨key, hborn⟩).step hL.known hact
    · exact (hI.fresh hL hact hnew).2.2.1
  · rintro id g g' ⟨key, hborn⟩ ⟨key', hborn'⟩
    rcases List.mem_append.mp hborn with hborn | hnew
    · rcases List.mem_append.mp hborn' with hborn' | hnew'
      · exact hI.unique id g g' ⟨key, hborn⟩ ⟨key', hborn'⟩
      · exact absurd ⟨key, hborn⟩ ((hI.fresh hL hact hnew').2.2.2 g)
    · rcases List.mem_append.mp hborn' with hborn' | hnew'
      · exact absurd ⟨key', hborn'⟩ ((hI.fresh hL hact hnew).2.2.2 g')
      · rw [(hI.fresh hL hact hnew).1] at hnew'
        cases List.mem_singleton.mp hnew'
        rfl
  · intro a payload ids hx id hid
    rcases Multiset.mem_add.mp hx with hx | hx
    · rcases hcalls _ hx rfl with ⟨_, _, hy⟩ | ⟨z, rfl, hdel⟩
      · cases hy
      · cases hdel
        exact ⟨_, (hI.member a id hid).mono⟩
    · obtain ⟨g, hborn⟩ := hI.loaded a payload ids (Multiset.mem_add.mpr (.inr hx)) id hid
      exact ⟨g, hborn.mono⟩
  · intro id key payload g hx
    have hold : (∃ g', BornIn h id g') → sh.subscribers id = none →
        (∃ g', BornIn (h ++ cause.noted sh) id g') ∧ sh'.subscribers id = none := by
      rintro ⟨g', hborn⟩ hnone
      exact ⟨⟨g', hborn.mono⟩, (hI.entered id g' hborn).unregistered hL.known hact hnone⟩
    rcases Multiset.mem_add.mp hx with hx | hx
    · rcases hcalls _ hx rfl with ⟨_, _, hy⟩ | ⟨z, rfl, hdel⟩
      · cases hy
      · cases hdel with
        | @handed a _ _ ids hid =>
            -- the generation is loaded now
            obtain ⟨ch, hload, _⟩ := hok
            rcases hload a payload ids rfl id hid with hmember | hnone
            · exact .inl (hI.member a id hmember).mono
            · exact .inr (hold (hI.loaded a payload ids (Cause.mem_run _ others) id hid) hnone)
    · rcases hI.sinks id key payload g (Multiset.mem_add.mpr (.inr hx)) with hborn | ⟨hborn, hnone⟩
      · exact .inl hborn.mono
      · exact .inr (hold hborn hnone)
  · intro x hx id g hstamp
    rcases Multiset.mem_add.mp hx with hx | hx
    · obtain ⟨sid, key, payload, sub, rfl, hsub, rfl⟩ := hact.stamp_of_made hx hstamp
      obtain ⟨rfl, _⟩ := hL.known.subscriber sid sub hsub
      rcases hI.sinks sub.owner key payload g (Cause.mem_run _ others) with hborn | ⟨_, hnone⟩
      · exact hborn.mono
      · cases hnone.symm.trans hsub
    · exact (hI.pending x (Multiset.mem_add.mpr (.inr hx)) id g hstamp).mono
  · intro y hy id g hstamp
    rcases hact.sent with heq | ⟨c, m, rfl, heq⟩
    · exact (hI.sent y (heq ▸ hy) id g hstamp).mono
    · rw [heq] at hy
      rcases List.mem_append.mp hy with hy | hy
      · exact (hI.sent y hy id g hstamp).mono
      · obtain rfl := List.mem_singleton.mp hy
        exact (hI.pending _ (Cause.mem_run (.send c m) others) id g hstamp).mono

end Step

/-! ## Runs

Two runs in which a loss comes between the two loads of a delivery. -/

theorem genInv_of_logged {h : List GenNote} {s : State Shared Section}
    (hlog : Logged (bridge limit) settledLoads genNote start h s) :
    GenInv h s.shared s.pending := by
  have hledger (s : State Shared Section) (hrun : Run (bridge limit) settledLoads start s) :
      Ledger s.shared s.pending :=
    (ledger_and_of_run (J := fun _ _ => True) trivial (fun _ _ _ _ => trivial) hrun).1
  refine Logged.invariant (J := Ledger) (I := GenInv) hledger ?_ ?_ ?_ hlog
  · refine ⟨?_, ?_, ?_, ?_, ?_, ?_, ?_, ?_, ?_, ?_⟩
    · intro a id hid
      cases hid
    · rintro id g ⟨key, hborn⟩
      cases hborn
    · rintro id g g' ⟨key, hborn⟩
      cases hborn
    · intro a payload ids hx
      exact absurd hx (Multiset.notMem_zero _)
    · intro id key payload g hx
      exact absurd hx (Multiset.notMem_zero _)
    · intro x hx
      exact absurd hx (Multiset.notMem_zero _)
    · intro y hy
      cases hy
    · intro key id g hborn
      cases hborn
    · intro a key b id g heq
      simp at heq
    · intro a key b id g id' g' heq
      simp at heq
  · intro h sh x ch e others hL hI hok hexec
    obtain ⟨made, hmade, hact⟩ :
        ∃ made : List Section, e.made = ↑made ∧ Act limit sh (.run x) e.shared made :=
      exec_act hexec
    rw [hmade]
    have hok' : Allows settledLoads sh ((Cause.run x).used + others) (.run x) := ⟨ch, hok⟩
    have hI' : GenInv h sh ((Cause.run x).used + others) := hI
    refine hI'.step hL hok' (fun y hy hcall => .inr ?_) hact
    -- a delivery passes the generation on that it has loaded
    obtain ⟨z, rfl, hdel⟩ := hact.callback hy hcall
    exact ⟨z, rfl, hdel⟩
  · intro h sh ev e p hL hI hok henter
    obtain ⟨made, hmade, hact⟩ := enter_act henter
    have hzero : (Cause.call ev).used + p = p := zero_add p
    rw [← hzero] at hL hI hok
    have hstep := hI.step hL hok (fun y hy hcall => .inl (enter_callback henter ?_ hcall)) hact
    · rw [hmade]
      exact List.append_nil h ▸ hstep
    · rw [hmade]
      exact hy

/-! ### The result -/

/-- **One subscription, one generation, if loads settle.** In every run in which each delivery loads
the generation while the subscribers it loaded are still in the set or no longer registered, and no
failed `add` erases an entry that was lost, all the events sent for a subscriber carry one
generation, and those of two subscribers of an event that a loss separates carry different ones. -/
theorem one_generation {h : List GenNote} {s : State Shared Section}
    (hlog : Logged (bridge limit) settledLoads genNote start h s) :
    OneGeneration s.shared.sent ∧ SplitByLoss h s.shared.sent := by
  have hI := genInv_of_logged hlog
  refine ⟨fun y hy z hz id g g' hstamp hstamp' => ?_, ?_⟩
  · exact hI.unique id g g' (hI.sent y hy id g hstamp) (hI.sent z hz id g' hstamp')
  · rintro a key b id id' heq ⟨g₁, hborn⟩ ⟨g₂, hborn'⟩ y hy z hz g g' hstamp hstamp'
    have hg : g = g₁ := by
      apply hI.unique id g g₁ (hI.sent y hy id g hstamp) ⟨key, ?_⟩
      rw [heq]
      exact List.mem_append_left _ hborn
    have hg' : g' = g₂ := by
      apply hI.unique id' g' g₂ (hI.sent z hz id' g' hstamp') ⟨key, ?_⟩
      rw [heq]
      exact List.mem_append_right _ (List.mem_cons_of_mem _ hborn')
    rw [hg, hg']
    exact Nat.ne_of_lt (hI.apart a key b id g₁ id' g₂ heq hborn hborn')

/-- The first event, delivered by thread 7; a loss, told by thread 8; the same client subscribes
again, in thread 13; and the second event, delivered by thread 15. -/
def lostBetween : List (Move Choice BridgeEntry) :=
  subscribed ++ [.run 5 {}, .enter (.deliver 0 .null)] ++ List.replicate 4 (.run 7 {}) ++
    .enter (.moduleLost (str "m") Upstream.kProviderChanged) :: List.replicate 5 (.run 8 {}) ++
    .enter (.body 0 [.subscribe (str "s") someEvent]) :: List.replicate 4 (.enter (.serve true)) ++
    List.replicate 3 (.run 13 {}) ++ [.enter (.deliver 0 .null)] ++ List.replicate 4 (.run 15 {})

theorem one_generation_lost_between :
    ∃ h s, Logged (bridge 1) settledLoads genNote start h s ∧
      h = [.joined someEvent 1 1, .lost someEvent, .joined someEvent 2 2] ∧
      s.shared.sent.filterMap (·.2.stamp?) = [(1, 1), (2, 2)] ∧
      OneGeneration s.shared.sent ∧ SplitByLoss h s.shared.sent := by
  obtain ⟨s, hs⟩ : ∃ s, (bridge 1).replayUnder settledLoads start lostBetween = some s :=
    ⟨_, rfl⟩
  have hlog : Logged (bridge 1) settledLoads genNote start _ s :=
    Logged.start.replayUnder hs
  have hstamps : s.shared.sent.filterMap (·.2.stamp?) = [(1, 1), (2, 2)] := by
    cases hs
    rfl
  exact ⟨_, s, hlog, rfl, hstamps, one_generation hlog⟩

/-- The delivery in thread 8 loads the subscriber and waits, while thread 9 takes the loss. It goes
on before the subscriber is told. The client subscribes again, in thread 14, and gets an event. -/
def lostInside : List (Move Choice BridgeEntry) :=
  subscribed ++ [.run 5 {}, .enter (.deliver 0 .null)] ++ List.replicate 4 (.run 7 {}) ++
    [.enter (.deliver 0 .null), .run 8 {},
      .enter (.moduleLost (str "m") Upstream.kProviderChanged), .run 9 {}, .run 9 {}] ++
    List.replicate 3 (.run 8 {}) ++ List.replicate 3 (.run 9 {}) ++
    .enter (.body 0 [.subscribe (str "s") someEvent]) :: List.replicate 4 (.enter (.serve true)) ++
    List.replicate 3 (.run 14 {}) ++ [.enter (.deliver 0 .null)] ++ List.replicate 4 (.run 16 {})

/-- **A delivery can give the new generation to the old subscribers.** The subscriber then has
events of two generations, and the second is that of whoever subscribes after the loss. -/
theorem not_one_generation :
    (¬ ∀ h s, Logged (bridge 1) Guard.any genNote start h s → OneGeneration s.shared.sent) ∧
      ¬ ∀ h s, Logged (bridge 1) Guard.any genNote start h s → SplitByLoss h s.shared.sent := by
  obtain ⟨s, hs⟩ : ∃ s, (bridge 1).replay start lostInside = some s := ⟨_, rfl⟩
  have hlog : Logged (bridge 1) Guard.any genNote start _ s := Logged.start.replay hs
  have hnotes : [] ++ (bridge 1).notes genNote start lostInside =
      [.joined someEvent 1 1] ++ .lost someEvent :: [.joined someEvent 2 2] := rfl
  rw [hnotes] at hlog
  have hstamps : s.shared.sent.filterMap (·.2.stamp?) = [(1, 1), (1, 2), (2, 2)] := by
    cases hs
    rfl
  have hsent (id g : Nat) (hmem : (id, g) ∈ [(1, 1), (1, 2), (2, 2)]) :
      ∃ y ∈ s.shared.sent, y.2.stamp? = some (id, g) := by
    rw [← hstamps] at hmem
    exact List.mem_filterMap.mp hmem
  obtain ⟨first, hfirst, hstamp₁⟩ := hsent 1 1 (by decide)
  obtain ⟨late, hlate, hstamp₂⟩ := hsent 1 2 (by decide)
  obtain ⟨next, hnext, hstamp₃⟩ := hsent 2 2 (by decide)
  refine ⟨fun hone => ?_, fun hsplit => ?_⟩
  · exact absurd (hone _ s hlog first hfirst late hlate 1 1 2 hstamp₁ hstamp₂) (by decide)
  · exact hsplit _ s hlog _ someEvent _ 1 2 rfl ⟨1, List.mem_singleton_self _⟩
      ⟨2, List.mem_singleton_self _⟩ late hlate next hnext 2 2 hstamp₂ hstamp₃ rfl

end JsonRpcBridge.Subscriptions
