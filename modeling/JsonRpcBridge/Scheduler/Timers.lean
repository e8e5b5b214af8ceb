import JsonRpcBridge.Scheduler.Model

/-!
# Timers fire once, on time, and only the latest

* `Waiting` says from the history alone which jobs are set; `Ok` what may happen next.
* `Inv.exec`: every section of the scheduler does what `Ok` allows, and its map holds the jobs that
  are `Waiting`.
* `Fires` is what follows, and holds in every run: `timers_fire`.
-/

namespace JsonRpcBridge.Scheduler

open Interleaving

variable {Callable : Type}

/-! ## Histories

A job waits from its acceptance until it is taken, replaced or cleared. `Ok` says of an event
what must have been before it. -/

/-- A job set under `key` is no longer waiting: replaced, taken, or dropped by `stop`. -/
def Event.Ends : Event → Nat → Bytes → Prop
  | .accepted _ key' _, _, key => key' = key
  | .took t' _, t, _ => t' = t
  | .cleared, _, _ => True
  | _, _, _ => False

/-- Job `t` has been set under `key`, for `due`, and is still there. -/
def Waiting (h : List Event) (t : Nat) (key : Bytes) (due : Int) : Prop :=
  ∃ h₁ h₂, h = h₁ ++ .accepted t key due :: h₂ ∧ ∀ e ∈ h₂, ¬ e.Ends t key

/-- `stop` has returned and nothing was started since. -/
def Halted (h : List Event) : Prop :=
  ∃ h₁ h₂, h = h₁ ++ .stopped :: h₂ ∧ .begun ∉ h₂

/-- What may happen after `h`. -/
def Ok (h : List Event) : Event → Prop
  | .accepted t _ _ => (∀ key due, .accepted t key due ∉ h) ∧ ¬ Halted h
  | .took t now =>
    ∃ key due, Waiting h t key due ∧ due ≤ now ∧
      ∀ t' key' due', Waiting h t' key' due' → due ≤ due'
  | .started t now =>
    (∃ now', .took t now' ∈ h) ∧ (∀ now', .started t now' ∉ h) ∧ ¬ Halted h ∧
      ∃ key due, .accepted t key due ∈ h ∧ due ≤ now
  | _ => True

/-- Every event was allowed when it happened. -/
def Lawful (h : List Event) : Prop := ∀ h₁ e h₂, h = h₁ ++ e :: h₂ → Ok h₁ e

/-- An element of `h ++ [e]` is `e`, or one of `h`. -/
theorem split_snoc {α : Type} {h h₁ h₂ : List α} {e x : α} (heq : h ++ [e] = h₁ ++ x :: h₂) :
    h₁ = h ∧ x = e ∧ h₂ = [] ∨ ∃ h₂', h₂ = h₂' ++ [e] ∧ h = h₁ ++ x :: h₂' := by
  rcases List.eq_nil_or_concat h₂ with rfl | ⟨h₂', e', rfl⟩
  · left
    obtain ⟨rfl, rfl⟩ := List.append_singleton_inj.mp heq
    exact ⟨rfl, rfl, rfl⟩
  · right
    rw [List.concat_eq_append, ← List.cons_append, ← List.append_assoc] at heq
    obtain ⟨rfl, rfl⟩ := List.append_singleton_inj.mp heq
    exact ⟨h₂', List.concat_eq_append, rfl⟩

/-! ### One event more -/

theorem waiting_snoc {h : List Event} {e : Event} {t : Nat} {key : Bytes} {due : Int} :
    Waiting (h ++ [e]) t key due ↔
      e = .accepted t key due ∨ Waiting h t key due ∧ ¬ e.Ends t key := by
  constructor
  · rintro ⟨h₁, h₂, heq, hkept⟩
    rcases split_snoc heq with ⟨-, rfl, -⟩ | ⟨h₂', rfl, rfl⟩
    · exact Or.inl rfl
    · have hlast := hkept e (List.mem_append_right _ (List.mem_singleton_self e))
      exact Or.inr ⟨⟨h₁, h₂', rfl, fun e' he' => hkept e' (List.mem_append_left _ he')⟩, hlast⟩
  · rintro (rfl | ⟨⟨h₁, h₂, rfl, hkept⟩, hends⟩)
    · exact ⟨h, [], rfl, fun e he => nomatch he⟩
    · refine ⟨h₁, h₂ ++ [e], by rw [List.append_assoc, List.cons_append], ?_⟩
      intro e' he'
      rcases List.mem_append.mp he' with he' | he'
      · exact hkept e' he'
      · rwa [List.mem_singleton.mp he']

theorem Waiting.accepted {h : List Event} {t : Nat} {key : Bytes} {due : Int}
    (hw : Waiting h t key due) : .accepted t key due ∈ h := by
  obtain ⟨h₁, h₂, rfl, -⟩ := hw
  exact List.mem_append_right _ (List.mem_cons_self)

theorem halted_snoc {h : List Event} {e : Event} :
    Halted (h ++ [e]) ↔ e = .stopped ∨ Halted h ∧ e ≠ .begun := by
  constructor
  · rintro ⟨h₁, h₂, heq, hbegun⟩
    rcases split_snoc heq with ⟨-, rfl, -⟩ | ⟨h₂', rfl, rfl⟩
    · exact Or.inl rfl
    · rw [List.mem_append, List.mem_singleton, not_or] at hbegun
      exact Or.inr ⟨⟨h₁, h₂', rfl, hbegun.1⟩, Ne.symm hbegun.2⟩
  · rintro (rfl | ⟨⟨h₁, h₂, rfl, hbegun⟩, hne⟩)
    · exact ⟨h, [], rfl, List.not_mem_nil⟩
    · refine ⟨h₁, h₂ ++ [e], by rw [List.append_assoc, List.cons_append], ?_⟩
      rw [List.mem_append, List.mem_singleton, not_or]
      exact ⟨hbegun, Ne.symm hne⟩

theorem lawful_nil : Lawful [] := by
  intro h₁ e h₂ heq
  simp at heq

theorem Lawful.snoc {h : List Event} {e : Event} (hh : Lawful h) (he : Ok h e) :
    Lawful (h ++ [e]) := by
  intro h₁ x h₂ heq
  rcases split_snoc heq with ⟨rfl, rfl, -⟩ | ⟨h₂', -, rfl⟩
  · exact he
  · exact hh h₁ x h₂' rfl

/-! ## What a lawful history is

What `Fires` promises, one promise after the other, read off a lawful history. -/

/-- A job is accepted once, taken once and started once. -/
theorem Lawful.accepted_once {h h₁ h₂ : List Event} (hh : Lawful h) {t : Nat} {key : Bytes}
    {due : Int} (heq : h = h₁ ++ .accepted t key due :: h₂) (key' : Bytes) (due' : Int) :
    .accepted t key' due' ∉ h₁ ∧ .accepted t key' due' ∉ h₂ := by
  constructor
  · exact (hh h₁ _ h₂ heq).1 key' due'
  · intro hmem
    obtain ⟨g₁, g₂, rfl⟩ := List.append_of_mem hmem
    rw [← List.cons_append, ← List.append_assoc] at heq
    apply (hh _ _ g₂ heq).1 key due
    exact List.mem_append_right _ List.mem_cons_self

theorem Lawful.started_once {h h₁ h₂ : List Event} (hh : Lawful h) {t : Nat} {now : Int}
    (heq : h = h₁ ++ .started t now :: h₂) (now' : Int) :
    .started t now' ∉ h₁ ∧ .started t now' ∉ h₂ := by
  constructor
  · exact (hh h₁ _ h₂ heq).2.1 now'
  · intro hmem
    obtain ⟨g₁, g₂, rfl⟩ := List.append_of_mem hmem
    rw [← List.cons_append, ← List.append_assoc] at heq
    apply (hh _ _ g₂ heq).2.1 now
    exact List.mem_append_right _ List.mem_cons_self

theorem Lawful.accepted_eq {h h₁ h₂ : List Event} (hh : Lawful h) {t : Nat} {key key' : Bytes}
    {due due' : Int} (heq : h = h₁ ++ .accepted t key due :: h₂)
    (hmem : .accepted t key' due' ∈ h) : key' = key ∧ due' = due := by
  have hne := hh.accepted_once heq key' due'
  rw [heq, List.mem_append, List.mem_cons] at hmem
  rcases hmem with hmem | heq' | hmem
  · exact absurd hmem hne.1
  · cases heq'
    exact ⟨rfl, rfl⟩
  · exact absurd hmem hne.2

/-- A job that was set before its end, and not after, does not wait. -/
theorem not_waiting_of_ends {g g' : List Event} {e : Event} {t : Nat} {key : Bytes} {due : Int}
    (hends : e.Ends t key) (hlater : .accepted t key due ∉ e :: g') :
    ¬ Waiting (g ++ e :: g') t key due := by
  rintro ⟨k₁, k₂, heq, hkept⟩
  rcases List.append_eq_append_iff.mp heq with ⟨c, -, hc⟩ | ⟨c, rfl, hc⟩
  · apply hlater
    rw [hc]
    exact List.mem_append_right _ List.mem_cons_self
  · cases c with
    | nil =>
      apply hlater
      rw [List.nil_append] at hc
      rw [← hc]
      exact List.mem_cons_self
    | cons x c =>
      obtain ⟨-, rfl⟩ := List.cons_eq_cons.mp hc
      exact hkept e (List.mem_append_right _ List.mem_cons_self) hends

/-- A job that was replaced before the loop took it is not taken later. -/
theorem Lawful.replaced {h h₁ h₂ h₃ : List Event} (hh : Lawful h) {t t' : Nat} {key : Bytes}
    {due due' : Int}
    (heq : h = h₁ ++ .accepted t key due :: (h₂ ++ .accepted t' key due' :: h₃))
    (htaken : ∀ now, .took t now ∉ h₂) (now : Int) : .took t now ∉ h := by
  intro hmem
  have honly : ∀ key₀ due₀, .accepted t key₀ due₀ ∈ h → key₀ = key ∧ due₀ = due := by
    intro key₀ due₀
    exact hh.accepted_eq heq
  have hfresh := hh.accepted_once heq key due
  rw [heq, List.mem_append, List.mem_cons, List.mem_append, List.mem_cons] at hmem
  rcases hmem with hmem | hmem | hmem | hmem | hmem
  · obtain ⟨g₁, g₂, rfl⟩ := List.append_of_mem hmem
    rw [List.append_assoc, List.cons_append] at heq
    obtain ⟨key₀, due₀, hwaiting, -⟩ := hh g₁ _ _ heq
    have hset : .accepted t key₀ due₀ ∈ g₁ := hwaiting.accepted
    obtain ⟨rfl, rfl⟩ := honly key₀ due₀ (heq ▸ List.mem_append_left _ hset)
    exact hfresh.1 (List.mem_append_left _ hset)
  · cases hmem
  · exact htaken now hmem
  · cases hmem
  · obtain ⟨g₁, g₂, rfl⟩ := List.append_of_mem hmem
    have hsplit : h = (h₁ ++ .accepted t key due :: h₂) ++ .accepted t' key due' :: g₁ ++
        .took t now :: g₂ := by
      rw [heq]
      simp only [List.append_assoc, List.cons_append]
    obtain ⟨key₀, due₀, hwaiting, -⟩ := hh _ _ g₂ hsplit
    obtain ⟨rfl, rfl⟩ := honly key₀ due₀ (hsplit ▸ List.mem_append_left _ hwaiting.accepted)
    refine not_waiting_of_ends (e := .accepted t' key₀ due') rfl ?_ hwaiting
    intro hlater
    apply hfresh.2
    rw [← List.cons_append]
    exact List.mem_append_right _ (List.mem_append_left (.took t now :: g₂) hlater)

theorem Lawful.not_taken {h : List Event} (hh : Lawful h) {t : Nat} {key : Bytes} {due : Int}
    (hw : Waiting h t key due) (now : Int) : .took t now ∉ h := by
  obtain ⟨h₁, h₂, heq, hkept⟩ := hw
  intro hmem
  rw [heq, List.mem_append, List.mem_cons] at hmem
  rcases hmem with hmem | hmem | hmem
  · obtain ⟨g₁, g₂, rfl⟩ := List.append_of_mem hmem
    have hsplit := heq
    rw [List.append_assoc, List.cons_append] at hsplit
    obtain ⟨key₀, due₀, hwaiting, -⟩ := hh g₁ _ _ hsplit
    apply (hh.accepted_once heq key₀ due₀).1
    exact List.mem_append_left _ hwaiting.accepted
  · cases hmem
  · exact hkept _ hmem rfl

theorem Lawful.taken {h : List Event} (hh : Lawful h) {t : Nat} {now : Int}
    (hmem : .started t now ∈ h) : ∃ now', .took t now' ∈ h := by
  obtain ⟨h₁, h₂, rfl⟩ := List.append_of_mem hmem
  obtain ⟨now', htook⟩ := (hh h₁ _ h₂ rfl).1
  exact ⟨now', List.mem_append_left _ htook⟩

theorem Lawful.after_stopped {h h₁ h₂ h₃ : List Event} (hh : Lawful h)
    (heq : h = h₁ ++ .stopped :: (h₂ ++ h₃)) (hbegun : .begun ∉ h₂) {e : Event} (he : e ∈ h₂) :
    ∃ g, Halted g ∧ Ok g e := by
  obtain ⟨g₁, g₂, rfl⟩ := List.append_of_mem he
  refine ⟨h₁ ++ .stopped :: g₁, ⟨h₁, g₁, rfl, ?_⟩, ?_⟩
  · intro hmem
    exact hbegun (List.mem_append_left _ hmem)
  · apply hh _ _ (g₂ ++ h₃)
    rw [heq]
    simp only [List.append_assoc, List.cons_append]

/-! ## The map of timers

The loop takes the earliest timer, and only when it is due. -/

theorem foldl_earlier (e : Bytes × Timer Callable) (l : List (Bytes × Timer Callable)) :
    l.foldl earlier e ∈ e :: l ∧ ∀ x ∈ e :: l, (l.foldl earlier e).2.due ≤ x.2.due := by
  induction l generalizing e with
  | nil =>
    refine ⟨List.mem_singleton_self e, ?_⟩
    intro x hx
    rw [List.mem_singleton.mp hx]
    exact Int.le_refl _
  | cons y l ih =>
    obtain ⟨hmem, hleast⟩ := ih (earlier e y)
    have hfirst := hleast _ List.mem_cons_self
    rw [List.foldl_cons]
    constructor
    · rcases List.mem_cons.mp hmem with heq | hmem
      · rw [heq, earlier]
        split
        · exact List.mem_cons_of_mem _ List.mem_cons_self
        · exact List.mem_cons_self
      · exact List.mem_cons_of_mem _ (List.mem_cons_of_mem _ hmem)
    · have hearlier : (earlier e y).2.due ≤ e.2.due ∧ (earlier e y).2.due ≤ y.2.due := by
        rw [earlier]
        split <;> omega
      intro x hx
      rcases List.mem_cons.mp hx with rfl | hx
      · exact Int.le_trans hfirst hearlier.1
      rcases List.mem_cons.mp hx with rfl | hx
      · exact Int.le_trans hfirst hearlier.2
      · exact hleast x (List.mem_cons_of_mem _ hx)

theorem ready_spec {s : RetryScheduler Callable} {key : Bytes} {timer : Timer Callable}
    (hready : s.ready = some (key, timer)) :
    (key, timer) ∈ s.timers ∧ timer.due ≤ s.now ∧ ∀ e ∈ s.timers, timer.due ≤ e.2.due := by
  obtain ⟨hnext, hdue⟩ := Option.filter_eq_some_iff.mp hready
  rw [RetryScheduler.next] at hnext
  split at hnext
  · cases hnext
  · rename_i e rest htimers
    obtain ⟨hmem, hleast⟩ := foldl_earlier e rest
    rw [Option.some.inj hnext, ← htimers] at hmem hleast
    exact ⟨hmem, of_decide_eq_true hdue, hleast⟩

/-! ## The invariant

`Books` ties the map to the history, `Inv` adds where the loop is: there is one at most, and it
has the job it took in its hands. -/

/-- The map holds the jobs that are waiting. -/
structure Books (h : List Event) (timers : List (Bytes × Timer Callable)) (tickets : Nat) :
    Prop where
  lawful : Lawful h
  sorted : OrderedMap.Sorted bytesLt timers
  waiting : ∀ t key due, Waiting h t key due ↔
    ∃ timer, (key, timer) ∈ timers ∧ timer.ticket = t ∧ timer.due = due
  tickets : ∀ t key due, .accepted t key due ∈ h → t < tickets

section Books

variable {h : List Event} {timers : List (Bytes × Timer Callable)} {tickets : Nat}

/-! ### The map and the history

Three events change what is waiting, and with each of them the map follows. Any other event
leaves the map right as it is. -/

/-- An event that sets no job and ends none. -/
def Event.Quiet : Event → Prop
  | .accepted _ _ _ | .took _ _ | .cleared => False
  | _ => True

theorem Books.quiet (hb : Books h timers tickets) {e : Event} (hquiet : e.Quiet) (hok : Ok h e) :
    Books (h ++ [e]) timers tickets where
  lawful := hb.lawful.snoc hok
  sorted := hb.sorted
  waiting t key due := by
    rw [← hb.waiting t key due, waiting_snoc]
    constructor
    · rintro (rfl | ⟨hw, -⟩)
      · exact hquiet.elim
      · exact hw
    · intro hw
      refine Or.inr ⟨hw, ?_⟩
      intro hends
      cases e <;> first | exact hquiet.elim | exact hends.elim
  tickets t key due hmem := by
    rcases List.mem_append.mp hmem with hmem | hmem
    · exact hb.tickets t key due hmem
    · rw [← List.mem_singleton.mp hmem] at hquiet
      exact hquiet.elim

theorem Books.accept (hb : Books h timers tickets) (hhalted : ¬ Halted h) (key : Bytes)
    (timer : Timer Callable) (hticket : timer.ticket = tickets) :
    Books (h ++ [.accepted tickets key timer.due]) (OrderedMap.assign bytesLt key timer timers)
      (tickets + 1) where
  lawful := by
    apply hb.lawful.snoc
    refine ⟨?_, hhalted⟩
    intro key due hmem
    exact Nat.lt_irrefl _ (hb.tickets _ _ _ hmem)
  sorted := hb.sorted.assign key timer
  waiting t key' due := by
    rw [waiting_snoc, hb.waiting]
    constructor
    · rintro (heq | ⟨⟨timer', hmem, ht, hdue⟩, hends⟩)
      · obtain ⟨rfl, rfl, rfl⟩ := heq
        exact ⟨timer, hb.sorted.mem_assign.mpr (Or.inl rfl), hticket, rfl⟩
      · exact ⟨timer', hb.sorted.mem_assign.mpr (Or.inr ⟨hmem, Ne.symm hends⟩), ht, hdue⟩
    · rintro ⟨timer', hmem, rfl, rfl⟩
      rcases hb.sorted.mem_assign.mp hmem with heq | ⟨hmem, hne⟩
      · obtain ⟨rfl, rfl⟩ := Prod.mk.inj heq
        rw [hticket]
        exact Or.inl rfl
      · exact Or.inr ⟨⟨timer', hmem, rfl, rfl⟩, Ne.symm hne⟩
  tickets t key due hmem := by
    rcases List.mem_append.mp hmem with hmem | hmem
    · exact Nat.lt_succ_of_lt (hb.tickets t key due hmem)
    · cases List.mem_singleton.mp hmem
      exact Nat.lt_succ_self _

theorem Books.clear (hb : Books h timers tickets) :
    Books (h ++ [.cleared]) ([] : List (Bytes × Timer Callable)) tickets where
  lawful := hb.lawful.snoc trivial
  sorted := List.Pairwise.nil
  waiting t key due := by
    rw [waiting_snoc]
    simp [Event.Ends]
  tickets t key due hmem := by
    rcases List.mem_append.mp hmem with hmem | hmem
    · exact hb.tickets t key due hmem
    · cases List.mem_singleton.mp hmem

theorem Books.take (hb : Books h timers tickets) {key : Bytes} {timer : Timer Callable} {now : Int}
    (hmem : (key, timer) ∈ timers) (hdue : timer.due ≤ now)
    (hleast : ∀ e ∈ timers, timer.due ≤ e.2.due) :
    Books (h ++ [.took timer.ticket now]) (timers.filter fun e => e.1 != key) tickets where
  lawful := by
    apply hb.lawful.snoc
    refine ⟨key, timer.due, (hb.waiting _ _ _).mpr ⟨timer, hmem, rfl, rfl⟩, hdue, ?_⟩
    intro t' key' due' hwaiting
    obtain ⟨timer', hmem', -, rfl⟩ := (hb.waiting _ _ _).mp hwaiting
    exact hleast _ hmem'
  sorted := hb.sorted.filter _
  waiting t key' due := by
    rw [waiting_snoc, hb.waiting]
    have hset := (hb.waiting _ _ _).mpr ⟨timer, hmem, rfl, rfl⟩
    constructor
    · rintro (heq | ⟨⟨timer', hmem', rfl, rfl⟩, hends⟩)
      · cases heq
      · refine ⟨timer', List.mem_filter.mpr ⟨hmem', bne_iff_ne.mpr ?_⟩, rfl, rfl⟩
        rintro rfl
        exact hends (congrArg Timer.ticket (hb.sorted.unique hmem hmem'))
    · rintro ⟨timer', hmem', rfl, rfl⟩
      obtain ⟨hmem', hne⟩ := List.mem_filter.mp hmem'
      refine Or.inr ⟨⟨timer', hmem', rfl, rfl⟩, ?_⟩
      -- a ticket is accepted under one key
      intro (hticket : timer.ticket = timer'.ticket)
      have hset' := (hb.waiting _ _ _).mpr ⟨timer', hmem', rfl, rfl⟩
      obtain ⟨h₁, h₂, heq⟩ := List.append_of_mem hset.accepted
      have hkey := hb.lawful.accepted_eq heq (hticket ▸ hset'.accepted)
      exact bne_iff_ne.mp hne hkey.1
  tickets t key due hmem := by
    rcases List.mem_append.mp hmem with hmem | hmem
    · exact hb.tickets t key due hmem
    · cases List.mem_singleton.mp hmem

end Books

/-! ### The loop -/

/-- The sections of the one thread that runs `loop`. -/
def Section.ofLoop : Section Callable → Bool
  | .loop | .run _ => true
  | _ => false

/-- A job between its removal from the map and its start. -/
structure Taken (h : List Event) (now : Int) (timer : Timer Callable) : Prop where
  took : ∃ now', .took timer.ticket now' ∈ h
  fresh : ∀ now', .started timer.ticket now' ∉ h
  due : ∃ key, .accepted timer.ticket key timer.due ∈ h
  late : timer.due ≤ now

structure Inv (h : List Event) (s : RetryScheduler Callable) (p : Multiset (Section Callable)) :
    Prop where
  books : Books h s.timers s.tickets
  dropped : s.stop = true → s.timers = []
  joined : s.thread ≠ .running → s.stop = true
  halted : Halted h → s.thread = .none
  loops : p.countP (fun a => a.ofLoop) = if s.thread = .running then 1 else 0
  taken : ∀ timer, .run timer ∈ p → Taken h s.now timer

theorem Taken.snoc {h : List Event} {now : Int} {timer : Timer Callable} {e : Event}
    (ht : Taken h now timer) (he : ∀ now', e ≠ .started timer.ticket now') :
    Taken (h ++ [e]) now timer where
  took := by
    obtain ⟨now', htook⟩ := ht.took
    exact ⟨now', List.mem_append_left _ htook⟩
  fresh now' hmem := by
    rcases List.mem_append.mp hmem with hmem | hmem
    · exact ht.fresh now' hmem
    · exact he now' (List.mem_singleton.mp hmem).symm
  due := by
    obtain ⟨key, hset⟩ := ht.due
    exact ⟨key, List.mem_append_left _ hset⟩
  late := ht.late

theorem Halted.of_snoc {h : List Event} {e : Event} (hh : Halted (h ++ [e])) (he : e ≠ .stopped) :
    Halted h := by
  rcases halted_snoc.mp hh with heq | ⟨hh, -⟩
  · exact absurd heq he
  · exact hh

section Inv

variable {h : List Event} {s : RetryScheduler Callable} {others : Multiset (Section Callable)}

theorem Inv.loops_of {a : Section Callable} (hi : Inv h s (a ::ₘ others))
    (ha : a.ofLoop = false) :
    others.countP (fun a => a.ofLoop) = if s.thread = .running then 1 else 0 := by
  rw [← hi.loops, Multiset.countP_cons_of_neg]
  rw [ha]
  exact Bool.false_ne_true

theorem Inv.taken_of {a : Section Callable} (hi : Inv h s (a ::ₘ others)) {e : Event}
    (he : ∀ t now, e ≠ .started t now) (timer : Timer Callable) (hmem : .run timer ∈ others) :
    Taken (h ++ [e]) s.now timer :=
  (hi.taken timer (Multiset.mem_cons_of_mem hmem)).snoc (he timer.ticket)

/-- There is one thread that runs `loop`. -/
theorem Inv.alone {a : Section Callable} (hi : Inv h s (a ::ₘ others)) (ha : a.ofLoop = true) :
    s.thread = .running ∧ others.countP (fun a => a.ofLoop) = 0 := by
  have hloops := hi.loops
  rw [Multiset.countP_cons_of_pos (p := fun a : Section Callable => a.ofLoop) others ha] at hloops
  split at hloops
  · rename_i hrunning
    exact ⟨hrunning, Nat.succ.inj hloops⟩
  · cases hloops

theorem Inv.not_run {a : Section Callable} (hi : Inv h s (a ::ₘ others)) (ha : a.ofLoop = true)
    (timer : Timer Callable) : .run timer ∉ others := by
  intro hmem
  exact Multiset.countP_eq_zero.mp (hi.alone ha).2 _ hmem rfl

theorem Inv.not_halted {a : Section Callable} (hi : Inv h s (a ::ₘ others))
    (ha : a.ofLoop = true) : ¬ Halted h := by
  intro hhalted
  have hrunning := (hi.alone ha).1
  rw [hi.halted hhalted] at hrunning
  cases hrunning

theorem countP_cons_loop {a : Section Callable} (ha : a.ofLoop = true) :
    (a ::ₘ others).countP (fun a => a.ofLoop) = others.countP (fun a => a.ofLoop) + 1 :=
  Multiset.countP_cons_of_pos (p := fun a : Section Callable => a.ofLoop) others ha

/-! ### Section by section -/

theorem Inv.start (hi : Inv h s (.start ::ₘ others)) (hnone : s.thread = .none) :
    Inv (h ++ [.begun]) { s with stop := false, thread := .running } (.loop ::ₘ others) where
  books := hi.books.quiet trivial trivial
  dropped h := nomatch h
  joined h := absurd rfl h
  halted hhalted := by
    rcases halted_snoc.mp hhalted with heq | ⟨-, hne⟩
    · cases heq
    · exact absurd rfl hne
  loops := by
    rw [countP_cons_loop rfl, hi.loops_of rfl, hnone]
    rfl
  taken timer hmem := by
    rcases Multiset.mem_cons.mp hmem with hmem | hmem
    · cases hmem
    · exact hi.taken_of (by simp) timer hmem

theorem Inv.schedule {key : Bytes} {delay : Int} {job : Option Callable}
    (hi : Inv h s (.schedule key delay job ::ₘ others)) :
    Inv (h ++ note s (.schedule key delay job) ()) (s.schedule key delay job).2 others := by
  by_cases hstop : s.stop = true
  · have hrefused : s.schedule key delay job = (false, s) := if_pos hstop
    rw [note, hrefused]
    exact {
      books := hi.books.quiet trivial trivial
      dropped := hi.dropped
      joined := hi.joined
      halted := fun hhalted => hi.halted (hhalted.of_snoc (by simp))
      loops := hi.loops_of rfl
      taken := hi.taken_of (by simp) }
  · have haccepted : s.schedule key delay job = (true, _) := if_neg hstop
    have hrunning : ¬ Halted h := by
      intro hhalted
      apply hstop
      apply hi.joined
      rw [hi.halted hhalted]
      exact Thread.noConfusion
    rw [note, haccepted]
    exact {
      books := hi.books.accept hrunning key { due := s.deadline delay, job, ticket := s.tickets } rfl
      dropped := fun h => absurd h hstop
      joined := hi.joined
      halted := fun hhalted => absurd (hhalted.of_snoc (by simp)) hrunning
      loops := hi.loops_of rfl
      taken := hi.taken_of (by simp) }

theorem Inv.stop (hi : Inv h s (.stop ::ₘ others)) :
    Inv (h ++ [.cleared]) { s with stop := true, timers := [] } (.join ::ₘ others) where
  books := hi.books.clear
  dropped _ := rfl
  joined _ := rfl
  halted hhalted := hi.halted (hhalted.of_snoc (by simp))
  loops := by
    rw [Multiset.countP_cons_of_neg]
    · exact hi.loops_of rfl
    · exact Bool.false_ne_true
  taken timer hmem := by
    rcases Multiset.mem_cons.mp hmem with hmem | hmem
    · cases hmem
    · exact hi.taken_of (by simp) timer hmem

theorem Inv.join (hi : Inv h s (.join ::ₘ others)) (hthread : s.thread ≠ .running) :
    Inv (h ++ [.stopped]) { s with thread := .none } others where
  books := hi.books.quiet trivial trivial
  dropped := hi.dropped
  joined _ := hi.joined hthread
  halted _ := rfl
  loops := by
    rw [hi.loops_of rfl, if_neg hthread]
    rfl
  taken := hi.taken_of (by simp)

/-- The loop waits, or it has been notified for nothing. -/
theorem Inv.wait (hi : Inv h s (.loop ::ₘ others)) : Inv (h ++ []) s (.loop ::ₘ others) := by
  rwa [List.append_nil]

theorem Inv.leave (hi : Inv h s (.loop ::ₘ others)) (hstop : s.stop = true) :
    Inv (h ++ []) { s with thread := .ended } others := by
  rw [List.append_nil]
  exact {
    books := hi.books
    dropped := hi.dropped
    joined := fun _ => hstop
    halted := fun hhalted => absurd hhalted (hi.not_halted rfl)
    loops := (hi.alone rfl).2
    taken := fun timer hmem => hi.taken timer (Multiset.mem_cons_of_mem hmem) }

theorem Inv.take (hi : Inv h s (.loop ::ₘ others)) {key : Bytes} {timer : Timer Callable}
    (hready : s.ready = some (key, timer)) (hstop : s.stop = false) :
    Inv (h ++ [.took timer.ticket s.now]) { s with timers := s.timers.filter fun e => e.1 != key }
      (.run timer ::ₘ others) := by
  obtain ⟨hmem, hdue, hleast⟩ := ready_spec hready
  have hwaiting := (hi.books.waiting _ _ _).mpr ⟨timer, hmem, rfl, rfl⟩
  exact {
    books := hi.books.take hmem hdue hleast
    dropped := fun h => nomatch hstop.symm.trans h
    joined := hi.joined
    halted := fun hhalted => hi.halted (hhalted.of_snoc (by simp))
    loops := by
      rw [countP_cons_loop rfl, (hi.alone rfl).2, (hi.alone rfl).1]
      rfl
    taken := by
      intro timer' hmem'
      rcases Multiset.mem_cons.mp hmem' with heq | hmem'
      · obtain rfl := Section.run.inj heq
        refine ⟨⟨s.now, by simp⟩, ?_, ⟨key, List.mem_append_left _ hwaiting.accepted⟩, hdue⟩
        intro now' hstarted
        rcases List.mem_append.mp hstarted with hstarted | hstarted
        · obtain ⟨now'', htook⟩ := hi.books.lawful.taken hstarted
          exact hi.books.lawful.not_taken hwaiting now'' htook
        · cases List.mem_singleton.mp hstarted
      · exact hi.taken_of (by simp) timer' hmem' }

theorem Inv.run {timer : Timer Callable} (hi : Inv h s (.run timer ::ₘ others)) :
    Inv (h ++ note s (.run timer) ()) s (.loop ::ₘ others) := by
  have hloops : (.loop ::ₘ others).countP (fun a : Section Callable => a.ofLoop) =
      if s.thread = .running then 1 else 0 := by
    rw [countP_cons_loop rfl, (hi.alone rfl).2, (hi.alone rfl).1]
    rfl
  have hnone : ∀ timer', .run timer' ∉ Section.loop ::ₘ others := by
    intro timer' hmem
    rcases Multiset.mem_cons.mp hmem with hmem | hmem
    · cases hmem
    · exact hi.not_run rfl timer' hmem
  have ht := hi.taken timer (Multiset.mem_cons_self _ _)
  rw [note]
  split
  · exact {
      books := by
        apply hi.books.quiet (e := .started timer.ticket s.now) trivial
        obtain ⟨key, hset⟩ := ht.due
        exact ⟨ht.took, ht.fresh, hi.not_halted rfl, key, timer.due, hset, ht.late⟩
      dropped := hi.dropped
      joined := hi.joined
      halted := fun hhalted => hi.halted (hhalted.of_snoc (by simp))
      loops := hloops
      taken := fun timer' hmem => absurd hmem (hnone timer') }
  · rw [List.append_nil]
    exact {
      hi with
      loops := hloops
      taken := fun timer' hmem => absurd hmem (hnone timer') }

/-- A section after which its thread is done. -/
theorem made_done (s : RetryScheduler Callable) (p : Multiset (Section Callable)) :
    ({ shared := s } : Effect (RetryScheduler Callable) (Section Callable)).made + p = p :=
  zero_add p

theorem Inv.exec {a : Section Callable} {c : Unit}
    {e : Effect (RetryScheduler Callable) (Section Callable)} (hi : Inv h s (a ::ₘ others))
    (hexec : exec s a c = some e) : Inv (h ++ note s a c) e.shared (e.made + others) := by
  cases a with
  -- one lemma for each branch: what it does to the map, and what it adds to the history
  | start =>
    rw [Scheduler.exec] at hexec
    rw [note]
    split at hexec
    · rename_i hnone
      cases hexec
      rw [if_pos hnone]
      exact hi.start hnone
    · rename_i hsome
      cases hexec
      rw [if_neg hsome, List.append_nil, made_done]
      exact {
        hi with
        loops := hi.loops_of rfl
        taken := fun timer hmem => hi.taken timer (Multiset.mem_cons_of_mem hmem) }
  | schedule key delay job =>
    cases hexec
    rw [made_done]
    exact hi.schedule
  | stop =>
    cases hexec
    exact hi.stop
  | join =>
    rw [Scheduler.exec] at hexec
    split at hexec
    · rename_i hnone
      cases hexec
      have hjoin := hi.join (by rw [hnone]; exact Thread.noConfusion)
      rw [← hnone] at hjoin
      rw [made_done]
      exact hjoin
    · cases hexec
    · rename_i hended
      cases hexec
      rw [made_done]
      exact hi.join (by rw [hended]; exact Thread.noConfusion)
  | loop =>
    rw [Scheduler.exec] at hexec
    rw [note]
    split at hexec
    · rename_i hstop
      cases hexec
      rw [if_pos hstop, made_done]
      exact hi.leave hstop
    · rename_i hstop
      rw [if_neg hstop]
      split at hexec
      · rename_i hnone
        cases hexec
        rw [hnone]
        exact hi.wait
      · rename_i key timer hready
        cases hexec
        rw [hready]
        exact hi.take hready (Bool.eq_false_of_not_eq_true hstop)
  | run timer =>
    cases hexec
    exact hi.run

/-! ### Calls and time -/

theorem Inv.call {a : Section Callable} (hi : Inv h s others) (ha : a.ofLoop = false) :
    Inv h s (a ::ₘ others) where
  books := hi.books
  dropped := hi.dropped
  joined := hi.joined
  halted := hi.halted
  loops := by
    rw [Multiset.countP_cons_of_neg]
    · exact hi.loops
    · rw [ha]
      exact Bool.false_ne_true
  taken timer hmem := by
    rcases Multiset.mem_cons.mp hmem with rfl | hmem
    · cases ha
    · exact hi.taken timer hmem

theorem Inv.tick (hi : Inv h s others) (d : Nat) : Inv h { s with now := s.now + d } others where
  books := hi.books
  dropped := hi.dropped
  joined := hi.joined
  halted := hi.halted
  loops := hi.loops
  taken timer hmem := by
    have ht := hi.taken timer hmem
    have hlate := ht.late
    refine { ht with late := ?_ }
    show timer.due ≤ s.now + d
    omega

theorem Inv.enter {ev : Entry Callable}
    {e : Effect (RetryScheduler Callable) (Section Callable)} (hi : Inv h s others)
    (henter : enter s ev = some e) : Inv h e.shared (e.made + others) := by
  cases ev with
  | start =>
    cases henter
    exact hi.call rfl
  | schedule key delay job =>
    cases henter
    exact hi.call rfl
  | stop =>
    cases henter
    exact hi.call rfl
  | tick d =>
    cases henter
    rw [made_done]
    exact hi.tick d

end Inv

theorem inv_initial : Inv [] ({} : RetryScheduler Callable) 0 where
  books := {
    lawful := lawful_nil
    sorted := List.Pairwise.nil
    waiting := by
      intro t key due
      constructor
      · rintro ⟨h₁, h₂, heq, -⟩
        simp at heq
      · rintro ⟨timer, hmem, -⟩
        cases hmem
    tickets := fun _ _ _ hmem => nomatch hmem }
  dropped _ := rfl
  joined _ := rfl
  halted _ := rfl
  loops := rfl
  taken _ hmem := nomatch hmem

/-- What jobs may rely on. -/
structure Fires (h : List Event) : Prop where
  /-- Every accepted call has a ticket of its own. -/
  tickets : ∀ h₁ h₂ t key due, h = h₁ ++ .accepted t key due :: h₂ →
    ∀ key' due', .accepted t key' due' ∉ h₁ ∧ .accepted t key' due' ∉ h₂
  once : ∀ h₁ h₂ t now, h = h₁ ++ .started t now :: h₂ →
    ∀ now', .started t now' ∉ h₁ ∧ .started t now' ∉ h₂
  /-- After it was accepted, and not before its deadline. -/
  onTime : ∀ h₁ h₂ t now, h = h₁ ++ .started t now :: h₂ →
    ∃ key due, .accepted t key due ∈ h₁ ∧ due ≤ now
  /-- A job replaced before the loop took it. -/
  latest : ∀ h₁ h₂ h₃ t t' key due due',
    h = h₁ ++ .accepted t key due :: (h₂ ++ .accepted t' key due' :: h₃) →
    (∀ now, .took t now ∉ h₂) → ∀ now, .started t now ∉ h
  /-- The loop takes a job that is due, with the least deadline of those. -/
  least : ∀ h₁ h₂ t now, h = h₁ ++ .took t now :: h₂ →
    ∃ key due, Waiting h₁ t key due ∧ due ≤ now ∧
      ∀ t' key' due', Waiting h₁ t' key' due' → due' ≤ now → due ≤ due'
  /-- From the return of `stop` to the next start no job starts and `schedule` returns false. -/
  halted : ∀ h₁ h₂ h₃, h = h₁ ++ .stopped :: (h₂ ++ h₃) → .begun ∉ h₂ →
    (∀ t now, .started t now ∉ h₂) ∧ ∀ t key due, .accepted t key due ∉ h₂

theorem Lawful.fires {h : List Event} (hh : Lawful h) : Fires h where
  tickets h₁ h₂ t key due heq := hh.accepted_once heq
  once h₁ h₂ t now heq := hh.started_once heq
  onTime h₁ h₂ t now heq := (hh h₁ _ h₂ heq).2.2.2
  latest h₁ h₂ h₃ t t' key due due' heq htaken now hmem := by
    obtain ⟨now', htook⟩ := hh.taken hmem
    exact hh.replaced heq htaken now' htook
  least h₁ h₂ t now heq := by
    obtain ⟨key, due, hwaiting, hdue, hleast⟩ := hh h₁ _ h₂ heq
    exact ⟨key, due, hwaiting, hdue, fun t' key' due' hw _ => hleast t' key' due' hw⟩
  halted h₁ h₂ h₃ heq hbegun := by
    constructor
    · intro t now hmem
      obtain ⟨g, hhalted, hok⟩ := hh.after_stopped heq hbegun hmem
      exact hok.2.2.1 hhalted
    · intro t key due hmem
      obtain ⟨g, hhalted, hok⟩ := hh.after_stopped heq hbegun hmem
      exact hok.2 hhalted

/-- **Timers fire once, on time, and only the latest**, in every run. -/
theorem timers_fire {h : List Event} {s : State (RetryScheduler Callable) (Section Callable)}
    (hlog : Logged scheduler Guard.any note initial h s) : Fires h := by
  have hi : Inv h s.shared s.pending :=
    Logged.invariant (J := fun _ _ => True) (fun _ _ => trivial) inv_initial
      (fun _ hi _ hexec => hi.exec hexec) (fun _ hi _ henter => hi.enter henter) hlog
  exact hi.books.lawful.fires

/-- A job is replaced by one that is due at once, which the loop runs; then `stop`, and a call that
is refused. -/
def replacedMoves : List (Move Unit (Entry Unit)) :=
  [.enter .start, .run 0 (),
   .enter (.schedule (str "m1") 600000 (some ())), .run 2 (),
   .enter (.schedule (str "m1") 0 (some ())), .run 3 (),
   .enter (.tick 5), .run 1 (), .run 1 (),
   .enter .stop, .run 5 (), .run 1 (), .run 5 (),
   .enter (.schedule (str "m1") 0 (some ())), .run 6 ()]

def replacedHistory : List Event :=
  [.begun, .accepted 0 (str "m1") 600000000000, .accepted 1 (str "m1") 0, .took 1 5, .started 1 5,
   .cleared, .stopped, .refused]

theorem timers_fire_replaced :
    (∃ s : State (RetryScheduler Unit) (Section Unit),
      Logged scheduler Guard.any note initial replacedHistory s) ∧ Fires replacedHistory := by
  have hreplay : (scheduler.replay initial replacedMoves).isSome = true := by decide +kernel
  have hnotes : scheduler.notes note initial replacedMoves = replacedHistory := by decide +kernel
  obtain ⟨s, hs⟩ := Option.isSome_iff_exists.mp hreplay
  have hlog : Logged scheduler Guard.any note initial _ s := Logged.start.replay hs
  rw [hnotes] at hlog
  exact ⟨⟨s, hlog⟩, timers_fire hlog⟩

end JsonRpcBridge.Scheduler
