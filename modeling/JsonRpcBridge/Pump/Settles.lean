import JsonRpcBridge.Pump.Pooled
import JsonRpcBridge.Pump.Staff
import Mathlib.Algebra.BigOperators.Group.Multiset.Basic

/-!
# What runs on the pump comes to an end

A program whose sections each leave less to be done than they were (`Posts.Lowers`) comes to an end on
the pump too: while the pump runs and nobody wakes up for no reason, every section lowers `left`
(`left_lt`), and when none can run any more the threads of the pump are asleep, the queue is empty and
nothing of the program is pending (`asleep_of_stuck`).
-/

namespace JsonRpcBridge.Pump

open Interleaving

variable {σ α χ ε : Type} {P : Program σ α χ ε}

/-! ## The pump of a pooled program

The other projection of the same runs: what the pump goes through is a run of the pump alone, in
which the program calls `submit`. -/

/-- The section of the pump that a place holds. -/
def Place.pump? : Place α → Option (Section α)
  | .inner _ => none
  | .pump x => some x

/-- The guard of the program, and `start` is asked for a thread at least. -/
def Posts.staffs (J : Posts P) (G : Guard σ α χ ε) :
    Guard (Pooled σ α) (Place α) (χ × Nat) (PooledEntry ε) where
  run := (J.guard G).run
  enter s p ev := (J.guard G).enter s p ev ∧ ∀ n, ev = .start n → 0 < n

instance (J : Posts P) (G : Guard σ α χ ε) [G.Decided] : (J.staffs G).Decided where
  run s p x c := (inferInstance : Decidable ((J.guard G).run s p x c))
  enter s p ev :=
    have : Decidable (∀ n, ev = .start n → 0 < n) :=
      match ev with
      | .start n => decidable_of_iff (0 < n) ⟨by rintro hn _ ⟨⟩; exact hn, fun hn => hn n rfl⟩
      | .inner _ | .stop => isTrue (by rintro _ ⟨⟩)
    (inferInstance : Decidable ((J.guard G).enter s p ev ∧ ∀ n, ev = .start n → 0 < n))

theorem Posts.run_guard {J : Posts P} {G : Guard σ α χ ε} {s₀ s : State (Pooled σ α) (Place α)}
    (hrun : Run (pooled J) (J.staffs G) s₀ s) : Run (pooled J) (J.guard G) s₀ s := by
  refine Run.trans ?_ .start hrun
  intro s m hok
  cases m with
  | run i c => exact hok
  | enter ev => exact hok.1

theorem Posts.run_staffs {J : Posts P} {G : Guard σ α χ ε} {s₀ s : State (Pooled σ α) (Place α)}
    (hrun : Run (pooled J) (J.staffs G) s₀ s) : Run (pooled J) (J.staffs Guard.any) s₀ s := by
  refine Run.trans ?_ .start hrun
  intro s m hok
  cases m with
  | run i c => exact fun _ _ _ _ => trivial
  | enter ev => exact ⟨fun _ _ => trivial, hok.2⟩

section

variable {J : Posts P} {G : Guard σ α χ ε} {s : Pooled σ α} {others p q : Multiset (Place α)}
  {x : Place α} {e : Effect σ α}

@[simp] theorem pumps_pump (l : List (Section α)) :
    Multiset.filterMap Place.pump? (↑(l.map Place.pump) : Multiset (Place α)) = ↑l := by
  rw [Multiset.filterMap_coe, List.filterMap_map]
  exact congrArg _ (List.filterMap_some)

@[simp] theorem pumps_inner (l : List α) :
    Multiset.filterMap Place.pump? (↑(l.map Place.inner) : Multiset (Place α)) = 0 := by
  rw [Multiset.filterMap_coe, List.filterMap_map]
  exact congrArg _ (List.filterMap_eq_nil_iff.mpr fun _ _ => rfl)

theorem pumps_cons_inner (y : α) :
    (.inner y ::ₘ p : Multiset (Place α)).filterMap Place.pump? = p.filterMap Place.pump? :=
  Multiset.filterMap_cons_none (f := Place.pump?) (Place.inner y) p rfl

theorem pumps_cons_pump (y : Section α) :
    (.pump y ::ₘ p : Multiset (Place α)).filterMap Place.pump? = y ::ₘ p.filterMap Place.pump? :=
  Multiset.filterMap_cons_some Place.pump? (Place.pump y) p rfl

theorem pumps_lift (s : Pooled σ α) (f : Effect (CallPump α) (Section α)) :
    ((f.lift (fun pump => { s with pump }) Place.pump).made + p).filterMap Place.pump? =
      f.made + p.filterMap Place.pump? := by
  rw [Effect.made_lift, Multiset.filterMap_add, Multiset.filterMap_map]
  exact congrArg (· + _) (Multiset.filterMap_some _)

/-- One `notify_one` for each job. -/
def notifies (jobs : List α) : List (Section α) := jobs.map fun _ => .notifyOne

theorem pumps_after (J : Posts P) (s : Pooled σ α) (e : Effect σ α) :
    (s.after J e).made.filterMap Place.pump? = ↑(notifies (jobsOf J.job e)) := by
  have hnotifies : (jobsOf J.job e).map (fun _ => Place.pump .notifyOne) =
      (notifies (jobsOf J.job e)).map (Place.pump : Section α → Place α) := by
    rw [notifies, List.map_map]
    rfl
  rw [Effect.made, ← Multiset.coe_add, Pooled.after, ← Multiset.coe_add, Multiset.filterMap_add,
    Multiset.filterMap_add, hnotifies, pumps_pump, pumps_inner, ← List.map_flatten, pumps_inner,
    add_zero, add_zero]

/-- A section that submits calls `submit` for each of its jobs. -/
theorem bag_submits {pump₀ pump : CallPump α} {p₀ p : Multiset (Section α)} (jobs : List α)
    (h : Bag Pump.pump Pump.staffs pump₀ p₀ pump p) (hstop : pump.stop = true → jobs = []) :
    Bag Pump.pump Pump.staffs pump₀ p₀ (pump.submitAll jobs)
      (↑(notifies jobs) + p) := by
  induction jobs generalizing pump p with
  | nil =>
      rw [notifies, List.map_nil, Multiset.coe_nil, zero_add]
      exact h
  | cons job jobs ih =>
      have hgo : pump.stop = false := Bool.eq_false_iff.mpr fun hstopped => by cases hstop hstopped
      have hsubmit : (pump.submit job).1 = true ∧ (pump.submit job).2.stop = false := by
        rw [CallPump.submit, if_neg (by rw [hgo]; exact Bool.false_ne_true)]
        exact ⟨rfl, hgo⟩
      have henter : Pump.pump.enter pump (.submit job) =
          some { shared := pump, next := [.submit job] } := rfl
      have hexec : Pump.pump.exec pump (.submit job) 0 =
          some { shared := (pump.submit job).2, next := [.notifyOne] } := by
        show some _ = _
        rw [if_pos hsubmit.1]
      have hran := (h.enter (fun _ hn => by cases hn) henter).run trivial hexec
      have hrest := ih hran fun hstopped => by
        rw [hsubmit.2] at hstopped
        cases hstopped
      rw [notifies, List.map_cons, ← Multiset.cons_coe, Multiset.cons_add, ← Multiset.add_cons]
      exact hrest

/-- **Step.** What the pump does under a pooled program it does by itself too. -/
theorem pump_exec {c : χ × Nat} {e : Effect (Pooled σ α) (Place α)} {pump₀ : CallPump α}
    {p₀ : Multiset (Section α)}
    (hi : Bag Pump.pump Pump.staffs pump₀ p₀ s.pump ((x ::ₘ others).filterMap Place.pump?))
    (h : Pooled.exec J s x c = some e) :
    Bag Pump.pump Pump.staffs pump₀ p₀ e.shared.pump
      ((e.made + others).filterMap Place.pump?) := by
  have hjobs : ∀ {y : α} {f : Effect σ α}, P.exec s.base y (J.told c.1 !s.pump.stop) = some f →
      s.pump.stop = true → jobsOf J.job f = [] := by
    intro y f hf hstop
    rw [hstop] at hf
    exact J.refused hf
  cases x with
  | inner y =>
      obtain ⟨f, hf, rfl⟩ := Option.map_eq_some_iff.mp h
      rw [Multiset.filterMap_add, pumps_after]
      rw [pumps_cons_inner] at hi
      exact bag_submits _ hi (hjobs hf)
  | pump y =>
      rw [pumps_cons_pump] at hi
      by_cases hrun : ∃ w ticket job, y = .run w ticket job
      · obtain ⟨w, ticket, job, rfl⟩ := hrun
        obtain ⟨f, hf, rfl⟩ := Option.map_eq_some_iff.mp h
        have hbegun : Bag Pump.pump Pump.staffs pump₀ p₀ (s.begin ticket job).pump
            (.loop w ::ₘ others.filterMap Place.pump?) :=
          hi.run (a := Section.run w ticket job) (c := 0) trivial rfl
        rw [made_loop, Multiset.cons_add, pumps_cons_pump, Multiset.filterMap_add, pumps_after,
          ← Multiset.add_cons]
        exact bag_submits _ hbegun (hjobs hf)
      have hsubmit : ∀ job, y ≠ .submit job := by
        rintro job rfl
        cases h
      rw [exec_pump c hsubmit fun w ticket job heq => hrun ⟨w, ticket, job, heq⟩] at h
      obtain ⟨f, hf, rfl⟩ := Option.map_eq_some_iff.mp h
      rw [pumps_lift]
      exact hi.run trivial hf

theorem pump_enter {ev : PooledEntry ε} {e : Effect (Pooled σ α) (Place α)} {pump₀ : CallPump α}
    {p₀ : Multiset (Section α)}
    (hi : Bag Pump.pump Pump.staffs pump₀ p₀ s.pump (p.filterMap Place.pump?))
    (hok : (J.staffs G).enter s p ev) (h : Pooled.enter J s ev = some e) :
    Bag Pump.pump Pump.staffs pump₀ p₀ e.shared.pump ((e.made + p).filterMap Place.pump?) := by
  cases ev with
  | inner ev =>
      obtain ⟨f, hf, rfl⟩ := Option.map_eq_some_iff.mp h
      rw [Multiset.filterMap_add, pumps_after]
      exact bag_submits _ hi fun _ => J.entered hf
  | start n =>
      obtain ⟨f, hf, rfl⟩ := Option.map_eq_some_iff.mp h
      rw [pumps_lift]
      have hf : Pump.pump.enter s.pump (.start n) = some f := hf
      exact hi.enter (fun m hm => hok.2 m (by rw [Entry.start.inj hm])) hf
  | stop =>
      obtain ⟨f, hf, rfl⟩ := Option.map_eq_some_iff.mp h
      rw [pumps_lift]
      have hf : Pump.pump.enter s.pump .stop = some f := hf
      exact hi.enter (fun m hm => by cases hm) hf

end

/-- The pump of a pooled program is a pump. -/
theorem pump_of_pooled {J : Posts P} {G : Guard σ α χ ε} {sh₀ : σ}
    {s : State (Pooled σ α) (Place α)}
    (hrun : Run (pooled J) (J.staffs G) { shared := { base := sh₀ } } s) :
    Bag pump Pump.staffs {} 0 s.shared.pump (s.pending.filterMap Place.pump?) :=
  Run.invariant (I := fun s p => Bag pump Pump.staffs {} 0 s.pump (p.filterMap Place.pump?)) .start
    (fun hi _ h => pump_exec hi h) (fun hi hok h => pump_enter hi hok h) hrun

/-! ## What is left to do

A section counts for five times its weight, so that it can pay for what its jobs cost the pump
besides: a place in the queue, a notification, and the waking of a thread. A wake-up for no reason
costs too, and nobody would pay for it. -/

/-- Every section leaves less to be done than it was, whether it submits a job or not. -/
structure Posts.Lowers (J : Posts P) (weight : α → Nat) : Prop where
  exec : ∀ {sh : σ} {x : α} {c : χ} {e : Effect σ α}, P.exec sh x c = some e →
    (e.made.map weight).sum + (jobsOf J.job e).length < weight x

/-- A job weighs less on a thread that waits than in the queue. -/
def toll (weight : α → Nat) (pump : CallPump α) : Place α → Nat
  | .inner x => 5 * weight x
  | .pump .notifyOne => 3
  | .pump (.wait w) => if w ∈ pump.waiting then 0 else 2
  | .pump (.loop _) => 1
  | .pump (.run _ _ job) => 5 * weight job + 2
  | .pump _ => 0

def Pooled.left (weight : α → Nat) (s : Pooled σ α) (p : Multiset (Place α)) : Nat :=
  (p.map (toll weight s.pump)).sum + (s.pump.queue.map fun x => 5 * weight x.2 + 2).sum

section

variable {J : Posts P} {weight : α → Nat} {s : Pooled σ α} {others p : Multiset (Place α)}
  {x : Place α} {e : Effect σ α} {pump pump' : CallPump α}

/-! ### Sums -/

theorem Pooled.left_cons : s.left weight (x ::ₘ p) = toll weight s.pump x + s.left weight p := by
  rw [Pooled.left, Multiset.map_cons, Multiset.sum_cons, Nat.add_assoc]
  rfl

theorem toll_congr (h : pump'.waiting = pump.waiting) : toll weight pump' = toll weight pump := by
  funext x
  cases x with
  | inner y => rfl
  | pump y =>
      cases y with
      | wait w => rw [toll, toll, h]
      | _ => rfl

theorem tolls_inner (l : List α) :
    (Multiset.map (toll weight pump) ↑(l.map Place.inner)).sum = 5 * (l.map weight).sum := by
  rw [Multiset.map_coe, Multiset.sum_coe, List.map_map]
  induction l with
  | nil => rfl
  | cons y l ih =>
      rw [List.map_cons, List.sum_cons, ih, List.map_cons, List.sum_cons, Nat.mul_add]
      rfl

theorem tolls_notifies (jobs : List α) :
    (Multiset.map (toll weight pump) ↑(jobs.map fun _ => (.pump .notifyOne : Place α))).sum =
      3 * jobs.length := by
  rw [Multiset.map_coe, Multiset.sum_coe, List.map_map]
  induction jobs with
  | nil => rfl
  | cons y jobs ih =>
      rw [List.map_cons, List.sum_cons, ih, List.length_cons]
      show 3 + _ = _
      omega

theorem submitAll_waiting (jobs : List α) (pump : CallPump α) :
    (pump.submitAll jobs).waiting = pump.waiting ∧ (pump.submitAll jobs).owned = pump.owned := by
  induction jobs generalizing pump with
  | nil => exact ⟨rfl, rfl⟩
  | cons job jobs ih =>
      have hsubmit : (pump.submit job).2.waiting = pump.waiting ∧
          (pump.submit job).2.owned = pump.owned := by
        unfold CallPump.submit
        split <;> exact ⟨rfl, rfl⟩
      exact ⟨(ih _).1.trans hsubmit.1, (ih _).2.trans hsubmit.2⟩

theorem queued_weight (jobs : List α) :
    (jobs.map fun a => 5 * weight a + 2).sum = 5 * (jobs.map weight).sum + 2 * jobs.length := by
  induction jobs with
  | nil => rfl
  | cons job jobs ih =>
      rw [List.map_cons, List.sum_cons, ih, List.map_cons, List.sum_cons, List.length_cons]
      omega

/-- What a section of the program leaves, and five for each job it submits. -/
theorem left_after (weight : α → Nat) (s : Pooled σ α) (others : Multiset (Place α))
    (h : s.pump.stop = true → jobsOf J.job e = []) :
    (s.after J e).shared.left weight ((s.after J e).made + others) =
      5 * (e.made.map weight).sum + 5 * (jobsOf J.job e).length + s.left weight others := by
  obtain ⟨hqueue, -⟩ := submitAll_queue (jobsOf J.job e) s.pump h
  have hqueued : ((s.after J e).shared.pump.queue.map fun x => 5 * weight x.2 + 2).sum =
      (s.pump.queue.map fun x => 5 * weight x.2 + 2).sum +
        (5 * ((jobsOf J.job e).map weight).sum + 2 * (jobsOf J.job e).length) := by
    rw [← queued_weight, ← List.sum_append]
    have hmap := congrArg (List.map fun a => 5 * weight a + 2) hqueue
    rw [List.map_append, List.map_map, List.map_map] at hmap
    exact congrArg List.sum hmap
  have htoll : toll weight (s.after J e).shared.pump = toll weight s.pump :=
    toll_congr (submitAll_waiting _ _).1
  have hmade : ((s.after J e).made.map (toll weight s.pump)).sum = 3 * (jobsOf J.job e).length +
      5 * (e.next.map weight).sum + 5 * ((othersOf J.job e).flatten.map weight).sum := by
    rw [Effect.made, ← Multiset.coe_add, Pooled.after, ← Multiset.coe_add, Multiset.map_add,
      Multiset.map_add, Multiset.sum_add, Multiset.sum_add, tolls_notifies, tolls_inner,
      ← List.map_flatten, tolls_inner]
  have hweight : (e.made.map weight).sum = (e.next.map weight).sum +
      ((othersOf J.job e).flatten.map weight).sum + ((jobsOf J.job e).map weight).sum := by
    rw [made_eq J.job e, Multiset.map_add, Multiset.map_add, Multiset.sum_add, Multiset.sum_add,
      Multiset.map_coe, Multiset.map_coe, Multiset.map_coe, Multiset.sum_coe, Multiset.sum_coe,
      Multiset.sum_coe]
  rw [Pooled.left, htoll, hqueued, Multiset.map_add, Multiset.sum_add, hmade, hweight, Pooled.left]
  omega

/-- A thread that is awake again costs two. -/
theorem toll_wake (weight : α → Nat) (pump : CallPump α) (w : Nat) (y : Section α) :
    toll weight (pump.wake w) (.pump y) ≤
    toll weight pump (.pump y) + 2 * if y.worker? = some w then 1 else 0 := by
  cases y with
  | wait v =>
      by_cases hv : v = w
      · rw [toll, toll, Section.worker?, hv, if_pos rfl]
        split_ifs <;> omega
      · have hsame : v ∈ (pump.wake w).waiting ↔ v ∈ pump.waiting := by
          rw [mem_wake]
          exact and_iff_left hv
        rw [toll, toll]
        simp only [hsame]
        exact Nat.le_add_right _ _
  | _ => exact Nat.le_add_right _ _

theorem tolls_wake (weight : α → Nat) (pump : CallPump α) (w : Nat) (p : Multiset (Place α)) :
    (p.map (toll weight (pump.wake w))).sum ≤
    (p.map (toll weight pump)).sum +
      2 * carried Section.worker? w (p.filterMap Place.pump?) := by
  induction p using Multiset.induction with
  | empty => simp
  | cons x p ih =>
      rw [Multiset.map_cons, Multiset.sum_cons, Multiset.map_cons, Multiset.sum_cons]
      cases x with
      | inner y =>
          rw [pumps_cons_inner]
          show 5 * weight y + _ ≤ 5 * weight y + _ + _
          omega
      | pump y =>
          have hy := toll_wake weight pump w y
          rw [pumps_cons_pump, carried_cons]
          omega

/-- A thread goes to sleep. -/
def CallPump.sleep (pump : CallPump α) (w : Nat) : CallPump α :=
  { pump with waiting := w :: pump.waiting }

theorem toll_sleep (weight : α → Nat) (pump : CallPump α) (w : Nat) (x : Place α) :
    toll weight (pump.sleep w) x ≤ toll weight pump x := by
  cases x with
  | inner y => exact le_refl _
  | pump y =>
      cases y with
      | wait v =>
          rw [toll, toll]
          split_ifs with hnew hold
          · exact le_refl _
          · exact Nat.zero_le _
          · exact absurd (List.mem_cons_of_mem _ ‹_›) hnew
          · exact le_refl _
      | _ => exact le_refl _

theorem tolls_sleep (weight : α → Nat) (pump : CallPump α) (w : Nat) (p : Multiset (Place α)) :
    (p.map (toll weight (pump.sleep w))).sum ≤ (p.map (toll weight pump)).sum := by
  induction p using Multiset.induction with
  | empty => simp
  | cons x p ih =>
      rw [Multiset.map_cons, Multiset.sum_cons, Multiset.map_cons, Multiset.sum_cons]
      exact Nat.add_le_add (toll_sleep weight pump w x) ih

/-- Nobody wakes up for no reason, and nothing is the owner's. -/
structure Genuine (pump : CallPump α) (x : Place α) : Prop where
  awake : ∀ w, x = .pump (.wait w) → w ∉ pump.waiting
  others : ∀ y, x = .pump y → y.owners = false

/-- **Step.** -/
theorem left_lt {c : χ × Nat} {e : Effect (Pooled σ α) (Place α)} (hJ : J.Lowers weight)
    (hthreads : Threads s.pump ((x ::ₘ others).filterMap Place.pump?)) (hx : Genuine s.pump x)
    (h : Pooled.exec J s x c = some e) :
    e.shared.left weight (e.made + others) < s.left weight (x ::ₘ others) ∧
      e.shared.pump.owned = s.pump.owned := by
  have hjobs : ∀ {y : α} {f : Effect σ α}, P.exec s.base y (J.told c.1 !s.pump.stop) = some f →
      s.pump.stop = true → jobsOf J.job f = [] := by
    intro y f hf hstop
    rw [hstop] at hf
    exact J.refused hf
  rw [Pooled.left_cons]
  cases x with
  | inner y =>
      obtain ⟨f, hf, rfl⟩ := Option.map_eq_some_iff.mp h
      have hlower := hJ.exec hf
      refine ⟨?_, (submitAll_waiting _ _).2⟩
      rw [left_after weight s others (hjobs hf), toll]
      omega
  | pump y =>
      by_cases hrun : ∃ w ticket job, y = .run w ticket job
      · obtain ⟨w, ticket, job, rfl⟩ := hrun
        obtain ⟨f, hf, rfl⟩ := Option.map_eq_some_iff.mp h
        have hlower := hJ.exec hf
        refine ⟨?_, (submitAll_waiting _ _).2⟩
        have hafter := left_after weight (s.begin ticket job) others (hjobs hf)
        have hbegin : (s.begin ticket job).left weight others = s.left weight others := rfl
        rw [made_loop, Multiset.cons_add, Pooled.left_cons, hafter, hbegin]
        show 1 + _ < 5 * weight job + 2 + _
        omega
      have hsubmit : ∀ job, y ≠ .submit job := by
        rintro job rfl
        cases h
      rw [exec_pump c hsubmit fun w ticket job heq => hrun ⟨w, ticket, job, heq⟩] at h
      obtain ⟨f, hf, rfl⟩ := Option.map_eq_some_iff.mp h
      rw [pumps_cons_pump] at hthreads
      have hdoes := exec_does hf
      have howner := hx.others y rfl
      rw [Effect.shared_lift, Effect.made_lift]
      generalize f.shared = pump at hdoes ⊢
      generalize f.made = made at hdoes ⊢
      cases hdoes with
      | starts | launched | launches | drops | wakesAll | joins _ | returns => cases howner
      | accepts _ | refuses _ => exact absurd rfl (hsubmit _)
      | runs => exact absurd ⟨_, _, _, rfl⟩ hrun
      | idle _ =>
          refine ⟨?_, rfl⟩
          show Pooled.left weight s (0 + others) < 3 + _
          rw [zero_add]
          omega
      | @wakes w hw =>
          refine ⟨?_, rfl⟩
          -- the thread it wakes has one section
          have hone : carried Section.worker? w (others.filterMap Place.pump?) ≤ 1 := by
            have halive := hthreads.alive w
            rw [carried_cons_of_none rfl] at halive
            rw [halive]
            split_ifs <;> omega
          have hwake := tolls_wake weight s.pump w others
          have hleft : ({ s with pump := s.pump.wake w } : Pooled σ α).left weight others =
              (others.map (toll weight (s.pump.wake w))).sum +
                (s.pump.queue.map fun x => 5 * weight x.2 + 2).sum := rfl
          show Pooled.left weight { s with pump := s.pump.wake w } (0 + others) < 3 + _
          rw [zero_add, hleft, Pooled.left]
          omega
      | ends _ =>
          refine ⟨?_, rfl⟩
          show Pooled.left weight s (0 + others) < 1 + _
          rw [zero_add]
          omega
      | @sleeps w hgo hqueue =>
          refine ⟨?_, rfl⟩
          have hsleep := tolls_sleep weight s.pump w others
          have hwait : toll weight (s.pump.sleep w) (.pump (.wait w) : Place α) = 0 :=
            if_pos List.mem_cons_self
          have hleft : ({ s with pump := s.pump.sleep w } : Pooled σ α).left weight others =
              (others.map (toll weight (s.pump.sleep w))).sum +
                (s.pump.queue.map fun x => 5 * weight x.2 + 2).sum := rfl
          show Pooled.left weight { s with pump := s.pump.sleep w } (.pump (.wait w) ::ₘ others) < 1 + _
          rw [Pooled.left_cons, hwait, hleft, Pooled.left]
          omega
      | @takes w ticket job rest hgo hqueue =>
          refine ⟨?_, rfl⟩
          have hqueued : (s.pump.queue.map fun x => 5 * weight x.2 + 2).sum =
              5 * weight job + 2 + (rest.map fun x => 5 * weight x.2 + 2).sum := by
            rw [hqueue, List.map_cons, List.sum_cons]
          rw [Multiset.map_singleton, Multiset.singleton_add, Pooled.left_cons, Pooled.left,
            Pooled.left, hqueued]
          show 5 * weight job + 2 + ((others.map (toll weight s.pump)).sum +
            (rest.map fun x => 5 * weight x.2 + 2).sum) < 1 + _
          omega
      | @rouses w =>
          refine ⟨?_, rfl⟩
          have hw := hx.awake w rfl
          have hsame : (s.pump.wake w).waiting = s.pump.waiting := by
            apply List.filter_eq_self.mpr
            intro v hv
            exact bne_iff_ne.mpr fun heq => hw (heq ▸ hv)
          have hwait : toll weight s.pump (.pump (.wait w) : Place α) = 2 := if_neg hw
          rw [Multiset.map_singleton, Multiset.singleton_add, Pooled.left_cons, Pooled.left,
            Pooled.left, hwait, toll_congr hsame]
          show 1 + (_ + (s.pump.queue.map _).sum) < _
          omega

end

/-! ## The end

Where only the owner's calls and wake-ups without a reason could run, every thread of the pump
waits. -/

/-- A thread runs its next section, and it was not asleep. -/
def genuine (s : State (Pooled σ α) (Place α)) : Move (χ × Nat) (PooledEntry ε) → Bool
  | .run i _ =>
    (s.head i).all fun
      | .pump (.wait w) => decide (w ∉ s.shared.pump.waiting)
      | _ => true
  | .enter _ => false

/-- A section that a thread may have more to do after. -/
def Place.passes : Place α → Prop
  | .inner _ | .pump .notifyOne => True
  | .pump _ => False

theorem passes_next (J : Posts P) (s : Pooled σ α) (e : Effect σ α) :
    ∀ x ∈ (s.after J e).next, x.passes := by
  intro x hx
  rcases List.mem_append.mp hx with hx | hx
  · obtain ⟨job, -, rfl⟩ := List.mem_map.mp hx
    exact trivial
  · obtain ⟨y, -, rfl⟩ := List.mem_map.mp hx
    exact trivial

theorem trails_spawn (J : Posts P) (s : Pooled σ α) (e : Effect σ α) :
    ∀ t ∈ (s.after J e).spawn, Trails Place.passes t := by
  intro t ht x hx
  obtain ⟨l, -, rfl⟩ := List.mem_map.mp ht
  obtain ⟨y, -, rfl⟩ := List.mem_map.mp (List.dropLast_subset _ hx)
  exact trivial

theorem trails_lift (s : Pooled σ α) {f : Effect (CallPump α) (Section α)}
    (hnext : Trails (fun _ => False) f.next) (hspawn : ∀ t ∈ f.spawn, Trails (fun _ => False) t) :
    Trails Place.passes (f.lift (fun pump => { s with pump }) Place.pump).next ∧
      ∀ t ∈ (f.lift (fun pump => { s with pump }) Place.pump).spawn, Trails Place.passes t := by
  have hmap : ∀ l : List (Section α), Trails (fun _ => False) l →
      Trails Place.passes (l.map Place.pump) := by
    intro l hl x hx
    rw [← List.map_dropLast] at hx
    obtain ⟨y, hy, -⟩ := List.mem_map.mp hx
    exact (hl y hy).elim
  refine ⟨hmap _ hnext, fun t ht => ?_⟩
  obtain ⟨l, hl, rfl⟩ := List.mem_map.mp ht
  exact hmap l (hspawn l hl)

/-- A thread of the pump has the rest of its job to do before it looks at the queue again, and no
other thread has more than one section of the pump to run. -/
theorem trailing_pooled (J : Posts P) : (pooled J).Trailing Place.passes where
  exec := by
    intro s x c e h
    cases x with
    | inner y =>
        obtain ⟨f, -, rfl⟩ := Option.map_eq_some_iff.mp h
        exact ⟨fun _ => passes_next J s f,
          fun x hx => passes_next J s f x (List.dropLast_subset _ hx), trails_spawn J s f⟩
    | pump y =>
        by_cases hrun : ∃ w ticket job, y = .run w ticket job
        · obtain ⟨w, ticket, job, rfl⟩ := hrun
          obtain ⟨f, -, rfl⟩ := Option.map_eq_some_iff.mp h
          refine ⟨False.elim, ?_, trails_spawn J (s.begin ticket job) f⟩
          exact trails_append (passes_next J (s.begin ticket job) f) (trails_singleton _)
        have hsubmit : ∀ job, y ≠ .submit job := by
          rintro job rfl
          cases h
        have h : Pooled.exec J s (.pump y) c = some e := h
        rw [exec_pump c hsubmit fun w ticket job heq => hrun ⟨w, ticket, job, heq⟩] at h
        obtain ⟨f, hf, rfl⟩ := Option.map_eq_some_iff.mp h
        obtain ⟨-, hnext, hspawn⟩ := trailing.exec hf
        obtain ⟨hnext, hspawn⟩ := trails_lift s hnext hspawn
        refine ⟨fun hpass => ?_, hnext, hspawn⟩
        cases y with
        | notifyOne =>
            -- nothing is left of a notification
            simp only [Pump.exec] at hf
            split_ifs at hf
            · cases hf
              exact fun x hx => absurd hx List.not_mem_nil
            · cases hf
              exact fun x hx => absurd hx List.not_mem_nil
        | _ => exact hpass.elim
  enter := by
    intro s ev e h
    cases ev with
    | inner ev =>
        obtain ⟨f, -, rfl⟩ := Option.map_eq_some_iff.mp h
        exact ⟨fun x hx => passes_next J s f x (List.dropLast_subset _ hx), trails_spawn J s f⟩
    | start n =>
        obtain ⟨f, hf, rfl⟩ := Option.map_eq_some_iff.mp h
        have hf : Pump.pump.enter s.pump (.start n) = some f := hf
        obtain ⟨hnext, hspawn⟩ := trailing.enter hf
        exact trails_lift s hnext hspawn
    | stop =>
        obtain ⟨f, hf, rfl⟩ := Option.map_eq_some_iff.mp h
        have hf : Pump.pump.enter s.pump .stop = some f := hf
        obtain ⟨hnext, hspawn⟩ := trailing.enter hf
        exact trails_lift s hnext hspawn

/-- `submit` is no section of its own. -/
theorem no_submit_of_run {J : Posts P} {G : Guard (Pooled σ α) (Place α) (χ × Nat) (PooledEntry ε)}
    {sh₀ : σ} {s : State (Pooled σ α) (Place α)}
    (hrun : Run (pooled J) G { shared := { base := sh₀ } } s) :
    ∀ x ∈ s.pending, ∀ job, x ≠ .pump (.submit job) := by
  have hafter : ∀ (s : Pooled σ α) (f : Effect σ α), ∀ x ∈ (s.after J f).made, ∀ job,
      x ≠ .pump (.submit job) := by
    -- a job of the program goes into the queue in the section that makes it
    rintro s f x hx job rfl
    rcases Effect.mem_made.mp hx with hx | ⟨t, ht, hx⟩
    · exact (passes_next J s f _ hx).elim
    · obtain ⟨l, -, rfl⟩ := List.mem_map.mp ht
      obtain ⟨y, -, heq⟩ := List.mem_map.mp hx
      cases heq
  apply Run.invariant (I := fun _ p => ∀ x ∈ p, ∀ job, x ≠ Place.pump (.submit job)) _ _ _ hrun
  · exact fun x hx => absurd hx (Multiset.notMem_zero x)
  · intro s x c e others hi _ h
    have hothers : ∀ y ∈ others, ∀ job, y ≠ Place.pump (.submit job) :=
      fun y hy => hi y (Multiset.mem_cons_of_mem hy)
    refine Effect.forall_made ?_ hothers
    cases x with
    | inner y =>
        obtain ⟨f, -, rfl⟩ := Option.map_eq_some_iff.mp h
        exact hafter s f
    | pump y =>
        by_cases hrun : ∃ w ticket job, y = .run w ticket job
        · obtain ⟨w, ticket, job, rfl⟩ := hrun
          obtain ⟨f, -, rfl⟩ := Option.map_eq_some_iff.mp h
          rw [made_loop]
          intro z hz job'
          rcases Multiset.mem_cons.mp hz with rfl | hz
          · simp
          · exact hafter (s.begin ticket job) f z hz job'
        -- the other sections of the pump do not submit
        have hsubmit : ∀ job, y ≠ .submit job := by
          rintro job rfl
          exact hi _ (Multiset.mem_cons_self _ _) job rfl
        have h : Pooled.exec J s (.pump y) c = some e := h
        rw [exec_pump c hsubmit fun w ticket job heq => hrun ⟨w, ticket, job, heq⟩] at h
        obtain ⟨f, hf, rfl⟩ := Option.map_eq_some_iff.mp h
        have hdoes := exec_does hf
        rw [Effect.made_lift]
        generalize f.shared = pump at hdoes
        generalize f.made = made at hdoes ⊢
        cases hdoes <;> simp
  · intro s ev e p hi _ h
    refine Effect.forall_made ?_ hi
    cases ev with
    | inner ev =>
        obtain ⟨f, -, rfl⟩ := Option.map_eq_some_iff.mp h
        exact hafter s f
    | start n | stop =>
        obtain ⟨f, hf, rfl⟩ := Option.map_eq_some_iff.mp h
        simp only [Pump.enter] at hf
        split_ifs at hf
        cases hf
        simp [Effect.made, Effect.lift]

section

variable {J : Posts P} {G : Guard σ α χ ε} {sh₀ : σ} {s s' : State (Pooled σ α) (Place α)}

theorem no_owner_of_idle (hrun : Run (pooled J) (J.staffs G) { shared := { base := sh₀ } } s)
    (hidle : s.shared.pump.owned = false) :
    ∀ x ∈ s.pending, ∀ y, x = .pump y → y.owners = false := by
  have howner := (threads_of_bag (pump_of_pooled hrun)).owner
  rw [hidle] at howner
  rintro x hx y rfl
  have hy : y ∈ s.pending.filterMap Place.pump? :=
    (Multiset.mem_filterMap Place.pump? _).mpr ⟨_, hx, rfl⟩
  exact Bool.eq_false_iff.mpr (Multiset.countP_eq_zero.mp howner y hy)

/-- **Only so many sections run**, as long as nothing is called from outside. -/
theorem replay_le_left {weight : α → Nat} (hJ : J.Lowers weight)
    (hrun : Run (pooled J) (J.staffs Guard.any) { shared := { base := sh₀ } } s)
    (hidle : s.shared.pump.owned = false) {ms : List (Move (χ × Nat) (PooledEntry ε))}
    (h : (pooled J).replayIf genuine s ms = some s') :
    ms.length + s'.shared.left weight s'.pending ≤ s.shared.left weight s.pending := by
  -- nothing is called, so every move runs a section
  have hruns : ∀ m ∈ ms, Move.isRun m = true := by
    apply Program.replayIf_forall (T := fun m => Move.isRun m = true) _ h
    intro s m hm
    cases m with
    | run i c => rfl
    | enter ev => cases hm
  -- every section that runs lowers what is left, and there is still no owner
  have hlower : ∀ {t t' : State (Pooled σ α) (Place α)} {i : Nat} {c : χ × Nat},
      Run (pooled J) (J.staffs Guard.any) { shared := { base := sh₀ } } t ∧
        t.shared.pump.owned = false →
      genuine t (.run i c : Move (χ × Nat) (PooledEntry ε)) = true →
      (pooled J).step t (.run i c) = some t' →
      (Run (pooled J) (J.staffs Guard.any) { shared := { base := sh₀ } } t' ∧
        t'.shared.pump.owned = false) ∧
        t'.shared.left weight t'.pending < t.shared.left weight t.pending := by
    rintro t t' i c ⟨ht, howned⟩ hm hstep
    obtain ⟨x, e, others, hhead, hexec, hp, hs, hp'⟩ := Program.step_run hstep
    have hmem : x ∈ t.pending := by
      rw [hp]
      exact Multiset.mem_cons_self _ _
    have hx : Genuine t.shared.pump x := by
      refine ⟨?_, no_owner_of_idle ht howned x hmem⟩
      rintro w rfl
      rw [genuine, hhead] at hm
      exact of_decide_eq_true hm
    have hthreads := threads_of_bag (pump_of_pooled ht)
    rw [hp] at hthreads
    obtain ⟨hlt, hsame⟩ := left_lt hJ hthreads hx hexec
    rw [hs, hp', hp]
    refine ⟨⟨ht.move ?_ hstep, hsame.trans howned⟩, hlt⟩
    exact fun _ _ _ _ => trivial
  have hbound := Program.replayIf_bound (K := 0)
    (I := fun t => Run (pooled J) (J.staffs Guard.any) { shared := { base := sh₀ } } t ∧
      t.shared.pump.owned = false)
    (f := fun t => t.shared.left weight t.pending) hlower (fun _ hm => by cases hm)
    ⟨hrun, hidle⟩ h
  have hall : ms.countP Move.isRun = ms.length := List.countP_eq_length.mpr hruns
  have hnone : (ms.countP fun m => !m.isRun) = 0 :=
    List.countP_eq_zero.mpr fun m hm => by simp [hruns m hm]
  rw [hall, hnone, Nat.mul_zero, Nat.add_zero] at hbound
  exact hbound.2

/-- A section of the program that has a thread is in its bag. -/
theorem mem_bag {s : Pooled σ α} {p : Multiset (Place α)} {x : Place α} {y : α} (hx : x ∈ p)
    (hy : x.section? = some y) : y ∈ s.bag p :=
  Multiset.mem_add.mpr (Or.inl (Multiset.mem_add.mpr (Or.inl
    ((Multiset.mem_filterMap Place.section? _).mpr ⟨x, hx, hy⟩))))

/-- **The end.** Where no thread can go on, every thread of the pump is asleep, its queue is empty
and nothing else is pending. -/
theorem asleep_of_stuck (hrun : Run (pooled J) (J.staffs G) { shared := { base := sh₀ } } s)
    (hidle : s.shared.pump.owned = false) (hgo : s.shared.pump.stop = false) (c : χ)
    (hruns : ∀ a ∈ s.shared.bag s.pending, ∀ c, (P.exec s.shared.base a c).isSome = true)
    (hstuck : ∀ m, genuine s m = true → (pooled J).step s m = none) :
    s.shared.pump.queue = [] ∧ ∀ x ∈ s.pending, ∃ w ∈ s.shared.pump.waiting, x = .pump (.wait w) := by
  have hasleep : ∀ x ∈ s.pending, ∃ w ∈ s.shared.pump.waiting, x = .pump (.wait w) := by
    apply forall_pending_of_heads (R := fun x => ∃ w ∈ s.shared.pump.waiting, x = Place.pump (.wait w))
      ((trailing_pooled J).run (fun t ht => by cases ht) hrun)
    · intro i x hhead
      have hmem := mem_pending_of_head hhead
      have hblocked : (∀ w, x = .pump (.wait w) → w ∉ s.shared.pump.waiting) → ∀ n : Nat,
          Pooled.exec J s.shared x (c, n) = none := by
        intro hawake n
        apply blocked_of_stuck (hstuck (.run i (c, n)) ?_) hhead
        rw [genuine, hhead, Option.all_some]
        split
        · exact decide_eq_true (hawake _ rfl)
        · rfl
      cases x with
      | inner y =>
          have hnone := Option.map_eq_none_iff.mp (hblocked (by simp) 0)
          have hsome := hruns y (mem_bag hmem rfl) (J.told c !s.shared.pump.stop)
          rw [hnone] at hsome
          cases hsome
      | pump y =>
          have howner := no_owner_of_idle hrun hidle _ hmem y rfl
          cases y with
          | start _ | launch _ | stop | notifyAll | join _ => cases howner
          | submit job => exact absurd rfl (no_submit_of_run hrun _ hmem job)
          | notifyOne =>
              -- whoever waits first could be woken
              have hnone := hblocked (by simp) (s.shared.pump.waiting.headD 0)
              rw [exec_pump _ (by simp) (by simp)] at hnone
              have hnone := Option.map_eq_none_iff.mp hnone
              simp only [Pump.exec] at hnone
              split_ifs at hnone with hwaiting hmem
              obtain ⟨w, rest, heq⟩ := List.exists_cons_of_ne_nil hwaiting
              rw [heq] at hmem
              exact absurd List.mem_cons_self hmem
          | loop w =>
              have hnone := hblocked (by simp) 0
              rw [exec_pump _ (by simp) (by simp)] at hnone
              have hnone := Option.map_eq_none_iff.mp hnone
              simp only [Pump.exec] at hnone
              split_ifs at hnone
              split at hnone <;> cases hnone
          | wait w =>
              by_cases hw : w ∈ s.shared.pump.waiting
              · exact ⟨w, hw, rfl⟩
              have hnone := hblocked (fun v heq => by cases heq; exact hw) 0
              cases hnone
          | run w ticket job =>
              have hnone := Option.map_eq_none_iff.mp (hblocked (by simp) 0)
              have hsome := hruns job (mem_bag hmem rfl) (J.told c !s.shared.pump.stop)
              rw [hnone] at hsome
              cases hsome
    · rintro x - hpass ⟨w, -, rfl⟩
      exact hpass
  refine ⟨?_, hasleep⟩
  apply queue_empty_of_asleep (pump_of_pooled hrun) hgo
  intro y hy
  obtain ⟨x, hx, hpump⟩ := (Multiset.mem_filterMap Place.pump? _).mp hy
  obtain ⟨w, hw, rfl⟩ := hasleep x hx
  cases hpump
  exact ⟨w, hw, rfl⟩

end

end JsonRpcBridge.Pump
