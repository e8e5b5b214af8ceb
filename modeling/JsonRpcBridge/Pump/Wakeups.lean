import JsonRpcBridge.Interleaving.Progress
import JsonRpcBridge.Pump.Threads
import Mathlib.Algebra.BigOperators.Group.Multiset.Defs
import Mathlib.Algebra.GroupWithZero.Nat

/-!
# No thread of the pump is left asleep

* `no_lost_wakeup`: while a thread waits on `m_cv`, at least as many threads and notifications are on
  their way to the queue as there are jobs in it, and once the pump has stopped `notify_all` is on
  its way. So a job stays in the queue only while every thread runs one (`all_busy`).
* `stop_returns`: once `stop` has dropped the queue, the threads of the pump and the callers have
  only so much left to do, in whatever order they run, and when nothing can run any more `stop` has
  returned.
-/

namespace JsonRpcBridge.Pump

open Interleaving

variable {Job : Type}

/-! ## Waiting

`coming` is who will look at the queue without being told again. A thread that goes to sleep has
seen it empty, and a job that arrives later brings its notification. -/

/-- A thread that is about to look at the queue, or a notification that makes one look. -/
def coming (s : CallPump Job) : Section Job → Bool
  | .loop _ | .notifyOne => true
  | .wait w => w ∉ s.waiting
  | _ => false

structure Attended (s : CallPump Job) (p : Multiset (Section Job)) : Prop where
  asleep : ∀ w ∈ s.waiting, .wait w ∈ p
  attended : s.waiting ≠ [] → s.queue.length ≤ p.countP fun x => coming s x = true
  roused : s.stop = true → s.waiting ≠ [] → .notifyAll ∈ p

section

variable {s s' : CallPump Job} {x : Section Job} {made others p p' : Multiset (Section Job)}

theorem coming_cons_pos (hx : coming s x = true) :
    (x ::ₘ p).countP (fun x => coming s x = true) = p.countP (fun x => coming s x = true) + 1 :=
  Multiset.countP_cons_of_pos (p := fun x : Section Job => coming s x = true) p hx

theorem coming_cons_le :
    (x ::ₘ p).countP (fun x => coming s x = true) ≤ p.countP (fun x => coming s x = true) + 1 := by
  rw [Multiset.countP_cons]
  split <;> omega

theorem coming_le_cons :
    p.countP (fun x => coming s x = true) ≤ (x ::ₘ p).countP fun x => coming s x = true :=
  Multiset.countP_le_of_le _ (Multiset.le_cons_self p x)

theorem coming_cons_neg (hx : coming s x = false) :
    (x ::ₘ p).countP (fun x => coming s x = true) = p.countP fun x => coming s x = true := by
  apply Multiset.countP_cons_of_neg
  rw [hx]
  exact Bool.false_ne_true

/-- Whoever was on its way still is when fewer threads wait. -/
theorem coming_mono (h : ∀ w ∈ s'.waiting, w ∈ s.waiting) :
    p.countP (fun x => coming s x = true) ≤ p.countP fun x => coming s' x = true := by
  rw [Multiset.countP_eq_card_filter, Multiset.countP_eq_card_filter]
  apply Multiset.card_le_card
  apply Multiset.monotone_filter_right
  intro x hx
  cases x with
  | wait w =>
      simp only [coming, decide_eq_true_eq] at hx ⊢
      exact fun hw => hx (h w hw)
  | loop w | notifyOne => rfl
  | _ => cases hx

theorem coming_congr (h : s'.waiting = s.waiting) : coming s' = coming s := by
  funext x
  cases x with
  | wait w => rw [coming, coming, h]
  | _ => rfl

/-! ### Section by section -/

/-- A section that wakes nobody leaves, and `y` comes in its place. -/
theorem Attended.moves {y : Section Job} (hi : Attended s (x ::ₘ others))
    (hwaiting : s'.waiting = s.waiting) (hx : ∀ w, x ≠ .wait w) (hall : x ≠ .notifyAll)
    (hstop : s'.stop = true → s.stop = true)
    (hqueue : s.queue.length ≤ (x ::ₘ others).countP (fun x => coming s x = true) →
      s'.queue.length ≤ (y ::ₘ others).countP fun x => coming s x = true) :
    Attended s' (y ::ₘ others) where
  asleep w hw := by
    rw [hwaiting] at hw
    rcases Multiset.mem_cons.mp (hi.asleep w hw) with heq | hmem
    · exact absurd heq.symm (hx w)
    · exact Multiset.mem_cons_of_mem hmem
  attended hne := by
    rw [coming_congr hwaiting]
    rw [hwaiting] at hne
    exact hqueue (hi.attended hne)
  roused h hne := by
    rw [hwaiting] at hne
    rcases Multiset.mem_cons.mp (hi.roused (hstop h) hne) with heq | hmem
    · exact absurd heq.symm hall
    · exact Multiset.mem_cons_of_mem hmem

/-- A section that wakes nobody leaves, while nobody waits or no job is there. -/
theorem Attended.leaves (hi : Attended s (x ::ₘ others)) (hwaiting : s'.waiting = s.waiting)
    (hx : ∀ w, x ≠ .wait w) (hall : x ≠ .notifyAll) (hstop : s'.stop = true → s.stop = true)
    (hqueue : s.waiting ≠ [] → s.queue.length ≤ (x ::ₘ others).countP (fun x => coming s x = true) →
      s'.queue.length ≤ others.countP fun x => coming s x = true) :
    Attended s' others where
  asleep w hw := by
    rw [hwaiting] at hw
    rcases Multiset.mem_cons.mp (hi.asleep w hw) with heq | hmem
    · exact absurd heq.symm (hx w)
    · exact hmem
  attended hne := by
    rw [coming_congr hwaiting]
    rw [hwaiting] at hne
    exact hqueue hne (hi.attended hne)
  roused h hne := by
    rw [hwaiting] at hne
    rcases Multiset.mem_cons.mp (hi.roused (hstop h) hne) with heq | hmem
    · exact absurd heq.symm hall
    · exact hmem

theorem mem_wake {w v : Nat} : v ∈ (s.wake w).waiting ↔ v ∈ s.waiting ∧ v ≠ w := by
  simp [CallPump.wake]

/-- `notify_one` trades a notification for the thread it wakes. -/
theorem Attended.wake {w : Nat} (hi : Attended s (.notifyOne ::ₘ others)) (hw : w ∈ s.waiting) :
    Attended (s.wake w) others where
  asleep v hv := by
    rcases Multiset.mem_cons.mp (hi.asleep v (mem_wake.mp hv).1) with heq | hmem
    · cases heq
    · exact hmem
  attended _ := by
    have hmem : .wait w ∈ others := by
      rcases Multiset.mem_cons.mp (hi.asleep w hw) with heq | hmem
      · cases heq
      · exact hmem
    obtain ⟨rest, rfl⟩ := Multiset.exists_cons_of_mem hmem
    have hle := hi.attended (List.ne_nil_of_mem hw)
    have hbefore : coming s (.wait w) = false := by simp [coming, hw]
    have hafter : coming (s.wake w) (.wait w) = true := by simp [coming, mem_wake]
    rw [coming_cons_pos rfl, coming_cons_neg hbefore] at hle
    rw [coming_cons_pos hafter]
    have hmono := coming_mono (p := rest) fun v (hv : v ∈ (s.wake w).waiting) => (mem_wake.mp hv).1
    show s.queue.length ≤ _
    omega
  roused hstop _ := by
    rcases Multiset.mem_cons.mp (hi.roused hstop (List.ne_nil_of_mem hw)) with heq | hmem
    · cases heq
    · exact hmem

/-- A thread wakes up, notified or by itself. -/
theorem Attended.rouse {w : Nat} (hi : Attended s (.wait w ::ₘ others)) :
    Attended (s.wake w) (.loop w ::ₘ others) where
  asleep v hv := by
    obtain ⟨hv, hne⟩ := mem_wake.mp hv
    rcases Multiset.mem_cons.mp (hi.asleep v hv) with heq | hmem
    · cases heq
      exact absurd rfl hne
    · exact Multiset.mem_cons_of_mem hmem
  attended hne := by
    obtain ⟨v, hv⟩ := List.exists_mem_of_ne_nil _ hne
    have hle := hi.attended (List.ne_nil_of_mem (mem_wake.mp hv).1)
    have hx := coming_cons_le (s := s) (x := .wait w) (p := others)
    have hmono := coming_mono (p := others) fun v (hv : v ∈ (s.wake w).waiting) =>
      (mem_wake.mp hv).1
    rw [coming_cons_pos rfl]
    show s.queue.length ≤ _
    omega
  roused hstop hne := by
    obtain ⟨v, hv⟩ := List.exists_mem_of_ne_nil _ hne
    rcases Multiset.mem_cons.mp (hi.roused hstop (List.ne_nil_of_mem (mem_wake.mp hv).1)) with
      heq | hmem
    · cases heq
    · exact Multiset.mem_cons_of_mem hmem

/-- A thread that finds no job goes to sleep. -/
theorem Attended.sleep {w : Nat} (hi : Attended s (.loop w ::ₘ others)) (hgo : s.stop = false)
    (hqueue : s.queue = []) :
    Attended { s with waiting := w :: s.waiting } (.wait w ::ₘ others) where
  asleep v hv := by
    rcases List.mem_cons.mp hv with rfl | hv
    · exact Multiset.mem_cons_self _ _
    rcases Multiset.mem_cons.mp (hi.asleep v hv) with heq | hmem
    · cases heq
    · exact Multiset.mem_cons_of_mem hmem
  attended _ := by
    show s.queue.length ≤ _
    rw [hqueue]
    exact Nat.zero_le _
  roused hstop _ := by
    rw [hgo] at hstop
    cases hstop

theorem Attended.drop (hi : Attended s (.stop ::ₘ others)) :
    Attended s.drop (.notifyAll ::ₘ others) where
  asleep w hw := by
    rcases Multiset.mem_cons.mp (hi.asleep w hw) with heq | hmem
    · cases heq
    · exact Multiset.mem_cons_of_mem hmem
  attended _ := Nat.zero_le _
  roused _ _ := Multiset.mem_cons_self _ _

/-- **Step.** -/
theorem Attended.step (hi : Attended s (x ::ₘ others)) (hthreads : Threads s (x ::ₘ others))
    (h : Does s x s' made) : Attended s' (made + others) := by
  cases h with
  | starts =>
      refine hi.moves rfl (by simp) (by simp) (fun h => by cases h) fun h => ?_
      exact le_trans h (le_of_eq ((coming_cons_neg rfl).trans (coming_cons_neg rfl).symm))
  | launched =>
      rw [zero_add]
      refine hi.leaves rfl (by simp) (by simp) id fun _ h => ?_
      exact le_trans h (le_of_eq (coming_cons_neg rfl))
  | @launches n =>
      rw [Multiset.cons_add, Multiset.singleton_add, Multiset.cons_swap]
      -- the new thread is on its way to the queue
      have hlaunch : Attended { s with threads := s.threads ++ [s.made], made := s.made + 1 }
          (.launch n ::ₘ others) := by
        refine hi.moves rfl (by simp) (by simp) id fun h => ?_
        exact le_trans h (le_of_eq ((coming_cons_neg rfl).trans (coming_cons_neg rfl).symm))
      exact {
        asleep := fun w hw => Multiset.mem_cons_of_mem (hlaunch.asleep w hw)
        attended := fun hne => le_trans (hlaunch.attended hne) coming_le_cons
        roused := fun hstop hne => Multiset.mem_cons_of_mem (hlaunch.roused hstop hne) }
  | accepts hgo =>
      refine hi.moves rfl (by simp) (by simp) id fun h => ?_
      rw [coming_cons_neg rfl] at h
      rw [coming_cons_pos rfl, List.length_append]
      exact Nat.succ_le_succ h
  | refuses _ =>
      rw [zero_add]
      refine hi.leaves rfl (by simp) (by simp) id fun _ h => ?_
      exact le_trans h (le_of_eq (coming_cons_neg rfl))
  | idle hnone =>
      rw [zero_add]
      exact hi.leaves rfl (by simp) (by simp) id fun hne => absurd hnone hne
  | wakes hw =>
      rw [zero_add]
      exact hi.wake hw
  | drops => exact hi.drop
  | wakesAll =>
      exact {
        asleep := fun w hw => by cases hw
        attended := fun hne => absurd rfl hne
        roused := fun _ hne => absurd rfl hne }
  | joins _ =>
      refine hi.moves rfl (by simp) (by simp) id fun h => ?_
      exact le_trans h (le_of_eq ((coming_cons_neg rfl).trans (coming_cons_neg rfl).symm))
  | returns =>
      rw [zero_add]
      refine hi.leaves rfl (by simp) (by simp) id fun _ h => ?_
      exact le_trans h (le_of_eq (coming_cons_neg rfl))
  | ends hstop =>
      rw [zero_add]
      refine hi.leaves rfl (by simp) (by simp) id fun _ _ => ?_
      show s.queue.length ≤ _
      rw [hthreads.empty hstop]
      exact Nat.zero_le _
  | sleeps hgo hqueue => exact hi.sleep hgo hqueue
  | takes hgo hqueue =>
      refine hi.moves rfl (by simp) (by simp) id fun h => ?_
      rw [coming_cons_pos rfl, hqueue] at h
      rw [coming_cons_neg rfl]
      exact Nat.le_of_succ_le_succ h
  | rouses => exact hi.rouse
  | runs =>
      refine hi.moves rfl (by simp) (by simp) id fun h => ?_
      exact le_trans h (le_trans (le_of_eq (coming_cons_neg rfl)) coming_le_cons)

end

theorem Attended.enter {s : CallPump Job} {p : Multiset (Section Job)} {ev : Entry Job}
    {e : Effect (CallPump Job) (Section Job)} (hi : Attended s p) (h : enter s ev = some e) :
    Attended e.shared (e.made + p) := by
  have hnew : ∀ (s' : CallPump Job) (x : Section Job), s'.waiting = s.waiting →
      s'.queue = s.queue → s'.stop = s.stop → Attended s' (x ::ₘ p) := by
    intro s' x hwaiting hqueue hstop
    exact {
      asleep := fun w hw => Multiset.mem_cons_of_mem (hi.asleep w (hwaiting ▸ hw))
      attended := fun hne => by
        rw [hqueue, coming_congr hwaiting]
        exact le_trans (hi.attended (hwaiting ▸ hne)) coming_le_cons
      roused := fun h hne => Multiset.mem_cons_of_mem (hi.roused (hstop ▸ h) (hwaiting ▸ hne)) }
  cases ev with
  | submit job =>
      cases h
      exact hnew _ _ rfl rfl rfl
  | start _ | stop =>
      simp only [Pump.enter] at h
      split_ifs at h
      cases h
      exact hnew _ _ rfl rfl rfl

/-! ### Runs -/

theorem attended_of_bag {G : Guard (CallPump Job) (Section Job) Nat (Entry Job)} {s : CallPump Job}
    {p : Multiset (Section Job)} (hbag : Bag pump G {} 0 s p) : Attended s p := by
  have hboth : Threads s p ∧ Attended s p := by
    apply Bag.invariant (I := fun s p => Threads s p ∧ Attended s p) _ _ _ hbag
    · refine ⟨threads_start, ?_⟩
      exact {
        asleep := fun w hw => by cases hw
        attended := fun hne => absurd rfl hne
        roused := fun _ hne => absurd rfl hne }
    · intro sh x c e others hi _ h
      exact ⟨hi.1.step (exec_does h), hi.2.step hi.1 (exec_does h)⟩
    · intro sh ev e p hi _ h
      exact ⟨hi.1.enter h, hi.2.enter h⟩
  exact hboth.2

theorem attended_of_run {s : State (CallPump Job) (Section Job)}
    (hrun : Run pump Guard.any initial s) : Attended s.shared s.pending :=
  attended_of_bag hrun.bag

theorem Threads.section_of {s : CallPump Job} {p : Multiset (Section Job)} (hi : Threads s p)
    {w : Nat} (hw : w < s.made) (hnot : w ∉ s.ended) : ∃ x ∈ p, x.worker? = some w := by
  apply carried_pos.mp
  rw [hi.alive, if_pos ⟨hw, hnot⟩]
  exact Nat.one_pos

/-- Where nobody is on its way to a queue that has a job, every thread runs one. -/
theorem Attended.all_busy {s : CallPump Job} {p : Multiset (Section Job)} (hi : Attended s p)
    (hthreads : Threads s p) (hqueue : s.queue ≠ []) (hnone : ∀ x ∈ p, coming s x = false) :
    ∀ w, w < s.made → w ∉ s.ended → ∃ ticket job, .run w ticket job ∈ p := by
  intro w hw hnot
  obtain ⟨x, hx, hworker⟩ := hthreads.section_of hw hnot
  have hasleep : s.waiting = [] := by
    by_contra hne
    have hle := hi.attended hne
    rw [Multiset.countP_eq_zero.mpr fun x hx h => by rw [hnone x hx] at h; cases h] at hle
    exact hqueue (List.eq_nil_of_length_eq_zero (Nat.le_zero.mp hle))
  cases x with
  | run v ticket job =>
      cases hworker
      exact ⟨ticket, job, hx⟩
  | loop v =>
      have h := hnone _ hx
      cases h
  | wait v =>
      have h := hnone _ hx
      rw [coming, hasleep] at h
      simp at h
  | _ => cases hworker

/-- **No lost wakeup.** In every state of every run: while some thread waits on `m_cv` there are at
least as many threads and notifications on their way to the queue as there are jobs in it; a job
stays in the queue only while somebody is on its way or every thread runs a job; and once the pump
has been stopped, the owner is about to wake whoever still waits. -/
theorem no_lost_wakeup {s : State (CallPump Job) (Section Job)}
    (hrun : Run pump Guard.any initial s) :
    (s.shared.waiting ≠ [] →
      s.shared.queue.length ≤ s.pending.countP fun x => coming s.shared x = true) ∧
    (s.shared.queue ≠ [] → (∃ x ∈ s.pending, coming s.shared x = true) ∨
      ∀ w, w < s.shared.made → w ∉ s.shared.ended → ∃ ticket job, .run w ticket job ∈ s.pending) ∧
    (s.shared.stop = true → s.shared.waiting ≠ [] → .notifyAll ∈ s.pending) := by
  have hi := attended_of_run hrun
  refine ⟨hi.attended, ?_, hi.roused⟩
  intro hqueue
  by_cases hcoming : ∃ x ∈ s.pending, coming s.shared x = true
  · exact Or.inl hcoming
  · right
    apply hi.all_busy (threads_of_run hrun) hqueue
    intro x hx
    exact Bool.eq_false_iff.mpr fun h => hcoming ⟨x, hx, h⟩

/-- Both threads sleep, and a job has just come. -/
def asleep : List (Move Nat (Entry Unit)) :=
  [.enter (.start 2), .run 0 0, .run 0 0, .run 0 0, .run 0 0, .run 1 0, .run 2 0,
    .enter (.submit ()), .run 3 0]

theorem no_lost_wakeup_asleep : ∃ s : State (CallPump Unit) (Section Unit),
    s.shared.waiting = [1, 0] ∧ s.shared.queue = [(0, ())] ∧
      s.shared.queue.length ≤ s.pending.countP fun x => coming s.shared x = true := by
  have hall : ((pump.replay initial asleep).map fun s => (s.shared.waiting, s.shared.queue)) =
      some ([1, 0], [(0, ())]) := rfl
  obtain ⟨s, hs, heq⟩ := Option.map_eq_some_iff.mp hall
  obtain ⟨hwaiting, hqueue⟩ := Prod.mk.inj heq
  refine ⟨s, hwaiting, hqueue, (no_lost_wakeup (Run.start.replay hs)).1 ?_⟩
  rw [hwaiting]
  exact List.cons_ne_nil _ _

/-! ## Stopping

After the queue was dropped no section makes more work than it was, but for callers that come
anew. A thread that sleeps is woken by `notify_all`, for which its `wait` counts twice. -/

/-- The owner is past the point where `stop` has dropped the queue, or `stop` has returned, and
nothing else of the owner's is going on. -/
structure Stopped (s : CallPump Job) (p : Multiset (Section Job)) : Prop where
  stop : s.stop = true
  owners : ∀ x ∈ p, x.owners = true → x.stops = true
  returns : (∃ x ∈ p, x.stops = true) ∨ s.halted = true

/-- What a section has left to do, once the pump is stopped. -/
def work (s : CallPump Job) : Section Job → Nat
  | .submit _ | .notifyOne | .loop _ => 1
  | .wait _ | .run _ _ _ => 2
  | .notifyAll => s.threads.length + 2
  | .join threads => threads.length + 1
  | .start _ | .launch _ | .stop => 0

def left (s : CallPump Job) (p : Multiset (Section Job)) : Nat := (p.map (work s)).sum

section

variable {s s' : CallPump Job} {x : Section Job} {made others p : Multiset (Section Job)}

theorem left_cons : left s (x ::ₘ p) = work s x + left s p := by
  rw [left, Multiset.map_cons, Multiset.sum_cons]
  rfl

theorem left_congr (h : ∀ y ∈ p, y.owners ≠ true) : left s' p = left s p := by
  rw [left, left]
  congr 1
  apply Multiset.map_congr rfl
  intro y hy
  cases y with
  | notifyAll => exact absurd rfl (h _ hy)
  | _ => rfl

/-! ### Moves of a stopped pump -/

/-- The owner's place in `stop` is not `x`. -/
theorem Stopped.elsewhere (hi : Stopped s (x ::ₘ others)) (hx : x.stops = false)
    (hhalted : s'.halted = s.halted) :
    (∀ y ∈ others, y.owners = true → y.stops = true) ∧
      ((∃ y ∈ others, y.stops = true) ∨ s'.halted = true) := by
  refine ⟨fun y hy => hi.owners y (Multiset.mem_cons_of_mem hy), ?_⟩
  rcases hi.returns with ⟨y, hy, hstops⟩ | h
  · rcases Multiset.mem_cons.mp hy with rfl | hy
    · rw [hx] at hstops
      cases hstops
    · exact Or.inl ⟨y, hy, hstops⟩
  · rw [hhalted]
    exact Or.inr h

/-- `x` is over. -/
theorem Stopped.leaves (hi : Stopped s (x ::ₘ others)) (hx : x.stops = false)
    (hhalted : s'.halted = s.halted) (hstop : s'.stop = s.stop) : Stopped s' others := by
  obtain ⟨howners, hreturns⟩ := hi.elsewhere hx hhalted
  exact ⟨hstop.trans hi.stop, howners, hreturns⟩

/-- A thread of the pump goes on to `y`. -/
theorem Stopped.moves {y : Section Job} (hi : Stopped s (x ::ₘ others)) (hx : x.stops = false)
    (hy : y.owners = true → y.stops = true) (hhalted : s'.halted = s.halted)
    (hstop : s'.stop = s.stop) : Stopped s' (y ::ₘ others) := by
  obtain ⟨howners, hreturns⟩ := hi.elsewhere hx hhalted
  refine ⟨hstop.trans hi.stop, ?_, ?_⟩
  · intro z hz
    rcases Multiset.mem_cons.mp hz with rfl | hz
    · exact hy
    · exact howners z hz
  · rcases hreturns with ⟨z, hz, hstops⟩ | h
    · exact Or.inl ⟨z, Multiset.mem_cons_of_mem hz, hstops⟩
    · exact Or.inr h

/-- The owner goes on to `y`. -/
theorem Stopped.owner {y : Section Job} (hi : Stopped s (x ::ₘ others)) (hy : y.stops = true)
    (hstop : s'.stop = s.stop) : Stopped s' (y ::ₘ others) := by
  refine ⟨hstop.trans hi.stop, ?_, Or.inl ⟨y, Multiset.mem_cons_self _ _, hy⟩⟩
  intro z hz
  rcases Multiset.mem_cons.mp hz with rfl | hz
  · exact fun _ => hy
  · exact hi.owners z (Multiset.mem_cons_of_mem hz)

theorem Stopped.call (hi : Stopped s p) (hx : x.owners = false) : Stopped s (x ::ₘ p) := by
  refine ⟨hi.stop, ?_, ?_⟩
  · intro y hy howner
    rcases Multiset.mem_cons.mp hy with rfl | hy
    · rw [hx] at howner
      cases howner
    · exact hi.owners y hy howner
  · rcases hi.returns with ⟨y, hy, hstops⟩ | hhalted
    · exact Or.inl ⟨y, Multiset.mem_cons_of_mem hy, hstops⟩
    · exact Or.inr hhalted

/-- **Step.** A section that runs once the pump is stopped leaves less to do. -/
theorem Stopped.step (hi : Stopped s (x ::ₘ others)) (hthreads : Threads s (x ::ₘ others))
    (h : Does s x s' made) :
    Stopped s' (made + others) ∧ left s' (made + others) < left s (x ::ₘ others) := by
  rw [left_cons]
  have hx : x.owners = true → x.stops = true := hi.owners x (Multiset.mem_cons_self _ _)
  cases h with
  | starts | launched | launches | drops => cases hx rfl
  | accepts hgo | sleeps hgo _ | takes hgo _ =>
      rw [hi.stop] at hgo
      cases hgo
  | refuses _ | idle _ =>
      rw [zero_add]
      exact ⟨hi.leaves rfl rfl rfl, Nat.lt_add_of_pos_left Nat.one_pos⟩
  | wakes _ =>
      rw [zero_add]
      exact ⟨hi.leaves rfl rfl rfl, Nat.lt_add_of_pos_left Nat.one_pos⟩
  | ends _ =>
      rw [zero_add]
      exact ⟨hi.leaves rfl rfl rfl, Nat.lt_add_of_pos_left Nat.one_pos⟩
  | wakesAll =>
      rw [Multiset.singleton_add, left_cons]
      exact ⟨hi.owner rfl rfl, Nat.add_lt_add_right (Nat.lt_succ_self _) _⟩
  | joins _ =>
      rw [Multiset.singleton_add, left_cons]
      exact ⟨hi.owner rfl rfl, Nat.add_lt_add_right (Nat.lt_succ_self _) _⟩
  | returns =>
      rw [zero_add, left_congr (s := s) (hthreads.alone rfl).2]
      refine ⟨⟨hi.stop, ?_, Or.inr rfl⟩, Nat.lt_add_of_pos_left (Nat.succ_pos _)⟩
      exact fun y hy => hi.owners y (Multiset.mem_cons_of_mem hy)
  | rouses =>
      rw [Multiset.singleton_add, left_cons]
      refine ⟨hi.moves rfl (fun h => by cases h) rfl rfl, ?_⟩
      exact Nat.add_lt_add_right (Nat.lt_succ_self 1) _
  | runs =>
      rw [Multiset.singleton_add, left_cons]
      refine ⟨hi.moves rfl (fun h => by cases h) rfl rfl, ?_⟩
      exact Nat.add_lt_add_right (Nat.lt_succ_self 1) _

/-- The threads that `stop` still has to join were made. -/
theorem joins_made (hi : ∀ rest, .join rest ∈ x ::ₘ others → ∀ w ∈ rest, w < s.made)
    (hthreads : Threads s (x ::ₘ others)) (h : Does s x s' made) :
    ∀ rest, .join rest ∈ made + others → ∀ w ∈ rest, w < s'.made := by
  have hmade : s.made ≤ s'.made := by
    cases h with
    | launches => exact Nat.le_succ _
    | _ => exact le_refl _
  intro rest hrest w hw
  rcases Multiset.mem_add.mp hrest with hnew | hold
  · cases h with
    | wakesAll =>
        cases Multiset.mem_singleton.mp hnew
        exact hthreads.known w hw
    | joins _ =>
        cases Multiset.mem_singleton.mp hnew
        exact hi _ (Multiset.mem_cons_self _ _) w (List.mem_cons_of_mem _ hw)
    | _ => simp at hnew
  · exact lt_of_lt_of_le (hi rest (Multiset.mem_cons_of_mem hold) w hw) hmade

end

theorem joins_of_run {s : State (CallPump Job) (Section Job)}
    (hrun : Run pump Guard.any initial s) :
    ∀ rest, .join rest ∈ s.pending → ∀ w ∈ rest, w < s.shared.made := by
  apply Run.invariant_with (J := Threads)
    (I := fun sh p => ∀ rest, .join rest ∈ p → ∀ w ∈ rest, w < sh.made)
    (fun s hrun => threads_of_run hrun) _ _ _ hrun
  · intro rest hrest
    exact absurd hrest (Multiset.notMem_zero _)
  · intro sh x c e others hthreads hi _ h
    exact joins_made hi hthreads (exec_does h)
  · intro sh ev e p _ hi _ h
    cases ev with
    | submit job =>
        cases h
        intro rest hrest
        exact hi rest (by simpa [Effect.made] using hrest)
    | start _ | stop =>
        simp only [pump, Pump.enter] at h
        split_ifs at h
        cases h
        intro rest hrest
        exact hi rest (by simpa [Effect.made] using hrest)

/-! ### Nobody is stuck

Of the sections of a stopped pump only a `join` may have to wait, and it waits for a thread that
can go on. -/

/-- No thread has more than one section to run. -/
theorem trailing :
    (pump : Program (CallPump Job) (Section Job) Nat (Entry Job)).Trailing fun _ => False where
  exec := by
    intro sh x c e h
    refine ⟨False.elim, ?_⟩
    -- each section is followed by one at most, in its own thread or in a new one
    cases x with
    | launch n =>
        cases n with
        | zero =>
            cases h
            simp [Trails]
        | succ n =>
            cases h
            simp [Trails]
    | submit job =>
        cases h
        dsimp only
        split <;> simp [Trails]
    | notifyOne =>
        simp only [pump, exec] at h
        split_ifs at h
        · cases h
          simp [Trails]
        · cases h
          simp [Trails]
    | join threads =>
        cases threads with
        | nil =>
            cases h
            simp [Trails]
        | cons w rest =>
            simp only [pump, exec] at h
            split_ifs at h
            cases h
            simp [Trails]
    | loop w =>
        simp only [pump, exec] at h
        split_ifs at h
        · cases h
          simp [Trails]
        · split at h
          · cases h
            simp [Trails]
          · cases h
            simp [Trails]
    | start _ | stop | notifyAll | wait _ | run _ _ _ =>
        cases h
        simp [Trails]
  enter := by
    intro sh ev e h
    cases ev with
    | submit job =>
        cases h
        simp [Trails]
    | start _ | stop =>
        simp only [pump, Pump.enter] at h
        split_ifs at h
        cases h
        simp [Trails]

/-- The only section that cannot run is a `join` of a thread that has not ended. -/
theorem join_of_blocked {s : CallPump Job} {x : Section Job} (h : ∀ c, exec s x c = none) :
    ∃ w rest, x = .join (w :: rest) ∧ w ∉ s.ended := by
  have h₀ := h 0
  cases x with
  | join threads =>
      cases threads with
      | nil => cases h₀
      | cons w rest =>
          refine ⟨w, rest, rfl, fun hw => ?_⟩
          rw [exec, if_pos hw] at h₀
          cases h₀
  | notifyOne =>
      cases hwaiting : s.waiting with
      | nil =>
          rw [exec, if_pos hwaiting] at h₀
          cases h₀
      | cons w rest =>
          -- `notify_one` can wake the first that waits
          have hw := h w
          rw [exec, if_neg (by simp [hwaiting]), if_pos (by simp [hwaiting])] at hw
          cases hw
  | launch n =>
      cases n with
      | zero => cases h₀
      | succ n => cases h₀
  | loop w =>
      simp only [exec] at h₀
      split_ifs at h₀
      split at h₀
      · cases h₀
      · cases h₀
  | _ => cases h₀

/-- What the callers of a stopped pump may do. -/
def submits : Move Nat (Entry Job) → Bool
  | .run _ _ | .enter (.submit _) => true
  | .enter _ => false

/-- **`stop` returns.** Once `stop` has dropped the queue, whatever the order in which the threads
of the pump, the owner and any callers of `submit` go on: each section that runs leaves less to do,
each call adds one section at most, and when none can run any more then none is left and `stop` has
returned. -/
theorem stop_returns {s s' : State (CallPump Job) (Section Job)} {ms : List (Move Nat (Entry Job))}
    (hrun : Run pump Guard.any initial s) (hstop : ∃ x ∈ s.pending, x.stops = true)
    (h : pump.replayIf (fun _ m => submits m) s ms = some s') :
    ms.countP Move.isRun + left s'.shared s'.pending ≤
      left s.shared s.pending + ms.countP (fun m => !m.isRun) ∧
    ((∀ i c, pump.step s' (.run i c) = none) → s'.pending = 0 ∧ s'.shared.halted = true) := by
  have hthreads := threads_of_run hrun
  have hstopped : Stopped s.shared s.pending := by
    obtain ⟨x, hx, hstops⟩ := hstop
    obtain ⟨others, hp⟩ := Multiset.exists_cons_of_mem hx
    rw [hp] at hthreads ⊢
    refine ⟨hthreads.stopping x (Multiset.mem_cons_self _ _) hstops, ?_,
      Or.inl ⟨x, Multiset.mem_cons_self _ _, hstops⟩⟩
    intro y hy howner
    rcases Multiset.mem_cons.mp hy with rfl | hy
    · exact hstops
    · exact absurd howner ((hthreads.alone (owners_of_stops hstops)).2 y hy)
  have hsection : ∀ {t t' : State (CallPump Job) (Section Job)} {i c : Nat},
      Run pump Guard.any initial t ∧ Stopped t.shared t.pending →
      submits (.run i c : Move Nat (Entry Job)) = true → pump.step t (.run i c) = some t' →
      (Run pump Guard.any initial t' ∧ Stopped t'.shared t'.pending) ∧
        left t'.shared t'.pending < left t.shared t.pending := by
    rintro t t' i c ⟨ht, hi⟩ - hstep
    obtain ⟨a, e, others, -, hexec, hp, hs, hp'⟩ := Program.step_run hstep
    have hth := threads_of_run ht
    rw [hp] at hth hi
    obtain ⟨hi', hlt⟩ := hi.step hth (exec_does hexec)
    rw [hs, hp', hp]
    exact ⟨⟨ht.move (Guard.admits_any _ _) hstep, hi'⟩, hlt⟩
  have hcall : ∀ {t t' : State (CallPump Job) (Section Job)} {ev : Entry Job},
      Run pump Guard.any initial t ∧ Stopped t.shared t.pending →
      submits (.enter ev : Move Nat (Entry Job)) = true → pump.step t (.enter ev) = some t' →
      (Run pump Guard.any initial t' ∧ Stopped t'.shared t'.pending) ∧
        left t'.shared t'.pending ≤ left t.shared t.pending + 1 := by
    rintro t t' ev ⟨ht, hi⟩ hok hstep
    obtain ⟨e, he, hs, hp'⟩ := Program.step_enter hstep
    have hrun' := ht.move (Guard.admits_any _ _) hstep
    cases ev with
    | start _ | stop => cases hok
    | submit job =>
        cases he
        rw [hs, hp']
        refine ⟨⟨hrun', hi.call rfl⟩, ?_⟩
        show left t.shared (.submit job ::ₘ t.pending) ≤ _
        rw [left_cons, Nat.add_comm]
        exact le_refl _
  obtain ⟨⟨hrun', hstopped'⟩, hle⟩ := Program.replayIf_bound
    (I := fun t => Run pump Guard.any initial t ∧ Stopped t.shared t.pending) hsection hcall
    ⟨hrun, hstopped⟩ h
  rw [Nat.one_mul] at hle
  refine ⟨hle, fun hstuck => ?_⟩
  have hthreads' := threads_of_run hrun'
  have hblocked : ∀ x ∈ s'.pending, ∀ c, exec s'.shared x c = none :=
    forall_pending_of_heads (trailing.run (fun t ht => by cases ht) hrun')
      (fun i _ ha c => blocked_of_stuck (hstuck i c) ha) (fun _ _ hx => hx.elim)
  have hempty : s'.pending = 0 := by
    apply Multiset.eq_zero_of_forall_notMem
    intro x hx
    obtain ⟨w, rest, rfl, hw⟩ := join_of_blocked (hblocked x hx)
    -- the thread that `join` waits for has a section, and that one can run
    have hmade := joins_of_run hrun' _ hx w List.mem_cons_self
    obtain ⟨y, hy, hworker⟩ := hthreads'.section_of hmade hw
    obtain ⟨v, rest', rfl, -⟩ := join_of_blocked (hblocked y hy)
    cases hworker
  refine ⟨hempty, ?_⟩
  rcases hstopped'.returns with ⟨x, hx, -⟩ | hhalted
  · rw [hempty] at hx
    exact absurd hx (Multiset.notMem_zero x)
  · exact hhalted

/-- A pump of two threads, one asleep and one in a job, whose `stop` has dropped the queue. -/
def stopping : List (Move Nat (Entry Unit)) :=
  [.enter (.start 2), .run 0 0, .run 0 0, .run 0 0, .run 0 0, .run 2 0, .enter (.submit ()), .run 3 0,
    .run 1 0, .enter .stop, .run 4 0]

def joining : List (Move Nat (Entry Unit)) :=
  [.run 4 0, .run 2 0, .run 2 0, .run 1 0, .run 1 0, .run 3 0, .run 4 0, .run 4 0, .run 4 0]

/-- Nine sections are left, and after nine moves `stop` has returned. -/
theorem stop_returns_two : ∃ s s' : State (CallPump Unit) (Section Unit),
    Run pump Guard.any initial s ∧ left s.shared s.pending = 9 ∧
      (9 + left s'.shared s'.pending ≤ 9 ∧
        ((∀ i c, pump.step s' (.run i c) = none) → s'.pending = 0 ∧ s'.shared.halted = true)) := by
  have hall : ((pump.replay initial stopping).bind fun s => (pump.replayIf (fun _ m => submits m) s joining).map fun s' =>
      (left s.shared s.pending, s.threads)) =
        some (9, [[], [.run 0 0 ()], [.wait 1], [.notifyOne], [.notifyAll]]) := rfl
  obtain ⟨s, hs, hrest⟩ := Option.bind_eq_some_iff.mp hall
  obtain ⟨s', hs', heq⟩ := Option.map_eq_some_iff.mp hrest
  obtain ⟨hleft, hthreads⟩ := Prod.mk.inj heq
  have hrun : Run pump Guard.any initial s := Run.start.replay hs
  have hstop : ∃ x ∈ s.pending, x.stops = true := by
    refine ⟨.notifyAll, ?_, rfl⟩
    rw [State.pending, hthreads]
    simp
  have hreturns := stop_returns hrun hstop hs'
  rw [hleft] at hreturns
  exact ⟨s, s', hrun, hleft, hreturns⟩

end JsonRpcBridge.Pump
