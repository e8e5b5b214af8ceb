import JsonRpcBridge.Pump.Wakeups

/-!
# A pump that runs has threads

`Staffed`: between a `start` that makes a thread and the next `stop`, there is a thread and none has
ended. So in such a pump a job is left in the queue only while somebody is on the way to it, and when
every thread sleeps the queue is empty (`queue_empty_of_asleep`).
-/

namespace JsonRpcBridge.Pump

open Interleaving

variable {Job : Type}

/-! ## Threads of a running pump

The owner makes the threads one by one after it has cleared the flag, and no thread ends before
the flag is set again. -/

/-- `start` is asked for a thread at least. -/
def staffs : Guard (CallPump Job) (Section Job) Nat (Entry Job) where
  run _ _ _ _ := True
  enter _ _ ev := ∀ n, ev = .start n → 0 < n

structure Staffed (s : CallPump Job) (p : Multiset (Section Job)) : Prop where
  alive : s.stop = false → ∀ w ∈ s.threads, w ∉ s.ended
  staffed : s.stop = false → s.threads ≠ [] ∨ ∃ n, .launch (n + 1) ∈ p
  resting : s.stop = true → s.halted = true ∨ ∃ x ∈ p, x.stops = true
  cleared : s.halted = true → s.threads = []
  starting : ∀ n, .start n ∈ p → 0 < n

section

variable {s s' : CallPump Job} {x : Section Job} {made others p : Multiset (Section Job)}

/-- A section that is not the owner's. -/
theorem Staffed.same (hi : Staffed s (x ::ₘ others)) (h : SameThreads s s') (hx : x.owners = false)
    (hmade : ∀ y ∈ made, y.owners = false) :
    Staffed s' (made + others) := by
  have hkeeps : ∀ y : Section Job, y.owners = true → (y ∈ made + others ↔ y ∈ x ::ₘ others) := by
    intro y hy
    rw [Multiset.mem_add, Multiset.mem_cons]
    constructor
    · rintro (hnew | hold)
      · rw [hmade y hnew] at hy
        cases hy
      · exact Or.inr hold
    · rintro (rfl | hold)
      · rw [hx] at hy
        cases hy
      · exact Or.inr hold
  refine ⟨?_, ?_, ?_, ?_, ?_⟩
  · rw [h.stop, h.threads, h.ended]
    exact hi.alive
  · rw [h.stop, h.threads]
    intro hgo
    rcases hi.staffed hgo with hne | ⟨n, hn⟩
    · exact Or.inl hne
    · exact Or.inr ⟨n, (hkeeps _ rfl).mpr hn⟩
  · rw [h.stop, h.halted]
    intro hstop
    rcases hi.resting hstop with hhalted | ⟨y, hy, hstops⟩
    · exact Or.inl hhalted
    · exact Or.inr ⟨y, (hkeeps y (owners_of_stops hstops)).mpr hy, hstops⟩
  · rw [h.halted, h.threads]
    exact hi.cleared
  · intro n hn
    exact hi.starting n ((hkeeps _ rfl).mp hn)

theorem Staffed.start {n : Nat} (hi : Staffed s (.start n ::ₘ others))
    (hthreads : Threads s (.start n ::ₘ others)) :
    Staffed { s with stop := false, halted := false } (.launch n ::ₘ others) where
  alive _ := by
    cases hstop : s.stop with
    | false => exact hi.alive hstop
    | true =>
        -- the last `stop` has returned, for the owner is here
        rcases hi.resting hstop with hhalted | ⟨y, hy, hstops⟩
        · intro w hw
          rw [show s.threads = [] from hi.cleared hhalted] at hw
          cases hw
        · rcases Multiset.mem_cons.mp hy with rfl | hy
          · cases hstops
          · exact absurd (owners_of_stops hstops) ((hthreads.alone rfl).2 y hy)
  staffed _ := by
    obtain ⟨m, rfl⟩ := Nat.exists_eq_succ_of_ne_zero
      (Nat.pos_iff_ne_zero.mp (hi.starting n (Multiset.mem_cons_self _ _)))
    exact Or.inr ⟨m, Multiset.mem_cons_self _ _⟩
  resting h := by cases h
  cleared h := by cases h
  starting m hm := by
    rcases Multiset.mem_cons.mp hm with heq | hm
    · cases heq
    · exact hi.starting m (Multiset.mem_cons_of_mem hm)

/-- **Step.** -/
theorem Staffed.step (hi : Staffed s (x ::ₘ others)) (hthreads : Threads s (x ::ₘ others))
    (h : Does s x s' made) : Staffed s' (made + others) := by
  have hlaunched : ∀ n m, x = .launch n → .launch (m + 1) ∈ x ::ₘ others → n = m + 1 := by
    rintro n m rfl hm
    rcases Multiset.mem_cons.mp hm with heq | hm
    · exact (Section.launch.inj heq).symm
    · exact absurd rfl ((hthreads.alone rfl).2 _ hm)
  have hstarts : ∀ n, .start n ∈ others → 0 < n :=
    fun n hn => hi.starting n (Multiset.mem_cons_of_mem hn)
  cases h with
  | starts => exact hi.start hthreads
  -- `start` returns: it has made a thread, for it was told to make one at least
  | launched =>
      rw [zero_add]
      obtain ⟨hgo, hhalted⟩ := hthreads.starting 0 (Multiset.mem_cons_self _ _)
      refine ⟨hi.alive, fun hgo => ?_, fun hstop => ?_, hi.cleared, hstarts⟩
      · rcases hi.staffed hgo with hne | ⟨m, hm⟩
        · exact Or.inl hne
        · cases hlaunched 0 m rfl hm
      · rw [show s.stop = true from hstop] at hgo
        cases hgo
  | @launches n =>
      obtain ⟨hgo, hhalted⟩ := hthreads.starting _ (Multiset.mem_cons_self _ _)
      refine ⟨fun _ w hw hended => ?_, fun _ => Or.inl (by simp), fun hstop => ?_, fun h => ?_,
        fun m hm => ?_⟩
      · rcases List.mem_append.mp hw with hw | hw
        · exact hi.alive hgo w hw hended
        · rw [List.mem_singleton.mp hw] at hended
          exact absurd (hthreads.past _ hended) (Nat.lt_irrefl _)
      · rw [show s.stop = true from hstop] at hgo
        cases hgo
      · rw [show s.halted = true from h] at hhalted
        cases hhalted
      · apply hstarts
        simpa using hm
  | drops =>
      refine ⟨(fun h => by cases h), (fun h => by cases h), fun _ => Or.inr ⟨.notifyAll, ?_, rfl⟩,
        hi.cleared, fun m hm => hstarts m (by simpa using hm)⟩
      exact Multiset.mem_cons_self _ _
  | wakesAll =>
      have hstop := hthreads.stopping _ (Multiset.mem_cons_self _ _) rfl
      refine ⟨hi.alive, fun hgo => ?_, fun _ => Or.inr ⟨.join s.threads, ?_, rfl⟩, hi.cleared,
        fun m hm => hstarts m (by simpa using hm)⟩
      · rw [show s.stop = false from hgo] at hstop
        cases hstop
      · exact Multiset.mem_cons_self _ _
  | @joins w rest hw =>
      have hstop := hthreads.stopping _ (Multiset.mem_cons_self _ _) rfl
      refine ⟨hi.alive, fun hgo => ?_, fun _ => Or.inr ⟨.join rest, ?_, rfl⟩, hi.cleared,
        fun m hm => hstarts m (by simpa using hm)⟩
      · rw [hgo] at hstop
        cases hstop
      · exact Multiset.mem_cons_self _ _
  | returns =>
      have hstop := hthreads.stopping _ (Multiset.mem_cons_self _ _) rfl
      rw [zero_add]
      refine ⟨fun _ w hw => absurd hw List.not_mem_nil, fun hgo => ?_, fun _ => Or.inl rfl,
        fun _ => rfl, hstarts⟩
      rw [show s.stop = false from hgo] at hstop
      cases hstop
  -- a thread ends only after the pump has stopped, when nobody needs to be alive
  | ends hstop =>
      rw [zero_add]
      refine ⟨fun hgo => ?_, fun hgo => ?_, fun _ => ?_, hi.cleared, hstarts⟩
      · rw [show s.stop = false from hgo] at hstop
        cases hstop
      · rw [show s.stop = false from hgo] at hstop
        cases hstop
      · rcases hi.resting hstop with hhalted | ⟨y, hy, hstops⟩
        · exact Or.inl hhalted
        · rcases Multiset.mem_cons.mp hy with rfl | hy
          · cases hstops
          · exact Or.inr ⟨y, hy, hstops⟩
  | refuses _ | idle _ | wakes _ =>
      refine hi.same ?_ rfl fun y hy => absurd hy (Multiset.notMem_zero y)
      exact ⟨rfl, rfl, rfl, rfl, rfl, rfl⟩
  | _ =>
      refine hi.same ?_ rfl fun y hy => ?_
      · exact ⟨rfl, rfl, rfl, rfl, rfl, rfl⟩
      · rw [Multiset.mem_singleton.mp hy]
        rfl

/-! ### Runs -/

/-- Somebody calls, and has done nothing yet. -/
theorem Staffed.call (owned : Bool) (hi : Staffed s p) (hx : ∀ n, x = .start n → 0 < n) :
    Staffed { s with owned } (x ::ₘ p) where
  alive := hi.alive
  staffed hgo := by
    rcases hi.staffed hgo with hne | ⟨n, hn⟩
    · exact Or.inl hne
    · exact Or.inr ⟨n, Multiset.mem_cons_of_mem hn⟩
  resting hstop := by
    rcases hi.resting hstop with hhalted | ⟨y, hy, hstops⟩
    · exact Or.inl hhalted
    · exact Or.inr ⟨y, Multiset.mem_cons_of_mem hy, hstops⟩
  cleared := hi.cleared
  starting n hn := by
    rcases Multiset.mem_cons.mp hn with heq | hn
    · exact hx n heq.symm
    · exact hi.starting n hn

theorem Staffed.enter {ev : Entry Job} {e : Effect (CallPump Job) (Section Job)} (hi : Staffed s p)
    (hok : ∀ n, ev = .start n → 0 < n) (h : enter s ev = some e) : Staffed e.shared (e.made + p) := by
  cases ev with
  | submit job =>
      cases h
      exact hi.call s.owned (by simp)
  | start n =>
      simp only [Pump.enter] at h
      split_ifs at h
      cases h
      exact hi.call true fun m hm => hok m (by rw [Section.start.inj hm])
  | stop =>
      simp only [Pump.enter] at h
      split_ifs at h
      cases h
      exact hi.call true (by simp)

end

theorem staffed_of_bag {s : CallPump Job} {p : Multiset (Section Job)}
    (hbag : Bag pump staffs {} 0 s p) : Staffed s p := by
  have hboth : Threads s p ∧ Staffed s p := by
    apply Bag.invariant (I := fun s p => Threads s p ∧ Staffed s p) _ _ _ hbag
    · refine ⟨threads_start, ?_⟩
      exact {
        alive := fun _ w hw => absurd hw List.not_mem_nil
        staffed := fun hgo => by cases hgo
        resting := fun _ => Or.inl rfl
        cleared := fun _ => rfl
        starting := fun _ hn => absurd hn (Multiset.notMem_zero _) }
    · intro sh x c e others hi _ h
      exact ⟨hi.1.step (exec_does h), hi.2.step hi.1 (exec_does h)⟩
    · intro sh ev e p hi hok h
      exact ⟨hi.1.enter h, hi.2.enter hok h⟩
  exact hboth.2

/-- Where every section that is left is that of a thread asleep, no job is left in the queue of a
pump that runs. -/
theorem queue_empty_of_asleep {s : CallPump Job} {p : Multiset (Section Job)}
    (hbag : Bag pump staffs {} 0 s p) (hgo : s.stop = false)
    (hasleep : ∀ x ∈ p, ∃ w ∈ s.waiting, x = .wait w) : s.queue = [] := by
  have hthreads := threads_of_bag hbag
  have hstaffed := staffed_of_bag hbag
  obtain ⟨w, hw⟩ : ∃ w, w ∈ s.threads := by
    rcases hstaffed.staffed hgo with hne | ⟨n, hn⟩
    · exact List.exists_mem_of_ne_nil _ hne
    · obtain ⟨w, -, heq⟩ := hasleep _ hn
      cases heq
  obtain ⟨x, hx, -⟩ := hthreads.section_of (hthreads.known w hw) (hstaffed.alive hgo w hw)
  obtain ⟨v, hv, rfl⟩ := hasleep x hx
  have hle := (attended_of_bag hbag).attended (List.ne_nil_of_mem hv)
  rw [Multiset.countP_eq_zero.mpr] at hle
  · exact List.eq_nil_of_length_eq_zero (Nat.le_zero.mp hle)
  · intro y hy hcoming
    obtain ⟨u, hu, rfl⟩ := hasleep y hy
    simp [coming, hu] at hcoming

end JsonRpcBridge.Pump
