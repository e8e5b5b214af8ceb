import JsonRpcBridge.Interleaving.Bag
import JsonRpcBridge.Interleaving.History
import JsonRpcBridge.Pump.Jobs

/-!
# The threads of the pump

* `Threads`: which threads there are, what each of them is at, and where the owner is; it holds in
  every state of every run (`threads_of_run`).
* `quiet_until_start`: once `stop` has returned no job is accepted, taken, begun or dropped before
  the next `start`, and no thread of the pump is left.
-/

namespace JsonRpcBridge.Pump

open Interleaving

variable {Job : Type}

/-! ## The account

A thread that was made and has not ended has exactly one section, and the owner is in one call at
most. -/

/-- At how many places the owner is. -/
def owning (p : Multiset (Section Job)) : Nat := p.countP fun x => x.owners = true

/-- `alive`: a thread that has not ended has one section to run. -/
structure Threads (s : CallPump Job) (p : Multiset (Section Job)) : Prop where
  alive : ∀ w, carried Section.worker? w p = if w < s.made ∧ w ∉ s.ended then 1 else 0
  listed : ∀ w, w < s.made → w ∉ s.ended → w ∈ s.threads
  known : ∀ w ∈ s.threads, w < s.made
  past : ∀ w ∈ s.ended, w < s.made
  owner : owning p = if s.owned then 1 else 0
  empty : s.stop = true → s.queue = []
  starting : ∀ n, .launch n ∈ p → s.stop = false ∧ s.halted = false
  stopping : ∀ x ∈ p, x.stops = true → s.stop = true
  joining : ∀ rest, .join rest ∈ p → ∀ w ∈ s.threads, w ∈ s.ended ∨ w ∈ rest
  halted : s.halted = true → s.stop = true ∧ ∀ w, w < s.made → w ∈ s.ended

theorem owners_of_stops {x : Section Job} (h : x.stops = true) : x.owners = true := by
  cases x with
  | notifyAll | join _ => rfl
  | _ => cases h

section

variable {s s' : CallPump Job} {x : Section Job} {made others p p' : Multiset (Section Job)}

theorem owning_cons_pos (hx : x.owners = true) : owning (x ::ₘ p) = owning p + 1 :=
  Multiset.countP_cons_of_pos (p := fun x : Section Job => x.owners = true) p hx

theorem owning_cons_neg (hx : x.owners = false) : owning (x ::ₘ p) = owning p := by
  apply Multiset.countP_cons_of_neg
  rw [hx]
  exact Bool.false_ne_true

theorem carried_loop (w v : Nat) : carried Section.worker? v (.loop w ::ₘ p) =
    carried Section.worker? v p + if w = v then 1 else 0 :=
  carried_cons_of_some (f := Section.worker?) rfl

/-! ## Sections that are not the owner's

A thread goes from one section of its own to the next, and ends. -/

/-- The threads and the owner where they were. -/
structure SameThreads (s s' : CallPump Job) : Prop where
  made : s'.made = s.made
  ended : s'.ended = s.ended
  threads : s'.threads = s.threads
  owned : s'.owned = s.owned
  stop : s'.stop = s.stop
  halted : s'.halted = s.halted

theorem Threads.same (hi : Threads s p) (h : SameThreads s s')
    (hempty : s.stop = true → s'.queue = [])
    (hworkers : ∀ w, carried Section.worker? w p' = carried Section.worker? w p)
    (howners : p'.filter (fun x => x.owners = true) = p.filter fun x => x.owners = true) :
    Threads s' p' := by
  have hmem : ∀ {x : Section Job}, x.owners = true → x ∈ p' → x ∈ p := by
    intro x hx hxp
    have : x ∈ p'.filter fun x => x.owners = true := Multiset.mem_filter.mpr ⟨hxp, hx⟩
    rw [howners] at this
    exact Multiset.mem_of_mem_filter this
  refine ⟨?_, ?_, ?_, ?_, ?_, ?_, ?_, ?_, ?_, ?_⟩
  · intro w
    rw [hworkers, hi.alive, h.made, h.ended]
  · rw [h.made, h.ended, h.threads]
    exact hi.listed
  · rw [h.made, h.threads]
    exact hi.known
  · rw [h.made, h.ended]
    exact hi.past
  · rw [h.owned, ← hi.owner, owning, owning, Multiset.countP_eq_card_filter, howners,
      Multiset.countP_eq_card_filter]
  · rw [h.stop]
    exact hempty
  · intro n hn
    rw [h.stop, h.halted]
    exact hi.starting n (hmem rfl hn)
  · intro x hx hstops
    rw [h.stop]
    exact hi.stopping x (hmem (owners_of_stops hstops) hx) hstops
  · intro rest hrest
    rw [h.threads, h.ended]
    exact hi.joining rest (hmem rfl hrest)
  · rw [h.halted, h.stop, h.made, h.ended]
    exact hi.halted

/-- A thread of the pump goes on. -/
theorem Threads.moves {y : Section Job} (hi : Threads s (x ::ₘ others)) (h : SameThreads s s')
    (hempty : s.stop = true → s'.queue = []) (hworker : y.worker? = x.worker?)
    (hx : x.owners = false) (hy : y.owners = false) : Threads s' (y ::ₘ others) := by
  apply hi.same h hempty
  · intro w
    rw [carried_cons, carried_cons, hworker]
  · rw [Multiset.filter_cons_of_neg, Multiset.filter_cons_of_neg]
    · exact Bool.eq_false_iff.mp hx
    · exact Bool.eq_false_iff.mp hy

/-- A section that belongs to no thread of the pump is over. -/
theorem Threads.leaves (hi : Threads s (x ::ₘ others)) (h : SameThreads s s')
    (hempty : s.stop = true → s'.queue = []) (hworker : x.worker? = none)
    (hx : x.owners = false) : Threads s' others := by
  apply hi.same h hempty
  · intro w
    rw [carried_cons_of_none (by simp [hworker])]
  · rw [Multiset.filter_cons_of_neg]
    exact Bool.eq_false_iff.mp hx

theorem Threads.finish {w : Nat} (hi : Threads s (.loop w ::ₘ others)) :
    Threads { s with ended := w :: s.ended } others := by
  have hw : w < s.made ∧ w ∉ s.ended := by
    by_contra hnot
    have := hi.alive w
    rw [if_neg hnot, carried_loop, if_pos rfl] at this
    cases this
  refine ⟨?_, ?_, hi.known, ?_, ?_, hi.empty, ?_, ?_, ?_, ?_⟩
  · intro v
    have hv := hi.alive v
    rw [carried_loop] at hv
    by_cases hvw : w = v
    · subst hvw
      rw [if_pos rfl, if_pos hw] at hv
      rw [Nat.succ.inj hv, if_neg]
      simp
    · rw [if_neg hvw, Nat.add_zero] at hv
      rw [hv]
      simp [Ne.symm hvw]
  · intro v hv hended
    exact hi.listed v hv fun hmem => hended (List.mem_cons_of_mem _ hmem)
  · intro v hv
    rcases List.mem_cons.mp hv with rfl | hv
    · exact hw.1
    · exact hi.past v hv
  · rw [← hi.owner, owning_cons_neg rfl]
  · intro n hn
    exact hi.starting n (Multiset.mem_cons_of_mem hn)
  · intro y hy
    exact hi.stopping y (Multiset.mem_cons_of_mem hy)
  · intro rest hrest v hv
    rcases hi.joining rest (Multiset.mem_cons_of_mem hrest) v hv with hv | hv
    · exact Or.inl (List.mem_cons_of_mem _ hv)
    · exact Or.inr hv
  · intro hhalted
    obtain ⟨hstop, hended⟩ := hi.halted hhalted
    exact ⟨hstop, fun v hv => List.mem_cons_of_mem _ (hended v hv)⟩

/-! ## The owner

`start` and `stop` have the pump to themselves (`Threads.alone`), and go through their sections
one by one. -/

/-- The owner is at one place. -/
theorem Threads.alone (hi : Threads s (x ::ₘ others)) (hx : x.owners = true) :
    s.owned = true ∧ ∀ y ∈ others, y.owners ≠ true := by
  have h := hi.owner
  rw [owning_cons_pos hx] at h
  split at h
  · rename_i howned
    exact ⟨howned, Multiset.countP_eq_zero.mp (Nat.succ.inj h)⟩
  · cases h

theorem alive_others (hi : Threads s (x ::ₘ others)) (hx : x.worker? = none) (w : Nat) :
    carried Section.worker? w others = if w < s.made ∧ w ∉ s.ended then 1 else 0 := by
  rw [← hi.alive, carried_cons_of_none (by simp [hx])]

theorem owning_alone (h : ∀ y ∈ others, y.owners ≠ true) : owning others = 0 :=
  Multiset.countP_eq_zero.mpr h

/-- The owner goes on to `y`. -/
theorem Threads.owner_moves {y : Section Job} (hi : Threads s (x ::ₘ others))
    (hx : x.owners = true) (hy : y.owners = true) (howned : s'.owned = s.owned) :
    owning (y ::ₘ others) = if s'.owned then 1 else 0 := by
  obtain ⟨hown, hothers⟩ := hi.alone hx
  rw [owning_cons_pos hy, owning_alone hothers, howned, hown]
  rfl

theorem Threads.start {n : Nat} (hi : Threads s (.start n ::ₘ others)) :
    Threads { s with stop := false, halted := false } (.launch n ::ₘ others) := by
  obtain ⟨-, hothers⟩ := hi.alone rfl
  refine ⟨?_, hi.listed, hi.known, hi.past, hi.owner_moves rfl rfl rfl, ?_, fun _ _ => ⟨rfl, rfl⟩,
    ?_, ?_, ?_⟩
  · intro w
    rw [carried_cons_of_none rfl]
    exact alive_others hi rfl w
  · intro h
    cases h
  · intro y hy hstops
    rcases Multiset.mem_cons.mp hy with rfl | hy
    · cases hstops
    · exact absurd (owners_of_stops hstops) (hothers y hy)
  · intro rest hrest
    rcases Multiset.mem_cons.mp hrest with heq | hrest
    · cases heq
    · exact absurd rfl (hothers _ hrest)
  · intro h
    cases h

theorem Threads.launched (hi : Threads s (.launch 0 ::ₘ others)) :
    Threads { s with owned := false } others := by
  obtain ⟨-, hothers⟩ := hi.alone rfl
  refine ⟨fun w => alive_others hi rfl w, hi.listed, hi.known, hi.past, owning_alone hothers,
    hi.empty, ?_, ?_, ?_, hi.halted⟩
  · intro n hn
    exact absurd rfl (hothers _ hn)
  · intro y hy hstops
    exact absurd (owners_of_stops hstops) (hothers y hy)
  · intro rest hrest
    exact absurd rfl (hothers _ hrest)

theorem Threads.launch {n : Nat} (hi : Threads s (.launch (n + 1) ::ₘ others)) :
    Threads { s with threads := s.threads ++ [s.made], made := s.made + 1 }
      (.launch n ::ₘ .loop s.made ::ₘ others) := by
  obtain ⟨hown, hothers⟩ := hi.alone rfl
  obtain ⟨hstop, hhalted⟩ := hi.starting _ (Multiset.mem_cons_self _ _)
  -- the number of the new thread is fresh, so nothing is known of it
  have hnew : s.made ∉ s.ended := fun h => Nat.lt_irrefl _ (hi.past _ h)
  refine ⟨?_, ?_, ?_, ?_, ?_, hi.empty, ?_, ?_, ?_, ?_⟩
  · intro w
    rw [carried_cons_of_none rfl, carried_loop, alive_others hi rfl w]
    by_cases hw : s.made = w
    · subst hw
      simp [hnew]
    · rw [if_neg hw, Nat.add_zero]
      have : w < s.made + 1 ↔ w < s.made := by omega
      simp only [this]
  · intro w hw hended
    rcases Nat.lt_succ_iff_lt_or_eq.mp hw with hw | rfl
    · exact List.mem_append_left _ (hi.listed w hw hended)
    · exact List.mem_append_right _ (List.mem_singleton_self _)
  · intro w hw
    rcases List.mem_append.mp hw with hw | hw
    · exact Nat.lt_succ_of_lt (hi.known w hw)
    · rw [List.mem_singleton.mp hw]
      exact Nat.lt_succ_self _
  · intro w hw
    exact Nat.lt_succ_of_lt (hi.past w hw)
  · rw [owning_cons_pos rfl, owning_cons_neg rfl, owning_alone hothers, hown]
    rfl
  · intro _ _
    exact ⟨hstop, hhalted⟩
  · intro y hy hstops
    rcases Multiset.mem_cons.mp hy with rfl | hy
    · cases hstops
    rcases Multiset.mem_cons.mp hy with rfl | hy
    · cases hstops
    · exact absurd (owners_of_stops hstops) (hothers y hy)
  · intro rest hrest
    rcases Multiset.mem_cons.mp hrest with heq | hrest
    · cases heq
    rcases Multiset.mem_cons.mp hrest with heq | hrest
    · cases heq
    · exact absurd rfl (hothers _ hrest)
  · intro h
    rw [hhalted] at h
    cases h

theorem Threads.drop (hi : Threads s (.stop ::ₘ others)) :
    Threads s.drop (.notifyAll ::ₘ others) := by
  obtain ⟨-, hothers⟩ := hi.alone rfl
  refine ⟨?_, hi.listed, hi.known, hi.past, hi.owner_moves rfl rfl rfl, fun _ => rfl, ?_,
    fun _ _ _ => rfl, ?_, fun h => ⟨rfl, (hi.halted h).2⟩⟩
  · intro w
    rw [carried_cons_of_none rfl]
    exact alive_others hi rfl w
  · intro n hn
    rcases Multiset.mem_cons.mp hn with heq | hn
    · cases heq
    · exact absurd rfl (hothers _ hn)
  · intro rest hrest
    rcases Multiset.mem_cons.mp hrest with heq | hrest
    · cases heq
    · exact absurd rfl (hothers _ hrest)

/-- The owner goes on to join the threads of `rest`. -/
theorem Threads.join {rest : List Nat} (hi : Threads s (x ::ₘ others)) (hx : x.stops = true)
    (hworker : x.worker? = none) (h : SameThreads s s') (hqueue : s'.queue = s.queue)
    (hrest : ∀ w ∈ s.threads, w ∈ s.ended ∨ w ∈ rest) : Threads s' (.join rest ::ₘ others) := by
  obtain ⟨-, hothers⟩ := hi.alone (owners_of_stops hx)
  have hstop := hi.stopping x (Multiset.mem_cons_self _ _) hx
  refine ⟨?_, ?_, ?_, ?_, hi.owner_moves (owners_of_stops hx) rfl h.owned, ?_, ?_, ?_, ?_, ?_⟩
  · intro w
    rw [carried_cons_of_none rfl, alive_others hi hworker, h.made, h.ended]
  · rw [h.made, h.ended, h.threads]
    exact hi.listed
  · rw [h.made, h.threads]
    exact hi.known
  · rw [h.made, h.ended]
    exact hi.past
  · intro _
    rw [hqueue]
    exact hi.empty hstop
  · intro n hn
    rcases Multiset.mem_cons.mp hn with heq | hn
    · cases heq
    · exact absurd rfl (hothers _ hn)
  · intro _ _ _
    rw [h.stop]
    exact hstop
  · intro rest' hrest'
    rw [h.threads, h.ended]
    rcases Multiset.mem_cons.mp hrest' with heq | hrest'
    · cases heq
      exact hrest
    · exact absurd rfl (hothers _ hrest')
  · rw [h.halted, h.stop, h.made, h.ended]
    exact hi.halted

theorem Threads.halt (hi : Threads s (.join [] ::ₘ others)) :
    Threads { s with threads := [], owned := false, halted := true } others := by
  obtain ⟨-, hothers⟩ := hi.alone rfl
  have hstop := hi.stopping _ (Multiset.mem_cons_self _ _) rfl
  have hended : ∀ w, w < s.made → w ∈ s.ended := by
    intro w hw
    by_contra hnot
    rcases hi.joining [] (Multiset.mem_cons_self _ _) w (hi.listed w hw hnot) with h | h
    · exact hnot h
    · cases h
  refine ⟨fun w => alive_others hi rfl w, ?_, ?_, hi.past, owning_alone hothers, hi.empty, ?_,
    fun _ _ _ => hstop, ?_, fun _ => ⟨hstop, hended⟩⟩
  · intro w hw hnot
    exact absurd (hended w hw) hnot
  · intro w hw
    cases hw
  · intro n hn
    exact absurd rfl (hothers _ hn)
  · intro rest hrest
    exact absurd rfl (hothers _ hrest)

/-! ### All sections -/

/-- **Step.** -/
theorem Threads.step (hi : Threads s (x ::ₘ others)) (h : Does s x s' made) :
    Threads s' (made + others) := by
  have hempty : s.stop = false → ∀ q : List (Nat × Job), s.stop = true → q = [] := by
    intro h₁ q h₂
    rw [h₁] at h₂
    cases h₂
  cases h with
  | starts => exact hi.start
  | launched =>
      rw [zero_add]
      exact hi.launched
  | launches =>
      rw [Multiset.cons_add, Multiset.singleton_add]
      exact hi.launch
  -- a submission is nobody's thread; the others hand over to their own next section, or to none
  | accepts hstop =>
      exact hi.moves ⟨rfl, rfl, rfl, rfl, rfl, rfl⟩ (hempty hstop _) rfl rfl rfl
  | refuses _ | idle _ =>
      rw [zero_add]
      exact hi.leaves ⟨rfl, rfl, rfl, rfl, rfl, rfl⟩ hi.empty rfl rfl
  | wakes _ =>
      rw [zero_add]
      exact hi.leaves ⟨rfl, rfl, rfl, rfl, rfl, rfl⟩ hi.empty rfl rfl
  | drops => exact hi.drop
  | wakesAll => exact hi.join rfl rfl ⟨rfl, rfl, rfl, rfl, rfl, rfl⟩ rfl fun w hw => Or.inr hw
  | @joins w rest hw =>
      apply hi.join rfl rfl ⟨rfl, rfl, rfl, rfl, rfl, rfl⟩ rfl
      intro v hv
      rcases hi.joining _ (Multiset.mem_cons_self _ _) v hv with hv | hv
      · exact Or.inl hv
      rcases List.mem_cons.mp hv with rfl | hv
      · exact Or.inl hw
      · exact Or.inr hv
  | returns =>
      rw [zero_add]
      exact hi.halt
  | ends _ =>
      rw [zero_add]
      exact hi.finish
  | sleeps _ _ => exact hi.moves ⟨rfl, rfl, rfl, rfl, rfl, rfl⟩ hi.empty rfl rfl rfl
  | takes hstop _ => exact hi.moves ⟨rfl, rfl, rfl, rfl, rfl, rfl⟩ (hempty hstop _) rfl rfl rfl
  | rouses => exact hi.moves ⟨rfl, rfl, rfl, rfl, rfl, rfl⟩ hi.empty rfl rfl rfl
  | runs => exact hi.moves ⟨rfl, rfl, rfl, rfl, rfl, rfl⟩ hi.empty rfl rfl rfl

end

/-! ## Runs

The owner calls again only after the last call has returned. -/

/-- The owner begins a call. -/
theorem Threads.call {s : CallPump Job} {x : Section Job} {p : Multiset (Section Job)}
    (hi : Threads s p) (howned : s.owned = false) (hx : x.owners = true) (hstops : x.stops = false)
    (hlaunch : ∀ n, x ≠ .launch n) (hworker : x.worker? = none) :
    Threads { s with owned := true } (x ::ₘ p) := by
  have hp : owning p = 0 := by
    rw [hi.owner, howned]
    rfl
  refine ⟨?_, hi.listed, hi.known, hi.past, ?_, hi.empty, ?_, ?_, ?_, hi.halted⟩
  · intro w
    rw [carried_cons_of_none (by simp [hworker])]
    exact hi.alive w
  · rw [owning_cons_pos hx, hp]
    rfl
  · intro n hn
    rcases Multiset.mem_cons.mp hn with heq | hn
    · exact absurd heq.symm (hlaunch n)
    · exact hi.starting n hn
  · intro y hy hyx
    rcases Multiset.mem_cons.mp hy with rfl | hy
    · rw [hstops] at hyx
      cases hyx
    · exact hi.stopping y hy hyx
  · intro rest hrest
    rcases Multiset.mem_cons.mp hrest with rfl | hrest
    · cases hstops
    · exact hi.joining rest hrest

theorem Threads.enter {s : CallPump Job} {p : Multiset (Section Job)} {ev : Entry Job}
    {e : Effect (CallPump Job) (Section Job)} (hi : Threads s p) (h : enter s ev = some e) :
    Threads e.shared (e.made + p) := by
  cases ev with
  | submit job =>
      cases h
      apply hi.same ⟨rfl, rfl, rfl, rfl, rfl, rfl⟩ hi.empty
      · intro w
        exact carried_cons_of_none (f := Section.worker?) (by simp [Section.worker?])
      · exact Multiset.filter_cons_of_neg _ Bool.false_ne_true
  | start n =>
      simp only [Pump.enter] at h
      split_ifs at h with howned
      cases h
      exact hi.call (Bool.eq_false_iff.mpr howned) rfl rfl (by simp) rfl
  | stop =>
      simp only [Pump.enter] at h
      split_ifs at h with howned
      cases h
      exact hi.call (Bool.eq_false_iff.mpr howned) rfl rfl (by simp) rfl

theorem threads_start : Threads ({} : CallPump Job) 0 where
  alive w := by
    rw [if_neg fun h => Nat.not_lt_zero _ h.1]
    rfl
  listed w hw := absurd hw (Nat.not_lt_zero w)
  known w hw := by cases hw
  past w hw := by cases hw
  owner := rfl
  empty _ := rfl
  starting n hn := absurd hn (Multiset.notMem_zero _)
  stopping x hx := absurd hx (Multiset.notMem_zero _)
  joining rest hrest := absurd hrest (Multiset.notMem_zero _)
  halted _ := ⟨rfl, fun w hw => absurd hw (Nat.not_lt_zero w)⟩

theorem threads_of_bag {G : Guard (CallPump Job) (Section Job) Nat (Entry Job)} {s : CallPump Job}
    {p : Multiset (Section Job)} (hbag : Bag pump G {} 0 s p) : Threads s p :=
  Bag.invariant threads_start (fun hi _ h => hi.step (exec_does h)) (fun hi _ h => hi.enter h) hbag

theorem threads_of_run {s : State (CallPump Job) (Section Job)}
    (hrun : Run pump Guard.any initial s) : Threads s.shared s.pending :=
  threads_of_bag hrun.bag

/-! ## After `stop`

With no thread left and none to come, the jobs stay as they are. -/

/-- No `start` gets to `m_stop.store(false)`. -/
def noStart : Guard (CallPump Job) (Section Job) Nat (Entry Job) where
  run _ _ x _ := ∀ n, x ≠ .start n
  enter _ _ _ := True

instance : (noStart : Guard (CallPump Job) (Section Job) Nat (Entry Job)).Decided where
  run _ _ x _ := by
    induction x using Section.casesOn with
    | start n => exact isFalse fun h => h n rfl
    | _ => exact isTrue (by rintro n ⟨⟩)
  enter _ _ _ := isTrue trivial

/-- Nothing has come of the jobs since `s₀`, and the pump has stopped. -/
structure Quiet (s₀ s : CallPump Job) : Prop where
  halted : s.halted = true
  accepted : s.accepted = s₀.accepted
  taken : s.taken = s₀.taken
  started : s.started = s₀.started
  dropped : s.dropped = s₀.dropped

theorem Threads.no_worker {s : CallPump Job} {p : Multiset (Section Job)} (hi : Threads s p)
    (hhalted : s.halted = true) : ∀ x ∈ p, x.worker? = none := by
  intro x hx
  by_contra hne
  obtain ⟨w, hw⟩ := Option.ne_none_iff_exists'.mp hne
  have hpos : 0 < carried Section.worker? w p := carried_pos.mpr ⟨x, hx, hw⟩
  rw [hi.alive w, if_neg] at hpos
  · exact Nat.lt_irrefl 0 hpos
  · rintro ⟨hlt, hnot⟩
    exact hnot ((hi.halted hhalted).2 w hlt)

theorem Quiet.step {s₀ s s' : CallPump Job} {x : Section Job} {made others : Multiset (Section Job)}
    (hq : Quiet s₀ s) (hi : Threads s (x ::ₘ others)) (hx : ∀ n, x ≠ .start n)
    (h : Does s x s' made) : Quiet s₀ s' := by
  have hstop := (hi.halted hq.halted).1
  have hworker := hi.no_worker hq.halted x (Multiset.mem_cons_self _ _)
  cases h with
  | starts => exact absurd rfl (hx _)
  | accepts hgo =>
      rw [hstop] at hgo
      cases hgo
  | drops =>
      refine ⟨hq.halted, hq.accepted, hq.taken, hq.started, ?_⟩
      show s.dropped ++ s.queue = s₀.dropped
      rw [hi.empty hstop, List.append_nil]
      exact hq.dropped
  | returns => exact ⟨rfl, hq.accepted, hq.taken, hq.started, hq.dropped⟩
  | ends _ | sleeps _ _ | takes _ _ | rouses | runs => cases hworker
  | _ => exact ⟨hq.halted, hq.accepted, hq.taken, hq.started, hq.dropped⟩

theorem enter_shared {s : CallPump Job} {ev : Entry Job}
    {e : Effect (CallPump Job) (Section Job)} (h : enter s ev = some e) :
    e.shared = s ∨ e.shared = { s with owned := true } := by
  cases ev with
  | submit job =>
      cases h
      exact Or.inl rfl
  | start _ | stop =>
      simp only [Pump.enter] at h
      split_ifs at h
      cases h
      exact Or.inr rfl

/-- **Quiet until the next start.** Once `stop` has returned, whatever is called except `start`, no
job is accepted, taken, begun or dropped, and no thread of the pump has anything left to run. -/
theorem quiet_until_start {s s' : State (CallPump Job) (Section Job)}
    (hrun : Run pump Guard.any initial s) (hhalted : s.shared.halted = true)
    (hrest : Run pump noStart s s') :
    Quiet s.shared s'.shared ∧ ∀ x ∈ s'.pending, x.worker? = none := by
  have hthreads : ∀ t, Run pump noStart s t → Threads t.shared t.pending := by
    intro t ht
    exact threads_of_run (hrun.trans (fun s m _ => Guard.admits_any s m) ht)
  have hquiet : Quiet s.shared s'.shared := by
    apply Run.invariant_with (J := Threads) (I := fun sh _ => Quiet s.shared sh) hthreads _ _ _ hrest
    · exact ⟨hhalted, rfl, rfl, rfl, rfl⟩
    · intro sh x c e others hi hq hx h
      exact hq.step hi hx (exec_does h)
    · intro sh ev e p _ hq _ h
      rcases enter_shared h with heq | heq
      · rw [heq]
        exact hq
      · rw [heq]
        exact ⟨hq.halted, hq.accepted, hq.taken, hq.started, hq.dropped⟩
  exact ⟨hquiet, (hthreads s' hrest).no_worker hquiet.halted⟩

/-- A pump of one thread runs a job and is stopped. -/
def oneJob : List (Move Nat (Entry Unit)) :=
  [.enter (.start 1), .run 0 0, .run 0 0, .run 0 0, .enter (.submit ()), .run 2 0, .run 1 0, .run 1 0,
    .enter .stop, .run 3 0, .run 3 0, .run 1 0, .run 3 0, .run 3 0]

/-- The job that comes after it is refused. -/
theorem quiet_until_start_late : ∃ s s' : State (CallPump Unit) (Section Unit),
    Run pump Guard.any initial s ∧ Run pump noStart s s' ∧ Quiet s.shared s'.shared ∧
      s'.shared.started = [(0, ())] := by
  have hall : ((pump.replay initial oneJob).bind fun s =>
      (pump.replayUnder noStart s [.enter (.submit ()), .run 4 0]).map fun s' =>
        (s.shared.halted, s'.shared.started)) = some (true, [(0, ())]) := rfl
  obtain ⟨s, hs, hlate⟩ := Option.bind_eq_some_iff.mp hall
  obtain ⟨s', hs', heq⟩ := Option.map_eq_some_iff.mp hlate
  obtain ⟨hhalted, hstarted⟩ := Prod.mk.inj heq
  have hrun : Run pump Guard.any initial s := Run.start.replay hs
  have hrest : Run pump noStart s s' := Run.start.replayUnder hs'
  exact ⟨s, s', hrun, hrest, (quiet_until_start hrun hhalted hrest).1, hstarted⟩

end JsonRpcBridge.Pump
