import JsonRpcBridge.Interleaving.Bag
import JsonRpcBridge.Interleaving.Lift
import JsonRpcBridge.Pump.Model

/-!
# A program whose jobs run on the pump

A program may leave it open when, and whether, a job it hands to another thread runs. `pooled` is
such a program together with a `CallPump`: the job goes into the queue, a thread of the pump takes it
and runs it to its end before it looks at the queue again, `stop` drops what is left there, and from
then on a section that submits is told no.

`pooled_refines`: whatever the pump does, the sections that wait for a thread, in the queue, or among
those dropped are a bag that the program itself reaches. So what the program keeps it keeps on the
pump.
-/

namespace JsonRpcBridge.Pump

open Interleaving

variable {σ α χ ε : Type} {P : Program σ α χ ε}

/-! ## Jobs among the threads

A program that leaves its jobs to other threads starts a thread of one section for each. These
are what the pump is handed instead. -/

/-- The job that a section submits, among the threads it starts. -/
def jobOf (job : α → Bool) : List α → Option α
  | [x] => if job x then some x else none
  | _ => none

def jobsOf (job : α → Bool) (e : Effect σ α) : List α := e.spawn.filterMap (jobOf job)

/-- The threads that are no jobs. -/
def othersOf (job : α → Bool) (e : Effect σ α) : List (List α) :=
  e.spawn.filter fun t => (jobOf job t).isNone

/-- Which sections are jobs, and how a section learns what `submit` returned. One that is told no
starts no job, and no entry point does. -/
structure Posts (P : Program σ α χ ε) where
  job : α → Bool
  told : χ → Bool → χ
  refused : ∀ {sh : σ} {x : α} {c : χ} {e : Effect σ α},
    P.exec sh x (told c false) = some e → jobsOf job e = []
  entered : ∀ {sh : σ} {ev : ε} {e : Effect σ α}, P.enter sh ev = some e → jobsOf job e = []

structure Pooled (σ α : Type) where
  base : σ
  pump : CallPump α := {}

/-- Where a section runs: on a thread of the program's own, or it is the pump's. -/
inductive Place (α : Type) where
  | inner (x : α)
  | pump (x : Section α)

inductive PooledEntry (ε : Type) where
  | inner (ev : ε)
  | start (threads : Nat)
  | stop

def CallPump.submitAll (s : CallPump α) (jobs : List α) : CallPump α :=
  jobs.foldl (fun pump job => (pump.submit job).2) s

namespace Pooled

/-- What a section of the program leaves behind, its jobs submitted. -/
def after (J : Posts P) (s : Pooled σ α) (e : Effect σ α) : Effect (Pooled σ α) (Place α) where
  shared := { base := e.shared, pump := s.pump.submitAll (jobsOf J.job e) }
  next := ((jobsOf J.job e).map fun _ => .pump .notifyOne) ++ e.next.map .inner
  spawn := (othersOf J.job e).map fun t => t.map .inner

/-- A thread of the pump begins a job. -/
def begin (s : Pooled σ α) (ticket : Nat) (job : α) : Pooled σ α :=
  { s with pump := { s.pump with started := s.pump.started ++ [(ticket, job)] } }

/-- One section; the choice is that of the program, and the thread that `notify_one` wakes. -/
def exec (J : Posts P) (s : Pooled σ α) :
    Place α → χ × Nat → Option (Effect (Pooled σ α) (Place α))
  | .inner x, c => (P.exec s.base x (J.told c.1 !s.pump.stop)).map (s.after J)
  | .pump (.run w ticket job), c =>
    (P.exec s.base job (J.told c.1 !s.pump.stop)).map fun e =>
      let ran := (s.begin ticket job).after J e
      { ran with next := ran.next ++ [.pump (.loop w)] }
  -- `submit` is called within a section of the program
  | .pump (.submit _), _ => none
  | .pump x, c =>
    (Pump.exec s.pump x c.2).map fun e => e.lift (fun pump => { s with pump }) .pump

def enter (J : Posts P) (s : Pooled σ α) :
    PooledEntry ε → Option (Effect (Pooled σ α) (Place α))
  | .inner ev => (P.enter s.base ev).map (s.after J)
  | .start n =>
    (Pump.enter s.pump (.start n)).map fun e => e.lift (fun pump => { s with pump }) .pump
  | .stop => (Pump.enter s.pump .stop).map fun e => e.lift (fun pump => { s with pump }) .pump

end Pooled

def pooled (J : Posts P) : Program (Pooled σ α) (Place α) (χ × Nat) (PooledEntry ε) where
  exec := Pooled.exec J
  enter := Pooled.enter J

/-! ## The bag of the program

A job counts as pending for the program wherever it is: in the queue, in the hands of a thread,
or dropped. So each step of the pool is a step of the program, or none. -/

/-- The section of the program that a place holds; for a thread of the pump, the job it has taken.
-/
def Place.section? : Place α → Option α
  | .inner x => some x
  | .pump (.run _ _ job) => some job
  | .pump _ => none

/-- Sections that have a thread, jobs in the queue, and jobs that were dropped. -/
def Pooled.bag (s : Pooled σ α) (p : Multiset (Place α)) : Multiset α :=
  p.filterMap Place.section? + ↑(s.pump.queue.map Prod.snd) + ↑(s.pump.dropped.map Prod.snd)

/-- The guard of the program, asked about what it is told on the pump. -/
def Posts.guard (J : Posts P) (G : Guard σ α χ ε) :
    Guard (Pooled σ α) (Place α) (χ × Nat) (PooledEntry ε) where
  run s p x c := ∀ a, x.section? = some a → G.run s.base (s.bag p) a (J.told c.1 !s.pump.stop)
  enter s p ev := ∀ ev', ev = .inner ev' → G.enter s.base (s.bag p) ev'

instance (J : Posts P) (G : Guard σ α χ ε) [G.Decided] : (J.guard G).Decided where
  run s p x c :=
    match h : x.section? with
    | some a => decidable_of_iff (G.run s.base (s.bag p) a (J.told c.1 !s.pump.stop))
        ⟨fun hok _ ha => Option.some.inj (h.symm.trans ha) ▸ hok, fun hok => hok a h⟩
    | none => isTrue fun _ ha => by cases h.symm.trans ha
  enter s p ev :=
    match ev with
    | .inner ev => decidable_of_iff (G.enter s.base (s.bag p) ev)
        ⟨by rintro hok _ ⟨⟩; exact hok, fun hok => hok ev rfl⟩
    | .start _ | .stop => isTrue (by rintro _ ⟨⟩)

section

variable {J : Posts P} {G : Guard σ α χ ε} {s : Pooled σ α} {others p q : Multiset (Place α)}
  {x : Place α} {a : α} {e : Effect σ α}

@[simp] theorem filterMap_inner (l : List α) :
    Multiset.filterMap Place.section? (↑(l.map Place.inner) : Multiset (Place α)) = ↑l := by
  rw [Multiset.filterMap_coe, List.filterMap_map]
  exact congrArg _ (List.filterMap_some)

theorem filterMap_notifies (jobs : List α) :
    Multiset.filterMap Place.section?
      (Multiset.ofList (jobs.map fun _ => (.pump .notifyOne : Place α))) = 0 := by
  rw [Multiset.filterMap_coe, List.filterMap_map]
  exact congrArg _ (List.filterMap_eq_nil_iff.mpr fun _ _ => rfl)

/-- What a section of the program leaves to be done is its jobs and the rest. -/
theorem made_eq (job : α → Bool) (e : Effect σ α) :
    e.made = ↑e.next + ↑(othersOf job e).flatten + ↑(jobsOf job e) := by
  have hsplit : ∀ spawn : List (List α), (↑spawn.flatten : Multiset α) =
      ↑(spawn.filter fun t => (jobOf job t).isNone).flatten + ↑(spawn.filterMap (jobOf job)) := by
    intro spawn
    induction spawn with
    | nil => rfl
    | cons t spawn ih =>
        rw [List.flatten_cons, ← Multiset.coe_add, ih]
        cases ht : jobOf job t with
        | none =>
            rw [List.filter_cons_of_pos (by rw [ht]; rfl), List.filterMap_cons_none ht,
              List.flatten_cons, ← Multiset.coe_add, add_assoc]
        | some x =>
            have hone : t = [x] := by
              unfold jobOf at ht
              split at ht
              · split at ht
                · cases ht
                  rfl
                · cases ht
              · cases ht
            rw [List.filter_cons_of_neg (by rw [ht]; exact Bool.false_ne_true),
              List.filterMap_cons_some ht, hone, ← Multiset.cons_coe, ← Multiset.singleton_add]
            exact add_left_comm _ _ _
  rw [Effect.made, ← Multiset.coe_add, hsplit, ← add_assoc]
  rfl

theorem submitAll_queue (jobs : List α) (pump : CallPump α) (h : pump.stop = true → jobs = []) :
    (pump.submitAll jobs).queue.map Prod.snd = pump.queue.map Prod.snd ++ jobs ∧
    (pump.submitAll jobs).dropped = pump.dropped := by
  induction jobs generalizing pump with
  | nil => exact ⟨(List.append_nil _).symm, rfl⟩
  | cons job jobs ih =>
      have hgo : pump.stop = false := Bool.eq_false_iff.mpr fun hstop => by cases h hstop
      have hsubmit : (pump.submit job).2 = { pump with
          queue := pump.queue ++ [(pump.accepted.length, job)]
          accepted := pump.accepted ++ [job] } := by
        rw [CallPump.submit, if_neg (by rw [hgo]; exact Bool.false_ne_true)]
      rw [CallPump.submitAll, List.foldl_cons, hsubmit]
      obtain ⟨hqueue, hdropped⟩ := ih { pump with
          queue := pump.queue ++ [(pump.accepted.length, job)]
          accepted := pump.accepted ++ [job] } fun hstop => by rw [hgo] at hstop; cases hstop
      refine ⟨hqueue.trans ?_, hdropped⟩
      rw [List.map_append, List.append_assoc]
      rfl

theorem bag_cons_none (h : x.section? = none) : s.bag (x ::ₘ p) = s.bag p := by
  rw [Pooled.bag, Multiset.filterMap_cons_none x p h, Pooled.bag]

theorem bag_cons_some (h : x.section? = some a) : s.bag (x ::ₘ p) = a ::ₘ s.bag p := by
  rw [Pooled.bag, Multiset.filterMap_cons_some _ x p h, Pooled.bag, Multiset.cons_add,
    Multiset.cons_add]

theorem bag_add : s.bag (q + p) = q.filterMap Place.section? + s.bag p := by
  rw [Pooled.bag, Multiset.filterMap_add, Pooled.bag]
  ac_rfl

/-- Submitted, dropped or not, every section is still there. -/
theorem bag_after (s : Pooled σ α) (others : Multiset (Place α))
    (h : s.pump.stop = true → jobsOf J.job e = []) :
    (s.after J e).shared.bag ((s.after J e).made + others) = e.made + s.bag others := by
  obtain ⟨hqueue, hdropped⟩ := submitAll_queue (jobsOf J.job e) s.pump h
  have hmade : (s.after J e).made.filterMap Place.section? =
      ↑e.next + ↑(othersOf J.job e).flatten := by
    rw [Effect.made, ← Multiset.coe_add, Pooled.after, ← Multiset.coe_add, Multiset.filterMap_add,
      Multiset.filterMap_add, filterMap_notifies, zero_add, filterMap_inner, ← List.map_flatten,
      filterMap_inner]
  rw [bag_add, hmade, made_eq J.job e, Pooled.bag, Pooled.bag, Pooled.after, hqueue, hdropped,
    ← Multiset.coe_add]
  ac_rfl

/-- What the pump does by itself moves jobs, and no more. -/
theorem bag_pump {x : Section α} {c : Nat} {e : Effect (CallPump α) (Section α)}
    (hx : ∀ job, x ≠ .submit job) (hrun : ∀ w ticket job, x ≠ .run w ticket job)
    (h : Pump.exec s.pump x c = some e) :
    ({ s with pump := e.shared } : Pooled σ α).bag
      ((e.lift (fun pump => { s with pump }) Place.pump).made + others) =
      s.bag (.pump x ::ₘ others) := by
  have hnone : (Place.pump x).section? = none := by
    cases x with
    | run w ticket job => exact absurd rfl (hrun w ticket job)
    | _ => rfl
  rw [bag_cons_none hnone, Effect.made_lift, Pooled.bag, Multiset.filterMap_add, Pooled.bag]
  have hdoes := exec_does h
  generalize e.shared = pump at hdoes ⊢
  generalize e.made = made at hdoes ⊢
  cases hdoes with
  | accepts _ | refuses _ => exact absurd rfl (hx _)
  | runs => exact absurd rfl (hrun _ _ _)
  | drops =>
      show _ + (0 : Multiset α) + (↑(List.map Prod.snd (s.pump.dropped ++ s.pump.queue)) :
        Multiset α) = _
      rw [List.map_append, ← Multiset.coe_add, add_zero]
      show 0 + _ + _ = _
      ac_rfl
  | @takes w ticket job rest hgo hqueue =>
      rw [hqueue]
      show ({job} + _) + (↑(rest.map Prod.snd) : Multiset α) + _ =
        _ + (↑(job :: rest.map Prod.snd) : Multiset α) + _
      rw [← Multiset.cons_coe, ← Multiset.singleton_add]
      ac_rfl
  | wakes _ | rouses =>
      rw [Multiset.filterMap_map]
      exact congrArg (· + _ + _) (zero_add _)
  | _ => exact congrArg (· + _ + _) (zero_add _)

theorem exec_pump {x : Section α} (c : χ × Nat) (hx : ∀ job, x ≠ .submit job)
    (hrun : ∀ w ticket job, x ≠ .run w ticket job) :
    Pooled.exec J s (.pump x) c =
      (Pump.exec s.pump x c.2).map fun e => e.lift (fun pump => { s with pump }) .pump := by
  cases x with
  | submit job => exact absurd rfl (hx job)
  | run w ticket job => exact absurd rfl (hrun w ticket job)
  | _ => rfl

/-- The thread looks at the queue again when the job and what it left there are done. -/
theorem made_loop (r : Effect (Pooled σ α) (Place α)) (w : Nat) :
    ({ r with next := r.next ++ [.pump (.loop w)] } : Effect _ _).made =
      .pump (.loop w) ::ₘ r.made := by
  rw [Effect.made, Effect.made, List.append_assoc, Multiset.cons_coe]
  exact Multiset.coe_eq_coe.mpr List.perm_middle

/-- **Step.** -/
theorem bag_exec {c : χ × Nat} {e : Effect (Pooled σ α) (Place α)} {sh₀ : σ} {p₀ : Multiset α}
    (hi : Bag P G sh₀ p₀ s.base (s.bag (x ::ₘ others))) (hok : (J.guard G).run s (x ::ₘ others) x c)
    (h : Pooled.exec J s x c = some e) :
    Bag P G sh₀ p₀ e.shared.base (e.shared.bag (e.made + others)) := by
  have hjobs : ∀ {y : α} {f : Effect σ α}, P.exec s.base y (J.told c.1 !s.pump.stop) = some f →
      s.pump.stop = true → jobsOf J.job f = [] := by
    intro y f hf hstop
    rw [hstop] at hf
    exact J.refused hf
  cases x with
  | inner y =>
      obtain ⟨f, hf, rfl⟩ := Option.map_eq_some_iff.mp h
      have hy := hok y rfl
      rw [bag_cons_some (x := .inner y) rfl] at hi hy
      rw [bag_after s others (hjobs hf)]
      exact hi.run hy hf
  | pump y =>
      by_cases hrun : ∃ w ticket job, y = .run w ticket job
      · obtain ⟨w, ticket, job, rfl⟩ := hrun
        obtain ⟨f, hf, rfl⟩ := Option.map_eq_some_iff.mp h
        have hjob := hok job rfl
        rw [bag_cons_some (x := .pump (.run w ticket job)) rfl] at hi hjob
        have hafter := bag_after (s.begin ticket job) others (hjobs hf)
        rw [made_loop, Multiset.cons_add, bag_cons_none (x := .pump (.loop w)) rfl, hafter]
        exact hi.run hjob hf
      have hsubmit : ∀ job, y ≠ .submit job := by
        rintro job rfl
        cases h
      have hother : ∀ w ticket job, y ≠ .run w ticket job :=
        fun w ticket job heq => hrun ⟨w, ticket, job, heq⟩
      rw [exec_pump c hsubmit hother] at h
      obtain ⟨f, hf, rfl⟩ := Option.map_eq_some_iff.mp h
      rw [Effect.shared_lift, bag_pump hsubmit hother hf]
      exact hi

theorem bag_enter {ev : PooledEntry ε} {e : Effect (Pooled σ α) (Place α)} {sh₀ : σ}
    {p₀ : Multiset α} (hi : Bag P G sh₀ p₀ s.base (s.bag p)) (hok : (J.guard G).enter s p ev)
    (h : Pooled.enter J s ev = some e) :
    Bag P G sh₀ p₀ e.shared.base (e.shared.bag (e.made + p)) := by
  cases ev with
  | inner ev =>
      obtain ⟨f, hf, rfl⟩ := Option.map_eq_some_iff.mp h
      rw [bag_after s p fun _ => J.entered hf]
      exact hi.enter (hok ev rfl) hf
  | start n | stop =>
      obtain ⟨f, hf, rfl⟩ := Option.map_eq_some_iff.mp h
      simp only [Pump.enter] at hf
      split_ifs at hf
      cases hf
      show Bag P G sh₀ p₀ s.base (Pooled.bag _ ({_} + p))
      rw [Multiset.singleton_add, bag_cons_none rfl]
      exact hi

/-! ### Only jobs on the pump -/

/-- Only jobs are in the queue, or dropped from it. -/
def CallPump.OnlyJobs (job : α → Bool) (s : CallPump α) : Prop :=
  (∀ x ∈ s.queue, job x.2 = true) ∧ ∀ x ∈ s.dropped, job x.2 = true

theorem job_of_mem_jobsOf {job : α → Bool} (h : a ∈ jobsOf job e) : job a = true := by
  obtain ⟨t, -, ht⟩ := List.mem_filterMap.mp h
  unfold jobOf at ht
  split at ht
  · split at ht
    · rename_i hjob
      cases ht
      exact hjob
    · cases ht
  · cases ht

theorem CallPump.OnlyJobs.submit {job : α → Bool} {pump : CallPump α} (hi : pump.OnlyJobs job)
    (ha : job a = true) : (pump.submit a).2.OnlyJobs job := by
  unfold CallPump.submit
  split
  · exact hi
  · refine ⟨fun x hx => ?_, hi.2⟩
    rcases List.mem_append.mp hx with hx | hx
    · exact hi.1 x hx
    · rw [List.mem_singleton.mp hx]
      exact ha

theorem CallPump.OnlyJobs.submitAll {job : α → Bool} {jobs : List α}
    (hjobs : ∀ a ∈ jobs, job a = true) {pump : CallPump α} (hi : pump.OnlyJobs job) :
    (pump.submitAll jobs).OnlyJobs job := by
  induction jobs generalizing pump with
  | nil => exact hi
  | cons a jobs ih =>
      apply ih fun b hb => hjobs b (List.mem_cons_of_mem _ hb)
      exact hi.submit (hjobs a List.mem_cons_self)

theorem onlyJobs_exec {c : χ × Nat} {e : Effect (Pooled σ α) (Place α)}
    (hi : s.pump.OnlyJobs J.job) (h : Pooled.exec J s x c = some e) :
    e.shared.pump.OnlyJobs J.job := by
  cases x with
  | inner y =>
      obtain ⟨f, hf, rfl⟩ := Option.map_eq_some_iff.mp h
      exact hi.submitAll fun _ => job_of_mem_jobsOf
  | pump y =>
      by_cases hrun : ∃ w ticket job, y = .run w ticket job
      · obtain ⟨w, ticket, job, rfl⟩ := hrun
        obtain ⟨f, hf, rfl⟩ := Option.map_eq_some_iff.mp h
        have hbegin : (s.begin ticket job).pump.OnlyJobs J.job := hi
        exact hbegin.submitAll fun _ => job_of_mem_jobsOf
      have hsubmit : ∀ job, y ≠ .submit job := by
        rintro job rfl
        cases h
      rw [exec_pump c hsubmit fun w ticket job heq => hrun ⟨w, ticket, job, heq⟩] at h
      obtain ⟨f, hf, rfl⟩ := Option.map_eq_some_iff.mp h
      have hdoes := exec_does hf
      rw [Effect.shared_lift]
      generalize f.shared = pump at hdoes ⊢
      generalize f.made = made at hdoes
      cases hdoes with
      | accepts _ => exact absurd rfl (hsubmit _)
      | drops =>
          refine ⟨fun x hx => absurd hx List.not_mem_nil, fun x hx => ?_⟩
          rcases List.mem_append.mp hx with hx | hx
          · exact hi.2 x hx
          · exact hi.1 x hx
      | takes _ hqueue =>
          refine ⟨fun x hx => hi.1 x ?_, hi.2⟩
          rw [hqueue]
          exact List.mem_cons_of_mem _ hx
      | _ => exact hi

theorem onlyJobs_enter {ev : PooledEntry ε} {e : Effect (Pooled σ α) (Place α)}
    (hi : s.pump.OnlyJobs J.job) (h : Pooled.enter J s ev = some e) :
    e.shared.pump.OnlyJobs J.job := by
  cases ev with
  | inner ev =>
      obtain ⟨f, hf, rfl⟩ := Option.map_eq_some_iff.mp h
      exact hi.submitAll fun _ => job_of_mem_jobsOf
  | start n | stop =>
      obtain ⟨f, hf, rfl⟩ := Option.map_eq_some_iff.mp h
      simp only [Pump.enter] at hf
      split_ifs at hf
      cases hf
      exact hi

end

theorem onlyJobs_of_run {J : Posts P} {G : Guard (Pooled σ α) (Place α) (χ × Nat) (PooledEntry ε)}
    {sh₀ : σ} {s : State (Pooled σ α) (Place α)}
    (hrun : Run (pooled J) G { shared := { base := sh₀ } } s) : s.shared.pump.OnlyJobs J.job :=
  Run.invariant (I := fun s _ => s.pump.OnlyJobs J.job)
    ⟨fun _ hx => absurd hx List.not_mem_nil, fun _ hx => absurd hx List.not_mem_nil⟩
    (fun hi _ h => onlyJobs_exec hi h) (fun hi _ h => onlyJobs_enter hi h) hrun

/-- **The pump refines what the program leaves open.** -/
theorem pooled_refines {J : Posts P} {G : Guard σ α χ ε} {sh₀ : σ}
    {s : State (Pooled σ α) (Place α)}
    (hrun : Run (pooled J) (J.guard G) { shared := { base := sh₀ } } s) :
    Bag P G sh₀ 0 s.shared.base (s.shared.bag s.pending) :=
  Run.invariant (I := fun s p => Bag P G sh₀ 0 s.base (s.bag p)) .start
    (fun hi hok h => bag_exec hi hok h) (fun hi hok h => bag_enter hi hok h) hrun

end JsonRpcBridge.Pump
