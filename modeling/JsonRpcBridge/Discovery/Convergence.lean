import JsonRpcBridge.Discovery.Flights
import JsonRpcBridge.Discovery.Offline

/-!
# Discovery converges

However losses, restarts, client replacements, timers and revalidation rounds come between the calls,
and however many of the calls fail: once discovery has nothing left to do for a module, its view is
the one that `reading` gives, three calls one after the other with nothing in between.

* `Told`: what a section carries, and what was published, are answers that the modules gave.
* `Slot.Weak`: a view that was published while the text could not be read is never the last word; an
  attempt or a retry of the module is under way.
* `view_of_reading`: where neither is, the view is that of one undisturbed reading.
-/

namespace JsonRpcBridge.Discovery

open Interleaving

/-! ## One reading

`reading` is the module's discovery with nothing in between, put together from the functions of
the model alone. It knows neither attempts nor resets. -/

section

variable (lib : Nlohmann) (reader : ContractReader)

/-- What discovery makes of a module that answers these calls, one after the other; `none` when it
has to try again. -/
def reading (m : Bytes) (report text version : CallOutcome) : Option ModuleView :=
  match if report.ok then parseLiveReport lib report.value else none with
  | none => none
  | some live =>
    if !lidlPresent live then some (untypedView (pendingView m) live)
    else
      let t := lidlText text.ok text.value
      let contract := reader.readContract t.text m
      if t.retryable then none
      else if !t.ok then some (invalidView (pendingView m) live t.error)
      else if !contract.ok then
        some { invalidView (pendingView m) live (contractErrorText contract reader.lidlReaderRev) with
          contractSha256 := sha256Hex t.text }
      else
        match typedContract lib contract with
        | none =>
          some { invalidView (pendingView m) live (str "the contract could not be served") with
            contractSha256 := sha256Hex t.text }
        | some typed =>
          some (checkedView (pendingView m) live typed (runtimeVersion version.ok version.value)
            (sha256Hex t.text))

end

/-! ## Answers that the modules gave

Calls may fail as they like. A call that does not fail gives what the module answers, so the
answers that an attempt holds are the ones `reading` is given. -/

/-- A call of a module fails, or gives the answer of the module. -/
def Call.Told (reply : Bytes → Bytes → CallOutcome) (c : Call) (r : CallOutcome) : Prop :=
  r.ok = true → r = reply c.module c.method

def Answer.Told (reply : Bytes → Bytes → CallOutcome) (a : Answer) : Prop :=
  a.call.Told reply a.outcome

/-- Every call fails, or gives the answer of its module, which does not change. -/
def truthful (reply : Bytes → Bytes → CallOutcome) : Guard Shared Section CallOutcome Entry where
  run _ _ x r :=
    match x with
    | .await c _ | .awaitRead c => c.Told reply r
    | _ => True
  enter _ _ _ := True

instance {reply : Bytes → Bytes → CallOutcome} [h : ∀ c r, Decidable (Call.Told reply c r)] :
    (truthful reply).Decided where
  run _ _ x r := by
    induction x using Section.casesOn with
    | await c _ | awaitRead c => exact h c r
    | _ => exact isTrue trivial
  enter _ _ _ := isTrue trivial

/-- The answers that a section carries. -/
def Section.answers : Section → List Answer
  | .invoke _ _ stage | .await _ stage => stage.answers
  | .resume a stage | .proceed _ _ stage a => a :: stage.answers
  | .publish _ _ _ _ src => src.answers
  | .revalidated a | .restart a => [a]
  | _ => []

/-- What is carried and what was published are answers of the modules. -/
structure Told (reply : Bytes → Bytes → CallOutcome) (sh : Shared) (p : Multiset Section) : Prop where
  carried : ∀ x ∈ p, ∀ a ∈ x.answers, a.Told reply
  published : ∀ q ∈ sh.published, ∀ a ∈ q.sources.answers, a.Told reply

section

variable {cfg : BridgeConfig} {lib : Nlohmann} {reader : ContractReader}
  {reply : Bytes → Bytes → CallOutcome} {sh : Shared} {x y : Section} {r : CallOutcome}
  {e : Effect Shared Section} {p others : Multiset Section} {m : Bytes}

/-! ### Step by step

An answer enters with the call that it answers and is handed on to the view. Sections without a
load carry none. -/

theorem answers_of_load_none (h : x.load? = none) : x.answers = [] := by
  cases x <;> first | rfl | cases h

/-- A continuation hands on the answers it was given. -/
theorem answers_of_mem_proceed {k : Bytes} {n : Nat} {stage : Stage} {a b : Answer}
    (hy : y ∈ proceed lib reader sh k n stage a) (hb : b ∈ y.answers) : b ∈ a :: stage.answers := by
  cases stage with
  | interface =>
      simp only [proceed, onInterface] at hy
      split at hy
      · rw [List.mem_singleton.mp hy] at hb
        cases hb
      · split at hy
        · rw [List.mem_singleton.mp hy] at hb
          exact hb
        · rw [List.mem_singleton.mp hy] at hb
          exact hb
  | contract live report =>
      have hboth : b ∈ [report, a] → b ∈ [a, report] := fun h => by
        simpa [or_comm] using h
      simp only [proceed, onContract] at hy
      split at hy
      · rw [List.mem_singleton.mp hy] at hb
        exact hboth hb
      · split at hy
        · rw [List.mem_singleton.mp hy] at hb
          exact hboth hb
        · split at hy
          · rw [List.mem_singleton.mp hy] at hb
            exact hboth hb
          · rw [List.mem_singleton.mp hy] at hb
            exact hboth hb
  | version live typed sha report text =>
      rw [List.mem_singleton.mp hy] at hb
      have hb : b ∈ [report, text, a] := hb
      show b ∈ [a, report, text]
      simp only [List.mem_cons, List.not_mem_nil, or_false] at hb ⊢
      rcases hb with hb | hb | hb
      · exact .inr (.inl hb)
      · exact .inr (.inr hb)
      · exact .inl hb

/-- **Step.** A section leaves the answers it carries, and the one it was given. -/
theorem told_made (hcarried : ∀ a ∈ x.answers, a.Told reply)
    (hok : (truthful reply).run sh others x r) (h : exec cfg lib reader sh x r = some e) :
    ∀ y ∈ e.made, ∀ a ∈ y.answers, a.Told reply := by
  intro y hy a ha
  cases exec_leaves h hy with
  | idle hnone =>
      rw [answers_of_load_none hnone] at ha
      cases ha
  | begins _ => cases ha
  | issues => exact hcarried a ha
  | answers =>
      rcases List.mem_cons.mp ha with rfl | ha
      · exact hok
      · exact hcarried a ha
  | resumes => exact hcarried a ha
  | proceeds hmem => exact hcarried a (answers_of_mem_proceed hmem ha)
  | checks _ => cases ha
  | reads => cases ha
  | rereads =>
      rw [List.mem_singleton.mp ha]
      exact hok
  | differs => exact hcarried a ha
  | restarts _ _ _ _ _ => exact hcarried a ha

/-- What is published was carried. -/
theorem told_published (hcarried : ∀ a ∈ x.answers, a.Told reply)
    (hold : ∀ q ∈ sh.published, ∀ a ∈ q.sources.answers, a.Told reply)
    (h : exec cfg lib reader sh x r = some e) :
    ∀ q ∈ e.shared.published, ∀ a ∈ q.sources.answers, a.Told reply := by
  by_cases hpub : ∃ m n next retry src, x = .publish m n next retry src
  · obtain ⟨m, n, next, retry, src, rfl⟩ := hpub
    simp only [exec] at h
    split at h
    · cases h
      exact hold
    · split at h <;> cases h
      · intro q hq
        rcases List.mem_append.mp hq with hq | hq
        · exact hold q hq
        · rw [List.mem_singleton.mp hq]
          exact hcarried
      · exact hold
  · rw [exec_published_of_ne (fun m n next retry src hx => hpub ⟨m, n, next, retry, src, hx⟩) h]
    exact hold

theorem told_of_run {s : State Shared Section}
    (hrun : Run (discovery cfg lib reader) (truthful reply) (start cfg) s) :
    Told reply s.shared s.pending := by
  refine Run.invariant (I := fun sh p => Told reply sh p) ⟨?_, ?_⟩ ?_ ?_ hrun
  · intro x hx
    obtain ⟨em, -, rfl⟩ : ∃ em ∈ cfg.modules, x = .refresh em.name := by
      simpa [start, State.pending, eq_comm] using hx
    exact fun a ha => absurd ha List.not_mem_nil
  · intro q hq
    simp [start] at hq
  · intro sh x r e others hI hok hexec
    have hx := hI.carried x (Multiset.mem_cons_self x others)
    exact ⟨Effect.forall_made (told_made hx hok hexec)
      fun y hy => hI.carried y (Multiset.mem_cons_of_mem hy), told_published hx hI.published hexec⟩
  · intro sh ev e p hI _ henter
    refine ⟨Effect.forall_made (fun y hy a ha => ?_) hI.carried, ?_⟩
    · rw [answers_of_load_none (enter_load henter hy)] at ha
      cases ha
    · rw [enter_published henter]
      exact hI.published

end

/-! ## Views that are not the last word

A contract that could not be fetched is published as an invalid view, and the attempt asks for a
retry. Such a view does not last: a retry is armed with it, or whatever disarmed the retry has
begun an attempt. -/

/-- The call of `lidl` failed. -/
def Sources.weak (src : Sources) : Bool := src.text.any fun a => a.lidl.retryable

/-- `publish` is asked to retry exactly when the text could not be had. -/
def Section.Candid : Section → Prop
  | .publish _ _ _ retry src => retry = src.weak
  | _ => True

/-- After a view that is weak there is an attempt or a retry. -/
def Slot.Backed (ps : List Publication) (s : Slot) : Prop :=
  ∀ q, ps.getLast? = some q → q.sources.weak = true → s.inFlight = true ∨ s.retryArmed = true

section

variable {cfg : BridgeConfig} {lib : Nlohmann} {reader : ContractReader} {sh : Shared}
  {x y : Section} {r : CallOutcome} {e : Effect Shared Section} {others : Multiset Section}
  {m : Bytes} {s s' : Slot} {ds : List Nat}

/-! ### Candour

A retry is asked for where the text is missing and might still come, and nowhere else. -/

theorem retryable_of_ok {a : Answer} (hok : a.lidl.ok = true) : a.lidl.retryable = false := by
  unfold Answer.lidl lidlText at *
  split at hok
  · cases hok
  · rename_i hcall
    rw [if_neg hcall]
    split at hok
    · split_ifs at hok ⊢
      · rfl
    · cases hok

theorem candid_of_load_none (h : x.load? = none) : x.Candid := by
  cases x <;> trivial

theorem candid_of_mem_proceed {k : Bytes} {n : Nat} {stage : Stage} {a : Answer}
    (hstage : stage.Sound lib reader k n) (hy : y ∈ proceed lib reader sh k n stage a) : y.Candid := by
  cases stage with
  | interface =>
      simp only [proceed, onInterface] at hy
      split at hy
      · rw [List.mem_singleton.mp hy]
        trivial
      · split at hy
        · rw [List.mem_singleton.mp hy]
          rfl
        · rw [List.mem_singleton.mp hy]
          trivial
  | contract live report =>
      simp only [proceed, onContract] at hy
      split at hy
      · rw [List.mem_singleton.mp hy]
        exact (Option.any_some (p := fun b : Answer => b.lidl.retryable)).symm
      · rename_i hok
        have hfirm : a.lidl.retryable = false := retryable_of_ok (by simpa [Answer.lidl] using hok)
        split at hy
        · rw [List.mem_singleton.mp hy]
          exact hfirm.symm
        · split at hy
          · rw [List.mem_singleton.mp hy]
            exact hfirm.symm
          · rw [List.mem_singleton.mp hy]
            trivial
  | version live typed sha report text =>
      rw [List.mem_singleton.mp hy]
      obtain ⟨-, -, -, -, hcontract⟩ := hstage
      exact (retryable_of_ok hcontract.1).symm

theorem candid_made (hsound : x.Sound lib reader) (h : exec cfg lib reader sh x r = some e) :
    ∀ y ∈ e.made, y.Candid := by
  intro y hy
  cases exec_leaves h hy with
  | idle hnone => exact candid_of_load_none hnone
  | proceeds hmem => exact candid_of_mem_proceed hsound.2 hmem
  | _ => trivial

/-! ### A retry behind every weak view

A slot with a weak view has an attempt or a retry. Whatever takes the retry away starts an
attempt. -/

/-- A section publishes a view of `m` if it acts on the slot of `m` as `publish`, and not otherwise.
-/
theorem publishedOf_exec (h : exec cfg lib reader sh x r = some e) (hs : sh.slots m = some s) :
    (∃ next retry src q, x = .publish m s.attempt next retry src ∧ q.sources = src ∧
      e.shared.publishedOf m = sh.publishedOf m ++ [q]) ∨
    (∀ next retry src, x ≠ .publish m s.attempt next retry src) ∧
      e.shared.publishedOf m = sh.publishedOf m := by
  by_cases hpub : ∃ k n next retry src, x = .publish k n next retry src
  · obtain ⟨k, n, next, retry, src, rfl⟩ := hpub
    simp only [exec] at h
    split at h
    · rename_i hnone
      cases h
      refine .inr ⟨fun _ _ _ heq => ?_, rfl⟩
      cases heq
      cases hnone.symm.trans hs
    · rename_i t ht
      split at h <;> cases h
      · rename_i hattempt
        rw [publishedOf_append]
        by_cases hk : m = k
        · subst hk
          obtain rfl : s = t := Option.some.inj (hs.symm.trans ht)
          rw [if_pos rfl, ← hattempt]
          exact .inl ⟨next, retry, src, _, rfl, rfl, rfl⟩
        · rw [if_neg hk]
          exact .inr ⟨fun _ _ _ heq => hk (Section.publish.inj heq).1.symm, rfl⟩
      · rename_i hattempt
        refine .inr ⟨fun _ _ _ heq => ?_, rfl⟩
        cases heq
        obtain rfl : s = t := Option.some.inj (hs.symm.trans ht)
        exact hattempt rfl
  · right
    refine ⟨fun next retry src hx => hpub ⟨m, s.attempt, next, retry, src, hx⟩, ?_⟩
    unfold Shared.publishedOf
    rw [exec_published_of_ne (fun k n next retry src hx => hpub ⟨k, n, next, retry, src, hx⟩) h]

/-- **Step.** -/
theorem Slot.Backed.step (hI : s.Backed (sh.publishedOf m)) (hcandid : x.Candid)
    (h : exec cfg lib reader sh x r = some e) (hs : sh.slots m = some s)
    (hstep : s.Step cfg m x s' ds) : s'.Backed (e.shared.publishedOf m) := by
  rcases publishedOf_exec h hs with ⟨next, retry, src, q, rfl, hsources, hpublished⟩ | ⟨hother, hsame⟩
  · rw [hpublished]
    intro q' hlast hweak
    rw [List.getLast?_concat] at hlast
    cases hlast
    rw [hsources, ← hcandid] at hweak
    cases hstep with
    | publish => exact .inr hweak
    | rest hrest => exact absurd ⟨rfl, rfl⟩ hrest
  · rw [hsame]
    intro q hlast hweak
    cases hstep with
    | refresh | restart _ _ _ _ => exact .inl rfl
    | lost | armed _ | replaced | unavailable _ _ | missed => exact .inr rfl
    | saw _ _ | check _ | uncheck _ | rest _ => exact hI q hlast hweak
    | publish => exact absurd rfl (hother _ _ _)

theorem backed_of_run {t : State Shared Section} {G : Guard Shared Section CallOutcome Entry}
    (hrun : Run (discovery cfg lib reader) G (start cfg) t) (hs : t.shared.slots m = some s) :
    s.Backed (t.shared.publishedOf m) := by
  have hall : (∀ x ∈ t.pending, x.Sound lib reader ∧ x.Candid) ∧
      ∀ s, t.shared.slots m = some s → s.Backed (t.shared.publishedOf m) := by
    refine Run.invariant (I := fun sh p => (∀ x ∈ p, x.Sound lib reader ∧ x.Candid) ∧
      ∀ s, sh.slots m = some s → s.Backed (sh.publishedOf m)) ⟨?_, ?_⟩ ?_ ?_ hrun
    · intro x hx
      obtain ⟨em, -, rfl⟩ : ∃ em ∈ cfg.modules, x = .refresh em.name := by
        simpa [start, State.pending, eq_comm] using hx
      exact ⟨trivial, trivial⟩
    · intro s _ q hq
      have hnone : (start cfg).shared.publishedOf m = [] := by simp [start, Shared.publishedOf]
      rw [hnone] at hq
      cases hq
    · rintro sh x r e others ⟨hpending, hI⟩ _ hexec
      obtain ⟨hsound, hcandid⟩ := hpending x (Multiset.mem_cons_self x others)
      refine ⟨Effect.forall_made (fun y hy => ?_) fun y hy => hpending y (Multiset.mem_cons_of_mem hy),
        fun s' hs' => ?_⟩
      · exact ⟨exec_sound hsound hexec y hy, candid_made hsound hexec y hy⟩
      · obtain ⟨s, hs, hstep⟩ := exec_stepped hexec hs'
        exact (hI s hs).step hcandid hexec hs hstep
    · rintro sh ev e p ⟨hpending, hI⟩ _ henter
      refine ⟨Effect.forall_made (fun y hy => ?_) hpending, fun s hs => ?_⟩
      · exact ⟨Section.sound_of_load_none (enter_load henter hy),
          candid_of_load_none (enter_load henter hy)⟩
      · rw [enter_slots henter] at hs
        have hsame : e.shared.publishedOf m = sh.publishedOf m :=
          congrArg (List.filter _) (enter_published henter)
        rw [hsame]
        exact hI s hs
  exact hall.2 s hs

end

/-! ## The view in the end

With nothing left to do the slot is settled, so its view was published; the publication is not
weak; and its sources are answers of the module. That is `reading` on these answers. -/

/-- Discovery has nothing left to do for the module: no attempt of it is under way, no refresh is
queued, and no timer is armed or about to be. -/
def Idle (sh : Shared) (p : Multiset Section) (m : Bytes) : Prop :=
  (∀ n, ¬Chain p m n) ∧ ¬Trigger sh p m

section

variable {cfg : BridgeConfig} {lib : Nlohmann} {reader : ContractReader}
  {reply : Bytes → Bytes → CallOutcome} {m : Bytes}

/-! ### From sources to one reading

The sources of a view say which call gave which answer. With the answers told truly, `reading`
computes the view from them. -/

/-- `next` is the view `v` under another number. -/
def Renumbered (v next : ModuleView) : Prop := ∃ generation, next = { v with generation }

/-- The view before an attempt gives the one after it its number, and nothing else. -/
theorem renumbered_checkedView {prev : ModuleView} (hprev : prev.module = m) (live : LiveReport)
    (typed : TypedContract) (runtime : Option Bytes) (sha : Bytes) :
    Renumbered (checkedView (pendingView m) live typed runtime sha)
      (checkedView prev live typed runtime sha) := by
  subst hprev
  refine ⟨prev.generation + 1, ?_⟩
  unfold checkedView
  dsimp only
  split <;> rfl

/-- Told answers to the calls of one attempt that did not fail are those of the module. -/
theorem reply_of_steps {a : Answer} {method : Bytes} {n : Nat} (htold : a.Told reply)
    (hcall : a.call.Steps m n method) (hok : a.outcome.ok = true) : a.outcome = reply m method := by
  rw [← hcall.module, ← hcall.method]
  exact htold hok

theorem reply_of_opens {a : Answer} {n : Nat} (htold : a.Told reply) (hcall : a.call.Opens m n)
    (hok : a.outcome.ok = true) : a.outcome = reply m (str "getPluginInterface") := by
  rcases hcall with hsteps | ⟨k, -, hreads⟩
  · exact reply_of_steps htold hsteps hok
  · rw [← hreads.module, ← hreads.method]
    exact htold hok

/-- A report that was read is the one the module gives. -/
theorem report_of_reports {a : Answer} {n : Nat} {live : LiveReport} (htold : a.Told reply)
    (hcall : a.call.Opens m n) (hreport : Reports lib a live) :
    (if (reply m (str "getPluginInterface")).ok then
      parseLiveReport lib (reply m (str "getPluginInterface")).value else none) = some live := by
  rw [← reply_of_opens htold hcall hreport.1, if_pos hreport.1]
  exact hreport.2

/-- A text that was read, or that will not be asked for again, is the one the module gives. -/
theorem lidl_of_firm {a : Answer} {n : Nat} (htold : a.Told reply)
    (hcall : a.call.Steps m n (str "lidl")) (hfirm : a.lidl.retryable = false) :
    lidlText (reply m (str "lidl")).ok (reply m (str "lidl")).value = a.lidl := by
  have hok : a.outcome.ok = true := by
    by_contra hfailed
    unfold Answer.lidl lidlText at hfirm
    rw [if_pos (by simpa using hfailed)] at hfirm
    cases hfirm
  rw [← reply_of_steps htold hcall hok]
  rfl

variable (reply) in
/-- A view that is built from answers of the module is that of one reading. -/
theorem reading_of_builtFrom {src : Sources} {next : ModuleView} {n : Nat}
    (hbuilt : BuiltFrom lib reader m src next) (hmodule : next.module = m) (hof : src.Of m n)
    (htold : ∀ a ∈ src.answers, a.Told reply) (hfirm : src.weak = false) :
    ∃ version v, (version.ok = true → version = reply m (str "version")) ∧
      reading lib reader m (reply m (str "getPluginInterface")) (reply m (str "lidl")) version = some v ∧
      Renumbered v next := by
  have hreport {live : LiveReport} (h : Reports lib src.report live) :=
    report_of_reports (htold src.report List.mem_cons_self) hof.report h
  have htext {a : Answer} (ha : src.text = some a) : a.lidl.retryable = false ∧
      lidlText (reply m (str "lidl")).ok (reply m (str "lidl")).value = a.lidl := by
    have hretry : a.lidl.retryable = false := by
      rw [Sources.weak, ha] at hfirm
      exact hfirm
    have hmem : a ∈ src.answers := by simp [Sources.answers, ha]
    exact ⟨hretry, lidl_of_firm (htold a hmem) (hof.text a ha) hretry⟩
  -- one case for each way the three calls can end
  cases hbuilt with
  | @untyped report live prev hlive hlidl =>
      obtain rfl : prev.module = m := hmodule
      refine ⟨reply prev.module (str "version"), untypedView (pendingView prev.module) live,
        fun _ => rfl, ?_, prev.generation + 1, rfl⟩
      rw [reading, hreport hlive]
      exact if_pos (by rw [hlidl]; rfl)
  | @unread report text live prev hlive hlidl hunread =>
      obtain rfl : prev.module = m := hmodule
      obtain ⟨hretry, hsame⟩ := htext rfl
      refine ⟨reply prev.module (str "version"),
        invalidView (pendingView prev.module) live text.lidl.error, fun _ => rfl, ?_,
        prev.generation + 1, rfl⟩
      rw [reading, hreport hlive]
      dsimp only
      rw [hsame, hlidl, hretry, hunread]
      rfl
  | @unserved report text live error prev hlive hlidl hrefuses =>
      obtain rfl : prev.module = m := hmodule
      obtain ⟨hretry, hsame⟩ := htext rfl
      obtain ⟨hok, hrefuses⟩ := hrefuses
      refine ⟨reply prev.module (str "version"), { invalidView (pendingView prev.module) live error with
        contractSha256 := sha256Hex text.lidl.text }, fun _ => rfl, ?_, prev.generation + 1, rfl⟩
      rw [reading, hreport hlive]
      dsimp only
      rw [hsame, hlidl, hretry, hok]
      rcases hrefuses with ⟨hread, rfl⟩ | ⟨hread, hnone, rfl⟩
      · rw [hread]
        rfl
      · rw [hread, hnone]
        rfl
  | @checked report text version live typed sha prev hlive hlidl hcontract =>
      have hprev : prev.module = m := by
        rw [← hmodule]
        unfold checkedView
        dsimp only
        split <;> rfl
      obtain ⟨hretry, hsame⟩ := htext rfl
      obtain ⟨hok, rfl, hread, htyped⟩ := hcontract
      refine ⟨version.outcome, _, fun hversion => ?_, ?_, renumbered_checkedView hprev live typed _ _⟩
      · exact reply_of_steps (htold version (by simp [Sources.answers])) (hof.version version rfl)
          hversion
      · rw [reading, hreport hlive]
        dsimp only
        rw [hsame, hlidl, hretry, hok, hread, htyped]
        rfl

/-- **Discovery converges.** When every call of a module fails or gives what the module answers,
then whatever is lost, restarted, replaced and read again meanwhile: where discovery has nothing
left to do for an exposed module, its view is the one that a single reading of the module gives,
fresh, but for its number. (Only the call of `version` may have failed in that reading; it is not
repeated.) -/
theorem view_of_reading {s : State Shared Section} (hnames : cfg.NamesChecked lib)
    (hrun : Run (discovery cfg lib reader) (truthful reply) (start cfg) s) {em : ExposedModule}
    (hfind : cfg.find m = some em) (hidle : Idle s.shared s.pending m) :
    ∃ version v, (version.ok = true → version = reply m (str "version")) ∧
      reading lib reader m (reply m (str "getPluginInterface")) (reply m (str "lidl")) version = some v ∧
      s.shared.viewOf m = { withExposure em v with
        generation := (s.shared.viewOf m).generation, stale := false } := by
  obtain ⟨slot, hslot⟩ : ∃ slot, s.shared.slots m = some slot := by
    rw [← Option.isSome_iff_exists, slots_of_run hrun m, hfind]
    rfl
  have hview : s.shared.viewOf m = slot.view := by
    unfold Shared.viewOf
    rw [hslot]
  obtain ⟨hchain, htrigger⟩ := hidle
  have hcovered := covered_of_run hnames hrun.toAny hslot
  have hquiet : ¬(slot.inFlight = true ∨ slot.retryArmed = true) := by
    rintro (hflight | hretry)
    · exact hchain _ (hcovered.flight hflight)
    · exact htrigger (hcovered.retry hretry)
  have hsettled : ¬slot.Unsettled := fun h => (hcovered.unsettled h).elim (hchain _) htrigger
  obtain ⟨-, hlast⟩ := recorded_of_run hrun m
  -- a slot without a publication is pending, and a pending slot is not settled
  cases hp : (s.shared.publishedOf m).getLast? with
  | none =>
      rw [hp, hview] at hlast
      refine absurd (.inl ?_) hsettled
      rw [show slot.view = pendingView m from hlast]
      rfl
  | some p =>
      rw [hp] at hlast
      obtain ⟨stale, hstale⟩ := hlast
      have hfresh : stale = false := by
        by_contra hno
        refine hsettled (.inr ?_)
        rw [← hview, hstale]
        simpa using hno
      obtain ⟨hmem, hmodule⟩ := List.mem_filter.mp (List.mem_of_getLast? hp)
      obtain rfl : p.module = m := by simpa using hmodule
      have hfirm : p.sources.weak = false := by
        by_contra hweak
        exact hquiet (backed_of_run hrun hslot p hp (by simpa using hweak))
      have hsound := (attributed_of_run hrun).published p hmem
      obtain ⟨next, generation, hbuilt, hpview⟩ := hsound.built
      have hnext : next.module = p.module := by
        have habout := module_of_published hrun p hmem
        rw [hpview] at habout
        exact (module_exposed p.module next).symm.trans habout
      obtain ⟨version, v, hversion, hreading, number, hsame⟩ := reading_of_builtFrom reply
        hbuilt hnext hsound.of ((told_of_run hrun).published p hmem) hfirm
      refine ⟨version, v, hversion, hreading, ?_⟩
      have hexposed : exposed cfg p.module next = withExposure em next := by
        unfold exposed
        rw [hfind]
      rw [hstale, hpview, hexposed, hsame, hfresh]
      rfl

end

/-! ## A run

The first attempt fails and the retry does not. -/

/-- Every module answers every call with an empty array. -/
def emptyReply (_ _ : Bytes) : CallOutcome := { value := .arr [] }

instance (c : Call) (r : CallOutcome) : Decidable (c.Told emptyReply r) :=
  decidable_of_iff (r.ok = true → r.value matches .arr []) <| by
    obtain ⟨value, error⟩ := r
    apply imp_congr_right
    intro hok
    obtain rfl := List.isEmpty_iff.mp hok
    constructor
    · intro hvalue
      cases value with
      | arr xs =>
          cases xs with
          | nil => rfl
          | cons x xs => cases hvalue
      | _ => cases hvalue
    · intro heq
      cases heq
      rfl

/-- The first report of `m` does not come; the retry reads it. -/
def retriedMoves : List (Move CallOutcome Entry) :=
  [.run 0 {}, .run 0 {}, .run 1 { error := str "timeout" }, .run 2 {}, .run 2 {}, .run 2 {}, .run 2 {},
    .enter (.fire (str "m")), .run 3 {}, .run 4 {}, .run 4 {}, .run 5 { value := .arr [] }, .run 6 {},
    .run 6 {}, .run 6 {}, .run 6 {}]

/-- Nothing is left to do, and the view is that of one reading. -/
theorem view_of_reading_retried : ∃ s,
    Run (discovery oneModule .emptyArray .refusing) (truthful emptyReply) (start oneModule) s ∧
    (s.shared.viewOf (str "m")).status = .untyped ∧ ∃ version v,
      reading .emptyArray .refusing (str "m") (emptyReply (str "m") (str "getPluginInterface"))
        (emptyReply (str "m") (str "lidl")) version = some v ∧
      s.shared.viewOf (str "m") = { withExposure { name := str "m" } v with
        generation := (s.shared.viewOf (str "m")).generation, stale := false } := by
  have hmoves : ((discovery oneModule .emptyArray .refusing).replayUnder (truthful emptyReply) (start oneModule)
      retriedMoves).map (fun s => ((s.shared.viewOf (str "m")).status, s.threads.flatten.length,
        (s.shared.timers (str "m")).isSome)) = some (.untyped, 0, false) := by decide +kernel
  obtain ⟨s, hs, hend⟩ := Option.map_eq_some_iff.mp hmoves
  obtain ⟨hstatus, hrest⟩ := Prod.mk.inj hend
  obtain ⟨hthreads, htimer⟩ := Prod.mk.inj hrest
  have hrun := Run.start.replayUnder hs
  have hpending : ∀ x : Section, x ∉ s.pending := by
    intro x hx
    have hx : x ∈ s.threads.flatten := hx
    rw [List.length_eq_zero_iff.mp hthreads] at hx
    cases hx
  have hidle : Idle s.shared s.pending (str "m") := by
    constructor
    · rintro n ⟨x, hx, -⟩
      exact hpending x hx
    · rintro (⟨x, hx, -⟩ | ⟨d, hd⟩)
      · exact hpending x hx
      · rw [hd] at htimer
        cases htimer
  have hfind : oneModule.find (str "m") = some { name := str "m" } := rfl
  obtain ⟨version, v, -, hreading, hview⟩ := view_of_reading oneModule_namesChecked hrun hfind hidle
  exact ⟨s, hrun, hstatus, version, v, hreading, hview⟩

end JsonRpcBridge.Discovery
