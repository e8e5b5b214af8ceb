import JsonRpcBridge.Discovery.Consistency
import JsonRpcBridge.Docs.Publisher

/-!
# Offline and online

`discovery_model.h` reads a contract a second time, from a file or a package. `offlineView` takes
the text alone; an attempt takes the live report, the runtime version and the view before as well.

* `toModuleDoc_typed`: what the documents take from a typed view is its contract, its digests and
  its exposure, and the exposure depends on nothing but the contract.
* `offline_equals_online`: an attempt that reads a text publishes what the offline view of that text
  says, as far as the documents and the error go.
-/

namespace JsonRpcBridge

/-! ## The offline reading

It stops at the first error, as an attempt does, but has only two of them to meet. -/

/-- A contract read without a running module: resolved and consistent by assumption. -/
structure OfflineView where
  ok : Bool := false
  error : Bytes := []
  warnings : List Bytes := []
  view : ModuleView := pendingView []

/-- Callers check the byte limit and UTF-8 first, as discovery does. -/
def offlineView (lib : Nlohmann) (reader : ContractReader) (em : ExposedModule) (text : Bytes) :
    OfflineView :=
  let c := reader.readContract text em.name
  if !c.ok then { error := contractErrorText c reader.lidlReaderRev }
  else
    match typedContract lib c with
    | none => { error := str "the contract could not be served" }
    | some typed =>
      let v := { okView (pendingView em.name) {} typed with contractSha256 := sha256Hex text }
      { ok := true, view := withExposure em v
        warnings := c.warnings ++ c.lint.map fun l => str "lint: " ++ l }

variable {lib : Nlohmann} {reader : ContractReader} {em : ExposedModule} {text : Bytes}
  {typed : TypedContract}

theorem offlineView_of_typed (hread : (reader.readContract text em.name).ok = true)
    (htyped : typedContract lib (reader.readContract text em.name) = some typed) :
    (offlineView lib reader em text).ok = true ∧ (offlineView lib reader em text).view =
      withExposure em { okView (pendingView em.name) {} typed with
        contractSha256 := sha256Hex text } := by
  unfold offlineView
  simp [hread, htyped]

theorem offlineView_of_unread (lib : Nlohmann)
    (hread : (reader.readContract text em.name).ok = false) :
    (offlineView lib reader em text).ok = false ∧ (offlineView lib reader em text).error =
      contractErrorText (reader.readContract text em.name) reader.lidlReaderRev := by
  unfold offlineView
  simp [hread]

theorem offlineView_of_unserved (hread : (reader.readContract text em.name).ok = true)
    (htyped : typedContract lib (reader.readContract text em.name) = none) :
    (offlineView lib reader em text).ok = false ∧
      (offlineView lib reader em text).error = str "the contract could not be served" := by
  unfold offlineView
  simp [hread, htyped]

/-- Either the contract is served, or one of the two errors says why not. -/
theorem offlineView_cases (lib : Nlohmann) (reader : ContractReader) (em : ExposedModule)
    (text : Bytes) :
    (∃ typed, (reader.readContract text em.name).ok = true ∧
      typedContract lib (reader.readContract text em.name) = some typed) ∨
    (reader.readContract text em.name).ok = true ∧
      typedContract lib (reader.readContract text em.name) = none ∨
    (reader.readContract text em.name).ok = false := by
  cases (reader.readContract text em.name).ok with
  | false => exact Or.inr (Or.inr rfl)
  | true =>
      cases typedContract lib (reader.readContract text em.name) with
      | none => exact Or.inr (Or.inl ⟨rfl, rfl⟩)
      | some typed => exact Or.inl ⟨typed, rfl, rfl⟩

/-! ## What the documents take from a view

`toModuleDoc` reads the contract, the digests and the exposure of a typed view. The live report
decides whether the view is typed, and leaves no trace in it beyond that. -/

theorem exposureOf_typed {view : ModuleView} (h : view.typed? = some typed) :
    exposureOf em view =
      exposeDeclared em (typed.methods.map (·.name)) (typed.events.map (·.name)) := by
  unfold exposureOf
  rw [h]

theorem toModuleDoc_typed {view : ModuleView} (h : view.typed? = some typed) :
    Docs.toModuleDoc view =
      { name := view.module, status := str "ok", exposedMethods := view.exposure.methods
        exposedEvents := view.exposure.events, interface := typed.interface
        interfaceSha256 := view.interfaceSha256, contractSha256 := view.contractSha256
        interfaceError := view.interfaceError } := by
  have hstatus : view.status = .ok := by
    by_contra hne
    have hnone : view.typed? = none := by
      unfold ModuleView.typed?
      rw [if_neg (by simpa using hne)]
    rw [hnone] at h
    cases h
  unfold Docs.toModuleDoc
  rw [h, hstatus]
  rfl

/-- A consistent contract gives the documents the same, whatever the report, the version and the
view before. -/
theorem toModuleDoc_checkedView {prev prev' : ModuleView} {live live' : LiveReport}
    {runtime : Option Bytes} {sha : Bytes} (hmodule : prev.module = prev'.module)
    (hclean : (crossCheck typed live runtime).hasErrors = false) (generation : Nat) :
    Docs.toModuleDoc
        { withExposure em (checkedView prev live typed runtime sha) with
            generation, stale := false } =
      Docs.toModuleDoc
        (withExposure em { okView prev' live' typed with contractSha256 := sha }) := by
  have hchecked : checkedView prev live typed runtime sha =
      { okView prev live typed with
          crossChecked := true, crossCheck := crossCheck typed live runtime
          contractSha256 := sha } := by
    unfold checkedView
    dsimp only
    rw [if_neg (by simpa using hclean)]
  have htyped : (checkedView prev live typed runtime sha).typed? = some typed := by
    rw [hchecked]
    rfl
  have htyped' :
      ({ okView prev' live' typed with contractSha256 := sha } : ModuleView).typed? = some typed :=
    rfl
  have hleft : ({ withExposure em (checkedView prev live typed runtime sha) with
      generation, stale := false } : ModuleView).typed? = some typed := htyped
  have hright : (withExposure em
      { okView prev' live' typed with contractSha256 := sha }).typed? = some typed := htyped'
  rw [toModuleDoc_typed hleft, toModuleDoc_typed hright]
  simp only [withExposure]
  rw [exposureOf_typed htyped, exposureOf_typed htyped', hchecked]
  simp only [okView, nextView, hmodule]

namespace Discovery

open Interleaving

variable {cfg : BridgeConfig}

/-! ## The attempts that read a text

A text is read in an attempt if `lidl()` answered with it; whether the cross-check then passes
depends on the report, of which the offline view knows nothing. -/

/-- The answer to `lidl()` was this text. -/
def Answer.Reads (a : Answer) (text : Bytes) : Prop :=
  a.outcome.ok = true ∧ a.outcome.value = .str text

/-- The attempt behind these sources read this text. -/
def Sources.Read (src : Sources) (text : Bytes) : Prop := ∃ a, src.text = some a ∧ a.Reads text

/-- The report of these sources and the contract in this text pass the cross-check. -/
def Sources.Checks (lib : Nlohmann) (reader : ContractReader) (src : Sources) (m text : Bytes) :
    Prop :=
  ∃ live typed runtime, Reports lib src.report live ∧
    typedContract lib (reader.readContract text m) = some typed ∧
    (crossCheck typed live runtime).hasErrors = false

theorem lidl_of_reads {a : Answer} (h : a.Reads text) (hsize : text.length ≤ kMaxContractBytes)
    (hutf8 : isValidUtf8 text = true) : a.lidl.ok = true ∧ a.lidl.text = text := by
  unfold Answer.lidl lidlText
  rw [h.1, h.2, if_neg (by simp)]
  dsimp only
  rw [if_neg (by omega), if_neg (by simp [hutf8])]
  exact ⟨rfl, rfl⟩

theorem reads_of_lidl {a : Answer} (h : a.lidl.ok = true) : a.Reads a.lidl.text := by
  rcases lidl_cases a with hread | ⟨hno, -⟩
  · exact hread.2
  · cases h.symm.trans hno

/-- A publication is the view a `publish` section carried. -/
theorem view_of_published {sh : Shared} {x : Section} {r : CallOutcome} {e : Effect Shared Section}
    (h : exec cfg lib reader sh x r = some e) {p : Publication} (hp : p ∈ e.shared.published) :
    p ∈ sh.published ∨ ∃ n next retry src generation, x = .publish p.module n next retry src ∧
      p.view = { exposed cfg p.module next with generation, stale := false } := by
  by_cases hpub : ∃ m n next retry src, x = .publish m n next retry src
  · obtain ⟨m, n, next, retry, src, rfl⟩ := hpub
    simp only [exec] at h
    split at h
    · cases h
      exact Or.inl hp
    · split at h <;> cases h
      · rcases List.mem_append.mp hp with hold | hnew
        · exact Or.inl hold
        · rw [List.mem_singleton.mp hnew]
          exact Or.inr ⟨n, next, retry, src, _, rfl, rfl⟩
      · exact Or.inl hp
  · left
    rwa [← exec_published_of_ne (fun m n next retry src hx => hpub ⟨m, n, next, retry, src, hx⟩) h]

theorem module_exposed (m : Bytes) (next : ModuleView) : (exposed cfg m next).module = next.module := by
  unfold exposed
  split <;> rfl

/-- What is published for a module is about that module. -/
theorem module_of_published {s : State Shared Section}
    {G : Guard Shared Section CallOutcome Entry}
    (h : Run (discovery cfg lib reader) G (start cfg) s) :
    ∀ p ∈ s.shared.published, p.view.module = p.module := by
  have hboth : Advertised cfg s.shared s.pending ∧
      ∀ p ∈ s.shared.published, p.view.module = p.module := by
    refine Run.invariant (I := fun sh pending =>
      Advertised cfg sh pending ∧ ∀ p ∈ sh.published, p.view.module = p.module) ?_ ?_ ?_ h
    · exact ⟨advertised_start, fun p hp => by simp [start] at hp⟩
    · rintro sh x r e others ⟨hadv, hold⟩ - hexec
      refine ⟨hadv.step hexec, ?_⟩
      intro p hp
      rcases view_of_published hexec hp with hmem | ⟨n, next, retry, src, generation, hx, hview⟩
      · exact hold p hmem
      · have habout := hadv.about x (Multiset.mem_cons_self x others)
        rw [hx] at habout
        rw [hview]
        exact (module_exposed p.module next).trans habout
    · rintro sh ev e p ⟨hadv, hold⟩ - henter
      refine ⟨hadv.enter henter, ?_⟩
      rw [enter_published henter]
      exact hold
  exact hboth.2

/-! ## What such an attempt publishes

The online side has one case more, a contract that does not match the running module. -/

/-- The continuation hands `publish` a view built from this text. -/
def HandsOn (sections : List Section) (m : Bytes) (n : Nat) (text : Bytes) : Prop :=
  ∃ next src, sections = [.publish m n next false src] ∧ src.Read text

theorem proceed_contract_of_typed {sh : Shared} {n : Nat} {live : LiveReport} {report a : Answer}
    (hlidl : a.lidl.ok = true ∧ a.lidl.text = text)
    (hread : (reader.readContract text em.name).ok = true)
    (htyped : typedContract lib (reader.readContract text em.name) = some typed) :
    proceed lib reader sh em.name n (.contract live report) a =
      [.invoke em.name n (.version live typed (sha256Hex text) report a)] := by
  obtain ⟨hok, rfl⟩ := hlidl
  unfold Answer.lidl at *
  simp [proceed, onContract, hok, hread, htyped]

theorem handsOn_of_refused {sh : Shared} {n : Nat} {live : LiveReport} {report a : Answer}
    (hreads : a.Reads text) (hlidl : a.lidl.ok = true ∧ a.lidl.text = text)
    (hrefused : (reader.readContract text em.name).ok = true ∧
      typedContract lib (reader.readContract text em.name) = none ∨
      (reader.readContract text em.name).ok = false) :
    HandsOn (proceed lib reader sh em.name n (.contract live report) a) em.name n text := by
  obtain ⟨hok, htext⟩ := hlidl
  have hrefused' : ∃ error, proceed lib reader sh em.name n (.contract live report) a =
      [.publish em.name n { invalidView (sh.viewOf em.name) live error with
        contractSha256 := sha256Hex text } false { report, text := some a }] := by
    subst htext
    unfold Answer.lidl at *
    rcases hrefused with ⟨hread, htyped⟩ | hread
    · refine ⟨str "the contract could not be served", ?_⟩
      simp [proceed, onContract, hok, hread, htyped]
    · refine ⟨contractErrorText (reader.readContract a.lidl.text em.name) reader.lidlReaderRev, ?_⟩
      unfold Answer.lidl
      simp [proceed, onContract, hok, hread]
  obtain ⟨error, hproceed⟩ := hrefused'
  exact ⟨_, _, hproceed, a, rfl, hreads⟩

/-! ### View by view -/

/-- What a publication built from this text is, by how far its attempt got. -/
theorem offline_of_builtFrom {src : Sources} {next : ModuleView} (generation : Nat)
    (hbuilt : BuiltFrom lib reader em.name src next) (hmodule : next.module = em.name)
    (hread : src.Read text) (hsize : text.length ≤ kMaxContractBytes)
    (hutf8 : isValidUtf8 text = true) :
    ((offlineView lib reader em text).ok = true → src.Checks lib reader em.name text →
      next.status = .ok ∧ Docs.toModuleDoc { withExposure em next with generation, stale := false } =
        Docs.toModuleDoc (offlineView lib reader em text).view) ∧
    ((offlineView lib reader em text).ok = false → next.status = .invalid ∧
      next.interfaceError = (offlineView lib reader em text).error) ∧
    (next.status = .ok → (offlineView lib reader em text).ok = true) := by
  obtain ⟨a, ha, hreads⟩ := hread
  obtain ⟨hlidl, htext⟩ := lidl_of_reads hreads hsize hutf8
  -- two of the four ways to end have no text
  cases hbuilt with
  | untyped prev _ _ => cases ha
  | unread prev _ _ hunread =>
      cases ha
      rw [hlidl] at hunread
      cases hunread
  | @unserved report _ live error prev _ _ hrefuses =>
      cases ha
      unfold Refuses at hrefuses
      rw [htext] at hrefuses
      have hoffline : (offlineView lib reader em text).ok = false ∧
          error = (offlineView lib reader em text).error := by
        rcases hrefuses.2 with ⟨hread, herror⟩ | ⟨hread, hnone, herror⟩
        · obtain ⟨hok, herr⟩ := offlineView_of_unread lib hread
          exact ⟨hok, herror.trans herr.symm⟩
        · obtain ⟨hok, herr⟩ := offlineView_of_unserved hread hnone
          exact ⟨hok, herror.trans herr.symm⟩
      refine ⟨fun hok => ?_, fun _ => ⟨rfl, hoffline.2⟩, nofun⟩
      rw [hoffline.1] at hok
      cases hok
  | @checked report _ version live typed sha prev hreport _ hcontract =>
      cases ha
      obtain ⟨-, hsha, hread, htyped⟩ := hcontract
      rw [htext] at hsha hread htyped
      obtain ⟨hok, hview⟩ := offlineView_of_typed hread htyped
      have hprev : prev.module = em.name := by
        rw [← hmodule]
        unfold checkedView
        dsimp only
        split <;> rfl
      refine ⟨fun _ hchecks => ?_, fun hno => ?_, fun _ => hok⟩
      · obtain ⟨live', typed', runtime, hreport', htyped', hclean⟩ := hchecks
        obtain rfl : live = live' := Option.some.inj (hreport.2.symm.trans hreport'.2)
        obtain rfl : typed = typed' := Option.some.inj (htyped.symm.trans htyped')
        have hclean' : (crossCheck typed live
          (runtimeVersion version.outcome.ok version.outcome.value)).hasErrors = false :=
        hasErrors_iff.mpr (hasErrors_iff.mp hclean)
        rw [status_checkedView, if_neg (by simp [hclean']), hview, hsha]
        exact ⟨rfl, toModuleDoc_checkedView hprev hclean' generation⟩
      · rw [hok] at hno
        cases hno

/-- **Offline equals online.** In every run, a publication whose attempt read a text agrees with the
offline view of that text: the same module in the documents when the report passes the cross-check,
the same error when the text is refused, `ok` only when the offline view is. And an attempt that
reads the text and goes on does publish. -/
theorem offline_equals_online {s : State Shared Section}
    (h : Run (discovery cfg lib reader) Guard.any (start cfg) s)
    (hfind : cfg.find em.name = some em) (hsize : text.length ≤ kMaxContractBytes)
    (hutf8 : isValidUtf8 text = true) :
    (∀ p ∈ s.shared.published, p.module = em.name → p.sources.Read text →
      ((offlineView lib reader em text).ok = true → p.sources.Checks lib reader em.name text →
        p.view.status = .ok ∧
          Docs.toModuleDoc p.view = Docs.toModuleDoc (offlineView lib reader em text).view ∧
          ∀ version before after, Docs.docContext cfg version (before ++ p.view :: after) =
            Docs.docContext cfg version
              (before ++ (offlineView lib reader em text).view :: after)) ∧
      ((offlineView lib reader em text).ok = false → p.view.status = .invalid ∧
        p.view.interfaceError = (offlineView lib reader em text).error) ∧
      (p.view.status = .ok → (offlineView lib reader em text).ok = true)) ∧
    ∀ (sh : Shared) (n : Nat) (live : LiveReport) (report a : Answer), a.Reads text →
      ((offlineView lib reader em text).ok = true →
        ∃ stage, proceed lib reader sh em.name n (.contract live report) a =
            [.invoke em.name n stage] ∧
          ∀ sh' answer, HandsOn (proceed lib reader sh' em.name n stage answer) em.name n text) ∧
      ((offlineView lib reader em text).ok = false →
        HandsOn (proceed lib reader sh em.name n (.contract live report) a) em.name n text) := by
  constructor
  · rintro p hp hmodule hread
    obtain ⟨next, generation, hbuilt, hview⟩ := ((attributed_of_run h).published p hp).built
    rw [hmodule] at hbuilt hview
    have habout : next.module = em.name := by
      rw [← hmodule, ← module_of_published h p hp, hview]
      exact (module_exposed em.name next).symm
    have hexposed : exposed cfg em.name next = withExposure em next := by
      unfold exposed
      rw [hfind]
    rw [hexposed] at hview
    obtain ⟨hok, hinvalid, hconverse⟩ := offline_of_builtFrom generation hbuilt
      habout hread hsize hutf8
    rw [hview]
    refine ⟨fun hoff hchecks => ?_, hinvalid, hconverse⟩
    obtain ⟨hstatus, hdoc⟩ := hok hoff hchecks
    refine ⟨hstatus, hdoc, ?_⟩
    intro version before after
    simp only [Docs.docContext, List.map_append, List.map_cons, hdoc]
  -- an answer with the text leads to a publication of it, in one section or two
  · intro sh n live report a hreads
    have hlidl := lidl_of_reads hreads hsize hutf8
    rcases offlineView_cases lib reader em text with ⟨typed, hread, htyped⟩ | hrefused
    · refine ⟨fun _ => ⟨_, proceed_contract_of_typed hlidl hread htyped, ?_⟩, fun hno => ?_⟩
      · intro sh' answer
        exact ⟨_, _, rfl, a, rfl, hreads⟩
      · rw [(offlineView_of_typed hread htyped).1] at hno
        cases hno
    · refine ⟨fun hok => ?_, fun _ => handsOn_of_refused hreads hlidl hrefused⟩
      rcases hrefused with ⟨hread, hnone⟩ | hread
      · rw [(offlineView_of_unserved hread hnone).1] at hok
        cases hok
      · rw [(offlineView_of_unread lib hread).1] at hok
        cases hok

/-- The run to an `ok` view reads the text `echo`. -/
theorem offline_equals_online_echo : ∃ s,
    Run (discovery oneModule echoLib echoReader) Guard.any (start oneModule) s ∧
    ∃ p ∈ s.shared.published, p.sources.Read (str "echo") ∧ p.view.status = .ok ∧
      (offlineView echoLib echoReader { name := str "m" } (str "echo")).ok = true := by
  have hend : ((discovery oneModule echoLib echoReader).replay (start oneModule) echoMoves).map
      (fun s => s.shared.published.any fun p => decide (p.module = str "m") &&
        decide (p.view.status = .ok) && p.sources.text.any fun a =>
          a.lidl.ok && a.lidl.text == str "echo") = some true := by decide +kernel
  obtain ⟨s, hs, hpub⟩ := Option.map_eq_some_iff.mp hend
  obtain ⟨p, hp, hfound⟩ := List.any_eq_true.mp hpub
  simp only [Bool.and_eq_true, decide_eq_true_eq] at hfound
  obtain ⟨⟨hmodule, hstatus⟩, htext⟩ := hfound
  have hread : p.sources.Read (str "echo") := by
    obtain ⟨a, ha, hlidl⟩ := (Option.any_eq_true _ _).mp htext
    rw [Bool.and_eq_true, beq_iff_eq] at hlidl
    exact ⟨a, ha, hlidl.2 ▸ reads_of_lidl hlidl.1⟩
  have hrun := Run.replay .start hs
  have hsame := @offline_equals_online echoLib echoReader { name := str "m" } (str "echo")
    oneModule s hrun rfl (by decide) (by decide)
  exact ⟨s, hrun, p, hp, hread, hstatus, (hsame.1 p hp hmodule hread).2.2 hstatus⟩

end Discovery

end JsonRpcBridge
