import JsonRpcBridge.Discovery.WellFormed

/-!
# What the cross-check decides

`Consistent`: every declared member is live with its arity, as far as the report can tell. A derived
method may be unlisted, and events count only when the report tags them.

* `hasErrors_iff`: the cross-check finds an error exactly when the contract and the report are not
  consistent, whatever the runtime version and the warnings.
* `cross_check_decides`: so it is with the status, in any order of the live entries, and on every
  reachable `ok` view by-name calls go out with the arity of a live entry.
-/

namespace JsonRpcBridge

/-! ## Consistency

Names and arities, as far as the report tells them. Nothing is asked of types. -/

/-- Some live entry has this name and arity. -/
def Listed (entries : List LiveMember) (name : Bytes) (arity : Nat) : Prop :=
  ∃ e ∈ entries, e.name = name ∧ e.params.length = arity

/-- No live entry has this name. -/
def Unlisted (entries : List LiveMember) (name : Bytes) : Prop := ∀ e ∈ entries, e.name ≠ name

/-- What the cross-check asks of a contract and a live report. -/
structure Consistent (c : TypedContract) (live : LiveReport) : Prop where
  declared : ∀ m ∈ c.methods, m.derived = false → Listed live.methods m.name m.params.length
  derived : ∀ m ∈ c.methods, m.derived = true →
    Unlisted live.methods m.name ∨ Listed live.methods m.name m.params.length
  events : live.eventsDeclared = true → ∀ e ∈ c.events, Listed live.events e.name e.params.length

variable {c : TypedContract} {live live' : LiveReport} {runtime : Option Bytes}

/-! ## Errors among the findings

Only two kinds of finding are errors, a member that is missing and one of another arity. Each
producer of findings is compared with the part of `Consistent` that it decides. -/

/-- The findings hold no error. -/
def NoError (findings : List Finding) : Prop := ∀ f ∈ findings, f.severity ≠ str "error"

theorem hasErrors_eq_false_iff {cc : CrossCheck} : cc.hasErrors = false ↔ NoError cc.findings := by
  simp [CrossCheck.hasErrors, CrossCheck.has, NoError]

theorem noError_append {xs ys : List Finding} : NoError (xs ++ ys) ↔ NoError xs ∧ NoError ys := by
  simp only [NoError, List.mem_append, or_imp, forall_and]

theorem noError_flatMap {α : Type} {xs : List α} {f : α → List Finding} :
    NoError (xs.flatMap f) ↔ ∀ x ∈ xs, NoError (f x) := by
  simp only [NoError, List.mem_flatMap, forall_exists_index, and_imp]
  exact ⟨fun h x hx y hy => h y x hx hy, fun h y x hx hy => h x hx y hy⟩

/-- Warnings and infos are no errors. -/
theorem noError_singleton {f : Finding} (h : f.severity = str "warning" ∨ f.severity = str "info") :
    NoError [f] := by
  intro g hg
  rw [List.mem_singleton.mp hg]
  rcases h with h | h <;> rw [h] <;> decide

theorem noError_nil : NoError [] := nofun

theorem noError_map {α : Type} {xs : List α} {f : α → Finding}
    (h : ∀ x, (f x).severity = str "warning") : NoError (xs.map f) := by
  intro y hy
  obtain ⟨x, -, rfl⟩ := List.mem_map.mp hy
  rw [h x]
  decide

/-! ### Producer by producer -/

theorem mem_liveEntries {entries : List LiveMember} {name : Bytes} {e : LiveMember} :
    e ∈ liveEntries entries name ↔ e ∈ entries ∧ e.name = name := by
  simp [liveEntries]

theorem liveEntries_isEmpty_iff {entries : List LiveMember} {name : Bytes} :
    (liveEntries entries name).isEmpty = true ↔ Unlisted entries name := by
  simp [liveEntries, Unlisted]

/-- A listed member is in error exactly when no entry of its name has its arity. -/
theorem noError_checkMember {kind name : Bytes} {declared : List ContractParam}
    {entries : List LiveMember} :
    NoError (checkMember kind name declared (liveEntries entries name)) ↔
      Listed entries name declared.length := by
  unfold checkMember
  dsimp only
  -- the first entry with the arity is the one whose names are compared
  split
  · rename_i hnone
    have harity := List.find?_eq_none.mp hnone
    constructor
    · intro h
      exact absurd rfl (h _ List.mem_cons_self)
    · rintro ⟨e, he, hname, hlength⟩
      exact absurd (by simpa using hlength) (harity e (mem_liveEntries.mpr ⟨he, hname⟩))
  · rename_i e hsome
    obtain ⟨hmem, hname⟩ := mem_liveEntries.mp (List.mem_of_find?_eq_some hsome)
    have hlength : e.params.length = declared.length := by simpa using List.find?_some hsome
    refine iff_of_true ?_ ⟨e, hmem, hname, hlength⟩
    split
    · exact noError_singleton (Or.inl rfl)
    · exact noError_nil

theorem noError_checkMethod {m : ContractMethod} : NoError (checkMethod live m) ↔
    m.derived = true ∧ Unlisted live.methods m.name ∨ Listed live.methods m.name m.params.length := by
  have hdisjoint : Listed live.methods m.name m.params.length → ¬Unlisted live.methods m.name := by
    rintro ⟨e, he, hname, -⟩ hnone
    exact hnone e he hname
  unfold checkMethod
  dsimp only
  -- no entry of the name at all, or some, and then one of them has to have the arity
  split
  · rename_i hempty
    have hnone := liveEntries_isEmpty_iff.mp hempty
    split
    · rename_i hderived
      exact iff_of_true (noError_singleton (Or.inr rfl)) (Or.inl ⟨hderived, hnone⟩)
    · rename_i hderived
      refine iff_of_false (fun h => h _ List.mem_cons_self rfl) ?_
      rintro (⟨h, -⟩ | h)
      · exact hderived h
      · exact hdisjoint h hnone
  · rename_i hlisted
    have hsome : ¬Unlisted live.methods m.name := fun h => hlisted (liveEntries_isEmpty_iff.mpr h)
    rw [noError_checkMember]
    exact ⟨Or.inr, fun h => h.resolve_left fun h => hsome h.2⟩

theorem noError_checkEvent {e : ContractEvent} :
    NoError (checkEvent live e) ↔ Listed live.events e.name e.params.length := by
  unfold checkEvent
  dsimp only
  split
  · rename_i hempty
    have hnone := liveEntries_isEmpty_iff.mp hempty
    refine iff_of_false (fun h => h _ List.mem_cons_self rfl) ?_
    rintro ⟨e', he', hname, -⟩
    exact hnone e' he' hname
  · exact noError_checkMember

theorem noError_checkEvents : NoError (checkEvents c live) ↔
    (live.eventsDeclared = true → ∀ e ∈ c.events, Listed live.events e.name e.params.length) := by
  unfold checkEvents
  split
  · rename_i htagged
    rw [noError_append, noError_flatMap]
    simp only [noError_checkEvent]
    refine ⟨fun h _ => h.1, fun h => ⟨h htagged, ?_⟩⟩
    exact noError_map fun _ => rfl
  · rename_i htagged
    refine iff_of_true ?_ fun h => absurd h htagged
    split
    · exact noError_singleton (Or.inr rfl)
    · exact noError_nil

theorem noError_checkVersion : NoError (checkVersion c runtime) := by
  unfold checkVersion
  split
  · exact noError_singleton (Or.inr rfl)
  · split
    · exact noError_singleton (Or.inl rfl)
    · exact noError_nil

theorem readerWarning_severity (w : Bytes) : (readerWarning w).severity = str "warning" := by
  unfold readerWarning
  split <;> rfl

/-- The cross-check finds no error exactly when the contract and the report are consistent. -/
theorem hasErrors_iff : (crossCheck c live runtime).hasErrors = false ↔ Consistent c live := by
  have hundeclared : NoError ((undeclaredMethods c live).map fun n =>
      ⟨str "warning", str "undeclared_method", n, str "live, but not declared"⟩) :=
    noError_map fun _ => rfl
  have hlint : NoError (c.lint.map fun l => ⟨str "warning", str "contract_lint", [], l⟩) :=
    noError_map fun _ => rfl
  have hparts : (crossCheck c live runtime).hasErrors = false ↔
      (∀ m ∈ c.methods, NoError (checkMethod live m)) ∧ NoError (checkEvents c live) := by
    rw [hasErrors_eq_false_iff, crossCheck]
    simp only [noError_append, noError_flatMap, hundeclared, hlint,
      noError_map readerWarning_severity, noError_checkVersion, and_true]
  rw [hparts, noError_checkEvents]
  simp only [noError_checkMethod]
  constructor
  · rintro ⟨hmethods, hevents⟩
    refine ⟨?_, ?_, hevents⟩
    · intro m hm hderived
      exact (hmethods m hm).resolve_left fun h => by simp [h.1] at hderived
    · intro m hm _
      exact (hmethods m hm).imp_left And.right
  · rintro ⟨hdeclared, hderived, hevents⟩
    refine ⟨?_, hevents⟩
    intro m hm
    cases hd : m.derived with
    | false => exact Or.inr (hdeclared m hm hd)
    | true => exact (hderived m hm hd).imp_left fun h => ⟨rfl, h⟩

/-! ## The status

The status follows the errors alone, and `Listed` asks for some entry of the name, so the order
of the entries cannot show. -/

theorem status_checkedView (prev : ModuleView) (sha : Bytes) :
    (checkedView prev live c runtime sha).status =
      if (crossCheck c live runtime).hasErrors then .invalid else .ok := by
  unfold checkedView
  dsimp only
  split <;> rfl

theorem Listed.perm {entries entries' : List LiveMember} (hperm : entries'.Perm entries)
    {name : Bytes} {arity : Nat} (h : Listed entries name arity) : Listed entries' name arity := by
  obtain ⟨e, he, hlisted⟩ := h
  exact ⟨e, hperm.mem_iff.mpr he, hlisted⟩

/-- Nothing depends on the order of the live entries. -/
theorem Consistent.perm (h : Consistent c live) (htagged : live'.eventsDeclared = live.eventsDeclared)
    (hmethods : live'.methods.Perm live.methods) (hevents : live'.events.Perm live.events) :
    Consistent c live' where
  declared m hm hd := (h.declared m hm hd).perm hmethods
  derived m hm hd := (h.derived m hm hd).imp
    (fun hnone e he => hnone e (hmethods.mem_iff.mp he)) fun hlisted => hlisted.perm hmethods
  events ht e he := (h.events (htagged ▸ ht) e he).perm hevents

/-! ### Arity of what is sent -/

theorem length_typedArguments {byName : List (Bytes × Json)} {params : List ContractParam}
    {out : List Json} (h : typedArguments byName params = .ok out) : out.length = params.length := by
  induction params generalizing out with
  | nil =>
      cases h
      rfl
  | cons p ps ih =>
      unfold typedArguments at h
      split at h
      · obtain ⟨rest, hrest, rfl⟩ := of_map_eq_ok h
        rw [List.length_cons, ih hrest, List.length_cons]
      · split at h
        · obtain ⟨rest, hrest, rfl⟩ := of_map_eq_ok h
          rw [List.length_cons, ih hrest, List.length_cons]
        · cases h

/-- By-name parameters of a consistent contract go out with the arity of a live entry. -/
theorem listed_of_toPositional {view : ModuleView} {method : Bytes} {byName : List (Bytes × Json)}
    {out : List Json} (htyped : view.typed? = some c) (hconsistent : Consistent c view.live)
    (h : toPositional view method byName = .ok out) :
    Listed view.live.methods method out.length ∨
      Unlisted view.live.methods method ∧ ∃ m ∈ c.methods, m.name = method ∧ m.derived = true := by
  unfold toPositional at h
  rw [htyped] at h
  dsimp only at h
  split at h
  · cases h
  · rename_i m hm
    have hmem := List.mem_of_find?_eq_some hm
    have hname : m.name = method := by simpa using List.find?_some hm
    unfold typedPositional at h
    split at h
    · cases h
    · rw [length_typedArguments h, ← hname]
      cases hd : m.derived with
      | false => exact Or.inl (hconsistent.declared m hmem hd)
      | true =>
          rcases hconsistent.derived m hmem hd with hnone | hlisted
          · exact Or.inr ⟨hnone, m, hmem, rfl, hd⟩
          · exact Or.inl hlisted

namespace Discovery

open Interleaving

/-- **The cross-check decides exactly consistency**: the status a read contract gets, in any order
of the live entries, and the arity of every by-name call on an `ok` view that discovery ever holds.
-/
theorem cross_check_decides {cfg : BridgeConfig} {lib : Nlohmann} {reader : ContractReader}
    {s : State Shared Section} (h : Run (discovery cfg lib reader) Guard.any (start cfg) s) :
    (∀ (c : TypedContract) (live : LiveReport) (runtime : Option Bytes) (prev : ModuleView)
      (sha : Bytes), ((checkedView prev live c runtime sha).status = .ok ↔ Consistent c live) ∧
        (¬Consistent c live → (checkedView prev live c runtime sha).status = .invalid) ∧
        ∀ live' : LiveReport, live'.eventsDeclared = live.eventsDeclared →
          live'.methods.Perm live.methods → live'.events.Perm live.events →
          (checkedView prev live' c runtime sha).status =
            (checkedView prev live c runtime sha).status) ∧
    ∀ m, (s.shared.viewOf m).status = .ok → ∃ c, (s.shared.viewOf m).contract = some c ∧
      ∀ method byName out, toPositional (s.shared.viewOf m) method byName = .ok out →
        Listed (s.shared.viewOf m).live.methods method out.length ∨
          Unlisted (s.shared.viewOf m).live.methods method ∧
            ∃ declared ∈ c.methods, declared.name = method ∧ declared.derived = true := by
  constructor
  · intro c live runtime prev sha
    have hok : ∀ live, (checkedView prev live c runtime sha).status = .ok ↔ Consistent c live := by
      intro live
      rw [status_checkedView, ← @hasErrors_iff _ _ runtime]
      cases (crossCheck c live runtime).hasErrors <;> simp
    have hinvalid : ∀ live, ¬Consistent c live →
        (checkedView prev live c runtime sha).status = .invalid := by
      intro live hnot
      rw [status_checkedView]
      rw [← @hasErrors_iff _ _ runtime, Bool.not_eq_false] at hnot
      rw [hnot, if_pos rfl]
    refine ⟨hok live, hinvalid live, ?_⟩
    intro live' htagged hmethods hevents
    by_cases hcons : Consistent c live
    · rw [(hok live).mpr hcons, (hok live').mpr (hcons.perm htagged hmethods hevents)]
    · have hcons' : ¬Consistent c live' := fun hcons' =>
        hcons (hcons'.perm htagged.symm hmethods.symm hevents.symm)
      rw [hinvalid live hcons, hinvalid live' hcons']
  -- an `ok` view was built by a cross-check without errors
  · intro m hstatus
    obtain ⟨p, text, -, -, -, -, hserved⟩ := (views_well_formed h .start m).1.ok hstatus
    obtain ⟨c, hcontract, -, runtime, hcheck⟩ := hserved.contract
    have hconsistent : Consistent c (s.shared.viewOf m).live := by
      have hnone := hserved.crossChecked.2
      rw [hcheck] at hnone
      exact hasErrors_iff.mp hnone
    have htyped : (s.shared.viewOf m).typed? = some c := by
      unfold ModuleView.typed?
      rw [hstatus, hcontract]
      rfl
    exact ⟨c, hcontract, fun method byName out hcall =>
      listed_of_toPositional htyped hconsistent hcall⟩

/-! ## A run to an `ok` view

A contract with one method, and a report that has it. -/

/-- A library that reads `{}`, and a reader whose every contract declares `echo(x)`. -/
def echoLib : Nlohmann := .only (str "\x7b\x7d") (.obj []) (by decide)

def echoReader : ContractReader where
  readContract _ m :=
    { ok := true, moduleName := m, astJson := str "\x7b\x7d"
      methods := [{ name := str "echo", params := [{ name := str "x" }] }] }
  lidlReaderRev := str "1"

/-- `echo(x)` and `lidl()`, live. -/
def echoReport : Json := .arr [
  Json.object [(str "name", .str (str "echo")),
    (str "parameters", .arr [Json.object [(str "name", .str (str "x"))]])],
  Json.object [(str "name", .str (str "lidl"))]]

/-- The first refresh of `m`, with every answer it waits for. -/
def echoMoves : List (Move CallOutcome Entry) :=
  [.run 0 {}, .run 0 {}, .run 1 { value := echoReport }, .run 2 {}, .run 2 {}, .run 2 {},
    .run 3 { value := .str (str "echo") }, .run 4 {}, .run 4 {}, .run 4 {},
    .run 5 { value := .str (str "1.0") }, .run 6 {}, .run 6 {}, .run 6 {}]

theorem cross_check_decides_echo : ∃ s,
    Run (discovery oneModule echoLib echoReader) Guard.any (start oneModule) s ∧
    (s.shared.viewOf (str "m")).status = .ok ∧ ∃ c, (s.shared.viewOf (str "m")).contract = some c ∧
      ∀ method byName out, toPositional (s.shared.viewOf (str "m")) method byName = .ok out →
        Listed (s.shared.viewOf (str "m")).live.methods method out.length ∨
          Unlisted (s.shared.viewOf (str "m")).live.methods method ∧
            ∃ declared ∈ c.methods, declared.name = method ∧ declared.derived = true := by
  have hend : ((discovery oneModule echoLib echoReader).replay (start oneModule) echoMoves).map
      (fun s => (s.shared.viewOf (str "m")).status) = some .ok := by decide +kernel
  obtain ⟨s, hs, hstatus⟩ := Option.map_eq_some_iff.mp hend
  have hrun := Run.replay .start hs
  exact ⟨s, hrun, hstatus, (cross_check_decides hrun).2 (str "m") hstatus⟩

end Discovery

end JsonRpcBridge
