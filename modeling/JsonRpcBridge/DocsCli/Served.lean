import JsonRpcBridge.Discovery.WellFormed
import JsonRpcBridge.DocsCli.Model

/-!
# What the command prints

* `all_or_nothing`: a run that ends with an error of its arguments or inputs prints no output, writes
  no file, and ends with the message of the check that stopped it (`Stops`). One that ends well has
  rendered every module it was asked for, from a contract on which all its sources agree, or left it
  out because there is none.
* `prints_what_is_served`: its documents are those that a running bridge serves, once each module has
  last answered with the contract that the command was given.
-/

namespace JsonRpcBridge.DocsCli

variable {lib : Nlohmann} {reader : ContractReader} {host : Host} {bridgeVersion : Bytes}
  {o : Options} {packages : List (Bytes × LgxContracts)}

/-! ## Contracts

What the loop over the modules has found out about each module that it rendered. -/

/-- The sources of this module are read, and `first` is the first of those that have its contract.
-/
def Given (host : Host) (o : Options) (packages : List (Bytes × LgxContracts)) (module : Bytes)
    (first : Candidate) : Prop :=
  ∃ others, candidates host o packages module = .ok (first :: others) ∧
    ∀ c ∈ others, c.text = first.text

/-- The module `r` is what its contract says. -/
structure Resolved.Rendered (lib : Nlohmann) (reader : ContractReader) (host : Host) (o : Options)
    (packages : List (Bytes × LgxContracts)) (r : Resolved) : Prop where
  given : Given host o packages r.em.name r.candidate
  utf8 : isValidUtf8 r.candidate.text = true
  ok : (offlineView lib reader r.em r.candidate.text).ok = true
  view : r.view = (offlineView lib reader r.em r.candidate.text).view

theorem resolveFound_ok {em : ExposedModule} {first : Candidate} {others : List Candidate}
    {r : Resolved} {warnings : List Bytes}
    (hcandidates : candidates host o packages em.name = .ok (first :: others))
    (h : resolveFound lib reader em first others = .ok (r, warnings)) :
    r.em = em ∧ r.Rendered lib reader host o packages := by
  unfold resolveFound at h
  split at h
  · cases h
  · rename_i hsame
    split at h
    · cases h
    · rename_i hutf8
      dsimp only at h
      split at h
      · cases h
      · rename_i hok
        obtain ⟨rfl, _⟩ := Prod.mk.inj (Except.ok.inj h)
        refine ⟨rfl, ⟨others, hcandidates, ?_⟩, ?_, ?_, rfl⟩
        · intro c hc
          have hnot := List.find?_eq_none.mp hsame c hc
          simpa using hnot
        · simpa using hutf8
        · simpa using hok

/-- A module is rendered, or nobody has a contract for it. -/
theorem resolveModule_ok {em : ExposedModule} {r : Option Resolved} {warnings : List Bytes}
    (h : resolveModule lib reader host o packages em = .ok (r, warnings)) :
    (∃ r', r = some r' ∧ r'.em = em ∧ r'.Rendered lib reader host o packages) ∨
      r = none ∧ candidates host o packages em.name = .ok [] ∧ o.allowUntyped = true ∧
        warnings = [warning (em.name ++ str ": no contract; left out (--allow-untyped)")] := by
  unfold resolveModule at h
  split at h
  · cases h
  · rename_i hnone
    dsimp only at h
    split at h
    · rename_i huntyped
      obtain ⟨rfl, rfl⟩ := Prod.mk.inj (Except.ok.inj h)
      exact .inr ⟨rfl, hnone, huntyped.1, rfl⟩
    · cases h
  · rename_i first others hcandidates
    cases hfound : resolveFound lib reader em first others with
    | error stop =>
        rw [hfound] at h
        cases h
    | ok found =>
        rw [hfound] at h
        obtain ⟨rfl, rfl⟩ := Prod.mk.inj (Except.ok.inj h)
        obtain ⟨hem, hrendered⟩ := resolveFound_ok hcandidates hfound
        exact .inl ⟨found.1, rfl, hem, hrendered⟩

/-- All modules are rendered, in order, but those that nobody has a contract for. -/
theorem resolveModules_ok {ems : List ExposedModule} {rs : List Resolved}
    (h : (resolveModules lib reader host o packages ems).2 = .ok rs) :
    (rs.map (·.em)).Sublist ems ∧ (∀ r ∈ rs, r.Rendered lib reader host o packages) ∧
      ∀ em ∈ ems, em ∈ rs.map (·.em) ∨
        candidates host o packages em.name = .ok [] ∧ o.allowUntyped = true ∧
          warning (em.name ++ str ": no contract; left out (--allow-untyped)") ∈
            (resolveModules lib reader host o packages ems).1 := by
  induction ems generalizing rs with
  | nil =>
      obtain rfl := Except.ok.inj h
      exact ⟨List.Sublist.refl _, fun _ hr => absurd hr List.not_mem_nil,
        fun _ hem => absurd hem List.not_mem_nil⟩
  | cons em rest ih =>
      simp only [resolveModules] at h ⊢
      cases hone : resolveModule lib reader host o packages em with
      | error stop =>
          rw [hone] at h
          cases h
      | ok found =>
          obtain ⟨r, warnings⟩ := found
          rw [hone] at h
          dsimp only at h ⊢
          cases hlater : (resolveModules lib reader host o packages rest).2 with
          | error stop =>
              rw [hlater] at h
              cases h
          | ok later =>
              rw [hlater] at h
              obtain rfl := Except.ok.inj h
              obtain ⟨hsub, hrendered, hall⟩ := ih hlater
              -- the warnings of the later modules come after those of this one
              have hrest : ∀ em' ∈ rest, em' ∈ (r.toList ++ later).map (·.em) ∨
                  candidates host o packages em'.name = .ok [] ∧ o.allowUntyped = true ∧
                    warning (em'.name ++ str ": no contract; left out (--allow-untyped)") ∈
                      warnings ++ (resolveModules lib reader host o packages rest).1 := by
                intro em' hem'
                rcases hall em' hem' with hin | ⟨hnone, huntyped, hwarned⟩
                · rw [List.map_append]
                  exact .inl (List.mem_append_right _ hin)
                · exact .inr ⟨hnone, huntyped, List.mem_append_right _ hwarned⟩
              rcases resolveModule_ok hone with ⟨r', rfl, rfl, hr'⟩ | ⟨rfl, hnone, huntyped, rfl⟩
              · refine ⟨hsub.cons_cons _, ?_, ?_⟩
                · exact List.forall_mem_cons.mpr ⟨hr', hrendered⟩
                · exact List.forall_mem_cons.mpr ⟨.inl List.mem_cons_self, hrest⟩
              · refine ⟨hsub.cons _, hrendered, List.forall_mem_cons.mpr ⟨.inr ⟨hnone, huntyped, ?_⟩, hrest⟩⟩
                exact List.mem_append_left _ (List.mem_singleton_self _)

/-! ## A run

`runDocsCli` branch by branch, by its exit code. -/

/-- What the run was to print, wherever it went. -/
def Session.output (s : Session) : Bytes :=
  match s.file with
  | some file => file.2
  | none => s.out

theorem write_code {err text : Bytes} :
    (write host o err text).code = exitOk ∧ (write host o err text).output = text ∧
        (write host o err text).err = err ∨
      (write host o err text).code = exitWrite := by
  unfold write
  dsimp only
  split
  · split
    · exact .inl ⟨rfl, rfl, rfl⟩
    · exact .inr rfl
  · split
    · exact .inl ⟨rfl, rfl, rfl⟩
    · exact .inr rfl
    · exact .inr rfl

/-! ### Codes

Each step has one code for all its failures. -/

theorem loadConfig_error {stop : Stop} (h : loadConfig lib host o = .error stop) :
    stop.code = exitConfig := by
  unfold loadConfig at h
  split at h
  · cases h
    rfl
  · split at h
    · cases h
      rfl
    · cases h

theorem checkLidl_error {cfg : BridgeConfig} {named : List Bytes} {ls : List (Bytes × Bytes)}
    {stop : Stop} (h : checkLidl cfg named ls = .error stop) : stop.code = exitUsage := by
  induction ls generalizing named with
  | nil => cases h
  | cons l rest ih =>
      simp only [checkLidl] at h
      split at h
      · cases h
        rfl
      · split at h
        · cases h
          rfl
        · exact ih h

theorem of_bind_eq_error {ε α β : Type} {x : Except ε α} {f : α → Except ε β} {e : ε}
    (h : (x >>= f) = .error e) : x = .error e ∨ ∃ a, x = .ok a ∧ f a = .error e := by
  cases x with
  | error e' =>
      cases h
      exact .inl rfl
  | ok a => exact .inr ⟨a, rfl, h⟩

theorem select_error {cfg : BridgeConfig} {stop : Stop} (h : select cfg o = .error stop) :
    stop.code = exitUsage := by
  unfold select at h
  rcases of_bind_eq_error h with hmodule | ⟨selected, _, h⟩
  · unfold selectModules at hmodule
    split at hmodule
    · cases hmodule
    · split at hmodule
      · cases hmodule
        rfl
      · cases hmodule
  · split at h
    · cases h
      rfl
    · rcases of_bind_eq_error h with hlidl | ⟨_, _, h⟩
      · exact checkLidl_error hlidl
      · cases h

theorem readPackages_error {selected : List ExposedModule} {paths : List Bytes} {stop : Stop}
    (h : readPackages host selected paths = .error stop) : stop.code = exitInput := by
  induction paths with
  | nil => cases h
  | cons path rest ih =>
      simp only [readPackages] at h
      split at h
      · cases h
        rfl
      · split at h
        · cases h
          rfl
        · cases hrest : readPackages host selected rest with
          | ok _ =>
              rw [hrest] at h
              cases h
          | error stop' =>
              rw [hrest] at h
              cases h
              exact ih hrest

theorem checkDirs_error {dirs : List Bytes} {stop : Stop} (h : checkDirs host dirs = .error stop) :
    stop.code = exitInput := by
  unfold checkDirs at h
  split at h
  · cases h
    rfl
  · cases h

theorem collect_error {reads : List (Except Stop (Option Candidate))} {stop : Stop}
    (h : collect reads = .error stop) : .error stop ∈ reads := by
  induction reads with
  | nil => cases h
  | cons read rest ih =>
      cases read with
      | error stop' =>
          cases h
          exact List.mem_cons_self
      | ok c =>
          simp only [collect] at h
          cases hrest : collect rest with
          | ok _ =>
              rw [hrest] at h
              cases h
          | error stop' =>
              rw [hrest] at h
              cases h
              exact List.mem_cons_of_mem _ (ih hrest)

theorem readCandidate_error {module path : Bytes} {optional : Bool} {stop : Stop}
    (h : readCandidate host module path optional = .error stop) : stop.code = exitInput := by
  unfold readCandidate at h
  split at h
  · cases h
  · split at h
    · cases h
    · cases h
      rfl

theorem candidates_error {module : Bytes} {stop : Stop}
    (h : candidates host o packages module = .error stop) : stop.code = exitInput := by
  have hmem := collect_error h
  simp only [List.mem_append, List.mem_map] at hmem
  rcases hmem with (⟨l, _, hread⟩ | ⟨dir, _, hread⟩) | ⟨p, _, hread⟩
  · exact readCandidate_error hread
  · exact readCandidate_error hread
  · unfold packageCandidate at hread
    dsimp only at hread
    split at hread
    · cases hread
      rfl
    · cases hread

theorem resolveModule_error {em : ExposedModule} {stop : Stop}
    (h : resolveModule lib reader host o packages em = .error stop) :
    stop.code = exitInput ∨ stop.code = exitUntyped := by
  unfold resolveModule at h
  split at h
  · rename_i hcandidates
    cases h
    exact .inl (candidates_error hcandidates)
  · dsimp only at h
    split at h
    · cases h
    · cases h
      exact .inr rfl
  · rename_i first others hcandidates
    left
    cases hfound : resolveFound lib reader em first others with
    | ok _ =>
        rw [hfound] at h
        cases h
    | error stop' =>
        rw [hfound] at h
        cases h
        unfold resolveFound at hfound
        split at hfound
        · cases hfound
          rfl
        · split at hfound
          · cases hfound
            rfl
          · dsimp only at hfound
            split at hfound
            · cases hfound
              rfl
            · cases hfound

/-- The codes of a run that stops before its output. -/
def failures : List Nat := [exitUsage, exitConfig, exitInput, exitUntyped]

/-! ## Why a run stops

`Stops` is the list of the checks, each with the condition under which it fails and the text it
then prints. -/

/-- The run is asked for more than its usage or its version. -/
structure Asked (args : List Bytes) (o : Options) : Prop where
  args : parseArgs args = .ok o
  help : o.help = false
  version : o.version = false

/-- What is read before the modules are looked at. -/
structure Prepared (lib : Nlohmann) (host : Host) (o : Options) (cfg : BridgeConfig)
    (selected : List ExposedModule) (packages : List (Bytes × LgxContracts)) : Prop where
  load : loadConfig lib host o = .ok cfg
  select : select cfg o = .ok selected
  packages : readPackages host selected o.packages = .ok packages
  dirs : checkDirs host o.lidlDirs = .ok ()

/-- The first check to fail, and what it says. The last is the one that can throw, and its text is
the library's. -/
inductive Stops (lib : Nlohmann) (reader : ContractReader) (host : Host) (bridgeVersion : Bytes)
    (args : List Bytes) : Stop → Prop
  | usage {error : Bytes} : parseArgs args = .error error →
      Stops lib reader host bridgeVersion args (.usage error)
  | config {o : Options} {stop : Stop} : Asked args o → loadConfig lib host o = .error stop →
      Stops lib reader host bridgeVersion args stop
  | select {o : Options} {cfg : BridgeConfig} {stop : Stop} : Asked args o →
      loadConfig lib host o = .ok cfg → select cfg o = .error stop →
      Stops lib reader host bridgeVersion args stop
  | packages {o : Options} {cfg : BridgeConfig} {selected : List ExposedModule} {stop : Stop} :
      Asked args o → loadConfig lib host o = .ok cfg → DocsCli.select cfg o = .ok selected →
      readPackages host selected o.packages = .error stop →
      Stops lib reader host bridgeVersion args stop
  | dirs {o : Options} {cfg : BridgeConfig} {selected : List ExposedModule}
      {packages : List (Bytes × LgxContracts)} {stop : Stop} :
      Asked args o → loadConfig lib host o = .ok cfg → DocsCli.select cfg o = .ok selected →
      readPackages host selected o.packages = .ok packages →
      checkDirs host o.lidlDirs = .error stop → Stops lib reader host bridgeVersion args stop
  | module {o : Options} {cfg : BridgeConfig} {packages : List (Bytes × LgxContracts)}
      {before after : List ExposedModule} {em : ExposedModule} {stop : Stop} :
      Asked args o → Prepared lib host o cfg (before ++ em :: after) packages →
      (∀ em' ∈ before, ∃ r, resolveModule lib reader host o packages em' = .ok r) →
      resolveModule lib reader host o packages em = .error stop →
      Stops lib reader host bridgeVersion args stop
  | render {o : Options} {cfg : BridgeConfig} {selected : List ExposedModule}
      {packages : List (Bytes × LgxContracts)} {rs : List Resolved} {error : JsonError} :
      Asked args o → Prepared lib host o cfg selected packages →
      (resolveModules lib reader host o packages selected).2 = .ok rs →
      render lib host bridgeVersion cfg o rs = .error error →
      Stops lib reader host bridgeVersion args (.fail exitInput [])

theorem gather_ok {warnings : List Bytes} {cfg : BridgeConfig} {rs : List Resolved}
    (h : gather lib reader host o = (warnings, .ok (cfg, rs))) :
    ∃ selected packages, Prepared lib host o cfg selected packages ∧
      resolveModules lib reader host o packages selected = (warnings, .ok rs) := by
  unfold gather at h
  dsimp only at h
  split at h
  · cases h
  · rename_i cfg' selected packages hbefore
    obtain ⟨_, hload, hbefore⟩ := of_bind_eq_ok hbefore
    obtain ⟨_, hselect, hbefore⟩ := of_bind_eq_ok hbefore
    obtain ⟨_, hpackages, hbefore⟩ := of_bind_eq_ok hbefore
    obtain ⟨_, hdirs, hbefore⟩ := of_bind_eq_ok hbefore
    cases hbefore
    obtain ⟨hwarnings, hrs⟩ := Prod.mk.inj h
    cases hmodules : (resolveModules lib reader host o packages selected).2 with
    | error stop =>
        rw [hmodules] at hrs
        cases hrs
    | ok rs' =>
        rw [hmodules] at hrs
        cases hrs
        exact ⟨selected, packages, ⟨hload, hselect, hpackages, hdirs⟩, Prod.ext hwarnings hmodules⟩

/-- The module that stops the run is the first that does not resolve. -/
theorem resolveModules_stops {ems : List ExposedModule} {stop : Stop}
    (h : (resolveModules lib reader host o packages ems).2 = .error stop) :
    ∃ before em after, ems = before ++ em :: after ∧
      (∀ em' ∈ before, ∃ r, resolveModule lib reader host o packages em' = .ok r) ∧
      resolveModule lib reader host o packages em = .error stop := by
  induction ems with
  | nil => cases h
  | cons em rest ih =>
      simp only [resolveModules] at h
      split at h
      · rename_i hone
        cases h
        exact ⟨[], em, rest, rfl, fun _ hem' => absurd hem' List.not_mem_nil, hone⟩
      · rename_i r warnings hone
        dsimp only at h
        cases hlater : (resolveModules lib reader host o packages rest).2 with
        | ok _ =>
            rw [hlater] at h
            cases h
        | error stop' =>
            rw [hlater] at h
            cases h
            obtain ⟨before, em', after, rfl, hbefore, hstop⟩ := ih hlater
            exact ⟨em :: before, em', after, rfl,
              List.forall_mem_cons.mpr ⟨⟨(r, warnings), hone⟩, hbefore⟩, hstop⟩

/-- What `gather` stops with comes from one of the checks, and its code is one of the failures. -/
theorem gather_error {args : List Bytes} {warnings : List Bytes} {stop : Stop} (hasked : Asked args o)
    (h : gather lib reader host o = (warnings, .error stop)) :
    stop.code ∈ failures ∧ ∀ version, Stops lib reader host version args stop := by
  have hmem : ∀ {n : Nat}, n = exitUsage ∨ n = exitConfig ∨ n = exitInput ∨ n = exitUntyped →
      n ∈ failures := by
    intro n hn
    simpa [failures] using hn
  unfold gather at h
  dsimp only at h
  split at h
  · rename_i stop' hbefore
    cases h
    -- the checks come in this order, and each stop knows that those before it have passed
    rcases of_bind_eq_error hbefore with hload | ⟨cfg, hload, hbefore⟩
    · exact ⟨hmem (.inr (.inl (loadConfig_error hload))), fun _ => .config hasked hload⟩
    · rcases of_bind_eq_error hbefore with hselect | ⟨selected, hselect, hbefore⟩
      · exact ⟨hmem (.inl (select_error hselect)), fun _ => .select hasked hload hselect⟩
      · rcases of_bind_eq_error hbefore with hpackages | ⟨packages, hpackages, hbefore⟩
        · exact ⟨hmem (.inr (.inr (.inl (readPackages_error hpackages)))),
            fun _ => .packages hasked hload hselect hpackages⟩
        · rcases of_bind_eq_error hbefore with hdirs | ⟨_, _, hbefore⟩
          · exact ⟨hmem (.inr (.inr (.inl (checkDirs_error hdirs)))),
              fun _ => .dirs hasked hload hselect hpackages hdirs⟩
          · cases hbefore
  · rename_i cfg selected packages hbefore
    obtain ⟨_, hload, hbefore⟩ := of_bind_eq_ok hbefore
    obtain ⟨_, hselect, hbefore⟩ := of_bind_eq_ok hbefore
    obtain ⟨_, hpackages, hbefore⟩ := of_bind_eq_ok hbefore
    obtain ⟨_, hdirs, hbefore⟩ := of_bind_eq_ok hbefore
    cases hbefore
    obtain ⟨_, hrs⟩ := Prod.mk.inj h
    cases hmodules : (resolveModules lib reader host o packages selected).2 with
    | ok _ =>
        rw [hmodules] at hrs
        cases hrs
    | error stop' =>
        rw [hmodules] at hrs
        cases hrs
        -- or every check has passed, and a module is what stops the run
        obtain ⟨before, em, after, rfl, hresolved, hstop⟩ := resolveModules_stops hmodules
        exact ⟨hmem (.inr (.inr (resolveModule_error hstop))),
          fun _ => .module hasked ⟨hload, hselect, hpackages, hdirs⟩ hresolved hstop⟩

/-! ### Whole runs -/

theorem run_ok {args : List Bytes} (hargs : parseArgs args = .ok o) (hhelp : o.help = false)
    (hversion : o.version = false)
    (hcode : (runDocsCli lib reader host bridgeVersion args).code = exitOk) :
    ∃ warnings cfg rs text, gather lib reader host o = (warnings, .ok (cfg, rs)) ∧
      render lib host bridgeVersion cfg o rs = .ok text ∧
      (runDocsCli lib reader host bridgeVersion args).output = text ∧
      (runDocsCli lib reader host bridgeVersion args).err = warnings.flatten := by
  unfold runDocsCli at hcode ⊢
  rw [hargs] at hcode ⊢
  simp only [hhelp, hversion, Bool.false_eq_true, if_false] at hcode ⊢
  obtain ⟨warnings, gathered, hgather⟩ : ∃ warnings gathered,
      gather lib reader host o = (warnings, gathered) := ⟨_, _, rfl⟩
  rw [hgather] at hcode ⊢
  cases gathered with
  | error stop =>
      have hfails := (gather_error ⟨hargs, hhelp, hversion⟩ hgather).1
      rw [show stop.code = exitOk from hcode] at hfails
      exact absurd hfails (by decide)
  | ok found =>
      obtain ⟨cfg, rs⟩ := found
      dsimp only at hcode ⊢
      cases hrender : render lib host bridgeVersion cfg o rs with
      | error error =>
          rw [hrender] at hcode
          cases hcode
      | ok text =>
          rw [hrender] at hcode
          have hwrite : (write host o warnings.flatten text).code = exitOk ∧ _ ∧ _ ∨ _ := write_code
          rcases hwrite with ⟨_, hout, herr⟩ | hfail
          · exact ⟨warnings, cfg, rs, text, rfl, hrender, hout, herr⟩
          · dsimp only at hcode
            rw [hfail] at hcode
            cases hcode

/-- **A run that fails** stops at a check, has printed nothing but warnings before, and ends with
what the check says. -/
theorem run_failed {args : List Bytes}
    (hcode : (runDocsCli lib reader host bridgeVersion args).code ∉ [exitOk, exitWrite]) :
    (runDocsCli lib reader host bridgeVersion args).code ∈ failures ∧
      (runDocsCli lib reader host bridgeVersion args).out = [] ∧
      (runDocsCli lib reader host bridgeVersion args).file = none ∧
      ∃ stop, Stops lib reader host bridgeVersion args stop ∧
        (runDocsCli lib reader host bridgeVersion args).code = stop.code ∧
        stop.text <:+ (runDocsCli lib reader host bridgeVersion args).err := by
  -- however a run stops, it prints nothing, and its text comes after the warnings
  have hstop : ∀ {stop : Stop} {err : Bytes}, stop.code ∈ failures ∧
      Stops lib reader host bridgeVersion args stop →
      (stop.session err).code ∈ failures ∧ (stop.session err).out = [] ∧
        (stop.session err).file = none ∧ ∃ stop', Stops lib reader host bridgeVersion args stop' ∧
          (stop.session err).code = stop'.code ∧ stop'.text <:+ (stop.session err).err := by
    rintro stop err ⟨hmem, hstops⟩
    exact ⟨hmem, rfl, rfl, stop, hstops, rfl, List.suffix_append err stop.text⟩
  unfold runDocsCli at hcode ⊢
  split
  · rename_i error hargs
    exact hstop ⟨show exitUsage ∈ failures by decide, .usage hargs⟩
  · rename_i o hargs
    rw [hargs] at hcode
    dsimp only at hcode ⊢
    split at hcode
    · exact absurd List.mem_cons_self hcode
    · rename_i hhelp
      split at hcode
      · exact absurd List.mem_cons_self hcode
      · rename_i hversion
        rw [if_neg hhelp, if_neg hversion]
        have hasked : Asked args o :=
          ⟨hargs, Bool.eq_false_iff.mpr hhelp, Bool.eq_false_iff.mpr hversion⟩
        obtain ⟨warnings, gathered, hgather⟩ : ∃ warnings gathered,
            gather lib reader host o = (warnings, gathered) := ⟨_, _, rfl⟩
        rw [hgather] at hcode ⊢
        cases gathered with
        | error stop =>
            obtain ⟨hfails, hstops⟩ := gather_error hasked hgather
            exact hstop ⟨hfails, hstops bridgeVersion⟩
        | ok found =>
            obtain ⟨cfg, rs⟩ := found
            dsimp only at hcode ⊢
            cases hrender : render lib host bridgeVersion cfg o rs with
            | error error =>
                obtain ⟨selected, packages, hprepared, hmodules⟩ := gather_ok hgather
                exact hstop ⟨show exitInput ∈ failures by decide,
                  .render hasked hprepared (congrArg Prod.snd hmodules) hrender⟩
            | ok text =>
                rw [hrender] at hcode
                have hwrite : (write host o warnings.flatten text).code = exitOk ∧ _ ∨ _ := write_code
                rcases hwrite with ⟨hok, _⟩ | hfail
                · exact absurd (hok ▸ List.mem_cons_self) hcode
                · exact absurd (hfail ▸ List.mem_cons_of_mem _ List.mem_cons_self) hcode

/-- **All or nothing.** Unless a run ends well or cannot write, it has put out nothing and ends with
the message of the check that stopped it. One that was asked for documents and ends well has
rendered every selected module that has a contract. -/
theorem all_or_nothing (lib : Nlohmann) (reader : ContractReader) (host : Host) (bridgeVersion : Bytes)
    (args : List Bytes) :
    let s := runDocsCli lib reader host bridgeVersion args
    (s.code ∉ [exitOk, exitWrite] → s.code ∈ failures ∧ s.out = [] ∧ s.file = none ∧
      ∃ stop, Stops lib reader host bridgeVersion args stop ∧ s.code = stop.code ∧
        stop.text <:+ s.err) ∧
    ∀ o, parseArgs args = .ok o → o.help = false → o.version = false → s.code = exitOk →
      ∃ cfg selected packages rs, loadConfig lib host o = .ok cfg ∧ select cfg o = .ok selected ∧
        readPackages host selected o.packages = .ok packages ∧
        render lib host bridgeVersion cfg o rs = .ok s.output ∧
        (rs.map (·.em)).Sublist selected ∧
        (∀ r ∈ rs, r.Rendered lib reader host o packages) ∧
        ∀ em ∈ selected, em ∈ rs.map (·.em) ∨
          candidates host o packages em.name = .ok [] ∧ o.allowUntyped = true ∧
            warning (em.name ++ str ": no contract; left out (--allow-untyped)") <:+: s.err := by
  refine ⟨run_failed, ?_⟩
  intro o hargs hhelp hversion hcode
  obtain ⟨warnings, cfg, rs, text, hgather, hrender, hout, herr⟩ := run_ok hargs hhelp hversion hcode
  obtain ⟨selected, packages, ⟨hload, hselect, hpackages, _⟩, hmodules⟩ := gather_ok hgather
  obtain ⟨hsub, hrendered, hall⟩ := resolveModules_ok (congrArg Prod.snd hmodules)
  refine ⟨cfg, selected, packages, rs, hload, hselect, hpackages, hout ▸ hrender, hsub, hrendered, ?_⟩
  intro em hem
  rcases hall em hem with hin | ⟨hnone, huntyped, hwarned⟩
  · exact .inl hin
  · refine .inr ⟨hnone, huntyped, ?_⟩
    rw [hmodules] at hwarned
    rw [herr]
    exact List.infix_of_mem_flatten hwarned

/-! ## The bound on a contract

A bridge serves no contract that is longer than `kMaxContractBytes`, and the command reads none.
-/

theorem length_readContractFile {maxBytes : Nat} {node : Node} {text : Bytes}
    (h : readContractFile maxBytes node = .ok text) : text.length ≤ maxBytes := by
  unfold readContractFile at h
  split at h
  · cases h
  · cases h
  · cases h
  · split at h
    · cases h
    · rename_i hsize
      split at h
      · cases h
      · cases h
        exact Nat.le_of_not_lt hsize

theorem mem_collect {reads : List (Except Stop (Option Candidate))} {cs : List Candidate}
    (h : collect reads = .ok cs) {c : Candidate} (hc : c ∈ cs) : .ok (some c) ∈ reads := by
  induction reads generalizing cs with
  | nil =>
      cases h
      exact absurd hc List.not_mem_nil
  | cons read rest ih =>
      cases read with
      | error stop => cases h
      | ok found =>
          simp only [collect] at h
          cases hrest : collect rest with
          | error stop =>
              rw [hrest] at h
              cases h
          | ok later =>
              rw [hrest] at h
              cases h
              rcases List.mem_append.mp hc with hfound | hlater
              · rw [Option.mem_toList] at hfound
                rw [hfound]
                exact List.mem_cons_self
              · exact List.mem_cons_of_mem _ (ih hrest hlater)

theorem readPackages_ok {selected : List ExposedModule} {paths : List Bytes}
    {packages : List (Bytes × LgxContracts)} (h : readPackages host selected paths = .ok packages) :
    ∀ p ∈ packages, ∀ l ∈ p.2.lidl, l.2.length ≤ kMaxContractBytes := by
  induction paths generalizing packages with
  | nil =>
      cases h
      exact fun _ hp => absurd hp List.not_mem_nil
  | cons path rest ih =>
      simp only [readPackages] at h
      split at h
      · cases h
      · rename_i c hc
        split at h
        · cases h
        · cases hrest : readPackages host selected rest with
          | error stop =>
              rw [hrest] at h
              cases h
          | ok later =>
              rw [hrest] at h
              cases h
              refine List.forall_mem_cons.mpr ⟨?_, ih hrest⟩
              intro l hl
              unfold readLgxContracts at hc
              split at hc
              · cases hc
              · cases hc
                obtain ⟨f, _, hf⟩ := List.mem_filterMap.mp hl
                obtain ⟨text, htext, rfl⟩ := Option.map_eq_some_iff.mp hf
                cases hread : readContractFile kMaxContractBytes f.2 with
                | error e =>
                    rw [hread] at htext
                    cases htext
                | ok text' =>
                    rw [hread] at htext
                    cases htext
                    exact length_readContractFile hread

theorem length_given {selected : List ExposedModule} {module : Bytes} {first : Candidate}
    (hpackages : readPackages host selected o.packages = .ok packages)
    (h : Given host o packages module first) : first.text.length ≤ kMaxContractBytes := by
  obtain ⟨others, hcandidates, _⟩ := h
  have hmem := mem_collect hcandidates List.mem_cons_self
  have hfile : ∀ {path : Bytes} {optional : Bool},
      readCandidate host module path optional = .ok (some first) →
        first.text.length ≤ kMaxContractBytes := by
    intro path optional hread
    unfold readCandidate at hread
    split at hread
    · rename_i text htext
      cases hread
      exact length_readContractFile htext
    · split at hread
      · cases hread
      · cases hread
  simp only [List.mem_append, List.mem_map] at hmem
  rcases hmem with (⟨l, _, hread⟩ | ⟨dir, _, hread⟩) | ⟨p, hp, hread⟩
  · exact hfile hread
  · exact hfile hread
  · unfold packageCandidate at hread
    dsimp only at hread
    split at hread
    · cases hread
    · obtain ⟨text, htext, rfl⟩ := Option.map_eq_some_iff.mp (Except.ok.inj hread)
      exact readPackages_ok hpackages p hp _ (List.mem_of_lookup htext)

/-! ## The running bridge

A view that a bridge has built from a contract is described as the command describes the contract
itself: the report and the version of the module are in no document. -/

open Discovery in
/-- A view that came out `ok` has passed the cross-check. -/
theorem checks_of_ok {module text : Bytes} {src : Sources} {next : ModuleView}
    (hbuilt : BuiltFrom lib reader module src next) (hok : next.status = .ok) (hread : src.Read text) :
    src.Checks lib reader module text := by
  obtain ⟨a, ha, hreads⟩ := hread
  cases hbuilt with
  | untyped prev _ _ => cases hok
  | unread prev _ _ _ => cases hok
  | unserved prev _ _ _ => cases hok
  | @checked report _ version live typed sha prev hreport _ hcontract =>
      cases ha
      obtain ⟨hlidl, _, _, htyped⟩ := hcontract
      have htext : a.lidl.text = text :=
        Json.str.inj ((reads_of_lidl hlidl).2.symm.trans hreads.2)
      rw [htext] at htyped
      rw [status_checkedView] at hok
      split at hok
      · cases hok
      · rename_i hclean
        exact ⟨live, typed, _, hreport, htyped, by simpa using hclean⟩

open Interleaving Discovery in
/-- What the documents take from a module whose last attempt read this text. -/
theorem doc_of_last {cfg : BridgeConfig} {s : State Shared Section}
    (hrun : Run (discovery cfg lib reader) Guard.any (start cfg) s) {em : ExposedModule}
    (hfind : cfg.find em.name = some em) {text : Bytes} (hsize : text.length ≤ kMaxContractBytes)
    (hutf8 : isValidUtf8 text = true) (hok : (offlineView lib reader em text).ok = true)
    (hstatus : (s.shared.viewOf em.name).status = .ok)
    {p : Publication} (hlast : (s.shared.publishedOf em.name).getLast? = some p)
    (hread : p.sources.Read text) :
    ∃ slot, s.shared.slots em.name = some slot ∧
      Docs.toModuleDoc slot.view = Docs.toModuleDoc (offlineView lib reader em text).view := by
  obtain ⟨hmem, hmodule⟩ := List.mem_filter.mp (List.mem_of_getLast? hlast)
  have hmodule : p.module = em.name := beq_iff_eq.mp hmodule
  obtain ⟨next, generation, hbuilt, hview⟩ := ((attributed_of_run hrun).published p hmem).built
  rw [hmodule] at hbuilt hview
  have habout : next.module = em.name := by
    rw [← hmodule, ← module_of_published hrun p hmem, hview]
    exact (module_exposed em.name next).symm
  have hexposed : exposed cfg em.name next = withExposure em next := by
    unfold exposed
    rw [hfind]
  rw [hexposed] at hview
  have hrecorded := (recorded_of_run hrun em.name).2
  rw [hlast] at hrecorded
  obtain ⟨stale, hslot⟩ := hrecorded
  have hnext : next.status = .ok := by
    rw [hslot, hview] at hstatus
    exact hstatus
  obtain ⟨hdocs, _, _⟩ := offline_of_builtFrom generation hbuilt habout hread hsize hutf8
  obtain ⟨_, hdoc⟩ := hdocs hok (checks_of_ok hbuilt hnext hread)
  unfold Shared.viewOf at hslot hstatus
  cases hs : s.shared.slots em.name with
  | none =>
      rw [hs] at hstatus
      cases hstatus
  | some slot =>
      rw [hs] at hslot
      refine ⟨slot, rfl, ?_⟩
      have hslot : slot.view = { p.view with stale := stale } := hslot
      rw [hslot, ← hdoc, hview]
      rfl

/-- The views of the modules, one for each. -/
theorem docs_views {sh : Discovery.Shared} {rs : List Resolved}
    {ems : List ExposedModule} (hems : rs.map (·.em) = ems)
    (h : ∀ r ∈ rs, ∃ slot, sh.slots r.em.name = some slot ∧
      Docs.toModuleDoc slot.view = Docs.toModuleDoc r.view) :
    (ems.filterMap fun em => (sh.slots em.name).map (·.view)).map Docs.toModuleDoc =
      (rs.map (·.view)).map Docs.toModuleDoc := by
  subst hems
  induction rs with
  | nil => rfl
  | cons r rest ih =>
      obtain ⟨hr, hrest⟩ := List.forall_mem_cons.mp h
      obtain ⟨slot, hslot, hdoc⟩ := hr
      rw [List.map_cons, List.filterMap_cons_some (by rw [hslot]; rfl), List.map_cons, List.map_cons,
        List.map_cons, hdoc, ih hrest]

theorem isObject_interface {r : ContractResult} {c : TypedContract} (h : typedContract lib r = some c) :
    c.interface.isObject = true := by
  unfold typedContract at h
  split at h
  · cases h
  · split at h
    · cases h
    · rename_i hobject
      split at h
      · cases h
      · cases h
        simpa using hobject

/-- A view without a contract has no interface in the documents. -/
theorem interface_untyped {view : ModuleView} (h : view.typed? = none) :
    (Docs.toModuleDoc view).interface = .null := by
  unfold Docs.toModuleDoc
  split
  · rename_i c hc
    rw [h] at hc
    cases hc
  · split
    · rfl
    · rfl

/-- What the bridge gives the digest of is what the command prints for a view with the same part in
the documents. -/
theorem digest_of_doc {view : ModuleView} {em : ExposedModule} {text : Bytes}
    (hok : (offlineView lib reader em text).ok = true)
    (hdoc : Docs.toModuleDoc view = Docs.toModuleDoc (offlineView lib reader em text).view) :
    ∃ typed out, (offlineView lib reader em text).view.contract = some typed ∧
      lib.dump typed.interface = .ok out ∧ sha256Hex out = view.interfaceSha256 := by
  rcases offlineView_cases lib reader em text with ⟨typed, hread, htyped⟩ | ⟨hread, hnone⟩ | hread
  · obtain ⟨_, hview⟩ := offlineView_of_typed hread htyped
    have hdigest := Discovery.interfaceDigest_of_typedContract htyped
    unfold interfaceDigest at hdigest
    cases hdump : lib.dump typed.interface with
    | error error =>
        rw [hdump] at hdigest
        cases hdigest
    | ok out =>
        rw [hdump] at hdigest
        refine ⟨typed, out, by rw [hview]; rfl, hdump, (Except.ok.inj hdigest).trans ?_⟩
        have hserved : (withExposure em { okView (pendingView em.name) {} typed with
            contractSha256 := sha256Hex text }).typed? = some typed := rfl
        rw [hview, toModuleDoc_typed hserved] at hdoc
        cases hview' : view.typed? with
        | some c =>
            rw [toModuleDoc_typed hview'] at hdoc
            exact (congrArg Docs.ModuleDoc.interfaceSha256 hdoc).symm
        | none =>
            have hnull := interface_untyped hview'
            rw [hdoc] at hnull
            have hnull : typed.interface = .null := hnull
            have hobject := isObject_interface htyped
            rw [hnull] at hobject
            cases hobject
  · rw [(offlineView_of_unserved hread hnone).1] at hok
    cases hok
  · rw [(offlineView_of_unread lib hread).1] at hok
    cases hok

/-! ### The property -/

/-- A command line that changes nothing about what is served. -/
structure Options.Plain (o : Options) : Prop where
  help : o.help = false
  version : o.version = false
  pretty : o.pretty = false
  module : o.module = []
  serverHost : o.serverHost = []
  serverPort : o.serverPort = 0
  infoVersion : o.infoVersion = []
  allowUntyped : o.allowUntyped = false

theorem shown_of_plain (h : o.Plain) (cfg : BridgeConfig) : shown cfg o = cfg := by
  unfold shown
  rw [h.serverHost, h.serverPort]
  rfl

theorem accepted_of_load {cfg : BridgeConfig} (h : loadConfig lib host o = .ok cfg) :
    cfg.Accepted lib (str "json_rpc_bridge") := by
  unfold loadConfig at h
  split at h
  · cases h
  · split at h
    · cases h
    · rename_i hparse
      cases h
      exact accepted_of_parse hparse

open Interleaving Discovery in
/-- **The command prints what is served.** -/
theorem prints_what_is_served {args : List Bytes} (hargs : parseArgs args = .ok o) (hplain : o.Plain)
    (hcode : (runDocsCli lib reader host bridgeVersion args).code = exitOk) {cfg : BridgeConfig}
    (hload : loadConfig lib host o = .ok cfg) {s : State Shared Section}
    (hrun : Run (discovery cfg lib reader) Guard.any (start cfg) s)
    (hstatus : ∀ em ∈ cfg.modules, (s.shared.viewOf em.name).status = .ok)
    (hlast : ∀ em ∈ cfg.modules, ∀ packages first,
      readPackages host cfg.modules o.packages = .ok packages → Given host o packages em.name first →
      ∃ p, (s.shared.publishedOf em.name).getLast? = some p ∧ p.sources.Read first.text)
    {set : Docs.DocSet} (hset : set.Shows lib (Docs.docContext cfg bridgeVersion (s.shared.views cfg))) :
    let out := (runDocsCli lib reader host bridgeVersion args).output
    (o.format = .openRpc → out = lib.textReplacing set.openrpc) ∧
    (o.format = .openApi → out = set.openapi) ∧
    (o.format = .asyncApi → out = set.asyncapi) ∧
    (o.format = .interface → ∀ em ∈ cfg.modules, ∀ slot, s.shared.slots em.name = some slot →
      sha256Hex out = slot.view.interfaceSha256) := by
  obtain ⟨warnings, cfg', rs, text, hgather, hrender, hout, _⟩ :=
    run_ok hargs hplain.help hplain.version hcode
  obtain ⟨selected, packages, ⟨hload', hselect, hpackages, _⟩, hmodules⟩ := gather_ok hgather
  obtain rfl := Except.ok.inj (hload.symm.trans hload')
  -- every module is rendered: none is left out, and none is picked
  have hselected : selectModules cfg o = .ok cfg.modules := by
    unfold selectModules
    rw [hplain.module]
    rfl
  have hchosen : selected = cfg.modules ∧ (o.format = .interface → cfg.modules.length = 1) := by
    unfold select at hselect
    rw [hselected] at hselect
    dsimp only [bind, Except.bind] at hselect
    split at hselect
    · cases hselect
    · rename_i hone
      cases hlidl : checkLidl cfg [] o.lidl with
      | error stop =>
          rw [hlidl] at hselect
          cases hselect
      | ok _ =>
          rw [hlidl] at hselect
          cases hselect
          refine ⟨rfl, fun hformat => ?_⟩
          by_contra hne
          exact hone ⟨hformat, hne⟩
  obtain ⟨rfl, hsingle⟩ := hchosen
  obtain ⟨hsub, hrendered, hall⟩ := resolveModules_ok (congrArg Prod.snd hmodules)
  have haccepted := accepted_of_load hload
  have hems : rs.map (·.em) = cfg.modules := by
    have hsubset : cfg.modules ⊆ rs.map (·.em) := by
      intro em hem
      rcases hall em hem with hin | ⟨_, huntyped, _⟩
      · exact hin
      · rw [hplain.allowUntyped] at huntyped
        cases huntyped
    exact hsub.eq_of_length_le
      (List.subperm_of_subset (List.Nodup.of_map _ haccepted.distinct) hsubset).length_le
  have hslots : ∀ r ∈ rs, ∃ slot, s.shared.slots r.em.name = some slot ∧
      Docs.toModuleDoc slot.view = Docs.toModuleDoc r.view := by
    intro r hr
    have hmem : r.em ∈ cfg.modules := hems ▸ List.mem_map_of_mem hr
    have hr := hrendered r hr
    obtain ⟨p, hp, hread⟩ := hlast r.em hmem packages r.candidate hpackages hr.given
    rw [hr.view]
    exact doc_of_last hrun (haccepted.find hmem) (length_given hpackages hr.given) hr.utf8 hr.ok
      (hstatus r.em hmem) hp hread
  have hctx : Docs.docContext cfg bridgeVersion (s.shared.views cfg) =
      Docs.docContext (shown cfg o) (if o.infoVersion.isEmpty then bridgeVersion else o.infoVersion)
        (rs.map (·.view)) := by
    rw [shown_of_plain hplain, hplain.infoVersion]
    unfold Docs.docContext Shared.views
    rw [docs_views hems hslots]
    rfl
  rw [hctx] at hset
  have hdumped : ∀ doc, dumped lib host o doc = lib.textReplacing doc := by
    intro doc
    unfold dumped
    rw [hplain.pretty]
    rfl
  unfold render at hrender
  dsimp only at hrender
  intro out
  have hout : out = text := hout
  refine ⟨fun hformat => ?_, fun hformat => ?_, fun hformat => ?_, fun hformat em hem slot hslot => ?_⟩
  · rw [hformat] at hrender
    rw [hout, ← Except.ok.inj hrender, hdumped, hset.openrpc]
  · rw [hformat] at hrender
    rw [hout, ← Except.ok.inj hrender, hdumped, hset.openapi]
  · rw [hformat] at hrender
    rw [hout, ← Except.ok.inj hrender, hdumped, hset.asyncapi]
  · -- there is one module, and its interface is what is printed
    have hone : rs.length = 1 := by
      rw [← List.length_map (·.em), hems]
      exact hsingle hformat
    obtain ⟨r, rfl⟩ := List.length_eq_one_iff.mp hone
    rw [← hems, List.map_cons, List.map_nil, List.mem_singleton] at hem
    subst hem
    obtain ⟨slot', hslot', hdoc⟩ := hslots r List.mem_cons_self
    obtain rfl := Option.some.inj (hslot.symm.trans hslot')
    have hr := hrendered r List.mem_cons_self
    rw [hr.view] at hdoc
    obtain ⟨typed, out', hcontract, hdump, hdigest⟩ := digest_of_doc hr.ok hdoc
    have hinterface : (([r].head?).bind fun r => r.view.contract) = some typed := by
      rw [List.head?_cons, Option.bind_some, hr.view]
      exact hcontract
    rw [hformat] at hrender
    simp only [hinterface, hplain.pretty, Bool.false_eq_true, if_false, hdump] at hrender
    rw [hout, ← Except.ok.inj hrender]
    exact hdigest

/-- A library that reads the minimal configuration and the interface of `echo`. -/
def docsLib : Nlohmann where
  parse b := if b = minimalText then some minimalJson else if b = str "\x7b\x7d" then some (.obj []) else none
  text := Json.compact
  textReplacing := Json.compact
  parse_clean {b j} h := by
    split at h
    · cases h
      decide
    · split at h
      · cases h
        decide
      · cases h

/-- `c.json` is the minimal configuration, and `m1.lidl` the contract that `m1` answers with. -/
def docsHost : Host where
  node path :=
    if path = str "c.json" then .file minimalText false
    else if path = str "m1.lidl" then .file (str "echo") false
    else .missing

def docsArgs : List Bytes :=
  [str "--config=c.json", str "--format", str "openapi", str "--lidl", str "m1=m1.lidl"]

open Interleaving Discovery in
/-- What the command prints for `m1` is what the bridge serves once `m1` has answered. -/
theorem prints_what_is_served_echo : ∃ (s : State Shared Section) (set : Docs.DocSet),
    Run (discovery minimalConfig docsLib echoReader) Guard.any (start minimalConfig) s ∧
    set.Shows docsLib (Docs.docContext minimalConfig (str "1.0") (s.shared.views minimalConfig)) ∧
    (runDocsCli docsLib echoReader docsHost (str "1.0") docsArgs).output = set.openapi := by
  have hend : ((discovery minimalConfig docsLib echoReader).replay (start minimalConfig) echoMoves).map
      (fun s => ((s.shared.viewOf (str "m1")).status,
        (s.shared.publishedOf (str "m1")).getLast?.any fun p => p.sources.text.any fun a =>
          a.lidl.ok && a.lidl.text == str "echo")) = some (.ok, true) := by decide +kernel
  obtain ⟨s, hs, hend⟩ := Option.map_eq_some_iff.mp hend
  obtain ⟨hstatus, hlast⟩ := Prod.mk.inj hend
  have hrun := Run.replay .start hs
  obtain ⟨p, hp, htext⟩ := (Option.any_eq_true _ _).mp hlast
  obtain ⟨a, ha, hlidl⟩ := (Option.any_eq_true _ _).mp htext
  rw [Bool.and_eq_true, beq_iff_eq] at hlidl
  have hread : p.sources.Read (str "echo") := ⟨a, ha, hlidl.2 ▸ reads_of_lidl hlidl.1⟩
  have hshows : (Docs.buildDocSet docsLib
      (Docs.docContext minimalConfig (str "1.0") (s.shared.views minimalConfig)) [] 1).Shows docsLib
      (Docs.docContext minimalConfig (str "1.0") (s.shared.views minimalConfig)) := ⟨rfl, rfl, rfl⟩
  have hargs : parseArgs docsArgs =
      .ok { configPath := str "c.json", format := .openApi, lidl := [(str "m1", str "m1.lidl")] } := by
    decide +kernel
  refine ⟨s, _, hrun, hshows, ?_⟩
  refine (prints_what_is_served hargs ⟨rfl, rfl, rfl, rfl, rfl, rfl, rfl, rfl⟩ rfl rfl hrun ?_ ?_
    hshows).2.1 rfl
  · intro em hem
    obtain rfl := List.mem_singleton.mp hem
    exact hstatus
  · intro em hem packages first hpackages hgiven
    obtain rfl := List.mem_singleton.mp hem
    obtain rfl := Except.ok.inj hpackages
    obtain ⟨others, hcandidates, _⟩ := hgiven
    have hfound : candidates docsHost
        { configPath := str "c.json", format := .openApi, lidl := [(str "m1", str "m1.lidl")] } []
        (str "m1") = .ok [⟨str "m1.lidl", str "echo"⟩] := rfl
    obtain ⟨rfl, _⟩ := List.cons.inj (Except.ok.inj (hcandidates.symm.trans hfound))
    exact ⟨p, hp, hread⟩

end JsonRpcBridge.DocsCli
