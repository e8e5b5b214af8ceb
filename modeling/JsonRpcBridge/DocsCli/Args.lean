import JsonRpcBridge.Config.Parse

/-!
# The command line of `json-rpc-bridge-docs`

`parseArgs` of `tools/json_rpc_bridge_docs.cpp`. An option that takes a value may have it behind a
`=` or in the next argument; most may be given once.

* `Item` is an option as it is meant, `Item.argv` how it is spelled.
* `parseArgs_ok_iff`: the accepted command lines are the spellings of the lists of items that give no
  option twice, have good values and leave out nothing that is needed; and what is read is what the
  items say.
-/

namespace JsonRpcBridge.DocsCli

/-! ## The model

`parseArgs` goes through the arguments once; then it looks at what was left out. -/

inductive Format where
  | none
  | openRpc
  | openApi
  | asyncApi
  | schema
  | interface
  deriving DecidableEq

def parseFormat (s : Bytes) : Format :=
  if s == str "openrpc" then .openRpc
  else if s == str "openapi" then .openApi
  else if s == str "asyncapi" then .asyncApi
  else if s == str "schema" then .schema
  else if s == str "interface" then .interface
  else .none

def Format.isDocument : Format → Bool
  | .openRpc | .openApi | .asyncApi => true
  | _ => false

structure Options where
  configPath : Bytes := []
  format : Format := .none
  module : Bytes := []
  /-- Names and files. -/
  lidl : List (Bytes × Bytes) := []
  lidlDirs : List Bytes := []
  packages : List Bytes := []
  serverHost : Bytes := []
  serverPort : Nat := 0
  infoVersion : Bytes := []
  allowUntyped : Bool := false
  outPath : Bytes := []
  pretty : Bool := false
  version : Bool := false
  help : Bool := false
  deriving DecidableEq

/-- Printable ASCII with no space or `/`. -/
def plainHost (h : Bytes) : Bool := h.all (fun c => 0x20 < c && c < 0x7f && c != 0x2f) && !h.isEmpty

def parsePort (s : Bytes) : Option Nat :=
  if s.isEmpty || decide (s.length > 5) || !s.all isDigit then .none
  else
    let v := s.foldl (fun v c => v * 10 + (c.toNat - 0x30)) 0
    if v < 1 || v > 65535 then .none else some v

/-! ### Options

The source asks for each option in turn. Here an option is a value, with its name, its check and
where it is stored. -/

/-- The options that take a value. -/
inductive Opt where
  | config
  | format
  | module
  | lidl
  | lidlDir
  | lgx
  | serverHost
  | serverPort
  | infoVersion
  | out
  deriving DecidableEq

def Opt.all : List Opt :=
  [.config, .format, .module, .lidl, .lidlDir, .lgx, .serverHost, .serverPort, .infoVersion, .out]

def Opt.name : Opt → Bytes
  | .config => str "--config"
  | .format => str "--format"
  | .module => str "--module"
  | .lidl => str "--lidl"
  | .lidlDir => str "--lidl-dir"
  | .lgx => str "--lgx"
  | .serverHost => str "--server-host"
  | .serverPort => str "--server-port"
  | .infoVersion => str "--info-version"
  | .out => str "--out"

/-- The contracts may come from many places. -/
def Opt.once : Opt → Bool
  | .lidl | .lidlDir | .lgx => false
  | _ => true

/-- Why a value is refused. -/
def Opt.refuse (value : Bytes) : Opt → Option Bytes
  | .format =>
    if parseFormat value = .none then
      some (str "--format must be openrpc, openapi, asyncapi, schema or interface (got '" ++ value ++
        str "')")
    else .none
  | .lidl =>
    match splitFirst 0x3d value with
    | .none => some (str "--lidl takes NAME=FILE (got '" ++ value ++ str "')")
    | some _ => .none
  | .serverHost =>
    if !plainHost value then
      some (str "--server-host must be a host name or address (got '" ++ value ++ str "')")
    else .none
  | .serverPort =>
    match parsePort value with
    | .none => some (str "--server-port must be in 1..65535 (got '" ++ value ++ str "')")
    | some _ => .none
  | _ => .none

def Opt.store (value : Bytes) (o : Options) : Opt → Options
  | .config => { o with configPath := value }
  | .format => { o with format := parseFormat value }
  | .module => { o with module := value }
  | .lidl => { o with lidl := o.lidl ++ (splitFirst 0x3d value).toList }
  | .lidlDir => { o with lidlDirs := o.lidlDirs ++ [value] }
  | .lgx => { o with packages := o.packages ++ [value] }
  | .serverHost => { o with serverHost := value }
  | .serverPort => { o with serverPort := (parsePort value).getD 0 }
  | .infoVersion => { o with infoVersion := value }
  | .out => { o with outPath := value }

/-- `take`, and the check that comes after it. -/
def Opt.take (opt : Opt) (value : Bytes) (o : Options) : Except Bytes Options :=
  if value.isEmpty then .error (opt.name ++ str " needs a non-empty value")
  else
    match opt.refuse value with
    | some error => .error error
    | .none => .ok (opt.store value o)

/-- The options without a value. -/
inductive Flag where
  | allowUntyped
  | pretty
  | version
  | help
  | h
  deriving DecidableEq

def Flag.all : List Flag := [.allowUntyped, .pretty, .version, .help, .h]

def Flag.name : Flag → Bytes
  | .allowUntyped => str "--allow-untyped"
  | .pretty => str "--pretty"
  | .version => str "--version"
  | .help => str "--help"
  | .h => str "-h"

def Flag.set (o : Options) : Flag → Options
  | .allowUntyped => { o with allowUntyped := true }
  | .pretty => { o with pretty := true }
  | .version => { o with version := true }
  | .help | .h => { o with help := true }

/-! ### The loop -/

/-- The name of an argument, and the value behind its `=`. -/
def splitInline (arg : Bytes) : Bytes × Option Bytes :=
  if startsWith (str "--") arg then
    match find 0x3d arg with
    | some eq => (arg.take eq, some (arg.drop (eq + 1)))
    | .none => (arg, .none)
  else (arg, .none)

/-- The loop over the arguments; `seen` are the options given so far that may be given once. -/
def parseLoop (seen : List Opt) (o : Options) : List Bytes → Except Bytes Options
  | [] => .ok o
  | arg :: rest =>
    let (name, value) := splitInline arg
    match Opt.all.find? fun opt => opt.name == name with
    | some opt =>
      if opt.once && seen.contains opt then .error (name ++ str " is given twice")
      else
        let seen := if opt.once then opt :: seen else seen
        match value with
        | some value => (opt.take value o).bind fun o => parseLoop seen o rest
        | .none =>
          match rest with
          | [] => .error (name ++ str " needs a value")
          | value :: rest => (opt.take value o).bind fun o => parseLoop seen o rest
    | .none =>
      match Flag.all.find? fun f => f.name == name with
      | some f =>
        if value.isSome then .error (name ++ str " takes no value")
        else parseLoop seen (f.set o) rest
      | .none =>
        .error (if startsWith (str "-") name then str "unknown option " ++ name
          else str "unexpected argument '" ++ name ++ str "'")

/-- What may not be left out. -/
def Options.missing (o : Options) : Option Bytes :=
  if o.help || o.version then .none
  else if o.configPath.isEmpty then some (str "--config is required")
  else if o.format = .none then some (str "--format is required")
  else if o.lidl.isEmpty && o.lidlDirs.isEmpty && o.packages.isEmpty then
    some (str "no contracts: pass --lidl NAME=FILE, --lidl-dir DIR or --lgx FILE")
  else .none

/-- The arguments after the program's name. -/
def parseArgs (args : List Bytes) : Except Bytes Options :=
  (parseLoop [] {} args).bind fun o =>
    match o.missing with
    | some error => .error error
    | .none => .ok o

/-! ## Items and their spellings

Parsing undoes spelling, except that the two ways to give a value are told apart by the item. -/

/-- An option as it is meant; `inline` says that its value stands behind a `=`. -/
inductive Item where
  | valued (opt : Opt) (value : Bytes) (inline : Bool)
  | flag (f : Flag)

def Item.argv : Item → List Bytes
  | .valued opt value true => [opt.name ++ 0x3d :: value]
  | .valued opt value false => [opt.name, value]
  | .flag f => [f.name]

def Item.apply (o : Options) : Item → Options
  | .valued opt value _ => opt.store value o
  | .flag f => f.set o

/-- The option, if it may be given once. -/
def Item.once : Item → Option Opt
  | .valued opt _ _ => if opt.once then some opt else none
  | .flag _ => none

/-- The value is not empty, and is not refused. -/
def Item.Good : Item → Prop
  | .valued opt value _ => value ≠ [] ∧ opt.refuse value = none
  | .flag _ => True

/-! ### Names -/

theorem find_name (opt : Opt) : (Opt.all.find? fun o => o.name == opt.name) = some opt := by
  cases opt <;> decide

theorem find_flag (f : Flag) :
    (Opt.all.find? fun o => o.name == f.name) = none ∧
      (Flag.all.find? fun g => g.name == f.name) = some f := by
  cases f <;> decide

theorem splitInline_name (opt : Opt) : splitInline opt.name = (opt.name, none) := by
  cases opt <;> decide

theorem splitInline_flag (f : Flag) : splitInline f.name = (f.name, none) := by
  cases f <;> decide

theorem splitInline_inline (opt : Opt) (value : Bytes) :
    splitInline (opt.name ++ 0x3d :: value) = (opt.name, some value) := by
  have hdashes : startsWith (str "--") opt.name = true := by cases opt <;> decide
  have hplain : (0x3d : UInt8) ∉ opt.name := by cases opt <;> decide
  obtain ⟨rest, hrest⟩ := startsWith_iff.mp hdashes
  have hstart : startsWith (str "--") (opt.name ++ 0x3d :: value) = true := by
    rw [hrest, List.append_assoc]
    exact startsWith_iff.mpr ⟨_, rfl⟩
  unfold splitInline
  rw [if_pos hstart, find_append hplain]
  simp

/-- An argument is its name, with the value behind it if there is one. -/
theorem eq_of_splitInline {arg name : Bytes} {value : Option Bytes}
    (h : splitInline arg = (name, value)) :
    arg = match value with
      | some value => name ++ 0x3d :: value
      | none => name := by
  unfold splitInline at h
  split at h
  · cases hfind : find 0x3d arg with
    | none =>
        rw [hfind] at h
        obtain ⟨rfl, rfl⟩ := Prod.mk.inj h
        rfl
    | some i =>
        rw [hfind] at h
        obtain ⟨rfl, rfl⟩ := Prod.mk.inj h
        obtain ⟨hi, heq, _⟩ := List.idxOf?_eq_some_iff.mp hfind
        have hdrop := List.drop_eq_getElem_cons hi
        rw [heq] at hdrop
        show arg = arg.take i ++ 0x3d :: arg.drop (i + 1)
        rw [← hdrop, List.take_append_drop]
  · obtain ⟨rfl, rfl⟩ := Prod.mk.inj h
    rfl

/-! ### Lines of items -/

/-- The items of one command line, after those whose options are in `seen`. -/
def Admissible : List Opt → List Item → Prop
  | _, [] => True
  | seen, .valued opt value _ :: rest =>
    (opt.once = true → opt ∉ seen) ∧ value ≠ [] ∧ opt.refuse value = none ∧
      Admissible (if opt.once then opt :: seen else seen) rest
  | seen, .flag _ :: rest => Admissible seen rest

theorem take_eq_ok {opt : Opt} {value : Bytes} {o o' : Options} :
    opt.take value o = .ok o' ↔ value ≠ [] ∧ opt.refuse value = none ∧ o' = opt.store value o := by
  unfold Opt.take
  cases value with
  | nil => simp
  | cons c value =>
      cases hrefuse : opt.refuse (c :: value) with
      | some error => simp
      | none => simp [eq_comm]

theorem bind_eq_ok {α β : Type} {x : Except Bytes α} {f : α → Except Bytes β} {b : β} :
    x.bind f = .ok b ↔ ∃ a, x = .ok a ∧ f a = .ok b := by
  cases x with
  | error e => simp [Except.bind]
  | ok a => simp [Except.bind]

/-- The spelling of admissible items is read as the items say. -/
theorem parseLoop_argv (items : List Item) {seen : List Opt} (o : Options) (h : Admissible seen items) :
    parseLoop seen o (items.flatMap Item.argv) = .ok (items.foldl Item.apply o) := by
  induction items generalizing seen o with
  | nil => rfl
  | cons item rest ih =>
      cases item with
      | valued opt value inline =>
          obtain ⟨honce, hvalue, hrefuse, hrest⟩ := h
          have htake : opt.take value o = .ok (opt.store value o) :=
            take_eq_ok.mpr ⟨hvalue, hrefuse, rfl⟩
          have htwice : (opt.once && seen.contains opt) = false := by
            cases hopt : opt.once with
            | false => rfl
            | true => simpa using honce hopt
          cases inline with
          | true =>
              show parseLoop seen o ((opt.name ++ 0x3d :: value) :: rest.flatMap Item.argv) = _
              simp only [parseLoop, splitInline_inline, find_name, htwice, Bool.false_eq_true, if_false,
                htake]
              exact ih _ hrest
          | false =>
              show parseLoop seen o (opt.name :: value :: rest.flatMap Item.argv) = _
              simp only [parseLoop, splitInline_name, find_name, htwice, Bool.false_eq_true, if_false,
                htake]
              exact ih _ hrest
      | flag f =>
          show parseLoop seen o (f.name :: rest.flatMap Item.argv) = _
          simp only [parseLoop, splitInline_flag, (find_flag f).1, (find_flag f).2, Option.isSome_none,
            Bool.false_eq_true, if_false]
          exact ih _ h

/-- What is read is the spelling of admissible items. -/
theorem argv_of_parseLoop {seen : List Opt} {o o' : Options} {args : List Bytes}
    (h : parseLoop seen o args = .ok o') :
    ∃ items, args = items.flatMap Item.argv ∧ Admissible seen items ∧
      o' = items.foldl Item.apply o := by
  have hname : ∀ {opt : Opt} {name : Bytes},
      (Opt.all.find? fun o => o.name == name) = some opt → name = opt.name :=
    fun hfind => (beq_iff_eq.mp (by simpa using List.find?_some hfind)).symm
  have honce : ∀ {opt : Opt} {seen : List Opt}, ¬(opt.once && seen.contains opt) = true →
      opt.once = true → opt ∉ seen := by
    intro opt seen htwice hopt hmem
    apply htwice
    rw [hopt, Bool.true_and]
    exact List.contains_iff_mem.mpr hmem
  -- the cases of the loop: it ends, it refuses, or it reads one more item and goes on
  induction seen, o, args using parseLoop.induct with
  | case1 seen o =>
      obtain rfl := Except.ok.inj h
      exact ⟨[], rfl, trivial, rfl⟩
  | case2 seen o arg rest name value hsplit opt hfind htwice =>
      simp only [parseLoop, hsplit, hfind, htwice, if_true] at h
      cases h
  -- the value stands behind the `=`
  | case3 seen o arg rest name opt hfind htwice seen' value hsplit ih =>
      simp only [parseLoop, hsplit, hfind, htwice] at h
      obtain ⟨o₁, htake, hrest⟩ := bind_eq_ok.mp h
      obtain ⟨hvalue, hrefuse, rfl⟩ := take_eq_ok.mp htake
      obtain ⟨items, rfl, hitems, rfl⟩ := ih _ hrest
      refine ⟨.valued opt value true :: items, ?_, ⟨honce htwice, hvalue, hrefuse, hitems⟩, rfl⟩
      have harg : arg = name ++ 0x3d :: value := eq_of_splitInline hsplit
      rw [harg, hname hfind]
      rfl
  | case4 seen o arg name opt hfind htwice hsplit =>
      simp only [parseLoop, hsplit, hfind, htwice] at h
      cases h
  -- the value is the next argument
  | case5 seen o arg name opt hfind htwice seen' value rest hsplit ih =>
      simp only [parseLoop, hsplit, hfind, htwice] at h
      obtain ⟨o₁, htake, hrest⟩ := bind_eq_ok.mp h
      obtain ⟨hvalue, hrefuse, rfl⟩ := take_eq_ok.mp htake
      obtain ⟨items, rfl, hitems, rfl⟩ := ih _ hrest
      refine ⟨.valued opt value false :: items, ?_, ⟨honce htwice, hvalue, hrefuse, hitems⟩, rfl⟩
      have harg : arg = name := eq_of_splitInline hsplit
      rw [harg, hname hfind]
      rfl
  | case6 seen o arg rest name value hsplit hfind f hflag hvalue =>
      simp only [parseLoop, hsplit, hfind, hflag, hvalue, if_true] at h
      cases h
  | case7 seen o arg rest name value hsplit hfind f hflag hvalue ih =>
      simp only [parseLoop, hsplit, hfind, hflag, hvalue] at h
      obtain ⟨items, rfl, hitems, rfl⟩ := ih h
      refine ⟨.flag f :: items, ?_, hitems, rfl⟩
      obtain rfl := Option.not_isSome_iff_eq_none.mp hvalue
      have harg : arg = name := eq_of_splitInline hsplit
      have hf : (f.name == name) = true := by simpa using List.find?_some hflag
      rw [harg, ← beq_iff_eq.mp hf]
      rfl
  | case8 seen o arg rest name value hsplit hfind hflag =>
      simp only [parseLoop, hsplit, hfind, hflag] at h
      cases h

/-- The items of a whole command line: no option that may be given once is given twice. -/
theorem admissible_iff {seen : List Opt} {items : List Item} :
    Admissible seen items ↔ (∀ item ∈ items, item.Good) ∧ (items.filterMap Item.once).Nodup ∧
      ∀ opt ∈ items.filterMap Item.once, opt ∉ seen := by
  induction items generalizing seen with
  | nil => simp [Admissible]
  | cons item rest ih =>
      cases item with
      | flag f =>
          rw [Admissible, ih, List.forall_mem_cons, List.filterMap_cons_none rfl]
          simp [Item.Good]
      | valued opt value inline =>
          rw [Admissible, ih, List.forall_mem_cons]
          cases hopt : opt.once with
          | false =>
              rw [List.filterMap_cons_none (by simp [Item.once, hopt])]
              simp only [Bool.false_eq_true, false_implies, if_false, true_and, Item.Good, and_assoc]
          | true =>
              rw [List.filterMap_cons_some (b := opt) (by simp [Item.once, hopt])]
              simp only [if_true, true_implies, Item.Good, List.nodup_cons, List.mem_cons, not_or,
                forall_eq_or_imp]
              constructor
              · rintro ⟨hseen, hvalue, hrefuse, hgood, hnodup, hnot⟩
                exact ⟨⟨⟨hvalue, hrefuse⟩, hgood⟩, ⟨fun hmem => (hnot opt hmem).1 rfl, hnodup⟩, hseen,
                  fun o ho => (hnot o ho).2⟩
              · rintro ⟨⟨⟨hvalue, hrefuse⟩, hgood⟩, ⟨hfresh, hnodup⟩, hseen, hnot⟩
                exact ⟨hseen, hvalue, hrefuse, hgood, hnodup, fun o ho =>
                  ⟨fun heq => hfresh (heq ▸ ho), hnot o ho⟩⟩

/-- **The accepted command lines.** -/
theorem parseArgs_ok_iff (args : List Bytes) (o : Options) :
    parseArgs args = .ok o ↔ ∃ items : List Item, args = items.flatMap Item.argv ∧
      (∀ item ∈ items, item.Good) ∧ (items.filterMap Item.once).Nodup ∧
      o = items.foldl Item.apply {} ∧ o.missing = none := by
  unfold parseArgs
  rw [bind_eq_ok]
  constructor
  · rintro ⟨o₁, hloop, hmissing⟩
    obtain ⟨items, hargs, hitems, hread⟩ := argv_of_parseLoop hloop
    obtain ⟨hgood, hnodup, _⟩ := admissible_iff.mp hitems
    cases hm : o₁.missing with
    | some error =>
        rw [hm] at hmissing
        cases hmissing
    | none =>
        rw [hm] at hmissing
        obtain rfl := Except.ok.inj hmissing
        exact ⟨items, hargs, hgood, hnodup, hread, hm⟩
  · rintro ⟨items, rfl, hgood, hnodup, rfl, hmissing⟩
    refine ⟨_, parseLoop_argv items {} (admissible_iff.mpr ⟨hgood, hnodup, ?_⟩), ?_⟩
    · exact fun _ _ => List.not_mem_nil
    · rw [hmissing]

/-- Both spellings of an option, in any order. -/
example : parseArgs [str "--lidl=m=m.lidl", str "--format", str "openapi", str "--pretty",
    str "--config=c.json"] =
    .ok { configPath := str "c.json", format := .openApi, lidl := [(str "m", str "m.lidl")]
          pretty := true } := by
  decide +kernel

end JsonRpcBridge.DocsCli
