import JsonRpcBridge.Discovery.Offline
import JsonRpcBridge.Docs.Snapshot
import JsonRpcBridge.DocsCli.Args

/-!
# `json-rpc-bridge-docs`

`tools/json_rpc_bridge_docs.cpp` prints what a bridge started with a configuration serves for some
contracts, without starting one; `tools/contract_sources.cpp` reads the contracts. The files, and
what the library for packages makes of one, are in `Host`.
-/

namespace JsonRpcBridge.DocsCli

/-! ## Contract sources

A contract is read from a file, a directory of files or a package. A file that is longer than it
may be is an error, not a shorter contract. -/

/-- What the file system says of a path. `broken` says that a read fails after these bytes. -/
inductive Node where
  | missing
  | notRegular
  | closed
  | file (data : Bytes) (broken : Bool)

inductive ReadStatus where
  | missing
  | tooLarge
  | failed
  deriving DecidableEq

/-- The chunks in which the file is read do not matter: its size is checked after each. -/
def readContractFile (maxBytes : Nat) : Node → Except (ReadStatus × Bytes) Bytes
  | .missing => .error (.missing, str "no such file")
  | .notRegular => .error (.failed, str "not a regular file")
  | .closed => .error (.failed, str "cannot be opened")
  | .file data broken =>
    if data.length > maxBytes then
      .error (.tooLarge, str "larger than " ++ toStr (maxBytes / (1024 * 1024)) ++ str " MiB")
    else if broken then .error (.failed, str "cannot be read")
    else .ok data

/-- What the library says of a package: it is refused, or its `assets/lidl/` holds these files, by
name and in the order of their names. -/
inductive Package where
  | refused (error : Bytes)
  | assets (files : List (Bytes × Node))

/-- The contracts of a package, and why the others were not read. -/
structure LgxContracts where
  lidl : List (Bytes × Bytes) := []
  refused : List (Bytes × Bytes) := []

def readLgxContracts (maxBytes : Nat) : Package → Except Bytes LgxContracts
  | .refused error => .error error
  | .assets files =>
    .ok
      { lidl := files.filterMap fun f => (readContractFile maxBytes f.2).toOption.map fun t => (f.1, t)
        refused := files.filterMap fun f =>
          match readContractFile maxBytes f.2 with
          | .ok _ => none
          | .error (_, why) => some (f.1, why) }

/-! ## The program

The steps of the source in its order. A step that fails stops the run with a code and a message;
warnings before it stay on stderr. -/

/-- Where output goes: everything is taken, or only so many bytes. -/
inductive Sink where
  | whole
  | short (n : Nat)

/-- What the program is run with. `indented` is `dump` with an indent of two. -/
structure Host where
  node : Bytes → Node
  isDirectory : Bytes → Bool := fun _ => false
  package : Bytes → Package := fun _ => .refused []
  stdout : Sink := .whole
  /-- `none` when the file cannot be opened for writing. -/
  create : Bytes → Option Sink := fun _ => some .whole
  indented : Json → Bytes := fun _ => []
  lidlReaderVersion : Bytes := []
  lgxLibraryVersion : Bytes := []

/-- What a run leaves: the exit code, both streams, and the file that was written. -/
structure Session where
  code : Nat
  out : Bytes := []
  err : Bytes := []
  file : Option (Bytes × Bytes) := none

def exitOk : Nat := 0
def exitUsage : Nat := 2
def exitConfig : Nat := 3
def exitInput : Nat := 4
def exitUntyped : Nat := 5
def exitWrite : Nat := 6

def kProgram : Bytes := str "json-rpc-bridge-docs"

def kMaxConfigBytes : Nat := 16 * 1024 * 1024

def kUsageText : Bytes := str
  "usage: json-rpc-bridge-docs --config PATH --format openrpc|openapi|asyncapi|schema|interface
                            [--module NAME]
                            (--lidl NAME=FILE | --lidl-dir DIR | --lgx FILE)...
                            [--server-host H] [--server-port P] [--info-version V]
                            [--allow-untyped] [--out PATH] [--pretty]
       json-rpc-bridge-docs --version

Prints what a json_rpc_bridge started with this config serves for these contracts,
treating every module as resolved and consistent with them:
  openrpc     the rpc.discover result
  openapi     GET /openapi.json
  asyncapi    GET /asyncapi.json
  schema      the rpc.schema view of --module, or the rpc.list_modules views
  interface   --module's interface as canonical JSON: its sha256 is interface_sha256

  --module NAME       only this exposed module; interface needs it when the config
                      exposes more than one
  --lidl NAME=FILE    NAME's canonical contract, as its #lidl build writes it
  --lidl-dir DIR      DIR/<name>.lidl for each exposed module found there
  --lgx FILE          a package's assets/lidl/<name>.lidl, read through logos-package;
                      the package must carry the contract of a module being rendered
  --server-host H     the host the documents name (default: the config's http.host)
  --server-port P     the port the documents name (default: the config's http.port)
  --info-version V    info.version (default: this bridge's version)
  --allow-untyped     leave out exposed modules that have no contract
  --out PATH          write there instead of to stdout
  --pretty            indent, and end with a newline

Exit codes: 0 ok, 2 usage, 3 config rejected, 4 contract unreadable or invalid,
5 an exposed module has no contract, 6 output not written.
"

/-! ### Stops and warnings -/

/-- Why a run stops early. -/
inductive Stop where
  | usage (message : Bytes)
  | fail (code : Nat) (message : Bytes)

def Stop.code : Stop → Nat
  | .usage _ => exitUsage
  | .fail code _ => code

/-- `usage` and `fail`: what they print. -/
def Stop.text : Stop → Bytes
  | .usage message =>
    kProgram ++ str ": " ++ message ++ str "\n" ++ str "Try '" ++ kProgram ++ str " --help'.\n"
  | .fail _ message => kProgram ++ str ": " ++ message ++ str "\n"

/-- `warn`: what it prints. -/
def warning (message : Bytes) : Bytes := kProgram ++ str ": warning: " ++ message ++ str "\n"

/-- One place a module's contract came from. -/
structure Candidate where
  source : Bytes
  text : Bytes

/-- A module to be rendered; `candidate` is where its contract came from. -/
structure Resolved where
  em : ExposedModule
  candidate : Candidate
  view : ModuleView

/-- `operator/` of two paths. -/
def joinPath (dir file : Bytes) : Bytes :=
  if startsWith (str "/") file then file
  else if dir.isEmpty || dir.getLast? == some 0x2f then dir ++ file
  else dir ++ str "/" ++ file

/-- Some texts with a separator between them. -/
def joined (sep : Bytes) : List Bytes → Bytes
  | [] => []
  | [t] => t
  | t :: ts => t ++ sep ++ joined sep ts

section

variable (lib : Nlohmann) (reader : ContractReader) (host : Host) (bridgeVersion : Bytes)

/-! ### Inputs

The configuration, then the selection of modules, then the packages and directories that are
named. -/

def loadConfig (o : Options) : Except Stop BridgeConfig :=
  match readContractFile kMaxConfigBytes (host.node o.configPath) with
  | .error (_, why) =>
    .error (.fail exitConfig (str "config rejected: " ++ o.configPath ++ str ": " ++ why))
  | .ok text =>
    match parseBridgeConfig lib (str "json_rpc_bridge") text with
    | .error error => .error (.fail exitConfig (str "config rejected: " ++ error))
    | .ok cfg => .ok cfg

/-- The check of `--lidl`, option by option. -/
def checkLidl (cfg : BridgeConfig) : (named : List Bytes) → List (Bytes × Bytes) → Except Stop Unit
  | _, [] => .ok ()
  | named, l :: rest =>
    if (cfg.find l.1).isNone then
      .error (.usage (str "--lidl names '" ++ l.1 ++ str "', which the config does not expose"))
    else if named.contains l.1 then .error (.usage (str "--lidl names '" ++ l.1 ++ str "' twice"))
    else checkLidl cfg (l.1 :: named) rest

def selectModules (cfg : BridgeConfig) (o : Options) : Except Stop (List ExposedModule) :=
  if o.module.isEmpty then .ok cfg.modules
  else
    match cfg.find o.module with
    | none => .error (.usage (str "--module " ++ o.module ++ str " is not exposed by the config"))
    | some em => .ok [em]

def select (cfg : BridgeConfig) (o : Options) : Except Stop (List ExposedModule) := do
  let selected ← selectModules cfg o
  if o.format = .interface ∧ selected.length ≠ 1 then
    .error (.usage (str "--format interface renders one module: pass --module"))
  else
    checkLidl cfg [] o.lidl
    return selected

/-- `m1, m2 or m3`. -/
def selectedNames (selected : List ExposedModule) : Bytes :=
  match selected.map (·.name) |>.reverse with
  | [] => []
  | [last] => last
  | last :: before => joined (str ", ") before.reverse ++ str " or " ++ last

/-- The packages, each with its contracts. -/
def readPackages (selected : List ExposedModule) : List Bytes → Except Stop (List (Bytes × LgxContracts))
  | [] => .ok []
  | path :: rest =>
    match readLgxContracts kMaxContractBytes (host.package path) with
    | .error error => .error (.fail exitInput (path ++ str ": " ++ error))
    | .ok c =>
      let useful := selected.any fun em =>
        (c.lidl.lookup em.name).isSome || (c.refused.lookup em.name).isSome
      if !useful then
        .error (.fail exitInput (path ++ str ": carries no contract for " ++ selectedNames selected ++
          str " (assets/lidl has " ++
          (if c.lidl.isEmpty then str "none" else joined (str ", ") (c.lidl.map Prod.fst)) ++ str ")"))
      else (readPackages selected rest).map ((path, c) :: ·)

def checkDirs (dirs : List Bytes) : Except Stop Unit :=
  match dirs.find? fun dir => !host.isDirectory dir with
  | some dir => .error (.fail exitInput (dir ++ str ": not a directory"))
  | none => .ok ()

/-- The `read` of `candidates`. A file that is missing where it may be is passed over. -/
def readCandidate (module path : Bytes) (optional : Bool) : Except Stop (Option Candidate) :=
  match readContractFile kMaxContractBytes (host.node path) with
  | .ok text => .ok (some ⟨path, text⟩)
  | .error (status, why) =>
    if optional && decide (status = .missing) then .ok none
    else .error (.fail exitInput (module ++ str ": " ++ path ++ str ": " ++ why))

/-- What a package has for a module. -/
def packageCandidate (module : Bytes) (p : Bytes × LgxContracts) : Except Stop (Option Candidate) :=
  let source := p.1 ++ str ": assets/lidl/" ++ module ++ str ".lidl"
  match p.2.refused.lookup module with
  | some why => .error (.fail exitInput (module ++ str ": " ++ source ++ str ": " ++ why))
  | none => .ok ((p.2.lidl.lookup module).map fun text => ⟨source, text⟩)

/-- What the reads found; the first that fails decides. -/
def collect : List (Except Stop (Option Candidate)) → Except Stop (List Candidate)
  | [] => .ok []
  | .error stop :: _ => .error stop
  | .ok c :: rest => (collect rest).map (c.toList ++ ·)

/-! ### Modules

For each selected module all its contracts are read before one of them is taken. -/

/-- Every source that has this module's contract. -/
def candidates (o : Options) (packages : List (Bytes × LgxContracts)) (module : Bytes) :
    Except Stop (List Candidate) :=
  collect
    (((o.lidl.filter fun l => l.1 == module).map fun l => readCandidate host module l.2 false) ++
      (o.lidlDirs.map fun dir =>
        readCandidate host module (joinPath dir (module ++ str ".lidl")) true) ++
      packages.map (packageCandidate module))

/-- One module, once its contracts are read: its view, and the warnings about it. -/
def resolveFound (em : ExposedModule) (first : Candidate) (others : List Candidate) :
    Except Stop (Resolved × List Bytes) :=
  match others.find? fun c => c.text != first.text with
  | some c =>
    .error (.fail exitInput (em.name ++ str ": " ++ first.source ++ str " and " ++ c.source ++
      str " differ"))
  | none =>
    -- what discovery checks of a lidl() answer before reading it
    if !isValidUtf8 first.text then
      .error (.fail exitInput (em.name ++ str ": " ++ first.source ++ str ": not valid UTF-8"))
    else
      let v := offlineView lib reader em first.text
      if !v.ok then .error (.fail exitInput (em.name ++ str ": " ++ first.source ++ str ": " ++ v.error))
      else
        .ok (⟨em, first, v.view⟩, v.warnings.map fun w =>
          warning (em.name ++ str ": " ++ first.source ++ str ": " ++
            (if w == str "non_canonical" then str "not in canonical form (lidl fmt)" else w)))

/-- One module; `none` leaves it out. -/
def resolveModule (o : Options) (packages : List (Bytes × LgxContracts)) (em : ExposedModule) :
    Except Stop (Option Resolved × List Bytes) :=
  match candidates host o packages em.name with
  | .error stop => .error stop
  | .ok [] =>
    let single := o.format = .interface ∨ (o.format = .schema ∧ !o.module.isEmpty)
    if o.allowUntyped ∧ ¬single then
      .ok (none, [warning (em.name ++ str ": no contract; left out (--allow-untyped)")])
    else
      .error (.fail exitUntyped (em.name ++ str ": no contract given; offline, an untyped module cannot be described (--allow-untyped leaves it out)"))
  | .ok (first :: others) => (resolveFound lib reader em first others).map fun r => (some r.1, r.2)

/-- What the modules come to, and the warnings printed on the way. -/
def resolveModules (o : Options) (packages : List (Bytes × LgxContracts)) :
    List ExposedModule → List Bytes × Except Stop (List Resolved)
  | [] => ([], .ok [])
  | em :: rest =>
    match resolveModule lib reader host o packages em with
    | .error stop => ([], .error stop)
    | .ok (r, warnings) =>
      let (later, rs) := resolveModules o packages rest
      (warnings ++ later, rs.map (r.toList ++ ·))

def dumped (o : Options) (doc : Json) : Bytes :=
  if o.pretty then host.indented doc ++ str "\n" else lib.textReplacing doc

/-- The configuration with the endpoint that the documents are to name. -/
def shown (cfg : BridgeConfig) (o : Options) : BridgeConfig :=
  { cfg with
    host := if o.serverHost.isEmpty then cfg.host else o.serverHost
    port := if o.serverPort = 0 then cfg.port else o.serverPort }

/-! ### Output -/

/-- The text to be written; the strict `dump` of `canonicalJson` may throw. -/
def render (cfg : BridgeConfig) (o : Options) (rs : List Resolved) : Except JsonError Bytes :=
  if o.format.isDocument then
    let version := if o.infoVersion.isEmpty then bridgeVersion else o.infoVersion
    let ctx := Docs.docContext (shown cfg o) version (rs.map (·.view))
    if o.format = .openRpc then .ok (dumped lib host o (Docs.buildOpenRpc ctx))
    else if o.format = .openApi then .ok (dumped lib host o (Docs.buildOpenApi ctx))
    else .ok (dumped lib host o (Docs.buildAsyncApi ctx))
  else if o.format = .interface then
    match rs.head?.bind fun r => r.view.contract with
    | none => .ok []
    | some c => if o.pretty then .ok (dumped lib host o c.interface) else lib.dump c.interface
  else if !o.module.isEmpty then
    match rs.head? with
    | none => .ok []
    | some r => .ok (dumped lib host o (describeView r.em r.view))
  else .ok (dumped lib host o (.arr (rs.map fun r => listView r.em r.view)))

/-- `write`; what was printed to `err` before stays. -/
def write (o : Options) (err text : Bytes) : Session :=
  let failed (message : Bytes) : Bytes := err ++ (Stop.fail exitWrite message).text
  if o.outPath.isEmpty then
    match host.stdout with
    | .whole => { code := exitOk, out := text, err }
    | .short n => { code := exitWrite, out := text.take n, err := failed (str "stdout: write failed") }
  else
    match host.create o.outPath with
    | some .whole => { code := exitOk, err, file := some (o.outPath, text) }
    | some (.short n) =>
      { code := exitWrite, err := failed (o.outPath ++ str ": cannot be written")
        file := some (o.outPath, text.take n) }
    | none => { code := exitWrite, err := failed (o.outPath ++ str ": cannot be written") }

def Stop.session (stop : Stop) (err : Bytes) : Session := { code := stop.code, err := err ++ stop.text }

/-- Everything before the output: the warnings, and what is to be rendered. -/
def gather (o : Options) : List Bytes × Except Stop (BridgeConfig × List Resolved) :=
  let before : Except Stop (BridgeConfig × List ExposedModule × List (Bytes × LgxContracts)) := do
    let cfg ← loadConfig lib host o
    let selected ← select cfg o
    let packages ← readPackages host selected o.packages
    checkDirs host o.lidlDirs
    return (cfg, selected, packages)
  match before with
  | .error stop => ([], .error stop)
  | .ok (cfg, selected, packages) =>
    let (warnings, rs) := resolveModules lib reader host o packages selected
    (warnings, rs.map fun rs => (cfg, rs))

/-- `runDocsCli`. An exception ends the run as well; its text is the library's. -/
def runDocsCli (args : List Bytes) : Session :=
  match parseArgs args with
  | .error error => (Stop.usage error).session []
  | .ok o =>
    if o.help then { code := exitOk, out := kUsageText }
    else if o.version then
      { code := exitOk
        out := kProgram ++ str " " ++ bridgeVersion ++ str " (" ++ host.lidlReaderVersion ++ str ", " ++
          host.lgxLibraryVersion ++ str ")\n" }
    else
      let (warnings, gathered) := gather lib reader host o
      match gathered with
      | .error stop => stop.session warnings.flatten
      | .ok (cfg, rs) =>
        match render lib host bridgeVersion cfg o rs with
        | .error _ => (Stop.fail exitInput []).session warnings.flatten
        | .ok text => write host o warnings.flatten text

end

end JsonRpcBridge.DocsCli
