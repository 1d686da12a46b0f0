import TypeCatalog.Command.Invocation
import TypeCatalog.Library.Load
import TypeCatalog.Member
import TypeCatalog.Settings.File

/-! # Running commands

    What the program prints and with which status it ends. A command runs on a host, which has
    files, variables and a clock; everything it prints is collected, so the same command can be run
    on a machine and on a directory that is only a value.
-/

set_option autoImplicit false

namespace TypeCatalog

/-- What a command runs on. -/
structure Host (m : Type → Type) where
  storage : Storage m
  /-- The value of a variable of the environment. -/
  environment : String → m (Option String)
  /-- The milliseconds since some point in time. -/
  clock : m Nat

/-- What a program leaves behind apart from files. -/
structure Report where
  status : Nat
  output : String
  errors : String
  deriving DecidableEq, Repr, Inhabited

/-- Why a command stops. -/
inductive Trouble where
  | failure (f : Failure)
  /-- The type to show is not in the cache. -/
  | unknownType (name : String)

namespace Command

/-! ## Section 1: What is printed -/

/-- Lines as a text. -/
def linesText (lines : List String) : String := String.join (lines.map (· ++ "\n"))

/-- A bound of a type variable to show. -/
def boundLabel (b : Bound) : String := b.kind.label ++ " " ++ b.signature

/-- A type variable to show. -/
def variableLabel (v : TypeVariable) : String :=
  v.name ++ ": " ++ ", ".intercalate (v.bounds.map boundLabel)

/-- The parts of a generic signature to show. -/
def signatureLines (d : ClassSignature) : List String :=
  d.typeVariables.map variableLabel ++ d.supertypes.map ("super " ++ ·) ++ [d.text]

/-- A class type to show. -/
def typeLines (c : Catalog) (t : ClassType) : List String :=
  let d := t.declaration
  [d.modifiers.label ++ d.kind.label ++ " " ++ d.name.fullyDotted] ++
    (c.supertypes t).map (fun s => "  : " ++ s.fullName) ++
    d.fields.map (fun f => "  " ++ f.label c t) ++
    d.constructors.map (fun m => "  " ++ m.label c t) ++
    d.methods.map (fun m => "  " ++ m.label c t)

/-- A class file as it stands in caches. -/
def classText (c : CompiledClass) (isIndented : Bool) : String :=
  let value := Cache.ofClass c
  if isIndented then value.toIndented else value.toCompact

/-- What a written cache is reported with. -/
def builtLine (count : Nat) (cache : String) (elapsed : Nat) : String :=
  "✅ Wrote " ++ toString count ++ " types to " ++ cache ++ " in " ++ toString elapsed ++ "ms"

/-- What a loaded cache is reported with. -/
def loadedLine (c : Catalog) (elapsed : Nat) : String :=
  "Loaded " ++ toString c.size ++ " types from " ++ toString c.packages.length ++ " packages in "
    ++ toString elapsed ++ "ms"

/-- A failure to show. -/
def failureText (before : String) (f : Failure) : String :=
  linesText ["❌ " ++ before ++ f.friendly, "💡 " ++ f.suggestion]

/-- Trouble to show. -/
def Trouble.text : Trouble → String
  | .failure f => failureText "" f
  | .unknownType name => linesText ["❌ type " ++ name ++ " is not in the cache"]

/-! ## Section 2: Commands -/

variable {m : Type → Type} [Monad m]

/-- What a command prints, and the trouble that stopped it. -/
abbrev Outcome := String × Option Trouble

/-- What is printed if nothing fails. -/
def outcomeOf (result : Except Failure Outcome) : Outcome :=
  match result with
  | .ok outcome => outcome
  | .error f => ("", some (.failure f))

/-- An outcome without trouble. -/
def printed (lines : List String) : Outcome := (linesText lines, none)

/-- A part of settings as a step that may fail. -/
def fromSettings {α : Type} (result : Except Settings.Fault α) : Except Failure α :=
  result.mapError .settings

/-- Show a class file. -/
def runDecode (host : Host m) (file : String) (isIndented : Bool) : ExceptT Failure m Outcome := do
  let bytes ← host.storage.load file
  match ClassFile.decode bytes with
  | .ok c => return printed [classText c isIndented]
  | .error fault => throw (.classFile fault)

/-- Write a cache with given settings. -/
def runBuild (host : Host m) (settings : Settings) (library sources : Option String) :
    ExceptT Failure m Outcome := do
  fromSettings settings.check
  let cache ← fromSettings (Settings.required "output" settings.cache)
  let start ← host.clock
  let c ← match library with
    | some library => Library.build host.storage library sources cache
    | none => do
      let platform ← fromSettings (Settings.required "api" settings.platform)
      let root ← host.environment Library.rootVariable
      Library.buildPlatform host.storage ⟨platform, settings.root⟩ root cache
  let stop ← host.clock
  return printed [builtLine c.size cache (stop - start)]

/-- The part of a catalog that is asked for. -/
def shown (c : Catalog) (before : String) (name : String) : Outcome :=
  match c.findByName? name with
  | some t => (linesText (before :: typeLines c t), none)
  | none => (linesText [before], some (.unknownType name))

/-- Load a cache with given settings. -/
def runLoad (host : Host m) (settings : Settings) (type : Option String) :
    ExceptT Failure m Outcome := do
  fromSettings settings.check
  let cache ← fromSettings (Settings.required "cache" settings.cache)
  let libraries := if settings.libraries.isEmpty then none else some settings.libraries
  let start ← host.clock
  let c ← Library.load host.storage cache libraries .empty
  let stop ← host.clock
  let line := loadedLine c (stop - start)
  match type with
  | some name => return shown c line name
  | none => return printed [line]

/-- Show the parts of a signature. -/
def runSignature (text : String) : Except Failure Outcome :=
  match ClassSignature.parse text with
  | .ok d => .ok (printed (signatureLines d))
  | .error e => .error (.signature e)

/-- Run a command with what a settings file says. -/
def runCommand (host : Host m) (file : Option SettingsFile) (command : Command) :
    ExceptT Failure m Outcome := do
  if let some file := file then
    fromSettings file.check
  let other := (file.map SettingsFile.toSettings).getD .empty
  match command with
  | .decode path isIndented => runDecode host path isIndented
  | .build library sources platform root output =>
    runBuild host (Settings.orFrom ⟨root, platform, output, []⟩ other) library sources
  | .load cache libraries type =>
    runLoad host (Settings.orFrom ⟨none, none, cache, libraries⟩ other) type
  | .signature text => runSignature text

/-! ## Section 3: The program -/

/-- The values of the variables that a text refers to. -/
def lookupAll (host : Host m) : List String → m (List (String × String))
  | [] => return []
  | name :: rest => do
    let value ← host.environment name
    let others ← lookupAll host rest
    return (value.map fun v => (name, v)).toList ++ others

/-- What a settings file says. -/
def readSettings (host : Host m) (path : String) : ExceptT Failure m SettingsFile := do
  let bytes ← host.storage.load path
  match Text.Utf8.decode? bytes with
  | none => throw (.file .notText)
  | some text => do
    let text := String.ofList text
    let values ← ExceptT.lift (lookupAll host (Settings.variableNames text))
    fromSettings (SettingsFile.parse (fun name => List.lookup name values) text)

/-- What the settings file of an invocation says, if there is one. -/
def settingsOf (host : Host m) (i : Invocation) : ExceptT Failure m (Option SettingsFile) := do
  match i.settingsFile with
  | some path => return some (← readSettings host path)
  | none => return none

/-- The report of an outcome. -/
def reportOf (outcome : Outcome) : Report :=
  match outcome.2 with
  | none => ⟨0, outcome.1, ""⟩
  | some trouble => ⟨1, outcome.1, Trouble.text trouble⟩

/-- Run an invocation. -/
def run (host : Host m) (i : Invocation) : m Report := do
  match ← (settingsOf host i).run with
  | .error f => return ⟨1, "", failureText "Failed to load config file: " f⟩
  | .ok file => do
    let result ← (runCommand host file i.command).run
    return reportOf (outcomeOf result)

/-- How the program is called. -/
def usageText : String := linesText [
  "Usage: java-typeinfo [OPTIONS] <COMMAND>",
  "",
  "Commands:",
  "  decode <CLASS_FILE> [--pretty]",
  "  build-cache [--jar JAR [--sources DIR]] [--api API] [--sdk-root DIR] [-o FILE]",
  "  load [CACHE] [--filter LIBRARY,...] [--type NAME]",
  "  signature <SIGNATURE>",
  "",
  "Options:",
  "  -c, --config <CONFIG>  Path to an optional TOML settings file",
  "  -v, --verbose          Enable verbose output",
  "      --json-logs        Log as JSON lines",
  "  -h, --help             Print help"]

/-- Run the program with the given arguments. -/
def execute (host : Host m) (arguments : List String) : m Report :=
  match parse arguments with
  | .ok i => run host i
  | .error .help => return ⟨0, usageText, ""⟩
  | .error .wrong => return ⟨2, "", usageText⟩

end Command

end TypeCatalog
