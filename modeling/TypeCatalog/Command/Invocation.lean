import TypeCatalog.Command.Arguments

/-! # Invocations

    The four commands of the program with what they take, and the invocation that arguments are.
-/

set_option autoImplicit false

namespace TypeCatalog

/-- A command. -/
inductive Command where
  /-- Show a class file as it stands in caches. -/
  | decode (file : String) (isIndented : Bool)
  /-- Write the cache of a library, or of a platform if there is no library. -/
  | build (library sources platform root output : Option String)
  /-- Load a cache and show how much it holds, or one of its types. -/
  | load (cache : Option String) (libraries : List String) (type : Option String)
  /-- Show the parts of the generic signature of a class. -/
  | signature (text : String)
  deriving DecidableEq, Repr

/-- A command with the settings file to use. -/
structure Invocation where
  settingsFile : Option String
  command : Command
  deriving DecidableEq, Repr

namespace Command

/-! ## Section 1: What the commands take -/

/-- The options that the program takes before and after a command. -/
def commonOptions : List OptionForm :=
  [⟨"config", some 'c', .path⟩, ⟨"verbose", some 'v', .flag⟩, ⟨"json-logs", none, .flag⟩]

/-- What the program takes before a command. -/
def programShape : Shape := ⟨commonOptions, []⟩

/-- What is taken to show a class file. -/
def decodeShape : Shape :=
  ⟨commonOptions ++ [⟨"pretty", none, .flag⟩], [⟨"class_file", .path, true⟩]⟩

/-- What is taken to write a cache. -/
def buildShape : Shape :=
  ⟨commonOptions ++
    [⟨"jar", none, .text⟩, ⟨"sources", none, .text⟩, ⟨"api", none, .text⟩,
      ⟨"sdk-root", none, .path⟩, ⟨"output", some 'o', .text⟩], []⟩

/-- What is taken to load a cache. -/
def loadShape : Shape :=
  ⟨commonOptions ++ [⟨"filter", none, .list⟩, ⟨"type", none, .text⟩], [⟨"cache", .text, false⟩]⟩

/-- What is taken to show the parts of a signature. -/
def signatureShape : Shape := ⟨commonOptions, [⟨"signature", .text, true⟩]⟩

/-! ## Section 2: Commands from what was found -/

/-- The command to show a class file. -/
def decodeOf (found : Found) : Except Usage Command :=
  match found.get? "class_file" with
  | some file => .ok (.decode file (found.has "pretty"))
  | none => .error .wrong

/-- The command to write a cache. Sources go with a library only. -/
def buildOf (found : Found) : Except Usage Command :=
  if found.has "sources" ∧ ¬ found.has "jar" then .error .wrong
  else
    .ok (.build (found.get? "jar") (found.get? "sources") (found.get? "api")
      (found.get? "sdk-root") (found.get? "output"))

/-- The command to load a cache. -/
def loadOf (found : Found) : Except Usage Command :=
  .ok (.load (found.get? "cache") (found.all "filter") (found.get? "type"))

/-- The command to show the parts of a signature. -/
def signatureOf (found : Found) : Except Usage Command :=
  match found.get? "signature" with
  | some text => .ok (.signature text)
  | none => .error .wrong

/-- What a command takes, and how it comes from what was found. -/
structure CommandForm where
  name : String
  shape : Shape
  make : Found → Except Usage Command

/-- The commands by name. -/
def forms : List CommandForm :=
  [⟨"decode", decodeShape, decodeOf⟩, ⟨"build-cache", buildShape, buildOf⟩,
    ⟨"load", loadShape, loadOf⟩, ⟨"signature", signatureShape, signatureOf⟩]

/-- The command of a name. -/
def form? (name : String) : Option CommandForm := forms.find? fun f => f.name == name

/-! ## Section 3: Invocations -/

/-- What to say about the names after the word `help`. -/
def helpAbout (names : List String) : Usage :=
  match names with
  | [] => .help
  | [name] => if (form? name).isSome || name = "help" then .help else .wrong
  | _ => .wrong

/-- The invocation by a command name and the arguments after it, with what was found before. -/
def invoke (before : Found) (name : String) (arguments : List String) :
    Except Usage Invocation :=
  match form? name with
  | none => .error (if name = "help" then helpAbout arguments else .wrong)
  | some form => do
    let (found, _) ← readArguments form.shape false [] arguments
    let command ← form.make found
    return ⟨(found.get? "config").or (before.get? "config"), command⟩

/-- The invocation that arguments are. -/
def parse (arguments : List String) : Except Usage Invocation := do
  match ← readArguments programShape true [] arguments with
  | (_, []) => throw .wrong
  | (before, name :: rest) => invoke before name rest

end Command

end TypeCatalog
