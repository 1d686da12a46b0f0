import TypeCatalog.Catalog.Basic
import TypeCatalog.Library.Classes

/-! # Building and loading caches

    To build a cache is to read the classes of a library, put together with them what their sources
    say, and write them as one document. To load one is to put its classes into a catalog.
-/

set_option autoImplicit false

namespace TypeCatalog

variable {m : Type → Type} [Monad m]

/-- The bytes of a file, or the failure. -/
def Storage.load (s : Storage m) (path : String) : ExceptT Failure m (List UInt8) := do
  match ← s.read path with
  | .ok bytes => return bytes
  | .error fault => throw (.file fault)

/-- Put bytes into a file, or fail. -/
def Storage.save (s : Storage m) (path : String) (bytes : List UInt8) : ExceptT Failure m Unit := do
  match ← s.write path bytes with
  | .ok () => return ()
  | .error fault => throw (.file fault)

namespace Library

/-! ## Section 1: Building -/

/-- The sources below a folder that are there and can be read, for some top-level classes. -/
def readSources (s : Storage m) (base : String) : List String → m Sources
  | [] => return []
  | name :: rest => do
    let found ← s.read (sourcePath base name)
    let others ← readSources s base rest
    match found.toOption.bind readSource? with
    | some u => return (name, u) :: others
    | none => return others

/-- Classes with what the sources below a folder say about them, if there is one. -/
def addSources (s : Storage m) (base : Option String) (classes : List CompiledClass) :
    m (List CompiledClass) := do
  match base with
  | none => return classes
  | some base =>
    let sources ← readSources s base (topLevelNames classes)
    return classes.map (annotate sources)

/-- A catalog of the given classes and no others. -/
def catalogOf (classes : List CompiledClass) : Catalog := (Catalog.empty.extend classes).1

/-- Write the cache of a library, and give its catalog. -/
def build (s : Storage m) (library : String) (sources : Option String) (cache : String) :
    ExceptT Failure m Catalog := do
  let bytes ← s.load library
  let bare ← classesAt library bytes
  let found ← ExceptT.lift (addSources s sources bare)
  s.save cache (documentOf found)
  return catalogOf found

/-- A platform of a software development kit. -/
structure Platform where
  /-- The name of the platform. -/
  name : String
  /-- The folder of the kit, if it is given. -/
  root : Option String
  deriving DecidableEq, Repr

/-- The folder of the kit: the given one, or else the one that the environment names. -/
def Platform.folder (p : Platform) (environment : Option String) : Except Failure String :=
  match p.root.or environment with
  | some root => .ok root
  | none => .error (.settings (.missing "sdk_root"))

/-- Write the cache of a platform, and give its catalog. -/
def buildPlatform (s : Storage m) (p : Platform) (environment : Option String) (cache : String) :
    ExceptT Failure m Catalog := do
  let root ← p.folder environment
  build s (platformLibrary root p.name) (some (platformSources root p.name)) cache

/-! ## Section 2: Loading -/

/-- Put the classes of a cache into a catalog. -/
def load (s : Storage m) (cache : String) (libraries : Option (List String)) (c : Catalog) :
    ExceptT Failure m Catalog := do
  let bytes ← s.load cache
  let classes ← cachedClasses cache bytes libraries
  return (c.extend classes).1

end Library

end TypeCatalog
