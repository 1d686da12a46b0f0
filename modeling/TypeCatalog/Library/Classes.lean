import TypeCatalog.Archive.Format
import TypeCatalog.Cache.Entry
import TypeCatalog.ClassFile.Reader
import TypeCatalog.Failure
import TypeCatalog.Json.Reader
import TypeCatalog.Json.Writer
import TypeCatalog.Library.Manifest
import TypeCatalog.Library.Names
import TypeCatalog.Source.Annotate
import TypeCatalog.Source.Reader

/-! # Classes of libraries and of caches

    The classes that a library holds, with what their sources say about them, and the classes that
    the documents of a cache hold. Nothing here reads or writes files.
-/

set_option autoImplicit false

namespace TypeCatalog.Library

/-! ## Section 1: Archives -/

/-- The failure that a fault of an entry is. -/
def entryFailure : EntryFault → Failure
  | .missing => .archive
  | .locked => .archive
  | .unsupported => .archive
  | .damaged => .file .checksum

/-- The archive that bytes are. -/
def openArchive (bytes : List UInt8) : Except Failure Archive :=
  match Archive.read bytes with
  | some archive => .ok archive
  | none => .error .archive

/-- The content of an entry. -/
def contentOf (e : ArchiveEntry) : Except Failure (List UInt8) :=
  e.content.mapError entryFailure

/-- The content of the first entry of a name. -/
def contentNamed (archive : Archive) (name : String) : Except Failure (List UInt8) :=
  match Archive.find? archive name with
  | some e => contentOf e
  | none => .error .archive

/-- The contents of the files whose names are wanted, in order. The other entries are opened as
    well. -/
def contentsOf (archive : Archive) (wanted : String → Bool) :
    Except Failure (List (List UInt8)) :=
  match archive with
  | [] => .ok []
  | e :: rest =>
    if e.isFile && wanted e.name then do
      let bytes ← contentOf e
      return bytes :: (← contentsOf rest wanted)
    else do
      let _ ← e.opened.mapError entryFailure
      contentsOf rest wanted

/-! ## Section 2: Libraries -/

/-- The name of the library inside a bundle. -/
def bundledName : String := "classes.jar"

/-- The library inside a bundle. -/
def bundledLibrary (bundle : List UInt8) : Except Failure (List UInt8) := do
  let archive ← openArchive bundle
  match List.find? (fun e : ArchiveEntry => e.name.endsWith bundledName) archive with
  | some e => contentOf e
  | none => .error (.layout .noClasses)

/-- Classes in the order of their names. -/
def sortByName (classes : List CompiledClass) : List CompiledClass :=
  classes.mergeSort fun a b => decide (a.name ≤ b.name)

/-- The class that bytes are, if they are one. -/
def decode? (bytes : List UInt8) : Option CompiledClass := (ClassFile.decode bytes).toOption

/-- The classes of a library by their names. An entry that is no class file is passed over. -/
def classes (library : List UInt8) : Except Failure (List CompiledClass) := do
  let archive ← openArchive library
  let contents ← contentsOf archive isClassEntry
  return sortByName (contents.filterMap decode?)

/-- The classes of the library at a path, which is a bundle if the path says so. -/
def classesAt (path : String) (bytes : List UInt8) : Except Failure (List CompiledClass) := do
  let library ← if Path.hasSuffix ".aar" path then bundledLibrary bytes else .ok bytes
  classes library

/-! ## Section 3: Sources -/

/-- Source files by the names of their top-level classes. -/
abbrev Sources := List (String × Source.SourceUnit)

/-- The names of the top-level classes among and around classes. -/
def topLevelNames (classes : List CompiledClass) : List String :=
  (classes.map fun c => topLevelName c.name).eraseDups

/-- The declarations in the bytes of a source file, if it can be read. -/
def readSource? (bytes : List UInt8) : Option Source.SourceUnit :=
  (Source.SourceUnit.parse (String.ofList (Text.Utf8.decodeLossy bytes))).toOption

/-- A class with what its source says about it. -/
def annotate (sources : Sources) (c : CompiledClass) : CompiledClass :=
  match (List.lookup (topLevelName c.name) sources).bind fun u => u.findType? c.name with
  | some t => t.annotate c
  | none => c

/-! ## Section 4: Caches -/

/-- The document of a cache that holds the given classes. -/
def documentOf (classes : List CompiledClass) : List UInt8 :=
  Text.Utf8.encode (Json.compact (.array (classes.map Cache.ofClass)))

/-- The classes of a document. -/
def classesOfDocument (document : List UInt8) : Except Failure (List CompiledClass) :=
  match Json.ofBytes? document with
  | none => .error .record
  | some (.array items) =>
    match items.mapM Cache.toClass? with
    | some classes => .ok classes
    | none => .error .record
  | some _ => .error (.layout .notAnArray)

/-- The name of the manifest in a zipped cache. -/
def manifestName : String := "manifest.json"

/-- The manifest of a zipped cache. -/
def manifestOf (archive : Archive) : Except Failure Manifest := do
  let bytes ← contentNamed archive manifestName
  match (Json.ofBytes? bytes).bind Manifest.ofJson? with
  | some manifest => .ok manifest
  | none => .error .record

/-- Which entries of a zipped cache are wanted: all documents, or those of some libraries and of all
    that these depend on. -/
def wantedEntries (archive : Archive) (libraries : Option (List String)) :
    Except Failure (String → Bool) :=
  match libraries with
  | none => .ok isDocument
  | some libraries => do
    let manifest ← manifestOf archive
    return isDocumentOf (manifest.closure libraries)

/-- The documents of a zipped cache. -/
def zippedDocuments (bytes : List UInt8) (libraries : Option (List String)) :
    Except Failure (List (List UInt8)) := do
  let archive ← openArchive bytes
  let wanted ← wantedEntries archive libraries
  contentsOf archive wanted

/-- The documents of the cache at a path. A cache that is not zipped is one document, and the
    libraries do not matter. -/
def documentsAt (path : String) (bytes : List UInt8) (libraries : Option (List String)) :
    Except Failure (List (List UInt8)) :=
  if Path.hasSuffix ".zip" path then zippedDocuments bytes libraries else .ok [bytes]

/-- The classes of the cache at a path. -/
def cachedClasses (path : String) (bytes : List UInt8) (libraries : Option (List String)) :
    Except Failure (List CompiledClass) := do
  let documents ← documentsAt path bytes libraries
  return (← documents.mapM classesOfDocument).flatten

end TypeCatalog.Library
