import TypeCatalog.Path
import TypeCatalog.Storage.Basic
import TypeCatalog.Text.Utf8

/-! # A directory as a value

    Files with their bytes below one directory. A directory is there if it was made or if a file is
    below it. Paths are walked component by component, as an operating system does, so that a file
    in the place of a directory and a directory in the place of a file are told apart from what is
    missing. Outside of the directory there are only the directories that lead to it, and what is
    put there.
-/

set_option autoImplicit false

namespace TypeCatalog

/-- The place of a file or a directory: the names that lead to it, after two dots for each step out
    of the directory that paths start from. -/
abbrev Place := List (List Char)

/-- Two dots, which stand for a step out of a directory. -/
def stepOut : List Char := ['.', '.']

/-- Whether a directory leads to the one that paths start from, or is that one itself. -/
def Place.isAbove (place : Place) : Bool := place.all (· == stepOut)

/-- The place of the directory that a place is in. -/
def Place.parent (place : Place) : Place :=
  if place.isAbove then place ++ [stepOut] else place.dropLast

/-- Files below one directory. -/
structure Disk where
  /-- The files; of two entries for one place the first counts. -/
  files : List (Place × List UInt8)
  /-- Directories that were made. -/
  directories : List Place
  deriving Repr, Inhabited

namespace Disk

/-- Nothing but the directory itself. -/
def empty : Disk := ⟨[], []⟩

/-- The bytes of the file at a place. -/
def file? (d : Disk) (place : Place) : Option (List UInt8) :=
  (d.files.find? fun entry => entry.1 == place).map Prod.snd

/-- Whether a directory is at a place. -/
def isDirectory (d : Disk) (place : Place) : Bool :=
  place.isAbove || (d.directories ++ d.files.map Prod.fst).any fun other =>
    place.isPrefixOf other && (d.file? place).isNone

/-- What a place is missing to be a directory. -/
def directoryFault (d : Disk) (place : Place) : FileFault :=
  if (d.file? place).isSome then .notDirectory else .notFound

/-! ## Section 1: Walking -/

/-- The most bytes of a name. -/
def longestName : Nat := 255

/-- The most bytes of a path. -/
def longestPath : Nat := 4093

/-- What is wrong with an absolute path of the given steps: it names the directory that all others
    are in, or nothing that is there. -/
def absoluteFault (steps : Place) : FileFault :=
  if steps.all fun name => name = ['.'] || name = stepOut then .isDirectory else .notFound

/-- The place that steps lead to from a directory. Every step but the last has to lead to a
    directory. -/
def walk (d : Disk) (place : Place) : Place → Except FileFault Place
  | [] => .ok place
  | name :: rest =>
    if name = ['.'] then walk d place rest
    else if name = stepOut then walk d place.parent rest
    else if longestName < Text.Utf8.size name then .error .nameTooLong
    else if rest.isEmpty || d.isDirectory (place ++ [name]) then walk d (place ++ [name]) rest
    else .error (d.directoryFault (place ++ [name]))

/-- Whether a path can be walked at all. -/
def checkPath (path : String) : Except FileFault Unit :=
  if path.toList.contains '\x00' then .error .zeroInPath
  else if path.startsWith "/" then .error (absoluteFault (Path.steps path))
  else if longestPath < path.utf8ByteSize then .error .nameTooLong
  else .ok ()

/-- The bytes of the file that a path names. A path with a separator at its end names a
    directory. -/
def contentAt (d : Disk) (path : String) : Except FileFault (List UInt8) := do
  checkPath path
  let place ← d.walk [] (Path.steps path)
  match d.file? place with
  | some bytes => if path.endsWith "/" then .error .notDirectory else .ok bytes
  | none => .error (if d.isDirectory place then .isDirectory else .notFound)

/-! ## Section 2: Writing -/

/-- Make the directory that steps lead to, unless it is there. -/
def makeDirectory (d : Disk) (parts : Place) : Except FileFault Disk := do
  if parts.any fun name => name.contains '\x00' then .error .zeroInPath
  else
    let place ← d.walk [] parts
    if d.isDirectory place then .ok d
    else if (d.file? place).isSome then .error .alreadyThere
    else .ok ⟨d.files, place :: d.directories⟩

/-- Make the directory that steps lead to, after the one before it if that is missing. What was made
    on the way stays if the rest cannot be made. -/
def makeDirectories (d : Disk) (parts : Place) : Except FileFault Unit × Disk :=
  match d.makeDirectory parts with
  | .ok d => (.ok (), d)
  | .error .notFound =>
    if _ : parts = [] then (.error .notFound, d)
    else
      match makeDirectories d parts.dropLast with
      | (.error f, d) => (.error f, d)
      | (.ok (), d) =>
        match d.makeDirectory parts with
        | .ok d => (.ok (), d)
        | .error f => (.error f, d)
  | .error f => (.error f, d)
termination_by parts.length
decreasing_by
  have := List.length_pos_iff.2 ‹parts ≠ []›
  simp only [List.length_dropLast]
  omega

/-- The disk with other bytes at a place. -/
def put (d : Disk) (place : Place) (bytes : List UInt8) : Disk :=
  ⟨(place, bytes) :: d.files.filter (fun entry => entry.1 != place), d.directories⟩

/-- The place of the file to write that a path names. A path with a separator at its end names
    none, whatever its last step is. -/
def placeToWrite (d : Disk) (path : String) : Except FileFault Place := do
  checkPath path
  let steps := Path.steps path
  if path.endsWith "/" then
    let _ ← d.walk [] (steps.dropLast ++ [['.']])
    .error .isDirectory
  else
    let place ← d.walk [] steps
    if d.isDirectory place then .error .isDirectory else .ok place

/-- Put bytes into the file that a path names, with the disk afterwards. The directories are made
    even if the file cannot be written. -/
def store (d : Disk) (path : String) (bytes : List UInt8) : Except FileFault Unit × Disk :=
  if path.startsWith "/" then (.error (absoluteFault (Path.steps path)), d)
  else
    match d.makeDirectories (Path.components path).dropLast with
    | (.error f, d) => (.error f, d)
    | (.ok (), d) =>
      match d.placeToWrite path with
      | .error f => (.error f, d)
      | .ok place => (.ok (), d.put place bytes)

/-- A disk as storage. -/
def storage : Storage (StateM Disk) where
  read path := fun d => (d.contentAt path, d)
  write path bytes := fun d => d.store path bytes

end Disk

end TypeCatalog
