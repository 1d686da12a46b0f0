import TypeCatalog.Archive.Directory

/-! # Archives

    An archive is a sequence of named entries, a directory of them behind the entries, and an end
    record that tells where the directory is. Entries are read from the directory in its order, so
    what stands in front of the first entry does not matter. If several entries have one name, the
    last of them counts, in the place of the first.

    Bytes are searched for an end record from their end on. One that does not fit the bytes around
    it, or whose directory is not well-formed, is passed over. An archive that is too large for the
    numbers in its end record has a wide one as well, in front of a record that tells where it is.
-/

set_option autoImplicit false

namespace TypeCatalog

/-- The entries of an archive, in the order of its directory. -/
abbrev Archive := List ArchiveEntry

namespace Archive

/-! ## Section 1: Entries -/

/-- The first entry of a name. -/
def find? (a : Archive) (name : String) : Option ArchiveEntry :=
  List.find? (fun e : ArchiveEntry => e.name == name) a

/-- An archive with one more entry, in the place of one of its name if there is one. -/
def put (a : Archive) (e : ArchiveEntry) : Archive :=
  if List.any a fun e' => e'.name == e.name then
    List.map (fun e' : ArchiveEntry => if e'.name == e.name then e else e') a
  else a ++ [e]

/-! ## Section 2: Reading -/

/-- The bytes that mark the end record. -/
def endMark : List UInt8 := [0x50, 0x4B, 5, 6]

/-- The bytes that mark the wide end record. -/
def wideEndMark : List UInt8 := [0x50, 0x4B, 6, 6]

/-- The bytes that mark the record of where the wide end record is. -/
def locatorMark : List UInt8 := [0x50, 0x4B, 6, 7]

/-- The number of bytes of the end record without its comment. -/
def endSize : Nat := 22

/-- The number of bytes of the record of where the wide end record is. -/
def locatorSize : Nat := 20

/-- The number of bytes of the wide end record that do not count for its size. -/
def wideUncounted : Nat := 12

/-- The least size of a wide end record. -/
def leastWideSize : Nat := 44

/-- Where a directory is. -/
structure DirectoryPlace where
  /-- The number of its entries. -/
  count : Nat
  /-- Where it starts, as the end record says. -/
  offset : Nat
  /-- How many bytes are in front of where offsets count from. -/
  start : Nat

/-- The first offset from the given one on where a mark stands, of that many. -/
def findMark (data : Array UInt8) (mark : List UInt8) (offset : Nat) : Nat → Option Nat
  | 0 => none
  | count + 1 =>
    if standsAt data offset mark then some offset else findMark data mark (offset + 1) count

/-- The place of the directory by an end record at an offset. A directory of no entries at all may
    be anywhere; any other starts at the first entry of a directory that is not in front of where
    it should be. -/
def narrowPlace (data : Array UInt8) (place : Nat) : Option DirectoryPlace :=
  let count := u2 data (place + 8)
  let offset := u4 data (place + 16)
  if u2 data (place + 4) ≠ u2 data (place + 6) then none
  else if u2 data (place + 10) = 0 then some ⟨count, offset, place - offset⟩
  else
    (findMark data directoryMark offset (place - 3 - offset)).map fun found =>
      ⟨count, offset, found - offset⟩

/-- Whether a wide end record at an offset fits what stands behind it: the disk that the record of
    its place says, and the offset of that record. -/
def isWideEnd (data : Array UInt8) (disk locator place : Nat) : Bool :=
  standsAt data place wideEndMark && leastWideSize ≤ u8 data (place + 4) &&
    u8 data (place + 4) + wideUncounted = locator - place && u4 data (place + 20) = disk &&
    u8 data (place + 32) * directorySize + u8 data (place + 48) ≤ place

/-- The first offset from the given one on where a wide end record fits, of that many. -/
def findWideEnd (data : Array UInt8) (disk locator offset : Nat) : Nat → Option Nat
  | 0 => none
  | count + 1 =>
    if isWideEnd data disk locator offset then some offset
    else findWideEnd data disk locator (offset + 1) count

/-- The place of the directory by the wide end record that goes with a record of its place. -/
def widePlace (data : Array UInt8) (locator : Nat) : Option DirectoryPlace := do
  let offset := u8 data (locator + 8)
  if 1 < u4 data (locator + 16) then none
  else
    let found ← findWideEnd data (u4 data (locator + 4)) locator offset (locator - offset)
    if u8 data (found + 24) ≤ u8 data (found + 32) && u2 data (found + 14) ≤ u2 data (found + 12) &&
        u4 data (found + 16) = u4 data (found + 20) then
      some ⟨u8 data (found + 32), u8 data (found + 48), found - offset⟩
    else none

/-- The place of the directory, if an end record is at an offset. -/
def placeAt (data : Array UInt8) (place : Nat) : Option DirectoryPlace :=
  if standsAt data place endMark && place + endSize ≤ data.size &&
      place + endSize + u2 data (place + 20) ≤ data.size then
    if (u2 data (place + 10) = 0xFFFF || u4 data (place + 16) = absent) && locatorSize ≤ place &&
        standsAt data (place - locatorSize) locatorMark then
      widePlace data (place - locatorSize)
    else narrowPlace data place
  else none

/-- The entries of a directory from an offset on, with those before. -/
def entriesFrom (data : Array UInt8) (start offset : Nat) (found : Archive) :
    Nat → Option Archive
  | 0 => some found
  | count + 1 =>
    match listedAt data offset with
    | none => none
    | some (l, next) => entriesFrom data start next (put found (l.entry data start)) count

/-- The archive whose end record is the last one in front of an offset that fits. -/
def readBefore (data : Array UInt8) : Nat → Option Archive
  | 0 => none
  | place + 1 =>
    match (placeAt data place).bind fun d =>
      entriesFrom data d.start (d.offset + d.start) [] d.count with
    | some found => some found
    | none => readBefore data place

/-- The archive that bytes are. -/
def readArray (data : Array UInt8) : Option Archive := readBefore data data.size

/-- The archive that bytes are. -/
def read (bytes : List UInt8) : Option Archive := readArray bytes.toArray

/-! ## Section 3: Writing -/

/-- What an entry and its entry in the directory have in common, after their marks and versions. -/
def commonFields (e : ArchiveEntry) (size : Nat) : List UInt8 :=
  bytesOfNat 2 0x800 ++ bytesOfNat 2 e.method ++ bytesOfNat 4 0 ++ bytesOfNat 4 e.checksum ++
    bytesOfNat 4 (e.packed.getD []).length ++ bytesOfNat 4 size ++
    bytesOfNat 2 (Text.Utf8.encode e.name.toList).length ++ bytesOfNat 2 0

/-- The size of the content of an entry. -/
def contentSize (e : ArchiveEntry) : Nat :=
  match e.content with
  | .ok bytes => bytes.length
  | .error _ => 0

/-- An entry as it stands in front of the directory. -/
def entryBytes (e : ArchiveEntry) : List UInt8 :=
  entryMark ++ bytesOfNat 2 20 ++ commonFields e (contentSize e) ++
    Text.Utf8.encode e.name.toList ++ e.packed.getD []

/-- An entry as it stands in the directory. -/
def directoryBytes (e : ArchiveEntry) (offset : Nat) : List UInt8 :=
  directoryMark ++ bytesOfNat 2 20 ++ bytesOfNat 2 20 ++ commonFields e (contentSize e) ++
    bytesOfNat 2 0 ++ bytesOfNat 2 0 ++ bytesOfNat 2 0 ++ bytesOfNat 4 0 ++ bytesOfNat 4 offset ++
    Text.Utf8.encode e.name.toList

/-- The directory of entries, the first of which stands at the given offset. -/
def directory (offset : Nat) : Archive → List UInt8
  | [] => []
  | e :: rest => directoryBytes e offset ++ directory (offset + (entryBytes e).length) rest

/-- The end record. -/
def endBytes (count length offset : Nat) : List UInt8 :=
  endMark ++ bytesOfNat 2 0 ++ bytesOfNat 2 0 ++ bytesOfNat 2 count ++ bytesOfNat 2 count ++
    bytesOfNat 4 length ++ bytesOfNat 4 offset ++ bytesOfNat 2 0

/-- The bytes of an archive. -/
def write (a : Archive) : List UInt8 :=
  let entries := a.flatMap entryBytes
  let listing := directory 0 a
  entries ++ listing ++ endBytes a.length listing.length entries.length

end Archive

end TypeCatalog
