import TypeCatalog.Archive.BlockSort
import TypeCatalog.Archive.Bytes
import TypeCatalog.Archive.ChunkedCode
import TypeCatalog.Archive.FrameCode
import TypeCatalog.Archive.Inflate
import TypeCatalog.Archive.RangeCode

/-! # Entries of archives

    What an archive says about one of its entries, and the content of the entry. An entry is opened
    before its content is read, which is refused for what is locked or packed in an unknown way; the
    content then has to be what its checksum says.
-/

set_option autoImplicit false

namespace TypeCatalog

/-- Why the content of an entry cannot be had. -/
inductive EntryFault where
  /-- There is no entry where the directory says. -/
  | missing
  /-- The content is behind a password. -/
  | locked
  /-- The content is packed in a way that is not known. -/
  | unsupported
  /-- The content is not what its checksum says, or cannot be unpacked. -/
  | damaged
  deriving DecidableEq, Repr

/-- A way to pack contents. -/
inductive Packing where
  /-- The content is stored as it is. -/
  | stored
  | deflated
  /-- Deflated with repetitions of up to sixty-four thousand bytes. -/
  | deflatedWide
  | blockSorted
  | rangeCoded
  /-- Range-coded in chunks, with an index of them behind. -/
  | rangeCodedChunks
  /-- In frames of blocks, each with codes of states. -/
  | framed
  /-- A way that is known, but none of whose contents can be unpacked. -/
  | sealed
  deriving DecidableEq, Repr

/-- The way to pack contents that a number stands for. -/
def Packing.ofNumber? (n : Nat) : Option Packing :=
  if n = 0 then some .stored
  else if n = 8 then some .deflated
  else if n = 9 then some .deflatedWide
  else if n = 12 then some .blockSorted
  else if n = 14 then some .rangeCoded
  else if n = 95 then some .rangeCodedChunks
  else if n = 93 then some .framed
  else if n = 98 then some .sealed
  else none

/-- The bytes that packed ones unpack to, where their number should be `size`. -/
def Packing.unpack (p : Packing) (size : Nat) (packed : List UInt8) : Option (List UInt8) :=
  match p with
  | stored => some packed
  | deflated => Archive.inflate .usual packed
  | deflatedWide => Archive.inflate .wide packed
  | blockSorted => Archive.BlockSort.unpack packed
  | rangeCoded => Archive.RangeCode.unpack size packed
  | rangeCodedChunks => Archive.ChunkedCode.unpack packed
  | framed => Archive.FrameCode.unpack packed
  | sealed => none

/-- An entry of an archive. -/
structure ArchiveEntry where
  name : String
  /-- Whether the content is behind a password. -/
  locked : Bool
  /-- Whether the content is the path of another file. -/
  isLink : Bool
  /-- The number of the way in which the content is packed. -/
  method : Nat
  /-- The checksum of the content. -/
  checksum : Nat
  /-- The number of bytes of the content, as far as the way of packing needs to know. -/
  size : Nat
  /-- The packed content, if the entry is where the directory says. -/
  packed : Option (List UInt8)
  deriving DecidableEq, Repr, Inhabited

namespace ArchiveEntry

/-- Whether an entry is a file, and no folder or link. -/
def isFile (e : ArchiveEntry) : Bool :=
  !e.isLink && !e.name.endsWith "/" && !e.name.endsWith "\\"

/-- The packed content of an entry, with the way in which it is packed. -/
def opened (e : ArchiveEntry) : Except EntryFault (Packing × List UInt8) :=
  if e.locked then .error .locked
  else
    match e.packed, Packing.ofNumber? e.method with
    | none, _ => .error .missing
    | some _, none => .error .unsupported
    | some packed, some packing => .ok (packing, packed)

/-- The content of an entry. -/
def content (e : ArchiveEntry) : Except EntryFault (List UInt8) := do
  let (packing, packed) ← e.opened
  match packing.unpack e.size packed with
  | none => .error .damaged
  | some bytes =>
    if (Archive.checksum bytes).toNat = e.checksum then .ok bytes else .error .damaged

/-- An entry whose content is stored as it is. -/
def stored (name : String) (bytes : List UInt8) : ArchiveEntry :=
  ⟨name, false, false, 0, (Archive.checksum bytes).toNat, bytes.length, some bytes⟩

@[simp]
theorem content_stored (name : String) (bytes : List UInt8) :
    (stored name bytes).content = .ok bytes := by
  simp [stored, content, opened, Packing.ofNumber?, Packing.unpack, bind, Except.bind]

end ArchiveEntry

end TypeCatalog
