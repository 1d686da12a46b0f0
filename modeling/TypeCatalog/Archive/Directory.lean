import TypeCatalog.Archive.Entry
import TypeCatalog.Text.Utf8

/-! # The directory of an archive

    The directory lists the entries of an archive: their names, how they are packed and where they
    are. Numbers that need more than four bytes, names in Unicode and passwords stand in further
    fields of an entry. An archive with a further field that is not well-formed has no directory.
-/

set_option autoImplicit false

namespace TypeCatalog.Archive

/-! ## Section 1: Numbers and marks at offsets -/

/-- The bytes from an offset on. -/
def slice (data : Array UInt8) (offset length : Nat) : List UInt8 :=
  (data.extract offset (offset + length)).toList

/-- The number in two bytes at an offset. -/
def u2 (data : Array UInt8) (offset : Nat) : Nat := natOfBytes (slice data offset 2)

/-- The number in four bytes at an offset. -/
def u4 (data : Array UInt8) (offset : Nat) : Nat := natOfBytes (slice data offset 4)

/-- The number in eight bytes at an offset. -/
def u8 (data : Array UInt8) (offset : Nat) : Nat := natOfBytes (slice data offset 8)

/-- Whether the given bytes stand at an offset. -/
def standsAt (data : Array UInt8) (offset : Nat) : List UInt8 → Bool
  | [] => true
  | b :: rest => data[offset]? == some b && standsAt data (offset + 1) rest

/-- The bytes that mark an entry. -/
def entryMark : List UInt8 := [0x50, 0x4B, 3, 4]

/-- The bytes that mark an entry of the directory. -/
def directoryMark : List UInt8 := [0x50, 0x4B, 1, 2]

/-- The number of bytes of an entry without its name and further fields. -/
def entrySize : Nat := 30

/-- The number of bytes of an entry of the directory without its name, further fields and
    comment. -/
def directorySize : Nat := 46

/-! ## Section 2: Names -/

/-- The characters of the bytes from 128 on in names that are not marked as UTF-8. -/
def highCharacters : Array Char :=
  ("ÇüéâäàåçêëèïîìÄÅÉæÆôöòûùÿÖÜ¢£¥₧ƒáíóúñÑªº¿⌐¬½¼¡«»░▒▓│┤╡╢╖╕╣║╗╝╜╛┐" ++
    "└┴┬├─┼╞╟╚╔╩╦╠═╬╧╨╤╥╙╘╒╓╫╪┘┌█▄▌▐▀αßΓπΣσµτΦΘΩδ∞φε∩≡±≥≤⌠⌡÷≈°∙·√ⁿ²■\u00A0").toList.toArray

/-- One byte of a name that is not marked as UTF-8. -/
def nameCharacter (b : UInt8) : Char :=
  if b < 128 then Char.ofNat b.toNat else highCharacters.getD (b.toNat - 128) '?'

/-- The text that the bytes of a name or a comment stand for. -/
def nameOf (flags : Nat) (bytes : List UInt8) : List Char :=
  if flags.testBit 11 then Text.Utf8.decodeLossy bytes else bytes.map nameCharacter

/-! ## Section 3: Listed entries -/

/-- What a directory says about an entry. -/
structure Listed where
  /-- The bytes of the name. -/
  nameBytes : List UInt8
  name : List Char
  comment : List Char
  /-- Whether the content is behind a password. -/
  locked : Bool
  isLink : Bool
  method : Nat
  checksum : Nat
  /-- The number of bytes of the content. -/
  size : Nat
  /-- The number of bytes of the packed content. -/
  packedSize : Nat
  /-- Where the entry is. -/
  place : Nat

/-- Numbers of four bytes that stand for one of eight bytes in a further field. -/
def absent : Nat := 0xFFFFFFFF

/-- The number of that many bytes in front of a list, and the others. -/
def takeNat? (width : Nat) (s : List UInt8) : Option (Nat × List UInt8) :=
  if width ≤ s.length then some (natOfBytes (s.take width), s.drop width) else none

/-- Numbers of eight bytes for those that are absent, or for all three of them. -/
def Listed.withWide (l : Listed) (length : Nat) (s : List UInt8) : Option (Listed × Nat) := do
  let all := 24 ≤ length
  let (size, s, used) ←
    if all || l.size = absent then (takeNat? 8 s).map fun (n, s) => (n, s, 8)
    else some (l.size, s, 0)
  let (packedSize, s, used) ←
    if all || l.packedSize = absent then (takeNat? 8 s).map fun (n, s) => (n, s, used + 8)
    else some (l.packedSize, s, used)
  let (place, used) ←
    if all || l.place = absent then (takeNat? 8 s).map fun (n, _) => (n, used + 8)
    else some (l.place, used)
  if used ≤ length then some ({ l with size, packedSize, place }, length) else none

/-- The text of a field in Unicode that goes with the given bytes. -/
def unicodeText? (bytes : List UInt8) (length : Nat) (s : List UInt8) :
    Option (List UInt8 × List Char) := do
  let (expected, content) ← takeNat? 4 (s.drop 1)
  if length < 5 || content.length < length - 5 || (checksum bytes).toNat ≠ expected then none
  else
    let content := content.take (length - 5)
    let text ← Text.Utf8.decode? content
    return (content, text)

/-- Whether the times of a file are well-formed. -/
def isTimes (length : Nat) (s : List UInt8) : Bool :=
  length = 32 && 32 ≤ s.length && (s.drop 4).take 4 = [1, 0, 24, 0]

/-- The length of the times of a file in seconds, with flags that tell which are there. The last
    change is there if there is only one. -/
def secondsLength? (length : Nat) (s : List UInt8) : Option Nat :=
  match s with
  | [] => none
  | flags :: rest =>
    let flag (i : Nat) : Nat := if flags.toNat.testBit i then 1 else 0
    let all := ((List.range 8).map flag).foldl (· + ·) 0
    let used := if length = 5 then 4 else 4 * (flag 0 + flag 1 + flag 2)
    if (length = 5 || length = 1 + 4 * all) && used ≤ rest.length then some (1 + used) else none

/-- What a password needs to be known by, and how the content is packed before it is locked. -/
def lockedMethod? (length : Nat) (s : List UInt8) : Option Nat :=
  match s with
  | v :: 0 :: 0x45 :: 0x41 :: strength :: low :: high :: _ =>
    if length = 7 && (v = 1 || v = 2) && 1 ≤ strength && strength ≤ 3 then
      some (natOfBytes [low, high])
    else none
  | _ => none

/-- What a listed entry is with one of its further fields, of the given kind and length, and how
    many bytes the field is. -/
def Listed.withField (l : Listed) (kind length : Nat) (s : List UInt8) :
    Option (Listed × Nat) :=
  if kind = 0x0001 then l.withWide length s
  else if kind = 0x000A then if isTimes length s then some (l, length) else none
  else if kind = 0x9901 then
    (lockedMethod? length s).map fun method => ({ l with locked := true, method }, length)
  else if kind = 0x5455 then (secondsLength? length s).map fun used => (l, used)
  else if kind = 0x6375 then
    (unicodeText? (Text.Utf8.encode l.comment) length s).map fun (_, comment) =>
      ({ l with comment }, length)
  else if kind = 0x7075 then
    (unicodeText? l.nameBytes length s).map fun (nameBytes, name) =>
      ({ l with nameBytes, name }, length)
  else if length ≤ s.length then some (l, length)
  else none

/-- What a listed entry is with its further fields. -/
def Listed.withFields (l : Listed) (s : List UInt8) : Option Listed :=
  match s with
  | [] => some l
  | k :: k' :: n :: n' :: rest =>
    match l.withField (natOfBytes [k, k']) (natOfBytes [n, n']) rest with
    | some (l, used) => l.withFields (rest.drop used)
    | none => none
  | _ => none
termination_by s.length
decreasing_by
  simp only [List.length_cons, List.length_drop]
  omega

/-- Whether the attributes of an entry say that it is a link: the system that made it has links, and
    its mode is that of one. -/
def linkAttributes (maker attributes : Nat) : Bool :=
  maker / 256 = 3 && (attributes >>> 29) % 2 = 1 && (attributes >>> 31) % 2 = 1

/-- The method of entries that are locked, with the real one in a further field. -/
def lockedMethod : Nat := 99

/-- The entry listed at an offset, and where the next one is. -/
def listedAt (data : Array UInt8) (offset : Nat) : Option (Listed × Nat) :=
  let flags := u2 data (offset + 8)
  let nameEnd := offset + directorySize + u2 data (offset + 28)
  let fieldsEnd := nameEnd + u2 data (offset + 30)
  let next := fieldsEnd + u2 data (offset + 32)
  if standsAt data offset directoryMark && next ≤ data.size then do
    let nameBytes := (data.extract (offset + directorySize) nameEnd).toList
    let bare : Listed := {
      nameBytes
      name := nameOf flags nameBytes
      comment := nameOf flags (data.extract fieldsEnd next).toList
      locked := false
      isLink := linkAttributes (u2 data (offset + 4)) (u4 data (offset + 38))
      method := u2 data (offset + 10)
      checksum := u4 data (offset + 16)
      size := u4 data (offset + 24)
      packedSize := u4 data (offset + 20)
      place := u4 data (offset + 42) }
    let found ← bare.withFields (data.extract nameEnd fieldsEnd).toList
    if found.method = lockedMethod && !found.locked then none
    else some ({ found with locked := found.locked || flags.testBit 0 }, next)
  else none

/-- The entry that a listed one is, where places count from `start`. -/
def Listed.entry (l : Listed) (data : Array UInt8) (start : Nat) : ArchiveEntry :=
  let place := start + l.place
  let content := place + entrySize + u2 data (place + 26) + u2 data (place + 28)
  { name := String.ofList l.name
    locked := l.locked
    isLink := l.isLink
    method := l.method
    checksum := l.checksum
    size := l.size
    packed :=
      if standsAt data place entryMark && place + entrySize ≤ data.size then
        some (slice data content l.packedSize)
      else none }

end TypeCatalog.Archive
