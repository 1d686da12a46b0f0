import TypeCatalog.ClassFile.Constant
import TypeCatalog.Text.Utf16
import TypeCatalog.Text.Utf8

/-! # Modified UTF-8

    The texts of a class file. Their characters are sixteen-bit units, each in one to three bytes:
    NUL takes two bytes, and a character past U+FFFF is written as its two surrogates of three bytes
    each. A text that is plain UTF-8 is taken as it is; otherwise it is read unit by unit.
-/

set_option autoImplicit false

namespace TypeCatalog.ClassFile.ModifiedUtf8

/-- The six bits that a continuation byte at the given position adds. -/
def continuation (position : Nat) (byte : Option UInt8) : Except Fault UInt16 :=
  match byte with
  | some b => if b &&& 0xC0 = 0x80 then .ok (b &&& 0x3F).toUInt16
    else .error (.textContinuation position)
  | none => .error (.textContinuation position)

/-- The units of the bytes from the given position on. -/
def units (position : Nat) : List UInt8 → Except Fault (List UInt16)
  | [] => .ok []
  | a :: rest =>
    if a < 0x80 then do
      let others ← units (position + 1) rest
      return a.toUInt16 :: others
    else if 0xC0 ≤ a ∧ a ≤ 0xDF then do
      let x ← continuation (position + 1) rest.head?
      let others ← match rest with
        | _ :: r => units (position + 2) r
        | [] => .ok []
      return ((a &&& 0x1F).toUInt16 <<< 6 ||| x) :: others
    else if 0xE0 ≤ a ∧ a ≤ 0xEF then do
      let x ← continuation (position + 1) rest.head?
      let y ← continuation (position + 2) rest.tail.head?
      let others ← match rest with
        | _ :: _ :: r => units (position + 3) r
        | _ => .ok []
      return ((a &&& 0x0F).toUInt16 <<< 12 ||| x <<< 6 ||| y) :: others
    else .error (.textByte a)

/-- The text of a byte sequence read unit by unit. -/
def decodeUnits (bytes : List UInt8) : Except Fault (List Char) :=
  (units 0 bytes).map Text.Utf16.decode

/-- The text of a byte sequence. -/
def decode (bytes : List UInt8) : Except Fault (List Char) :=
  match Text.Utf8.decode? bytes with
  | some text => .ok text
  | none => decodeUnits bytes

/-- The bytes of one unit. -/
def encodeUnit (u : UInt16) : List UInt8 :=
  if u ≠ 0 ∧ u < 0x80 then [u.toUInt8]
  else if u < 0x800 then
    [(0xC0 : UInt8) ||| (u >>> 6).toUInt8, (0x80 : UInt8) ||| (u &&& 0x3F).toUInt8]
  else
    [(0xE0 : UInt8) ||| (u >>> 12).toUInt8, (0x80 : UInt8) ||| (u >>> 6 &&& 0x3F).toUInt8,
      (0x80 : UInt8) ||| (u &&& 0x3F).toUInt8]

/-- The bytes of a sequence of units. -/
def encode (units : List UInt16) : List UInt8 :=
  units.flatMap encodeUnit

example : (decode (encode [0x61, 0, 0xD83D, 0xDE00, 0xD800])).toOption =
    some ['a', '\x00', '😀', Char.ofNat 0xFFFD] := by decide +kernel

end TypeCatalog.ClassFile.ModifiedUtf8
