/-! # UTF-16

    A sequence of sixteen-bit units read as text: a high surrogate followed by a low one is a
    single character past U+FFFF, and a surrogate that stands alone becomes U+FFFD.
-/

set_option autoImplicit false

namespace TypeCatalog.Text.Utf16

/-- Whether a unit is the first half of a pair. -/
def isHigh (u : UInt16) : Bool := 0xD800 ≤ u && u ≤ 0xDBFF

/-- Whether a unit is the second half of a pair. -/
def isLow (u : UInt16) : Bool := 0xDC00 ≤ u && u ≤ 0xDFFF

/-- The character that a high and a low surrogate stand for. -/
def pair (high low : UInt16) : Char :=
  Char.ofNat (0x10000 + (high.toNat - 0xD800) * 0x400 + (low.toNat - 0xDC00))

/-- The character that a unit stands for by itself. -/
def single (u : UInt16) : Char :=
  if isHigh u || isLow u then Char.ofNat 0xFFFD else Char.ofNat u.toNat

/-- The text of a sequence of units. -/
def decode : List UInt16 → List Char
  | [] => []
  | [u] => [single u]
  | u :: v :: rest =>
    if isHigh u && isLow v then pair u v :: decode rest
    else single u :: decode (v :: rest)

end TypeCatalog.Text.Utf16
