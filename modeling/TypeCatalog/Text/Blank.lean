/-! # Blank characters

    The characters that show as white space, and the trimming of a text on either side. The set is
    wider than what a lexer skips between tokens: it holds the no-break and the typographic spaces
    too.
-/

set_option autoImplicit false

namespace TypeCatalog.Text

/-- The blank characters, as ranges of code points with both ends included. -/
def blankRanges : List (Nat × Nat) :=
  [(0x9, 0xD), (0x20, 0x20), (0x85, 0x85), (0xA0, 0xA0), (0x1680, 0x1680), (0x2000, 0x200A),
    (0x2028, 0x2029), (0x202F, 0x202F), (0x205F, 0x205F), (0x3000, 0x3000)]

/-- Whether a character is blank. -/
def isBlank (c : Char) : Bool :=
  blankRanges.any fun (low, high) => low ≤ c.toNat && c.toNat ≤ high

/-- The text without its leading blanks. -/
def trimLeft (text : List Char) : List Char :=
  text.dropWhile isBlank

/-- The text without its trailing blanks. -/
def trimRight (text : List Char) : List Char :=
  (text.reverse.dropWhile isBlank).reverse

/-- The text without blanks on either side. -/
def trim (text : List Char) : List Char :=
  trimRight (trimLeft text)

/-- Whether a text holds nothing but blanks. -/
def isAllBlank (text : List Char) : Bool :=
  text.all isBlank

end TypeCatalog.Text
