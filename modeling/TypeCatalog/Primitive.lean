/-! # Primitive types

    The eight primitive types and `void`. Each has a letter in signatures and a keyword in source
    text.
-/

set_option autoImplicit false

namespace TypeCatalog

/-- A primitive type, or `void`. -/
inductive Primitive where
  | int | long | short | byte | float | double | char | boolean | void
  deriving DecidableEq, Repr

namespace Primitive

/-- Every primitive type. -/
def all : List Primitive := [int, long, short, byte, float, double, char, boolean, void]

/-- The letter of a primitive type in signatures. -/
def letter : Primitive → Char
  | int => 'I'
  | long => 'J'
  | short => 'S'
  | byte => 'B'
  | float => 'F'
  | double => 'D'
  | char => 'C'
  | boolean => 'Z'
  | void => 'V'

/-- The keyword of a primitive type. -/
def keyword : Primitive → String
  | int => "int"
  | long => "long"
  | short => "short"
  | byte => "byte"
  | float => "float"
  | double => "double"
  | char => "char"
  | boolean => "boolean"
  | void => "void"

/-- The primitive type of a letter. -/
def ofLetter? (c : Char) : Option Primitive := all.find? fun p => p.letter == c

/-- The primitive type of a keyword. -/
def ofKeyword? (word : String) : Option Primitive := all.find? fun p => p.keyword == word

@[simp]
theorem ofLetter?_letter (p : Primitive) : ofLetter? p.letter = some p := by
  cases p <;> decide

theorem ofLetter?_eq_some_iff {c : Char} {p : Primitive} : ofLetter? c = some p ↔ c = p.letter := by
  constructor
  · intro h
    have := List.find?_some h
    exact (beq_iff_eq.1 this).symm
  · rintro rfl
    exact ofLetter?_letter p

@[simp]
theorem ofKeyword?_keyword (p : Primitive) : ofKeyword? p.keyword = some p := by
  cases p <;> decide

end Primitive

end TypeCatalog
