/-! # Modifiers

    The access flags of classes, fields and methods. One bit can mean different things on different
    members: the bit of `transient` on fields marks methods of variable arity, and the bit of
    `synchronized` is set on nearly every class.
-/

set_option autoImplicit false

namespace TypeCatalog

/-- A set of access flags. -/
structure Modifiers where
  /-- The flags as bits. -/
  bits : UInt16
  deriving DecidableEq, Repr, Inhabited

namespace Modifiers

/-- The flag of what is visible everywhere. -/
def publicFlag : UInt16 := 0x0001
/-- The flag of methods of variable arity. -/
def varargsFlag : UInt16 := 0x0080
/-- The flag of interfaces. -/
def interfaceFlag : UInt16 := 0x0200
/-- The flag of what the compiler made up. -/
def syntheticFlag : UInt16 := 0x1000
/-- The flag of annotation interfaces. -/
def annotationFlag : UInt16 := 0x2000
/-- The flag of enums and their constants. -/
def enumFlag : UInt16 := 0x4000

/-- The keywords of the twelve lowest bits, lowest first. -/
def allKeywords : List String :=
  ["public", "private", "protected", "static", "final", "synchronized", "volatile", "transient",
    "native", "interface", "abstract", "strict"]

/-- Whether a flag of the mask is set. -/
def has (m : Modifiers) (mask : UInt16) : Bool := m.bits &&& mask != 0

/-- The keywords of the flags that are set, lowest bit first. -/
def keywords (m : Modifiers) : List String :=
  (allKeywords.zipIdx.filter fun (_, i) => m.bits.toNat.testBit i).map Prod.fst

/-- Whether a keyword belongs to a flag that is set. -/
def containsKeyword (m : Modifiers) (keyword : String) : Bool := m.keywords.contains keyword

/-- The keywords, each with a space after it. -/
def labelOf (keywords : List String) : String := String.join (keywords.map (· ++ " "))

/-- The keywords of the flags that are set, each with a space after it. -/
def label (m : Modifiers) : String := labelOf m.keywords

end Modifiers

/-- The kind of a type. -/
inductive TypeKind where
  | classKind | enumKind | interfaceKind | annotationKind | primitiveKind | arrayKind | variableKind
  deriving DecidableEq, Repr

namespace TypeKind

/-- The kind of a class by its flags. An annotation interface carries the flag of interfaces too,
    and an interface may carry that of enums. -/
def ofModifiers (m : Modifiers) : TypeKind :=
  if m.has Modifiers.annotationFlag then annotationKind
  else if m.has Modifiers.interfaceFlag then interfaceKind
  else if m.has Modifiers.enumFlag then enumKind
  else classKind

/-- The word for a kind. -/
def label : TypeKind → String
  | classKind => "class"
  | enumKind => "enum"
  | interfaceKind => "interface"
  | annotationKind => "@interface"
  | primitiveKind => "primitive"
  | arrayKind => "array"
  | variableKind => "typevar"

end TypeKind

end TypeCatalog
