import TypeCatalog.Declaration

/-! # Resolved types

    A type whose class names have been looked up. A class type carries its declaration and, once it
    is specialised, one argument for each type variable the class declares, in their order. A class
    that is not known stays a name.
-/

set_option autoImplicit false

namespace TypeCatalog

/-- On which side a wildcard is bounded. -/
inductive WildcardKind where
  /-- The bound is above. -/
  | upper
  /-- The bound is below. -/
  | lower
  deriving DecidableEq, Repr

/-- A type whose class names have been looked up. -/
inductive ResolvedType where
  /-- A primitive type or `void`. -/
  | primitive (p : Primitive)
  /-- An array: its innermost element and the number of its dimensions. -/
  | array (base : ResolvedType) (dims : Nat)
  /-- A known class. Without arguments it is the class as declared. -/
  | classType (declaration : ClassDeclaration) (arguments : List ResolvedType)
  /-- A type variable without a binding. -/
  | typeVariable (declared : TypeVariable)
  /-- The wildcard that stands for any type. -/
  | anyWildcard
  /-- A wildcard with a bound. -/
  | wildcard (kind : WildcardKind) (bound : ResolvedType)
  /-- A class that is not known. -/
  | unknownClass (name : BinaryName)
  /-- The type of the null literal. -/
  | nullType
  deriving Inhabited

/-- A known class, with the arguments it is specialised with. -/
structure ClassType where
  /-- The class. -/
  declaration : ClassDeclaration
  /-- One argument for each of its type variables; none while it is not specialised. -/
  arguments : List ResolvedType
  deriving Inhabited

/-! ## Section 1: Arrays -/

/-- An array type. The dimensions of an element that is itself an array are added, so the base of an
    array is never one. -/
def ResolvedType.arrayOf (element : ResolvedType) (dims : Nat) : ResolvedType :=
  match element with
  | .array base inner => .array base (inner + dims)
  | base => .array base dims

/-- The array that is left of an array after some dimensions, or its base after all of them. -/
def stripDimensions (base : ResolvedType) (dims count : Nat) : Option ResolvedType :=
  if dims < count then none
  else if dims = count then some base
  else some (.array base (dims - count))

/-! ## Section 2: Class types -/

namespace ClassType

/-- A class as declared. -/
def raw (d : ClassDeclaration) : ClassType := ⟨d, []⟩

/-- The class type as a type. -/
def toType (c : ClassType) : ResolvedType := .classType c.declaration c.arguments

/-- Whether the type variables are bound. -/
def isSpecialised (c : ClassType) : Bool := !c.arguments.isEmpty

/-- The type variables that are bound, each with its argument. -/
def bindings (c : ClassType) : List (TypeVariable × ResolvedType) :=
  c.declaration.typeVariables.zip c.arguments

end ClassType

/-- The class type that a type is. -/
def ResolvedType.asClass? : ResolvedType → Option ClassType
  | .classType declaration arguments => some ⟨declaration, arguments⟩
  | _ => none

/-! ## Section 3: Signatures -/

/-- A text between angle brackets after a name, if there is a text. -/
def bracketed (parts : List String) (separator : String) : String :=
  if parts.isEmpty then "" else "<" ++ separator.intercalate parts ++ ">"

mutual
/-- The generic signature of a type. -/
def ResolvedType.signature : ResolvedType → String
  | .primitive p => String.singleton p.letter
  | .array base dims => String.ofList (List.replicate dims '[') ++ base.signature
  | .classType declaration arguments =>
    "L" ++ (declaration.name.short ++ bracketed (ResolvedType.signatures arguments) "") ++ ";"
  | .typeVariable declared => "T" ++ declared.name ++ ";"
  | .anyWildcard => "*"
  | .wildcard .upper bound => "+" ++ bound.signature
  | .wildcard .lower bound => "-" ++ bound.signature
  | .unknownClass name => name.signature
  | .nullType => ""
/-- The generic signatures of types. -/
def ResolvedType.signatures : List ResolvedType → List String
  | [] => []
  | t :: rest => t.signature :: ResolvedType.signatures rest
end

/-- The generic name of a class type within a signature; also the key of the class in a catalog. -/
def ClassType.shortSignature (c : ClassType) : String :=
  c.declaration.name.short ++ bracketed (ResolvedType.signatures c.arguments) ""

/-- The erased signature of a type. -/
def ResolvedType.erasedSignature : ResolvedType → String
  | .primitive p => String.singleton p.letter
  | .array base dims => String.ofList (List.replicate dims '[') ++ base.erasedSignature
  | .classType declaration _ => declaration.name.signature
  | .typeVariable declared => declared.erasedSignature
  | .wildcard .upper bound => bound.erasedSignature
  | .wildcard .lower _ => objectSignature
  | .anyWildcard => objectSignature
  | .unknownClass name => name.signature
  | .nullType => ""

/-! ## Section 4: Names -/

/-- The brackets of an array in source text. -/
def brackets (dims : Nat) : String := String.join (List.replicate dims "[]")

/-- The name of a type within its innermost enclosing class. -/
def ResolvedType.simpleName : ResolvedType → String
  | .primitive p => p.keyword
  | .array base dims => base.simpleName ++ brackets dims
  | .classType declaration _ => declaration.name.simple
  | .typeVariable declared => declared.name
  | .anyWildcard => "?"
  | .wildcard _ _ => "?"
  | .unknownClass name => name.simple
  | .nullType => "null"

/-- The name of a type within its package. -/
def ResolvedType.dottedName : ResolvedType → String
  | .array base dims => base.dottedName ++ brackets dims
  | .classType declaration _ => declaration.name.dotted
  | .unknownClass name => name.dotted
  | t => t.simpleName

/-- The name of a type with its package, without arguments. -/
def ResolvedType.fullRawName : ResolvedType → String
  | .array base dims => base.fullRawName ++ brackets dims
  | .classType declaration _ => declaration.name.fullyDotted
  | .unknownClass name => name.fullyDotted
  | t => t.simpleName

mutual
/-- The name of a type with its package and its arguments. -/
def ResolvedType.fullName : ResolvedType → String
  | .array base dims => base.fullName ++ brackets dims
  | .classType declaration arguments =>
    declaration.name.fullyDotted ++ bracketed (ResolvedType.fullNames arguments) ","
  | .wildcard .upper bound => "? extends " ++ bound.fullName
  | .wildcard .lower bound => "? super " ++ bound.fullName
  | .unknownClass name => name.fullyDotted
  | .primitive p => p.keyword
  | .typeVariable declared => declared.name
  | .anyWildcard => "?"
  | .nullType => "null"
/-- The names of types with their packages and arguments. -/
def ResolvedType.fullNames : List ResolvedType → List String
  | [] => []
  | t :: rest => t.fullName :: ResolvedType.fullNames rest
end

mutual
/-- The name of a type to show: without packages, with arguments. -/
def ResolvedType.label : ResolvedType → String
  | .array base dims => base.label ++ brackets dims
  | .classType declaration arguments =>
    declaration.name.simple ++ bracketed (ResolvedType.labels arguments) ","
  | .wildcard .upper bound => "? extends " ++ bound.label
  | .wildcard .lower bound => "? super " ++ bound.label
  | .unknownClass name => name.simple
  | .primitive p => p.keyword
  | .typeVariable declared => declared.name
  | .anyWildcard => "?"
  | .nullType => "null"
/-- The names of types to show. -/
def ResolvedType.labels : List ResolvedType → List String
  | [] => []
  | t :: rest => t.label :: ResolvedType.labels rest
end

/-- The name of a class type to show. -/
def ClassType.label (c : ClassType) : String := c.toType.label

/-! ## Section 5: Properties -/

/-- The kind of a type. -/
def ResolvedType.kind : ResolvedType → TypeKind
  | .primitive _ => .primitiveKind
  | .array _ _ => .arrayKind
  | .classType declaration _ => declaration.kind
  | .typeVariable _ | .anyWildcard | .wildcard _ _ => .variableKind
  | .unknownClass _ | .nullType => .classKind

/-- The fields of a type: those a class declares, and the length of an array. -/
def ResolvedType.fields : ResolvedType → List Field
  | .classType declaration _ => declaration.fields
  | .array _ _ => [Field.arrayLength]
  | _ => []

/-- Whether two types are the same. Class types are if their signatures are the same text, whatever
    their declarations are. -/
def ResolvedType.same : ResolvedType → ResolvedType → Bool
  | .primitive p, .primitive q => p == q
  | .array a m, .array b n => a.same b && m == n
  | .classType d as, .classType e bs =>
    ClassType.shortSignature ⟨d, as⟩ == ClassType.shortSignature ⟨e, bs⟩
  | .typeVariable v, .typeVariable w => v == w
  | .anyWildcard, .anyWildcard => true
  | .wildcard j a, .wildcard k b => j == k && a.same b
  | .unknownClass n, .unknownClass m => n == m
  | .nullType, .nullType => true
  | _, _ => false

end TypeCatalog
