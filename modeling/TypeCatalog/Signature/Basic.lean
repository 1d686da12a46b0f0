import TypeCatalog.Primitive

/-! # Type signatures

    The generic type of a field, a parameter or a supertype, as a tree. A nested class is one name
    whose segments are joined with `$`, and only the arguments of its last segment are kept.
-/

set_option autoImplicit false

namespace TypeCatalog

mutual
/-- A type as a signature writes it. -/
inductive TypeSignature where
  /-- A primitive type or `void`. -/
  | primitive (p : Primitive)
  /-- A reference to a type variable. -/
  | typeVariable (name : String)
  /-- An array of the given elements. -/
  | array (element : TypeSignature)
  /-- A class by its binary name, with type arguments. -/
  | classType (name : String) (arguments : List TypeArgument)
/-- A type argument as a signature writes it. -/
inductive TypeArgument where
  /-- Any type at all. -/
  | any
  /-- Any type below the bound. -/
  | upper (bound : TypeSignature)
  /-- Any type above the bound. -/
  | lower (bound : TypeSignature)
  /-- Exactly one type. -/
  | exactly (type : TypeSignature)
end

instance : Inhabited TypeSignature := ⟨.primitive .void⟩

instance : Inhabited TypeArgument := ⟨.any⟩

/-- The root of the class hierarchy. -/
def objectName : String := "java/lang/Object"

namespace TypeSignature

/-- The type of every object. -/
def object : TypeSignature := classType objectName []

/-! ## Section 1: Arrays -/

/-- The number of array dimensions. -/
def dimensions : TypeSignature → Nat
  | array element => element.dimensions + 1
  | _ => 0

/-- The type below all array dimensions. -/
def innermost : TypeSignature → TypeSignature
  | array element => element.innermost
  | t => t

/-- An array of the given number of dimensions. -/
def ofDimensions : Nat → TypeSignature → TypeSignature
  | 0, t => t
  | n + 1, t => array (ofDimensions n t)

/-- A signature is its innermost type under its dimensions. -/
theorem ofDimensions_innermost : ∀ t : TypeSignature, ofDimensions t.dimensions t.innermost = t
  | array element => by
    rw [dimensions, innermost, ofDimensions, ofDimensions_innermost element]
  | primitive _ => rfl
  | typeVariable _ => rfl
  | classType _ _ => rfl

/-! ## Section 2: Erasure -/

/-- The type without its arguments; a type variable erases to the root class, since a signature by
    itself does not tell its bound. -/
def erasure : TypeSignature → TypeSignature
  | primitive p => primitive p
  | typeVariable _ => object
  | array element => array element.erasure
  | classType name _ => classType name []

end TypeSignature

mutual
/-- Whether a type variable occurs in a type. -/
def TypeSignature.mentionsVariable : TypeSignature → Bool
  | .primitive _ => false
  | .typeVariable _ => true
  | .array element => element.mentionsVariable
  | .classType _ arguments => TypeArgument.anyMentionsVariable arguments
/-- Whether a type variable occurs in a type argument. -/
def TypeArgument.mentionsVariable : TypeArgument → Bool
  | .any => false
  | .upper bound => bound.mentionsVariable
  | .lower bound => bound.mentionsVariable
  | .exactly type => type.mentionsVariable
/-- Whether a type variable occurs in one of several type arguments. -/
def TypeArgument.anyMentionsVariable : List TypeArgument → Bool
  | [] => false
  | a :: rest => a.mentionsVariable || TypeArgument.anyMentionsVariable rest
end

/-! ## Section 3: Type variables -/

/-- What a bound of a type variable is. -/
inductive BoundKind where
  | classBound
  | interfaceBound
  deriving DecidableEq, Repr

/-- The word that names a kind of bound. -/
def BoundKind.label : BoundKind → String
  | .classBound => "class"
  | .interfaceBound => "interface"

/-- An upper bound of a type variable, as the signature writes it. -/
structure Bound where
  /-- Whether the bound is a class or an interface. -/
  kind : BoundKind
  /-- The type signature of the bound. -/
  signature : String
  deriving DecidableEq, Repr

/-- A declared type variable with its bounds in the order of their declaration. -/
structure TypeVariable where
  /-- The name of the variable. -/
  name : String
  /-- Its upper bounds. -/
  bounds : List Bound
  deriving DecidableEq, Repr, Inhabited

end TypeCatalog
