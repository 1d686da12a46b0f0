import TypeCatalog.Catalog.Resolve
import TypeCatalog.Signature.Substitution

/-! # Members of class types

    The fields, methods and constructors of a class as they look on a class type: with their types
    resolved in the scope of that type, and with labels to show.
-/

set_option autoImplicit false

namespace TypeCatalog

/-! ## Section 1: Fields -/

/-- The type of a field on a class type. -/
def Field.type (f : Field) (c : Catalog) (owner : ClassType) : ResolvedType :=
  c.resolve owner.scope f.signature

/-- A field to show: modifiers, type and name. -/
def Field.label (f : Field) (c : Catalog) (owner : ClassType) : String :=
  f.modifiers.label ++ (f.type c owner).label ++ " " ++ f.name

/-! ## Section 2: Parameters -/

/-- A parameter of a method or a constructor. -/
structure Parameter where
  name : String
  type : ResolvedType
  /-- Whether it takes any number of arguments. -/
  isVariableArity : Bool
  deriving Inhabited

/-- The text without a suffix, if it ends in it. -/
def dropSuffix? (suffix s : List Char) : Option (List Char) :=
  if suffix.isSuffixOf s then some (s.take (s.length - suffix.length)) else none

/-- The type of a parameter that takes any number of arguments: three dots in place of the last
    brackets, or after the type if there are none. -/
def variableArityLabel (label : String) : String :=
  match dropSuffix? ['[', ']'] label.toList with
  | some element => String.ofList element ++ "..."
  | none => label ++ "..."

/-- A parameter to show: type and name. -/
def Parameter.label (p : Parameter) : String :=
  (if p.isVariableArity then variableArityLabel p.type.label else p.type.label) ++ " " ++ p.name

/-- The parameters to show. -/
def parametersLabel (parameters : List Parameter) : String :=
  ", ".intercalate (parameters.map Parameter.label)

/-! ## Section 3: Methods and constructors -/

namespace Callable

/-- The scope inside a method or a constructor of a class type. -/
def scope (m : Callable) (owner : ClassType) : Scope := owner.scope.withMethod m.parts.typeVariables

/-- The parameter of an index. Parameters without a known name are numbered. -/
def parameter (m : Callable) (c : Catalog) (owner : ClassType) (index : Nat) (signature : String) :
    Parameter where
  name := (m.parameterNames[index]?).getD ("arg" ++ toString index)
  type := c.resolve (m.scope owner) signature
  isVariableArity := m.isVariableArity && index + 1 == m.parts.parameters.length

/-- The parameters on a class type. -/
def parameters (m : Callable) (c : Catalog) (owner : ClassType) : List Parameter :=
  m.parts.parameters.zipIdx.map fun (signature, index) => m.parameter c owner index signature

/-- The type of the result on a class type. -/
def resultType (m : Callable) (c : Catalog) (owner : ClassType) : ResolvedType :=
  c.resolve (m.scope owner) m.parts.result

/-- What stands for a type argument in a signature: a wildcard by its bound, and the root class if
    it has none. -/
def argumentSignature : ResolvedType → String
  | .wildcard _ bound => bound.signature
  | .anyWildcard => objectSignature
  | t => t.signature

/-- What a type variable of the owner is replaced with in the signature of a method. -/
def ownerArgument? (m : Callable) (owner : ClassType) (name : String) : Option String :=
  if m.parts.typeVariables.any fun v => v.name == name then none
  else
    (owner.bindings.find? fun (v, _) => v.name == name).map fun (_, t) => argumentSignature t

/-- The signature with the arguments of the owner in place of its type variables, so that the same
    method inherited along two ways has one signature. -/
def signatureIn (m : Callable) (owner : ClassType) : String :=
  if m.parts.typeVariables.isEmpty && !owner.isSpecialised then m.signature
  else Signature.substitute (m.ownerArgument? owner) m.signature

end Callable

/-- A method to show. The keywords that tell about its body are left out, and so is the flag it
    shares with fields. -/
def methodLabel (modifiers : Modifiers) (result : ResolvedType) (name : String)
    (parameters : List Parameter) : String :=
  let keywords := modifiers.keywords.filter fun k =>
    !(["abstract", "transient", "native"].contains k)
  Modifiers.labelOf keywords ++ result.label ++ " " ++ name ++ "("
    ++ parametersLabel parameters ++ ")"

/-- A constructor to show. -/
def constructorLabel (modifiers : Modifiers) (owner : ClassType) (parameters : List Parameter) :
    String :=
  Modifiers.labelOf (modifiers.keywords.filter (· != "transient")) ++ owner.declaration.name.simple
    ++ "(" ++ parametersLabel parameters ++ ")"

/-- A method on a class type to show. -/
def Method.label (m : Method) (c : Catalog) (owner : ClassType) : String :=
  methodLabel m.modifiers (m.resultType c owner) m.name (m.parameters c owner)

/-- A method on a class type to show in little space. -/
def Method.shortLabel (m : Method) (c : Catalog) (owner : ClassType) : String :=
  m.name ++ "(" ++ parametersLabel (m.parameters c owner) ++ "): "
    ++ (m.resultType c owner).simpleName

/-- A constructor on a class type to show. -/
def Constructor.label (m : Constructor) (c : Catalog) (owner : ClassType) : String :=
  constructorLabel m.modifiers owner (m.parameters c owner)

end TypeCatalog
