import TypeCatalog.Catalog.Basic

/-! # Resolution

    From signatures to types. Class names are looked up in the catalog, type variables in a scope.
    A class that is not known stays a name, without its arguments; a type variable that is not in
    scope becomes the root class.
-/

set_option autoImplicit false

namespace TypeCatalog

/-! ## Section 1: Scopes -/

/-- The type variables in effect where a signature stands. -/
structure Scope where
  /-- The variables that the method declares. They hide those of the class. -/
  methodVariables : List TypeVariable
  /-- The variables that the class declares. -/
  classVariables : List TypeVariable
  /-- The arguments of the class, one for each of its variables; none if it is not specialised. -/
  classArguments : List ResolvedType
  deriving Inhabited

/-- What a name of a type variable means. -/
inductive ScopedVariable where
  /-- A declared variable without a binding. -/
  | declared (v : TypeVariable)
  /-- A variable that is bound to a type. -/
  | bound (t : ResolvedType)

namespace Scope

/-- The scope without type variables. -/
def empty : Scope := ⟨[], [], []⟩

/-- The scope with the variables of a method. -/
def ofMethod (typeVariables : List TypeVariable) : Scope := ⟨typeVariables, [], []⟩

/-- The scope with other variables of a method. -/
def withMethod (s : Scope) (typeVariables : List TypeVariable) : Scope :=
  { s with methodVariables := typeVariables }

/-- The declared variable of a name. -/
def findVariable? (typeVariables : List TypeVariable) (name : String) : Option TypeVariable :=
  typeVariables.find? fun v => v.name == name

/-- What a name means. The variables of a specialised class are bound to its arguments. -/
def lookup? (s : Scope) (name : String) : Option ScopedVariable :=
  match findVariable? s.methodVariables name with
  | some v => some (.declared v)
  | none =>
    if s.classArguments.isEmpty then
      (findVariable? s.classVariables name).map .declared
    else
      ((s.classVariables.zip s.classArguments).find? fun (v, _) => v.name == name).map
        fun (_, t) => .bound t

end Scope

/-- The scope inside a class type. -/
def ClassType.scope (c : ClassType) : Scope := ⟨[], c.declaration.typeVariables, c.arguments⟩

/-! ## Section 2: Specialisation -/

/-- One type for each variable: those given, in order, and the default for the rest. -/
def fillArguments (default : ResolvedType) :
    List TypeVariable → List ResolvedType → List ResolvedType
  | [], _ => []
  | _ :: typeVariables, [] => default :: fillArguments default typeVariables []
  | _ :: typeVariables, t :: types => t :: fillArguments default typeVariables types

/-- The arguments of a class that is specialised with the given types: variables without one are
    bound to the root class, and types past the last variable are dropped. -/
def Catalog.argumentsFor (c : Catalog) (d : ClassDeclaration) (types : List ResolvedType) :
    List ResolvedType :=
  fillArguments c.objectType d.typeVariables types

/-- A class specialised with the given types. -/
def Catalog.specialise (c : Catalog) (t : ClassType) (types : List ResolvedType) : ClassType :=
  ⟨t.declaration, c.argumentsFor t.declaration types⟩

/-! ## Section 3: Resolution -/

/-- What a name of a type variable resolves to. -/
def Catalog.resolveVariable (c : Catalog) (s : Scope) (name : String) : ResolvedType :=
  match s.lookup? name with
  | some (.bound t) => t
  | some (.declared v) => .typeVariable v
  | none => c.objectType

mutual
/-- The type of a signature. -/
def Catalog.resolveSignature (c : Catalog) (s : Scope) : TypeSignature → ResolvedType
  | .primitive p => .primitive p
  | .array element => .arrayOf (c.resolveSignature s element) 1
  | .typeVariable name => c.resolveVariable s name
  | .classType name arguments =>
    match c.get? name with
    | none => .unknownClass ⟨name⟩
    | some known =>
      if arguments.isEmpty then known.toType
      else (c.specialise known (c.resolveArguments s arguments)).toType
/-- The type of a type argument. -/
def Catalog.resolveArgument (c : Catalog) (s : Scope) : TypeArgument → ResolvedType
  | .any => .anyWildcard
  | .upper bound => .wildcard .upper (c.resolveSignature s bound)
  | .lower bound => .wildcard .lower (c.resolveSignature s bound)
  | .exactly t => c.resolveSignature s t
/-- The types of type arguments. -/
def Catalog.resolveArguments (c : Catalog) (s : Scope) : List TypeArgument → List ResolvedType
  | [] => []
  | a :: rest => c.resolveArgument s a :: c.resolveArguments s rest
end

/-- The signature that a text is, either as it stands or as the inside of a class type. -/
def readSignature? (text : String) : Option TypeSignature :=
  match TypeSignature.parse text with
  | .ok t => some t
  | .error _ =>
    match TypeSignature.parse ("L" ++ text ++ ";") with
    | .ok t => some t
    | .error _ => none

/-- The type of a signature text. A class may be given by its short signature alone. A text that is
    no signature names a class that is not known. -/
def Catalog.resolve (c : Catalog) (s : Scope) (text : String) : ResolvedType :=
  match readSignature? text with
  | some t => c.resolveSignature s t
  | none => .unknownClass (.ofSignature text)

/-- The type of a signature text inside a class type, within a method that declares the given
    variables. -/
def Catalog.resolveIn (c : Catalog) (owner : ClassType) (methodVariables : List TypeVariable)
    (text : String) : ResolvedType :=
  c.resolve (owner.scope.withMethod methodVariables) text

/-- The supertypes of a class type, the superclass first. -/
def Catalog.supertypes (c : Catalog) (t : ClassType) : List ResolvedType :=
  t.declaration.superSignatures.map (c.resolveIn t [])

end TypeCatalog
