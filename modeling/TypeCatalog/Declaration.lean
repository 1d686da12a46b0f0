import TypeCatalog.BinaryName
import TypeCatalog.CompiledClass
import TypeCatalog.Modifiers
import TypeCatalog.Signature.Parse

/-! # Declarations

    A class as it is declared: its type variables and supertypes, fields, methods and constructors,
    before any type arguments are applied. Types stay signature texts here; they are resolved in
    the scope of their declaration when they are asked for.
-/

set_option autoImplicit false

namespace TypeCatalog

/-! ## Section 1: Members -/

/-- A declared field. -/
structure Field where
  name : String
  /-- The generic type of the field, or its erased type if it has no generic one. -/
  signature : String
  modifiers : Modifiers
  docs : String
  deriving DecidableEq, Repr, Inhabited

namespace Field

/-- The field that a compiled one declares. -/
def ofCompiled (f : CompiledField) : Field :=
  ⟨f.name, (signatureOf? f.attributes).getD f.descriptor, ⟨f.flags⟩, f.docs⟩

/-- The one field that arrays have. -/
def arrayLength : Field := ⟨"length", "I", ⟨Modifiers.publicFlag⟩, ""⟩

/-- Whether the field is a constant of an enum. -/
def isEnumConstant (f : Field) : Bool := f.modifiers.has Modifiers.enumFlag

/-- Whether the compiler made the field up. -/
def isSynthetic (f : Field) : Bool := f.modifiers.has Modifiers.syntheticFlag

end Field

/-- What methods and constructors have in common. -/
structure Callable where
  modifiers : Modifiers
  docs : String
  /-- The signature that the parts were read from. -/
  signature : String
  /-- The parts of the signature. -/
  parts : MethodSignature
  /-- The names of the parameters, as far as they are known. -/
  parameterNames : List String
  /-- Whether there is a body; abstract and native methods have none. -/
  hasCode : Bool
  deriving DecidableEq, Repr, Inhabited

namespace Callable

/-- The callable of a compiled method with the given signature. -/
def ofCompiled (m : CompiledMethod) (signature : String) : Except SignatureError Callable := do
  let parts ← MethodSignature.parse signature
  return ⟨⟨m.flags⟩, m.docs, signature, parts, m.parameterNames,
    hasAttribute m.attributes Attribute.codeName⟩

/-- Whether the compiler made it up. -/
def isSynthetic (c : Callable) : Bool := c.modifiers.has Modifiers.syntheticFlag

/-- Whether its last parameter takes any number of arguments. -/
def isVariableArity (c : Callable) : Bool :=
  !c.parts.parameters.isEmpty && c.modifiers.has Modifiers.varargsFlag

end Callable

/-- A declared method. -/
structure Method extends Callable where
  name : String
  deriving DecidableEq, Repr, Inhabited

/-- A declared constructor. -/
structure Constructor extends Callable
  deriving DecidableEq, Repr, Inhabited

namespace CompiledMethod

/-- The name that constructors have in class files. -/
def constructorName : String := "<init>"

/-- The name that the class initialiser has in class files. -/
def initializerName : String := "<clinit>"

/-- The signature of a method: the generic one if it has one. -/
def methodSignature (m : CompiledMethod) : String :=
  (signatureOf? m.attributes).getD m.descriptor

/-- The signature of a constructor: the generic one only if it has to do with type variables. The
    generic signature of a constructor leaves out parameters that the compiler adds, such as the
    outer instance, so without type variables the descriptor tells more. -/
def constructorSignature (m : CompiledMethod) : String :=
  match signatureOf? m.attributes with
  | none => m.descriptor
  | some generic =>
    match MethodSignature.parse generic with
    | .ok parts => if parts.mentionsVariable then generic else m.descriptor
    | .error _ => m.descriptor

end CompiledMethod

/-- The method that a compiled one declares. -/
def Method.ofCompiled (m : CompiledMethod) : Except SignatureError Method := do
  let base ← Callable.ofCompiled m m.methodSignature
  return ⟨base, m.name⟩

/-- The constructor that a compiled one declares. -/
def Constructor.ofCompiled (m : CompiledMethod) : Except SignatureError Constructor := do
  let base ← Callable.ofCompiled m m.constructorSignature
  return ⟨base⟩

/-! ## Section 2: Classes -/

/-- A class, interface, enum or annotation interface as it is declared. -/
structure ClassDeclaration where
  name : BinaryName
  modifiers : Modifiers
  docs : String
  typeVariables : List TypeVariable
  /-- The type signatures of the supertypes, the superclass first. -/
  superSignatures : List String
  fields : List Field
  methods : List Method
  constructors : List Constructor
  deriving DecidableEq, Repr, Inhabited

namespace ClassDeclaration

/-- The kind of the class. -/
def kind (d : ClassDeclaration) : TypeKind := TypeKind.ofModifiers d.modifiers

/-- The generic declaration of a compiled class. Without a generic signature the supertypes are the
    superclass and the interfaces by name. -/
def genericPart (c : CompiledClass) : Except SignatureError ClassSignature :=
  match signatureOf? c.attributes with
  | some signature => ClassSignature.parse signature
  | none =>
    .ok ⟨[], (c.superclass.toList ++ c.interfaces).map fun name => BinaryName.signature ⟨name⟩⟩

/-- The methods and the constructors among compiled methods, each in order. The class initialiser is
    neither. -/
def callables : List CompiledMethod → Except SignatureError (List Method × List Constructor)
  | [] => .ok ([], [])
  | m :: rest =>
    if m.name = CompiledMethod.constructorName then do
      let c ← Constructor.ofCompiled m
      let (methods, constructors) ← callables rest
      return (methods, c :: constructors)
    else if m.name = CompiledMethod.initializerName then callables rest
    else do
      let found ← Method.ofCompiled m
      let (methods, constructors) ← callables rest
      return (found :: methods, constructors)

/-- The declaration of a compiled class, unless one of its signatures is none. -/
def ofCompiled (c : CompiledClass) : Except SignatureError ClassDeclaration := do
  let generic ← genericPart c
  let (methods, constructors) ← callables c.methods
  return ⟨⟨c.name⟩, ⟨c.flags⟩, c.docs, generic.typeVariables, generic.supertypes,
    c.fields.map Field.ofCompiled, methods, constructors⟩

end ClassDeclaration

end TypeCatalog
