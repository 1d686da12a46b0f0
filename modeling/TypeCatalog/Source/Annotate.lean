import TypeCatalog.Declaration
import TypeCatalog.Source.Unit

/-! # Documentation and parameter names for compiled classes

    A compiled class and the declaration of the same type in a source file are put together:
    fields go by their names, methods and constructors by name and erased parameter types. A
    compiled member that the source does not declare keeps what it has.
-/

set_option autoImplicit false

namespace TypeCatalog.Source

/-! ## Section 1: Written types and erased types -/

/-- The last part of a binary name, as source text writes it. -/
def lastPart (name : String) : String :=
  String.ofList (Text.afterLast '$' (Text.afterLast '/' name.toList))

/-- Whether an erased type can be the compiled form of a written type. A type variable erases to
    its bound, so every class of the same dimensions will do for one. -/
def WrittenType.admits (t : WrittenType) (isVariable : Bool) (descriptor : String) : Bool :=
  match TypeSignature.parse descriptor with
  | .error _ => false
  | .ok parsed =>
    parsed.dimensions == t.dimensions &&
      match parsed.innermost with
      | .primitive p => p.keyword == t.name
      | .classType name _ => isVariable || lastPart name == t.name
      | .typeVariable _ => true
      | .array _ => false

/-- Whether parameters can be those of a method descriptor, where the variables are the names of the
    type variables in scope. -/
def admitParameters (typeVariables : List String) (parameters : List Parameter)
    (descriptors : List String) : Bool :=
  match parameters, descriptors with
  | [], [] => true
  | p :: ps, d :: ds =>
    p.type.admits (typeVariables.contains p.type.name) d && admitParameters typeVariables ps ds
  | _, _ => false

/-- Whether a method descriptor can be that of a member of a type with the given type variables. -/
def Member.admits (m : Member) (outer : List String) (descriptor : String) : Bool :=
  match MethodSignature.parse descriptor with
  | .error _ => false
  | .ok parts => admitParameters (m.typeVariables ++ outer) m.parameters parts.parameters

/-! ## Section 2: Members that belong together -/

/-- The list with its first item that a predicate holds on changed. -/
def updateFirst {α : Type} (p : α → Bool) (f : α → α) : List α → List α
  | [] => []
  | a :: rest => if p a then f a :: rest else a :: updateFirst p f rest

@[simp]
theorem length_updateFirst {α : Type} (p : α → Bool) (f : α → α) (s : List α) :
    (updateFirst p f s).length = s.length := by
  induction s with
  | nil => rfl
  | cons a rest ih =>
    unfold updateFirst
    split <;> simp [ih]

/-- The name of a member in class files. -/
def Member.compiledName (m : Member) : String :=
  match m.kind with
  | .constructor => CompiledMethod.constructorName
  | _ => m.name

/-- Whether a member is what a compiled method was made from. -/
def Member.isSourceOf (m : Member) (outer : List String) (compiled : CompiledMethod) : Bool :=
  compiled.name == m.compiledName && m.admits outer compiled.descriptor

/-- What a member says about a field of a class. -/
def Member.describeField (m : Member) (f : CompiledField) : CompiledField :=
  { f with docs := m.docs }

/-- What a member says about a method of a class. -/
def Member.describeMethod (m : Member) (compiled : CompiledMethod) : CompiledMethod :=
  { compiled with docs := m.docs, parameterNames := m.parameters.map Parameter.name }

/-- A compiled class with what one member says. -/
def Member.annotate (outer : List String) (c : CompiledClass) (m : Member) : CompiledClass :=
  match m.kind with
  | .field => { c with fields := updateFirst (·.name == m.name) m.describeField c.fields }
  | _ => { c with methods := updateFirst (m.isSourceOf outer) m.describeMethod c.methods }

/-- A compiled class with the documentation and the parameter names that its source declares. -/
def TypeUnit.annotate (t : TypeUnit) (c : CompiledClass) : CompiledClass :=
  t.members.foldl (Member.annotate t.typeVariables) { c with docs := t.docs }

end TypeCatalog.Source
