import TypeCatalog.Member

/-! # Calls

    A method as it looks from a call: the types of the arguments tell what its type variables stand
    for. Parameters are matched with arguments from left to right, and the first argument that
    tells something about a variable decides. Variables that no argument tells about stay.
-/

set_option autoImplicit false

namespace TypeCatalog

/-- What type variables stand for, by name. -/
abbrev Bindings := List (String × ResolvedType)

namespace Bindings

/-- What a variable stands for. -/
def get? (b : Bindings) (name : String) : Option ResolvedType :=
  (b.find? fun (n, _) => n == name).map Prod.snd

/-- Let a variable stand for a type from now on. -/
def bind (b : Bindings) (name : String) (t : ResolvedType) : Bindings := (name, t) :: b

/-- The variables that stand for nothing. -/
def unbound (b : Bindings) (typeVariables : List TypeVariable) : List TypeVariable :=
  typeVariables.filter fun v => (b.get? v.name).isNone

end Bindings

/-! ## Section 1: Substitution -/

mutual
/-- A type with what its variables stand for in their place. -/
def Catalog.substitute (c : Catalog) (b : Bindings) : ResolvedType → ResolvedType
  | .typeVariable v => (b.get? v.name).getD (.typeVariable v)
  | .array base dims => .arrayOf (c.substitute b base) dims
  | .classType d arguments =>
    if arguments.isEmpty then .classType d arguments
    else .classType d (c.argumentsFor d (c.substituteAll b arguments))
  | .wildcard kind bound => .wildcard kind (c.substitute b bound)
  | .primitive p => .primitive p
  | .anyWildcard => .anyWildcard
  | .unknownClass n => .unknownClass n
  | .nullType => .nullType
/-- Types with what their variables stand for in their place. -/
def Catalog.substituteAll (c : Catalog) (b : Bindings) : List ResolvedType → List ResolvedType
  | [] => []
  | t :: rest => c.substitute b t :: c.substituteAll b rest
end

/-! ## Section 2: Inference -/

/-- What an argument gives for the elements of an array parameter: an array of as many dimensions
    its elements, and null null. -/
def elementArgument? (dims : Nat) : Option ResolvedType → Option ResolvedType
  | some (.array base n) => stripDimensions base n dims
  | some .nullType => some .nullType
  | _ => none

/-- What an argument gives for the bound of a wildcard: its own bound if it is a wildcard too. -/
def boundArgument? : Option ResolvedType → Option ResolvedType
  | some (.wildcard _ bound) => some bound
  | some .anyWildcard => none
  | argument => argument

mutual
/-- Match the type of a parameter with that of an argument, if there is one: the type that the
    parameter has in the call, and what variables stand for afterwards. Null fits any type and
    tells nothing. -/
def Catalog.infer (c : Catalog) (b : Bindings) (parameter : ResolvedType)
    (argument : Option ResolvedType) : ResolvedType × Bindings :=
  match parameter with
  | .typeVariable v =>
    match b.get? v.name with
    | some t => (t, b)
    | none =>
      match argument with
      | none => (.typeVariable v, b)
      | some .nullType => (.typeVariable v, b)
      | some t => (t, b.bind v.name t)
  | .array base dims =>
    match elementArgument? dims argument with
    | some element =>
      let (t, b') := c.infer b base (some element)
      (.arrayOf t dims, b')
    | none => (c.substitute b (.array base dims), b)
  | .classType d arguments =>
    if arguments.isEmpty then (.classType d arguments, b)
    else
      match argument with
      | some (.classType _ given) =>
        let (types, b') := c.inferAll b arguments given
        (.classType d (c.argumentsFor d types), b')
      | _ => (c.substitute b (.classType d arguments), b)
  | .wildcard kind bound =>
    let (t, b') := c.infer b bound (boundArgument? argument)
    (.wildcard kind t, b')
  | .primitive p => (.primitive p, b)
  | .anyWildcard => (.anyWildcard, b)
  | .unknownClass n => (.unknownClass n, b)
  | .nullType => (.nullType, b)
/-- Match type arguments one by one. Those past the last one given stay as they are. -/
def Catalog.inferAll (c : Catalog) (b : Bindings) (parameters : List ResolvedType)
    (given : List ResolvedType) : List ResolvedType × Bindings :=
  match parameters with
  | [] => ([], b)
  | p :: rest =>
    match given with
    | [] => (p :: rest, b)
    | g :: others =>
      let (t, b') := c.infer b p (some g)
      let (types, b'') := c.inferAll b' rest others
      (t :: types, b'')
end

/-- Match parameters with arguments from left to right; there may be too few arguments. -/
def Catalog.inferParameters (c : Catalog) (b : Bindings) :
    List Parameter → List ResolvedType → List Parameter × Bindings
  | [], _ => ([], b)
  | p :: rest, arguments =>
    let (t, b') := c.infer b p.type arguments.head?
    let (others, b'') := c.inferParameters b' rest arguments.tail
    ({ p with type := t } :: others, b'')

/-! ## Section 3: Calls -/

/-- A method as it looks from a call. -/
structure MethodCall where
  owner : ClassType
  name : String
  modifiers : Modifiers
  parameters : List Parameter
  result : ResolvedType
  /-- The type variables that no argument tells about. -/
  unbound : List TypeVariable

/-- A constructor as it looks from a call. -/
structure ConstructorCall where
  owner : ClassType
  modifiers : Modifiers
  parameters : List Parameter
  /-- The type variables that no argument tells about. -/
  unbound : List TypeVariable

/-- A call of a method on a class type. -/
def Method.call (m : Method) (c : Catalog) (owner : ClassType) (arguments : List ResolvedType) :
    MethodCall :=
  let (parameters, b) := c.inferParameters [] (m.parameters c owner) arguments
  { owner := owner
    name := m.name
    modifiers := m.modifiers
    parameters := parameters
    result := c.substitute b (m.resultType c owner)
    unbound := b.unbound m.parts.typeVariables }

/-- A call of a constructor of a class type. -/
def Constructor.call (m : Constructor) (c : Catalog) (owner : ClassType)
    (arguments : List ResolvedType) : ConstructorCall :=
  let (parameters, b) := c.inferParameters [] (m.parameters c owner) arguments
  { owner := owner
    modifiers := m.modifiers
    parameters := parameters
    unbound := b.unbound m.parts.typeVariables }

/-- A method call to show. -/
def MethodCall.label (m : MethodCall) : String :=
  methodLabel m.modifiers m.result m.name m.parameters

/-- A constructor call to show. -/
def ConstructorCall.label (m : ConstructorCall) : String :=
  constructorLabel m.modifiers m.owner m.parameters

end TypeCatalog
