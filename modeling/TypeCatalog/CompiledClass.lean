/-! # Compiled classes

    What a class file says about types: names, flags, members and attributes, with every index of
    the constant pool resolved. Documentation and parameter names are not in class files; they are
    empty until source text fills them in.
-/

set_option autoImplicit false

namespace TypeCatalog

/-- The version of a class file. -/
structure ClassVersion where
  minor : UInt16
  major : UInt16
  deriving DecidableEq, Repr, Inhabited

/-- The body of an attribute: the base64 text of a code body, the bytes of any other. -/
inductive AttributeBody where
  | encoded (text : String)
  | raw (bytes : List UInt8)
  deriving DecidableEq, Repr, Inhabited

/-- An attribute of a class, a field or a method. -/
structure Attribute where
  name : String
  body : AttributeBody
  /-- The generic signature, for attributes that give one. -/
  signature : Option String
  deriving DecidableEq, Repr, Inhabited

/-- A field of a compiled class. -/
structure CompiledField where
  flags : UInt16
  name : String
  /-- The erased type of the field. -/
  descriptor : String
  attributes : List Attribute
  docs : String
  deriving DecidableEq, Repr, Inhabited

/-- A method, a constructor or the class initialiser of a compiled class. -/
structure CompiledMethod where
  flags : UInt16
  name : String
  /-- The erased types of the parameters and of the result. -/
  descriptor : String
  attributes : List Attribute
  docs : String
  parameterNames : List String
  deriving DecidableEq, Repr, Inhabited

/-- A compiled class, interface or enum. -/
structure CompiledClass where
  version : ClassVersion
  flags : UInt16
  /-- The binary name of the class. -/
  name : String
  /-- The binary name of the superclass; only the root class has none. -/
  superclass : Option String
  /-- The binary names of the interfaces. -/
  interfaces : List String
  fields : List CompiledField
  methods : List CompiledMethod
  attributes : List Attribute
  docs : String
  deriving DecidableEq, Repr, Inhabited

/-- The name of the attribute that gives a generic signature. -/
def Attribute.signatureName : String := "Signature"

/-- The name of the attribute that holds the code of a method. -/
def Attribute.codeName : String := "Code"

/-- The generic signature that the first signature attribute gives. -/
def signatureOf? (attributes : List Attribute) : Option String :=
  (attributes.find? fun a => a.name == Attribute.signatureName).bind Attribute.signature

/-- Whether there is an attribute of that name. -/
def hasAttribute (attributes : List Attribute) (name : String) : Bool :=
  attributes.any fun a => a.name == name

end TypeCatalog
