import TypeCatalog.Member

/-! # Inherited members

    The fields and methods of a name that a class type has, its own and those of its supertypes. The
    supertypes are searched breadth first, each class type once; a method whose signature was found
    before is the same method seen from further up and is skipped. Supertypes can grow without end,
    so the search takes the number of steps it may do.
-/

set_option autoImplicit false

namespace TypeCatalog

/-- A field and the class type that has it. -/
structure FoundField where
  owner : ClassType
  field : Field

/-- A method, the class type that has it, and its signature there. -/
structure FoundMethod where
  owner : ClassType
  method : Method
  signature : String

/-- The members of one name. -/
structure Declarations where
  fields : List FoundField
  methods : List FoundMethod
  deriving Inhabited

/-- A search that is under way. -/
structure Search where
  /-- Class types that wait for their turn. -/
  queue : List ClassType
  /-- The short signatures of the class types that had it. -/
  visited : List String
  /-- What was found. -/
  found : Declarations

namespace Search

/-- The search from one class type. -/
def start (t : ClassType) : Search := ⟨[t], [], ⟨[], []⟩⟩

/-- Add a method, unless one of its signature was found before. -/
def addMethod (owner : ClassType) (found : List FoundMethod) (m : Method) : List FoundMethod :=
  let signature := m.signatureIn owner
  if found.any fun f => f.signature == signature then found
  else found ++ [⟨owner, m, signature⟩]

/-- The supertypes that are known classes. -/
def superclasses (c : Catalog) (t : ClassType) : List ClassType :=
  (c.supertypes t).filterMap ResolvedType.asClass?

/-- The members of a class type added to those found. -/
def collect (name : String) (found : Declarations) (t : ClassType) : Declarations where
  fields := found.fields ++
    (t.declaration.fields.filter fun f => f.name == name).map fun f => ⟨t, f⟩
  methods :=
    (t.declaration.methods.filter fun m => m.name == name).foldl (addMethod t) found.methods

/-- Take up a class type, after which the given ones wait. -/
def visit (c : Catalog) (name : String) (s : Search) (t : ClassType) (rest : List ClassType) :
    Search :=
  if s.visited.contains t.shortSignature then { s with queue := rest }
  else
    { queue := rest ++ superclasses c t
      visited := t.shortSignature :: s.visited
      found := collect name s.found t }

/-- Search until no class type waits. None if that takes more steps than allowed. -/
def run (c : Catalog) (name : String) : Nat → Search → Option Declarations
  | steps, s =>
    match s.queue with
    | [] => some s.found
    | t :: rest =>
      match steps with
      | 0 => none
      | n + 1 => run c name n (s.visit c name t rest)

end Search

/-- More steps than any hierarchy of classes needs that is not endless. -/
def searchLimit : Nat := 1000000

/-- The members of a name that a class type has. None if its hierarchy has no end in sight. -/
def Catalog.declarationsNamed (c : Catalog) (t : ClassType) (name : String) : Option Declarations :=
  Search.run c name searchLimit (.start t)

end TypeCatalog
