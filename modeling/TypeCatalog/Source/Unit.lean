import TypeCatalog.Text.Blank
import TypeCatalog.Text.Segment

/-! # Declarations of a source file

    What is kept of a source file: the package, the types with their type variables, and of each
    member its name, its documentation and the types of its parameters as they are written. Bodies
    and initialisers are not kept.
-/

set_option autoImplicit false

namespace TypeCatalog.Source

/-! ## Section 1: Documentation -/

/-- The text with one character taken off the front, if it starts with it. -/
def stripFirst (c : Char) (s : List Char) : List Char :=
  match s with
  | [] => []
  | d :: rest => if d = c then rest else d :: rest

/-- What stands between the marks of a documentation comment. -/
def commentBody (comment : List Char) : List Char :=
  let opened := if ['/', '*', '*'].isPrefixOf comment then comment.drop 3 else comment
  if ['*', '/'].isSuffixOf opened then opened.dropLast.dropLast else opened

/-- A line of a documentation comment without its margin. -/
def withoutMargin (line : List Char) : List Char :=
  Text.trimRight (stripFirst ' ' (stripFirst '*' (Text.trimLeft line)))

/-- The text of a documentation comment without its marks and margins. -/
def docsText (comment : String) : String :=
  let lines := (Text.segments '\n' (commentBody comment.toList)).map withoutMargin
  String.ofList (Text.trim (['\n'].intercalate lines))

/-! ## Section 2: Types and members -/

/-- A type as it is written, cut down to the last part of its name and the number of its
    dimensions. A parameter of variable arity has one dimension more. -/
structure WrittenType where
  name : String
  dimensions : Nat
  deriving DecidableEq, Repr, Inhabited

/-- A parameter of a method or a constructor. -/
structure Parameter where
  name : String
  type : WrittenType
  deriving DecidableEq, Repr, Inhabited

/-- What a member is. -/
inductive MemberKind where
  | field
  | method
  | constructor
  deriving DecidableEq, Repr, Inhabited

/-- A member of a type. Fields have neither type variables nor parameters. -/
structure Member where
  kind : MemberKind
  name : String
  docs : String
  /-- The names of the type variables declared by the member. -/
  typeVariables : List String
  parameters : List Parameter
  deriving DecidableEq, Repr, Inhabited

/-- A field or an enum constant. -/
def Member.ofField (docs name : String) : Member := ⟨.field, name, docs, [], []⟩

/-- A class, an interface, an enum, a record or an annotation type. -/
structure TypeUnit where
  name : String
  docs : String
  /-- The names of the type variables declared here or by an enclosing type. -/
  typeVariables : List String
  members : List Member
  /-- The types declared inside. -/
  types : List TypeUnit
  deriving Repr, Inhabited

/-- A source file. -/
structure SourceUnit where
  /-- The dotted name of the package, empty for the unnamed one. -/
  package : String
  types : List TypeUnit
  deriving Repr, Inhabited

/-! ## Section 3: Finding a type -/

/-- The type that a path of simple names leads to. -/
def findNested (types : List TypeUnit) (path : List String) : Option TypeUnit :=
  match path with
  | [] => none
  | [name] => types.find? (·.name == name)
  | name :: path => do
    let t ← types.find? (·.name == name)
    findNested t.types path

/-- The package of a top-level name and its last part. -/
def packageAndName (top : List Char) : String × String :=
  (String.ofList (Text.replace '/' '.' (Text.beforeLast '/' top)),
    String.ofList (Text.afterLast '/' top))

/-- The type of a binary name, if the file declares it. -/
def SourceUnit.findType? (u : SourceUnit) (name : String) : Option TypeUnit :=
  match Text.segments '$' name.toList with
  | [] => none
  | top :: nested =>
    let (package, simple) := packageAndName top
    if package = u.package then findNested u.types (simple :: nested.map String.ofList) else none

end TypeCatalog.Source
