import TypeCatalog.Text.Segment

/-! # Binary names of classes

    A class is named by its package, with `/` between the parts, and its simple name; a nested class
    puts the name of its outer class and `$` before its own. The same name is written with dots in
    source text, and between `L` and `;` in signatures.
-/

set_option autoImplicit false

namespace TypeCatalog

/-- The binary name of a class. -/
structure BinaryName where
  /-- The name as class files write it. -/
  short : String
  deriving DecidableEq, Repr, Inhabited

namespace BinaryName

/-- The name within the package. -/
def unqualified (n : BinaryName) : List Char := Text.afterLast '/' n.short.toList

/-- The package, with dots; empty for the default package. -/
def package (n : BinaryName) : String :=
  String.ofList (Text.replace '/' '.' (Text.beforeLast '/' n.short.toList))

/-- The name within the innermost enclosing class. -/
def simple (n : BinaryName) : String := String.ofList (Text.afterLast '$' n.unqualified)

/-- The name within the package, with dots between nested classes. -/
def dotted (n : BinaryName) : String := String.ofList (Text.replace '$' '.' n.unqualified)

/-- The name with its package, with dots throughout. -/
def fullyDotted (n : BinaryName) : String :=
  String.ofList (Text.replace '$' '.' (Text.replace '/' '.' n.short.toList))

/-- The name as a type signature. -/
def signature (n : BinaryName) : String := "L" ++ n.short ++ ";"

/-- The characters between a leading `L` and a trailing `;`, if the text has both. -/
def insideSignature? (s : List Char) : Option (List Char) :=
  match s with
  | 'L' :: rest =>
    match rest.getLast? with
    | some ';' => some rest.dropLast
    | _ => none
  | _ => none

/-- The name that a text gives, as a signature or by itself. -/
def ofSignature (text : String) : BinaryName :=
  match insideSignature? text.toList with
  | some inside => ⟨String.ofList inside⟩
  | none => ⟨text⟩

end BinaryName

end TypeCatalog
