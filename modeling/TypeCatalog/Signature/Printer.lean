import TypeCatalog.Signature.Basic

/-! # Printing signatures

    The text of a type signature. A class type puts its arguments, if it has any, between angle
    brackets after its name and ends with a semicolon; `*`, `+` and `-` mark the arguments that are
    not one exact type.
-/

set_option autoImplicit false

namespace TypeCatalog

mutual
/-- The characters of a type signature. -/
def TypeSignature.chars : TypeSignature → List Char
  | .primitive p => [p.letter]
  | .typeVariable name => 'T' :: name.toList ++ [';']
  | .array element => '[' :: element.chars
  | .classType name [] => 'L' :: name.toList ++ [';']
  | .classType name (a :: rest) =>
    'L' :: name.toList ++ '<' :: (a.chars ++ TypeArgument.listChars rest) ++ ['>', ';']
/-- The characters of a type argument. -/
def TypeArgument.chars : TypeArgument → List Char
  | .any => ['*']
  | .upper bound => '+' :: bound.chars
  | .lower bound => '-' :: bound.chars
  | .exactly type => type.chars
/-- The characters of type arguments, one after the other. -/
def TypeArgument.listChars : List TypeArgument → List Char
  | [] => []
  | a :: rest => a.chars ++ TypeArgument.listChars rest
end

/-- The text of a type signature. -/
def TypeSignature.text (t : TypeSignature) : String := String.ofList t.chars

/-- The text of a type argument. -/
def TypeArgument.text (a : TypeArgument) : String := String.ofList a.chars

/-- The signature of the root class. -/
def objectSignature : String := TypeSignature.object.text

/-- The text of a bound: an interface is marked with a colon. -/
def Bound.text (b : Bound) : String :=
  match b.kind with
  | .classBound => b.signature
  | .interfaceBound => ":" ++ b.signature

/-- The text of a type variable: its name, a colon and its bounds. -/
def TypeVariable.text (v : TypeVariable) : String :=
  v.name ++ ":" ++ String.join (v.bounds.map Bound.text)

/-- The text of a list of type variables between angle brackets; nothing for an empty list. -/
def TypeVariable.listText (typeVariables : List TypeVariable) : String :=
  if typeVariables.isEmpty then ""
  else "<" ++ String.join (typeVariables.map TypeVariable.text) ++ ">"

end TypeCatalog
