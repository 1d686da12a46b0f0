/-! # Faults in signatures

    What can be wrong with a signature. A found character is the first byte of the character that
    stood there, shown as the character of that number.
-/

set_option autoImplicit false

namespace TypeCatalog

/-- Why a text is not a signature. -/
inductive SignatureFault where
  /-- One character had to stand there and another one did. -/
  | expected (wanted found : Char)
  /-- One character had to stand there and the text ended. -/
  | expectedBeforeEnd (wanted : Char)
  /-- Something follows the signature. -/
  | trailing
  /-- A name is empty. -/
  | nameMissing
  /-- No type starts with the character. -/
  | notAType (found : Char)
  /-- The text ended where a type had to stand. -/
  | typeMissing
  /-- A class type does not go on with the character. -/
  | notInClass (found : Char)
  /-- The text ended inside a class type. -/
  | classUnfinished
  /-- The text ended inside type arguments. -/
  | argumentsUnfinished
  /-- There are angle brackets without a type argument between them. -/
  | argumentsEmpty
  /-- The text ended inside the declared type variables. -/
  | variablesUnfinished
  /-- There are angle brackets without a type variable between them. -/
  | variablesEmpty
  /-- The text ended inside the parameters. -/
  | parametersUnfinished
  deriving DecidableEq, Repr

/-- The wording of a fault. -/
def SignatureFault.message : SignatureFault → String
  | expected wanted found =>
    "expected '" ++ String.singleton wanted ++ "' but found '" ++ String.singleton found ++ "'"
  | expectedBeforeEnd wanted =>
    "expected '" ++ String.singleton wanted ++ "' but reached the end"
  | trailing => "unexpected trailing characters"
  | nameMissing => "expected an identifier"
  | notAType found => "unexpected '" ++ String.singleton found ++ "' in type signature"
  | typeMissing => "unexpected end of type signature"
  | notInClass found => "unexpected '" ++ String.singleton found ++ "' in class type"
  | classUnfinished => "unterminated class type"
  | argumentsUnfinished => "unterminated type arguments"
  | argumentsEmpty => "empty type argument list"
  | variablesUnfinished => "unterminated type variables signature"
  | variablesEmpty => "empty type variables signature"
  | parametersUnfinished => "unterminated parameter list"

end TypeCatalog
