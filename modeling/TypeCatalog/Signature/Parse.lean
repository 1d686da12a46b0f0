import TypeCatalog.Signature.Printer
import TypeCatalog.Signature.Reader

/-! # Whole texts as signatures

    The five kinds of text that are read: one type, the declaration of a class, a list of type
    variables, a list of types, and the signature of a method. A text that is none is refused with
    the byte offset at which the reader stopped. The parts of a declaration or of a method are kept
    as the text that stood there, so printing one gives back what was read.
-/

set_option autoImplicit false

namespace TypeCatalog

/-- A text that is not a signature. -/
structure SignatureError where
  /-- The text. -/
  signature : String
  /-- The offset of the fault in bytes. -/
  offset : Nat
  /-- What is wrong there. -/
  fault : SignatureFault
  deriving DecidableEq, Repr

/-- The wording of an error. -/
def SignatureError.message (e : SignatureError) : String :=
  "Invalid signature '" ++ e.signature ++ "' at offset " ++ toString e.offset ++ ": "
    ++ e.fault.message

namespace Signature

/-- Place a fault in the text it was found in. -/
def Halt.inText (text : String) (h : Halt) : SignatureError :=
  ⟨text, Text.Utf8.size text.toList - Text.Utf8.size h.left, h.fault⟩

/-- Run a reader on a text. -/
def run {α : Type} (reader : List Char → Except Halt α) (text : String) :
    Except SignatureError α :=
  (reader text.toList).mapError (Halt.inText text)

/-- One type and nothing after it. -/
def wholeType (s : List Char) : Except Halt TypeSignature := do
  let (t, left) ← type s
  finish left.left
  return t

/-- A list of type variables and nothing after it. -/
def wholeVariableList (s : List Char) : Except Halt (List TypeVariable) := do
  let (found, left) ← variableList s
  finish left.left
  return found

end Signature

/-! ## Section 1: Types -/

/-- The type that a text is. -/
def TypeSignature.parse (text : String) : Except SignatureError TypeSignature :=
  Signature.run Signature.wholeType text

/-- The type variables that a text declares. -/
def TypeVariable.parseList (text : String) : Except SignatureError (List TypeVariable) :=
  Signature.run Signature.wholeVariableList text

/-- The parts of a concatenation of types, where a part may carry a wildcard mark or be the mark
    `*` alone. -/
def splitSignatures (text : String) : Except SignatureError (List String) :=
  Signature.run Signature.parts text

/-- Whether a text is a type that mentions a type variable. -/
def mentionsVariable (text : String) : Bool :=
  match TypeSignature.parse text with
  | .ok t => t.mentionsVariable
  | .error _ => false

/-- The erasure of a type variable: that of its leftmost bound, the root class without one. -/
def TypeVariable.erasedSignature (v : TypeVariable) : String :=
  match v.bounds with
  | [] => objectSignature
  | b :: _ =>
    match TypeSignature.parse b.signature with
    | .ok t => t.erasure.text
    | .error _ => objectSignature

/-! ## Section 2: Declarations of classes -/

/-- The generic declaration of a class: its type variables and its supertypes. -/
structure ClassSignature where
  /-- The declared type variables. -/
  typeVariables : List TypeVariable
  /-- The type signatures of the supertypes, the superclass first. -/
  supertypes : List String
  deriving DecidableEq, Repr, Inhabited

namespace ClassSignature

/-- Reader of a class declaration up to the end of the text. -/
def read (s : List Char) : Except Signature.Halt ClassSignature := do
  let (typeVariables, left) ← Signature.optionalVariableList s
  let supertypes ← Signature.typeTexts left.left
  return ⟨typeVariables, supertypes⟩

/-- The class declaration that a text is. -/
def parse (text : String) : Except SignatureError ClassSignature :=
  Signature.run read text

/-- The text of a class declaration. -/
def text (d : ClassSignature) : String :=
  TypeVariable.listText d.typeVariables ++ String.join d.supertypes

end ClassSignature

/-! ## Section 3: Methods -/

/-- The generic signature of a method. -/
structure MethodSignature where
  /-- The declared type variables. -/
  typeVariables : List TypeVariable
  /-- The type signatures of the parameters. -/
  parameters : List String
  /-- The type signature of the result. -/
  result : String
  /-- The type signatures of the exceptions. -/
  exceptions : List String
  deriving DecidableEq, Repr, Inhabited

namespace MethodSignature

/-- Reader of a method signature up to the end of the text. -/
def read (s : List Char) : Except Signature.Halt MethodSignature := do
  let (typeVariables, left) ← Signature.optionalVariableList s
  let (_, left) ← Signature.expect '(' left.left
  let (parameters, left) ← Signature.parameters left.left
  let (result, left) ← Signature.typeText left.left
  let (exceptions, left) ← Signature.exceptions left.left
  Signature.finish left.left
  return ⟨typeVariables, parameters, result, exceptions⟩

/-- The method signature that a text is. -/
def parse (text : String) : Except SignatureError MethodSignature :=
  Signature.run read text

/-- The text of a method signature. -/
def text (m : MethodSignature) : String :=
  TypeVariable.listText m.typeVariables ++ "(" ++ String.join m.parameters ++ ")" ++ m.result
    ++ String.join (m.exceptions.map ("^" ++ ·))

/-- Whether a method declares a type variable, or refers to one in its parameters or its result. -/
def mentionsVariable (m : MethodSignature) : Bool :=
  !m.typeVariables.isEmpty || (m.parameters ++ [m.result]).any TypeCatalog.mentionsVariable

end MethodSignature

end TypeCatalog
