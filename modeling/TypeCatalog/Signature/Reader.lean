import TypeCatalog.Rest
import TypeCatalog.Signature.Basic
import TypeCatalog.Signature.Fault
import TypeCatalog.Text.Utf8

/-! # Reading type signatures

    A recursive descent over the grammar

        type  ::=  letter  |  '[' type  |  'T' name ';'  |  'L' name args? ('.' name args?)* ';'
        args  ::=  '<' arg+ '>'
        arg   ::=  '*'  |  '+' type  |  '-' type  |  type

    that looks one character ahead and never goes back. A reader that fails tells what was wrong
    and what was left at that point; what was left fixes the offset of the fault.
-/

set_option autoImplicit false

namespace TypeCatalog.Signature

/-! ## Section 1: Readings -/

/-- A fault together with the text that was left when it was found. -/
structure Halt where
  /-- What is wrong. -/
  fault : SignatureFault
  /-- The text from the fault on. -/
  left : List Char
  deriving DecidableEq

/-- What a reader that takes at least one character gives on `s`. -/
abbrev Reading (α : Type) (s : List Char) := Except Halt (α × Tail s)

/-- What a reader that may take nothing gives on `s`. -/
abbrev LoopReading (α : Type) (s : List Char) := Except Halt (α × Rest s)

/-- One given character. -/
def expect (wanted : Char) (s : List Char) : Reading Unit s :=
  match s with
  | [] => .error ⟨.expectedBeforeEnd wanted, []⟩
  | c :: r =>
    if c = wanted then .ok ((), .one c r)
    else .error ⟨.expected wanted (Text.Utf8.leadByte c), c :: r⟩

/-- The end of the text. -/
def finish (s : List Char) : Except Halt Unit :=
  match s with
  | [] => .ok ()
  | _ => .error ⟨.trailing, s⟩

/-- A name: all characters before the first one that ends it, at least one. -/
def name (ends : Char → Bool) (s : List Char) : Reading String s :=
  match s with
  | [] => .error ⟨.nameMissing, []⟩
  | c :: r =>
    if ends c then .error ⟨.nameMissing, c :: r⟩
    else .ok (String.ofList (c :: r.takeWhile (!ends ·)), .cons c (.dropWhile (!ends ·) r))

/-- What ends the name of a type variable that is referred to. -/
def endsVariable (c : Char) : Bool := c = ';' || c = '<' || c = '>'

/-- What ends a segment of a class name. -/
def endsSegment (c : Char) : Bool := c = '<' || c = ';' || c = '.'

/-- What ends the name of a type variable that is declared. -/
def endsDeclared (c : Char) : Bool := c = ':' || c = '>'

/-! ## Section 2: Types -/

mutual
/-- A type. -/
def type (s : List Char) : Reading TypeSignature s :=
  match s with
  | [] => .error ⟨.typeMissing, []⟩
  | '[' :: r => do
    let (element, left) ← type r
    return (.array element, .cons '[' left.toRest)
  | 'L' :: r => do
    let (segment, left) ← name endsSegment r
    let (t, left') ← classTail segment left.left
    return (t, .cons 'L' (left.append left'.toRest).toRest)
  | 'T' :: r => do
    let (word, left) ← name endsVariable r
    let (_, left') ← expect ';' left.left
    return (.typeVariable word, .cons 'T' (left.append left'.toRest).toRest)
  | c :: r =>
    match Primitive.ofLetter? c with
    | some p => .ok (.primitive p, .one c r)
    | none => .error ⟨.notAType (Text.Utf8.leadByte c), c :: r⟩
termination_by 4 * s.length
decreasing_by
  · simp
  · have := left.lt
    simp only [List.length_cons]
    omega
/-- The part of a class type after a segment of its name. -/
def classTail (segments : String) (s : List Char) : Reading TypeSignature s :=
  match s with
  | '<' :: r => do
    let (arguments, left) ← argumentList r
    let (t, left') ← classEnd segments arguments left.left
    return (t, .cons '<' (left.append left'.toRest).toRest)
  | r => classEnd segments [] r
termination_by 4 * s.length + 1
decreasing_by
  · simp only [List.length_cons]
    omega
  · have := left.lt
    simp only [List.length_cons]
    omega
  · omega
/-- The part of a class type after a segment with its arguments: its end, or the next segment,
    with which the arguments so far are dropped. -/
def classEnd (segments : String) (arguments : List TypeArgument) (s : List Char) :
    Reading TypeSignature s :=
  match s with
  | [] => .error ⟨.classUnfinished, []⟩
  | ';' :: r => .ok (.classType segments arguments, .one ';' r)
  | '.' :: r => do
    let (segment, left) ← name endsSegment r
    let (t, left') ← classTail (segments ++ "$" ++ segment) left.left
    return (t, .cons '.' (left.append left'.toRest).toRest)
  | c :: r => .error ⟨.notInClass (Text.Utf8.leadByte c), c :: r⟩
termination_by 4 * s.length
decreasing_by
  · have := left.lt
    simp only [List.length_cons]
    omega
/-- Type arguments after the opening bracket, up to and with the closing one. -/
def argumentList (s : List Char) : Reading (List TypeArgument) s :=
  match s with
  | '>' :: r => .error ⟨.argumentsEmpty, r⟩
  | r => arguments r
termination_by 4 * s.length + 3
decreasing_by omega
/-- One type argument or more, up to and with the closing bracket. -/
def arguments (s : List Char) : Reading (List TypeArgument) s := do
  let (a, left) ← argument s
  match h : left.left with
  | '>' :: r =>
    return ([a], left.append ⟨r, by rw [h]; exact List.suffix_cons '>' r⟩)
  | r =>
    let (as, left') ← arguments r
    return (a :: as, left.append ⟨left'.left, by rw [h]; exact left'.isSuffix⟩)
termination_by 4 * s.length + 2
decreasing_by
  · omega
  · have := left.lt
    simp [← h]
    omega
/-- One type argument. -/
def argument (s : List Char) : Reading TypeArgument s :=
  match s with
  | [] => .error ⟨.argumentsUnfinished, []⟩
  | '*' :: r => .ok (.any, .one '*' r)
  | '+' :: r => do
    let (bound, left) ← type r
    return (.upper bound, .cons '+' left.toRest)
  | '-' :: r => do
    let (bound, left) ← type r
    return (.lower bound, .cons '-' left.toRest)
  | r => do
    let (t, left) ← type r
    return (.exactly t, left)
termination_by 4 * s.length + 1
decreasing_by
  · simp only [List.length_cons]
    omega
  · simp only [List.length_cons]
    omega
  · omega
end

/-! ## Section 3: Texts of types, and type variables -/

/-- The text of a type, as it stands in the signature. -/
def typeText (s : List Char) : Reading String s := do
  let (_, left) ← type s
  return (String.ofList (takenBefore s left.left), left)

/-- Interface bounds, each after a colon. -/
def interfaceBounds (s : List Char) : LoopReading (List Bound) s :=
  match s with
  | ':' :: r => do
    let (signature, left) ← typeText r
    let (bounds, left') ← interfaceBounds left.left
    return (⟨.interfaceBound, signature⟩ :: bounds,
      (Tail.cons ':' (left.append left').toRest).toRest)
  | r => .ok ([], .all r)
termination_by s.length
decreasing_by
  have := left.lt
  simp only [List.length_cons]
  omega

/-- The bounds of a type variable after the first colon. A second colon at once means that there is
    no class bound. -/
def bounds (s : List Char) : LoopReading (List Bound) s :=
  match s with
  | ':' :: r => interfaceBounds (':' :: r)
  | r => do
    let (signature, left) ← typeText r
    let (others, left') ← interfaceBounds left.left
    return (⟨.classBound, signature⟩ :: others, (left.append left').toRest)

/-- Declared type variables up to and with the closing bracket. -/
def typeVariables (s : List Char) : Reading (List TypeVariable) s :=
  match s with
  | [] => .error ⟨.variablesUnfinished, []⟩
  | '>' :: r => .ok ([], .one '>' r)
  | r => do
    let (word, left) ← name endsDeclared r
    let (_, left') ← expect ':' left.left
    let (found, left'') ← bounds left'.left
    let (others, left''') ← typeVariables left''.left
    return (⟨word, found⟩ :: others,
      left.append (left'.append (left''.append left'''.toRest)).toRest)
termination_by s.length
decreasing_by
  have := left.lt
  have := left'.lt
  have := left''.length_le
  omega

/-- A list of declared type variables between angle brackets, at least one. -/
def variableList (s : List Char) : Reading (List TypeVariable) s := do
  let (_, left) ← expect '<' s
  let (found, left') ← typeVariables left.left
  match found with
  | [] => .error ⟨.variablesEmpty, left'.left⟩
  | _ => return (found, left.append left'.toRest)

/-- A list of declared type variables, if the text starts with one. -/
def optionalVariableList (s : List Char) : LoopReading (List TypeVariable) s :=
  match s with
  | '<' :: r => do
    let (found, left) ← variableList ('<' :: r)
    return (found, left.toRest)
  | r => .ok ([], .all r)

/-- The texts of the types up to the end of the text. -/
def typeTexts (s : List Char) : Except Halt (List String) :=
  match s with
  | [] => .ok []
  | c :: r => do
    let (t, left) ← typeText (c :: r)
    let others ← typeTexts left.left
    return t :: others
termination_by s.length
decreasing_by
  exact left.lt

/-! ## Section 4: Signatures of methods and of lists -/

/-- The texts of parameter types up to and with the closing parenthesis. -/
def parameters (s : List Char) : Reading (List String) s :=
  match s with
  | [] => .error ⟨.parametersUnfinished, []⟩
  | ')' :: r => .ok ([], .one ')' r)
  | r => do
    let (t, left) ← typeText r
    let (others, left') ← parameters left.left
    return (t :: others, left.append left'.toRest)
termination_by s.length
decreasing_by
  exact left.lt

/-- The texts of exception types, each after a circumflex. -/
def exceptions (s : List Char) : LoopReading (List String) s :=
  match s with
  | '^' :: r => do
    let (t, left) ← typeText r
    let (others, left') ← exceptions left.left
    return (t :: others, (Tail.cons '^' (left.append left').toRest).toRest)
  | r => .ok ([], .all r)
termination_by s.length
decreasing_by
  have := left.lt
  simp only [List.length_cons]
  omega

/-- A part of a list of types: a type with or without a wildcard mark, or the lone mark `*`. -/
def part (s : List Char) : Reading Unit s :=
  match s with
  | '*' :: r => .ok ((), .one '*' r)
  | '+' :: r => do
    let (_, left) ← type r
    return ((), .cons '+' left.toRest)
  | '-' :: r => do
    let (_, left) ← type r
    return ((), .cons '-' left.toRest)
  | r => do
    let (_, left) ← type r
    return ((), left)

/-- The texts of the parts up to the end of the text. -/
def parts (s : List Char) : Except Halt (List String) :=
  match s with
  | [] => .ok []
  | c :: r => do
    let (_, left) ← part (c :: r)
    let others ← parts left.left
    return String.ofList (takenBefore (c :: r) left.left) :: others
termination_by s.length
decreasing_by
  exact left.lt

end TypeCatalog.Signature
