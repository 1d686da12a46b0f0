import TypeCatalog.Rest
import TypeCatalog.Toml.Scalar

/-! # Reading TOML

    A file is read line by line; only arrays, tables between braces and the texts between triple
    quotes go over several lines. Neither arrays and tables nor the parts of a key nest deeper than
    `depthLimit`. A reader that fails tells what was left at that point.
-/

set_option autoImplicit false

namespace TypeCatalog.Toml

/-! ## Section 1: Readings, blanks and comments -/

/-- What a reader that takes at least one character gives on `s`: a value, or what was left. -/
abbrev Reading (α : Type) (s : List Char) := Except (List Char) (α × Tail s)

/-- What a reader that may take nothing gives on `s`. -/
abbrev LoopReading (α : Type) (s : List Char) := Except (List Char) (α × Rest s)

/-- The blanks inside a line. -/
def isSpace (c : Char) : Bool := c = ' ' || c = '\t'

/-- The text after the blanks of a line. -/
def skipSpace (s : List Char) : Rest s := .dropWhile isSpace s

/-- Whether a character may stand in a comment or a text between quotes. -/
def isPrintable (c : Char) : Bool := c = '\t' || (0x20 ≤ c.toNat && c.toNat ≠ 0x7F)

/-- A line break. -/
def lineBreak (s : List Char) : Reading Unit s :=
  match s with
  | '\n' :: r => .ok ((), .one '\n' r)
  | '\r' :: '\n' :: r => .ok ((), .cons '\r' (Tail.one '\n' r).toRest)
  | s => .error s

/-- A comment, if one starts here. -/
def comment (s : List Char) : Rest s :=
  match s with
  | '#' :: r => (Tail.cons '#' (.dropWhile isPrintable r)).toRest
  | s => .all s

/-- Blanks, comments and line breaks. -/
def skipLines (s : List Char) : Rest s :=
  let found := (skipSpace s).append (comment (skipSpace s).left)
  match lineBreak found.left with
  | .ok (_, left) => found.append (left.append (skipLines left.left)).toRest
  | .error _ => found
termination_by s.length
decreasing_by
  have := left.lt
  have := found.length_le
  omega

/-- One given character. -/
def expect (c : Char) (s : List Char) : Reading Unit s :=
  match s with
  | [] => .error []
  | d :: r => if d = c then .ok ((), .one d r) else .error (d :: r)

/-! ## Section 2: Texts -/

/-- The character of a code point written by hexadecimal digits. -/
def codePoint? (digits : List Char) : Option Char := do
  let n ← digits.foldlM (fun n d => (Text.hexDigit? d).map fun v => 16 * n + v) 0
  if n.isValidChar then some (Char.ofNat n) else none

/-- The character that a letter stands for after a reverse solidus. -/
def escaped? (c : Char) : Option Char :=
  if c = 'b' then some '\x08'
  else if c = 't' then some '\t'
  else if c = 'n' then some '\n'
  else if c = 'f' then some '\x0c'
  else if c = 'r' then some '\r'
  else if c = 'e' then some '\x1b'
  else if c = '"' ∨ c = '\\' then some c
  else none

/-- What follows a reverse solidus, as the character it stands for. -/
def escape (s : List Char) : Reading Char s :=
  match s with
  | 'x' :: a :: b :: r =>
    match codePoint? [a, b] with
    | some found =>
      .ok (found, .ofTaken 'x' [a, b] r)
    | none => .error s
  | 'u' :: a :: b :: c :: d :: r =>
    match codePoint? [a, b, c, d] with
    | some found =>
      .ok (found, .ofTaken 'u' [a, b, c, d] r)
    | none => .error s
  | 'U' :: a :: b :: c :: d :: e :: f :: g :: h :: r =>
    match codePoint? [a, b, c, d, e, f, g, h] with
    | some found =>
      .ok (found, .ofTaken 'U' [a, b, c, d, e, f, g, h] r)
    | none => .error s
  | c :: r =>
    match escaped? c with
    | some found => .ok (found, .one c r)
    | none => .error (c :: r)
  | [] => .error []

/-- A text on one line after its opening quote. -/
def quotedTail (s : List Char) : Reading (List Char) s :=
  match s with
  | [] => .error []
  | '"' :: r => .ok ([], .one _ r)
  | '\\' :: r => do
    let (c, left) ← escape r
    let (cs, left₂) ← quotedTail left.left
    return (c :: cs, .cons _ (left.append left₂.toRest).toRest)
  | c :: r => do
    if isPrintable c then
      let (cs, left) ← quotedTail r
      return (c :: cs, .cons c left.toRest)
    throw (c :: r)
termination_by s.length
decreasing_by
  · have := left.lt
    simp only [List.length_cons]
    omega
  · simp

/-- A text on one line without escapes after its opening quote. -/
def literalTail (s : List Char) : Reading (List Char) s :=
  match s with
  | [] => .error []
  | '\'' :: r => .ok ([], .one _ r)
  | c :: r => do
    if isPrintable c then
      let (cs, left) ← literalTail r
      return (c :: cs, .cons c left.toRest)
    throw (c :: r)

/-- The end of a text between triple quotes, which may have up to two more quotes before it. -/
def tripleEnd (quote : Char) (s : List Char) : Option (List Char × Tail s) :=
  match s with
  | a :: b :: c :: r =>
    if a = quote ∧ b = quote ∧ c = quote then
      match r with
      | d :: e :: r' =>
        if d = quote then
          if e = quote then some ([quote, quote], .ofTaken a [b, c, d, e] r')
          else some ([quote], .ofTaken a [b, c, d] (e :: r'))
        else some ([], .ofTaken a [b, c] (d :: e :: r'))
      | [d] =>
        if d = quote then some ([quote], .ofTaken a [b, c, d] [])
        else some ([], .ofTaken a [b, c] [d])
      | [] => some ([], .ofTaken a [b, c] [])
    else none
  | _ => none

/-- A line break that a text between triple quotes may start with. -/
def skipBreak (s : List Char) : Rest s :=
  match lineBreak s with
  | .ok (_, left) => left.toRest
  | .error _ => .all s

/-- Blanks and line breaks. -/
def skipSpaceAndBreaks (s : List Char) : Rest s :=
  match s with
  | '\n' :: r => (Tail.cons '\n' (skipSpaceAndBreaks r)).toRest
  | '\r' :: '\n' :: r => (Tail.cons '\r' (Tail.cons '\n' (skipSpaceAndBreaks r)).toRest).toRest
  | c :: r => if isSpace c then (Tail.cons c (skipSpaceAndBreaks r)).toRest else .all (c :: r)
  | [] => .all []

/-- A text between triple quotes after the opening ones and the line break after them. A reverse
    solidus at the end of a line takes away all blanks up to the next character. -/
def tripleTail (s : List Char) : Reading (List Char) s :=
  match tripleEnd '"' s with
  | some (cs, left) => .ok (cs, left)
  | none =>
    match s with
    | [] => .error []
    | '\\' :: r =>
      match lineBreak (skipSpace r).left with
      | .ok _ => do
        let left := skipSpaceAndBreaks r
        let (cs, left₂) ← tripleTail left.left
        return (cs, .cons _ (left.append left₂.toRest))
      | .error _ => do
        let (c, left) ← escape r
        let (cs, left₂) ← tripleTail left.left
        return (c :: cs, .cons _ (left.append left₂.toRest).toRest)
    | '\r' :: '\n' :: r => do
      let (cs, left) ← tripleTail r
      return ('\r' :: '\n' :: cs, .cons _ (Tail.cons _ left.toRest).toRest)
    | c :: r => do
      if isPrintable c ∨ c = '\n' then
        let (cs, left) ← tripleTail r
        return (c :: cs, .cons c left.toRest)
      throw (c :: r)
termination_by s.length
decreasing_by
  · have := (skipSpaceAndBreaks r).length_le
    simp only [List.length_cons]
    omega
  · have := left.lt
    simp only [List.length_cons]
    omega
  · simp only [List.length_cons]
    omega
  · simp

/-- A text between triple quotes without escapes. -/
def tripleLiteralTail (s : List Char) : Reading (List Char) s :=
  match tripleEnd '\'' s with
  | some (cs, left) => .ok (cs, left)
  | none =>
    match s with
    | [] => .error []
    | '\r' :: '\n' :: r => do
      let (cs, left) ← tripleLiteralTail r
      return ('\r' :: '\n' :: cs, .cons _ (Tail.cons _ left.toRest).toRest)
    | c :: r => do
      if isPrintable c ∨ c = '\n' then
        let (cs, left) ← tripleLiteralTail r
        return (c :: cs, .cons c left.toRest)
      throw (c :: r)
termination_by s.length

/-! ## Section 3: Keys -/

/-- What a key without quotes is made of. -/
def isBareKey (c : Char) : Bool := c.isAlphanum || c = '_' || c = '-'

/-- One part of a key. -/
def keyPart (s : List Char) : Reading String s :=
  match s with
  | '"' :: r => do
    let (cs, left) ← quotedTail r
    return (String.ofList cs, .cons _ left.toRest)
  | '\'' :: r => do
    let (cs, left) ← literalTail r
    return (String.ofList cs, .cons _ left.toRest)
  | c :: r =>
    if isBareKey c then
      .ok (String.ofList (c :: r.takeWhile isBareKey), .cons c (.dropWhile isBareKey r))
    else .error (c :: r)
  | [] => .error []

/-- The further parts of a key, each after a dot. -/
def keyTail (s : List Char) : LoopReading (List String) s :=
  match h : (skipSpace s).left with
  | '.' :: r => do
    let (part, left) ← keyPart (skipSpace r).left
    let (parts, left₂) ← keyTail left.left
    let found : Tail r := (skipSpace r).before (left.append left₂)
    return (part :: parts, ((skipSpace s).append ⟨found.left, by
      rw [h]
      exact found.isSuffix.trans (List.suffix_cons '.' r)⟩))
  | _ => .ok ([], .all s)
termination_by s.length
decreasing_by
  have := left.lt
  have := (skipSpace r).length_le
  have := (skipSpace s).length_le
  simp [h] at this
  omega

/-- The most parts of a key, and the most arrays and tables inside each other. -/
def depthLimit : Nat := 80

/-- A dotted key: its first part and the others. -/
def key (s : List Char) : Reading (String × List String) s := do
  let (first, left) ← keyPart s
  let (others, left₂) ← keyTail left.left
  if depthLimit ≤ others.length then
    throw s
  return ((first, others), left.append left₂)

/-! ## Section 4: Values -/

/-- What a bare value is made of. -/
def isBareValue (c : Char) : Bool :=
  c.isAlphanum || c = '_' || c = '-' || c = '+' || c = '.' || c = ':'

/-- The characters of a bare value: with a blank in it if it is a day and a time. -/
def bareText (s : List Char) : List Char :=
  let found := s.takeWhile isBareValue
  match s.dropWhile isBareValue with
  | ' ' :: c :: rest =>
    if isDate found && c.isDigit then found ++ ' ' :: (c :: rest).takeWhile isBareValue else found
  | _ => found

/-- A truth value, a number or a moment. -/
def bareValue (s : List Char) : Reading Toml s :=
  let found := bareText s
  match s.drop found.length, scalar? found with
  | _, some value =>
    if h : 0 < found.length ∧ 0 < s.length then
      .ok (value, ⟨⟨s.drop found.length, List.drop_suffix _ s⟩, by
        have := h.1
        have := h.2
        simp only [List.length_drop]
        omega⟩)
    else .error s
  | _, none => .error s

mutual
/-- A value. At most `room` arrays and tables of it are inside each other. -/
def value (room : Nat) (s : List Char) : Reading Toml s :=
  match s, room with
  | '"' :: '"' :: '"' :: r, _ => do
    let (cs, left) ← tripleTail (skipBreak r).left
    return (.text (String.ofList cs),
      .cons _ (Tail.cons _ (Tail.cons _ ((skipBreak r).before left).toRest).toRest).toRest)
  | '"' :: r, _ => do
    let (cs, left) ← quotedTail r
    return (.text (String.ofList cs), .cons _ left.toRest)
  | '\'' :: '\'' :: '\'' :: r, _ => do
    let (cs, left) ← tripleLiteralTail (skipBreak r).left
    return (.text (String.ofList cs),
      .cons _ (Tail.cons _ (Tail.cons _ ((skipBreak r).before left).toRest).toRest).toRest)
  | '\'' :: r, _ => do
    let (cs, left) ← literalTail r
    return (.text (String.ofList cs), .cons _ left.toRest)
  | '[' :: r, room + 1 => do
    let (items, left) ← arrayItems room (skipLines r).left
    return (.array items, .cons _ ((skipLines r).before left).toRest)
  | '{' :: r, room + 1 => do
    let (members, left) ← bracesMembers room [] (skipLines r).left
    return (.table .braces members, .cons _ ((skipLines r).before left).toRest)
  | s, _ => bareValue s
termination_by 3 * s.length
decreasing_by
  · have := (skipLines r).length_le
    simp only [List.length_cons]
    omega
  · have := (skipLines r).length_le
    simp only [List.length_cons]
    omega
/-- The items of an array from one of them or the closing bracket on. -/
def arrayItems (room : Nat) (s : List Char) : Reading (List Toml) s :=
  match s with
  | ']' :: r => .ok ([], .one _ r)
  | s => do
    let (item, left) ← value room s
    let (items, left₂) ← arrayTail room (skipLines left.left).left
    return (item :: items, left.append ((skipLines left.left).before left₂).toRest)
termination_by 3 * s.length + 1
decreasing_by
  · omega
  · have := left.lt
    have := (skipLines left.left).length_le
    omega
/-- What follows an item of an array. -/
def arrayTail (room : Nat) (s : List Char) : Reading (List Toml) s :=
  match s with
  | ']' :: r => .ok ([], .one _ r)
  | ',' :: r => do
    let (items, left) ← arrayItems room (skipLines r).left
    return (items, .cons _ ((skipLines r).before left).toRest)
  | s => .error s
termination_by 3 * s.length + 2
decreasing_by
  have := (skipLines r).length_le
  simp only [List.length_cons]
  omega
/-- The members of a table between braces from one of them or the closing brace on, added to those
    read so far. -/
def bracesMembers (room : Nat) (members : Members) (s : List Char) : Reading Members s :=
  match s with
  | '\x7d' :: r => .ok (members, .one _ r)
  | s => do
    let ((first, path), left) ← key s
    let (_, left₂) ← expect '=' (skipLines left.left).left
    let (found, left₃) ← value room (skipLines left₂.left).left
    match assign first path found members with
    | none => throw s
    | some members =>
      let (members, left₄) ← bracesTail room members (skipLines left₃.left).left
      return (members,
        left.append ((skipLines left.left).before (left₂.append ((skipLines left₂.left).before
          (left₃.append ((skipLines left₃.left).before left₄).toRest)).toRest)).toRest)
termination_by 3 * s.length + 1
decreasing_by
  · have := left.lt
    have := (skipLines left.left).length_le
    have := left₂.lt
    have := (skipLines left₂.left).length_le
    omega
  · have := left.lt
    have := (skipLines left.left).length_le
    have := left₂.lt
    have := (skipLines left₂.left).length_le
    have := left₃.lt
    have := (skipLines left₃.left).length_le
    omega
/-- What follows a member of a table between braces. -/
def bracesTail (room : Nat) (members : Members) (s : List Char) : Reading Members s :=
  match s with
  | '\x7d' :: r => .ok (members, .one _ r)
  | ',' :: r => do
    let (members, left) ← bracesMembers room members (skipLines r).left
    return (members, .cons _ ((skipLines r).before left).toRest)
  | s => .error s
termination_by 3 * s.length + 2
decreasing_by
  have := (skipLines r).length_le
  simp only [List.length_cons]
  omega
end

/-! ## Section 5: Files -/

/-- All parts of a key but the last, and the last. -/
def splitKey (first : String) (others : List String) : List String × String :=
  match others with
  | [] => ([], first)
  | next :: others =>
    let (path, last) := splitKey next others
    (first :: path, last)

/-- A key between blanks, and its closing bracket. -/
def headerKey (s : List Char) : Reading (List String × String) s := do
  let ((first, others), left) ← key (skipSpace s).left
  let (_, left₂) ← expect ']' (skipSpace left.left).left
  return (splitKey first others,
    (skipSpace s).before (left.append ((skipSpace left.left).before left₂).toRest))

/-- The part of a line before its comment. -/
def line (s : List Char) : LoopReading Line s :=
  match s with
  | [] => .ok (.blank, .all [])
  | '[' :: '[' :: r => do
    let ((path, name), left) ← headerKey r
    let (_, left₂) ← expect ']' left.left
    return (.item path name,
      (Tail.cons _ (Tail.cons _ (left.append left₂.toRest).toRest).toRest).toRest)
  | '[' :: r => do
    let ((path, name), left) ← headerKey r
    return (.header path name, (Tail.cons _ left.toRest).toRest)
  | c :: r => do
    if c = '#' ∨ c = '\n' ∨ c = '\r' then
      return (.blank, .all (c :: r))
    let ((first, path), left) ← key (c :: r)
    let (_, left₂) ← expect '=' (skipSpace left.left).left
    let (found, left₃) ← value depthLimit (skipSpace left₂.left).left
    return (.entry first path found,
      (left.append ((skipSpace left.left).before (left₂.append
        ((skipSpace left₂.left).before left₃).toRest)).toRest).toRest)

/-- The part of a line after a value or a header: blanks, a comment, and the line break or the end
    of the file. Nothing tells the end of the file. -/
def lineEnd (s : List Char) : Except (List Char) (Option (Tail s)) :=
  let found := (skipSpace s).append (comment (skipSpace s).left)
  match found.left with
  | [] => .ok none
  | _ => do
    let (_, left) ← lineBreak found.left
    return some (found.before left)

/-- The members of a file, added to a draft. -/
def lines (d : Draft) (s : List Char) : Except (List Char) Members := do
  let (found, left) ← line (skipSpace s).left
  match d.add found with
  | none => throw s
  | some d =>
    match ← lineEnd left.left with
    | none => return d.members
    | some left₂ => lines d left₂.left
termination_by s.length
decreasing_by
  have := (skipSpace s).length_le
  have := left.length_le
  have := left₂.lt
  omega

/-- The text without the mark of its byte order. -/
def withoutMark (s : List Char) : List Char :=
  match s with
  | '\uFEFF' :: r => r
  | s => s

/-- The table that a text is, or the number of the line where it stops being one. -/
def parse (text : String) : Except Nat Members :=
  let s := withoutMark text.toList
  (lines ⟨[], []⟩ s).mapError fun left =>
    (s.take (s.length - left.length)).count '\n' + 1

end TypeCatalog.Toml
