import TypeCatalog.Decimal.Binary
import TypeCatalog.Json.Basic
import TypeCatalog.Text.Hexadecimal
import TypeCatalog.Text.Utf8

/-! # Reading JSON

    A text is read if it is one JSON value with nothing but blanks around it, if it nests at most
    `depthLimit` arrays and objects, if every escaped surrogate is half of a pair, and if no number
    lies outside the range of sixty-four bit floating point. Every reader here returns what it left
    together with the proof that it is shorter than what it was given.
-/

set_option autoImplicit false

namespace TypeCatalog.Json

/-! ## Section 1: Blanks, digits and words -/

/-- What a reader of `α` gives on `s`: nothing, or a value and a shorter rest. -/
abbrev Reading (α : Type) (s : List Char) := Option (α × { r : List Char // r.length < s.length })

/-- The blanks of JSON. -/
def isSpace (c : Char) : Bool :=
  c = ' ' || c = '\n' || c = '\t' || c = '\r'

/-- The text from its first character on that is not a blank. -/
def skipSpace (s : List Char) : List Char := s.dropWhile isSpace

theorem length_skipSpace_le (s : List Char) : (skipSpace s).length ≤ s.length :=
  (List.dropWhile_suffix isSpace).length_le

/-- One digit or more. -/
def digits (s : List Char) : Reading (List Char) s :=
  match h : s.takeWhile Char.isDigit with
  | [] => none
  | d :: ds => some (d :: ds, ⟨s.dropWhile Char.isDigit, by
      have hs := congrArg List.length
        (List.takeWhile_append_dropWhile (p := Char.isDigit) (l := s))
      simp only [h, List.length_append, List.length_cons] at hs
      omega⟩)

/-- The number that a run of digits is. -/
def natOfDigits (ds : List Char) : Nat :=
  ds.foldl (fun n d => n * 10 + (d.toNat - '0'.toNat)) 0

/-- The sixteen-bit unit that four hexadecimal digits write. -/
def hexUnit? (a b c d : Char) : Option Nat := do
  let a ← Text.hexDigit? a
  let b ← Text.hexDigit? b
  let c ← Text.hexDigit? c
  let d ← Text.hexDigit? d
  return ((a * 16 + b) * 16 + c) * 16 + d

/-! ## Section 2: Numbers -/

/-- The digits that fit into sixty-four bits after those of `n`, as one number with them, and the
    digits that do not fit. -/
def fitDigits (n : Nat) : List Char → Nat × List Char
  | [] => (n, [])
  | d :: ds =>
    let n' := n * 10 + (d.toNat - '0'.toNat)
    if 18446744073709551616 ≤ n' then (n, d :: ds) else fitDigits n' ds

/-- Whether a number is past the largest floating-point number. Whole digits that do not fit into
    sixty-four bits count as places only, and digits of the fraction that do not fit do not count.
    What is left is rounded, and multiplied by the power of ten, which is rounded too. -/
def isTooLarge (whole fraction : List Char) (power : Int) : Bool :=
  let (significand, places) := fitDigits 0 whole
  let (significand, unread) := fitDigits significand fraction
  let exponent := power + places.length - (fraction.length - unread.length : Nat)
  if significand = 0 || exponent < 0 then false
  else if 308 < exponent then true
  else
    let f := Decimal.double
    f.times (f.round significand 1) (f.round (Nat.pow 10 exponent.toNat) 1) = .infinite

/-- A number from its parts: sign, whole digits, digits of the fraction and exponent. -/
def ofParts (negative : Bool) (whole : List Char) (fraction : Option (List Char))
    (exponent : Option (Bool × List Char)) : Option Json :=
  let sign := if negative then ['-'] else []
  let fractionText := match fraction with
    | some ds => '.' :: ds
    | none => []
  let exponentText := match exponent with
    | some (true, ds) => 'e' :: '-' :: ds
    | some (false, ds) => 'e' :: ds
    | none => []
  let text := String.ofList (sign ++ whole ++ fractionText ++ exponentText)
  let value : Int := if negative then -(natOfDigits whole) else natOfDigits whole
  let isInteger := fraction.isNone && exponent.isNone && !(negative && value = 0) &&
    -9223372036854775808 ≤ value && value ≤ 18446744073709551615
  let power : Int := match exponent with
    | some (true, ds) => -(natOfDigits ds)
    | some (false, ds) => natOfDigits ds
    | none => 0
  if isInteger then some (integer value)
  else if isTooLarge whole (fraction.getD []) power then none
  else some (decimal text)

/-- The fraction of a number, if it has one. -/
def fractionPart (s : List Char) :
    Option (Option (List Char) × { r : List Char // r.length ≤ s.length }) :=
  match s with
  | '.' :: t => do
    let (ds, r) ← digits t
    return (some ds, ⟨r.1, by have := r.2; simp; omega⟩)
  | t => some (none, ⟨t, Nat.le_refl _⟩)

/-- The exponent of a number, if it has one: whether it is negative, and its digits. -/
def exponentPart (s : List Char) :
    Option (Option (Bool × List Char) × { r : List Char // r.length ≤ s.length }) :=
  match s with
  | e :: t =>
    if e = 'e' ∨ e = 'E' then
      match t with
      | '-' :: u => do
        let (ds, r) ← digits u
        return (some (true, ds), ⟨r.1, by have := r.2; simp; omega⟩)
      | '+' :: u => do
        let (ds, r) ← digits u
        return (some (false, ds), ⟨r.1, by have := r.2; simp; omega⟩)
      | u => do
        let (ds, r) ← digits u
        return (some (false, ds), ⟨r.1, by have := r.2; simp; omega⟩)
    else some (none, ⟨e :: t, Nat.le_refl _⟩)
  | [] => some (none, ⟨[], Nat.le_refl _⟩)

/-- A number without its sign. A whole part of several digits does not start with a zero. -/
def unsigned (negative : Bool) (s : List Char) : Reading Json s := do
  let (whole, r) ← digits s
  if whole.head? = some '0' ∧ whole.length ≠ 1 then none
  else
    let (fraction, r') ← fractionPart r.1
    let (exponent, r'') ← exponentPart r'.1
    let value ← ofParts negative whole fraction exponent
    return (value, ⟨r''.1, Nat.lt_of_le_of_lt (Nat.le_trans r''.2 r'.2) r.2⟩)

/-- A number. -/
def number (s : List Char) : Reading Json s :=
  match s with
  | '-' :: t => do
    let (value, r) ← unsigned true t
    return (value, ⟨r.1, Nat.lt_succ_of_lt r.2⟩)
  | t => unsigned false t

/-! ## Section 3: Strings -/

/-- The character that a letter stands for after a reverse solidus. -/
def escaped? (c : Char) : Option Char :=
  if c = '"' ∨ c = '\\' ∨ c = '/' then some c
  else if c = 'b' then some '\x08'
  else if c = 'f' then some '\x0c'
  else if c = 'n' then some '\n'
  else if c = 'r' then some '\r'
  else if c = 't' then some '\t'
  else none

/-- Put a character in front of what a reader of text gave. -/
def consText {s t : List Char} (c : Char) (h : s.length ≤ t.length) :
    Reading (List Char) s → Reading (List Char) t
  | none => none
  | some (cs, r) => some (c :: cs, ⟨r.1, Nat.lt_of_lt_of_le r.2 h⟩)

/-- The rest of a string after its opening quote, up to and with the closing one. -/
def stringTail (s : List Char) : Reading (List Char) s :=
  match s with
  | [] => none
  | '"' :: r => some ([], ⟨r, by simp⟩)
  | '\\' :: 'u' :: a :: b :: c :: d :: r =>
    match hexUnit? a b c d with
    | none => none
    | some high =>
      if 0xDC00 ≤ high ∧ high ≤ 0xDFFF then none
      else if 0xD800 ≤ high ∧ high ≤ 0xDBFF then
        match r with
        | '\\' :: 'u' :: e :: f :: g :: h :: r' =>
          match hexUnit? e f g h with
          | none => none
          | some low =>
            if 0xDC00 ≤ low ∧ low ≤ 0xDFFF then
              consText (Char.ofNat (0x10000 + (high - 0xD800) * 0x400 + (low - 0xDC00)))
                (by simp; omega) (stringTail r')
            else none
        | _ => none
      else consText (Char.ofNat high) (by simp; omega) (stringTail r)
  | '\\' :: c :: r =>
    match escaped? c with
    | none => none
    | some d => consText d (by simp; omega) (stringTail r)
  | c :: r =>
    if c.toNat < 0x20 ∨ c = '\\' then none
    else consText c (by simp) (stringTail r)

/-! ## Section 4: Values -/

/-- The deepest nesting of arrays and objects that is read. -/
def depthLimit : Nat := 127

mutual
/-- A value, after any blanks. Below it `depth` more levels may nest. -/
def value (depth : Nat) (s : List Char) : Reading Json s :=
  match h : skipSpace s with
  | [] => none
  | 'n' :: 'u' :: 'l' :: 'l' :: r =>
    some (null, ⟨r, by have := length_skipSpace_le s; simp [h] at this; omega⟩)
  | 't' :: 'r' :: 'u' :: 'e' :: r =>
    some (bool true, ⟨r, by have := length_skipSpace_le s; simp [h] at this; omega⟩)
  | 'f' :: 'a' :: 'l' :: 's' :: 'e' :: r =>
    some (bool false, ⟨r, by have := length_skipSpace_le s; simp [h] at this; omega⟩)
  | '"' :: t =>
    match stringTail t with
    | none => none
    | some (text, r) =>
      some (string (String.ofList text), ⟨r.1, by
        have := length_skipSpace_le s; have := r.2; simp [h] at *; omega⟩)
  | '[' :: t =>
    match depth with
    | 0 => none
    | below + 1 =>
      match h' : skipSpace t with
      | ']' :: r =>
        some (array [], ⟨r, by
          have := length_skipSpace_le s; have := length_skipSpace_le t
          simp [h, h'] at *; omega⟩)
      | _ =>
        match elements below t with
        | none => none
        | some (items, r) =>
          some (array items, ⟨r.1, by
            have := length_skipSpace_le s; have := r.2; simp [h] at *; omega⟩)
  | '{' :: t =>
    match depth with
    | 0 => none
    | below + 1 =>
      match h' : skipSpace t with
      | '}' :: r =>
        some (object [], ⟨r, by
          have := length_skipSpace_le s; have := length_skipSpace_le t
          simp [h, h'] at *; omega⟩)
      | _ =>
        match members below t with
        | none => none
        | some (found, r) =>
          some (object found, ⟨r.1, by
            have := length_skipSpace_le s; have := r.2; simp [h] at *; omega⟩)
  | c :: t =>
    match number (c :: t) with
    | none => none
    | some (n, r) =>
      some (n, ⟨r.1, by have := length_skipSpace_le s; have := r.2; simp [h] at *; omega⟩)
termination_by 2 * s.length
decreasing_by
  all_goals
    have := length_skipSpace_le s
    simp [h] at *
    omega
/-- The values of an array that has some, up to and with its closing bracket. -/
def elements (depth : Nat) (s : List Char) : Reading (List Json) s :=
  match value depth s with
  | none => none
  | some (item, r) =>
    match h : skipSpace r.1 with
    | ']' :: t =>
      some ([item], ⟨t, by
        have := length_skipSpace_le r.1; have := r.2; simp [h] at *; omega⟩)
    | ',' :: t =>
      match elements depth t with
      | none => none
      | some (items, r') =>
        some (item :: items, ⟨r'.1, by
          have := length_skipSpace_le r.1; have := r.2; have := r'.2; simp [h] at *; omega⟩)
    | _ => none
termination_by 2 * s.length + 1
decreasing_by
  · omega
  · have := length_skipSpace_le r.1; have := r.2; simp [h] at *; omega
/-- The members of an object that has some, up to and with its closing brace. -/
def members (depth : Nat) (s : List Char) : Reading (List (String × Json)) s :=
  match h : skipSpace s with
  | '"' :: t =>
    match stringTail t with
    | none => none
    | some (name, r) =>
      match h' : skipSpace r.1 with
      | ':' :: u =>
        match value depth u with
        | none => none
        | some (item, q) =>
          match h'' : skipSpace q.1 with
          | '}' :: v =>
            some ([(String.ofList name, item)], ⟨v, by
              have := length_skipSpace_le s; have := length_skipSpace_le r.1
              have := length_skipSpace_le q.1; have := r.2; have := q.2
              simp [h, h', h''] at *; omega⟩)
          | ',' :: v =>
            match members depth v with
            | none => none
            | some (found, q') =>
              some ((String.ofList name, item) :: found, ⟨q'.1, by
                have := length_skipSpace_le s; have := length_skipSpace_le r.1
                have := length_skipSpace_le q.1; have := r.2; have := q.2; have := q'.2
                simp [h, h', h''] at *; omega⟩)
          | _ => none
      | _ => none
  | _ => none
termination_by 2 * s.length
decreasing_by
  · have := length_skipSpace_le s; have := length_skipSpace_le r.1; have := r.2
    simp [h, h'] at *; omega
  · have := length_skipSpace_le s; have := length_skipSpace_le r.1
    have := length_skipSpace_le q.1; have := r.2; have := q.2
    simp [h, h', h''] at *; omega
end

/-- The value that a whole text is. -/
def ofText? (text : List Char) : Option Json :=
  match value depthLimit text with
  | some (found, r) => if skipSpace r.1 = [] then some found else none
  | none => none

/-- The value that a byte sequence is. -/
def ofBytes? (bytes : List UInt8) : Option Json :=
  (Text.Utf8.decode? bytes).bind ofText?

end TypeCatalog.Json
