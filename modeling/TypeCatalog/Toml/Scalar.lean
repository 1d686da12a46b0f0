import TypeCatalog.Decimal.Binary
import TypeCatalog.Text.Hexadecimal
import TypeCatalog.Text.Segment
import TypeCatalog.Toml.Basic

/-! # Numbers, moments and words

    What a bare value is: one of the two truth values, a number, or a moment. Digits may be grouped
    by single underscores. An integer has to fit into 128 bits, a number with a fraction must not be
    past the largest of sixty-four bits, and a moment has to be one of the calendar.
-/

set_option autoImplicit false

namespace TypeCatalog.Toml

/-! ## Section 1: Numbers -/

/-- Whether a text is digits, possibly in groups. -/
def isDigits (digit : Char → Bool) (s : List Char) : Bool :=
  (Text.segments '_' s).all fun part => !part.isEmpty && part.all digit

/-- The text after a sign, if there is one. -/
def unsigned (s : List Char) : List Char :=
  match s with
  | '+' :: rest => rest
  | '-' :: rest => rest
  | _ => s

/-- Whether a text is a number without sign that does not start with a zero that means nothing. -/
def isWhole (s : List Char) : Bool :=
  s = ['0'] || (isDigits Char.isDigit s && s.head? != some '0')

/-- The number that digits of a base are, without regard to what groups them. -/
def natOfDigits (base : Nat) (s : List Char) : Nat :=
  s.foldl (fun n c => ((Text.hexDigit? c).map fun d => base * n + d).getD n) 0

/-- The integer that a text is. -/
def integer? (s : List Char) : Option Int :=
  match s with
  | '0' :: 'x' :: rest =>
    if isDigits (fun c => (Text.hexDigit? c).isSome) rest then some (natOfDigits 16 rest) else none
  | '0' :: 'o' :: rest =>
    if isDigits (fun c => '0' ≤ c && c ≤ '7') rest then some (natOfDigits 8 rest) else none
  | '0' :: 'b' :: rest =>
    if isDigits (fun c => c = '0' || c = '1') rest then some (natOfDigits 2 rest) else none
  | _ =>
    if isWhole (unsigned s) then
      some (if s.head? = some '-' then -(natOfDigits 10 (unsigned s)) else natOfDigits 10 s)
    else none

/-- Whether an integer fits into 128 bits, with a sign or without one. -/
def isInRange (n : Int) : Bool :=
  -(1 <<< 127 : Nat) ≤ n && n < (1 <<< 128 : Nat)

/-- What an integer with a fraction or without one is: its digits as one number, and how many of
    them stand after the point. -/
def fraction? (s : List Char) : Option (Nat × Nat) :=
  match Text.segments '.' s with
  | [whole] => if isWhole whole then some (natOfDigits 10 whole, 0) else none
  | [whole, fraction] =>
    if isWhole whole && isDigits Char.isDigit fraction then
      some (natOfDigits 10 (whole ++ fraction), fraction.countP Char.isDigit)
    else none
  | _ => none

/-- The magnitude of a number with a fraction, an exponent, or of one of the special ones. -/
def float? (s : List Char) : Option Decimal.Magnitude :=
  let body := unsigned s
  if body = ['i', 'n', 'f'] then some .infinite
  else if body = ['n', 'a', 'n'] then some .undefined
  else
    match Text.segments 'e' (Text.replace 'E' 'e' body) with
    | [mantissa] => (fraction? mantissa).map fun (digits, places) =>
      Decimal.double.ofDecimal digits (-places)
    | [mantissa, exponent] =>
      if isDigits Char.isDigit (unsigned exponent) then
        (fraction? mantissa).map fun (digits, places) =>
          let power := natOfDigits 10 (unsigned exponent)
          Decimal.double.ofDecimal digits
            ((if exponent.head? = some '-' then -(power : Int) else power) - places)
      else none
    | _ => none

/-- Whether a text is a number with a fraction or an exponent that is not past the largest one, or
    one of the special ones. -/
def isFloat (s : List Char) : Bool :=
  match float? s with
  | some .infinite => unsigned s = ['i', 'n', 'f']
  | some _ => true
  | none => false

/-! ## Section 2: Moments -/

/-- The number that two digits are, if it is at most the given one. -/
def pairUpTo (limit : Nat) (a b : Char) : Option Nat :=
  if a.isDigit && b.isDigit then
    let n := (a.toNat - '0'.toNat) * 10 + (b.toNat - '0'.toNat)
    if n ≤ limit then some n else none
  else none

/-- The number of days of a month. -/
def daysOf (year month : Nat) : Nat :=
  if month = 2 then
    if (year % 4 = 0 ∧ year % 100 ≠ 0) ∨ year % 400 = 0 then 29 else 28
  else if month = 4 ∨ month = 6 ∨ month = 9 ∨ month = 11 then 30
  else 31

/-- Whether a text is a day. -/
def isDate (s : List Char) : Bool :=
  match s with
  | [y, y', y'', y''', '-', m, m', '-', d, d'] =>
    match pairUpTo 99 y y', pairUpTo 99 y'' y''', pairUpTo 12 m m', pairUpTo 31 d d' with
    | some century, some year, some month, some day =>
      0 < month && 0 < day && day ≤ daysOf (100 * century + year) month
    | _, _, _, _ => false
  | _ => false

/-- Whether a text is the fraction of a second, or nothing. -/
def isSecondFraction (s : List Char) : Bool :=
  match s with
  | [] => true
  | '.' :: c :: rest => (c :: rest).all Char.isDigit
  | _ => false

/-- Whether a text is what may follow the minutes of a time: seconds, or nothing. -/
def isSeconds (s : List Char) : Bool :=
  match s with
  | [] => true
  | ':' :: t :: t' :: rest => (pairUpTo 60 t t').isSome && isSecondFraction rest
  | _ => false

/-- Whether a text is a time of the day. -/
def isTime (s : List Char) : Bool :=
  match s with
  | h :: h' :: ':' :: m :: m' :: rest =>
    (pairUpTo 23 h h').isSome && (pairUpTo 59 m m').isSome && isSeconds rest
  | _ => false

/-- Whether a text is the distance to the time of the zero meridian. -/
def isOffset (s : List Char) : Bool :=
  match s with
  | [c, h, h', ':', m, m'] =>
    (c = '+' || c = '-') && (pairUpTo 23 h h').isSome && (pairUpTo 59 m m').isSome
  | _ => false

/-- Whether a text is a time of the day, with an offset or without one. -/
def isZonedTime (s : List Char) : Bool :=
  isTime s || (isTime s.dropLast && (s.getLast? == some 'Z' || s.getLast? == some 'z')) ||
    (isTime (s.take (s.length - 6)) && isOffset (s.drop (s.length - 6)))

/-- Whether a text is a moment: a day, a time, or both. -/
def isMoment (s : List Char) : Bool :=
  isDate s || isTime s ||
    (isDate (s.take 10) &&
      match s.drop 10 with
      | 'T' :: time => isZonedTime time
      | 't' :: time => isZonedTime time
      | ' ' :: time => isZonedTime time
      | _ => false)

/-- The value that a bare text is. -/
def scalar? (s : List Char) : Option Toml :=
  if s = ['t', 'r', 'u', 'e'] then some (.truth true)
  else if s = ['f', 'a', 'l', 's', 'e'] then some (.truth false)
  else
    match integer? s with
    | some n => if isInRange n then some .number else none
    | none => if isFloat s then some .number else if isMoment s then some .moment else none

end TypeCatalog.Toml
