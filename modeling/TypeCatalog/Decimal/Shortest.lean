import TypeCatalog.Decimal.Binary

/-! # Shortest decimals

    The decimal of fewest digits that reads back as a given binary floating-point number; of several
    with that many digits the nearest one, and of two equally near the upper one. All arithmetic is
    exact: the number and the midpoints to its neighbours are put over one common denominator, and
    each decimal grid, coarsest first, is tried at the two points next to the number.
-/

set_option autoImplicit false

namespace TypeCatalog.Decimal

/-! ## Section 1: The interval of a number -/

/-- A positive number with all that rounds to it: the number is `value / scale`, and whatever lies
    between `low / scale` and `high / scale` rounds to it, the ends included if `closed`. -/
structure Interval where
  /-- Numerator of the number. -/
  value : Nat
  /-- Numerator of the midpoint to the next smaller number. -/
  low : Nat
  /-- Numerator of the midpoint to the next larger number. -/
  high : Nat
  /-- The common denominator. -/
  scale : Nat
  /-- Whether the midpoints themselves round to the number. -/
  closed : Bool

/-- The interval of `mantissa * 2 ^ exponent`. Below a power of two the neighbours are twice as
    dense, so the lower midpoint is nearer there. -/
def BinaryFormat.interval (f : BinaryFormat) (mantissa : Nat) (exponent : Int) : Interval :=
  let up := 1 <<< exponent.toNat
  let below := if mantissa = 1 <<< f.fractionBits then 1 else 2
  { value := 4 * mantissa * up
    low := (4 * mantissa - below) * up
    high := (4 * mantissa + 2) * up
    scale := 4 <<< (-exponent).toNat
    closed := mantissa % 2 = 0 }

/-! ## Section 2: The search -/

/-- How many tens to multiply `value` with before it reaches `scale`, at most `fuel`. -/
def tensToReach (value scale : Nat) : Nat → Nat
  | 0 => 0
  | fuel + 1 => if scale ≤ value then 0 else tensToReach (value * 10) scale fuel + 1

/-- How many tens `value` can be divided by before it falls below `scale * 10`, at most `fuel`. -/
def tensToSpare (value scale : Nat) : Nat → Nat
  | 0 => 0
  | fuel + 1 => if value < scale * 10 then 0 else tensToSpare value (scale * 10) fuel + 1

/-- More tens than the magnitude of any sixty-four bit number holds. -/
def mostTens : Nat := 400

/-- The position of the leading decimal digit of a number: zero for the units. -/
def Interval.leading (i : Interval) : Int :=
  (tensToSpare i.value i.scale mostTens : Int) - (tensToReach i.value i.scale mostTens : Int)

/-- Whether a numerator lies in the interval. -/
def Interval.holds (i : Interval) (numerator : Nat) : Bool :=
  if i.closed then i.low ≤ numerator && numerator ≤ i.high
  else i.low < numerator && numerator < i.high

/-- The interval with all numerators and the denominator brought to the grid of multiples of
    `10 ^ place`, so that the grid points are the multiples of `scale`. -/
def Interval.onGrid (i : Interval) (place : Int) : Interval :=
  let finer := Nat.pow 10 (-place).toNat
  { i with
    value := i.value * finer
    low := i.low * finer
    high := i.high * finer
    scale := i.scale * Nat.pow 10 place.toNat }

/-- The point of the grid of multiples of `10 ^ place` that reads back, if one does: of the two
    next to the number the nearer, on a tie the upper. -/
def Interval.nearestOn? (i : Interval) (place : Int) : Option Nat :=
  let g := i.onGrid place
  let down := g.value / g.scale
  let up := down + 1
  if g.holds (down * g.scale) && 0 < down then
    if g.holds (up * g.scale) && g.scale ≤ 2 * (g.value - down * g.scale) then some up
    else some down
  else if g.holds (up * g.scale) then some up
  else none

/-- Try the grids of one more digit each, `count` of them, from the given place downwards. -/
def Interval.search (i : Interval) (place : Int) : Nat → Nat × Int
  | 0 => (i.value / i.scale, 0)
  | count + 1 =>
    match i.nearestOn? place with
    | some digits => (digits, place)
    | none => i.search (place - 1) count

/-- The shortest decimal `digits * 10 ^ place` that reads back. Seventeen digits always suffice. -/
def Interval.shortest (i : Interval) : Nat × Int :=
  i.search i.leading 18

/-! ## Section 3: Writing -/

/-- Decimal digits of a number, without trailing zeros, and the place of the last of them. -/
def trimZeros (digits : Nat) (place : Int) : Nat → Nat × Int
  | 0 => (digits, place)
  | fuel + 1 =>
    if digits % 10 = 0 ∧ digits ≠ 0 then trimZeros (digits / 10) (place + 1) fuel
    else (digits, place)

/-- The digits in positional form, with a point and at least one digit after it. -/
def positional (digits : List Char) (place : Int) : List Char :=
  if 0 ≤ place then digits ++ List.replicate place.toNat '0' ++ ['.', '0']
  else
    let after := (-place).toNat
    if after < digits.length then
      digits.take (digits.length - after) ++ '.' :: digits.drop (digits.length - after)
    else ['0', '.'] ++ List.replicate (after - digits.length) '0' ++ digits

/-- The digits in exponent form: one digit, the others after a point if there are others, and the
    exponent. -/
def exponential (digits : List Char) (place : Int) : List Char :=
  let exponent := place + digits.length - 1
  let fraction := if digits.length ≤ 1 then [] else '.' :: digits.drop 1
  digits.take 1 ++ fraction ++ 'e' :: (toString exponent).toList

/-- The text of a magnitude. Zero and what lies from a ten-thousandth up to, but not including, ten
    to the sixteenth is positional, anything else has an exponent. -/
def BinaryFormat.magnitudeText (f : BinaryFormat) : Magnitude → List Char
  | .undefined => ['N', 'a', 'N']
  | .infinite => ['i', 'n', 'f']
  | .finite 0 _ => ['0', '.', '0']
  | .finite mantissa exponent =>
    let (found, foundPlace) := (f.interval mantissa exponent).shortest
    let (number, place) := trimZeros found foundPlace 40
    let digits := Nat.toDigits 10 number
    let leading := place + digits.length - 1
    if -4 ≤ leading ∧ leading < 16 then positional digits place
    else exponential digits place

/-- The text of a bit pattern. A sign is written for negative numbers, zero and the infinity among
    them, and never for what is not a number. -/
def BinaryFormat.text (f : BinaryFormat) (bits : Nat) : List Char :=
  match f.magnitude bits with
  | .undefined => f.magnitudeText .undefined
  | m => if f.isNegative bits then '-' :: f.magnitudeText m else f.magnitudeText m

example : String.ofList (single.text 0x3DCCCCCD) = "0.1" := by decide +kernel
example : String.ofList (single.text 0x00000001) = "1e-45" := by decide +kernel
example : String.ofList (double.text 0x4341C37937E08000) = "1e16" := by decide +kernel
example : String.ofList (double.text 0x430C6BF526340000) = "1000000000000000.0" := by decide +kernel
example : String.ofList (double.text 0x8000000000000000) = "-0.0" := by decide +kernel

end TypeCatalog.Decimal
