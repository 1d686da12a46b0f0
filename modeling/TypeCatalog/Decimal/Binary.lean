/-! # Binary floating-point numbers

    The formats of thirty-two and sixty-four bits, the number that a bit pattern stands for, and
    the number of a format that is nearest to a quotient of two natural numbers; of two equally near
    ones it is the one with an even mantissa.
-/

set_option autoImplicit false

namespace TypeCatalog.Decimal

/-! ## Section 1: Formats and bit patterns -/

/-- A binary interchange format: the widths of its exponent and of its fraction. -/
structure BinaryFormat where
  /-- Bits of the biased exponent. -/
  exponentBits : Nat
  /-- Bits of the fraction, the leading one not counted. -/
  fractionBits : Nat

/-- The format of thirty-two bits. -/
def single : BinaryFormat := ⟨8, 23⟩

/-- The format of sixty-four bits. -/
def double : BinaryFormat := ⟨11, 52⟩

/-- The exponent of the least positive number. -/
def BinaryFormat.leastExponent (f : BinaryFormat) : Int :=
  2 - (1 <<< (f.exponentBits - 1) : Nat) - f.fractionBits

/-- The exponent of the largest numbers. -/
def BinaryFormat.largestExponent (f : BinaryFormat) : Int :=
  (1 <<< (f.exponentBits - 1) : Nat) - 1 - f.fractionBits

/-- What a bit pattern stands for. A finite number is `mantissa * 2 ^ exponent`. -/
inductive Magnitude where
  /-- Not a number. -/
  | undefined
  /-- An infinity. -/
  | infinite
  /-- A finite number. -/
  | finite (mantissa : Nat) (exponent : Int)
  deriving DecidableEq, Repr

/-- Whether the sign bit is set. -/
def BinaryFormat.isNegative (f : BinaryFormat) (bits : Nat) : Bool :=
  (bits >>> (f.exponentBits + f.fractionBits)) % 2 = 1

/-- The magnitude of a bit pattern. -/
def BinaryFormat.magnitude (f : BinaryFormat) (bits : Nat) : Magnitude :=
  let fraction := bits % (1 <<< f.fractionBits)
  let biased := (bits >>> f.fractionBits) % (1 <<< f.exponentBits)
  if biased = (1 <<< f.exponentBits) - 1 then
    if fraction = 0 then .infinite else .undefined
  else if biased = 0 then .finite fraction f.leastExponent
  else .finite (fraction + (1 <<< f.fractionBits)) (f.leastExponent + biased - 1)

/-! ## Section 2: Rounding -/

/-- The whole number nearest to a quotient, the even one of two. -/
def nearestWhole (numerator denominator : Nat) : Nat :=
  let whole := numerator / denominator
  let twice := 2 * (numerator % denominator)
  if denominator < twice || (twice = denominator && whole % 2 = 1) then whole + 1 else whole

/-- The exponent at which the mantissa of a quotient has all its bits, or the least one. -/
def BinaryFormat.exponentOf (f : BinaryFormat) (numerator denominator : Nat) : Int :=
  let size : Int := (numerator.log2 : Int) - denominator.log2
  let below := numerator <<< (-size).toNat < denominator <<< size.toNat
  max f.leastExponent ((if below then size - 1 else size) - f.fractionBits)

/-- The number of the format nearest to a quotient with a denominator that is not zero. -/
def BinaryFormat.round (f : BinaryFormat) (numerator denominator : Nat) : Magnitude :=
  if numerator = 0 then .finite 0 f.leastExponent
  else
    let exponent := f.exponentOf numerator denominator
    let mantissa :=
      nearestWhole (numerator <<< (-exponent).toNat) (denominator <<< exponent.toNat)
    let carries : Bool := mantissa = 2 <<< f.fractionBits
    let mantissa := if carries then 1 <<< f.fractionBits else mantissa
    let exponent := if carries then exponent + 1 else exponent
    if f.largestExponent < exponent then .infinite else .finite mantissa exponent

/-- The product of two magnitudes, rounded. -/
def BinaryFormat.times (f : BinaryFormat) : Magnitude → Magnitude → Magnitude
  | .finite m e, .finite m' e' =>
    f.round ((m * m') <<< (e + e').toNat) (1 <<< (-(e + e')).toNat)
  | .infinite, .finite 0 _ => .undefined
  | .finite 0 _, .infinite => .undefined
  | .undefined, _ => .undefined
  | _, .undefined => .undefined
  | _, _ => .infinite

/-- The number of the format nearest to `digits * 10 ^ place`. The number of digits tells what is
    too large for every format and what is too small. -/
def BinaryFormat.ofDecimal (f : BinaryFormat) (digits : Nat) (place : Int) : Magnitude :=
  let size := ((Nat.toDigits 10 digits).length : Int) + place
  if digits = 0 || size < -400 then .finite 0 f.leastExponent
  else if 400 < size then .infinite
  else f.round (digits * Nat.pow 10 place.toNat) (Nat.pow 10 (-place).toNat)

example : double.ofDecimal 17976931348623158 292 = .finite 9007199254740991 971 := by
  decide +kernel
example : double.ofDecimal 17976931348623159 292 = .infinite := by decide +kernel
example : double.ofDecimal 5 (-324) = .finite 1 (-1074) := by decide +kernel
example : single.ofDecimal 1 (-1) = single.magnitude 0x3DCCCCCD := by decide +kernel

end TypeCatalog.Decimal
