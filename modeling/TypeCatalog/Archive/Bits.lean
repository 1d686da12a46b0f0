import TypeCatalog.Rest

/-! # Bits and prefix codes

    Packed contents are sequences of bits, and the symbols in them have codes of different lengths,
    none of which is the start of another one. A code is given by the lengths of the codes of its
    symbols: codes of one length are consecutive numbers in the order of the symbols, and longer
    codes follow shorter ones. The bits of a byte come the least or the most significant one first.
-/

set_option autoImplicit false

namespace TypeCatalog.Archive

/-! ## Section 1: Bits -/

/-- The bits of bytes, the least significant bit of a byte first. -/
def bitsOf (bytes : List UInt8) : List Bool :=
  bytes.flatMap fun b => (List.range 8).map fun i => b.toNat.testBit i

/-- That many bits as a number, the least significant bit first. -/
def takeBits : Nat → (s : List Bool) → Option (Nat × Rest s)
  | 0, s => some (0, .all s)
  | _ + 1, [] => none
  | count + 1, bit :: rest =>
    (takeBits count rest).map fun (n, left) => (bit.toNat + 2 * n, (Tail.cons bit left).toRest)

/-- That many bits as a number after the given one, the most significant bit first. -/
def takeHighBitsAfter (n : Nat) : Nat → (s : List Bool) → Option (Nat × Rest s)
  | 0, s => some (n, .all s)
  | _ + 1, [] => none
  | count + 1, bit :: rest =>
    (takeHighBitsAfter (2 * n + bit.toNat) count rest).map fun (n, left) =>
      (n, (Tail.cons bit left).toRest)

/-- That many bits as a number, the most significant bit first. -/
def takeHighBits (count : Nat) (s : List Bool) : Option (Nat × Rest s) :=
  takeHighBitsAfter 0 count s

/-- That many bytes. -/
def takeBytes : Nat → (s : List Bool) → Option (List UInt8 × Rest s)
  | 0, s => some ([], .all s)
  | count + 1, s => do
    let (n, left) ← takeBits 8 s
    let (bytes, left₂) ← takeBytes count left.left
    return (UInt8.ofNat n :: bytes, left.append left₂)

/-! ## Section 2: Prefix codes -/

/-- A prefix code in canonical form: how many codes there are of each length from one up, and the
    symbols in the order of their codes. -/
structure PrefixCode where
  counts : List Nat
  symbols : Array Nat

/-- The symbols, given by their positions, whose code has the given length. -/
def symbolsOfLength (lengths : List Nat) (length : Nat) : List Nat :=
  (lengths.zipIdx.filter fun entry => entry.1 == length).map Prod.snd

/-- The longest code there may be. -/
def longestCode : Nat := 20

/-- The code of given lengths. A symbol of length zero has no code. -/
def PrefixCode.ofLengths (lengths : List Nat) : PrefixCode :=
  let groups := (List.range longestCode).map fun n => symbolsOfLength lengths (n + 1)
  ⟨groups.map List.length, groups.flatten.toArray⟩

/-- What the codes of given lengths take up of all bit sequences, where all of them together are
    `1 <<< longestCode`. -/
def codeSpace (lengths : List Nat) : Nat :=
  lengths.foldl (fun n length => if length = 0 then n else n + (1 <<< (longestCode - length))) 0

/-- Whether every sequence of bits starts with exactly one code. -/
def isComplete (lengths : List Nat) : Bool := codeSpace lengths = 1 <<< longestCode

/-- Read one symbol, where `code` is what has been read so far, `first` the first code of the next
    length and `index` the number of codes shorter than that. -/
def PrefixCode.readFrom (symbols : Array Nat) (code first index : Nat) :
    List Nat → (s : List Bool) → Option (Nat × Rest s)
  | count :: counts, bit :: rest =>
    let code := 2 * code + bit.toNat
    let first := 2 * first
    if code < first + count then
      (symbols[index + (code - first)]?).map fun symbol => (symbol, (Tail.one bit rest).toRest)
    else
      (readFrom symbols code (first + count) (index + count) counts rest).map fun found =>
        (found.1, (Tail.cons bit found.2).toRest)
  | _, _ => none

/-- Read one symbol. -/
def PrefixCode.read (c : PrefixCode) (s : List Bool) : Option (Nat × Tail s) :=
  match s with
  | [] => none
  | bit :: rest =>
    match c.counts with
    | [] => none
    | count :: counts =>
      if bit.toNat < count then
        (c.symbols[bit.toNat]?).map fun symbol => (symbol, .one bit rest)
      else
        (readFrom c.symbols bit.toNat count count counts rest).map fun found =>
          (found.1, .cons bit found.2)

end TypeCatalog.Archive
