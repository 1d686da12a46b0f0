import TypeCatalog.Archive.Bytes
import TypeCatalog.Archive.StateCode

/-! # Literals of framed blocks

    A packed block of a frame starts with literals: bytes that are not repeated from before. They
    stand there as they are, or as one byte and how often it stands there, or in a prefix code that
    the block describes or that the block before has left. What describes a code are the weights of
    the bytes. A byte of some weight stands for twice as much of all bit sequences as one of the
    weight below.
-/

set_option autoImplicit false

namespace TypeCatalog.Archive.FrameCode

/-! ## Section 1: Codes of literals -/

/-- A prefix code of the bytes below some number. Its codes are those of a canonical code for the
    bytes in falling order, with the other value of each bit. -/
structure LiteralCode where
  symbols : Nat
  code : PrefixCode

/-- The heaviest weight that a byte may have. -/
def heaviest : Nat := 12

/-- What a weight stands for. -/
def ofWeight (weight : Nat) : Nat := (1 <<< weight) / 2

/-- The code of bytes with the given weights, and one more that fills up the bit sequences that are
    left. -/
def LiteralCode.ofWeights? (weights : List Nat) : Option LiteralCode :=
  let total := weights.foldl (fun n weight => n + ofWeight weight) 0
  let width := total.log2 + 1
  let left := (1 <<< width) - total
  let all := weights ++ [left.log2 + 1]
  if weights.any (heaviest < ·) || total = 0 || heaviest < width || left ≠ 1 <<< left.log2 ||
      all.count 1 < 2 || all.count 1 % 2 = 1 then none
  else
    some ⟨all.length,
      .ofLengths (all.map fun weight => if weight = 0 then 0 else width + 1 - weight).reverse⟩

/-- The symbols of two runs of cells that take turns, until there are not enough bits for the next
    cell of one of them: then the other one's cell is the last. -/
def turns (c : StateCode) (now other : StateCell) (s : List Bool) : Nat → Option (List Nat)
  | 0 => none
  | room + 1 =>
    match (c.step now).run s with
    | none => if room = 0 then none else some [now.symbol, other.symbol]
    | some (cell, left) => (turns c other cell left room).map (now.symbol :: ·)

/-- The most weights that can be given. -/
def mostWeights : Nat := 255

/-- The weights that some bytes give in a code of states. -/
def codedWeights (bytes : List UInt8) : Option (List Nat) := do
  let (c, rest) ← StateCode.described 6 256 bytes
  let s ← bitsBackwards rest
  let (first, s) ← c.start.run s
  let (second, s) ← c.start.run s
  turns c first second s mostWeights

/-- The weights that some bytes give in half a byte each. -/
def plainWeights (count : Nat) (bytes : List UInt8) : List Nat :=
  (bytes.flatMap fun b => [b.toNat / 16, b.toNat % 16]).take count

/-- The code that some bytes start with, and the bytes behind it. -/
def LiteralCode.described (bytes : List UInt8) : Option (LiteralCode × List UInt8) :=
  match bytes with
  | [] => none
  | head :: rest => do
    let size := if head < 128 then head.toNat else (head.toNat - 126) / 2
    if rest.length < size then none
    else
      let given := rest.take size
      let weights ← if head < 128 then codedWeights given else
        some (plainWeights (head.toNat - 127) given)
      return (← ofWeights? weights, rest.drop size)

/-! ## Section 2: Coded literals -/

/-- That many bytes from all of the given bits. -/
def LiteralCode.read (c : LiteralCode) (out : Array UInt8) (s : List Bool) :
    Nat → Option (Array UInt8)
  | 0 => if s.isEmpty then some out else none
  | count + 1 =>
    match c.code.read s with
    | none => none
    | some (n, left) => c.read (out.push (UInt8.ofNat (c.symbols - 1 - n))) left.left count

/-- That many bytes from a stream of bits. -/
def LiteralCode.stream (c : LiteralCode) (count : Nat) (bytes : List UInt8) :
    Option (Array UInt8) := do
  let s ← bitsBackwards bytes
  c.read #[] (s.map fun bit => !bit) count

/-- That many bytes from four streams, where the sizes of the first three are given before. -/
def LiteralCode.streams (c : LiteralCode) (count : Nat) (bytes : List UInt8) :
    Option (Array UInt8) := do
  let a := natOfBytes (bytes.take 2)
  let b := natOfBytes ((bytes.drop 2).take 2)
  let d := natOfBytes ((bytes.drop 4).take 2)
  let all := bytes.drop 6
  -- Three streams have a fourth of the bytes each, rounded up, and the last one has the others.
  let part := (count + 3) / 4
  if bytes.length < 10 || all.length < a + b + d || count < 3 * part then none
  else
    let first ← c.stream part (all.take a)
    let second ← c.stream part ((all.drop a).take b)
    let third ← c.stream part ((all.drop (a + b)).take d)
    let fourth ← c.stream (count - 3 * part) (all.drop (a + b + d))
    return first ++ second ++ third ++ fourth

/-! ## Section 3: The literals of a block -/

/-- The literals of a block. -/
structure Literals where
  bytes : Array UInt8
  /-- The code that a block can use without describing it, from here on. -/
  code : Option LiteralCode

/-- Literals that are not coded, and the bytes behind them. -/
def plainLiterals (known : Option LiteralCode) (areSame : Bool) (form most : Nat)
    (block : List UInt8) : Option (Literals × List UInt8) :=
  let head := if form = 1 then 2 else if form = 3 then 3 else 1
  let count := natOfBytes (block.take head) >>> (if form = 1 || form = 3 then 4 else 3)
  let size := if areSame then 1 else count
  let found := (block.drop head).take size
  if block.length < head + size || most < count then none
  else
    let bytes := if areSame then found.flatMap (List.replicate count) else found
    some (⟨bytes.toArray, known⟩, block.drop (head + size))

/-- The fewest literals in four streams. -/
def fewestInStreams : Nat := 6

/-- Literals that are coded, and the bytes behind them. -/
def codedLiterals (known : Option LiteralCode) (form most : Nat) (block : List UInt8) :
    Option (Literals × List UInt8) := do
  let (head, width) := if form = 3 then (5, 18) else if form = 2 then (4, 14) else (3, 10)
  let sizes := natOfBytes (block.take head) >>> 4
  let count := sizes % (1 <<< width)
  let size := sizes >>> width
  if block.length < 5 || most < count || (form ≠ 0 && count < fewestInStreams) ||
      block.length < head + size then none
  else
    let packed := (block.drop head).take size
    let (code, streams) ← match known with
      | some code => some (code, packed)
      | none => LiteralCode.described packed
    let bytes ← if form = 0 then code.stream count streams else code.streams count streams
    return (⟨bytes, code⟩, block.drop (head + size))

/-- The literals that a block starts with, at most the given number of them, and the bytes behind
    them. -/
def Literals.described (known : Option LiteralCode) (most : Nat) (block : List UInt8) :
    Option (Literals × List UInt8) :=
  match block with
  | [] | [_] => none
  | first :: _ =>
    let form := first.toNat / 4 % 4
    match first.toNat % 4 with
    | 0 => plainLiterals known false form most block
    | 1 => plainLiterals known true form most block
    | 2 => codedLiterals none form most block
    | _ => known.bind fun code => codedLiterals (some code) form most block

end TypeCatalog.Archive.FrameCode
