/-! # Unpacking range-coded bytes

    A range-coded text is a sequence of bytes and of lengths that go with distances and repeat bytes
    already written. Every decision of it is a bit whose probability is learnt from those made
    before under the same conditions. The packed bytes are one number, and a bit tells in which part
    of a range, divided by the probability, that number lies.
-/

set_option autoImplicit false

namespace TypeCatalog.Archive.RangeCode

/-! ## Section 1: Bits -/

/-- What a reader of bits knows. -/
structure Coder where
  /-- The bytes that have not been looked at. -/
  input : List UInt8
  /-- The size of the current range. -/
  range : Nat
  /-- The number, counted from the start of the range. -/
  code : Nat
  /-- The probabilities of zeros, out of 2048. -/
  chances : Array Nat

/-- A reader of bits. -/
abbrev Decoder (α : Type) := StateT Coder Option α

/-- Make sure that the range has more than twenty-four bits. -/
def refill : Decoder Unit := fun c =>
  if c.range < 16777216 then
    match c.input with
    | [] => none
    | b :: rest =>
      some ((), { c with input := rest, range := c.range * 256, code := c.code * 256 + b.toNat })
  else some ((), c)

/-- A bit with the probability at an index. -/
def bit (index : Nat) : Decoder Nat := do
  refill
  fun c =>
    let chance := c.chances.getD index 1024
    let bound := c.range / 2048 * chance
    if c.code < bound then
      some (0, { c with
        range := bound
        chances := c.chances.setIfInBounds index (chance + (2048 - chance) / 32) })
    else
      some (1, { c with
        range := c.range - bound
        code := c.code - bound
        chances := c.chances.setIfInBounds index (chance - chance / 32) })

/-- A bit that is as often one as zero. -/
def evenBit : Decoder Nat := do
  refill
  fun c =>
    let half := c.range / 2
    if c.code < half then some (0, { c with range := half })
    else some (1, { c with range := half, code := c.code - half })

/-- That many even bits after a number, the most significant one first. -/
def evenBits (n : Nat) : Nat → Decoder Nat
  | 0 => return n
  | count + 1 => do
    let b ← evenBit
    evenBits (2 * n + b) count

/-- That many bits after those of `node`, the most significant one first, where the probability of
    each depends on the ones before it. -/
def treeFrom (base node : Nat) : Nat → Decoder Nat
  | 0 => return node
  | count + 1 => do
    let b ← bit (base + node)
    treeFrom base (2 * node + b) count

/-- A number of that many bits, the most significant one first. -/
def tree (base count : Nat) : Decoder Nat := do
  let node ← treeFrom base 1 count
  return node - (1 <<< count)

/-- A number of that many bits, the least significant one first. -/
def reverseTree (base node weight : Nat) : Nat → Decoder Nat
  | 0 => return 0
  | count + 1 => do
    let b ← bit (base + node)
    let n ← reverseTree base (2 * node + b) (2 * weight) count
    return b * weight + n

/-! ## Section 2: Where the probabilities are -/

/-- Whether a byte or a repetition follows, by state and position. -/
def repetitionAt (state position : Nat) : Nat := 16 * state + position

/-- Whether the distance is one of the last four, by state. -/
def recentAt (state : Nat) : Nat := 192 + state

/-- Whether it is not the last one. -/
def notLastAt (state : Nat) : Nat := 204 + state

/-- Whether it is not the last but one. -/
def notSecondAt (state : Nat) : Nat := 216 + state

/-- Whether it is not the last but two. -/
def notThirdAt (state : Nat) : Nat := 228 + state

/-- Whether the last distance is not for one byte only, by state and position. -/
def longAt (state position : Nat) : Nat := 240 + 16 * state + position

/-- The class of a distance, by the length. -/
def distanceClassAt (length : Nat) : Nat := 432 + 64 * length

/-- The low bits of distances that are not large. -/
def distanceAt : Nat := 688

/-- The last four bits of large distances. -/
def alignedAt : Nat := 816

/-- Lengths with new distances. -/
def newLengthsAt : Nat := 832

/-- Lengths with recent distances. -/
def recentLengthsAt : Nat := 1346

/-- Bytes, by their conditions. -/
def bytesAt : Nat := 1860

/-! ## Section 3: Repetitions -/

/-- How many bits of the byte before, and of the position, are conditions. -/
structure Conditions where
  /-- The number of high bits of the byte before that are a condition for a byte. -/
  byteBits : Nat
  /-- The number of low bits of the position that are a condition for a byte. -/
  placeBits : Nat
  /-- The number of low bits of the position that are a condition for other decisions. -/
  positionBits : Nat

/-- The length of a repetition, less two. -/
def length (base position : Nat) : Decoder Nat := do
  if (← bit base) = 0 then
    tree (base + 2 + 8 * position) 3
  else if (← bit (base + 1)) = 0 then
    return 8 + (← tree (base + 130 + 8 * position) 3)
  else
    return 16 + (← tree (base + 258) 8)

/-- A new distance, less one, for a repetition whose length, less two, is given. -/
def distance (length : Nat) : Decoder Nat := do
  let kind ← tree (distanceClassAt (min length 3)) 6
  if kind < 4 then
    return kind
  let further := kind / 2 - 1
  let high := (2 + kind % 2) <<< further
  if kind < 14 then
    return high + (← reverseTree (distanceAt + high - kind) 1 1 further)
  else
    let n ← evenBits 0 (further - 4)
    return high + 16 * n + (← reverseTree alignedAt 1 1 4)

/-! ## Section 4: Bytes -/

/-- The further bits of a byte after those of `node`. -/
def plainByte (base node : Nat) : Nat → Decoder Nat
  | 0 => return node
  | count + 1 => do
    let b ← bit (base + node)
    plainByte base (2 * node + b) count

/-- The further bits of a byte after those of `node`, as long as they are those of the byte that a
    repetition would give. -/
def matchedByte (base node expected : Nat) : Nat → Decoder Nat
  | 0 => return node
  | count + 1 => do
    let likely := (expected >>> count) % 2
    let b ← bit (base + 256 * (1 + likely) + node)
    if b = likely then matchedByte base (2 * node + b) expected count
    else plainByte base (2 * node + b) count

/-! ## Section 5: Texts -/

/-- What has been written so far and how. -/
structure Progress where
  out : Array UInt8
  /-- What the last decisions were. -/
  state : Nat
  /-- The last four distances, less one, the last one first. -/
  recent : Nat × Nat × Nat × Nat

/-- The byte at a distance, less one. -/
def Progress.back? (p : Progress) (distance : Nat) : Option UInt8 :=
  if distance < p.out.size then p.out[p.out.size - 1 - distance]? else none

/-- One byte that is no repetition. -/
def byte (k : Conditions) (p : Progress) : Decoder Progress := do
  let previous := (p.out.back?.getD 0).toNat
  let place := p.out.size % (1 <<< k.placeBits)
  let base := bytesAt + 768 * ((place <<< k.byteBits) + (previous >>> (8 - k.byteBits)))
  let b ← if p.state < 7 then plainByte base 1 8 else do
    let expected ← StateT.lift (p.back? p.recent.1)
    matchedByte base 1 expected.toNat 8
  return { p with
    out := p.out.push (UInt8.ofNat b)
    state := if p.state < 4 then 0 else if p.state < 10 then p.state - 3 else p.state - 6 }

/-- The length and the distance, less one, of a repetition, with the distances and the state after
    it. -/
def repetition (position : Nat) (p : Progress) : Decoder (Nat × Progress) := do
  let (r₀, r₁, r₂, r₃) := p.recent
  if (← bit (recentAt p.state)) = 0 then
    let n ← length newLengthsAt position
    let d ← distance n
    return (n + 2, { p with
      recent := (d, r₀, r₁, r₂)
      state := if p.state < 7 then 7 else 10 })
  else if (← bit (notLastAt p.state)) = 0 then
    if (← bit (longAt p.state position)) = 0 then
      return (1, { p with state := if p.state < 7 then 9 else 11 })
    let n ← length recentLengthsAt position
    return (n + 2, { p with state := if p.state < 7 then 8 else 11 })
  else
    let recent ← do
      if (← bit (notSecondAt p.state)) = 0 then
        pure (r₁, r₀, r₂, r₃)
      else if (← bit (notThirdAt p.state)) = 0 then
        pure (r₂, r₀, r₁, r₃)
      else
        pure (r₃, r₀, r₁, r₂)
    let n ← length recentLengthsAt position
    return (n + 2, { p with recent, state := if p.state < 7 then 8 else 11 })

/-- The output with that many bytes repeated from a distance, less one. -/
def repeated (distance : Nat) (out : Array UInt8) : Nat → Option (Array UInt8)
  | 0 => some out
  | count + 1 =>
    if distance < out.size then
      (out[out.size - 1 - distance]?).bind fun b => repeated distance (out.push b) count
    else none

/-- One byte or repetition, the latter of at most `room` bytes. -/
def step (k : Conditions) (room : Nat) (p : Progress) : Decoder Progress := do
  let position := p.out.size % (1 <<< k.positionBits)
  if (← bit (repetitionAt p.state position)) = 0 then byte k p
  else
    let (n, p) ← repetition position p
    if room < n then StateT.lift none
    else
      let out ← StateT.lift (repeated p.recent.1 p.out n)
      return { p with out }

/-- Bytes and repetitions until the output has the given size. Each adds to it, so that there is at
    least as much fuel as is needed. -/
def fill (k : Conditions) (size : Nat) (p : Progress) : Nat → Decoder Progress
  | 0 => do
    refill
    return p
  | fuel + 1 => do
    if size ≤ p.out.size then
      refill
      return p
    fill k size (← step k (size - p.out.size) p) fuel

/-- Probabilities before anything has been learnt. -/
def evenChances (k : Conditions) : Array Nat :=
  Array.replicate (bytesAt + 768 * (1 <<< (k.byteBits + k.placeBits))) 1024

/-- The number of four bytes, the most significant one first. -/
def natOfFour (a b c d : UInt8) : Nat :=
  ((a.toNat * 256 + b.toNat) * 256 + c.toNat) * 256 + d.toNat

/-- The start of a sequence of range-coded bytes. -/
def start (chances : Array Nat) (input : List UInt8) : Option Coder :=
  match input with
  | 0 :: a :: b :: c :: d :: rest => some ⟨rest, 0xFFFFFFFF, natOfFour a b c d, chances⟩
  | _ => none

/-- The conditions that a byte gives. -/
def Conditions.ofByte? (b : UInt8) : Option Conditions :=
  if b < 225 then some ⟨b.toNat % 9, b.toNat / 9 % 5, b.toNat / 45⟩ else none

/-- The bytes, of a size that is known, that range-coded ones unpack to: behind a version, the
    length of what follows on the conditions, these, and the reach of distances, which does not
    matter. -/
def unpack (size : Nat) (bytes : List UInt8) : Option (List UInt8) :=
  match bytes with
  | _ :: _ :: 5 :: 0 :: conditions :: _ :: _ :: _ :: _ :: rest => do
    let k ← Conditions.ofByte? conditions
    let c ← start (evenChances k) rest
    let (p, _) ← (fill k size ⟨#[], 0, 0, 0, 0, 0⟩ size).run c
    return p.out.toList
  | _ => none

end TypeCatalog.Archive.RangeCode
