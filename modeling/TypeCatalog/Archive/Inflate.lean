import TypeCatalog.Archive.Bits

/-! # Unpacking deflated bytes

    A deflated text is a sequence of blocks: bytes as they are, or symbols in a prefix code that is
    fixed or described at the start of the block. A symbol is a byte, the end of the block, or a
    length that goes with a distance and repeats bytes already written. The bits of a byte come the
    least significant one first. There are two forms of it, which differ in how long and how far
    back repetitions can be.
-/

set_option autoImplicit false

namespace TypeCatalog.Archive

/-! ## Section 1: Tables -/

/-- The least length and the number of further bits for the symbols from 257 on, without the
    last one. -/
def lengthTable : Array (Nat × Nat) := #[
  (3, 0), (4, 0), (5, 0), (6, 0), (7, 0), (8, 0), (9, 0), (10, 0), (11, 1), (13, 1), (15, 1),
  (17, 1), (19, 2), (23, 2), (27, 2), (31, 2), (35, 3), (43, 3), (51, 3), (59, 3), (67, 4),
  (83, 4), (99, 4), (115, 4), (131, 5), (163, 5), (195, 5), (227, 5)]

/-- The least distance and the number of further bits for the symbols of distances up to
    thirty-two thousand bytes. -/
def distanceTable : Array (Nat × Nat) := #[
  (1, 0), (2, 0), (3, 0), (4, 0), (5, 1), (7, 1), (9, 2), (13, 2), (17, 3), (25, 3), (33, 4),
  (49, 4), (65, 5), (97, 5), (129, 6), (193, 6), (257, 7), (385, 7), (513, 8), (769, 8),
  (1025, 9), (1537, 9), (2049, 10), (3073, 10), (4097, 11), (6145, 11), (8193, 12), (12289, 12),
  (16385, 13), (24577, 13)]

/-- One form of deflated bytes: which lengths and distances its symbols stand for. -/
structure DeflateForm where
  lengths : Array (Nat × Nat)
  distances : Array (Nat × Nat)

/-- The usual form. -/
def DeflateForm.usual : DeflateForm := ⟨lengthTable.push (258, 0), distanceTable⟩

/-- The form that repeats up to sixty-four thousand bytes. -/
def DeflateForm.wide : DeflateForm :=
  ⟨lengthTable.push (3, 16), distanceTable ++ #[(32769, 14), (49153, 14)]⟩

/-- The code of literals and lengths in blocks without a description. -/
def fixedLiterals : PrefixCode :=
  .ofLengths (List.replicate 144 8 ++ List.replicate 112 9 ++ List.replicate 24 7 ++
    List.replicate 8 8)

/-- The code of distances in blocks without a description. -/
def fixedDistances : PrefixCode := .ofLengths (List.replicate 32 5)

/-- The order in which the lengths of the code for lengths are given. -/
def lengthOrder : List Nat := [16, 17, 18, 0, 8, 7, 9, 6, 10, 5, 11, 4, 12, 3, 13, 2, 14, 1, 15]

/-! ## Section 2: Blocks -/

/-- A value from a table, with its further bits. -/
def tabled (table : Array (Nat × Nat)) (symbol : Nat) (s : List Bool) : Option (Nat × Rest s) := do
  let (least, further) ← table[symbol]?
  let (n, left) ← takeBits further s
  return (least + n, left)

/-- The output with that many bytes repeated from the given distance. -/
def repeated (distance : Nat) (out : Array UInt8) : Nat → Option (Array UInt8)
  | 0 => some out
  | count + 1 =>
    if distance ≤ out.size then
      (out[out.size - distance]?).bind fun b => repeated distance (out.push b) count
    else none

/-- The symbols of a block through the one that ends it, where `r` has been left of `s` so far. -/
def symbolsOfBlock {s : List Bool} (form : DeflateForm) (literals distances : PrefixCode)
    (out : Array UInt8) (r : Rest s) : Option (Array UInt8 × Rest s) :=
  match literals.read r.left with
  | none => none
  | some (symbol, left) =>
    if symbol < 256 then
      symbolsOfBlock form literals distances (out.push (UInt8.ofNat symbol)) (r.append left.toRest)
    else if symbol = 256 then
      some (out, r.append left.toRest)
    else
      match tabled form.lengths (symbol - 257) left.left with
      | none => none
      | some (length, left₂) =>
        match distances.read left₂.left with
        | none => none
        | some (code, left₃) =>
          match tabled form.distances code left₃.left with
          | none => none
          | some (distance, left₄) =>
            match repeated distance out length with
            | none => none
            | some out =>
              symbolsOfBlock form literals distances out
                (r.append (left.append (left₂.append (left₃.append left₄).toRest)).toRest)
termination_by r.left.length
decreasing_by
  · exact left.lt
  · have := left.lt
    have := left₂.length_le
    have := left₃.lt
    have := left₄.length_le
    simp only [Rest.left_append, Tail.left_append]
    omega

/-- The lengths of codes, up to the given number of them, where repetitions are of the last one. -/
def codeLengths (code : PrefixCode) (total : Nat) (done : Array Nat) (s : List Bool) :
    Option (Array Nat × Rest s) := do
  if total ≤ done.size then
    return (done, .all s)
  let (symbol, left) ← code.read s
  if symbol < 16 then
    let (found, left₂) ← codeLengths code total (done.push symbol) left.left
    return (found, (left.append left₂).toRest)
  let (least, further) ← #[(3, 2), (3, 3), (11, 7)][symbol - 16]?
  let length ← if symbol = 16 then done.back? else some 0
  let (n, left₂) ← takeBits further left.left
  let (found, left₃) ←
    codeLengths code total (done ++ Array.replicate (least + n) length) left₂.left
  return (found, (left.append (left₂.append left₃)).toRest)
termination_by s.length
decreasing_by
  · exact left.lt
  · have := left.lt
    have := left₂.length_le
    omega

/-- That many numbers of three bits. -/
def triples : Nat → (s : List Bool) → Option (List Nat × Rest s)
  | 0, s => some ([], .all s)
  | count + 1, s => do
    let (n, left) ← takeBits 3 s
    let (ns, left₂) ← triples count left.left
    return (n :: ns, left.append left₂)

/-- Whether the lengths of a code are in order: every sequence of bits starts with one of the codes,
    or there is at most one code, of one bit. -/
def isUsable (lengths : List Nat) : Bool :=
  isComplete lengths || (lengths.all (· ≤ 1) && lengths.count 1 ≤ 1)

/-- The most symbols of bytes and lengths that a block can describe. -/
def mostLiterals : Nat := 286

/-- The codes that a block describes. The one for bytes and lengths has a code for the end of the
    block. -/
def describedCodes (form : DeflateForm) (s : List Bool) :
    Option ((PrefixCode × PrefixCode) × Rest s) := do
  let (literalCount, left) ← takeBits 5 s
  let (distanceCount, left₂) ← takeBits 5 left.left
  let (lengthCount, left₃) ← takeBits 4 left₂.left
  let (found, left₄) ← triples (lengthCount + 4) left₃.left
  let given := lengthOrder.zip found
  let lengthLengths := (List.range 19).map fun n => (given.lookup n).getD 0
  let literalTotal := literalCount + 257
  let total := literalTotal + (distanceCount + 1)
  if mostLiterals < literalTotal || form.distances.size < distanceCount + 1 ||
      !isComplete lengthLengths then none
  else
    let (lengths, left₅) ← codeLengths (.ofLengths lengthLengths) total #[] left₄.left
    let literals := lengths.toList.take literalTotal
    let distances := lengths.toList.drop literalTotal
    if lengths.size = total && literals.getD 256 0 ≠ 0 && isUsable literals &&
        isUsable distances then
      return ((.ofLengths literals, .ofLengths distances),
        left.append (left₂.append (left₃.append (left₄.append left₅))))
    else none

/-- A block of bytes as they are, from the next full byte on. -/
def plainBlock (out : Array UInt8) (s : List Bool) : Option (Array UInt8 × Rest s) := do
  let (_, left) ← takeBits (s.length % 8) s
  let (length, left₂) ← takeBits 16 left.left
  let (inverse, left₃) ← takeBits 16 left₂.left
  if length + inverse ≠ 0xFFFF then none
  else
    let (bytes, left₄) ← takeBytes length left₃.left
    return (out ++ bytes.toArray, left.append (left₂.append (left₃.append left₄)))

/-- One block after its first three bits, of which the last two are its kind. -/
def block (form : DeflateForm) (kind : Nat) (out : Array UInt8) (s : List Bool) :
    Option (Array UInt8 × Rest s) :=
  match kind with
  | 0 => plainBlock out s
  | 1 => symbolsOfBlock form fixedLiterals fixedDistances out (.all s)
  | 2 => do
    let ((literals, distances), left) ← describedCodes form s
    symbolsOfBlock form literals distances out left
  | _ => none

/-- The blocks through the last one. -/
def blocks (form : DeflateForm) (out : Array UInt8) (s : List Bool) : Option (Array UInt8) :=
  match s with
  | last :: low :: high :: rest => do
    let (out, left) ← block form (low.toNat + 2 * high.toNat) out rest
    if last then return out
    blocks form out left.left
  | _ => none
termination_by s.length
decreasing_by
  have := left.length_le
  simp only [List.length_cons]
  omega

/-- The bytes that deflated ones unpack to. What follows the last block does not matter. -/
def inflate (form : DeflateForm) (bytes : List UInt8) : Option (List UInt8) :=
  (blocks form #[] (bitsOf bytes)).map Array.toList

end TypeCatalog.Archive
