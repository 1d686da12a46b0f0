import TypeCatalog.Archive.Digest
import TypeCatalog.Archive.FrameLiterals
import TypeCatalog.Archive.Inflate

/-! # Unpacking framed bytes

    A framed text is a sequence of frames, each a sequence of blocks. A block is bytes as they are,
    or one byte and how often it stands there, or packed: literals, and sequences of three symbols
    that say how many of the literals go next, and how many bytes are then repeated from how far
    back. The symbols of each of the three kinds are in a code of states. A frame may end with a
    digest of what it unpacks to.
-/

set_option autoImplicit false

namespace TypeCatalog.Archive.FrameCode

/-! ## Section 1: Tables -/

/-- Numbers and further bits for symbols, where the next number is that many further bits away. -/
def steps (least : Nat) : List Nat → List (Nat × Nat)
  | [] => []
  | further :: rest => (least, further) :: steps (least + (1 <<< further)) rest

/-- How many literals the symbols stand for. -/
def literalTable : Array (Nat × Nat) :=
  (steps 0 (List.replicate 16 0 ++ [1, 1, 1, 1, 2, 2, 3, 3, 4, 6, 7, 8, 9, 10, 11, 12, 13, 14, 15,
    16])).toArray

/-- How many repeated bytes the symbols stand for. -/
def lengthTable : Array (Nat × Nat) :=
  (steps 3 (List.replicate 32 0 ++ [1, 1, 1, 1, 2, 2, 3, 3, 4, 4, 5, 7, 8, 9, 10, 11, 12, 13, 14,
    15, 16])).toArray

/-- Which distances the symbols stand for. -/
def distanceTable : Array (Nat × Nat) := (steps 1 (List.range 32)).toArray

/-- One of the three kinds of symbols in sequences. -/
structure SymbolKind where
  /-- What the symbols stand for. -/
  table : Array (Nat × Nat)
  /-- A code has at most `1 <<< widest` cells. -/
  widest : Nat
  /-- The code of blocks that do not describe one. -/
  usual : StateCode

/-- Shares of so many cells for one symbol after the other, behind which some are rare. -/
def usualShares (counts : List Nat) (rare : Nat) : List CellShare :=
  counts.map CellShare.usual ++ List.replicate rare .rare

/-- Symbols for numbers of literals. -/
def literalKind : SymbolKind :=
  ⟨literalTable, 9, .ofShares 6 (usualShares ([4, 3] ++ List.replicate 11 2 ++ [1, 1, 1] ++
    List.replicate 9 2 ++ [3, 2, 1, 1, 1, 1, 1]) 4)⟩

/-- Symbols for distances. -/
def distanceKind : SymbolKind :=
  ⟨distanceTable, 8, .ofShares 5 (usualShares (List.replicate 6 1 ++ [2, 2, 2] ++
    List.replicate 15 1) 5)⟩

/-- Symbols for numbers of repeated bytes. -/
def lengthKind : SymbolKind :=
  ⟨lengthTable, 9, .ofShares 6 (usualShares ([1, 4, 3] ++ List.replicate 6 2 ++
    List.replicate 37 1) 7)⟩

/-- The code of a kind of symbols in a block, which it says in the given way, and the bytes behind
    it. -/
def SymbolKind.described (k : SymbolKind) (way : Nat) (known : Option StateCode)
    (bytes : List UInt8) : Option (StateCode × List UInt8) :=
  match way with
  | 0 => some (k.usual, bytes)
  | 1 =>
    match bytes with
    | [] => none
    | b :: rest => if b.toNat < k.table.size then some (.single b.toNat, rest) else none
  | 2 => StateCode.described k.widest k.table.size bytes
  | _ => known.map fun code => (code, bytes)

/-- What a cell stands for, with its further bits. -/
def SymbolKind.value (k : SymbolKind) (cell : StateCell) : BitReader Nat := do
  let (least, further) ← StateT.lift k.table[cell.symbol]?
  return least + (← nextBits further)

/-! ## Section 2: Sequences -/

/-- The codes of the three kinds of symbols. -/
structure SequenceCodes where
  literals : StateCode
  distances : StateCode
  lengths : StateCode

/-- The last three distances, the latest one first. -/
structure RecentDistances where
  first : Nat
  second : Nat
  third : Nat
  deriving DecidableEq, Repr

/-- The distances before any sequence. -/
def RecentDistances.initial : RecentDistances := ⟨1, 4, 8⟩

/-- The last distances once there is one that a number stands for: up to three it is one of the last
    ones, or of those after the latest one if there are no literals between. -/
def RecentDistances.next (r : RecentDistances) (n literals : Nat) : RecentDistances :=
  if 3 < n then ⟨n - 3, r.first, r.second⟩
  else
    match if literals = 0 then n + 1 else n with
    | 1 => r
    | 2 => ⟨r.second, r.first, r.third⟩
    | 3 => ⟨r.third, r.first, r.second⟩
    | _ => ⟨r.first - 1, r.first, r.second⟩

/-- What a frame has come to. -/
structure Progress where
  out : Array UInt8
  literalCode : Option LiteralCode
  codes : Option SequenceCodes
  recent : RecentDistances

/-- Nothing at all. -/
def Progress.initial : Progress := ⟨#[], none, none, .initial⟩

/-- The sequences of a block, where `used` of its literals have been taken and no more than `most`
    bytes may come out. -/
def sequences (codes : SequenceCodes) (all : Array UInt8) (most used : Nat) (out : Array UInt8)
    (recent : RecentDistances) (literal distance length : StateCell) (s : List Bool) :
    Nat → Option (Nat × Array UInt8 × RecentDistances)
  | 0 => if s.isEmpty then some (used, out, recent) else none
  | count + 1 => do
    -- The further bits of the distance come first, those of the literals last.
    let (n, s) ← (distanceKind.value distance).run s
    let (repetitions, s) ← (lengthKind.value length).run s
    let (literals, s) ← (literalKind.value literal).run s
    let recent := recent.next n literals
    if all.size < used + literals || most < out.size + literals + repetitions then none
    else
      let out ← repeated recent.first (out ++ all.extract used (used + literals)) repetitions
      -- Behind the last sequence there are no bits for further cells.
      if count = 0 then
        sequences codes all most (used + literals) out recent literal distance length s count
      else
        let (literal, s) ← (codes.literals.step literal).run s
        let (length, s) ← (codes.lengths.step length).run s
        let (distance, s) ← (codes.distances.step distance).run s
        sequences codes all most (used + literals) out recent literal distance length s count

/-- The number of sequences that some bytes start with, and the bytes behind it. -/
def sequenceCount : List UInt8 → Option (Nat × List UInt8)
  | [] => none
  | 0xFF :: low :: high :: rest => some (natOfBytes [low, high] + 0x7F00, rest)
  | first :: rest =>
    if first < 128 then some (first.toNat, rest)
    else if first = 0xFF then none
    else
      match rest with
      | [] => none
      | low :: rest => some ((first.toNat - 128) * 256 + low.toNat, rest)

/-- The codes of the sequences of a block, and the bytes behind them. -/
def sequenceCodes (known : Option SequenceCodes) : List UInt8 →
    Option (SequenceCodes × List UInt8)
  | [] => none
  | ways :: rest => do
    if ways &&& 3 ≠ 0 then none
    else
      let n := ways.toNat
      let (literals, rest) ←
        literalKind.described (n / 64) (known.map SequenceCodes.literals) rest
      let (distances, rest) ←
        distanceKind.described (n / 16 % 4) (known.map SequenceCodes.distances) rest
      let (lengths, rest) ←
        lengthKind.described (n / 4 % 4) (known.map SequenceCodes.lengths) rest
      return (⟨literals, distances, lengths⟩, rest)

/-- A packed block, which unpacks to at most the given number of bytes. -/
def Progress.packed (p : Progress) (most : Nat) (block : List UInt8) : Option Progress := do
  let (literals, rest) ← Literals.described p.literalCode most block
  let (count, rest) ← sequenceCount rest
  if count = 0 then
    if rest.isEmpty then
      some { p with out := p.out ++ literals.bytes, literalCode := literals.code }
    else none
  else
    let (codes, rest) ← sequenceCodes p.codes rest
    let s ← bitsBackwards rest
    let (literal, s) ← codes.literals.start.run s
    let (distance, s) ← codes.distances.start.run s
    let (length, s) ← codes.lengths.start.run s
    let (used, out, recent) ← sequences codes literals.bytes (p.out.size + most) 0 p.out p.recent
      literal distance length s count
    let out := out ++ literals.bytes.extract used literals.bytes.size
    if p.out.size + most < out.size then none else some ⟨out, literals.code, codes, recent⟩

/-! ## Section 3: Blocks -/

/-- The blocks of a frame through the last one, each of which unpacks to at most the given number of
    bytes, and the bytes behind them. -/
def blocks (most : Nat) (p : Progress) (bytes : List UInt8) : Option (Array UInt8 × List UInt8) :=
  match bytes with
  | a :: b :: c :: rest =>
    let head := natOfBytes [a, b, c]
    -- The lowest bit marks the last block, and the next two say how the block is written.
    let count := head / 8
    let size := if head / 2 % 4 = 1 then 1 else count
    let found := rest.take size
    let after? :=
      match head / 2 % 4 with
      | 0 => some { p with out := p.out ++ found.toArray }
      | 1 => some { p with out := p.out ++ (found.flatMap (List.replicate count)).toArray }
      | 2 => if count = 0 then some p else p.packed most found
      | _ => none
    if found.length < size || most < count then none
    else
      match after? with
      | none => none
      | some p =>
        if head % 2 = 1 then some (p.out, rest.drop size) else blocks most p (rest.drop size)
  | _ => none
termination_by bytes.length
decreasing_by
  simp only [List.length_cons, List.length_drop]
  omega

/-! ## Section 4: Frames -/

/-- What a frame says about itself. -/
structure FrameHead where
  /-- How many bytes are to be kept while it is unpacked. -/
  window : Nat
  /-- The number of bytes that it unpacks to. -/
  size : Option Nat
  /-- Whether a digest follows its blocks. -/
  hasDigest : Bool

/-- The number of so many bytes in front of some others, and those. -/
def number? (width : Nat) (bytes : List UInt8) : Option (Nat × List UInt8) :=
  if bytes.length < width then none else some (natOfBytes (bytes.take width), bytes.drop width)

/-- The window that a byte stands for. -/
def windowOf (b : UInt8) : Nat :=
  let least := 1 <<< (b.toNat / 8 + 10)
  least + least / 8 * (b.toNat % 8)

/-- The head of a frame behind its first four bytes, and the bytes behind it. A frame that can only
    be unpacked together with other bytes is refused. -/
def FrameHead.described : List UInt8 → Option (FrameHead × List UInt8)
  | [] => none
  | flags :: rest => do
    let isWhole := flags &&& 0x20 ≠ 0
    let (window, rest) ← if isWhole then some (0, rest) else
      match rest with
      | [] => none
      | b :: rest => some (windowOf b, rest)
    let (others, rest) ← number? (#[0, 1, 2, 4][flags.toNat % 4]?.getD 0) rest
    let form := flags.toNat / 64
    let width := if form = 0 then (if isWhole then 1 else 0) else 1 <<< form
    let (n, rest) ← number? width rest
    let size := if form = 1 then n + 256 else n
    if flags &&& 8 ≠ 0 || others ≠ 0 then none
    else
      return (⟨if isWhole then size else window, if width = 0 then none else some size,
        flags &&& 4 ≠ 0⟩, rest)

/-- The largest window. -/
def largestWindow : Nat := (1 <<< 27) + 1

/-- The largest number of bytes of a block. -/
def largestBlock : Nat := 1 <<< 17

/-- Whether some bytes are the digest of what a frame unpacks to, as much of it as is kept. -/
def isDigest (out : Array UInt8) (bytes : List UInt8) : Bool :=
  (Digest.ofBytes out.toList).toNat % (1 <<< 32) = natOfBytes bytes

/-- What a frame unpacks to, behind its first four bytes, and the bytes behind it. -/
def frame (bytes : List UInt8) : Option (Array UInt8 × List UInt8) := do
  let (head, rest) ← FrameHead.described bytes
  if largestWindow < head.window then none
  else
    let (out, rest) ← blocks (min head.window largestBlock) .initial rest
    let isRight := !head.hasDigest || (4 ≤ rest.length && isDigest out (rest.take 4))
    if isRight && head.size.all (· == out.size) then
      return (out, if head.hasDigest then rest.drop 4 else rest)
    else none

/-- What starts a frame of blocks. -/
def frameMark : Nat := 0xFD2FB528

/-- What starts a frame without any, but for its last half byte. -/
def skippedMark : Nat := 0x184D2A50

/-- What frames unpack to. There is at most as much fuel as there are bytes. -/
def frames (out : Array UInt8) (bytes : List UInt8) : Nat → Option (Array UInt8)
  | 0 => none
  | fuel + 1 =>
    if bytes.isEmpty then some out
    else do
      let (mark, rest) ← number? 4 bytes
      if mark = frameMark then
        let (found, rest) ← frame rest
        frames (out ++ found) rest fuel
      else if mark / 16 = skippedMark / 16 then
        let (size, rest) ← number? 4 rest
        if rest.length < size then none else frames out (rest.drop size) fuel
      else none

/-- The bytes that one frame or more unpack to. -/
def unpack (bytes : List UInt8) : Option (List UInt8) :=
  if bytes.isEmpty then none else (frames #[] bytes (bytes.length + 1)).map Array.toList

end TypeCatalog.Archive.FrameCode
