import TypeCatalog.Archive.Bits

/-! # Codes whose symbols are states

    A code of states shares out a power of two of cells among its symbols. Where one is in the code
    is a cell: it says which symbol comes next, and how many bits then lead to the next cell. The
    more cells a symbol has, the fewer bits there are after it. Such bits are read backwards, from
    the last byte to the first one, but the shares themselves are read forwards.
-/

set_option autoImplicit false

namespace TypeCatalog.Archive

/-! ## Section 1: Shares -/

/-- What a symbol has of the cells. -/
inductive CellShare where
  /-- One cell, among the last ones. -/
  | rare
  /-- That many cells. -/
  | usual (count : Nat)
  deriving DecidableEq, Repr

/-- The number of cells in a share. -/
def CellShare.count : CellShare → Nat
  | rare => 1
  | usual count => count

/-- A number up to the given one, in as few bits as tell these numbers apart: the least of them are
    in one bit less than the others. -/
def takeUpTo (most : Nat) (s : List Bool) : Option (Nat × Rest s) := do
  let width := most.log2
  let short := (2 <<< width) - 1 - most
  let (low, left) ← takeBits width s
  if low < short then
    return (low, left)
  else
    let (high, left₂) ← takeBits 1 left.left
    return (if high = 0 then low else low + (1 <<< width) - short, left.append left₂)

/-- A number in pairs of bits: three for each pair of two ones, and the pair behind these. -/
def takePairs : (s : List Bool) → Option (Nat × Rest s)
  | true :: true :: rest =>
    (takePairs rest).map fun (n, left) =>
      (n + 3, (Tail.cons true (Tail.cons true left).toRest).toRest)
  | low :: high :: rest =>
    some (low.toNat + 2 * high.toNat, (Tail.cons low (Tail.one high rest).toRest).toRest)
  | _ => none

/-- The shares of symbols in all of the given number of cells, for at most the given number of
    symbols. A symbol without cells says how many more without any follow it. -/
def takeShares (cells symbols : Nat) (s : List Bool) : Option (List CellShare × Rest s) :=
  if cells = 0 then some ([], .all s)
  else if _ : symbols = 0 then none
  else
    match takeUpTo (cells + 1) s with
    | none => none
    -- Zero is less than one cell: the symbol gets one, but among the last ones.
    | some (0, left) =>
      (takeShares (cells - 1) (symbols - 1) left.left).map fun (shares, left₂) =>
        (.rare :: shares, left.append left₂)
    -- One is no cell at all, and how many symbols after it have none either.
    | some (1, left) =>
      match takePairs left.left with
      | none => none
      | some (more, left₂) =>
        (takeShares cells (symbols - 1 - more) left₂.left).map fun (shares, left₃) =>
          (List.replicate (more + 1) (.usual 0) ++ shares, left.append (left₂.append left₃))
    | some (count + 2, left) =>
      (takeShares (cells - (count + 1)) (symbols - 1) left.left).map fun (shares, left₂) =>
        (.usual (count + 1) :: shares, left.append left₂)
termination_by symbols

/-! ## Section 2: Cells -/

/-- A cell of a code of states. -/
structure StateCell where
  symbol : Nat
  /-- How many bits lead to the next cell. -/
  width : Nat
  /-- The next cell if these bits are all zero. -/
  next : Nat
  deriving Inhabited

/-- A code of states: its cells, of which there are `1 <<< width`. -/
structure StateCode where
  width : Nat
  cells : Array StateCell

/-- The code of one symbol that takes no bits. -/
def StateCode.single (symbol : Nat) : StateCode := ⟨0, #[⟨symbol, 0, 0⟩]⟩

/-- The symbols with rare shares. -/
def rareSymbols (shares : List CellShare) : List Nat :=
  (shares.zipIdx.filter fun entry => entry.1 == .rare).map Prod.snd

/-- The symbols with usual shares, each as often as it has cells. -/
def usualSymbols (shares : List CellShare) : List Nat :=
  shares.zipIdx.flatMap fun (share, symbol) =>
    match share with
    | .rare => []
    | .usual count => List.replicate count symbol

/-- The order in which the first `used` of `1 <<< width` cells are given away. -/
def cellOrder (width used : Nat) : List Nat :=
  let size := 1 <<< width
  let step := size / 2 + size / 8 + 3
  ((List.range size).map fun i => i * step % size).filter (· < used)

/-- The symbols of all cells. -/
def cellSymbols (width : Nat) (shares : List CellShare) : Array Nat :=
  let size := 1 <<< width
  -- Rare symbols have the last cells, the last one first.
  let rare := rareSymbols shares
  let lasts := (List.range rare.length).map fun i => size - 1 - i
  let places := lasts ++ cellOrder width (size - rare.length)
  (places.zip (rare ++ usualSymbols shares)).foldl
    (fun cells (place, symbol) => cells.setIfInBounds place symbol) (Array.replicate size 0)

/-- The cells of the given symbols, where `seen` are the cells of each symbol that there are, with
    those of it that have come before. -/
def cellsFrom (width : Nat) (seen : Array Nat) : List Nat → List StateCell
  | [] => []
  | symbol :: rest =>
    let n := seen.getD symbol 0
    let fewer := width - n.log2
    ⟨symbol, fewer, (n <<< fewer) - (1 <<< width)⟩ ::
      cellsFrom width (seen.setIfInBounds symbol (n + 1)) rest

/-- The code with the given shares. -/
def StateCode.ofShares (width : Nat) (shares : List CellShare) : StateCode :=
  ⟨width,
    (cellsFrom width (shares.map CellShare.count).toArray
      (cellSymbols width shares).toList).toArray⟩

/-- The code that some bytes start with, with at most `1 <<< widest` cells and the given number of
    symbols, and the bytes behind it. -/
def StateCode.described (widest symbols : Nat) (bytes : List UInt8) :
    Option (StateCode × List UInt8) := do
  let s := bitsOf bytes
  let (n, left) ← takeBits 4 s
  let width := n + 5
  if widest < width then none
  else
    let (shares, left₂) ← takeShares (1 <<< width) symbols left.left
    return (.ofShares width shares, bytes.drop ((s.length - left₂.left.length + 7) / 8))

/-! ## Section 3: Reading backwards -/

/-- What reads from bits. -/
abbrev BitReader (α : Type) := StateT (List Bool) Option α

/-- The bits of some bytes backwards, without the mark at their end: the last bit that is set, which
    has to be in the last byte. -/
def bitsBackwards (bytes : List UInt8) : Option (List Bool) :=
  match bytes.reverse with
  | [] => none
  | last :: _ =>
    if last = 0 then none else some (((bitsOf bytes).reverse.dropWhile fun bit => !bit).drop 1)

/-- That many bits as a number. -/
def nextBits (count : Nat) : BitReader Nat := fun s =>
  (takeHighBits count s).map fun (n, left) => (n, left.left)

/-- The first cell. -/
def StateCode.start (c : StateCode) : BitReader StateCell := do
  let n ← nextBits c.width
  StateT.lift c.cells[n]?

/-- The cell after the given one. -/
def StateCode.step (c : StateCode) (cell : StateCell) : BitReader StateCell := do
  let n ← nextBits cell.width
  StateT.lift c.cells[cell.next + n]?

end TypeCatalog.Archive
