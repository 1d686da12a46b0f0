import TypeCatalog.Archive.Bytes
import TypeCatalog.Archive.RangeCode

/-! # Unpacking range-coded bytes in chunks

    A chunked text is a stream of blocks with an index behind them that says how long each block is.
    A block is a sequence of chunks, each either bytes as they are or range-coded bytes. A chunk
    tells whether it starts with nothing learnt, and whether it can repeat bytes of those before.
-/

set_option autoImplicit false

namespace TypeCatalog.Archive.ChunkedCode

open RangeCode

/-! ## Section 1: Chunks -/

/-- What the chunks so far have left. -/
structure State where
  /-- The bytes that can no longer be repeated. -/
  done : Array UInt8
  progress : Progress
  /-- The conditions of range-coded chunks, if there have been any since all was forgotten. -/
  conditions : Option Conditions
  chances : Array Nat
  /-- Whether there has been a chunk that can be the first one. -/
  hasStarted : Bool

/-- Nothing at all. -/
def State.initial : State := ⟨#[], ⟨#[], 0, 0, 0, 0, 0⟩, none, #[], false⟩

/-- All bytes so far. -/
def State.bytes (s : State) : Array UInt8 := s.done ++ s.progress.out

/-- The state in which no bytes can be repeated and nothing has been learnt. -/
def State.forget (s : State) : State :=
  { s with
    done := s.bytes
    progress := { s.progress with out := #[] }
    conditions := none
    hasStarted := true }

/-- The state in which nothing has been learnt under the given conditions. -/
def State.unlearn (s : State) (k : Conditions) : State :=
  { s with
    progress := ⟨s.progress.out, 0, 0, 0, 0, 0⟩
    conditions := some k
    chances := evenChances k }

/-- The conditions that a byte gives in chunks, which may not be too many. -/
def chunkConditions? (b : UInt8) : Option Conditions := do
  let k ← Conditions.ofByte? b
  if 4 < k.byteBits + k.placeBits then none else some k

/-- A chunk of bytes as they are. -/
def State.plain (s : State) (bytes : List UInt8) : State :=
  { s with progress := { s.progress with out := s.progress.out ++ bytes.toArray } }

/-- A chunk of range-coded bytes, which unpacks to that many. -/
def State.coded (s : State) (size : Nat) (bytes : List UInt8) : Option State := do
  let k ← s.conditions
  let c ← start s.chances bytes
  let (progress, c) ← (fill k (s.progress.out.size + size) s.progress size).run c
  if c.code = 0 && c.input.isEmpty then some { s with progress, chances := c.chances } else none

/-- The number of two bytes, the most significant one first. -/
def natOfTwo (a b : UInt8) : Nat := a.toNat * 256 + b.toNat

/-- The state before a range-coded chunk that starts with the given byte, and what is left of the
    chunk after its conditions. -/
def State.prepare (s : State) (control : UInt8) (rest : List UInt8) :
    Option (State × List UInt8) :=
  let s := if 0xE0 ≤ control then s.forget else s
  if !s.hasStarted then none
  else if 0xC0 ≤ control then
    match rest with
    | [] => none
    | b :: rest => (chunkConditions? b).map fun k => (s.unlearn k, rest)
  else if 0xA0 ≤ control then s.conditions.map fun k => (s.unlearn k, rest)
  else some (s, rest)

/-- The chunks through the end of a block, with the bytes behind it. -/
def chunks (s : State) (input : List UInt8) : Option (State × List UInt8) :=
  match input with
  | [] => none
  | control :: rest =>
    if control = 0 then some (s, rest)
    else if control < 0x80 then
      match rest with
      | a :: b :: rest =>
        let size := natOfTwo a b + 1
        let s := if control = 1 then s.forget else s
        if control ≤ 2 && s.hasStarted && size ≤ rest.length then
          chunks (s.plain (rest.take size)) (rest.drop size)
        else none
      | _ => none
    else
      match rest with
      | a :: b :: c :: d :: rest =>
        match s.prepare control rest with
        | none => none
        | some (s, left) =>
          let packedSize := natOfTwo c d + 1
          let size := control.toNat % 32 * 65536 + natOfTwo a b + 1
          if packedSize ≤ left.length && left.length ≤ rest.length then
            match s.coded size (left.take packedSize) with
            | none => none
            | some s => chunks s (left.drop packedSize)
          else none
      | _ => none
termination_by input.length
decreasing_by
  · simp only [List.length_cons, List.length_drop]
    omega
  · next h =>
    simp only [Bool.and_eq_true, decide_eq_true_eq] at h
    simp only [List.length_cons, List.length_drop]
    omega

/-! ## Section 2: Streams -/

/-- A number of seven bits in each byte, the least significant ones first. Every byte but the last
    has its highest bit set. -/
def number? : List UInt8 → Option (Nat × List UInt8)
  | [] => none
  | b :: rest =>
    if b < 128 then some (b.toNat, rest)
    else (number? rest).map fun (n, left) => (b.toNat - 128 + 128 * n, left)

/-- The number of bytes of a check of the given kind. -/
def checkSize (kind : UInt8) : Option Nat :=
  if kind = 0 then some 0
  else if kind = 1 then some 4
  else if kind = 4 then some 8
  else if kind = 10 then some 32
  else none

/-- The bytes behind those that fill up a multiple of four. -/
def skipPadding (used : Nat) (s : List UInt8) : Option (List UInt8) :=
  let count := (4 - used % 4) % 4
  if s.take count = List.replicate count 0 then some (s.drop count) else none

/-- Whether the last four of some bytes are the checksum of the others. -/
def isChecked (s : List UInt8) : Bool :=
  let size := s.length - 4
  4 ≤ s.length && (checksum (s.take size)).toNat = natOfBytes (s.drop size)

/-- Whether the head of a block, between its first byte and its checksum, says that it holds chunks
    and nothing else has been done to it. The sizes in it do not matter. -/
def isChunkHead (s : List UInt8) : Bool :=
  match s with
  | [] => false
  | flags :: rest =>
    let afterSizes := do
      let rest ← if flags &&& 0x40 = 0 then some rest else (number? rest).map Prod.snd
      if flags &&& 0x80 = 0 then some rest else (number? rest).map Prod.snd
    flags &&& 0x3F = 0 &&
      match afterSizes with
      | some (0x21 :: 1 :: reach :: padding) => reach ≤ 40 && padding.all (· == 0)
      | _ => false

/-- The blocks through the last one, with the bytes behind them, and for each block its size without
    the bytes that fill it up, and the size of what it unpacks to. There is at most as much fuel as
    there are bytes. -/
def blocks (check : Nat) (sizes : List (Nat × Nat)) (out : Array UInt8) (s : List UInt8) :
    Nat → Option (List (Nat × Nat) × Array UInt8 × List UInt8)
  | 0 => none
  | fuel + 1 =>
    match s with
    | [] => none
    | 0 :: rest => some (sizes.reverse, out, rest)
    | first :: rest => do
      let headSize := (first.toNat + 1) * 4
      let head := s.take headSize
      if head.length < headSize || !isChecked head ||
          !isChunkHead (rest.take (headSize - 5)) then none
      else
        let (state, left) ← chunks .initial (s.drop headSize)
        let used := s.length - left.length
        let left ← skipPadding used left
        if left.length < check then none
        else
          blocks check ((used + check, state.bytes.size) :: sizes) (out ++ state.bytes)
            (left.drop check) fuel

/-- The given numbers in front of some bytes, and what is left behind them. -/
def expectNumbers : List Nat → List UInt8 → Option (List UInt8)
  | [], s => some s
  | n :: ns, s => do
    let (found, left) ← number? s
    if found = n then expectNumbers ns left else none

/-- The bytes that start a stream. -/
def streamMark : List UInt8 := [0xFD, 0x37, 0x7A, 0x58, 0x5A, 0]

/-- Whether some bytes start with the end of a stream whose index has the given size. -/
def isStreamEnd (kind : UInt8) (indexSize : Nat) (s : List UInt8) : Bool :=
  let fields := (s.drop 4).take 6
  10 ≤ s.length && (checksum fields).toNat = natOfBytes (s.take 4) &&
    natOfBytes (fields.take 4) = indexSize / 4 - 1 &&
    fields.drop 4 = [0, kind] && (s.drop 10).take 2 = [0x59, 0x5A]

/-- The bytes that a stream unpacks to. What follows it does not matter. -/
def unpack (bytes : List UInt8) : Option (List UInt8) := do
  match bytes.drop 6 with
  | 0 :: kind :: rest =>
    if bytes.take 6 ≠ streamMark || !isChecked ([0, kind] ++ rest.take 4) then none
    else
      let check ← checkSize kind
      let (sizes, out, index) ← blocks check [] #[] (rest.drop 4) bytes.length
      let left ← expectNumbers (sizes.length :: sizes.flatMap fun (a, b) => [a, b]) index
      let left ← skipPadding (index.length - left.length + 1) left
      let indexSize := index.length - left.length + 5
      if isChecked (0 :: index.take (indexSize - 1)) &&
          isStreamEnd kind indexSize (left.drop 4) then
        some out.toList
      else none
  | _ => none

end TypeCatalog.Archive.ChunkedCode
