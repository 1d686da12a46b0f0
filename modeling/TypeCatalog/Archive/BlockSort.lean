import TypeCatalog.Archive.Bits

/-! # Unpacking block-sorted bytes

    A block-sorted text is a sequence of blocks and a checksum of all of them. For a block, runs of
    a byte are shortened, all rotations of the bytes are sorted, and the last bytes of these are
    what is written: each as the number of other bytes since it last stood, where runs of zeros are
    numbers in two digits. The bits of a byte come the most significant one first.
-/

set_option autoImplicit false

namespace TypeCatalog.Archive.BlockSort

/-! ## Section 1: Bits -/

/-- The bits of bytes, the most significant bit of a byte first. -/
def bitsOf (bytes : List UInt8) : List Bool :=
  bytes.flatMap fun b => (List.range 8).map fun i => b.toNat.testBit (7 - i)

/-! ## Section 2: Checksums -/

/-- The polynomial of the checksum of a block. -/
def polynomial : UInt32 := 0x04C11DB7

/-- One bit of the checksum of a block. -/
def checksumBit (c : UInt32) : UInt32 :=
  if c &&& 0x80000000 = 0 then c <<< 1 else (c <<< 1) ^^^ polynomial

/-- One byte of the checksum of a block. -/
def checksumByte (c : UInt32) (b : UInt8) : UInt32 :=
  checksumBit (checksumBit (checksumBit (checksumBit (checksumBit (checksumBit (checksumBit
    (checksumBit (c ^^^ (b.toUInt32 <<< 24)))))))))

/-- The checksum of the bytes of a block. -/
def checksum (bytes : Array UInt8) : UInt32 :=
  bytes.foldl checksumByte 0xFFFFFFFF ^^^ 0xFFFFFFFF

/-- The checksum of some blocks together with one more. -/
def joined (all block : UInt32) : UInt32 := ((all <<< 1) ||| (all >>> 31)) ^^^ block

/-! ## Section 3: The head of a block -/

/-- The positions, counted from `base` on, where that many bits are set. -/
def setPositions (base count : Nat) (s : List Bool) : Option (List Nat × Rest s) := do
  let (n, left) ← takeHighBits count s
  return (((List.range count).filter fun i => n.testBit (count - 1 - i)).map (base + ·), left)

/-- The members of some groups of sixteen. -/
def groupMembers : List Nat → (s : List Bool) → Option (List Nat × Rest s)
  | [], s => some ([], .all s)
  | group :: groups, s => do
    let (found, left) ← setPositions (16 * group) 16 s
    let (others, left₂) ← groupMembers groups left.left
    return (found ++ others, left.append left₂)

/-- The bytes that occur in a block. -/
def alphabet (s : List Bool) : Option (List UInt8 × Rest s) := do
  let (groups, left) ← setPositions 0 16 s
  let (members, left₂) ← groupMembers groups left.left
  return (members.map UInt8.ofNat, left.append left₂)

/-- The number of bits that are set before the next one that is not. -/
def unary : (s : List Bool) → Option (Nat × Rest s)
  | [] => none
  | false :: rest => some (0, (Tail.one false rest).toRest)
  | true :: rest => (unary rest).map fun (n, left) => (n + 1, (Tail.cons true left).toRest)

/-- A list with the item at a position moved to its front, and that item. -/
def moveToFront {α : Type} (items : List α) (position : Nat) : Option (α × List α) :=
  (items[position]?).map fun a => (a, a :: items.eraseIdx position)

/-- Which code is for which fifty symbols, given by how long ago each was last in use. -/
def selectors (recent : List Nat) : Nat → (s : List Bool) → Option (List Nat × Rest s)
  | 0, s => some ([], .all s)
  | count + 1, s => do
    let (position, left) ← unary s
    let (selector, recent) ← moveToFront recent position
    let (others, left₂) ← selectors recent count left.left
    return (selector :: others, left.append left₂)

/-- The length of a code, by steps from the one before it. -/
def stepLength (current : Nat) (s : List Bool) : Option (Nat × Rest s) :=
  if current = 0 || longestCode < current then none
  else
    match s with
    | [] => none
    | false :: rest => some (current, (Tail.one false rest).toRest)
    | true :: down :: rest =>
      (stepLength (if down then current - 1 else current + 1) rest).map fun (n, left) =>
        (n, (Tail.cons true (Tail.cons down left).toRest).toRest)
    | [true] => none
termination_by s.length

/-- The lengths of that many codes. -/
def stepLengths (current : Nat) : Nat → (s : List Bool) → Option (List Nat × Rest s)
  | 0, s => some ([], .all s)
  | count + 1, s => do
    let (length, left) ← stepLength current s
    let (others, left₂) ← stepLengths length count left.left
    return (length :: others, left.append left₂)

/-- That many codes for that many symbols. -/
def codes (symbols : Nat) : Nat → (s : List Bool) → Option (List PrefixCode × Rest s)
  | 0, s => some ([], .all s)
  | count + 1, s => do
    let (first, left) ← takeHighBits 5 s
    let (lengths, left₂) ← stepLengths first symbols left.left
    let (others, left₃) ← codes symbols count left₂.left
    return (.ofLengths lengths :: others, left.append (left₂.append left₃))

/-! ## Section 4: The symbols of a block -/

/-- How many symbols in a row have one code. -/
def symbolsPerCode : Nat := 50

/-- The symbols up to the last one, where `r` has been left of `s` so far, and `room` more symbols
    are in the given code. -/
def symbols {s : List Bool} (all : List PrefixCode) (last : Nat) (selectors : List Nat)
    (room : Nat) (code : PrefixCode) (out : Array Nat) (r : Rest s) :
    Option (Array Nat × Rest s) :=
  match room, selectors with
  | 0, [] => none
  | 0, selector :: selectors =>
    match all[selector]? with
    | none => none
    | some code => symbols all last selectors symbolsPerCode code out r
  | room + 1, selectors =>
    match code.read r.left with
    | none => none
    | some (symbol, left) =>
      if symbol = last then some (out, r.append left.toRest)
      else symbols all last selectors room code (out.push symbol) (r.append left.toRest)
termination_by (r.left.length, selectors.length)
decreasing_by
  · exact Prod.Lex.right _ (by simp)
  · exact Prod.Lex.left _ _ left.lt

/-- The last bytes of the sorted rotations that symbols stand for. So far `run` times the first of
    the recent bytes is due, and the next digit of the run counts `weight`. There are at most `most`
    bytes. -/
def lastBytes (most : Nat) (recent : List UInt8) (run weight : Nat) (out : Array UInt8) :
    List Nat → Option (Array UInt8)
  | [] => do
    if most < out.size + run then none
    else if run = 0 then return out
    else return out ++ Array.replicate run (← recent.head?)
  | symbol :: symbols =>
    if symbol ≤ 1 then
      if most < weight then none
      else lastBytes most recent (run + (symbol + 1) * weight) (2 * weight) out symbols
    else if most < out.size + run then none
    else
      match recent.head?, moveToFront recent (symbol - 1) with
      | some first, some (b, recent) =>
        lastBytes most recent 0 1 ((out ++ Array.replicate run first).push b) symbols
      | _, _ => none

/-! ## Section 5: Undoing the sort and the runs -/

/-- For each byte how many smaller ones there are. -/
def smallerCounts (column : Array UInt8) : Array Nat :=
  let counts := column.foldl (fun n b => n.modify b.toNat (· + 1)) (Array.replicate 256 0)
  (counts.foldl (fun (found, total) n => (found.push total, total + n)) (#[], 0)).1

/-- For each sorted rotation the position of the one that starts a byte later. -/
def successors (column : Array UInt8) : Array Nat :=
  (column.foldl (fun (places, found, i) b =>
    let place := places.getD b.toNat 0
    (places.set! b.toNat (place + 1), found.set! place i, i + 1))
    (smallerCounts column, Array.replicate column.size 0, 0)).2.1

/-- That many bytes of the text whose sorted rotations are known. -/
def follow (column : Array UInt8) (next : Array Nat) (place : Nat) (out : Array UInt8) :
    Nat → Array UInt8
  | 0 => out
  | count + 1 => follow column next (next.getD place 0) (out.push (column.getD place 0)) count

/-- The bytes with their runs in full: after four equal bytes follows how many more there are. -/
def withRuns (out : Array UInt8) (count : Nat) (previous : UInt8) : List UInt8 → Array UInt8
  | [] => out
  | b :: rest =>
    if count = 4 then withRuns (out ++ Array.replicate b.toNat previous) 0 previous rest
    else withRuns (out.push b) (if count ≠ 0 && b = previous then count + 1 else 1) b rest

/-- The lengths of the stretches that blocks of scattered bytes are cut into, over and over. -/
def stretches : List Nat := [
  619, 720, 127, 481, 931, 816, 813, 233, 566, 247, 985, 724, 205, 454, 863, 491, 741, 242, 949,
  214, 733, 859, 335, 708, 621, 574, 73, 654, 730, 472, 419, 436, 278, 496, 867, 210, 399, 680,
  480, 51, 878, 465, 811, 169, 869, 675, 611, 697, 867, 561, 862, 687, 507, 283, 482, 129, 807,
  591, 733, 623, 150, 238, 59, 379, 684, 877, 625, 169, 643, 105, 170, 607, 520, 932, 727, 476,
  693, 425, 174, 647, 73, 122, 335, 530, 442, 853, 695, 249, 445, 515, 909, 545, 703, 919, 874,
  474, 882, 500, 594, 612, 641, 801, 220, 162, 819, 984, 589, 513, 495, 799, 161, 604, 958, 533,
  221, 400, 386, 867, 600, 782, 382, 596, 414, 171, 516, 375, 682, 485, 911, 276, 98, 553, 163,
  354, 666, 933, 424, 341, 533, 870, 227, 730, 475, 186, 263, 647, 537, 686, 600, 224, 469, 68,
  770, 919, 190, 373, 294, 822, 808, 206, 184, 943, 795, 384, 383, 461, 404, 758, 839, 887, 715,
  67, 618, 276, 204, 918, 873, 777, 604, 560, 951, 160, 578, 722, 79, 804, 96, 409, 713, 940, 652,
  934, 970, 447, 318, 353, 859, 672, 112, 785, 645, 863, 803, 350, 139, 93, 354, 99, 820, 908,
  609, 772, 154, 274, 580, 184, 79, 626, 630, 742, 653, 282, 762, 623, 680, 81, 927, 626, 789,
  125, 411, 521, 938, 300, 821, 78, 343, 175, 128, 250, 170, 774, 972, 275, 999, 639, 495, 78,
  352, 126, 857, 956, 358, 619, 580, 124, 737, 594, 701, 612, 669, 112, 134, 694, 363, 992, 809,
  743, 168, 974, 944, 375, 748, 52, 600, 747, 642, 182, 862, 81, 344, 805, 988, 739, 511, 655,
  814, 334, 249, 515, 897, 955, 664, 981, 649, 113, 974, 459, 893, 228, 433, 837, 553, 268, 926,
  240, 102, 654, 459, 51, 686, 754, 806, 760, 493, 403, 415, 394, 687, 700, 946, 670, 656, 610,
  738, 392, 760, 799, 887, 653, 978, 321, 576, 617, 626, 502, 894, 679, 243, 440, 680, 879, 194,
  572, 640, 724, 926, 56, 204, 700, 707, 151, 457, 449, 797, 195, 791, 558, 945, 679, 297, 59, 87,
  824, 713, 663, 412, 693, 342, 606, 134, 108, 571, 364, 631, 212, 174, 643, 304, 329, 343, 97,
  430, 751, 497, 314, 983, 374, 822, 928, 140, 206, 73, 263, 980, 736, 876, 478, 430, 305, 170,
  514, 364, 692, 829, 82, 855, 953, 676, 246, 369, 970, 294, 750, 807, 827, 150, 790, 288, 923,
  804, 378, 215, 828, 592, 281, 565, 555, 710, 82, 896, 831, 547, 261, 524, 462, 293, 465, 502,
  56, 661, 821, 976, 991, 658, 869, 905, 758, 745, 193, 768, 550, 608, 933, 378, 286, 215, 979,
  792, 961, 61, 688, 793, 644, 986, 403, 106, 366, 905, 644, 372, 567, 466, 434, 645, 210, 389,
  550, 919, 135, 780, 773, 635, 389, 707, 100, 626, 958, 165, 504, 920, 176, 193, 713, 857, 265,
  203, 50, 668, 108, 645, 990, 626, 197, 510, 357, 358, 850, 858, 364, 936, 638]

/-- How often the stretches have to be gone through for the largest block. -/
def mostTurns : Nat := 4

/-- The bytes with the lowest bit of one byte in each of the given stretches turned: the last byte
    but one. The first stretch starts at an offset. -/
def gathered (out : Array UInt8) (offset : Nat) : List Nat → Array UInt8
  | [] => out
  | stretch :: rest =>
    gathered (out.modify (offset + stretch - 2) (· ^^^ 1)) (offset + stretch) rest

/-- The bytes of a block, from the last bytes of its sorted rotations and the position of the text
    itself among these. The text may have been scattered before it was sorted. -/
def unsorted (isScattered : Bool) (column : Array UInt8) (place : Nat) : Option (Array UInt8) :=
  if place < column.size then
    let next := successors column
    let text := follow column next (next.getD place 0) #[] column.size
    let text := if isScattered then
      gathered text 0 (List.replicate mostTurns stretches).flatten else text
    some (withRuns #[] 0 0 text.toList)
  else none

/-! ## Section 6: Blocks -/

/-- The most bytes that are sorted together, for each unit of the level. -/
def bytesPerLevel : Nat := 100000

/-- The bytes of a block after its mark, with their checksum. -/
def block (level : Nat) (s : List Bool) : Option ((Array UInt8 × UInt32) × Rest s) := do
  let (expected, r) ← takeHighBits 32 s
  let (scattered, left) ← takeHighBits 1 r.left
  let r := r.append left
  let (place, left) ← takeHighBits 24 r.left
  let r := r.append left
  let (bytes, left) ← alphabet r.left
  let r := r.append left
  let (codeCount, left) ← takeHighBits 3 r.left
  let r := r.append left
  let (selectorCount, left) ← takeHighBits 15 r.left
  let r := r.append left
  if bytes.isEmpty || codeCount < 2 || 6 < codeCount || selectorCount = 0 then
    none
  else
    let (selectors, left) ← selectors (List.range codeCount) selectorCount r.left
    let r := r.append left
    let (codes, left) ← codes (bytes.length + 2) codeCount r.left
    let r := r.append left
    let (found, r) ← symbols codes (bytes.length + 1) selectors 0 ⟨[], #[]⟩ #[] r
    let column ← lastBytes (bytesPerLevel * level) bytes 0 1 #[] found.toList
    let out ← unsorted (scattered ≠ 0) column place
    if (checksum out).toNat = expected then some ((out, checksum out), r) else none

/-- The mark in front of a block. -/
def blockMark : Nat := 0x314159265359

/-- The mark behind the last block. -/
def endMark : Nat := 0x177245385090

/-- The blocks through the end, where `all` is the checksum of those before. -/
def blocks (level : Nat) (all : UInt32) (out : Array UInt8) (s : List Bool) :
    Option (Array UInt8) :=
  match s with
  | [] => none
  | bit :: rest =>
    match takeHighBitsAfter bit.toNat 47 rest with
    | none => none
    | some (mark, left) =>
      if mark = blockMark then
        match block level left.left with
        | none => none
        | some ((found, check), left₂) => blocks level (joined all check) (out ++ found) left₂.left
      else if mark = endMark then do
        let (expected, _) ← takeHighBits 32 left.left
        if all.toNat = expected then some out else none
      else none
termination_by s.length
decreasing_by
  have := left.length_le
  have := left₂.length_le
  simp only [List.length_cons]
  omega

/-- The bytes that block-sorted ones unpack to. What follows the end does not matter. -/
def unpack (bytes : List UInt8) : Option (List UInt8) :=
  match bytes with
  | 0x42 :: 0x5A :: 0x68 :: level :: rest =>
    if 0x31 ≤ level && level ≤ 0x39 then
      (blocks (level.toNat - 0x30) 0 #[] (bitsOf rest)).map Array.toList
    else none
  | _ => none

end TypeCatalog.Archive.BlockSort
