import TypeCatalog.Archive.Bytes

/-! # A digest of bytes in one word

    A number of sixty-four bits in which every bit depends on all of the bytes. Long texts go
    through four words side by side, eight bytes into each of them at a time. What is left then, or
    a short text as a whole, goes into one word: eight bytes at a time, then four, then one.
-/

set_option autoImplicit false

namespace TypeCatalog.Archive.Digest

/-! ## Section 1: Words -/

def factor₁ : UInt64 := 0x9E3779B185EBCA87

def factor₂ : UInt64 := 0xC2B2AE3D27D4EB4F

def factor₃ : UInt64 := 0x165667B19E3779F9

def factor₄ : UInt64 := 0x85EBCA77C2B2AE63

def factor₅ : UInt64 := 0x27D4EB2F165667C5

/-- A word turned to the left by some places. -/
def turned (w count : UInt64) : UInt64 := (w <<< count) ||| (w >>> (64 - count))

/-- The word of some bytes, the least significant one first. -/
def word (bytes : List UInt8) : UInt64 := UInt64.ofNat (natOfBytes bytes)

/-- A word after eight more bytes. -/
def stirred (w input : UInt64) : UInt64 := turned (w + input * factor₂) 31 * factor₁

/-- The digest so far with one of the four words. -/
def merged (w lane : UInt64) : UInt64 := (w ^^^ stirred 0 lane) * factor₁ + factor₄

/-! ## Section 2: Texts -/

/-- Four words side by side. -/
structure Lanes where
  a : UInt64
  b : UInt64
  c : UInt64
  d : UInt64

/-- The words before all bytes. -/
def Lanes.initial : Lanes := ⟨factor₁ + factor₂, factor₂, 0, 0 - factor₁⟩

/-- The words after thirty-two more bytes. -/
def Lanes.stir (l : Lanes) (bytes : List UInt8) : Lanes :=
  ⟨stirred l.a (word (bytes.take 8)), stirred l.b (word ((bytes.drop 8).take 8)),
    stirred l.c (word ((bytes.drop 16).take 8)), stirred l.d (word ((bytes.drop 24).take 8))⟩

/-- The four words in one. -/
def Lanes.merge (l : Lanes) : UInt64 :=
  let w := turned l.a 1 + turned l.b 7 + turned l.c 12 + turned l.d 18
  merged (merged (merged (merged w l.a) l.b) l.c) l.d

/-- The words after that many times thirty-two bytes, with the bytes behind them. -/
def Lanes.stirAll (l : Lanes) (bytes : List UInt8) : Nat → Lanes × List UInt8
  | 0 => (l, bytes)
  | count + 1 => (l.stir bytes).stirAll (bytes.drop 32) count

/-- The digest after the last bytes, fewer than thirty-two. -/
def finish (w : UInt64) : List UInt8 → UInt64
  | [] => w
  | byte :: rest =>
    if 7 ≤ rest.length then
      finish (turned (w ^^^ stirred 0 (word (byte :: rest.take 7))) 27 * factor₁ + factor₄)
        (rest.drop 7)
    else if 3 ≤ rest.length then
      finish (turned (w ^^^ (word (byte :: rest.take 3) * factor₁)) 23 * factor₂ + factor₃)
        (rest.drop 3)
    else finish (turned (w ^^^ (byte.toUInt64 * factor₅)) 11 * factor₁) rest
termination_by bytes => bytes.length
decreasing_by
  all_goals
    simp only [List.length_cons, List.length_drop]
    omega

/-- A word in which every bit has reached all others. -/
def spread (w : UInt64) : UInt64 :=
  let w := (w ^^^ (w >>> 33)) * factor₂
  let w := (w ^^^ (w >>> 29)) * factor₃
  w ^^^ (w >>> 32)

/-- The digest of bytes. -/
def ofBytes (bytes : List UInt8) : UInt64 :=
  let (lanes, rest) := Lanes.initial.stirAll bytes (bytes.length / 32)
  let w := if 32 ≤ bytes.length then lanes.merge else factor₅
  spread (finish (w + UInt64.ofNat bytes.length) rest)

end TypeCatalog.Archive.Digest
