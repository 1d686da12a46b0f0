/-! # Numbers in bytes and checksums

    Archives store numbers with the least significant byte first, and a checksum of the content of
    every entry.
-/

set_option autoImplicit false

namespace TypeCatalog.Archive

/-- The number that bytes stand for, the least significant one first. -/
def natOfBytes : List UInt8 → Nat
  | [] => 0
  | b :: rest => b.toNat + 256 * natOfBytes rest

/-- A number as that many bytes. What does not fit is dropped. -/
def bytesOfNat : Nat → Nat → List UInt8
  | 0, _ => []
  | width + 1, n => UInt8.ofNat n :: bytesOfNat width (n / 256)

@[simp]
theorem length_bytesOfNat (width n : Nat) : (bytesOfNat width n).length = width := by
  induction width generalizing n with
  | zero => rfl
  | succ width ih => simp [bytesOfNat, ih]

/-- A number that fits is read back from its bytes. -/
theorem natOfBytes_bytesOfNat (width : Nat) {n : Nat} (h : n < Nat.pow 256 width) :
    natOfBytes (bytesOfNat width n) = n := by
  induction width generalizing n with
  | zero =>
    have : n = 0 := by simpa using h
    rw [this]
    rfl
  | succ width ih =>
    have hq : n / 256 < Nat.pow 256 width := by
      apply (Nat.div_lt_iff_lt_mul (by decide)).2
      exact h
    simp only [bytesOfNat, natOfBytes, ih hq, UInt8.toNat_ofNat']
    omega

/-- The polynomial of the checksum. -/
def polynomial : UInt32 := 0xEDB88320

/-- One bit of the checksum. -/
def checksumBit (c : UInt32) : UInt32 :=
  if c &&& 1 = 1 then (c >>> 1) ^^^ polynomial else c >>> 1

/-- One byte of the checksum. -/
def checksumByte (c : UInt32) (b : UInt8) : UInt32 :=
  checksumBit (checksumBit (checksumBit (checksumBit (checksumBit (checksumBit (checksumBit
    (checksumBit (c ^^^ b.toUInt32))))))))

/-- The cyclic redundancy check of bytes. -/
def checksum (bytes : List UInt8) : UInt32 :=
  bytes.foldl checksumByte 0xFFFFFFFF ^^^ 0xFFFFFFFF

end TypeCatalog.Archive
