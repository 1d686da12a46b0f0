import TypeCatalog.ClassFile.ModifiedUtf8
import TypeCatalog.Proofs.Outcome
import TypeCatalog.Proofs.Text.Utf16
import TypeCatalog.Proofs.Text.Utf8

/-! # Modified UTF-8 of units and of texts

    A sequence of units is read back from its bytes, with lone surrogates replaced, and so a text is
    read back from the bytes of its units. Bytes that are plain UTF-8 are not read unit by unit, so
    this needs that the two ways of reading agree wherever both give something. -/

set_option autoImplicit false

namespace TypeCatalog.ClassFile.ModifiedUtf8

open TypeCatalog.Text
open TypeCatalog.Text.Utf8 (Continues toNat_byte)

/-! ## Section 1: Bits of bytes and units as numbers -/

/-- The two highest bits of a byte tell whether it continues a character. -/
theorem and_mark_iff (b : UInt8) : b &&& 0xC0 = 0x80 ↔ Continues b := by
  have hhigh : (b.toNat &&& 192) / 64 = b.toNat / 64 % 4 := by
    have hshift : (b.toNat &&& 192) >>> 6 = b.toNat >>> 6 &&& 3 := Nat.shiftRight_and_distrib
    rw [Nat.shiftRight_eq_div_pow, Nat.shiftRight_eq_div_pow] at hshift
    exact hshift.trans (Nat.and_two_pow_sub_one_eq_mod (b.toNat / 64) 2)
  have hlow : (b.toNat &&& 192) % 64 = 0 := by
    have hmod : (b.toNat &&& 192) % 64 = b.toNat % 64 &&& 0 := Nat.and_mod_two_pow (n := 6)
    rw [hmod, Nat.and_zero]
  have hbound := b.toNat_lt
  have hnat : b &&& 0xC0 = 0x80 ↔ b.toNat &&& 192 = 128 := by
    rw [← UInt8.toNat_inj, UInt8.toNat_and]
    rfl
  unfold Continues
  rw [hnat]
  omega

/-- A mask of low bits takes a byte to a remainder. -/
theorem toNat_and_mask {mask : UInt8} (k : Nat) (hmask : mask.toNat = Nat.pow 2 k - 1) (b : UInt8) :
    (b &&& mask).toUInt16.toNat = b.toNat % Nat.pow 2 k := by
  rw [UInt8.toNat_toUInt16, UInt8.toNat_and, hmask]
  exact Nat.and_two_pow_sub_one_eq_mod b.toNat k

theorem toNat_and_63 (b : UInt8) : (b &&& 0x3F).toUInt16.toNat = b.toNat % 64 :=
  toNat_and_mask 6 rfl b

theorem toNat_and_31 (b : UInt8) : (b &&& 0x1F).toUInt16.toNat = b.toNat % 32 :=
  toNat_and_mask 5 rfl b

theorem toNat_and_15 (b : UInt8) : (b &&& 0x0F).toUInt16.toNat = b.toNat % 16 :=
  toNat_and_mask 4 rfl b

/-- Low bits put beside high ones are added to them. -/
theorem toNat_or_of_shiftLeft {x y : UInt16} (k high : Nat) (hx : x.toNat = high <<< k)
    (hy : y.toNat < Nat.pow 2 k) : (x ||| y).toNat = x.toNat + y.toNat := by
  rw [UInt16.toNat_or, hx]
  exact (Nat.shiftLeft_add_eq_or_of_lt hy high).symm

theorem toNat_shiftLeft_6 {x : UInt16} (h : x.toNat < 1024) :
    (x <<< 6).toNat = x.toNat <<< 6 := by
  rw [UInt16.toNat_shiftLeft]
  have : x.toNat <<< 6 < 65536 := by
    rw [Nat.shiftLeft_eq]
    omega
  exact Nat.mod_eq_of_lt this

theorem toNat_shiftLeft_12 {x : UInt16} (h : x.toNat < 16) :
    (x <<< 12).toNat = x.toNat <<< 12 := by
  rw [UInt16.toNat_shiftLeft]
  have : x.toNat <<< 12 < 65536 := by
    rw [Nat.shiftLeft_eq]
    omega
  exact Nat.mod_eq_of_lt this

/-- The unit of a lead byte with five bits of its own and one byte after it. -/
theorem toNat_unit_two (a b : UInt8) :
    ((a &&& 0x1F).toUInt16 <<< 6 ||| (b &&& 0x3F).toUInt16).toNat =
      a.toNat % 32 * 64 + b.toNat % 64 := by
  have ha := toNat_and_31 a
  have hb := toNat_and_63 b
  have hshift : ((a &&& 0x1F).toUInt16 <<< 6).toNat = (a.toNat % 32) <<< 6 := by
    rw [toNat_shiftLeft_6 (by omega), ha]
  have hlow : (b &&& 0x3F).toUInt16.toNat < Nat.pow 2 6 := by
    rw [hb]
    exact Nat.mod_lt _ (by decide)
  rw [toNat_or_of_shiftLeft 6 _ hshift hlow, hshift, hb, Nat.shiftLeft_eq]

/-- The unit of a lead byte with four bits of its own and two bytes after it. -/
theorem toNat_unit_three (a b c : UInt8) :
    ((a &&& 0x0F).toUInt16 <<< 12 ||| (b &&& 0x3F).toUInt16 <<< 6 ||| (c &&& 0x3F).toUInt16).toNat =
      (a.toNat % 16 * 64 + b.toNat % 64) * 64 + c.toNat % 64 := by
  have ha := toNat_and_15 a
  have hb := toNat_and_63 b
  have hc := toNat_and_63 c
  have hshift : ((a &&& 0x0F).toUInt16 <<< 12).toNat = (a.toNat % 16) <<< 12 := by
    rw [toNat_shiftLeft_12 (by omega), ha]
  have hmid : ((b &&& 0x3F).toUInt16 <<< 6).toNat = b.toNat % 64 * 64 := by
    rw [toNat_shiftLeft_6 (by omega), hb, Nat.shiftLeft_eq]
  have htop : ((a &&& 0x0F).toUInt16 <<< 12 ||| (b &&& 0x3F).toUInt16 <<< 6).toNat =
      (a.toNat % 16 * 64 + b.toNat % 64) <<< 6 := by
    have hlow : ((b &&& 0x3F).toUInt16 <<< 6).toNat < Nat.pow 2 12 := by
      rw [hmid]
      show _ < 4096
      omega
    rw [toNat_or_of_shiftLeft 12 _ hshift hlow, hshift, hmid, Nat.shiftLeft_eq, Nat.shiftLeft_eq]
    omega
  have hlow : (c &&& 0x3F).toUInt16.toNat < Nat.pow 2 6 := by
    rw [hc]
    exact Nat.mod_lt _ (by decide)
  rw [toNat_or_of_shiftLeft 6 _ htop hlow, htop, hc, Nat.shiftLeft_eq]

/-! ## Section 2: Reading one unit -/

theorem continuation_of_continues {b : UInt8} (h : Continues b) (position : Nat) :
    continuation position (some b) = .ok (b &&& 0x3F).toUInt16 := by
  rw [continuation, if_pos ((and_mark_iff b).2 h)]

theorem not_lt_128 {a : UInt8} (h : 0x80 ≤ a.toNat) : ¬a < 0x80 := by
  rw [UInt8.lt_iff_toNat_lt]
  exact Nat.not_lt.2 h

/-- A byte is not in a range that ends before it. -/
theorem not_between {a : UInt8} (low high : UInt8) (h : high.toNat < a.toNat) :
    ¬(low ≤ a ∧ a ≤ high) := by
  rintro ⟨-, hle⟩
  exact Nat.not_le.2 h (UInt8.le_iff_toNat_le.1 hle)

theorem between {a : UInt8} (low high : UInt8) (h : low.toNat ≤ a.toNat)
    (h' : a.toNat ≤ high.toNat) : low ≤ a ∧ a ≤ high :=
  ⟨UInt8.le_iff_toNat_le.2 h, UInt8.le_iff_toNat_le.2 h'⟩

theorem units_one {a : UInt8} (h : a.toNat < 0x80) (position : Nat) (rest : List UInt8) :
    units position (a :: rest) = (units (position + 1) rest).map (a.toUInt16 :: ·) := by
  have hlt : a < 0x80 := UInt8.lt_iff_toNat_lt.2 h
  rw [units, if_pos hlt]
  cases units (position + 1) rest <;> rfl

theorem units_two {a b : UInt8} (ha : 0xC0 ≤ a.toNat) (ha' : a.toNat ≤ 0xDF) (hb : Continues b)
    (position : Nat) (rest : List UInt8) :
    units position (a :: b :: rest) = (units (position + 2) rest).map
      (UInt16.ofNat (a.toNat % 32 * 64 + b.toNat % 64) :: ·) := by
  rw [units, if_neg (not_lt_128 (by omega)), if_pos (between 0xC0 0xDF ha ha')]
  simp only [List.head?_cons, continuation_of_continues hb, ← toNat_unit_two, UInt16.ofNat_toNat]
  cases units (position + 2) rest <;> rfl

theorem units_three {a b c : UInt8} (ha : 0xE0 ≤ a.toNat) (ha' : a.toNat ≤ 0xEF)
    (hb : Continues b) (hc : Continues c) (position : Nat) (rest : List UInt8) :
    units position (a :: b :: c :: rest) = (units (position + 3) rest).map
      (UInt16.ofNat ((a.toNat % 16 * 64 + b.toNat % 64) * 64 + c.toNat % 64) :: ·) := by
  have htwo := not_between 0xC0 0xDF (Nat.lt_of_lt_of_le (by decide) ha)
  rw [units, if_neg (not_lt_128 (by omega)), if_neg htwo, if_pos (between 0xE0 0xEF ha ha')]
  simp only [List.head?_cons, List.tail_cons, continuation_of_continues hb,
    continuation_of_continues hc, ← toNat_unit_three, UInt16.ofNat_toNat]
  cases units (position + 3) rest <;> rfl

/-- No unit starts with a byte past those that promise two more. -/
theorem units_other {a : UInt8} (ha : 0xF0 ≤ a.toNat) (position : Nat) (rest : List UInt8) :
    units position (a :: rest) = .error (.textByte a) := by
  have htwo := not_between 0xC0 0xDF (Nat.lt_of_lt_of_le (by decide) ha)
  have hthree := not_between 0xE0 0xEF (Nat.lt_of_lt_of_le (by decide) ha)
  rw [units, if_neg (not_lt_128 (by omega)), if_neg htwo, if_neg hthree]

/-! ## Section 3: Units are read back -/

/-- A mark of high bits is added to what fits below it. -/
theorem or_of_lt {mark b : UInt8} (k high : Nat) (hmark : mark.toNat = high <<< k)
    (hb : b.toNat < Nat.pow 2 k) : mark ||| b = UInt8.ofNat (mark.toNat + b.toNat) := by
  have hsum : (mark ||| b).toNat = mark.toNat + b.toNat := by
    rw [UInt8.toNat_or, hmark]
    exact (Nat.shiftLeft_add_eq_or_of_lt hb high).symm
  rw [← hsum, UInt8.ofNat_toNat]

theorem or_192 {b : UInt8} (h : b.toNat < 32) :
    (0xC0 : UInt8) ||| b = UInt8.ofNat (0xC0 + b.toNat) :=
  or_of_lt 5 6 rfl h

theorem or_224 {b : UInt8} (h : b.toNat < 16) :
    (0xE0 : UInt8) ||| b = UInt8.ofNat (0xE0 + b.toNat) :=
  or_of_lt 4 14 rfl h

theorem or_128 {b : UInt8} (h : b.toNat < 64) :
    (0x80 : UInt8) ||| b = UInt8.ofNat (0x80 + b.toNat) :=
  or_of_lt 6 2 rfl h

theorem toNat_low_bits (u : UInt16) : (u &&& 0x3F).toUInt8.toNat = u.toNat % 64 := by
  have hand : (u &&& 0x3F).toNat = u.toNat % 64 := by
    rw [UInt16.toNat_and]
    exact Nat.and_two_pow_sub_one_eq_mod u.toNat 6
  rw [UInt16.toNat_toUInt8, hand]
  omega

theorem toNat_shiftRight_6 (u : UInt16) : (u >>> 6).toNat = u.toNat / 64 := by
  rw [UInt16.toNat_shiftRight]
  exact Nat.shiftRight_eq_div_pow u.toNat 6

theorem toNat_shiftRight_12 (u : UInt16) : (u >>> 12).toNat = u.toNat / 4096 := by
  rw [UInt16.toNat_shiftRight]
  exact Nat.shiftRight_eq_div_pow u.toNat 12

theorem encodeUnit_one {u : UInt16} (h : u.toNat ≠ 0) (h' : u.toNat < 0x80) :
    encodeUnit u = [u.toUInt8] := by
  have hu : u ≠ 0 ∧ u < 0x80 :=
    ⟨fun hz => h (congrArg UInt16.toNat hz), UInt16.lt_iff_toNat_lt.2 h'⟩
  rw [encodeUnit, if_pos hu]

theorem encodeUnit_two {u : UInt16} (h : u.toNat = 0 ∨ 0x80 ≤ u.toNat) (h' : u.toNat < 0x800) :
    encodeUnit u = [UInt8.ofNat (0xC0 + u.toNat / 64), UInt8.ofNat (0x80 + u.toNat % 64)] := by
  have hu : ¬(u ≠ 0 ∧ u < 0x80) := by
    rintro ⟨hne, hlt⟩
    have hlt := UInt16.lt_iff_toNat_lt.1 hlt
    rcases h with h | h
    · exact hne (UInt16.toNat_inj.1 h)
    · exact Nat.not_lt.2 h hlt
  have hhigh : (u >>> 6).toUInt8.toNat = u.toNat / 64 := by
    rw [UInt16.toNat_toUInt8, toNat_shiftRight_6]
    omega
  have hlow := toNat_low_bits u
  rw [encodeUnit, if_neg hu, if_pos (UInt16.lt_iff_toNat_lt.2 h'), or_192 (by omega),
    or_128 (by omega), hhigh, hlow]

theorem encodeUnit_three {u : UInt16} (h : 0x800 ≤ u.toNat) :
    encodeUnit u = [UInt8.ofNat (0xE0 + u.toNat / 4096), UInt8.ofNat (0x80 + u.toNat / 64 % 64),
      UInt8.ofNat (0x80 + u.toNat % 64)] := by
  have hu : ¬(u ≠ 0 ∧ u < 0x80) := by
    rintro ⟨-, hlt⟩
    have hlt := UInt16.lt_iff_toNat_lt.1 hlt
    exact Nat.not_lt.2 (Nat.le_trans (by decide) h) hlt
  have hu' : ¬u < 0x800 := fun hlt => Nat.not_lt.2 h (UInt16.lt_iff_toNat_lt.1 hlt)
  have hbound := u.toNat_lt
  have hhigh : (u >>> 12).toUInt8.toNat = u.toNat / 4096 := by
    rw [UInt16.toNat_toUInt8, toNat_shiftRight_12]
    omega
  have hmid : (u >>> 6 &&& 0x3F).toUInt8.toNat = u.toNat / 64 % 64 := by
    rw [toNat_low_bits, toNat_shiftRight_6]
  have hlow := toNat_low_bits u
  rw [encodeUnit, if_neg hu, if_neg hu', or_224 (by omega), or_128 (by omega), or_128 (by omega),
    hhigh, hmid, hlow]

/-- Six bits under the mark of bytes that continue. -/
theorem continues_low (n : Nat) : Continues (UInt8.ofNat (0x80 + n % 64)) := by
  unfold Continues
  rw [toNat_byte (by omega)]
  omega

theorem units_encodeUnit_one {u : UInt16} (h : u.toNat ≠ 0) (h' : u.toNat < 0x80) (position : Nat)
    (rest : List UInt8) :
    units position (encodeUnit u ++ rest) = (units (position + 1) rest).map (u :: ·) := by
  have hu : u.toUInt8.toNat = u.toNat := by
    rw [UInt16.toNat_toUInt8]
    omega
  have hback : u.toUInt8.toUInt16 = u := by
    apply UInt16.toNat_inj.1
    rw [UInt8.toNat_toUInt16, hu]
  rw [encodeUnit_one h h', List.singleton_append, units_one (by omega), hback]

theorem units_encodeUnit_two {u : UInt16} (h : u.toNat = 0 ∨ 0x80 ≤ u.toNat) (h' : u.toNat < 0x800)
    (position : Nat) (rest : List UInt8) :
    units position (encodeUnit u ++ rest) = (units (position + 2) rest).map (u :: ·) := by
  have ha : (UInt8.ofNat (0xC0 + u.toNat / 64)).toNat = 0xC0 + u.toNat / 64 := toNat_byte (by omega)
  have hb : (UInt8.ofNat (0x80 + u.toNat % 64)).toNat = 0x80 + u.toNat % 64 := toNat_byte (by omega)
  have hnat : (0xC0 + u.toNat / 64) % 32 * 64 + (0x80 + u.toNat % 64) % 64 = u.toNat := by omega
  rw [encodeUnit_two h h', List.cons_append, List.singleton_append,
    units_two (by omega) (by omega) (continues_low u.toNat), ha, hb, hnat, UInt16.ofNat_toNat]

theorem units_encodeUnit_three {u : UInt16} (h : 0x800 ≤ u.toNat) (position : Nat)
    (rest : List UInt8) :
    units position (encodeUnit u ++ rest) = (units (position + 3) rest).map (u :: ·) := by
  have hbound := u.toNat_lt
  have ha : (UInt8.ofNat (0xE0 + u.toNat / 4096)).toNat = 0xE0 + u.toNat / 4096 :=
    toNat_byte (by omega)
  have hb : (UInt8.ofNat (0x80 + u.toNat / 64 % 64)).toNat = 0x80 + u.toNat / 64 % 64 :=
    toNat_byte (by omega)
  have hc : (UInt8.ofNat (0x80 + u.toNat % 64)).toNat = 0x80 + u.toNat % 64 := toNat_byte (by omega)
  have hnat : ((0xE0 + u.toNat / 4096) % 16 * 64 + (0x80 + u.toNat / 64 % 64) % 64) * 64 +
      (0x80 + u.toNat % 64) % 64 = u.toNat := by omega
  rw [encodeUnit_three h, List.cons_append, List.cons_append, List.singleton_append,
    units_three (by omega) (by omega) (continues_low (u.toNat / 64)) (continues_low u.toNat),
    ha, hb, hc, hnat, UInt16.ofNat_toNat]

/-- A unit is read back from its bytes, and reading goes on after them. -/
theorem units_encodeUnit_append (u : UInt16) (position : Nat) (rest : List UInt8) :
    ∃ after, units position (encodeUnit u ++ rest) = (units after rest).map (u :: ·) := by
  by_cases hone : u.toNat ≠ 0 ∧ u.toNat < 0x80
  · exact ⟨position + 1, units_encodeUnit_one hone.1 hone.2 position rest⟩
  by_cases htwo : u.toNat < 0x800
  · exact ⟨position + 2, units_encodeUnit_two (by omega) htwo position rest⟩
  · exact ⟨position + 3, units_encodeUnit_three (by omega) position rest⟩

/-- A sequence of units is read back from its bytes. -/
theorem units_encode (us : List UInt16) (position : Nat) : units position (encode us) = .ok us := by
  induction us generalizing position with
  | nil => rfl
  | cons u us ih =>
    have happend : encode (u :: us) = encodeUnit u ++ encode us := rfl
    obtain ⟨after, hunit⟩ := units_encodeUnit_append u position (encode us)
    rw [happend, hunit, ih]
    rfl

/-! ## Section 4: The two ways of reading agree -/

/-- Bytes that are plain UTF-8 and can be read unit by unit give the same text both ways. The
    induction is on the bytes: each character of up to three bytes is one unit, and no unit starts
    with the lead byte of a longer one. -/
theorem decode_units_eq_of_decode? (bytes : List UInt8) {position : Nat} {text : List Char}
    {us : List UInt16} (htext : Utf8.decode? bytes = some text)
    (hunits : units position bytes = .ok us) : Utf16.decode us = text := by
  match bytes, htext, hunits with
  | [], htext, hunits =>
    rw [Utf8.decode?_nil] at htext
    cases hunits
    exact Option.some.inj htext
  | lead :: rest, htext, hunits =>
    rw [Utf8.decode?_cons] at htext
    rcases hnext : Utf8.next lead rest with ⟨read, left⟩
    rw [hnext] at htext
    obtain ⟨c, hread, htext⟩ := Option.bind_eq_some_iff.1 htext
    obtain ⟨others, hothers, htext⟩ := Option.map_eq_some_iff.1 htext
    subst htext
    have hread : read = some c := hread
    subst hread
    have hless : left.length ≤ rest.length := by
      have := Utf8.next_length_le lead rest
      rw [hnext] at this
      exact this
    -- One unit `n` that is no half of a pair, and the rest by induction.
    have hunit : ∀ {n position' : Nat}, n < 65536 → (n < 0xD800 ∨ 0xDFFF < n) →
        c = Char.ofNat n → (units position' left).map (UInt16.ofNat n :: ·) = .ok us →
        Utf16.decode us = c :: others := by
      intro n position' hn hscalar hc hmap
      obtain ⟨vs, hvs, hus⟩ := map_eq_ok.1 hmap
      have hnat : (UInt16.ofNat n).toNat = n := UInt16.toNat_ofNat_of_lt' hn
      have hscalar' : Utf16.IsScalar (UInt16.ofNat n) := by
        unfold Utf16.IsScalar
        omega
      rw [← hus, Utf16.decode_cons_scalar hscalar', hnat, ← hc,
        decode_units_eq_of_decode? left hothers hvs]
    obtain ⟨hlead, hbytes, hc⟩ | ⟨a, hbytes, h1, h2, ha, hc⟩ |
      ⟨a, b, hbytes, h1, h2, ha, hb, hed, hc⟩ | h1 := Utf8.next_cases hnext
    · have hbyte : lead.toUInt16 = UInt16.ofNat lead.toNat := by
        apply UInt16.toNat_inj.1
        rw [UInt8.toNat_toUInt16, UInt16.toNat_ofNat_of_lt' (by unfold UInt16.size; omega)]
      rw [units_one hlead, hbyte, hbytes] at hunits
      exact hunit (by omega) (by omega) hc hunits
    · rw [hbytes, units_two (by omega) h2 ha] at hunits
      exact hunit (by omega) (by omega) hc hunits
    · rw [hbytes, units_three h1 h2 ha hb] at hunits
      -- Plain UTF-8 has no surrogates, which is what `hed` says of the first two bytes.
      unfold Continues at ha
      exact hunit (by omega) (by omega) hc hunits
    · rw [units_other h1] at hunits
      cases hunits
termination_by bytes.length
decreasing_by
  simp
  omega

/-- A sequence of units is read from its bytes as its text, whichever way they are read. -/
theorem decode_encode (us : List UInt16) : decode (encode us) = .ok (Utf16.decode us) := by
  have hunits := units_encode us 0
  unfold decode
  split
  · next text htext => rw [decode_units_eq_of_decode? _ htext hunits]
  · rw [decodeUnits, hunits]
    rfl

/-- A text is read back from the bytes of its units. -/
theorem decode_encode_text (text : List Char) : decode (encode (Utf16.encode text)) = .ok text := by
  rw [decode_encode, Utf16.decode_encode]

/-! ## Section 5: Any units, by either way of reading -/

/-- Two readings of one byte sequence give one text. -/
theorem eq_of_decode?_of_decodeUnits {bytes : List UInt8} {plain text : List Char}
    (hplain : Utf8.decode? bytes = some plain) (htext : decodeUnits bytes = .ok text) :
    plain = text := by
  obtain ⟨us, hunits, hus⟩ := map_eq_ok.1 htext
  rw [← hus, decode_units_eq_of_decode? bytes hplain hunits]

theorem decodeUnits_encode (us : List UInt16) :
    decodeUnits (encode us) = .ok (Utf16.decode us) := by
  rw [decodeUnits, units_encode us 0]
  rfl

/-- Units have one text, with U+FFFD for each surrogate that stands alone, and it is read from their
    bytes whether these are plain UTF-8 or are read unit by unit. All bytes that can be read both
    ways are read as one text. -/
theorem decode_encode_either_way :
    (∀ us, ∃ text, (∀ other, Utf16.StandsFor us other ↔ other = text) ∧
      decode (encode us) = .ok text ∧ decodeUnits (encode us) = .ok text ∧
      ∀ plain, Utf8.decode? (encode us) = some plain → plain = text) ∧
    ∀ bytes plain text, Utf8.decode? bytes = some plain → decodeUnits bytes = .ok text →
      plain = text := by
  constructor
  · intro us
    refine ⟨Utf16.decode us, ?_, decode_encode us, decodeUnits_encode us, ?_⟩
    · intro other
      constructor
      · intro h
        exact h.decode_eq.symm
      · rintro rfl
        exact Utf16.standsFor_decode us
    · intro plain hplain
      exact eq_of_decode?_of_decodeUnits hplain (decodeUnits_encode us)
  · intro bytes plain text hplain htext
    exact eq_of_decode?_of_decodeUnits hplain htext

/-- Two characters of two lengths whose bytes are plain UTF-8. -/
theorem decode_encode_either_way_plain :
    Utf8.decode? [0x61, 0xC3, 0xA9] = some ['a', 'é'] ∧
      decodeUnits [0x61, 0xC3, 0xA9] = .ok ['a', 'é'] ∧ ['a', 'é'] = ['a', 'é'] ∧
      encode [0x61, 0xE9] = [0x61, 0xC3, 0xA9] ∧
      ∃ text, (∀ other, Utf16.StandsFor [0x61, 0xE9] other ↔ other = text) ∧ ['a', 'é'] = text := by
  have hplain : Utf8.decode? [0x61, 0xC3, 0xA9] = some ['a', 'é'] :=
    Utf8.decode?_encode ['a', 'é']
  have hunits : decodeUnits [0x61, 0xC3, 0xA9] = .ok ['a', 'é'] := rfl
  have hbytes : encode [0x61, 0xE9] = [0x61, 0xC3, 0xA9] := by decide
  obtain ⟨text, hstands, -, -, heither⟩ := decode_encode_either_way.1 [0x61, 0xE9]
  exact ⟨hplain, hunits, decode_encode_either_way.2 _ _ _ hplain hunits, hbytes, text, hstands,
    heither _ (hbytes ▸ hplain)⟩

end TypeCatalog.ClassFile.ModifiedUtf8
