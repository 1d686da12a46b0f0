import TypeCatalog.Text.Utf8
import TypeCatalog.Proofs.Text.Utf16

/-! # The shapes of characters in UTF-8

    What a byte sequence that is read as a character looks like: which lead byte and which bytes
    after it, and the number they make up. The bytes a character is written as have such a shape,
    so a text is read back from its bytes. -/

set_option autoImplicit false

namespace TypeCatalog.Text.Utf8

/-- A byte that continues a character. -/
def Continues (b : UInt8) : Prop := 0x80 ≤ b.toNat ∧ b.toNat < 0xC0

/-! ## Section 1: The bytes after a lead byte -/

/-- The lead bytes with one, two and three bytes after them. After two bytes no surrogate comes
    out, since the byte after 0xED is below 0xA0. -/
theorem of_shape?_eq_some {lead low high : UInt8} {count : Nat}
    (h : shape? lead = some (count, low, high)) :
    0x80 ≤ low.toNat ∧ high.toNat ≤ 0xBF ∧
    ((count = 1 ∧ 0xC2 ≤ lead.toNat ∧ lead.toNat ≤ 0xDF) ∨
    (count = 2 ∧ 0xE0 ≤ lead.toNat ∧ lead.toNat ≤ 0xEF ∧
      (lead.toNat = 0xED → high.toNat ≤ 0x9F)) ∨
    (count = 3 ∧ 0xF0 ≤ lead.toNat)) := by
  unfold shape? at h
  simp only [UInt8.le_iff_toNat_le, UInt8.lt_iff_toNat_lt, ← UInt8.toNat_inj,
    UInt8.reduceToNat] at h
  repeat' split at h
  -- The lead bytes without a shape are gone after this.
  all_goals
    simp only [Option.some.injEq, Prod.mk.injEq, reduceCtorEq] at h
  all_goals
    obtain ⟨rfl, rfl, rfl⟩ := h
    simp
    omega

theorem of_tail_zero {low high : UInt8} {acc n : Nat} {bytes rest : List UInt8}
    (h : tail 0 low high acc bytes = (some n, rest)) : n = acc ∧ bytes = rest := by
  rw [tail] at h
  cases h
  exact ⟨rfl, rfl⟩

theorem of_tail_succ {count : Nat} {low high : UInt8} {acc n : Nat} {bytes rest : List UInt8}
    (h : tail (count + 1) low high acc bytes = (some n, rest)) :
    ∃ b r, bytes = b :: r ∧ low.toNat ≤ b.toNat ∧ b.toNat ≤ high.toNat ∧
      tail count 0x80 0xBF (acc * 0x40 + (b.toNat - 0x80)) r = (some n, rest) := by
  cases bytes with
  | nil =>
    rw [tail] at h
    cases h
  | cons b r =>
    rw [tail] at h
    split at h
    · next hb => exact ⟨b, r, rfl, UInt8.le_iff_toNat_le.1 hb.1, UInt8.le_iff_toNat_le.1 hb.2, h⟩
    · cases h

/-! ## Section 2: One character -/

theorem next_of_lt {lead : UInt8} (h : lead.toNat < 0x80) (bytes : List UInt8) :
    next lead bytes = (some (Char.ofNat lead.toNat), bytes) := by
  have hlt : lead < 0x80 := UInt8.lt_iff_toNat_lt.2 h
  rw [next, if_pos hlt]

/-- A character past the first 128 has a lead byte of some shape, and its number is read from the
    bytes that the shape asks for. -/
theorem of_next_eq_some {lead : UInt8} {bytes rest : List UInt8} {c : Char}
    (hlead : 0x80 ≤ lead.toNat) (h : next lead bytes = (some c, rest)) :
    ∃ count low high n, shape? lead = some (count, low, high) ∧
      tail count low high (lead.toNat % (64 >>> count)) bytes = (some n, rest) ∧
      c = Char.ofNat n := by
  have hlt : ¬lead < 0x80 := fun hlt => Nat.not_lt.2 hlead (UInt8.lt_iff_toNat_lt.1 hlt)
  rw [next, if_neg hlt] at h
  split at h
  · cases h
  · next count low high hshape =>
    rcases htail : tail count low high (lead.toNat % (64 >>> count)) bytes with ⟨number, left⟩
    rw [htail] at h
    obtain ⟨hnumber, hleft⟩ := Prod.mk.inj h
    obtain ⟨n, hn, hc⟩ := Option.map_eq_some_iff.1 hnumber
    subst hn hleft
    exact ⟨count, low, high, n, hshape, htail, hc.symm⟩

/-- What is read as one character is a byte by itself, a lead byte with one or two bytes after it,
    or starts with a byte past those. A number read from three bytes is no surrogate. -/
theorem next_cases {lead : UInt8} {bytes rest : List UInt8} {c : Char}
    (h : next lead bytes = (some c, rest)) :
    (lead.toNat < 0x80 ∧ bytes = rest ∧ c = Char.ofNat lead.toNat) ∨
    (∃ a, bytes = a :: rest ∧ 0xC2 ≤ lead.toNat ∧ lead.toNat ≤ 0xDF ∧ Continues a ∧
      c = Char.ofNat (lead.toNat % 32 * 64 + a.toNat % 64)) ∨
    (∃ a b, bytes = a :: b :: rest ∧ 0xE0 ≤ lead.toNat ∧ lead.toNat ≤ 0xEF ∧ Continues a ∧
      Continues b ∧ (lead.toNat = 0xED → a.toNat ≤ 0x9F) ∧
      c = Char.ofNat ((lead.toNat % 16 * 64 + a.toNat % 64) * 64 + b.toNat % 64)) ∨
    0xF0 ≤ lead.toNat := by
  by_cases hlead : lead.toNat < 0x80
  · rw [next_of_lt hlead] at h
    obtain ⟨hc, hrest⟩ := Prod.mk.inj h
    exact .inl ⟨hlead, hrest, (Option.some.inj hc).symm⟩
  obtain ⟨count, low, high, n, hshape, htail, hc⟩ := of_next_eq_some (Nat.not_lt.1 hlead) h
  obtain ⟨hlow, hhigh, ⟨hcount, h1, h2⟩ | ⟨hcount, h1, h2, h3⟩ | ⟨-, h1⟩⟩ :=
    of_shape?_eq_some hshape
  · subst hcount
    obtain ⟨a, r, hbytes, ha, ha', htail⟩ := of_tail_succ htail
    obtain ⟨hn, hrest⟩ := of_tail_zero htail
    subst hbytes hrest
    have hcont : Continues a := ⟨Nat.le_trans hlow ha, Nat.lt_succ_of_le (Nat.le_trans ha' hhigh)⟩
    refine .inr (.inl ⟨a, rfl, h1, h2, hcont, ?_⟩)
    unfold Continues at hcont
    rw [hc, hn, show 64 >>> 1 = 32 from rfl, show a.toNat - 0x80 = a.toNat % 64 by omega]
  · subst hcount
    obtain ⟨a, r, hbytes, ha, ha', htail⟩ := of_tail_succ htail
    obtain ⟨b, r, hr, hb, hb', htail⟩ := of_tail_succ htail
    obtain ⟨hn, hrest⟩ := of_tail_zero htail
    subst hbytes hr hrest
    have hconta : Continues a := ⟨Nat.le_trans hlow ha, Nat.lt_succ_of_le (Nat.le_trans ha' hhigh)⟩
    have hcontb : Continues b := ⟨hb, Nat.lt_succ_of_le hb'⟩
    refine .inr (.inr (.inl ⟨a, b, rfl, h1, h2, hconta, hcontb, ?_, ?_⟩))
    · intro hed
      exact Nat.le_trans ha' (h3 hed)
    · unfold Continues at hconta hcontb
      rw [hc, hn, show 64 >>> 2 = 16 from rfl, show a.toNat - 0x80 = a.toNat % 64 by omega,
        show b.toNat - 0x80 = b.toNat % 64 by omega]
  · exact .inr (.inr (.inr h1))

/-! ## Section 3: The bytes of a character are read back -/

theorem shape?_two {lead : UInt8} (h : 0xC2 ≤ lead.toNat) (h' : lead.toNat ≤ 0xDF) :
    shape? lead = some (1, 0x80, 0xBF) := by
  have hlow : ¬lead < 0xC2 := fun hlt => Nat.not_lt.2 h (UInt8.lt_iff_toNat_lt.1 hlt)
  rw [shape?, if_neg hlow, if_pos (UInt8.le_iff_toNat_le.2 h')]

/-- The byte after 0xE0 leaves out what two bytes can write, the one after 0xED the surrogates. -/
theorem shape?_three {lead : UInt8} (h : 0xE0 ≤ lead.toNat) (h' : lead.toNat ≤ 0xEF) :
    ∃ low high, shape? lead = some (2, low, high) ∧
      low.toNat = (if lead.toNat = 0xE0 then 0xA0 else 0x80) ∧
      high.toNat = (if lead.toNat = 0xED then 0x9F else 0xBF) := by
  unfold shape?
  simp only [UInt8.le_iff_toNat_le, UInt8.lt_iff_toNat_lt, ← UInt8.toNat_inj,
    UInt8.reduceToNat]
  repeat' split
  all_goals first
    | exact ⟨_, _, rfl, rfl, rfl⟩
    | omega

/-- The byte after 0xF0 leaves out what three bytes can write, the one after 0xF4 the numbers past
    the last character. -/
theorem shape?_four {lead : UInt8} (h : 0xF0 ≤ lead.toNat) (h' : lead.toNat ≤ 0xF4) :
    ∃ low high, shape? lead = some (3, low, high) ∧
      low.toNat = (if lead.toNat = 0xF0 then 0x90 else 0x80) ∧
      high.toNat = (if lead.toNat = 0xF4 then 0x8F else 0xBF) := by
  unfold shape?
  simp only [UInt8.le_iff_toNat_le, UInt8.lt_iff_toNat_lt, ← UInt8.toNat_inj,
    UInt8.reduceToNat]
  repeat' split
  all_goals first
    | exact ⟨_, _, rfl, rfl, rfl⟩
    | omega

/-- After a lead byte of some shape the bytes that the shape asks for are read. -/
theorem next_of_shape? {lead low high : UInt8} {count : Nat} (hlead : 0x80 ≤ lead.toNat)
    (h : shape? lead = some (count, low, high)) (bytes : List UInt8) :
    next lead bytes =
      ((tail count low high (lead.toNat % (64 >>> count)) bytes).1.map Char.ofNat,
        (tail count low high (lead.toNat % (64 >>> count)) bytes).2) := by
  have hlt : ¬lead < 0x80 := fun hlt => Nat.not_lt.2 hlead (UInt8.lt_iff_toNat_lt.1 hlt)
  rw [next, if_neg hlt, h]

/-- A number that a byte holds. -/
theorem toNat_byte {n : Nat} (h : n < 256) : (UInt8.ofNat n).toNat = n :=
  UInt8.toNat_ofNat_of_lt' h

/-- A byte that continues a character holds six bits of its number. -/
theorem tail_succ_mark {count acc n : Nat} {low high : UInt8} (hlow : low.toNat ≤ 0x80 + n % 0x40)
    (hhigh : 0x80 + n % 0x40 ≤ high.toNat) (rest : List UInt8) :
    tail (count + 1) low high acc (UInt8.ofNat (0x80 + n % 0x40) :: rest) =
      tail count 0x80 0xBF (acc * 0x40 + n % 0x40) rest := by
  have hbyte : (UInt8.ofNat (0x80 + n % 0x40)).toNat = 0x80 + n % 0x40 := toNat_byte (by omega)
  have hin : low ≤ UInt8.ofNat (0x80 + n % 0x40) ∧ UInt8.ofNat (0x80 + n % 0x40) ≤ high := by
    rw [UInt8.le_iff_toNat_le, UInt8.le_iff_toNat_le, hbyte]
    exact ⟨hlow, hhigh⟩
  rw [tail, if_pos hin, hbyte, Nat.add_sub_cancel_left]

/-- A character is read back from its bytes, whatever stands after them. -/
theorem exists_next_encodeChar (c : Char) (rest : List UInt8) :
    ∃ lead bytes, encodeChar c ++ rest = lead :: bytes ∧ next lead bytes = (some c, rest) := by
  have hbounds := Utf16.toNat_char_bounds c
  have hback : Char.ofNat c.toNat = c := Char.ofNat_toNat c
  have hmark : (0x80 : UInt8).toNat = 0x80 := rfl
  have hlast : (0xBF : UInt8).toNat = 0xBF := rfl
  unfold encodeChar
  dsimp only
  generalize c.toNat = n at hbounds hback ⊢
  split
  · have hlead : (UInt8.ofNat n).toNat = n := toNat_byte (by omega)
    refine ⟨_, _, rfl, ?_⟩
    rw [next_of_lt (by omega), hlead, hback]
    rfl
  split
  · have hlead : (UInt8.ofNat (0xC0 + n / 0x40)).toNat = 0xC0 + n / 0x40 :=
      toNat_byte (by omega)
    have hnumber : (0xC0 + n / 0x40) % 32 * 0x40 + n % 0x40 = n := by omega
    refine ⟨_, [UInt8.ofNat (0x80 + n % 0x40)] ++ rest, rfl, ?_⟩
    rw [next_of_shape? (by omega) (shape?_two (by omega) (by omega)), List.singleton_append,
      tail_succ_mark (by omega) (by omega), hlead, show 64 >>> 1 = 32 from rfl, hnumber, tail,
      Option.map_some, hback]
  split
  · have hlead : (UInt8.ofNat (0xE0 + n / 0x1000)).toNat = 0xE0 + n / 0x1000 :=
      toNat_byte (by omega)
    have hnumber : ((0xE0 + n / 0x1000) % 16 * 0x40 + n / 0x40 % 0x40) * 0x40 +
        n % 0x40 = n := by omega
    obtain ⟨low, high, hshape, hlow, hhigh⟩ :=
      shape?_three (show 0xE0 ≤ (UInt8.ofNat (0xE0 + n / 0x1000)).toNat by omega) (by omega)
    rw [hlead] at hlow hhigh
    refine ⟨_, [UInt8.ofNat (0x80 + n / 0x40 % 0x40), UInt8.ofNat (0x80 + n % 0x40)] ++ rest, rfl,
      ?_⟩
    rw [next_of_shape? (by omega) hshape, List.cons_append, List.singleton_append,
      tail_succ_mark (by split at hlow <;> omega) (by split at hhigh <;> omega),
      tail_succ_mark (by omega) (by omega), hlead, show 64 >>> 2 = 16 from rfl, hnumber, tail,
      Option.map_some, hback]
  · have hlead : (UInt8.ofNat (0xF0 + n / 0x40000)).toNat = 0xF0 + n / 0x40000 :=
      toNat_byte (by omega)
    have hnumber : (((0xF0 + n / 0x40000) % 8 * 0x40 + n / 0x1000 % 0x40) * 0x40 +
        n / 0x40 % 0x40) * 0x40 + n % 0x40 = n := by omega
    obtain ⟨low, high, hshape, hlow, hhigh⟩ :=
      shape?_four (show 0xF0 ≤ (UInt8.ofNat (0xF0 + n / 0x40000)).toNat by omega) (by omega)
    rw [hlead] at hlow hhigh
    refine ⟨_, [UInt8.ofNat (0x80 + n / 0x1000 % 0x40), UInt8.ofNat (0x80 + n / 0x40 % 0x40),
      UInt8.ofNat (0x80 + n % 0x40)] ++ rest, rfl, ?_⟩
    rw [next_of_shape? (by omega) hshape, List.cons_append, List.cons_append,
      List.singleton_append,
      tail_succ_mark (by split at hlow <;> omega) (by split at hhigh <;> omega),
      tail_succ_mark (by omega) (by omega), tail_succ_mark (by omega) (by omega), hlead,
      show 64 >>> 3 = 8 from rfl, hnumber, tail, Option.map_some, hback]

/-- A text is read back from its bytes. -/
theorem decode?_encode (text : List Char) : decode? (encode text) = some text := by
  induction text with
  | nil => exact decode?_nil
  | cons c text ih =>
    obtain ⟨lead, bytes, hbytes, hnext⟩ := exists_next_encodeChar c (encode text)
    rw [encode, List.flatMap_cons, ← encode, hbytes, decode?_cons, hnext, ih]
    rfl

theorem decodeLossy_encode (text : List Char) : decodeLossy (encode text) = text := by
  induction text with
  | nil => exact decodeLossy_nil
  | cons c text ih =>
    obtain ⟨lead, bytes, hbytes, hnext⟩ := exists_next_encodeChar c (encode text)
    rw [encode, List.flatMap_cons, ← encode, hbytes, decodeLossy_cons, hnext, ih]
    rfl

end TypeCatalog.Text.Utf8
