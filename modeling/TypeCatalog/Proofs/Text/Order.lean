import Mathlib.Tactic.SplitIfs
import TypeCatalog.Proofs.Text.Offsets

/-! # The order of texts and of their bytes

    Texts are compared character by character, and their bytes stand in the same order. A character
    with a larger number starts with a larger byte, or it has as many bytes as the other one and the
    first of them that differs is larger. -/

set_option autoImplicit false

namespace TypeCatalog.Text.Utf8

/-! ## Section 1: Two characters -/

variable {a b : Nat} {s t : List UInt8}

/-- A list of bytes is before another one if its first byte is less, or the same in front of a list
    that is before the other one. -/
theorem ofNat_cons_lt (ha : a < 256) (hb : b < 256) (h : a < b ∨ a = b ∧ s < t) :
    UInt8.ofNat a :: s < UInt8.ofNat b :: t := by
  rw [List.cons_lt_cons_iff, UInt8.lt_iff_toNat_lt, toNat_byte ha, toNat_byte hb]
  rcases h with h | ⟨rfl, h⟩
  · exact .inl h
  · exact .inr ⟨rfl, h⟩

/-- The bytes that continue a character are compared like the digits that they stand for. -/
theorem mark_cons_lt {n m : Nat} (h : n % 0x40 < m % 0x40 ∨ n % 0x40 = m % 0x40 ∧ s < t) :
    UInt8.ofNat (0x80 + n % 0x40) :: s < UInt8.ofNat (0x80 + m % 0x40) :: t := by
  apply ofNat_cons_lt (by omega) (by omega)
  rcases h with h | ⟨h, hrest⟩
  · exact .inl (by omega)
  · exact .inr ⟨by omega, hrest⟩

/-- The bytes of a character are before those of one with a larger number, whatever follows. -/
theorem encodeChar_append_lt {c d : Char} (h : c.toNat < d.toNat) (s t : List UInt8) :
    encodeChar c ++ s < encodeChar d ++ t := by
  have hd := Utf16.toNat_char_bounds d
  unfold encodeChar
  dsimp only
  generalize c.toNat = n at h ⊢
  generalize d.toNat = m at h hd ⊢
  -- The first bytes decide unless both characters have the same number of bytes.
  by_cases hone : n < 0x80
  · rw [if_pos hone]
    split_ifs <;> exact ofNat_cons_lt (by omega) (by omega) (.inl (by omega))
  rw [if_neg hone, if_neg (show ¬ m < 0x80 by omega)]
  by_cases htwo : n < 0x800
  · rw [if_pos htwo]
    by_cases hsame : m < 0x800
    · rw [if_pos hsame]
      apply ofNat_cons_lt (by omega) (by omega)
      rcases (by omega : n / 0x40 < m / 0x40 ∨ n / 0x40 = m / 0x40 ∧ n % 0x40 < m % 0x40)
        with hlead | ⟨hlead, hlast⟩
      · exact .inl (by omega)
      · exact .inr ⟨by omega, mark_cons_lt (.inl hlast)⟩
    · rw [if_neg hsame]
      split_ifs <;> exact ofNat_cons_lt (by omega) (by omega) (.inl (by omega))
  rw [if_neg htwo, if_neg (show ¬ m < 0x800 by omega)]
  by_cases hthree : n < 0x10000
  · rw [if_pos hthree]
    by_cases hsame : m < 0x10000
    · rw [if_pos hsame]
      apply ofNat_cons_lt (by omega) (by omega)
      rcases (by omega : n / 0x1000 < m / 0x1000 ∨ n / 0x1000 = m / 0x1000 ∧
          (n / 0x40 % 0x40 < m / 0x40 % 0x40 ∨
            n / 0x40 % 0x40 = m / 0x40 % 0x40 ∧ n % 0x40 < m % 0x40))
        with hlead | ⟨hlead, hnext | ⟨hnext, hlast⟩⟩
      · exact .inl (by omega)
      · exact .inr ⟨by omega, mark_cons_lt (.inl hnext)⟩
      · exact .inr ⟨by omega, mark_cons_lt (.inr ⟨hnext, mark_cons_lt (.inl hlast)⟩)⟩
    · rw [if_neg hsame]
      exact ofNat_cons_lt (by omega) (by omega) (.inl (by omega))
  rw [if_neg hthree, if_neg (show ¬ m < 0x10000 by omega)]
  apply ofNat_cons_lt (by omega) (by omega)
  rcases (by omega : n / 0x40000 < m / 0x40000 ∨ n / 0x40000 = m / 0x40000 ∧
      (n / 0x1000 % 0x40 < m / 0x1000 % 0x40 ∨ n / 0x1000 % 0x40 = m / 0x1000 % 0x40 ∧
        (n / 0x40 % 0x40 < m / 0x40 % 0x40 ∨
          n / 0x40 % 0x40 = m / 0x40 % 0x40 ∧ n % 0x40 < m % 0x40)))
    with hlead | ⟨hlead, hsecond | ⟨hsecond, hnext | ⟨hnext, hlast⟩⟩⟩
  · exact .inl (by omega)
  · exact .inr ⟨by omega, mark_cons_lt (.inl hsecond)⟩
  · exact .inr ⟨by omega, mark_cons_lt (.inr ⟨hsecond, mark_cons_lt (.inl hnext)⟩)⟩
  · exact .inr ⟨by omega, mark_cons_lt (.inr ⟨hsecond, mark_cons_lt (.inr ⟨hnext,
      mark_cons_lt (.inl hlast)⟩)⟩)⟩

/-! ## Section 2: Texts -/

theorem append_lt_append_left {s t : List UInt8} (h : s < t) (before : List UInt8) :
    before ++ s < before ++ t := by
  induction before with
  | nil => exact h
  | cons b before ih => exact List.cons_lt_cons_iff.2 (.inr ⟨rfl, ih⟩)

/-- Bytes are in the order of the texts that they stand for. -/
theorem encode_lt_encode {text other : List Char} (h : text < other) :
    encode text < encode other := by
  induction h with
  | @nil c rest =>
    rw [encode_cons]
    obtain ⟨lead, bytes, hbytes, -⟩ := exists_next_encodeChar c (encode rest)
    rw [hbytes]
    exact List.Lex.nil
  | rel hlt =>
    rw [encode_cons, encode_cons]
    exact encodeChar_append_lt (UInt32.lt_iff_toNat_lt.1 (Char.lt_def.1 hlt)) _ _
  | cons _ ih =>
    rw [encode_cons, encode_cons]
    exact append_lt_append_left ih _

end TypeCatalog.Text.Utf8
