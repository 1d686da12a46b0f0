import TypeCatalog.Text.Utf16

/-! # UTF-16 of a text

    Every text is a sequence of sixteen-bit units, and is the text of that sequence. No character is
    a surrogate, so the pairs that stand for characters past U+FFFF are the only ones. -/

set_option autoImplicit false

namespace TypeCatalog.Text.Utf16

/-! ## Section 1: Encoding -/

/-- The units of one character: two surrogates past U+FFFF. -/
def encodeChar (c : Char) : List UInt16 :=
  if c.toNat < 0x10000 then [UInt16.ofNat c.toNat]
  else
    [UInt16.ofNat (0xD800 + (c.toNat - 0x10000) / 0x400),
      UInt16.ofNat (0xDC00 + (c.toNat - 0x10000) % 0x400)]

/-- The units of a text. -/
def encode (text : List Char) : List UInt16 :=
  text.flatMap encodeChar

/-! ## Section 2: Decoding unit by unit -/

/-- A unit that is neither half of a pair. -/
def IsScalar (u : UInt16) : Prop := u.toNat < 0xD800 ∨ 0xDFFF < u.toNat

theorem isHigh_iff {u : UInt16} : isHigh u = true ↔ 0xD800 ≤ u.toNat ∧ u.toNat ≤ 0xDBFF := by
  simp [isHigh, UInt16.le_iff_toNat_le]

theorem isLow_iff {u : UInt16} : isLow u = true ↔ 0xDC00 ≤ u.toNat ∧ u.toNat ≤ 0xDFFF := by
  simp [isLow, UInt16.le_iff_toNat_le]

/-- A unit that is no half of a pair is a character, whatever follows. -/
theorem decode_cons_scalar {u : UInt16} (h : IsScalar u) (rest : List UInt16) :
    decode (u :: rest) = Char.ofNat u.toNat :: decode rest := by
  have hhigh : ¬isHigh u = true := by
    rw [isHigh_iff]
    unfold IsScalar at h
    omega
  have hlow : ¬isLow u = true := by
    rw [isLow_iff]
    unfold IsScalar at h
    omega
  cases rest with
  | nil => simp [decode, single, hhigh, hlow]
  | cons v rest => simp [decode, single, hhigh, hlow]

/-- Two halves of a pair are one character. -/
theorem decode_cons_pair {high low : UInt16} (hhigh : isHigh high = true)
    (hlow : isLow low = true) (rest : List UInt16) :
    decode (high :: low :: rest) = pair high low :: decode rest := by
  simp [decode, hhigh, hlow]

/-! ## Section 3: The text of its units -/

theorem toNat_char_bounds (c : Char) :
    c.toNat < 0xD800 ∨ (0xDFFF < c.toNat ∧ c.toNat < 0x110000) := by
  have h := c.valid
  unfold UInt32.isValidChar Nat.isValidChar at h
  exact h

theorem decode_encodeChar_append (c : Char) (rest : List UInt16) :
    decode (encodeChar c ++ rest) = c :: decode rest := by
  have hc := toNat_char_bounds c
  unfold encodeChar
  split
  · next hsmall =>
    have hnat : (UInt16.ofNat c.toNat).toNat = c.toNat := UInt16.toNat_ofNat_of_lt' hsmall
    have hscalar : IsScalar (UInt16.ofNat c.toNat) := by
      unfold IsScalar
      omega
    rw [List.singleton_append, decode_cons_scalar hscalar, hnat, Char.ofNat_toNat]
  -- Past U+FFFF ten bits go into each half of the pair.
  · next hbig =>
    have hhigh : (UInt16.ofNat (0xD800 + (c.toNat - 0x10000) / 0x400)).toNat =
        0xD800 + (c.toNat - 0x10000) / 0x400 :=
      UInt16.toNat_ofNat_of_lt' (by unfold UInt16.size; omega)
    have hlow : (UInt16.ofNat (0xDC00 + (c.toNat - 0x10000) % 0x400)).toNat =
        0xDC00 + (c.toNat - 0x10000) % 0x400 :=
      UInt16.toNat_ofNat_of_lt' (by unfold UInt16.size; omega)
    have hpair : pair (UInt16.ofNat (0xD800 + (c.toNat - 0x10000) / 0x400))
        (UInt16.ofNat (0xDC00 + (c.toNat - 0x10000) % 0x400)) = c := by
      unfold pair
      rw [hhigh, hlow]
      have hsum : 0x10000 + (0xD800 + (c.toNat - 0x10000) / 0x400 - 0xD800) * 0x400 +
          (0xDC00 + (c.toNat - 0x10000) % 0x400 - 0xDC00) = c.toNat := by omega
      rw [hsum, Char.ofNat_toNat]
    rw [List.cons_append, List.singleton_append, decode_cons_pair, hpair]
    · rw [isHigh_iff]
      omega
    · rw [isLow_iff]
      omega

/-- A text is read back from its units. -/
theorem decode_encode (text : List Char) : decode (encode text) = text := by
  induction text with
  | nil => rfl
  | cons c text ih =>
    rw [encode, List.flatMap_cons, decode_encodeChar_append]
    exact congrArg (c :: ·) ih

/-! ## Section 4: The text of any units -/

/-- A unit that is one half of a pair, where no other half stands beside it. -/
def IsLone (u : UInt16) (rest : List UInt16) : Prop :=
  isLow u = true ∨ isHigh u = true ∧ ∀ v ∈ rest.head?, isLow v = false

/-- The text that units stand for: the units of a character are that character, and a surrogate
    that stands alone is U+FFFD. -/
inductive StandsFor : List UInt16 → List Char → Prop where
  | nil : StandsFor [] []
  | char (c : Char) {rest : List UInt16} {text : List Char} :
    StandsFor rest text → StandsFor (encodeChar c ++ rest) (c :: text)
  | lone {u : UInt16} {rest : List UInt16} {text : List Char} :
    IsLone u rest → StandsFor rest text → StandsFor (u :: rest) (Char.ofNat 0xFFFD :: text)

theorem toNat_ofNat {n : Nat} (h : n < 0xD800 ∨ 0xDFFF < n ∧ n < 0x110000) :
    (Char.ofNat n).toNat = n := by
  have hvalid : n.isValidChar := h
  rw [Char.ofNat, dif_pos hvalid]
  rfl

/-- A unit that is no half of a pair is the unit of a character. -/
theorem encodeChar_scalar {u : UInt16} (h : IsScalar u) :
    encodeChar (Char.ofNat u.toNat) = [u] := by
  have hbound := u.toNat_lt
  have hnat : (Char.ofNat u.toNat).toNat = u.toNat := toNat_ofNat (by
    unfold IsScalar at h
    omega)
  rw [encodeChar, if_pos (by omega), hnat, UInt16.ofNat_toNat]

/-- The two halves of a pair are the units of its character. -/
theorem encodeChar_pair {high low : UInt16} (hhigh : isHigh high = true)
    (hlow : isLow low = true) : encodeChar (pair high low) = [high, low] := by
  rw [isHigh_iff] at hhigh
  rw [isLow_iff] at hlow
  have hnat : (pair high low).toNat =
      0x10000 + (high.toNat - 0xD800) * 0x400 + (low.toNat - 0xDC00) := toNat_ofNat (by omega)
  have hfirst : 0xD800 + ((pair high low).toNat - 0x10000) / 0x400 = high.toNat := by omega
  have hsecond : 0xDC00 + ((pair high low).toNat - 0x10000) % 0x400 = low.toNat := by omega
  rw [encodeChar, if_neg (by omega), hfirst, hsecond, UInt16.ofNat_toNat, UInt16.ofNat_toNat]

theorem decode_cons_lone {u : UInt16} {rest : List UInt16} (h : IsLone u rest) :
    decode (u :: rest) = Char.ofNat 0xFFFD :: decode rest := by
  have hsurrogate : (isHigh u || isLow u) = true := by
    rcases h with hlow | ⟨hhigh, -⟩
    · rw [hlow, Bool.or_true]
    · rw [hhigh, Bool.true_or]
  cases rest with
  | nil => simp [decode, single, hsurrogate]
  | cons v rest =>
    have hpair : (isHigh u && isLow v) = false := by
      rcases h with hlow | ⟨-, hnext⟩
      · -- No unit is both halves.
        rw [isLow_iff] at hlow
        have hhigh : isHigh u = false := by
          rw [Bool.eq_false_iff, ne_eq, isHigh_iff]
          omega
        rw [hhigh, Bool.false_and]
      · rw [hnext v rfl, Bool.and_false]
    simp [decode, single, hsurrogate, hpair]

/-- Units have one text. -/
theorem StandsFor.decode_eq {us : List UInt16} {text : List Char} (h : StandsFor us text) :
    decode us = text := by
  induction h with
  | nil => rfl
  | char c _ ih => rw [decode_encodeChar_append, ih]
  | lone hlone _ ih => rw [decode_cons_lone hlone, ih]

/-- The first of some units is a character by itself, the first half of a pair, or alone. -/
theorem first_cases (u : UInt16) (rest : List UInt16) :
    IsScalar u ∨ (∃ v others, rest = v :: others ∧ isHigh u = true ∧ isLow v = true) ∨
      IsLone u rest := by
  by_cases hscalar : IsScalar u
  · exact .inl hscalar
  by_cases hlow : isLow u = true
  · exact .inr (.inr (.inl hlow))
  have hhigh : isHigh u = true := by
    unfold IsScalar at hscalar
    rw [isLow_iff] at hlow
    rw [isHigh_iff]
    omega
  cases rest with
  | nil => exact .inr (.inr (.inr ⟨hhigh, nofun⟩))
  | cons v others =>
    by_cases hnext : isLow v = true
    · exact .inr (.inl ⟨v, others, rfl, hhigh, hnext⟩)
    · refine .inr (.inr (.inr ⟨hhigh, ?_⟩))
      rintro w ⟨⟩
      exact Bool.eq_false_iff.2 hnext

/-- All units have a text. The induction is on their number, since a pair goes in one step. -/
theorem standsFor_decode (us : List UInt16) : StandsFor us (decode us) := by
  match us with
  | [] => exact .nil
  | u :: rest =>
    obtain hscalar | ⟨v, others, rfl, hhigh, hlow⟩ | hlone := first_cases u rest
    · have hchar := StandsFor.char (Char.ofNat u.toNat) (standsFor_decode rest)
      rwa [encodeChar_scalar hscalar, List.singleton_append, ← decode_cons_scalar hscalar] at hchar
    · have hchar := StandsFor.char (pair u v) (standsFor_decode others)
      rwa [encodeChar_pair hhigh hlow, ← decode_cons_pair hhigh hlow] at hchar
    · rw [decode_cons_lone hlone]
      exact .lone hlone (standsFor_decode rest)
termination_by us.length

end TypeCatalog.Text.Utf16
