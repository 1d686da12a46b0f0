import TypeCatalog.Proofs.Text.Utf8

/-! # Offsets in a text

    An offset counts bytes, and only some offsets stand between two characters. The first 128
    characters are one byte each, which is no byte of any other character; all bytes of the others
    are past these. So a search for one of the first characters can go byte by byte. -/

set_option autoImplicit false

namespace TypeCatalog.Text.Utf8

/-! ## Section 1: The bytes of a character -/

/-- One of the first 128 characters as a byte. -/
def byte (c : Char) : UInt8 := UInt8.ofNat c.toNat

theorem encodeChar_of_lt {c : Char} (h : c.toNat < 0x80) : encodeChar c = [byte c] := by
  unfold encodeChar
  rw [if_pos h]
  rfl

theorem utf8Size_eq (c : Char) :
    c.utf8Size = if c.toNat < 0x80 then 1 else if c.toNat < 0x800 then 2
      else if c.toNat < 0x10000 then 3 else 4 := by
  have hle : ∀ k : UInt32, c.val ≤ k ↔ c.toNat < k.toNat + 1 := by
    intro k
    rw [UInt32.le_iff_toNat_le]
    exact Nat.lt_succ_iff.symm
  unfold Char.utf8Size
  simp only [hle]
  rfl

theorem utf8Size_of_lt {c : Char} (h : c.toNat < 0x80) : c.utf8Size = 1 := by
  rw [utf8Size_eq, if_pos h]

theorem size_cons_of_lt {c : Char} (h : c.toNat < 0x80) (s : List Char) :
    size (c :: s) = 1 + size s := by
  rw [size_cons, utf8Size_of_lt h]

theorem length_encodeChar (c : Char) : (encodeChar c).length = c.utf8Size := by
  rw [utf8Size_eq]
  unfold encodeChar
  dsimp only
  split
  · rfl
  split
  · rfl
  split <;> rfl

theorem length_encode (s : List Char) : (encode s).length = size s := by
  induction s with
  | nil => rfl
  | cons c s ih =>
    rw [encode, List.flatMap_cons, List.length_append, length_encodeChar, size_cons, ← encode, ih]

theorem encode_cons (c : Char) (s : List Char) : encode (c :: s) = encodeChar c ++ encode s :=
  List.flatMap_cons ..

theorem encode_append (s s' : List Char) : encode (s ++ s') = encode s ++ encode s' :=
  List.flatMap_append ..

/-- All bytes of a longer character are past the first 128. -/
theorem le_toNat_of_mem {c : Char} (h : 0x80 ≤ c.toNat) {b : UInt8} (hb : b ∈ encodeChar c) :
    0x80 ≤ b.toNat := by
  have hbound := Utf16.toNat_char_bounds c
  have hbyte : ∀ {m : Nat}, b = UInt8.ofNat m → 0x80 ≤ m → m < 256 → 0x80 ≤ b.toNat := by
    intro m hm hlow hhigh
    rw [hm, toNat_byte hhigh]
    exact hlow
  have hmark : ∀ {m : Nat}, b = UInt8.ofNat (0x80 + m % 0x40) → 0x80 ≤ b.toNat := by
    intro m hm
    exact hbyte hm (by omega) (by omega)
  unfold encodeChar at hb
  dsimp only at hb
  generalize c.toNat = n at h hbound hb
  rw [if_neg (by omega)] at hb
  split at hb
  · rcases List.mem_cons.1 hb with hb | hb
    · exact hbyte hb (by omega) (by omega)
    · exact hmark (List.mem_singleton.1 hb)
  split at hb
  · rcases List.mem_cons.1 hb with hb | hb
    · exact hbyte hb (by omega) (by omega)
    rcases List.mem_cons.1 hb with hb | hb
    · exact hmark hb
    · exact hmark (List.mem_singleton.1 hb)
  · rcases List.mem_cons.1 hb with hb | hb
    · exact hbyte hb (by omega) (by omega)
    rcases List.mem_cons.1 hb with hb | hb
    · exact hmark hb
    rcases List.mem_cons.1 hb with hb | hb
    · exact hmark hb
    · exact hmark (List.mem_singleton.1 hb)

theorem encodeChar_ne_nil (c : Char) : encodeChar c ≠ [] := by
  intro h
  have hlength := length_encodeChar c
  rw [h] at hlength
  exact Nat.ne_of_lt c.utf8Size_pos hlength

/-- One of the first 128 characters is the only one with its byte. -/
theorem eq_byte_iff {c k : Char} (hk : k.toNat < 0x80) {b : UInt8} (hb : b ∈ encodeChar c) :
    b = byte k ↔ c = k := by
  by_cases hc : c.toNat < 0x80
  · rw [encodeChar_of_lt hc, List.mem_singleton] at hb
    rw [hb]
    constructor
    · intro h
      have hnat := congrArg UInt8.toNat h
      rw [byte, byte, toNat_byte (by omega), toNat_byte (by omega)] at hnat
      rw [← Char.ofNat_toNat c, hnat, Char.ofNat_toNat]
    · intro h
      rw [h]
  · have hle := le_toNat_of_mem (Nat.not_lt.1 hc) hb
    constructor
    · intro h
      rw [h, byte, toNat_byte (by omega)] at hle
      omega
    · intro h
      rw [h] at hc
      exact (hc hk).elim

/-- A test of bytes that tells the same of all bytes of a character as a test of characters. -/
def Tests (p : UInt8 → Bool) (q : Char → Bool) : Prop :=
  ∀ c, ∀ b ∈ encodeChar c, p b = q c

/-- Two tests have to agree on the first 128 characters, and one way or the other on all others. -/
theorem tests_of {p : UInt8 → Bool} {q : Char → Bool} (v : Bool)
    (hfirst : ∀ n < 0x80, p (UInt8.ofNat n) = q (Char.ofNat n))
    (hbyte : ∀ n < 0x100, 0x80 ≤ n → p (UInt8.ofNat n) = v)
    (hchar : ∀ c : Char, 0x80 ≤ c.toNat → q c = v) : Tests p q := by
  intro c b hb
  by_cases hc : c.toNat < 0x80
  · rw [encodeChar_of_lt hc, List.mem_singleton] at hb
    have h := hfirst c.toNat hc
    rwa [Char.ofNat_toNat, ← byte, ← hb] at h
  · have hle := Nat.not_lt.1 hc
    have h := hbyte b.toNat b.toNat_lt (le_toNat_of_mem hle hb)
    rw [UInt8.ofNat_toNat] at h
    rw [h, hchar c hle]

/-! ## Section 2: Parts of a text -/

/-- The part of a text from an offset on. There is none from inside a character or past the end. -/
def from? : List Char → Nat → Option (List Char)
  | s, 0 => some s
  | [], _ + 1 => none
  | c :: s, n + 1 => if c.utf8Size ≤ n + 1 then from? s (n + 1 - c.utf8Size) else none

/-- The part of a text up to an offset. -/
def upTo? : List Char → Nat → Option (List Char)
  | _, 0 => some []
  | [], _ + 1 => none
  | c :: s, n + 1 =>
    if c.utf8Size ≤ n + 1 then (upTo? s (n + 1 - c.utf8Size)).map (c :: ·) else none

/-- The offset of the first place where a mark stands in a text. -/
def find? (mark : List Char) : List Char → Option Nat
  | [] => none
  | c :: s => if mark.isPrefixOf (c :: s) then some 0 else (find? mark s).map (· + c.utf8Size)

theorem from?_size (before s : List Char) : from? (before ++ s) (size before) = some s := by
  induction before with
  | nil =>
    rw [List.nil_append, size_nil]
    cases s <;> rfl
  | cons c before ih =>
    have hpos := c.utf8Size_pos
    obtain ⟨n, hn⟩ : ∃ n, size (c :: before) = n + 1 := ⟨size (c :: before) - 1, by
      rw [size_cons]
      omega⟩
    rw [hn, List.cons_append, from?, ← hn, size_cons, if_pos (by omega), Nat.add_sub_cancel_left,
      ih]

theorem upTo?_size (s after : List Char) : upTo? (s ++ after) (size s) = some s := by
  induction s with
  | nil =>
    rw [List.nil_append, size_nil]
    cases after <;> rfl
  | cons c s ih =>
    have hpos := c.utf8Size_pos
    obtain ⟨n, hn⟩ : ∃ n, size (c :: s) = n + 1 := ⟨size (c :: s) - 1, by
      rw [size_cons]
      omega⟩
    rw [hn, List.cons_append, upTo?, ← hn, size_cons, if_pos (by omega), Nat.add_sub_cancel_left,
      ih]
    rfl

/-- Past a front of the text stand the bytes of what follows it. -/
theorem drop_encode (before s : List Char) :
    (encode (before ++ s)).drop (size before) = encode s := by
  rw [encode_append, ← length_encode, List.drop_left]

/-! ## Section 3: Texts with the same first byte -/

theorem head?_encode_cons (c : Char) (s : List Char) :
    (encode (c :: s)).head? = (encodeChar c).head? := by
  rw [encode_cons]
  cases h : encodeChar c with
  | nil => exact absurd h (encodeChar_ne_nil c)
  | cons b bytes => rfl

/-- Two texts that start with the same byte, or that are both empty. -/
def StartAlike (s s' : List Char) : Prop := (encode s).head? = (encode s').head?

namespace StartAlike

variable {s s' : List Char} {c : Char}

theorem refl (s : List Char) : StartAlike s s := rfl

theorem append_left (h : StartAlike s s') (before : List Char) :
    StartAlike (before ++ s) (before ++ s') := by
  cases before with
  | nil => exact h
  | cons c before =>
    show (encode (c :: (before ++ s))).head? = (encode (c :: (before ++ s'))).head?
    rw [head?_encode_cons, head?_encode_cons]

theorem eq_nil (h : StartAlike [] s') : s' = [] := by
  cases s' with
  | nil => rfl
  | cons c r =>
    unfold StartAlike at h
    rw [head?_encode_cons] at h
    exact absurd (List.head?_eq_none_iff.1 h.symm) (encodeChar_ne_nil c)

/-- The first characters of two such texts are shown in the same way, and are the same among the
    first 128 characters. -/
theorem exists_cons {r : List Char} (h : StartAlike (c :: r) s') :
    ∃ c' r', s' = c' :: r' ∧ leadByte c' = leadByte c ∧
      ∀ k : Char, k.toNat < 0x80 → (c' = k ↔ c = k) := by
  cases s' with
  | nil => cases eq_nil h.symm
  | cons c' r' =>
    unfold StartAlike at h
    rw [head?_encode_cons, head?_encode_cons] at h
    cases hbytes : encodeChar c with
    | nil => exact absurd hbytes (encodeChar_ne_nil c)
    | cons b bytes =>
      obtain ⟨bytes', hbytes'⟩ : ∃ bytes', encodeChar c' = b :: bytes' := by
        rw [hbytes, List.head?_cons] at h
        exact List.head?_eq_some_iff.1 h.symm
      refine ⟨c', r', rfl, ?_, ?_⟩
      · rw [leadByte, leadByte, hbytes, hbytes']
      · intro k hk
        rw [← eq_byte_iff hk (show b ∈ encodeChar c' by simp [hbytes']),
          ← eq_byte_iff hk (show b ∈ encodeChar c by simp [hbytes])]

theorem head?_eq (h : StartAlike s s') (hc : c.toNat < 0x80) :
    s'.head? = some c ↔ s.head? = some c := by
  cases s with
  | nil => rw [eq_nil h]
  | cons d r =>
    obtain ⟨d', r', rfl, -, hsame⟩ := h.exists_cons
    simpa using hsame c hc

end StartAlike

/-- A text whose bytes start with those of a front of another text and with the byte after them has
    the same front, and goes on with the same byte. -/
theorem exists_startAlike {before s text : List Char} (hs : s ≠ [])
    (h : (encode (before ++ s)).take (size before + 1) <+: encode text) :
    ∃ s', text = before ++ s' ∧ StartAlike s s' := by
  induction before generalizing text with
  | nil =>
    refine ⟨text, rfl, ?_⟩
    obtain ⟨c, r, rfl⟩ := List.exists_cons_of_ne_nil hs
    obtain ⟨b, bytes, hbytes, -⟩ := exists_next_encodeChar c (encode r)
    rw [← encode_cons] at hbytes
    obtain ⟨rest, hrest⟩ := h
    rw [List.nil_append, hbytes] at hrest
    unfold StartAlike
    rw [hbytes, ← hrest]
    rfl
  | cons c before ih =>
    obtain ⟨rest, hrest⟩ := h
    have hsize : size (c :: before) + 1 = (encodeChar c).length + (size before + 1) := by
      rw [size_cons, length_encodeChar]
      omega
    rw [List.cons_append, encode_cons, hsize, List.take_length_add_append, List.append_assoc]
      at hrest
    obtain ⟨lead, bytes, hbytes, hnext⟩ := exists_next_encodeChar c
      ((encode (before ++ s)).take (size before + 1) ++ rest)
    -- The text starts with a character, and no other one has these bytes in front.
    cases text with
    | nil =>
      rw [hbytes] at hrest
      cases hrest
    | cons d text =>
      obtain ⟨lead', bytes', hbytes', hnext'⟩ := exists_next_encodeChar d (encode text)
      rw [encode_cons, hbytes, hbytes'] at hrest
      obtain ⟨rfl, rfl⟩ := List.cons.inj hrest
      rw [hnext] at hnext'
      obtain ⟨hchar, htext⟩ := Prod.mk.inj hnext'
      cases hchar
      obtain ⟨s', rfl, hstart⟩ := ih ⟨rest, htext⟩
      exact ⟨s', rfl, hstart⟩

end TypeCatalog.Text.Utf8
