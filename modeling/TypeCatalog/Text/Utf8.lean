/-! # UTF-8

    Characters as bytes and back. Three readers of one byte sequence are wanted: the strict one,
    which refuses any ill-formed sequence; the lenient one, which puts U+FFFD in place of each
    maximal ill-formed piece; and the count of bytes a text takes, which is how positions are
    counted throughout the library. Both readers are built on one step, `next`, so they agree on
    every well-formed text.
-/

set_option autoImplicit false

namespace TypeCatalog.Text.Utf8

/-! ## Section 1: Writing -/

/-- The bytes of one character: one to four, the first telling how many follow. -/
def encodeChar (c : Char) : List UInt8 :=
  let n := c.toNat
  if n < 0x80 then
    [UInt8.ofNat n]
  else if n < 0x800 then
    [UInt8.ofNat (0xC0 + n / 0x40), UInt8.ofNat (0x80 + n % 0x40)]
  else if n < 0x10000 then
    [UInt8.ofNat (0xE0 + n / 0x1000), UInt8.ofNat (0x80 + n / 0x40 % 0x40),
      UInt8.ofNat (0x80 + n % 0x40)]
  else
    [UInt8.ofNat (0xF0 + n / 0x40000), UInt8.ofNat (0x80 + n / 0x1000 % 0x40),
      UInt8.ofNat (0x80 + n / 0x40 % 0x40), UInt8.ofNat (0x80 + n % 0x40)]

/-- The bytes of a text. -/
def encode (text : List Char) : List UInt8 :=
  text.flatMap encodeChar

/-- The number of bytes a text takes. -/
def size : List Char → Nat
  | [] => 0
  | c :: text => c.utf8Size + size text

@[simp]
theorem size_nil : size [] = 0 := rfl

@[simp]
theorem size_cons (c : Char) (text : List Char) : size (c :: text) = c.utf8Size + size text :=
  rfl

@[simp]
theorem size_append (a b : List Char) : size (a ++ b) = size a + size b := by
  induction a with
  | nil => simp
  | cons c a ih =>
    simp [ih]
    omega

/-- The first byte of a character, shown as the character of that number. Messages that name a
    single offending byte show it this way. -/
def leadByte (c : Char) : Char :=
  match encodeChar c with
  | b :: _ => Char.ofNat b.toNat
  | [] => c

/-! ## Section 2: Reading -/

/-- What a first byte above 0x7F promises: how many bytes follow, and the range of the first of
    them. The narrower ranges keep out overlong forms, surrogates and numbers past U+10FFFF. -/
def shape? (lead : UInt8) : Option (Nat × UInt8 × UInt8) :=
  if lead < 0xC2 then none
  else if lead ≤ 0xDF then some (1, 0x80, 0xBF)
  else if lead = 0xE0 then some (2, 0xA0, 0xBF)
  else if lead = 0xED then some (2, 0x80, 0x9F)
  else if lead ≤ 0xEF then some (2, 0x80, 0xBF)
  else if lead = 0xF0 then some (3, 0x90, 0xBF)
  else if lead ≤ 0xF3 then some (3, 0x80, 0xBF)
  else if lead = 0xF4 then some (3, 0x80, 0x8F)
  else none

/-- Read `count` continuation bytes onto `acc`, the first of them in `low` to `high`. The second
    component is what is left, also where a byte does not fit. -/
def tail (count : Nat) (low high : UInt8) (acc : Nat) (bytes : List UInt8) :
    Option Nat × List UInt8 :=
  match count, bytes with
  | 0, rest => (some acc, rest)
  | _ + 1, [] => (none, [])
  | n + 1, b :: rest =>
    if low ≤ b ∧ b ≤ high then tail n 0x80 0xBF (acc * 0x40 + (b.toNat - 0x80)) rest
    else (none, b :: rest)

theorem tail_length_le (count : Nat) (low high : UInt8) (acc : Nat) (bytes : List UInt8) :
    (tail count low high acc bytes).2.length ≤ bytes.length := by
  fun_induction tail count low high acc bytes with
  | case1 => simp
  | case2 => simp
  | case3 low high acc n b rest h ih => simp; omega
  | case4 => simp

/-- Read the character that starts with `lead`; `none` for an ill-formed piece. The second
    component is what is left after the character or the piece. -/
def next (lead : UInt8) (bytes : List UInt8) : Option Char × List UInt8 :=
  if lead < 0x80 then (some (Char.ofNat lead.toNat), bytes)
  else
    match shape? lead with
    | none => (none, bytes)
    | some (count, low, high) =>
      let (number, rest) := tail count low high (lead.toNat % (64 >>> count)) bytes
      (number.map Char.ofNat, rest)

theorem next_length_le (lead : UInt8) (bytes : List UInt8) :
    (next lead bytes).2.length ≤ bytes.length := by
  unfold next
  split
  · simp
  · split
    · simp
    · next count low high _ => exact tail_length_le count low high _ bytes

/-- The strict reader with the text read so far, last character first. -/
def decodeOnto (done : List Char) (bytes : List UInt8) : Option (List Char) :=
  match bytes with
  | [] => some done.reverse
  | lead :: rest =>
    match (next lead rest).1 with
    | none => none
    | some c => decodeOnto (c :: done) (next lead rest).2
termination_by bytes.length
decreasing_by
  have := next_length_le lead rest
  simp; omega

/-- The text of a byte sequence, if it is well formed throughout. -/
def decode? (bytes : List UInt8) : Option (List Char) :=
  decodeOnto [] bytes

/-- The lenient reader with the text read so far, last character first. -/
def decodeLossyOnto (done : List Char) (bytes : List UInt8) : List Char :=
  match bytes with
  | [] => done.reverse
  | lead :: rest =>
    decodeLossyOnto ((next lead rest).1.getD (Char.ofNat 0xFFFD) :: done) (next lead rest).2
termination_by bytes.length
decreasing_by
  have := next_length_le lead rest
  simp; omega

/-- The text of a byte sequence with U+FFFD for each maximal ill-formed piece. -/
def decodeLossy (bytes : List UInt8) : List Char :=
  decodeLossyOnto [] bytes

/-! ## Section 3: The readers as recursions on the bytes -/

theorem decodeOnto_eq (done : List Char) (bytes : List UInt8) :
    decodeOnto done bytes = (decode? bytes).map (done.reverse ++ ·) := by
  have key : ∀ (n : Nat) (done base : List Char) (bytes : List UInt8), bytes.length ≤ n →
      decodeOnto (done ++ base) bytes = (decodeOnto done bytes).map (base.reverse ++ ·) := by
    intro n
    induction n with
    | zero =>
      intro done base bytes h
      have : bytes = [] := List.length_eq_zero_iff.1 (by omega)
      subst this
      simp [decodeOnto]
    | succ n ih =>
      intro done base bytes h
      match bytes with
      | [] => simp [decodeOnto]
      | lead :: rest =>
        have hle := next_length_le lead rest
        rw [decodeOnto, decodeOnto]
        split
        · rfl
        · next c _ =>
          exact ih (c :: done) base _ (by simp at h; omega)
  simpa [decode?] using key bytes.length [] done bytes (Nat.le_refl _)

@[simp]
theorem decode?_nil : decode? [] = some [] := by
  simp [decode?, decodeOnto]

theorem decode?_cons (lead : UInt8) (rest : List UInt8) :
    decode? (lead :: rest) =
      (next lead rest).1.bind fun c => (decode? (next lead rest).2).map (c :: ·) := by
  rw [decode?, decodeOnto]
  split
  · next h => simp [h]
  · next c h => simp [h, decodeOnto_eq]

theorem decodeLossyOnto_eq (done : List Char) (bytes : List UInt8) :
    decodeLossyOnto done bytes = done.reverse ++ decodeLossy bytes := by
  have key : ∀ (n : Nat) (done base : List Char) (bytes : List UInt8), bytes.length ≤ n →
      decodeLossyOnto (done ++ base) bytes = base.reverse ++ decodeLossyOnto done bytes := by
    intro n
    induction n with
    | zero =>
      intro done base bytes h
      have : bytes = [] := List.length_eq_zero_iff.1 (by omega)
      subst this
      simp [decodeLossyOnto]
    | succ n ih =>
      intro done base bytes h
      match bytes with
      | [] => simp [decodeLossyOnto]
      | lead :: rest =>
        have hle := next_length_le lead rest
        rw [decodeLossyOnto, decodeLossyOnto]
        exact ih (_ :: done) base _ (by simp at h; omega)
  simpa [decodeLossy] using key bytes.length [] done bytes (Nat.le_refl _)

@[simp]
theorem decodeLossy_nil : decodeLossy [] = [] := by
  simp [decodeLossy, decodeLossyOnto]

theorem decodeLossy_cons (lead : UInt8) (rest : List UInt8) :
    decodeLossy (lead :: rest) =
      (next lead rest).1.getD (Char.ofNat 0xFFFD) :: decodeLossy (next lead rest).2 := by
  rw [decodeLossy, decodeLossyOnto, decodeLossyOnto_eq]
  simp

end TypeCatalog.Text.Utf8
