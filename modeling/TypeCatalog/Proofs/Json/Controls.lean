import TypeCatalog.Proofs.Json.RoundTrip

/-! # No controls in JSON text

    The compact text of a value has no control characters: a string escapes those it has, and
    nothing else that is written is one. So no byte of the text is below 0x20, whatever the value
    says. -/

set_option autoImplicit false

namespace TypeCatalog.Text

/-! ## Section 1: Texts without controls -/

/-- A text without control characters. -/
def IsPrinted (text : List Char) : Prop := ∀ c ∈ text, 0x20 ≤ c.toNat

theorem isPrinted_nil : IsPrinted [] := fun _ h => nomatch h

theorem IsPrinted.cons {c : Char} {text : List Char} (hc : 0x20 ≤ c.toNat) (h : IsPrinted text) :
    IsPrinted (c :: text) := by
  intro x hx
  rcases List.mem_cons.1 hx with rfl | hx
  · exact hc
  · exact h x hx

theorem IsPrinted.append {a b : List Char} (ha : IsPrinted a) (hb : IsPrinted b) :
    IsPrinted (a ++ b) := by
  intro c hc
  rcases List.mem_append.1 hc with h | h
  · exact ha c h
  · exact hb c h

/-- A character that is no control is not written with the byte of one. -/
theorem Utf8.le_toNat_of_mem_encodeChar {c : Char} (h : 0x20 ≤ c.toNat) {b : UInt8}
    (hb : b ∈ encodeChar c) : 0x20 ≤ b.toNat := by
  have hbound := Utf16.toNat_char_bounds c
  have hbyte : ∀ {m : Nat}, b = UInt8.ofNat m → 0x20 ≤ m → m < 256 → 0x20 ≤ b.toNat := by
    intro m hm hlow hhigh
    rw [hm, toNat_byte hhigh]
    exact hlow
  unfold encodeChar at hb
  dsimp only at hb
  generalize c.toNat = n at h hbound hb
  split at hb
  · exact hbyte (List.mem_singleton.1 hb) (by omega) (by omega)
  -- All bytes of a longer character are past 0x7F.
  have hmark : ∀ {m : Nat}, b = UInt8.ofNat (0x80 + m % 0x40) → 0x20 ≤ b.toNat := by
    intro m hm
    exact hbyte hm (by omega) (by omega)
  split at hb
  · rcases List.mem_cons.1 hb with hb | hb
    · exact hbyte hb (by omega) (by omega)
    · exact hmark (List.mem_singleton.1 hb)
  split at hb
  · rcases List.mem_cons.1 hb with hb | hb
    · exact hbyte hb (by omega) (by omega)
    rcases List.mem_cons.1 hb with hb | hb
    · exact hmark hb
    · exact hmark (List.mem_singleton.1 hb)
  · rcases List.mem_cons.1 hb with hb | hb
    · exact hbyte hb (by omega) (by omega)
    rcases List.mem_cons.1 hb with hb | hb
    · exact hmark hb
    rcases List.mem_cons.1 hb with hb | hb
    · exact hmark hb
    · exact hmark (List.mem_singleton.1 hb)

theorem IsPrinted.le_toNat_of_mem_encode {text : List Char} (h : IsPrinted text) {b : UInt8}
    (hb : b ∈ Utf8.encode text) : 0x20 ≤ b.toNat := by
  obtain ⟨c, hc, hbyte⟩ := List.mem_flatMap.1 hb
  exact Utf8.le_toNat_of_mem_encodeChar (h c hc) hbyte

end TypeCatalog.Text

namespace TypeCatalog.Json

open TypeCatalog.Text (IsPrinted isPrinted_nil)

/-! ## Section 2: Words -/

/-- A letter that stands for a character after a reverse solidus is no control. -/
theorem le_toNat_of_escaped? {a c : Char} (h : escaped? a = some c) : 0x20 ≤ a.toNat := by
  by_cases hcontrol : 0x20 ≤ a.toNat
  · exact hcontrol
  have hall : ∀ n < 0x20, escaped? (Char.ofNat n) = none := by decide
  have hnone := hall a.toNat (Nat.not_le.1 hcontrol)
  rw [Char.ofNat_toNat, h] at hnone
  cases hnone

theorem isPrinted_escapeChar (c : Char) : IsPrinted (escapeChar c) := by
  have hdigit : ∀ d < 16, 0x20 ≤ (Nat.digitChar d).toNat := by decide
  obtain ⟨a, -, hstands, hc⟩ | ⟨hcontrol, hc⟩ | ⟨-, -, hplain, hc⟩ := escapeChar_cases c
  · rw [hc]
    exact (isPrinted_nil.cons (le_toNat_of_escaped? hstands)).cons (by decide)
  · have hhigh := hdigit (c.toNat / 16) (by omega)
    have hlow := hdigit (c.toNat % 16) (by omega)
    rw [hc]
    have hnumber := (isPrinted_nil.cons hlow).cons hhigh
    exact (((hnumber.cons (by decide)).cons (by decide)).cons (by decide)).cons (by decide)
  · rw [hc]
    exact isPrinted_nil.cons hplain

theorem isPrinted_quote (text : String) : IsPrinted (quote text) := by
  have hinside : IsPrinted (text.toList.flatMap escapeChar) := by
    intro x hx
    obtain ⟨c, -, hc⟩ := List.mem_flatMap.1 hx
    exact isPrinted_escapeChar c x hc
  exact (hinside.cons (by decide)).append (isPrinted_nil.cons (by decide))

theorem isPrinted_integer (v : Int) : IsPrinted (toString v).toList := by
  have hdigits : ∀ n : Nat, IsPrinted (Nat.toDigits 10 n) := by
    intro n c hc
    have hdigit := Nat.isDigit_of_mem_toDigits (by decide) (by decide) hc
    have hlow : '0'.toNat ≤ c.toNat := (Char.isDigit_iff_toNat.1 hdigit).1
    exact Nat.le_trans (by decide) hlow
  cases v with
  | ofNat n =>
    rw [toList_toString_ofNat]
    exact hdigits n
  | negSucc n =>
    rw [toList_toString_negSucc]
    exact (hdigits (n + 1)).cons (by decide)

/-! ## Section 3: Values -/

mutual
/-- The text of a value has no controls. -/
theorem isPrinted_compact (v : Json) {depth : Nat} (h : v.Plain depth) : IsPrinted (compact v) :=
  match v with
  | null => by simp [compact, word, IsPrinted]
  | bool true => by simp [compact, word, IsPrinted]
  | bool false => by simp [compact, word, IsPrinted]
  | integer v => by
    rw [compact_integer]
    exact isPrinted_integer v
  | decimal text => h.elim
  | string text => by
    rw [compact_string]
    exact isPrinted_quote text
  | array items => by
    obtain ⟨below, rfl, h⟩ := h
    rw [compact]
    exact ((isPrinted_compactItems items h).cons (by decide)).append
      (isPrinted_nil.cons (by decide))
  | object found => by
    obtain ⟨below, rfl, h⟩ := h
    rw [compact]
    exact ((isPrinted_compactMembers found h).cons (by decide)).append
      (isPrinted_nil.cons (by decide))
termination_by structural v
/-- Nor have the items of an array with the commas between them. -/
theorem isPrinted_compactItems (items : List Json) {depth : Nat} (h : AllPlain items depth) :
    IsPrinted (compactItems items) :=
  match items with
  | [] => isPrinted_nil
  | [item] => by
    rw [compactItems]
    exact isPrinted_compact item h.1
  | item :: next :: items => by
    rw [compactItems_cons_cons]
    exact (isPrinted_compact item h.1).append
      ((isPrinted_compactItems (next :: items) h.2).cons (by decide))
termination_by structural items
/-- Nor have the members of an object with their names. -/
theorem isPrinted_compactMembers (found : List (String × Json)) {depth : Nat}
    (h : MembersPlain found depth) : IsPrinted (compactMembers found) :=
  match found with
  | [] => isPrinted_nil
  | [(name, item)] => by
    rw [compactMembers]
    exact (isPrinted_quote name).append ((isPrinted_compact item h.1).cons (by decide))
  | (name, item) :: next :: found => by
    have hmore := (isPrinted_compactMembers (next :: found) h.2).cons (c := ',') (by decide)
    have hitem := (isPrinted_compact item h.1).cons (c := ':') (by decide)
    rw [compactMembers_cons_cons]
    exact ((isPrinted_quote name).append hitem).append hmore
termination_by structural found
end

end TypeCatalog.Json
