import TypeCatalog.Json.Reader
import TypeCatalog.Json.Writer
import TypeCatalog.Proofs.Text.Utf8

/-! # JSON values are read back

    The compact text of a value is read as that value, whatever stands after it: a string ends at
    its own closing quote, an array and an object at their own closing brackets, and only a number
    needs that no text follows that could go on with it. The values concerned nest no deeper than
    the reader follows, and their numbers are integers of sixty-four bits.

    The readers carry a proof that they leave a shorter text. Here only that text matters, so each
    reader is first given an equation for its outcome, in which what is left is a plain list. -/

set_option autoImplicit false

namespace TypeCatalog.Json

/-! ## Section 1: Outcomes -/

/-- What a reading gives, with the text it leaves as a plain list. -/
def Reading.outcome {α : Type} {s : List Char} (x : Reading α s) : Option (α × List Char) :=
  x.map fun (a, r) => (a, r.1)

section outcome

variable {α : Type} {s rest : List Char}

theorem Reading.eq_some_of_outcome {x : Reading α s} {a : α} (h : x.outcome = some (a, rest)) :
    ∃ hlt, x = some (a, ⟨rest, hlt⟩) := by
  cases x with
  | none => cases h
  | some p =>
    obtain ⟨b, r, hr⟩ := p
    cases h
    exact ⟨hr, rfl⟩

end outcome

/-! ## Section 2: Strings -/

theorem outcome_consText {s t : List Char} (c : Char) (h : s.length ≤ t.length)
    (x : Reading (List Char) s) :
    (consText c h x).outcome = x.outcome.map fun (cs, r) => (c :: cs, r) := by
  cases x with
  | none => rfl
  | some p => rfl

theorem hexDigit?_digitChar : ∀ d < 16, Text.hexDigit? (Nat.digitChar d) = some d := by
  decide

/-- Four digits that start with two zeros write a number of two digits. -/
theorem hexUnit?_low {n : Nat} (h : n < 256) :
    hexUnit? '0' '0' (Nat.digitChar (n / 16)) (Nat.digitChar (n % 16)) = some n := by
  have hzero : Text.hexDigit? '0' = some 0 := rfl
  have hhigh := hexDigit?_digitChar (n / 16) (by omega)
  have hlow := hexDigit?_digitChar (n % 16) (by omega)
  have hsum : ((0 * 16 + 0) * 16 + n / 16) * 16 + n % 16 = n := by omega
  simp only [hexUnit?, hzero, hhigh, hlow, Option.bind_eq_bind, Option.bind_some, hsum]
  rfl

theorem outcome_stringTail_close (rest : List Char) :
    (stringTail ('"' :: rest)).outcome = some ([], rest) := by
  rw [stringTail]
  rfl

theorem outcome_stringTail_letter {c d : Char} (hc : c ≠ 'u') (h : escaped? c = some d)
    (rest : List Char) :
    (stringTail ('\\' :: c :: rest)).outcome =
      (stringTail rest).outcome.map fun (cs, r) => (d :: cs, r) := by
  rw [stringTail, h]
  · exact outcome_consText d _ (stringTail rest)
  · intro a b c' d' r hu
    exact absurd hu hc

theorem outcome_stringTail_number {a b : Char} {n : Nat} (h : hexUnit? '0' '0' a b = some n)
    (hn : n < 0xD800) (rest : List Char) :
    (stringTail ('\\' :: 'u' :: '0' :: '0' :: a :: b :: rest)).outcome =
      (stringTail rest).outcome.map fun (cs, r) => (Char.ofNat n :: cs, r) := by
  have hlow : ¬(0xDC00 ≤ n ∧ n ≤ 0xDFFF) := by omega
  have hhigh : ¬(0xD800 ≤ n ∧ n ≤ 0xDBFF) := by omega
  rw [stringTail, h]
  simp only [hlow, hhigh, if_false]
  exact outcome_consText (Char.ofNat n) _ (stringTail rest)

theorem outcome_stringTail_plain {c : Char} (hquote : c ≠ '"') (hback : c ≠ '\\')
    (hcontrol : 0x20 ≤ c.toNat) (rest : List Char) :
    (stringTail (c :: rest)).outcome =
      (stringTail rest).outcome.map fun (cs, r) => (c :: cs, r) := by
  have hplain : ¬(c.toNat < 0x20 ∨ c = '\\') := by
    rintro (h | h)
    · omega
    · exact hback h
  rw [stringTail, if_neg hplain]
  · exact outcome_consText c _ (stringTail rest)
  · exact hquote
  · exact fun _ _ _ _ _ h _ => hback h
  · exact fun _ _ h _ => hback h

/-- A character is escaped by a letter that stands for it, by its number, or not at all. -/
theorem escapeChar_cases (c : Char) :
    (∃ a, a ≠ 'u' ∧ escaped? a = some c ∧ escapeChar c = ['\\', a]) ∨
    (c.toNat < 0x20 ∧ escapeChar c =
      ['\\', 'u', '0', '0', Nat.digitChar (c.toNat / 16), Nat.digitChar (c.toNat % 16)]) ∨
    (c ≠ '"' ∧ c ≠ '\\' ∧ 0x20 ≤ c.toNat ∧ escapeChar c = [c]) := by
  unfold escapeChar
  split
  · next hc => exact .inl ⟨'"', by decide, hc.symm ▸ rfl, rfl⟩
  split
  · next hc => exact .inl ⟨'\\', by decide, hc.symm ▸ rfl, rfl⟩
  split
  · next hc => exact .inl ⟨'b', by decide, hc.symm ▸ rfl, rfl⟩
  split
  · next hc => exact .inl ⟨'f', by decide, hc.symm ▸ rfl, rfl⟩
  split
  · next hc => exact .inl ⟨'n', by decide, hc.symm ▸ rfl, rfl⟩
  split
  · next hc => exact .inl ⟨'r', by decide, hc.symm ▸ rfl, rfl⟩
  split
  · next hc => exact .inl ⟨'t', by decide, hc.symm ▸ rfl, rfl⟩
  split
  · next hcontrol => exact .inr (.inl ⟨hcontrol, rfl⟩)
  · next hquote hback _ _ _ _ _ hcontrol =>
    exact .inr (.inr ⟨hquote, hback, Nat.not_lt.1 hcontrol, rfl⟩)

/-- Each character is read back from its escape. -/
theorem outcome_stringTail_escapeChar (c : Char) (rest : List Char) :
    (stringTail (escapeChar c ++ rest)).outcome =
      (stringTail rest).outcome.map fun (cs, r) => (c :: cs, r) := by
  obtain ⟨a, ha, hstands, hc⟩ | ⟨hcontrol, hc⟩ | ⟨hquote, hback, hcontrol, hc⟩ :=
    escapeChar_cases c
  · rw [hc]
    exact outcome_stringTail_letter ha hstands rest
  · have hunit : hexUnit? '0' '0' (Nat.digitChar (c.toNat / 16)) (Nat.digitChar (c.toNat % 16)) =
        some c.toNat := hexUnit?_low (by omega)
    have hread := outcome_stringTail_number hunit (by omega) rest
    rw [Char.ofNat_toNat] at hread
    rw [hc]
    exact hread
  · rw [hc]
    exact outcome_stringTail_plain hquote hback hcontrol rest

/-- A text is read back up to the quote that closes it. -/
theorem outcome_stringTail (text rest : List Char) :
    (stringTail (text.flatMap escapeChar ++ '"' :: rest)).outcome = some (text, rest) := by
  induction text with
  | nil => exact outcome_stringTail_close rest
  | cons c text ih =>
    rw [List.flatMap_cons, List.append_assoc, outcome_stringTail_escapeChar, ih]
    rfl

/-! ## Section 3: Numbers -/

/-- Text that does not go on with a number. -/
def EndsNumber (rest : List Char) : Prop :=
  ∀ c ∈ rest.head?, c.isDigit = false ∧ c ≠ '.' ∧ c ≠ 'e' ∧ c ≠ 'E'

theorem digits_append {ds rest : List Char} (hne : ds ≠ []) (hds : ∀ d ∈ ds, d.isDigit = true)
    (hrest : EndsNumber rest) : (digits (ds ++ rest)).outcome = some (ds, rest) := by
  have htake : (ds ++ rest).takeWhile Char.isDigit = ds := by
    rw [List.takeWhile_append_of_pos hds]
    cases rest with
    | nil => simp
    | cons c rest => simp [(hrest c rfl).1]
  have hdrop : (ds ++ rest).dropWhile Char.isDigit = rest := by
    rw [List.dropWhile_append_of_pos hds]
    cases rest with
    | nil => rfl
    | cons c rest => simp [(hrest c rfl).1]
  unfold digits
  split
  · next h => exact absurd (htake.symm.trans h) hne
  · next d ds' h =>
    have hword : d :: ds' = ds := h.symm.trans htake
    simp only [Reading.outcome, Option.map_some, hword, hdrop]

theorem fractionPart_eq_none {rest : List Char} (h : EndsNumber rest) :
    fractionPart rest = some (none, ⟨rest, Nat.le_refl _⟩) := by
  cases rest with
  | nil => rfl
  | cons c rest =>
    rw [fractionPart]
    rintro t heq
    exact absurd (List.cons.inj heq).1 (h c rfl).2.1

theorem exponentPart_eq_none {rest : List Char} (h : EndsNumber rest) :
    exponentPart rest = some (none, ⟨rest, Nat.le_refl _⟩) := by
  cases rest with
  | nil => rfl
  | cons c rest =>
    have hexponent : ¬(c = 'e' ∨ c = 'E') := not_or.2 (h c rfl).2.2
    unfold exponentPart
    exact if_neg hexponent

theorem natOfDigits_toDigits (n : Nat) : natOfDigits (Nat.toDigits 10 n) = n := by
  have hdigits : Nat.ofDigitChars 10 (Nat.toDigits 10 n) 0 = n := Nat.ofDigitChars_ten_toDigits
  simp only [Nat.ofDigitChars, Nat.mul_comm 10] at hdigits
  exact hdigits

theorem exists_toDigits_eq_cons (n : Nat) :
    ∃ d ds, Nat.toDigits 10 n = d :: ds ∧ d.isDigit = true := by
  have hne : Nat.toDigits 10 n ≠ [] := Nat.toDigits_ne_nil
  obtain ⟨d, ds, heq⟩ := List.exists_cons_of_ne_nil hne
  have hmem : d ∈ Nat.toDigits 10 n := heq ▸ List.mem_cons_self
  exact ⟨d, ds, heq, Nat.isDigit_of_mem_toDigits (by decide) (by decide) hmem⟩

theorem toList_toString_ofNat (n : Nat) : (toString (Int.ofNat n)).toList = Nat.toDigits 10 n := by
  show (toString n).toList = _
  rw [Nat.toString_eq_ofList_toDigits, String.toList_ofList]

theorem toList_toString_negSucc (n : Nat) :
    (toString (Int.negSucc n)).toList = '-' :: Nat.toDigits 10 (n + 1) := by
  show ("-" ++ toString (n + 1)).toList = _
  rw [String.toList_append, Nat.toString_eq_ofList_toDigits,
    String.toList_ofList (l := Nat.toDigits _ _)]
  rfl

/-- Only zero starts with a zero. -/
theorem head?_toDigits_ne_zero {n : Nat} (h : 0 < n) : (Nat.toDigits 10 n).head? ≠ some '0' := by
  induction n using Nat.strongRecOn with
  | ind n ih =>
    by_cases hsmall : n < 10
    · rw [Nat.toDigits_of_lt_base hsmall]
      intro heq
      have hvalue := Nat.toNat_digitChar_of_lt_ten hsmall
      rw [Option.some.inj heq] at hvalue
      have hzero : '0'.toNat = 48 := rfl
      omega
    · have hfront := ih (n / 10) (by omega) (by omega)
      obtain ⟨d, ds, hds, -⟩ := exists_toDigits_eq_cons (n / 10)
      rw [hds] at hfront
      rw [Nat.toDigits_of_base_le (by omega) (by omega), hds]
      exact hfront

theorem not_leading_zero (n : Nat) :
    ¬((Nat.toDigits 10 n).head? = some '0' ∧ (Nat.toDigits 10 n).length ≠ 1) := by
  rintro ⟨hhead, hlength⟩
  by_cases hn : n = 0
  · subst hn
    exact hlength rfl
  · exact head?_toDigits_ne_zero (Nat.pos_of_ne_zero hn) hhead

/-- The integers that are read as integers. -/
def IsSmall (value : Int) : Prop :=
  -9223372036854775808 ≤ value ∧ value ≤ 18446744073709551615

theorem ofParts_integer {negative : Bool} {whole : List Char} {v : Int}
    (hv : (if negative then -(natOfDigits whole : Int) else natOfDigits whole) = v)
    (hsign : negative = true → v ≠ 0) (hsmall : IsSmall v) :
    ofParts negative whole none none = some (integer v) := by
  have hinteger : (negative && decide (v = 0)) = false := by
    cases negative with
    | false => rfl
    | true => exact decide_eq_false (hsign rfl)
  simp [ofParts, hv, hinteger, hsmall.1, hsmall.2]

/-- The digits of a number are read as the number, with the sign before them. -/
theorem outcome_unsigned {negative : Bool} {n : Nat} {v : Int} {rest : List Char}
    (hv : (if negative then -(n : Int) else n) = v) (hsign : negative = true → v ≠ 0)
    (hsmall : IsSmall v) (hrest : EndsNumber rest) :
    (unsigned negative (Nat.toDigits 10 n ++ rest)).outcome = some (integer v, rest) := by
  have hds : ∀ d ∈ Nat.toDigits 10 n, d.isDigit = true := fun d hd =>
    Nat.isDigit_of_mem_toDigits (by decide) (by decide) hd
  obtain ⟨hlt, hdigits⟩ :=
    Reading.eq_some_of_outcome (digits_append Nat.toDigits_ne_nil hds hrest)
  have hparts := ofParts_integer (natOfDigits_toDigits n ▸ hv) hsign hsmall
  simp only [unsigned, hdigits, Option.bind_eq_bind, Option.bind_some, not_leading_zero, if_false,
    fractionPart_eq_none hrest, exponentPart_eq_none hrest, hparts]
  rfl

/-- An integer is read back, where no text follows that goes on with a number. -/
theorem outcome_number {v : Int} (hsmall : IsSmall v) {rest : List Char} (hrest : EndsNumber rest) :
    (number ((toString v).toList ++ rest)).outcome = some (integer v, rest) := by
  cases v with
  | ofNat n =>
    have hread : (unsigned false (Nat.toDigits 10 n ++ rest)).outcome =
        some (integer (Int.ofNat n), rest) := outcome_unsigned rfl nofun hsmall hrest
    obtain ⟨d, ds, hds, hd⟩ := exists_toDigits_eq_cons n
    rw [toList_toString_ofNat]
    rw [hds, List.cons_append] at hread ⊢
    rw [number]
    · exact hread
    · rintro t heq
      rw [(List.cons.inj heq).1] at hd
      exact absurd hd (by decide)
  | negSucc n =>
    have hread : (unsigned true (Nat.toDigits 10 (n + 1) ++ rest)).outcome =
        some (integer (Int.negSucc n), rest) := outcome_unsigned rfl nofun hsmall hrest
    obtain ⟨hlt, hread⟩ := Reading.eq_some_of_outcome hread
    rw [toList_toString_negSucc, List.cons_append, number, hread]
    rfl

/-! ## Section 4: Values -/

section values

variable {depth : Nat} {rest : List Char}

theorem outcome_value_string (t : List Char) : (value depth ('"' :: t)).outcome =
    (stringTail t).outcome.map fun (text, r) => (string (String.ofList text), r) := by
  have hskip : skipSpace ('"' :: t) = '"' :: t := rfl
  rw [value]
  split
  case h_5 u heq =>
    obtain rfl : t = u := (List.cons.inj heq).2
    cases stringTail t with
    | none => rfl
    | some p => rfl
  all_goals simp_all

/-- What starts neither with a blank nor as any other value does is read as a number. -/
theorem outcome_value_number {c : Char} {t : List Char} (hspace : isSpace c = false)
    (hother : c ∉ ['n', 't', 'f', '"', '[', '{']) :
    (value depth (c :: t)).outcome = (number (c :: t)).outcome := by
  have hskip : skipSpace (c :: t) = c :: t := by
    rw [skipSpace, List.dropWhile_cons_of_neg (by simp [hspace])]
  have hne {a : Char} {u : List Char} (hu : skipSpace (c :: t) = a :: u)
      (ha : a ∈ ['n', 't', 'f', '"', '[', '{']) : False := by
    rw [hskip] at hu
    exact hother ((List.cons.inj hu).1 ▸ ha)
  rw [value]
  split
  · next h => exact absurd (hskip.symm.trans h) (List.cons_ne_nil c t)
  · next h => exact (hne h (by decide)).elim
  · next h => exact (hne h (by decide)).elim
  · next h => exact (hne h (by decide)).elim
  · next h => exact (hne h (by decide)).elim
  · next h => exact (hne h (by decide)).elim
  · next h => exact (hne h (by decide)).elim
  · next h =>
    obtain ⟨rfl, rfl⟩ := List.cons.inj (hskip.symm.trans h)
    cases number (c :: t) with
    | none => rfl
    | some p => rfl

theorem outcome_value_array {t : List Char} (h : ∀ r, skipSpace t ≠ ']' :: r) :
    (value (depth + 1) ('[' :: t)).outcome =
      (elements depth t).outcome.map fun (items, r) => (array items, r) := by
  have hskip : skipSpace ('[' :: t) = '[' :: t := rfl
  rw [value]
  split
  case h_6 u heq =>
    obtain rfl : t = u := (List.cons.inj heq).2
    dsimp only
    split
    · next r hclose => exact absurd hclose (h r)
    · cases elements depth t with
      | none => rfl
      | some p => rfl
  all_goals simp_all

theorem outcome_value_object {t : List Char} (h : ∀ r, skipSpace t ≠ '}' :: r) :
    (value (depth + 1) ('{' :: t)).outcome =
      (members depth t).outcome.map fun (found, r) => (object found, r) := by
  have hskip : skipSpace ('{' :: t) = '{' :: t := rfl
  rw [value]
  split
  case h_7 u heq =>
    obtain rfl : t = u := (List.cons.inj heq).2
    dsimp only
    split
    · next r hclose => exact absurd hclose (h r)
    · cases members depth t with
      | none => rfl
      | some p => rfl
  all_goals simp_all

/-- An item of an array, and how the array goes on after it. -/
theorem outcome_elements {s q : List Char} {item : Json}
    (h : (value depth s).outcome = some (item, q)) :
    (elements depth s).outcome =
      match skipSpace q with
      | ']' :: t => some ([item], t)
      | ',' :: t => (elements depth t).outcome.map fun (items, r) => (item :: items, r)
      | _ => none := by
  obtain ⟨hlt, h⟩ := Reading.eq_some_of_outcome h
  rw [elements, h]
  dsimp only
  split
  case h_1 t heq =>
    simp only [heq]
    rfl
  case h_2 t heq =>
    simp only [heq]
    cases elements depth t with
    | none => rfl
    | some p => rfl
  case h_3 hclose hcomma =>
    split
    · next t heq => exact absurd heq (hclose t)
    · next t heq => exact absurd heq (hcomma t)
    · rfl

theorem outcome_elements_last {s : List Char} {item : Json}
    (h : (value depth s).outcome = some (item, ']' :: rest)) :
    (elements depth s).outcome = some ([item], rest) := by
  rw [outcome_elements h]
  rfl

theorem outcome_elements_more {s t : List Char} {item : Json} {items : List Json}
    (h : (value depth s).outcome = some (item, ',' :: t))
    (hmore : (elements depth t).outcome = some (items, rest)) :
    (elements depth s).outcome = some (item :: items, rest) := by
  have hskip : skipSpace (',' :: t) = ',' :: t := rfl
  rw [outcome_elements h, hskip]
  simp only [hmore]
  rfl

/-- A member of an object, and how the object goes on after it. -/
theorem outcome_members {t u q name : List Char} {item : Json}
    (hname : (stringTail t).outcome = some (name, ':' :: u))
    (h : (value depth u).outcome = some (item, q)) :
    (members depth ('"' :: t)).outcome =
      match skipSpace q with
      | '}' :: v => some ([(String.ofList name, item)], v)
      | ',' :: v => (members depth v).outcome.map fun (found, r) =>
          ((String.ofList name, item) :: found, r)
      | _ => none := by
  obtain ⟨hlt, hname⟩ := Reading.eq_some_of_outcome hname
  obtain ⟨hlt', h⟩ := Reading.eq_some_of_outcome h
  rw [members]
  split
  case h_2 hquote => exact absurd rfl (hquote t)
  case h_1 t' hquote =>
  obtain rfl : t = t' := (List.cons.inj hquote).2
  rw [hname]
  dsimp only
  split
  case h_2 hcolon => exact absurd rfl (hcolon u)
  case h_1 u' hcolon =>
  obtain rfl : u = u' := (List.cons.inj hcolon).2
  rw [h]
  dsimp only
  split
  case h_1 v heq =>
    simp only [heq]
    rfl
  case h_2 v heq =>
    simp only [heq]
    cases members depth v with
    | none => rfl
    | some p => rfl
  case h_3 hclose hcomma =>
    split
    · next v heq => exact absurd heq (hclose v)
    · next v heq => exact absurd heq (hcomma v)
    · rfl

theorem outcome_members_last {t u name : List Char} {item : Json}
    (hname : (stringTail t).outcome = some (name, ':' :: u))
    (h : (value depth u).outcome = some (item, '}' :: rest)) :
    (members depth ('"' :: t)).outcome = some ([(String.ofList name, item)], rest) := by
  rw [outcome_members hname h]
  rfl

theorem outcome_members_more {t u v name : List Char} {item : Json} {found : List (String × Json)}
    (hname : (stringTail t).outcome = some (name, ':' :: u))
    (h : (value depth u).outcome = some (item, ',' :: v))
    (hmore : (members depth v).outcome = some (found, rest)) :
    (members depth ('"' :: t)).outcome = some ((String.ofList name, item) :: found, rest) := by
  have hskip : skipSpace (',' :: v) = ',' :: v := rfl
  rw [outcome_members hname h, hskip]
  simp only [hmore]
  rfl

end values

/-! ## Section 5: The text of a value -/

mutual
/-- Values that nest at most `depth` arrays and objects and whose numbers are small integers. -/
def Plain : Json → Nat → Prop
  | integer v, _ => IsSmall v
  | decimal _, _ => False
  | array items, depth => ∃ below, depth = below + 1 ∧ AllPlain items below
  | object members, depth => ∃ below, depth = below + 1 ∧ MembersPlain members below
  | _, _ => True
/-- The items of an array. -/
def AllPlain : List Json → Nat → Prop
  | [], _ => True
  | item :: items, depth => item.Plain depth ∧ AllPlain items depth
/-- The members of an object. -/
def MembersPlain : List (String × Json) → Nat → Prop
  | [], _ => True
  | (_, item) :: members, depth => item.Plain depth ∧ MembersPlain members depth
end

section text

variable {depth : Nat}

theorem endsNumber_cons {c : Char} (h : c ∈ [',', ']', '}']) (rest : List Char) :
    EndsNumber (c :: rest) := by
  rintro d ⟨⟩
  have hall : ∀ c ∈ [',', ']', '}'], c.isDigit = false ∧ c ≠ '.' ∧ c ≠ 'e' ∧ c ≠ 'E' := by simp
  exact hall c h

theorem compact_integer (v : Int) : compact (integer v) = (toString v).toList := by
  simp [compact, word]

theorem compact_string (text : String) : compact (string text) = quote text := by
  simp [compact, word]

/-- The text of an integer starts with a digit or a minus sign. -/
theorem exists_integer_eq_cons (v : Int) :
    ∃ c t, (toString v).toList = c :: t ∧ isSpace c = false ∧ c ≠ ']' ∧
      c ∉ ['n', 't', 'f', '"', '[', '{'] := by
  cases v with
  | ofNat n =>
    obtain ⟨d, ds, hds, hd⟩ := exists_toDigits_eq_cons n
    have hne {a : Char} (ha : a.isDigit = false) : d ≠ a := by
      rintro rfl
      rw [hd] at ha
      cases ha
    have hall : ∀ a ∈ ['n', 't', 'f', '"', '[', '{'], a.isDigit = false := by simp
    have hspace : isSpace d = false := by
      simp [isSpace, hne (show ' '.isDigit = false from rfl),
        hne (show '\n'.isDigit = false from rfl), hne (show '\t'.isDigit = false from rfl),
        hne (show '\r'.isDigit = false from rfl)]
    exact ⟨d, ds, (toList_toString_ofNat n).trans hds, hspace, hne rfl,
      fun hmem => hne (hall d hmem) rfl⟩
  | negSucc n => exact ⟨_, _, toList_toString_negSucc n, by decide⟩

/-- The text of a value starts neither with a blank nor as an array ends. -/
theorem exists_compact_eq_cons {v : Json} (h : v.Plain depth) :
    ∃ c t, compact v = c :: t ∧ isSpace c = false ∧ c ≠ ']' := by
  cases v with
  | null => exact ⟨_, _, rfl, rfl, by decide⟩
  | bool value =>
    cases value with
    | true => exact ⟨_, _, rfl, rfl, by decide⟩
    | false => exact ⟨_, _, rfl, rfl, by decide⟩
  | integer v =>
    obtain ⟨c, t, heq, hspace, hend, -⟩ := exists_integer_eq_cons v
    exact ⟨c, t, (compact_integer v).trans heq, hspace, hend⟩
  | decimal text => exact h.elim
  | string text => exact ⟨_, _, compact_string text, rfl, by decide⟩
  | array items => exact ⟨_, _, compact.eq_1 items, rfl, by decide⟩
  | object members => exact ⟨_, _, compact.eq_2 members, rfl, by decide⟩

theorem compactItems_cons_cons (item next : Json) (items : List Json) :
    compactItems (item :: next :: items) = compact item ++ ',' :: compactItems (next :: items) := by
  simp [compactItems]

theorem compactMembers_cons_cons (name : String) (item : Json) (next : String × Json)
    (found : List (String × Json)) :
    compactMembers ((name, item) :: next :: found) =
      quote name ++ ':' :: compact item ++ ',' :: compactMembers (next :: found) := by
  simp [compactMembers]

theorem compactItems_cons (item : Json) (items : List Json) :
    ∃ t, compactItems (item :: items) = compact item ++ t := by
  cases items with
  | nil => exact ⟨[], (List.append_nil _).symm⟩
  | cons next items => exact ⟨_, compactItems_cons_cons item next items⟩

theorem compactMembers_cons (m : String × Json) (found : List (String × Json)) :
    ∃ t, compactMembers (m :: found) = '"' :: t := by
  obtain ⟨name, item⟩ := m
  cases found with
  | nil => exact ⟨_, rfl⟩
  | cons next found => exact ⟨_, compactMembers_cons_cons name item next found⟩

/-- The items of an array are not taken for its end. -/
theorem skipSpace_compactItems {items : List Json} (hne : items ≠ []) (h : AllPlain items depth)
    (rest r : List Char) : skipSpace (compactItems items ++ rest) ≠ ']' :: r := by
  obtain ⟨item, items, rfl⟩ := List.exists_cons_of_ne_nil hne
  obtain ⟨t, ht⟩ := compactItems_cons item items
  obtain ⟨c, u, hc, hspace, hend⟩ := exists_compact_eq_cons h.1
  rw [ht, hc, skipSpace, List.cons_append, List.cons_append,
    List.dropWhile_cons_of_neg (by simp [hspace])]
  exact fun heq => hend (List.cons.inj heq).1

theorem skipSpace_compactMembers {found : List (String × Json)} (hne : found ≠ [])
    (rest r : List Char) : skipSpace (compactMembers found ++ rest) ≠ '}' :: r := by
  obtain ⟨m, found, rfl⟩ := List.exists_cons_of_ne_nil hne
  obtain ⟨t, ht⟩ := compactMembers_cons m found
  rw [ht]
  exact fun heq => absurd (List.cons.inj heq).1 (by decide)

theorem outcome_stringTail_quote (text : String) (rest : List Char) :
    ∃ t, quote text ++ rest = '"' :: t ∧ (stringTail t).outcome = some (text.toList, rest) := by
  refine ⟨text.toList.flatMap escapeChar ++ '"' :: rest, ?_, outcome_stringTail text.toList rest⟩
  simp [quote]

mutual
/-- The text of a value is read as the value. -/
theorem outcome_value_compact (v : Json) {depth : Nat} (h : v.Plain depth) {rest : List Char}
    (hrest : EndsNumber rest) : (value depth (compact v ++ rest)).outcome = some (v, rest) :=
  match v with
  | null => by
    rw [value]
    rfl
  | bool true => by
    rw [value]
    rfl
  | bool false => by
    rw [value]
    rfl
  | integer v => by
    obtain ⟨c, t, heq, hspace, -, hother⟩ := exists_integer_eq_cons v
    have hread := outcome_number h hrest
    rw [compact_integer]
    rw [heq, List.cons_append] at hread ⊢
    rw [outcome_value_number hspace hother, hread]
  | decimal text => h.elim
  | string text => by
    obtain ⟨t, ht, hread⟩ := outcome_stringTail_quote text rest
    rw [compact_string, ht, outcome_value_string, hread]
    simp
  | array items => by
    obtain ⟨below, rfl, h⟩ := h
    rw [compact, List.append_assoc, List.cons_append, List.singleton_append]
    by_cases hne : items = []
    · subst hne
      rw [value]
      rfl
    · have hread := outcome_elements_compact items hne h rest
      rw [outcome_value_array (skipSpace_compactItems hne h _), hread]
      rfl
  | object found => by
    obtain ⟨below, rfl, h⟩ := h
    rw [compact, List.append_assoc, List.cons_append, List.singleton_append]
    by_cases hne : found = []
    · subst hne
      rw [value]
      rfl
    · have hread := outcome_members_compact found hne h rest
      rw [outcome_value_object (skipSpace_compactMembers hne _), hread]
      rfl
termination_by structural v
/-- The items of an array are read up to its end. -/
theorem outcome_elements_compact (items : List Json) (hne : items ≠ []) {depth : Nat}
    (h : AllPlain items depth) (rest : List Char) :
    (elements depth (compactItems items ++ ']' :: rest)).outcome = some (items, rest) :=
  match items with
  | [] => absurd rfl hne
  | [item] =>
    outcome_elements_last
      (outcome_value_compact item h.1 (endsNumber_cons (c := ']') (by decide) rest))
  | item :: next :: items => by
    have hmore := outcome_elements_compact (next :: items) (List.cons_ne_nil _ _) h.2 rest
    have hitem := outcome_value_compact item h.1
      (endsNumber_cons (c := ',') (by decide) (compactItems (next :: items) ++ ']' :: rest))
    rw [compactItems_cons_cons, List.append_assoc]
    exact outcome_elements_more hitem hmore
termination_by structural items
/-- The members of an object are read up to its end. -/
theorem outcome_members_compact (found : List (String × Json)) (hne : found ≠ []) {depth : Nat}
    (h : MembersPlain found depth) (rest : List Char) :
    (members depth (compactMembers found ++ '}' :: rest)).outcome = some (found, rest) :=
  match found with
  | [] => absurd rfl hne
  | [(name, item)] => by
    obtain ⟨t, ht, hname⟩ := outcome_stringTail_quote name (':' :: (compact item ++ '}' :: rest))
    have hitem := outcome_value_compact item h.1 (endsNumber_cons (c := '}') (by decide) rest)
    have hread := outcome_members_last hname hitem
    rw [String.ofList_toList] at hread
    rw [compactMembers, List.append_assoc, List.cons_append, ht]
    exact hread
  | (name, item) :: next :: found => by
    have hmore := outcome_members_compact (next :: found) (List.cons_ne_nil _ _) h.2 rest
    obtain ⟨t, ht, hname⟩ := outcome_stringTail_quote name
      (':' :: (compact item ++ ',' :: (compactMembers (next :: found) ++ '}' :: rest)))
    have hitem := outcome_value_compact item h.1
      (endsNumber_cons (c := ',') (by decide) (compactMembers (next :: found) ++ '}' :: rest))
    have hread := outcome_members_more hname hitem hmore
    rw [String.ofList_toList] at hread
    rw [compactMembers_cons_cons, List.append_assoc, List.append_assoc, List.cons_append,
      List.cons_append, ht]
    exact hread
termination_by structural found
end

end text

/-- The compact text of a value is read as the value. -/
theorem ofText?_compact {v : Json} (h : v.Plain depthLimit) : ofText? (compact v) = some v := by
  have hread := outcome_value_compact v h (show EndsNumber [] from nofun)
  rw [List.append_nil] at hread
  obtain ⟨hlt, hread⟩ := Reading.eq_some_of_outcome hread
  rw [ofText?, hread]
  rfl

/-- The bytes of the compact text of a value are read as the value. -/
theorem ofBytes?_compact {v : Json} (h : v.Plain depthLimit) :
    ofBytes? (Text.Utf8.encode (compact v)) = some v := by
  rw [ofBytes?, Text.Utf8.decode?_encode, Option.bind_some, ofText?_compact h]

end TypeCatalog.Json
