import TypeCatalog.Proofs.Toml.Rewriting

/-! # Texts between quotation marks

    A text can be written as it is, if no character of it means something between quotation marks,
    and every text can be written with the others given by their numbers. -/

set_option autoImplicit false

namespace TypeCatalog.Toml

/-! ## Section 1: Single characters -/

/-- `s` stands for the character `c` in a text. -/
structure SpellsChar (s : List Char) (c : Char) : Prop where
  ne_nil : s ≠ []
  no_quote : s.head? ≠ some '"'
  reads (r : List Char) : (quotedTail (s ++ r)).outcome =
    (quotedTail r).outcome.map fun (cs, left) => (c :: cs, left)

/-- Whether a character stands for itself between quotation marks. -/
def isPlain (c : Char) : Bool := isPrintable c && c != '"' && c != '\\'

theorem spellsChar_plain {c : Char} (h : isPlain c = true) : SpellsChar [c] c := by
  simp only [isPlain, Bool.and_eq_true, bne_iff_ne] at h
  obtain ⟨⟨hprintable, hquote⟩, hescape⟩ := h
  refine ⟨by simp, by simpa using hquote, fun r => ?_⟩
  show (quotedTail (c :: r)).outcome = _
  rw [outcome_quotedTail_char r hquote hescape, if_pos hprintable]

/-- A character by its number. -/
def numbered (c : Char) : List Char :=
  ['\\', 'u', '0', '0', Nat.digitChar (c.toNat / 16), Nat.digitChar (c.toNat % 16)]

theorem codePoint?_digitChar : ∀ n < 128,
    codePoint? ['0', '0', Nat.digitChar (n / 16), Nat.digitChar (n % 16)] =
      some (Char.ofNat n) := by
  decide

theorem spellsChar_numbered {c : Char} (h : c.toNat < 128) : SpellsChar (numbered c) c := by
  refine ⟨by simp [numbered], by simp [numbered], fun r => ?_⟩
  have hcode := codePoint?_digitChar c.toNat h
  rw [Char.ofNat_toNat] at hcode
  have hescape : (escape ('u' :: '0' :: '0' :: Nat.digitChar (c.toNat / 16) ::
      Nat.digitChar (c.toNat % 16) :: r)).outcome = .ok (c, r) := by
    rw [escape, hcode]
    rfl
  show (quotedTail ('\\' :: 'u' :: '0' :: '0' :: _ :: _ :: r)).outcome = _
  rw [outcome_quotedTail_escape, hescape]
  rfl

/-! ## Section 2: Texts -/

section texts

variable {write : Char → List Char} {cs rest : List Char}

theorem outcome_quotedTail_spelled (h : ∀ c ∈ cs, SpellsChar (write c) c) (rest : List Char) :
    (quotedTail (cs.flatMap write ++ '"' :: rest)).outcome = .ok (cs, rest) := by
  induction cs with
  | nil => exact outcome_quotedTail_quote rest
  | cons c cs ih =>
    have hhead := h c List.mem_cons_self
    have htail := ih fun d hd => h d (List.mem_cons_of_mem c hd)
    rw [List.flatMap_cons, List.append_assoc, hhead.reads, htail]
    rfl

/-- A text that is written character by character. -/
theorem spells_of_chars (h : ∀ c ∈ cs, SpellsChar (write c) c) (hrest : rest.head? ≠ some '"') :
    Spells ('"' :: (cs.flatMap write ++ '"' :: rest)) rest (String.ofList cs) where
  quote := rfl
  ends := hrest
  value room := by
    have hsingle : ∀ r, cs.flatMap write ++ '"' :: rest ≠ '"' :: '"' :: r := by
      intro r heq
      cases cs with
      | nil =>
        obtain rfl : rest = '"' :: r := (List.cons.inj heq).2
        exact hrest rfl
      | cons c cs =>
        have hc := h c List.mem_cons_self
        obtain ⟨d, s, hs⟩ := List.exists_cons_of_ne_nil hc.ne_nil
        rw [List.flatMap_cons, hs] at heq
        apply hc.no_quote
        rw [hs, (List.cons.inj heq).1]
        rfl
    rw [outcome_value_quoted room hsingle, outcome_quotedTail_spelled h]
    rfl

/-- A text that is written as it is. -/
theorem spells_plain (h : ∀ c ∈ cs, isPlain c = true) (hrest : rest.head? ≠ some '"') :
    Spells ('"' :: (cs ++ '"' :: rest)) rest (String.ofList cs) := by
  have hspells :
      Spells ('"' :: (cs.flatMap (fun c => [c]) ++ '"' :: rest)) rest (String.ofList cs) :=
    spells_of_chars (fun c hc => spellsChar_plain (h c hc)) hrest
  rwa [List.flatMap_singleton'] at hspells

end texts

/-- Whether a character stands for itself and does not start the reference to a variable. -/
def isLiteral (c : Char) : Bool := isPlain c && c != '$'

theorem isLiteral_iff {c : Char} : isLiteral c = true ↔ isPlain c = true ∧ c ≠ '$' := by
  rw [isLiteral, Bool.and_eq_true, bne_iff_ne]

/-- A character as it is written in any text: by its number, if it does not stand for itself. -/
def writeChar (c : Char) : List Char := if isLiteral c then [c] else numbered c

/-- A text between quotation marks. -/
def quoted (w : String) : List Char := '"' :: (w.toList.flatMap writeChar ++ ['"'])

/-- Only characters with small numbers are written in another way. -/
theorem isLiteral_of_le {c : Char} (h : 128 ≤ c.toNat) : isLiteral c = true := by
  have hne : ∀ d : Char, d.toNat < 128 → c ≠ d := by
    rintro d hd rfl
    omega
  have hprintable : isPrintable c = true := by
    simp only [isPrintable, Bool.or_eq_true, Bool.and_eq_true, decide_eq_true_eq]
    omega
  have hquote := hne '"' (by decide)
  have hescape := hne '\\' (by decide)
  have hdollar := hne '$' (by decide)
  simp [isLiteral, isPlain, hprintable, hquote, hescape, hdollar]

/-- A character is written as it is, or it is an ASCII character that is written by its number. -/
theorem writeChar_cases (c : Char) :
    (writeChar c = [c] ∧ isPlain c = true ∧ c ≠ '$') ∨
      (writeChar c = numbered c ∧ c.toNat < 128) := by
  unfold writeChar
  by_cases h : isLiteral c = true
  · rw [if_pos h]
    exact .inl ⟨rfl, isLiteral_iff.1 h⟩
  · rw [if_neg h]
    exact .inr ⟨rfl, Nat.lt_of_not_le fun hc => h (isLiteral_of_le hc)⟩

theorem spellsChar_writeChar (c : Char) : SpellsChar (writeChar c) c := by
  obtain ⟨hwrite, hplain, -⟩ | ⟨hwrite, hsmall⟩ := writeChar_cases c
  · rw [hwrite]
    exact spellsChar_plain hplain
  · rw [hwrite]
    exact spellsChar_numbered hsmall

theorem spells_quoted (w : String) {rest : List Char} (hrest : rest.head? ≠ some '"') :
    Spells (quoted w ++ rest) rest w := by
  have hspells : Spells _ rest (String.ofList w.toList) :=
    spells_of_chars (fun c _ => spellsChar_writeChar c) hrest
  rw [String.ofList_toList] at hspells
  simpa [quoted] using hspells

/-- What is written for a character starts no reference. -/
theorem dollar_notMem_writeChar (c : Char) : '$' ∉ writeChar c := by
  obtain ⟨hwrite, -, hdollar⟩ | ⟨hwrite, hsmall⟩ := writeChar_cases c
  · rw [hwrite]
    simpa using hdollar.symm
  · have hdigit : ∀ n < 16, Nat.digitChar n ≠ '$' := by decide
    have hhigh := hdigit (c.toNat / 16) (by omega)
    have hlow := hdigit (c.toNat % 16) (by omega)
    rw [hwrite]
    simp [numbered, hhigh.symm, hlow.symm]

theorem dollar_notMem_quoted (w : String) : '$' ∉ quoted w := by
  simp [quoted, dollar_notMem_writeChar]

end TypeCatalog.Toml
