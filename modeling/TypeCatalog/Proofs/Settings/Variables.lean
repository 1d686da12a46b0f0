import TypeCatalog.Settings.Variables

/-! # Parts of texts with references

    The text with the values of variables is put together from the parts of a text, as long as no
    reference goes over the border between them. -/

set_option autoImplicit false

namespace TypeCatalog.Settings

/-! ## Section 1: The pieces of parts -/

/-- Every reference that a text opens is closed in it. -/
def ClosesReferences (s : List Char) : Prop :=
  ∀ front left, s = front ++ '$' :: '\x7b' :: left → '\x7d' ∈ left

theorem closesReferences_of_notMem {s : List Char} (h : '$' ∉ s) : ClosesReferences s := by
  rintro front left rfl
  simp at h

theorem ClosesReferences.of_append (front : List Char) {left : List Char}
    (h : ClosesReferences (front ++ left)) : ClosesReferences left := by
  rintro p q rfl
  exact h (front ++ p) q (List.append_assoc ..).symm

theorem referenceTail_eq_some_iff {s name left : List Char} :
    referenceTail s = some (name, left) ↔ s = name ++ '\x7d' :: left ∧ '\x7d' ∉ name := by
  induction s generalizing name with
  | nil => simp [referenceTail]
  | cons c s ih =>
    by_cases hc : c = '\x7d'
    · subst hc
      cases name with
      | nil => simp [referenceTail, eq_comm]
      | cons d name =>
        simp only [referenceTail, if_true, List.cons_append, List.cons.injEq, List.mem_cons]
        grind
    · cases name with
      | nil => simp [referenceTail, hc]
      | cons d name =>
        simp only [referenceTail, if_neg hc, Option.map_eq_some_iff, Prod.exists]
        grind

/-- A text without the mark of a reference is plain. -/
theorem variablePieces_plain {plain : List Char} (h : '$' ∉ plain) (after : List Char) :
    variablePieces (plain ++ after) = plain.map .plain ++ variablePieces after := by
  induction plain with
  | nil => rfl
  | cons c plain ih =>
    obtain ⟨hc, hplain⟩ := not_or.1 (fun hmem => h (List.mem_cons.2 hmem))
    have hne : ∀ rest, c = '$' → plain ++ after = '\x7b' :: rest → False :=
      fun _ heq _ => hc heq.symm
    rw [List.cons_append, variablePieces, ih hplain]
    · rfl
    · exact hne

/-- A reference in front of a text. -/
theorem variablePieces_reference {c : Char} {name : List Char} (h : '\x7d' ∉ c :: name)
    (after : List Char) :
    variablePieces ('$' :: '\x7b' :: (c :: name ++ '\x7d' :: after)) =
      .reference (c :: name) :: variablePieces after := by
  have hfound : referenceTail (c :: name ++ '\x7d' :: after) = some (c :: name, after) :=
    referenceTail_eq_some_iff.2 ⟨rfl, h⟩
  rw [variablePieces]
  split
  · next c' name' left hfound' =>
    cases hfound.symm.trans hfound'
    rfl
  · next hne => exact absurd hfound (hne c name after)

/-- Without a name there is no reference. -/
theorem variablePieces_nameless (after : List Char) :
    variablePieces ('$' :: '\x7b' :: '\x7d' :: after) =
      .plain '$' :: variablePieces ('\x7b' :: '\x7d' :: after) := by
  rw [variablePieces]
  rfl

/-- The pieces of a text that closes its references, and of one that does not go on with a brace. -/
theorem variablePieces_append {before after : List Char} (hbefore : ClosesReferences before)
    (hafter : after.head? ≠ some '\x7b') :
    variablePieces (before ++ after) = variablePieces before ++ variablePieces after := by
  fun_induction variablePieces before with
  | case1 => rfl
  | case2 rest c name left found ih =>
    obtain ⟨rfl, hname⟩ := referenceTail_eq_some_iff.1 found
    have hclosed : ClosesReferences left :=
      ClosesReferences.of_append ('$' :: '\x7b' :: (c :: name ++ ['\x7d'])) (by simpa using hbefore)
    have hpieces := variablePieces_reference hname (left ++ after)
    rw [ih hclosed] at hpieces
    simpa using hpieces
  | case3 rest hnone ih =>
    have hclosed : ClosesReferences ('\x7b' :: rest) := ClosesReferences.of_append ['$'] hbefore
    -- The brace that closes what is opened comes at once.
    obtain ⟨name, left, rfl, hname⟩ := List.eq_append_cons_of_mem (hbefore [] rest rfl)
    cases name with
    | nil =>
      have hpieces := variablePieces_nameless (left ++ after)
      have hwhole : '\x7b' :: '\x7d' :: (left ++ after) =
          '\x7b' :: ([] ++ '\x7d' :: left) ++ after := rfl
      rw [hwhole, ih hclosed] at hpieces
      exact hpieces
    | cons c name => exact absurd (referenceTail_eq_some_iff.2 ⟨rfl, hname⟩) (hnone c name left)
  | case4 c rest hne ih =>
    have hclosed : ClosesReferences rest := ClosesReferences.of_append [c] hbefore
    have hne' : ∀ rest', c = '$' → rest ++ after = '\x7b' :: rest' → False := by
      intro rest' hc heq
      cases rest with
      | nil =>
        rw [List.nil_append] at heq
        rw [heq] at hafter
        exact hafter rfl
      | cons d rest =>
        obtain ⟨rfl, -⟩ := List.cons.inj heq
        exact hne rest hc rfl
    rw [List.cons_append, variablePieces, ih hclosed]
    · rfl
    · exact hne'

/-! ## Section 2: The text of parts -/

/-- The text with the values of variables, by its characters. -/
def expandChars (value : String → Option String) (s : List Char) : List Char :=
  (variablePieces s).flatMap (VariablePiece.expand value)

section expand

variable {value : String → Option String}

theorem expandVariables_ofList (s : List Char) :
    expandVariables value (String.ofList s) = String.ofList (expandChars value s) := by
  rw [expandVariables, String.toList_ofList]
  rfl

theorem expandChars_append {before after : List Char} (hbefore : ClosesReferences before)
    (hafter : after.head? ≠ some '\x7b') :
    expandChars value (before ++ after) = expandChars value before ++ expandChars value after := by
  rw [expandChars, variablePieces_append hbefore hafter, List.flatMap_append]
  rfl

theorem expandChars_plain {plain : List Char} (h : '$' ∉ plain) (after : List Char) :
    expandChars value (plain ++ after) = plain ++ expandChars value after := by
  have hself : (plain.map VariablePiece.plain).flatMap (VariablePiece.expand value) = plain := by
    rw [List.flatMap_map]
    exact List.flatMap_singleton' plain
  rw [expandChars, variablePieces_plain h, List.flatMap_append, hself]
  rfl

theorem expandChars_of_notMem {s : List Char} (h : '$' ∉ s) : expandChars value s = s := by
  have hplain : expandChars value _ = _ := expandChars_plain h []
  have hnil : expandChars value [] = [] := by
    rw [expandChars, variablePieces]
    rfl
  rwa [hnil, List.append_nil] at hplain

/-- A reference to a variable that has a value, in front of a text. -/
theorem expandChars_reference {name v : String} (hne : name ≠ "") (hname : '\x7d' ∉ name.toList)
    (hvalue : value name = some v) (after : List Char) :
    expandChars value ('$' :: '\x7b' :: (name.toList ++ '\x7d' :: after)) =
      v.toList ++ expandChars value after := by
  cases hchars : name.toList with
  | nil =>
    exact absurd (String.toList_inj.1 hchars) hne
  | cons c cs =>
    rw [hchars] at hname
    rw [expandChars, variablePieces_reference hname, List.flatMap_cons, VariablePiece.expand,
      ← hchars, String.ofList_toList, hvalue]
    rfl

end expand

end TypeCatalog.Settings
