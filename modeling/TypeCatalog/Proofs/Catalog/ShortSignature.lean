import TypeCatalog.Proofs.Catalog.Signature

/-! # Short signatures

    A class type may be given by its short signature, which is the inside of its signature. A text
    is first read as a whole signature, and as the inside of one only if that fails. So a short
    signature that is also a whole signature is not the class: that happens to a class of the
    default package whose name is the letter of a primitive type, and to no other one. -/

set_option autoImplicit false

namespace TypeCatalog

/-! ## Section 1: What a type ends in -/

namespace Signature

/-- A type is the letter of a primitive type, or starts as an array, or ends as a class type or a
    type variable does. -/
theorem IsType.letter_or_marked {s : List Char} {t : TypeSignature} (h : IsType s t) :
    (∃ p : Primitive, s = [p.letter]) ∨ s.head? = some '[' ∨ s.getLast? = some ';' := by
  cases h with
  | primitive p => exact .inl ⟨p, rfl⟩
  | array _ => exact .inr (.inl rfl)
  | typeVariable _ => exact .inr (.inr List.getLast?_concat)
  | classType _ htail =>
    obtain ⟨v, rfl, -⟩ := htail.eq_append_semicolon
    rw [← List.append_assoc]
    exact .inr (.inr List.getLast?_concat)

/-- The names that a short signature can start with: no mark of a signature stands in them, not even
    that of an array. -/
abbrev IsPlainName (name : String) : Prop := IsName ['<', ';', '.', '['] name

theorem IsPlainName.head?_ne {name : String} (h : IsPlainName name) (after : List Char) :
    (name.toList ++ after).head? ≠ some '[' := by
  cases hchars : name.toList with
  | nil => exact absurd (String.toList_eq_nil_iff.1 hchars) h.1
  | cons c r =>
    intro hhead
    obtain rfl : c = '[' := by simpa using hhead
    exact h.2 '[' (by decide) (by simp [hchars])

end Signature

/-- A short signature is a whole signature only as a letter. -/
theorem ClassType.not_isType_shortSignature {t : ClassType}
    (hname : Signature.IsPlainName t.declaration.name.short)
    (hletter : ∀ p : Primitive, t.shortSignature ≠ String.singleton p.letter)
    (s : TypeSignature) : ¬Signature.IsType t.shortSignature.toList s := by
  intro htype
  have hchars : t.shortSignature.toList =
      t.declaration.name.short.toList ++
        (bracketed (ResolvedType.signatures t.arguments) "").toList := by
    rw [ClassType.shortSignature, String.toList_append]
  rcases htype.letter_or_marked with ⟨p, hp⟩ | harray | hlast
  · apply hletter p
    rw [← String.toList_inj, hp, String.toList_singleton]
  · rw [hchars] at harray
    exact hname.head?_ne _ harray
  -- Neither the name nor the list of arguments ends in a semicolon.
  · rw [hchars] at hlast
    by_cases hnil : t.arguments = []
    · have hempty : (bracketed (ResolvedType.signatures t.arguments) "").toList = [] := by
        simp [hnil, ResolvedType.signatures, bracketed]
      rw [hempty, List.append_nil] at hlast
      exact hname.getLast?_append_ne (by decide) [] hlast
    · rw [toList_bracketed (ResolvedType.signatures_ne_nil hnil), ← List.append_assoc,
        List.getLast?_concat] at hlast
      cases hlast

/-! ## Section 2: Class types that are resolved -/

variable {c : Catalog}

/-- A class type that a text resolves to is written by a signature. -/
theorem Catalog.Keyed.exists_writes_of_resolve (hc : c.Keyed) {text : String} {t : ClassType}
    (h : c.resolve .empty text = t.toType) : ∃ s, c.Writes s t.toType := by
  unfold Catalog.resolve at h
  split at h
  · next s hread =>
    rw [← h]
    exact hc.exists_writes s (wellFormed_of_readSignature? hread)
  · cases h

/-- A class type that is written is of a class in the catalog. -/
theorem Catalog.Writes.get?_eq {s : TypeSignature} {t : ClassType} (h : c.Writes s t.toType) :
    c.get? t.declaration.name.short = some (.raw t.declaration) := by
  obtain ⟨d, arguments⟩ := t
  cases h with
  | declared _ hget => exact hget
  | specialised _ hget _ _ _ => exact hget

/-- A text that is not a signature as it stands is read as the inside of one. -/
theorem readSignature?_of_inside {text : String} {s : TypeSignature}
    (hwhole : ∀ u, ¬Signature.IsType text.toList u)
    (hinside : TypeSignature.parse ("L" ++ text ++ ";") = .ok s) :
    readSignature? text = some s := by
  unfold readSignature?
  cases hparse : TypeSignature.parse text with
  | ok u => exact absurd (Signature.parse_eq_ok_iff.1 hparse) (hwhole u)
  | error e => simp only [hinside]

theorem Catalog.Writes.resolve_shortSignature {s : TypeSignature} {t : ClassType}
    (h : c.Writes s t.toType) (hwhole : ∀ u, ¬Signature.IsType t.shortSignature.toList u) :
    c.resolve .empty t.shortSignature = t.toType := by
  have hparse : TypeSignature.parse ("L" ++ t.shortSignature ++ ";") = .ok s := by
    rw [← ClassType.signature_toType]
    exact h.parse_signature
  unfold Catalog.resolve
  rw [readSignature?_of_inside hwhole hparse]
  exact h.resolve_eq

theorem Catalog.resolve_letter (scope : Scope) (p : Primitive) :
    c.resolve scope (String.singleton p.letter) = .primitive p := by
  have hparse : TypeSignature.parse (String.singleton p.letter) = .ok (.primitive p) := by
    rw [Signature.parse_eq_ok_iff, String.toList_singleton]
    exact .primitive p
  exact Catalog.resolve_eq_resolveSignature hparse

/-! ## Section 3: Both forms -/

/-- The classes in a catalog have plain names. -/
def Catalog.PlainlyNamed (c : Catalog) : Prop :=
  ∀ key t, c.get? key = some t → Signature.IsPlainName t.declaration.name.short

theorem Catalog.plainlyNamed_empty : Catalog.empty.PlainlyNamed := by
  intro key t h
  rw [Catalog.get?_empty] at h
  cases h

theorem Catalog.PlainlyNamed.insertDeclaration (hc : c.PlainlyNamed) {d : ClassDeclaration}
    (hname : Signature.IsPlainName d.name.short) : (c.insertDeclaration d).PlainlyNamed := by
  intro key t h
  rw [Catalog.get?_insertDeclaration] at h
  by_cases hkey : d.name.short = key
  · rw [if_pos hkey] at h
    cases h
    exact hname
  · rw [if_neg hkey] at h
    exact hc key t h

/-- A class type that was resolved without variables in scope is resolved again from its signature
    and from its short signature, except that the letter of a primitive type is that type. -/
theorem resolve_either_form (hc : c.Reachable) (hnames : c.PlainlyNamed) {text : String}
    {t : ClassType} (h : c.resolve .empty text = t.toType) :
    c.resolve .empty t.toType.signature = t.toType ∧
    ((∀ p : Primitive, t.shortSignature ≠ String.singleton p.letter) →
      c.resolve .empty t.shortSignature = t.toType) ∧
    ∀ p : Primitive, t.shortSignature = String.singleton p.letter →
      c.resolve .empty t.shortSignature = .primitive p := by
  obtain ⟨s, hwrites⟩ := hc.keyed.exists_writes_of_resolve h
  refine ⟨hwrites.resolve_signature, ?_, ?_⟩
  · intro hletter
    have hname := hnames _ _ hwrites.get?_eq
    exact hwrites.resolve_shortSignature (ClassType.not_isType_shortSignature hname hletter)
  · intro p hp
    rw [hp]
    exact Catalog.resolve_letter .empty p

/-- A class with an argument, whose name starts with the mark of a type variable. -/
theorem resolve_either_form_tree :
    ∃ (c : Catalog) (t : ClassType), c.Reachable ∧ c.PlainlyNamed ∧
      c.resolve .empty "LTree<[TU;>;" = t.toType ∧
      t.shortSignature = "Tree<[Ljava/lang/Object;>" ∧
      c.resolve .empty "Tree<[Ljava/lang/Object;>" = t.toType := by
  let d : ClassDeclaration := ⟨⟨"Tree"⟩, ⟨0⟩, "", [⟨"T", []⟩], [], [], [], []⟩
  let t : ClassType := ⟨d, [.array (.unknownClass ⟨objectName⟩) 1]⟩
  have hc : (Catalog.empty.insertDeclaration d).Reachable := .insertDeclaration d .empty
  have hnames : (Catalog.empty.insertDeclaration d).PlainlyNamed :=
    Catalog.plainlyNamed_empty.insertDeclaration (by decide)
  have hread : readSignature? "LTree<[TU;>;" =
      some (.classType "Tree" [.exactly (.array (.typeVariable "U"))]) :=
    readSignature?_eq_some (by cbv)
  have hresolve : (Catalog.empty.insertDeclaration d).resolve .empty "LTree<[TU;>;" = t.toType := by
    have hget : (Catalog.empty.insertDeclaration d).get? "Tree" = some (.raw d) :=
      (Catalog.get?_insertDeclaration _ d "Tree").trans (if_pos rfl)
    have hobject : (Catalog.empty.insertDeclaration d).get? objectName = none := by
      rw [Catalog.get?_insertDeclaration, if_neg (by decide), Catalog.get?_empty]
    simp only [Catalog.resolve, hread, Catalog.resolveSignature, hget]
    simp [Catalog.specialise, Catalog.argumentsFor, ClassType.raw, d, t, ClassType.toType,
      fillArguments, Catalog.resolveArguments, Catalog.resolveArgument, Catalog.resolveSignature,
      Catalog.resolveVariable, Scope.lookup?, Scope.empty, Scope.findVariable?, Catalog.objectType,
      hobject, ResolvedType.arrayOf]
  have hshort : t.shortSignature = "Tree<[Ljava/lang/Object;>" := by decide
  obtain ⟨-, hagain, -⟩ := resolve_either_form hc hnames hresolve
  rw [hshort] at hagain
  have hletter : ∀ p : Primitive, "Tree<[Ljava/lang/Object;>" ≠ String.singleton p.letter := by
    intro p
    cases p <;> decide
  exact ⟨_, t, hc, hnames, hresolve, hshort, hagain hletter⟩

/-- The short signature of a class `I` is the letter of a primitive type. -/
theorem resolve_letter_of_class :
    ∃ (c : Catalog) (t : ClassType), c.Reachable ∧ c.PlainlyNamed ∧
      c.resolve .empty "LI;" = t.toType ∧ t.shortSignature = "I" ∧
      c.resolve .empty t.shortSignature ≠ t.toType := by
  let d : ClassDeclaration := ⟨⟨"I"⟩, ⟨0⟩, "", [], [], [], [], []⟩
  have hread : readSignature? "LI;" = some (.classType "I" []) := readSignature?_eq_some (by cbv)
  have hresolve : (Catalog.empty.insertDeclaration d).resolve .empty "LI;" =
      (ClassType.raw d).toType := by
    have hget : (Catalog.empty.insertDeclaration d).get? "I" = some (.raw d) :=
      (Catalog.get?_insertDeclaration _ d "I").trans (if_pos rfl)
    simp [Catalog.resolve, hread, Catalog.resolveSignature, hget]
  have hshort : (ClassType.raw d).shortSignature = String.singleton Primitive.int.letter := by
    decide
  refine ⟨_, .raw d, .insertDeclaration d .empty,
    Catalog.plainlyNamed_empty.insertDeclaration (by decide), hresolve, hshort, ?_⟩
  rw [hshort, Catalog.resolve_letter]
  intro h
  cases h

end TypeCatalog
