import TypeCatalog.Proofs.Signature.Reading

/-! # Printing and reading types

    A type that is read has only names that can be read back, and a type with such names is read
    from its own text. So printing is a normal form of the texts that are types; the only texts that
    are not in it are those that write a nested class with dots. -/

set_option autoImplicit false

namespace TypeCatalog

open Signature

/-! ## Section 1: A derived type is well-formed -/

mutual
theorem Signature.IsType.wellFormed {s : List Char} {t : TypeSignature} (h : IsType s t) :
    t.WellFormed :=
  match h with
  | .primitive _ => trivial
  | .array h => h.wellFormed
  | .typeVariable hn => hn
  | .classType hn ht => ht.wellFormed hn
termination_by structural h
theorem Signature.IsClassTail.wellFormed {segments : String} {s : List Char} {t : TypeSignature}
    (h : IsClassTail segments s t) (hsegments : IsClassName segments) : t.WellFormed :=
  match h with
  | .close hs => ⟨hsegments, hs.wellFormed⟩
  | .inner _ hn ht => ht.wellFormed (hsegments.nest hn)
termination_by structural h
theorem Signature.IsOptionalArguments.wellFormed {s : List Char} {as : List TypeArgument}
    (h : IsOptionalArguments s as) : TypeArgument.AllWellFormed as :=
  match h with
  | .none => trivial
  | .some h => h.wellFormed
termination_by structural h
theorem Signature.IsArguments.wellFormed {s : List Char} {as : List TypeArgument}
    (h : IsArguments s as) : TypeArgument.AllWellFormed as :=
  match h with
  | .last ha => ⟨ha.wellFormed, trivial⟩
  | .more ha hs => ⟨ha.wellFormed, hs.wellFormed⟩
termination_by structural h
theorem Signature.IsArgument.wellFormed {s : List Char} {a : TypeArgument}
    (h : IsArgument s a) : a.WellFormed :=
  match h with
  | .any => trivial
  | .upper h => h.wellFormed
  | .lower h => h.wellFormed
  | .exactly h => h.wellFormed
termination_by structural h
end

/-! ## Section 2: A derived text without dots is the text of its type -/

theorem TypeSignature.chars_classType (name : String) {as : List TypeArgument} (h : as ≠ []) :
    (TypeSignature.classType name as).chars =
      'L' :: name.toList ++ '<' :: TypeArgument.listChars as ++ ['>', ';'] := by
  cases as with
  | nil => exact absurd rfl h
  | cons a rest => rw [TypeSignature.chars, TypeArgument.listChars]

theorem Signature.IsArguments.ne_nil {s : List Char} {as : List TypeArgument}
    (h : IsArguments s as) : as ≠ [] := by
  cases h <;> simp

mutual
theorem Signature.IsType.chars_eq {s : List Char} {t : TypeSignature} (h : IsType s t)
    (hdot : '.' ∉ s) : t.chars = s :=
  match h with
  | .primitive p => by rw [TypeSignature.chars]
  | .array h => by rw [TypeSignature.chars, h.chars_eq (List.not_mem_of_not_mem_cons hdot)]
  | .typeVariable _ => by rw [TypeSignature.chars]
  | .classType _ ht => ht.chars_eq fun hmem => hdot (List.mem_append_right _ hmem)
termination_by structural h
/-- The end of a class type is the end of its text. -/
theorem Signature.IsClassTail.chars_eq {segments : String} {s : List Char} {t : TypeSignature}
    (h : IsClassTail segments s t) (hdot : '.' ∉ s) :
    t.chars = 'L' :: segments.toList ++ s :=
  match h with
  | .close hs => by
    rw [hs.chars_eq segments fun hmem => hdot (List.mem_append_left _ hmem), List.append_assoc]
  | .inner _ _ _ => absurd (by simp) hdot
termination_by structural h
theorem Signature.IsOptionalArguments.chars_eq {s : List Char} {as : List TypeArgument}
    (h : IsOptionalArguments s as) (name : String) (hdot : '.' ∉ s) :
    (TypeSignature.classType name as).chars = 'L' :: name.toList ++ s ++ [';'] :=
  match h with
  | .none => by rw [TypeSignature.chars, List.append_nil]
  | .some h => by
    have htext := h.chars_eq fun hmem => hdot (by simp [hmem])
    rw [TypeSignature.chars_classType name h.ne_nil, htext]
    simp
termination_by structural h
theorem Signature.IsArguments.chars_eq {s : List Char} {as : List TypeArgument}
    (h : IsArguments s as) (hdot : '.' ∉ s) : TypeArgument.listChars as = s :=
  match h with
  | .last ha => by
    rw [TypeArgument.listChars, ha.chars_eq hdot, TypeArgument.listChars, List.append_nil]
  | .more ha hs => by
    rw [TypeArgument.listChars, ha.chars_eq fun hmem => hdot (List.mem_append_left _ hmem),
      hs.chars_eq fun hmem => hdot (List.mem_append_right _ hmem)]
termination_by structural h
theorem Signature.IsArgument.chars_eq {s : List Char} {a : TypeArgument} (h : IsArgument s a)
    (hdot : '.' ∉ s) : a.chars = s :=
  match h with
  | .any => by rw [TypeArgument.chars]
  | .upper h => by rw [TypeArgument.chars, h.chars_eq (List.not_mem_of_not_mem_cons hdot)]
  | .lower h => by rw [TypeArgument.chars, h.chars_eq (List.not_mem_of_not_mem_cons hdot)]
  | .exactly h => by rw [TypeArgument.chars, h.chars_eq hdot]
termination_by structural h
end

/-! ## Section 3: The text of a well-formed type derives it -/

mutual
theorem TypeSignature.WellFormed.isType {t : TypeSignature} (h : t.WellFormed) :
    IsType t.chars t :=
  match t with
  | .primitive p => by
    rw [TypeSignature.chars]
    exact .primitive p
  | .typeVariable name => by
    rw [TypeSignature.chars]
    exact .typeVariable h
  | .array element => by
    rw [TypeSignature.chars]
    exact .array (TypeSignature.WellFormed.isType (t := element) h)
  | .classType name [] => by
    rw [TypeSignature.chars]
    exact .classType h.1 (.close .none)
  | .classType name (a :: rest) => by
    have hargs := TypeArgument.AllWellFormed.isArguments h.2 (List.cons_ne_nil a rest)
    have htail : IsClassTail name ('<' :: TypeArgument.listChars (a :: rest) ++ ['>'] ++ [';'])
        (.classType name (a :: rest)) := .close (.some hargs)
    rw [TypeSignature.chars_classType name (List.cons_ne_nil a rest)]
    simpa using IsType.classType h.1 htail
theorem TypeArgument.WellFormed.isArgument {a : TypeArgument} (h : a.WellFormed) :
    IsArgument a.chars a :=
  match a with
  | .any => by
    rw [TypeArgument.chars]
    exact .any
  | .upper bound => by
    rw [TypeArgument.chars]
    exact .upper (TypeSignature.WellFormed.isType (t := bound) h)
  | .lower bound => by
    rw [TypeArgument.chars]
    exact .lower (TypeSignature.WellFormed.isType (t := bound) h)
  | .exactly type => by
    rw [TypeArgument.chars]
    exact .exactly (TypeSignature.WellFormed.isType (t := type) h)
theorem TypeArgument.AllWellFormed.isArguments {as : List TypeArgument}
    (h : TypeArgument.AllWellFormed as) (hne : as ≠ []) :
    IsArguments (TypeArgument.listChars as) as :=
  match as with
  | [] => absurd rfl hne
  | [a] => by
    rw [TypeArgument.listChars, TypeArgument.listChars, List.append_nil]
    exact .last h.1.isArgument
  | a :: b :: rest => by
    rw [TypeArgument.listChars]
    exact .more h.1.isArgument (h.2.isArguments (List.cons_ne_nil b rest))
end

/-! ## Section 4: Round trips -/

theorem TypeSignature.WellFormed.parse_text_eq {t : TypeSignature} (h : t.WellFormed) :
    TypeSignature.parse t.text = .ok t := by
  apply parse_eq_ok_iff.2
  rw [TypeSignature.text, String.toList_ofList]
  exact h.isType

/-- Reading gives well-formed types only. A text without dots that is read as a type is the text of
    that type, and every well-formed type is read from its text. So printing what was read gives a
    text that is read as the same type again. -/
theorem TypeSignature.parse_text_round_trip (text : String) (t : TypeSignature) :
    (TypeSignature.parse text = .ok t →
      t.WellFormed ∧ ('.' ∉ text.toList → t.text = text) ∧ TypeSignature.parse t.text = .ok t) ∧
    (t.WellFormed → TypeSignature.parse t.text = .ok t) := by
  refine ⟨fun hread => ?_, fun h => h.parse_text_eq⟩
  have hderives := parse_eq_ok_iff.1 hread
  refine ⟨hderives.wellFormed, fun hdot => ?_, hderives.wellFormed.parse_text_eq⟩
  rw [TypeSignature.text, hderives.chars_eq hdot, String.ofList_toList]

/-- A map from any keys to what is above the arrays of a type variable. -/
theorem TypeSignature.parse_text_round_trip_wildcards :
    ∃ t, TypeSignature.parse "Ljava/util/Map<*-[TT;>;" = .ok t ∧ t.WellFormed ∧
      t.text = "Ljava/util/Map<*-[TT;>;" ∧ TypeSignature.parse t.text = .ok t := by
  refine ⟨.classType "java/util/Map" [.any, .lower (.array (.typeVariable "T"))], ?_⟩
  have hread : TypeSignature.parse "Ljava/util/Map<*-[TT;>;" =
      .ok (.classType "java/util/Map" [.any, .lower (.array (.typeVariable "T"))]) :=
    parse_eq_ok_iff_wholeType.2 (by cbv)
  obtain ⟨hwf, htext, -⟩ := (TypeSignature.parse_text_round_trip _ _).1 hread
  exact ⟨hread, hwf, htext (by decide), (TypeSignature.parse_text_round_trip "" _).2 hwf⟩

end TypeCatalog
