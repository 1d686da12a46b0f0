import TypeCatalog.Proofs.Catalog.Resolution

/-! # Signatures of resolved types

    Resolving a text forgets much of it: arguments too many and arguments of unknown classes are
    dropped, missing ones are filled up, variables become the root class. What is left is written
    by a signature that forgets nothing more: it is read back as itself and resolves to the type it
    was written for. So types that were resolved from texts are the same as soon as their signatures
    are the same text. -/

set_option autoImplicit false

namespace TypeCatalog

/-! ## Section 1: The signature of a type in a catalog -/

mutual
/-- A signature writes a type that has no variables. -/
inductive Catalog.Writes (c : Catalog) : TypeSignature → ResolvedType → Prop
  | primitive (p : Primitive) : Writes c (.primitive p) (.primitive p)
  | array {element : TypeSignature} {base : ResolvedType} {dims : Nat} :
      1 ≤ dims → base.isArray = false → Writes c element base →
      Writes c (.ofDimensions dims element) (.array base dims)
  | declared {d : ClassDeclaration} :
      Signature.IsClassName d.name.short → c.get? d.name.short = some (.raw d) →
      Writes c (.classType d.name.short []) (.classType d [])
  | specialised {d : ClassDeclaration} {as : List TypeArgument} {types : List ResolvedType} :
      Signature.IsClassName d.name.short → c.get? d.name.short = some (.raw d) →
      types ≠ [] → types.length = d.typeVariables.length → WritesAll c as types →
      Writes c (.classType d.name.short as) (.classType d types)
  | unknown {name : String} :
      Signature.IsClassName name → c.get? name = none →
      Writes c (.classType name []) (.unknownClass ⟨name⟩)
/-- A type argument writes a type that stands for an argument. -/
inductive Catalog.WritesArgument (c : Catalog) : TypeArgument → ResolvedType → Prop
  | any : WritesArgument c .any .anyWildcard
  | upper {t : TypeSignature} {bound : ResolvedType} :
      Writes c t bound → WritesArgument c (.upper t) (.wildcard .upper bound)
  | lower {t : TypeSignature} {bound : ResolvedType} :
      Writes c t bound → WritesArgument c (.lower t) (.wildcard .lower bound)
  | exactly {t : TypeSignature} {type : ResolvedType} :
      Writes c t type → WritesArgument c (.exactly t) type
/-- Type arguments write types in their order. -/
inductive Catalog.WritesAll (c : Catalog) : List TypeArgument → List ResolvedType → Prop
  | nil : WritesAll c [] []
  | cons {a : TypeArgument} {type : ResolvedType} {as : List TypeArgument}
      {types : List ResolvedType} :
      WritesArgument c a type → WritesAll c as types → WritesAll c (a :: as) (type :: types)
end

variable {c : Catalog}

/-! ## Section 2: Every type that is resolved has one -/

/-- What a name in a signature finds is the class declared under that name. -/
theorem Catalog.Keyed.exists_raw (hc : c.Keyed) {name : String} {t : ClassType}
    (hname : Signature.IsClassName name) (hget : c.get? name = some t) :
    ∃ d : ClassDeclaration, d.name.short = name ∧ t = .raw d := by
  have hraw := hc.eq_raw hget (hname.2 '<' (by decide))
  refine ⟨t.declaration, ?_, hraw⟩
  have hkey := hc name t hget
  rw [hraw, ClassType.shortSignature] at hkey
  exact String.append_empty.symm.trans hkey

theorem Catalog.Keyed.exists_writes_objectType (hc : c.Keyed) :
    ∃ t, c.Writes t c.objectType := by
  have hname : Signature.IsClassName objectName := by
    simp [Signature.IsName, objectName]
  unfold Catalog.objectType
  cases hget : c.get? objectName with
  | none => exact ⟨_, .unknown hname hget⟩
  | some t =>
    obtain ⟨d, hd, rfl⟩ := hc.exists_raw hname hget
    rw [← hd] at hname hget
    exact ⟨_, .declared hname hget⟩

theorem Catalog.Writes.exists_arrayOf {t : TypeSignature} {r : ResolvedType} (h : c.Writes t r) :
    ∃ t', c.Writes t' (r.arrayOf 1) := by
  rcases arrayOf_cases r 1 with ⟨base, dims, rfl, heq⟩ | ⟨hr, heq⟩
  · rw [heq]
    cases h with
    | array hdims hbase h => exact ⟨_, .array (Nat.le_add_right_of_le hdims) hbase h⟩
  · rw [heq]
    exact ⟨_, .array (Nat.le_refl 1) hr h⟩

theorem exists_writesAll {types : List ResolvedType}
    (h : ∀ r ∈ types, ∃ a, c.WritesArgument a r) : ∃ as, c.WritesAll as types := by
  induction types with
  | nil => exact ⟨[], .nil⟩
  | cons r types ih =>
    obtain ⟨a, ha⟩ := h r (List.mem_cons_self ..)
    obtain ⟨as, has⟩ := ih fun r' hr' => h r' (List.mem_cons_of_mem _ hr')
    exact ⟨a :: as, .cons ha has⟩

/-- What is filled up are the given types and the default. -/
theorem mem_fillArguments {default r : ResolvedType} {typeVariables : List TypeVariable}
    {types : List ResolvedType} (h : r ∈ fillArguments default typeVariables types) :
    r = default ∨ r ∈ types := by
  induction typeVariables generalizing types with
  | nil => cases types <;> cases h
  | cons v typeVariables ih =>
    cases types with
    | nil =>
      rcases List.mem_cons.1 h with rfl | h
      · exact .inl rfl
      · exact ih h
    | cons t types =>
      rcases List.mem_cons.1 h with rfl | h
      · exact .inr (List.mem_cons_self ..)
      · exact (ih h).imp_right (List.mem_cons_of_mem _)

theorem Catalog.Keyed.exists_writes_specialise (hc : c.Keyed) {d : ClassDeclaration}
    (hname : Signature.IsClassName d.name.short) (hget : c.get? d.name.short = some (.raw d))
    {types : List ResolvedType} (htypes : ∀ r ∈ types, ∃ a, c.WritesArgument a r) :
    ∃ t, c.Writes t (c.specialise (.raw d) types).toType := by
  have hlength : (c.argumentsFor d types).length = d.typeVariables.length :=
    length_fillArguments c.objectType d.typeVariables types
  obtain ⟨o, ho⟩ := hc.exists_writes_objectType
  have hall : ∀ r ∈ c.argumentsFor d types, ∃ a, c.WritesArgument a r := by
    intro r hr
    rcases mem_fillArguments hr with rfl | hr
    · exact ⟨_, .exactly ho⟩
    · exact htypes r hr
  obtain ⟨as, has⟩ := exists_writesAll hall
  show ∃ t, c.Writes t (.classType d (c.argumentsFor d types))
  -- A class without variables drops all arguments.
  by_cases hnil : c.argumentsFor d types = []
  · rw [hnil]
    exact ⟨_, .declared hname hget⟩
  · exact ⟨_, .specialised hname hget hnil hlength has⟩

mutual
/-- Every signature resolves to a type that is written by one, if no variable is in scope. The
    induction is on the signature. -/
theorem Catalog.Keyed.exists_writes (hc : c.Keyed) (t : TypeSignature) (ht : t.WellFormed) :
    ∃ t', c.Writes t' (c.resolveSignature .empty t) := by
  cases t with
  | primitive p => exact ⟨_, .primitive p⟩
  | typeVariable name => exact hc.exists_writes_objectType
  | array element =>
    obtain ⟨t', h⟩ := hc.exists_writes element ht
    exact h.exists_arrayOf
  | classType name arguments =>
    obtain ⟨hname, hargs⟩ := ht
    rw [Catalog.resolveSignature]
    cases hget : c.get? name with
    | none => exact ⟨_, .unknown hname hget⟩
    | some known =>
      obtain ⟨d, rfl, rfl⟩ := hc.exists_raw hname hget
      by_cases hempty : arguments.isEmpty
      · simp only [if_pos hempty]
        exact ⟨_, .declared hname hget⟩
      · simp only [if_neg hempty]
        exact hc.exists_writes_specialise hname hget (hc.exists_writesArguments arguments hargs)
theorem Catalog.Keyed.exists_writesArgument (hc : c.Keyed) (a : TypeArgument)
    (ha : a.WellFormed) : ∃ a', c.WritesArgument a' (c.resolveArgument .empty a) := by
  cases a with
  | any => exact ⟨_, .any⟩
  | upper bound =>
    obtain ⟨t', h⟩ := hc.exists_writes bound ha
    exact ⟨_, .upper h⟩
  | lower bound =>
    obtain ⟨t', h⟩ := hc.exists_writes bound ha
    exact ⟨_, .lower h⟩
  | exactly t =>
    obtain ⟨t', h⟩ := hc.exists_writes t ha
    exact ⟨_, .exactly h⟩
theorem Catalog.Keyed.exists_writesArguments (hc : c.Keyed) (as : List TypeArgument)
    (has : TypeArgument.AllWellFormed as) :
    ∀ r ∈ c.resolveArguments .empty as, ∃ a, c.WritesArgument a r := by
  cases as with
  | nil => exact fun r hr => nomatch hr
  | cons a rest =>
    rintro r (_ | ⟨_, hr⟩)
    · exact hc.exists_writesArgument a has.1
    · exact hc.exists_writesArguments rest has.2 r hr
end

/-! ## Section 3: It is read and resolved as that type -/

theorem wellFormed_ofDimensions {t : TypeSignature} (h : t.WellFormed) (n : Nat) :
    (TypeSignature.ofDimensions n t).WellFormed := by
  induction n with
  | zero => exact h
  | succ n ih => exact ih

theorem chars_ofDimensions (n : Nat) (t : TypeSignature) :
    (TypeSignature.ofDimensions n t).chars = List.replicate n '[' ++ t.chars := by
  induction n with
  | zero => rfl
  | succ n ih =>
    rw [TypeSignature.ofDimensions, TypeSignature.chars, ih, List.replicate_succ,
      List.cons_append]

theorem resolveSignature_ofDimensions (s : Scope) {t : TypeSignature}
    (h : (c.resolveSignature s t).isArray = false) (n : Nat) :
    c.resolveSignature s (.ofDimensions (n + 1) t) = .array (c.resolveSignature s t) (n + 1) := by
  induction n with
  | zero =>
    show (c.resolveSignature s t).arrayOf 1 = _
    exact arrayOf_of_isArray h 1
  | succ n ih =>
    show (c.resolveSignature s (.ofDimensions (n + 1) t)).arrayOf 1 = _
    rw [ih, arrayOf_array]

/-- Texts with nothing between them. -/
theorem intercalate_nil (parts : List (List Char)) : [].intercalate parts = parts.flatten := by
  induction parts with
  | nil => rfl
  | cons p parts ih =>
    cases parts with
    | nil => simp [List.intercalate]
    | cons q parts =>
      rw [List.flatten_cons, ← ih]
      simp [List.intercalate]

/-- The text of a class with arguments. -/
theorem toList_bracketed {parts : List String} (h : parts ≠ []) :
    (bracketed parts "").toList = '<' :: parts.flatMap String.toList ++ ['>'] := by
  have hempty : parts.isEmpty = false := List.isEmpty_eq_false_iff.2 h
  simp [bracketed, hempty, intercalate_nil, List.flatMap_def]

theorem ResolvedType.signatures_ne_nil {types : List ResolvedType} (h : types ≠ []) :
    ResolvedType.signatures types ≠ [] := by
  cases types with
  | nil => exact absurd rfl h
  | cons r types => exact List.cons_ne_nil _ _

mutual
theorem Catalog.Writes.wellFormed {t : TypeSignature} {r : ResolvedType} (h : c.Writes t r) :
    t.WellFormed :=
  match h with
  | .primitive _ => trivial
  | .array _ _ h => wellFormed_ofDimensions h.wellFormed _
  | .declared hname _ => ⟨hname, trivial⟩
  | .specialised hname _ _ _ h => ⟨hname, h.wellFormed⟩
  | .unknown hname _ => ⟨hname, trivial⟩
termination_by structural h
theorem Catalog.WritesArgument.wellFormed {a : TypeArgument} {r : ResolvedType}
    (h : c.WritesArgument a r) : a.WellFormed :=
  match h with
  | .any => trivial
  | .upper h => h.wellFormed
  | .lower h => h.wellFormed
  | .exactly h => h.wellFormed
termination_by structural h
theorem Catalog.WritesAll.wellFormed {as : List TypeArgument} {types : List ResolvedType}
    (h : c.WritesAll as types) : TypeArgument.AllWellFormed as :=
  match h with
  | .nil => trivial
  | .cons ha has => ⟨ha.wellFormed, has.wellFormed⟩
termination_by structural h
end

theorem Catalog.WritesAll.length_eq {as : List TypeArgument} {types : List ResolvedType}
    (h : c.WritesAll as types) : as.length = types.length :=
  match h with
  | .nil => rfl
  | .cons _ h => congrArg Nat.succ h.length_eq
termination_by structural h

theorem Catalog.WritesAll.ne_nil {as : List TypeArgument} {types : List ResolvedType}
    (h : c.WritesAll as types) (hne : types ≠ []) : as ≠ [] := by
  rintro rfl
  exact hne (List.length_eq_zero_iff.1 h.length_eq.symm)

mutual
/-- The text of the signature that writes a type is the signature text of the type. -/
theorem Catalog.Writes.chars_eq {t : TypeSignature} {r : ResolvedType} (h : c.Writes t r) :
    t.chars = r.signature.toList :=
  match h with
  | .primitive p => by
    rw [TypeSignature.chars, ResolvedType.signature, String.toList_singleton]
  | .array _ _ h => by
    rw [chars_ofDimensions, h.chars_eq, ResolvedType.signature, String.toList_append,
      String.toList_ofList]
  | .declared _ _ => by
    rw [TypeSignature.chars, ResolvedType.signature]
    simp [ResolvedType.signatures, bracketed]
  | .specialised _ _ hne _ h => by
    have hsignatures := ResolvedType.signatures_ne_nil hne
    rw [TypeSignature.chars_classType _ (h.ne_nil hne), h.chars_eq, ResolvedType.signature]
    simp [toList_bracketed hsignatures]
  | .unknown _ _ => by
    rw [TypeSignature.chars, ResolvedType.signature, BinaryName.signature]
    simp
termination_by structural h
theorem Catalog.WritesArgument.chars_eq {a : TypeArgument} {r : ResolvedType}
    (h : c.WritesArgument a r) : a.chars = r.signature.toList :=
  match h with
  | .any => by
    rw [TypeArgument.chars, ResolvedType.signature]
    rfl
  | .upper h => by
    rw [TypeArgument.chars, h.chars_eq, ResolvedType.signature, String.toList_append]
    rfl
  | .lower h => by
    rw [TypeArgument.chars, h.chars_eq, ResolvedType.signature, String.toList_append]
    rfl
  | .exactly h => by rw [TypeArgument.chars, h.chars_eq]
termination_by structural h
theorem Catalog.WritesAll.chars_eq {as : List TypeArgument} {types : List ResolvedType}
    (h : c.WritesAll as types) :
    TypeArgument.listChars as = (ResolvedType.signatures types).flatMap String.toList :=
  match h with
  | .nil => by
    rw [TypeArgument.listChars]
    rfl
  | .cons ha has => by
    rw [TypeArgument.listChars, ha.chars_eq, has.chars_eq, ResolvedType.signatures,
      List.flatMap_cons]
termination_by structural h
end

mutual
/-- The signature that writes a type resolves to it. -/
theorem Catalog.Writes.resolve_eq {t : TypeSignature} {r : ResolvedType} (h : c.Writes t r) :
    c.resolveSignature .empty t = r :=
  match h with
  | .primitive p => rfl
  | .array hdims hbase h => by
    obtain ⟨n, rfl⟩ := Nat.exists_eq_add_of_le' hdims
    rw [resolveSignature_ofDimensions _ (h.resolve_eq.symm ▸ hbase), h.resolve_eq]
  | .declared _ hget => by
    rw [Catalog.resolveSignature, hget]
    rfl
  | .specialised _ hget hne hlength h => by
    have hempty := List.isEmpty_eq_false_iff.2 (h.ne_nil hne)
    rw [Catalog.resolveSignature, hget]
    simp only [hempty, Bool.false_eq_true, if_false, h.resolve_eq]
    exact congrArg (ResolvedType.classType _) (argumentsFor_of_length_eq c hlength)
  | .unknown _ hget => by
    rw [Catalog.resolveSignature, hget]
termination_by structural h
theorem Catalog.WritesArgument.resolve_eq {a : TypeArgument} {r : ResolvedType}
    (h : c.WritesArgument a r) : c.resolveArgument .empty a = r :=
  match h with
  | .any => rfl
  | .upper h => by rw [Catalog.resolveArgument, h.resolve_eq]
  | .lower h => by rw [Catalog.resolveArgument, h.resolve_eq]
  | .exactly h => h.resolve_eq
termination_by structural h
theorem Catalog.WritesAll.resolve_eq {as : List TypeArgument} {types : List ResolvedType}
    (h : c.WritesAll as types) : c.resolveArguments .empty as = types :=
  match h with
  | .nil => rfl
  | .cons ha has => by rw [Catalog.resolveArguments, ha.resolve_eq, has.resolve_eq]
termination_by structural h
end

theorem Catalog.Writes.parse_signature {t : TypeSignature} {r : ResolvedType}
    (h : c.Writes t r) : TypeSignature.parse r.signature = .ok t := by
  rw [← String.ofList_toList (s := r.signature), ← h.chars_eq]
  exact h.wellFormed.parse_text_eq

theorem Catalog.Writes.resolve_signature {t : TypeSignature} {r : ResolvedType}
    (h : c.Writes t r) : c.resolve .empty r.signature = r :=
  (Catalog.resolve_eq_resolveSignature h.parse_signature).trans h.resolve_eq

/-! ## Section 4: Texts that are no signatures -/

namespace Signature

/-- A text that does not end in a semicolon does not after it is put behind another one that does
    not. -/
theorem getLast?_append_ne {u v : List Char} (hu : u.getLast? ≠ some ';')
    (hv : v.getLast? ≠ some ';') : (u ++ v).getLast? ≠ some ';' := by
  rw [List.getLast?_append]
  cases hlast : v.getLast? with
  | none => exact hu
  | some c =>
    rw [hlast] at hv
    exact hv

theorem IsName.getLast?_append_ne {delimiters : List Char} {name : String}
    (h : IsName delimiters name) (hd : ';' ∈ delimiters) (u : List Char) :
    (u ++ name.toList).getLast? ≠ some ';' := by
  rw [List.getLast?_append]
  cases hlast : name.toList.getLast? with
  | none => exact absurd (String.toList_eq_nil_iff.1 (List.getLast?_eq_none_iff.1 hlast)) h.1
  | some c =>
    intro heq
    obtain rfl := Option.some.inj heq
    exact h.2 ';' hd (List.mem_of_getLast? hlast)

mutual
/-- What stands before the semicolon that ends a class type does not end in one. -/
theorem IsClassTail.eq_append_semicolon {segments : String} {s : List Char} {t : TypeSignature}
    (h : IsClassTail segments s t) : ∃ v, s = v ++ [';'] ∧ v.getLast? ≠ some ';' :=
  match h with
  | .close hs => by
    refine ⟨_, rfl, ?_⟩
    cases hs with
    | none => simp
    | some _ =>
      rw [List.getLast?_concat]
      decide
  | .inner hs hname ht => by
    obtain ⟨v, rfl, hv⟩ := ht.eq_append_semicolon
    refine ⟨_, by rw [← List.append_assoc], ?_⟩
    rw [List.append_cons]
    exact Signature.getLast?_append_ne (hname.getLast?_append_ne (by decide) _) hv
termination_by structural h
/-- If a type ends in a semicolon, what stands before it does not end in one. -/
theorem IsType.eq_append {s : List Char} {t : TypeSignature} (h : IsType s t) :
    ∃ v c, s = v ++ [c] ∧ (c = ';' → v.getLast? ≠ some ';') :=
  match h with
  | .primitive p => ⟨[], p.letter, rfl, by simp⟩
  | .array h => by
    obtain ⟨v, c, rfl, hv⟩ := h.eq_append
    refine ⟨'[' :: v, c, rfl, fun hc => ?_⟩
    exact Signature.getLast?_append_ne (u := ['[']) (by decide) (hv hc)
  | .typeVariable hname =>
    ⟨_, ';', rfl, fun _ => hname.getLast?_append_ne (by decide) ['T']⟩
  | .classType hname ht => by
    obtain ⟨v, rfl, hv⟩ := ht.eq_append_semicolon
    refine ⟨_, ';', by rw [← List.append_assoc], fun _ => ?_⟩
    exact Signature.getLast?_append_ne (hname.getLast?_append_ne (by decide) ['L']) hv
termination_by structural h
end

/-- No type ends in two semicolons. -/
theorem IsType.ne_append_semicolons {s : List Char} {t : TypeSignature} (h : IsType s t)
    (v : List Char) : s ≠ v ++ [';'] ++ [';'] := by
  obtain ⟨u, c, rfl, hu⟩ := h.eq_append
  intro heq
  obtain ⟨rfl, hc⟩ := List.append_inj' heq rfl
  obtain rfl : c = ';' := by simpa using hc
  exact hu rfl List.getLast?_concat

end Signature

theorem readSignature?_eq_none {text : String} (h : readSignature? text = none)
    (t : TypeSignature) :
    ¬Signature.IsType text.toList t ∧ ¬Signature.IsType ('L' :: text.toList ++ [';']) t := by
  unfold readSignature? at h
  split at h
  · cases h
  · next e hwhole =>
    split at h
    · cases h
    · next e' hinside =>
      constructor
      · intro htype
        rw [Signature.parse_eq_ok_iff.2 htype] at hwhole
        cases hwhole
      · intro htype
        have htext : ("L" ++ text ++ ";").toList = 'L' :: text.toList ++ [';'] := by simp
        rw [← htext] at htype
        rw [Signature.parse_eq_ok_iff.2 htype] at hinside
        cases hinside

/-- Marks around a text that is no signature do not make it one. -/
theorem readSignature?_marked {text : String} (h : readSignature? text = none) :
    readSignature? ("L" ++ text ++ ";") = none := by
  have htext : ("L" ++ text ++ ";").toList = 'L' :: text.toList ++ [';'] := by simp
  unfold readSignature?
  split
  · next t hparse =>
    have htype := Signature.parse_eq_ok_iff.1 hparse
    rw [htext] at htype
    exact absurd htype (readSignature?_eq_none h t).2
  · split
    · next t hparse =>
      have htype := Signature.parse_eq_ok_iff.1 hparse
      rw [String.toList_append, String.toList_append, htext] at htype
      exact absurd rfl (htype.ne_append_semicolons ('L' :: 'L' :: text.toList))
    · rfl

theorem insideSignature?_marked (s : List Char) :
    BinaryName.insideSignature? ('L' :: s ++ [';']) = some s := by
  simp [BinaryName.insideSignature?]

theorem eq_of_insideSignature? {s inside : List Char}
    (h : BinaryName.insideSignature? s = some inside) : s = 'L' :: inside ++ [';'] := by
  unfold BinaryName.insideSignature? at h
  split at h
  · next rest =>
    split at h
    · next hlast =>
      obtain ⟨u, rfl⟩ := List.getLast?_eq_some_iff.1 hlast
      obtain rfl := Option.some.inj h
      rw [List.dropLast_concat, List.cons_append]
    · cases h
  · cases h

/-- The name that an unreadable text gives is given again by the signature of that name, which is
    not readable either. -/
theorem Catalog.resolve_signature_unreadable {text : String} (h : readSignature? text = none) :
    c.resolve .empty (c.resolve .empty text).signature = c.resolve .empty text := by
  have hresolve : c.resolve .empty text = .unknownClass (.ofSignature text) := by
    unfold Catalog.resolve
    rw [h]
  rw [hresolve]
  show c.resolve .empty (BinaryName.ofSignature text).signature = _
  cases hinside : BinaryName.insideSignature? text.toList with
  | some inside =>
    -- The text has the marks of a signature already: it is its own signature.
    have hname : BinaryName.ofSignature text = ⟨String.ofList inside⟩ := by
      rw [BinaryName.ofSignature, hinside]
    have htext : (BinaryName.ofSignature text).signature = text := by
      rw [hname, ← String.toList_inj, eq_of_insideSignature? hinside]
      simp [BinaryName.signature]
    rw [htext, hresolve]
  | none =>
    have hname : BinaryName.ofSignature text = ⟨text⟩ := by
      rw [BinaryName.ofSignature, hinside]
    have hagain : BinaryName.ofSignature ("L" ++ text ++ ";") = ⟨text⟩ := by
      have hmarked : ("L" ++ text ++ ";").toList = 'L' :: text.toList ++ [';'] := by simp
      rw [BinaryName.ofSignature, hmarked, insideSignature?_marked]
      simp
    rw [hname]
    unfold Catalog.resolve
    rw [BinaryName.signature, readSignature?_marked h, hagain]

/-! ## Section 5: Equal signatures -/

theorem Catalog.Keyed.resolve_signature (hc : c.Keyed) (text : String) :
    c.resolve .empty (c.resolve .empty text).signature = c.resolve .empty text := by
  cases hread : readSignature? text with
  | none => exact Catalog.resolve_signature_unreadable hread
  | some t =>
    have hresolve : c.resolve .empty text = c.resolveSignature .empty t := by
      unfold Catalog.resolve
      rw [hread]
    obtain ⟨t', h⟩ := hc.exists_writes t (wellFormed_of_readSignature? hread)
    rw [hresolve]
    exact h.resolve_signature

theorem ClassType.signature_toType (t : ClassType) :
    t.toType.signature = "L" ++ t.shortSignature ++ ";" := by
  rw [ClassType.toType, ResolvedType.signature, ClassType.shortSignature]

theorem ClassType.toType_inj {t t' : ClassType} : t.toType = t'.toType ↔ t = t' := by
  refine ⟨fun h => ?_, fun h => h ▸ rfl⟩
  obtain ⟨d, arguments⟩ := t
  obtain ⟨hd, harguments⟩ := ResolvedType.classType.inj h
  exact congr (congrArg ClassType.mk hd) harguments

/-- Types that are the same have the same signature. -/
theorem ResolvedType.signature_eq_of_same {r r' : ResolvedType} (h : r.same r' = true) :
    r.signature = r'.signature := by
  fun_induction ResolvedType.same r r' with
  | case1 p q => rw [eq_of_beq h]
  | case2 a m b n ih =>
    obtain ⟨hbase, hdims⟩ := Bool.and_eq_true_iff.1 h
    rw [ResolvedType.signature, ResolvedType.signature, ih hbase, eq_of_beq hdims]
  | case3 d as e bs =>
    have hshort := eq_of_beq h
    show (ClassType.mk d as).toType.signature = (ClassType.mk e bs).toType.signature
    rw [ClassType.signature_toType, ClassType.signature_toType, hshort]
  | case4 v w => rw [eq_of_beq h]
  | case5 => rfl
  | case6 j a k b ih =>
    obtain ⟨hkind, hbound⟩ := Bool.and_eq_true_iff.1 h
    obtain rfl := eq_of_beq hkind
    cases j with
    | upper => rw [ResolvedType.signature, ResolvedType.signature, ih hbound]
    | lower => rw [ResolvedType.signature, ResolvedType.signature, ih hbound]
  | case7 n m => rw [eq_of_beq h]
  | case8 => rfl
  | case9 => cases h

theorem ResolvedType.same_self (r : ResolvedType) : r.same r = true :=
  match r with
  | .array base dims => by simp [ResolvedType.same, base.same_self]
  | .wildcard kind bound => by simp [ResolvedType.same, bound.same_self]
  | .primitive p => beq_self_eq_true p
  | .classType d arguments => beq_self_eq_true (ClassType.shortSignature ⟨d, arguments⟩)
  | .typeVariable v => beq_self_eq_true v
  | .anyWildcard => rfl
  | .unknownClass n => beq_self_eq_true n
  | .nullType => rfl

/-- The signature of a type that is resolved without variables in scope resolves to the type again.
    So two types that are resolved so are the same, with all their parts, as soon as their
    signatures are; the comparison of types and the keys of class types, which look at nothing but
    such texts, tell them apart. -/
theorem resolve_signature_stable (hc : c.Reachable) (text text' : String) :
    c.resolve .empty (c.resolve .empty text).signature = c.resolve .empty text ∧
    ((c.resolve .empty text).signature = (c.resolve .empty text').signature →
      c.resolve .empty text = c.resolve .empty text') ∧
    ((c.resolve .empty text).same (c.resolve .empty text') = true ↔
      c.resolve .empty text = c.resolve .empty text') ∧
    ∀ t t' : ClassType, c.resolve .empty text = t.toType → c.resolve .empty text' = t'.toType →
      (t.shortSignature = t'.shortSignature ↔ t = t') := by
  have hsignature : (c.resolve .empty text).signature = (c.resolve .empty text').signature →
      c.resolve .empty text = c.resolve .empty text' := by
    intro h
    rw [← hc.keyed.resolve_signature text, h, hc.keyed.resolve_signature text']
  refine ⟨hc.keyed.resolve_signature text, hsignature, ⟨fun h => ?_, fun h => ?_⟩, ?_⟩
  · exact hsignature (ResolvedType.signature_eq_of_same h)
  · rw [h]
    exact ResolvedType.same_self _
  · intro t t' ht ht'
    refine ⟨fun h => ?_, fun h => h ▸ rfl⟩
    rw [ht, ht', ClassType.signature_toType, ClassType.signature_toType, h] at hsignature
    exact ClassType.toType_inj.1 (hsignature rfl)

/-- A box of arrays of an unbound variable, with one argument too many, is written as a box of
    arrays of the root class. -/
theorem resolve_signature_stable_box :
    ∃ c : Catalog, c.Reachable ∧
      (c.resolve .empty "LBox<+[TU;*>;").signature = "LBox<+[Ljava/lang/Object;>;" ∧
      c.resolve .empty "LBox<+[Ljava/lang/Object;>;" = c.resolve .empty "LBox<+[TU;*>;" := by
  let d : ClassDeclaration := ⟨⟨"Box"⟩, ⟨0⟩, "", [⟨"T", []⟩], [], [], [], []⟩
  have hc : (Catalog.empty.insertDeclaration d).Reachable := .insertDeclaration d .empty
  have hread : readSignature? "LBox<+[TU;*>;" =
      some (.classType "Box" [.upper (.array (.typeVariable "U")), .any]) :=
    readSignature?_eq_some (by cbv)
  have hsignature : ((Catalog.empty.insertDeclaration d).resolve .empty "LBox<+[TU;*>;").signature =
      "LBox<+[Ljava/lang/Object;>;" := by
    unfold Catalog.resolve
    rw [hread]
    decide
  refine ⟨_, hc, hsignature, ?_⟩
  rw [← hsignature]
  exact (resolve_signature_stable hc "LBox<+[TU;*>;" "").1

end TypeCatalog
