import Mathlib.Data.List.Basic
import TypeCatalog.Inheritance
import TypeCatalog.Proofs.Catalog.Legible

/-! # Class types that look alike

    A class type is known by its short signature. Two legible class types of one short signature
    can still differ, in the bounds of type variables that have the same name, but nothing that
    inheritance asks about shows it: they have the same members with the same signatures, and
    their supertypes have the same signatures again. -/

set_option autoImplicit false

namespace TypeCatalog

/-- Two class types declare the same members, with the same method signatures, and their supertypes
    have the same short signatures. -/
structure ClassType.Alike (c : Catalog) (t t' : ClassType) : Prop where
  declaration : t.declaration = t'.declaration
  signatureIn : ∀ m ∈ t.declaration.methods, m.signatureIn t = m.signatureIn t'
  superclasses : (Search.superclasses c t).map ClassType.shortSignature =
    (Search.superclasses c t').map ClassType.shortSignature

variable {c : Catalog}

/-! ## Section 1: What the short signature tells -/

theorem ClassType.argumentChars_inj {t t' : ClassType} (h : t.argumentChars = t'.argumentChars) :
    t.arguments.map ResolvedType.signature = t'.arguments.map ResolvedType.signature := by
  have hofList := congrArg (List.map String.ofList) h
  simpa [ClassType.argumentChars, Function.comp_def] using hofList

/-- The short signature of a legible class type tells its class and the signatures of its
    arguments. -/
theorem ClassType.eq_of_shortSignature_eq {t t' : ClassType} (ht : t.toType.Legible c)
    (ht' : t'.toType.Legible c) (h : t.shortSignature = t'.shortSignature) :
    t.declaration = t'.declaration ∧
      t.arguments.map ResolvedType.signature = t'.arguments.map ResolvedType.signature := by
  obtain ⟨hname, hget, hargs⟩ := ht
  obtain ⟨hname', hget', hargs'⟩ := ht'
  have hparts := ResolvedType.AllLegible.isMarked hargs
  have hparts' := ResolvedType.AllLegible.isMarked hargs'
  have htext : t.shortSignature.toList ++ [';'] = t'.shortSignature.toList ++ [';'] := by rw [h]
  rw [t.toList_shortSignature, t'.toList_shortSignature, List.append_assoc,
    List.append_assoc] at htext
  obtain ⟨hshort, hchars, -⟩ := Signature.classChars_append_inj hname hname'
    (fun s hs => (hparts s hs).isSeparate) hparts hparts' htext
  refine ⟨?_, ClassType.argumentChars_inj hchars⟩
  -- Both classes are what the catalog has under the one name.
  rw [hshort, hget'] at hget
  have hraw := Option.some.inj hget
  exact (congrArg ClassType.declaration hraw).symm

/-- The text of a type argument with the bound in place of a wildcard. -/
def Signature.unmarked : List Char → List Char
  | ['*'] => objectSignature.toList
  | '+' :: rest => rest
  | '-' :: rest => rest
  | s => s

theorem toList_argumentSignature {r : ResolvedType} (h : r.Legible c) :
    (Callable.argumentSignature r).toList = Signature.unmarked r.signature.toList := by
  cases r with
  | primitive p => cases p <;> rfl
  | array base dims =>
    obtain ⟨n, rfl⟩ := Nat.exists_eq_add_of_le' h.1
    show (ResolvedType.array base (n + 1)).signature.toList = _
    rw [ResolvedType.signature, String.toList_append, String.toList_ofList, List.replicate_succ]
    rfl
  | classType d arguments =>
    show (ClassType.mk d arguments).toType.signature.toList =
      Signature.unmarked (ClassType.mk d arguments).toType.signature.toList
    rw [ResolvedType.toList_signature_classType]
    rfl
  | typeVariable v =>
    show (ResolvedType.typeVariable v).signature.toList = _
    rw [ResolvedType.signature, String.toList_append, String.toList_append]
    rfl
  | anyWildcard => rfl
  | wildcard kind bound =>
    show bound.signature.toList = _
    cases kind with
    | upper =>
      rw [ResolvedType.signature, String.toList_append]
      rfl
    | lower =>
      rw [ResolvedType.signature, String.toList_append]
      rfl
  | unknownClass n =>
    show (ResolvedType.unknownClass n).signature.toList = _
    rw [ResolvedType.signature, BinaryName.signature, String.toList_append, String.toList_append]
    rfl
  | nullType => exact h.elim

/-- What stands for an argument in the signatures of methods is told by the argument's signature. -/
theorem map_argumentSignature_eq {types types' : List ResolvedType}
    (h : ResolvedType.AllLegible c types) (h' : ResolvedType.AllLegible c types')
    (heq : types.map ResolvedType.signature = types'.map ResolvedType.signature) :
    types.map Callable.argumentSignature = types'.map Callable.argumentSignature := by
  have hunmarked : ∀ {ts : List ResolvedType}, ResolvedType.AllLegible c ts →
      ts.map Callable.argumentSignature = (ts.map ResolvedType.signature).map fun s =>
        String.ofList (Signature.unmarked s.toList) := by
    intro ts hts
    rw [List.map_map]
    apply List.map_congr_left
    intro r hr
    rw [Function.comp_apply, ← toList_argumentSignature (ResolvedType.allLegible_iff.1 hts r hr),
      String.ofList_toList]
  rw [hunmarked h, hunmarked h', heq]

/-! ## Section 2: Bindings by name -/

/-- What is found for a name and then changed is found among the changed ones. -/
theorem map_find?_zip {α β γ : Type} (p : α → Bool) (xs : List α) (ys : List β) (f : β → γ) :
    ((xs.zip ys).find? fun q => p q.1).map (fun q => f q.2) =
      ((xs.zip (ys.map f)).find? fun q => p q.1).map Prod.snd := by
  rw [List.zip_map_right, List.find?_map, Option.map_map]
  rfl

theorem isEmpty_eq_of_map_eq {α β : Type} {f : α → β} {xs ys : List α} (h : xs.map f = ys.map f) :
    xs.isEmpty = ys.isEmpty := by
  rw [← List.isEmpty_map (f := f), h, List.isEmpty_map]

section alike

variable {t t' : ClassType}

theorem signatureIn_eq (m : Callable) (hd : t.declaration = t'.declaration)
    (hargs : t.arguments.map Callable.argumentSignature =
      t'.arguments.map Callable.argumentSignature) : m.signatureIn t = m.signatureIn t' := by
  have hspecialised : t.isSpecialised = t'.isSpecialised := by
    rw [ClassType.isSpecialised, ClassType.isSpecialised, isEmpty_eq_of_map_eq hargs]
  have hargument : m.ownerArgument? t = m.ownerArgument? t' := by
    funext name
    unfold Callable.ownerArgument? ClassType.bindings
    have hbound := map_find?_zip (fun v : TypeVariable => v.name == name)
      t.declaration.typeVariables t.arguments Callable.argumentSignature
    have hbound' := map_find?_zip (fun v : TypeVariable => v.name == name)
      t'.declaration.typeVariables t'.arguments Callable.argumentSignature
    rw [hargs, hd] at hbound
    rw [hd]
    rw [hbound, hbound']
  unfold Callable.signatureIn
  rw [hspecialised, hargument]

/-- What a variable means inside a class type is written by what the arguments are written by. -/
theorem signature_resolveVariable_eq (hd : t.declaration = t'.declaration)
    (hargs : t.arguments.map ResolvedType.signature = t'.arguments.map ResolvedType.signature)
    (methodVariables : List TypeVariable) (name : String) :
    (c.resolveVariable (t.scope.withMethod methodVariables) name).signature =
      (c.resolveVariable (t'.scope.withMethod methodVariables) name).signature := by
  have hempty := isEmpty_eq_of_map_eq hargs
  have hbound := map_find?_zip (fun v : TypeVariable => v.name == name)
    t.declaration.typeVariables t.arguments ResolvedType.signature
  have hbound' := map_find?_zip (fun v : TypeVariable => v.name == name)
    t'.declaration.typeVariables t'.arguments ResolvedType.signature
  rw [hargs, hd, ← hbound'] at hbound
  unfold Catalog.resolveVariable Scope.lookup? ClassType.scope Scope.withMethod
  simp only [hd, hempty]
  cases Scope.findVariable? methodVariables name with
  | some v => rfl
  | none =>
    by_cases h : t'.arguments.isEmpty
    · simp only [if_pos h]
    · simp only [if_neg h]
      cases hfind : (t'.declaration.typeVariables.zip t.arguments).find? fun q => q.1.name == name
        with
      | none =>
        rw [hfind] at hbound
        rw [Option.map_eq_none_iff.1 hbound.symm]
      | some q =>
        rw [hfind] at hbound
        obtain ⟨q', hfind', hq⟩ := Option.map_eq_some_iff.1 hbound.symm
        rw [hfind']
        exact hq.symm

end alike

/-! ## Section 3: Resolution in scopes that write alike -/

theorem ResolvedType.signature_arrayOf (r : ResolvedType) :
    (r.arrayOf 1).signature = "[" ++ r.signature := by
  rcases arrayOf_cases r 1 with ⟨base, dims, rfl, heq⟩ | ⟨-, heq⟩
  · rw [heq, ResolvedType.signature, ResolvedType.signature, ← String.toList_inj]
    simp [List.replicate_succ]
  · rw [heq, ResolvedType.signature]
    rfl

theorem map_signature_fillArguments (default : ResolvedType) (typeVariables : List TypeVariable)
    {types types' : List ResolvedType}
    (h : types.map ResolvedType.signature = types'.map ResolvedType.signature) :
    (fillArguments default typeVariables types).map ResolvedType.signature =
      (fillArguments default typeVariables types').map ResolvedType.signature := by
  induction typeVariables generalizing types types' with
  | nil =>
    cases types <;> cases types' <;> rfl
  | cons v typeVariables ih =>
    cases types with
    | nil =>
      obtain rfl := List.map_eq_nil_iff.1 h.symm
      rfl
    | cons r types =>
      obtain ⟨r', types', rfl, hr, htypes⟩ := List.map_eq_cons_iff.1 h.symm
      rw [fillArguments, fillArguments, List.map_cons, List.map_cons, ih htypes.symm, hr]

section scopes

variable {s s' : Scope}

mutual
/-- In two scopes that mean by each variable what is written alike, signatures resolve to types that
    are written alike. The induction is on the signature. -/
theorem signature_resolveSignature_eq
    (hs : ∀ name, (c.resolveVariable s name).signature = (c.resolveVariable s' name).signature)
    (t : TypeSignature) :
    (c.resolveSignature s t).signature = (c.resolveSignature s' t).signature := by
  cases t with
  | primitive p => rfl
  | typeVariable name => exact hs name
  | array element =>
    rw [Catalog.resolveSignature, Catalog.resolveSignature, ResolvedType.signature_arrayOf,
      ResolvedType.signature_arrayOf, signature_resolveSignature_eq hs element]
  | classType name arguments =>
    rw [Catalog.resolveSignature, Catalog.resolveSignature]
    cases c.get? name with
    | none => rfl
    | some known =>
      by_cases hempty : arguments.isEmpty
      · simp only [if_pos hempty]
      · simp only [if_neg hempty]
        have hfilled := map_signature_fillArguments c.objectType known.declaration.typeVariables
          (signature_resolveArguments_eq hs arguments)
        rw [Catalog.specialise, Catalog.specialise, ClassType.signature_toType,
          ClassType.signature_toType, ClassType.shortSignature, ClassType.shortSignature,
          ResolvedType.signatures_eq_map, ResolvedType.signatures_eq_map]
        unfold Catalog.argumentsFor
        rw [hfilled]
theorem signature_resolveArgument_eq
    (hs : ∀ name, (c.resolveVariable s name).signature = (c.resolveVariable s' name).signature)
    (a : TypeArgument) :
    (c.resolveArgument s a).signature = (c.resolveArgument s' a).signature := by
  cases a with
  | any => rfl
  | upper bound =>
    rw [Catalog.resolveArgument, Catalog.resolveArgument, ResolvedType.signature,
      ResolvedType.signature, signature_resolveSignature_eq hs bound]
  | lower bound =>
    rw [Catalog.resolveArgument, Catalog.resolveArgument, ResolvedType.signature,
      ResolvedType.signature, signature_resolveSignature_eq hs bound]
  | exactly t => exact signature_resolveSignature_eq hs t
theorem signature_resolveArguments_eq
    (hs : ∀ name, (c.resolveVariable s name).signature = (c.resolveVariable s' name).signature)
    (as : List TypeArgument) :
    (c.resolveArguments s as).map ResolvedType.signature =
      (c.resolveArguments s' as).map ResolvedType.signature := by
  cases as with
  | nil => rfl
  | cons a rest =>
    rw [Catalog.resolveArguments, Catalog.resolveArguments, List.map_cons, List.map_cons,
      signature_resolveArgument_eq hs a, signature_resolveArguments_eq hs rest]
end

end scopes

/-! ## Section 4: Supertypes -/

theorem ResolvedType.asClass?_eq_some_iff {r : ResolvedType} {t : ClassType} :
    r.asClass? = some t ↔ r = t.toType := by
  cases r with
  | classType d arguments =>
    show some (ClassType.mk d arguments) = some t ↔ (ClassType.mk d arguments).toType = t.toType
    rw [ClassType.toType_inj]
    exact Option.some_inj
  | _ => exact ⟨nofun, nofun⟩

/-- A legible type that is written like a class type is one. -/
theorem ResolvedType.Legible.exists_class {t : ClassType} {r : ResolvedType}
    (ht : t.toType.Legible c) (hr : r.Legible c) (h : r.signature = t.toType.signature) :
    ∃ t' : ClassType, r = t'.toType ∧ t'.shortSignature = t.shortSignature := by
  have htext := congrArg String.toList h
  rw [ResolvedType.toList_signature_classType t, List.cons_append, List.cons_append] at htext
  cases r with
  | classType d arguments =>
    refine ⟨⟨d, arguments⟩, rfl, ?_⟩
    change (ClassType.mk d arguments).toType.signature = t.toType.signature at h
    rw [ClassType.signature_toType, ClassType.signature_toType] at h
    have hchars := congrArg String.toList h
    simp only [String.toList_append, List.append_assoc] at hchars
    exact String.toList_inj.1 (List.append_cancel_right (List.append_cancel_left hchars))
  | unknownClass n =>
    -- A name without a class is not written like a class: it has no arguments, and a class that has
    -- none is the one that the catalog has under the name.
    obtain ⟨hname, hnone⟩ := hr
    obtain ⟨hshort, hget, hargs⟩ := ht
    have hunknown : (ResolvedType.unknownClass n).signature.toList =
        'L' :: (n.short.toList ++ (Signature.bracketedChars [] ++ [';'])) := by
      simp [ResolvedType.signature, BinaryName.signature, Signature.bracketedChars]
    rw [hunknown, List.append_assoc] at htext
    have hparts := ResolvedType.AllLegible.isMarked hargs
    obtain ⟨heq, -, -⟩ := Signature.classChars_append_inj hname hshort
      (List.forall_mem_nil Signature.IsSeparate) (List.forall_mem_nil Signature.IsMarked) hparts
      (List.cons.inj htext).2
    rw [heq, hget] at hnone
    cases hnone
  | primitive p =>
    rw [ResolvedType.signature, String.toList_singleton] at htext
    exact absurd (List.cons.inj htext).1 (by cases p <;> decide)
  | array base dims =>
    obtain ⟨n, rfl⟩ := Nat.exists_eq_add_of_le' hr.1
    rw [ResolvedType.signature, String.toList_append, String.toList_ofList,
      List.replicate_succ, List.cons_append] at htext
    exact absurd (List.cons.inj htext).1 (by decide)
  | typeVariable v =>
    rw [ResolvedType.signature, String.toList_append, String.toList_append] at htext
    exact absurd (List.cons.inj htext).1 (by decide)
  | anyWildcard => exact absurd (List.cons.inj htext).1 (by decide)
  | wildcard kind bound =>
    cases kind <;>
    · rw [ResolvedType.signature, String.toList_append] at htext
      exact absurd (List.cons.inj htext).1 (by decide)
  | nullType => exact hr.elim

theorem map_asClass?_eq {r r' : ResolvedType} (hr : r.Legible c) (hr' : r'.Legible c)
    (h : r.signature = r'.signature) :
    r.asClass?.map ClassType.shortSignature = r'.asClass?.map ClassType.shortSignature := by
  cases hclass : r.asClass? with
  | some t =>
    obtain rfl := ResolvedType.asClass?_eq_some_iff.1 hclass
    obtain ⟨t', rfl, ht'⟩ := hr.exists_class hr' h.symm
    exact congrArg some ht'.symm
  | none =>
    cases hclass' : r'.asClass? with
    | none => rfl
    | some t' =>
      obtain rfl := ResolvedType.asClass?_eq_some_iff.1 hclass'
      obtain ⟨t, rfl, -⟩ := hr'.exists_class hr h
      cases hclass

/-- A text that is resolved inside two class types whose arguments are written alike gives class
    types of the same short signature in both, or in none. -/
theorem Catalog.Keyed.map_asClass?_resolveIn (hc : c.Keyed) {t t' : ClassType}
    (ht : t.toType.Legible c) (ht' : t'.toType.Legible c) (hd : t.declaration = t'.declaration)
    (hargs : t.arguments.map ResolvedType.signature = t'.arguments.map ResolvedType.signature)
    (text : String) :
    (c.resolveIn t [] text).asClass?.map ClassType.shortSignature =
      (c.resolveIn t' [] text).asClass?.map ClassType.shortSignature := by
  unfold Catalog.resolveIn Catalog.resolve
  cases hread : readSignature? text with
  | none => rfl
  | some signature =>
    have hwf := wellFormed_of_readSignature? hread
    have hlegible := c.closed_legible.resolveSignature hc (t.means_legible hc ht []) signature hwf
    have hlegible' :=
      c.closed_legible.resolveSignature hc (t'.means_legible hc ht' []) signature hwf
    exact map_asClass?_eq hlegible hlegible'
      (signature_resolveSignature_eq (signature_resolveVariable_eq hd hargs []) signature)

/-- Legible class types of one short signature look alike. -/
theorem Catalog.Keyed.alike (hc : c.Keyed) {t t' : ClassType} (ht : t.toType.Legible c)
    (ht' : t'.toType.Legible c) (h : t.shortSignature = t'.shortSignature) : t.Alike c t' := by
  obtain ⟨hd, hargs⟩ := ClassType.eq_of_shortSignature_eq ht ht' h
  refine ⟨hd, fun m _ => ?_, ?_⟩
  · exact signatureIn_eq m.toCallable hd (map_argumentSignature_eq ht.2.2 ht'.2.2 hargs)
  · unfold Search.superclasses Catalog.supertypes
    rw [List.filterMap_map, List.filterMap_map, List.map_filterMap, List.map_filterMap, hd]
    apply List.filterMap_congr
    intro text _
    exact hc.map_asClass?_resolveIn ht ht' hd hargs text

end TypeCatalog
