import TypeCatalog.Proofs.Catalog.Reachable
import TypeCatalog.Proofs.Signature.RoundTrip
import TypeCatalog.Proofs.Substitution

/-! # Resolution in related scopes

    A signature can be resolved in two scopes of which one tells more about its variables. If what
    the one scope says of a variable is what the other says of it after a replacement, this holds of
    every signature. Names in signatures find classes as declared, which have no variables to
    replace; so a replacement meets the variables of the signature and nothing else. -/

set_option autoImplicit false

namespace TypeCatalog

/-! ## Section 1: Signatures of texts -/

/-- What is read from a text as a signature has names that can be read back. -/
theorem wellFormed_of_readSignature? {text : String} {t : TypeSignature}
    (h : readSignature? text = some t) : t.WellFormed := by
  unfold readSignature? at h
  split at h
  · next whole hparse =>
    rw [← Option.some.inj h]
    exact (Signature.parse_eq_ok_iff.1 hparse).wellFormed
  · split at h
    · next inside hparse =>
      rw [← Option.some.inj h]
      exact (Signature.parse_eq_ok_iff.1 hparse).wellFormed
    · cases h

/-- A text that is a signature as it stands is read as that. -/
theorem readSignature?_eq_some {text : String} {t : TypeSignature}
    (h : Signature.wholeType text.toList = .ok t) : readSignature? text = some t := by
  unfold readSignature?
  rw [Signature.parse_eq_ok_iff_wholeType.2 h]

/-- A text that is none as it stands or as the inside of a class type is not read. -/
theorem readSignature?_eq_none_of_error {text : String} {h h' : Signature.Halt}
    (hwhole : Signature.wholeType text.toList = .error h)
    (hinside : Signature.wholeType ("L" ++ text ++ ";").toList = .error h') :
    readSignature? text = none := by
  unfold readSignature? TypeSignature.parse Signature.run
  rw [hwhole, hinside]
  rfl

/-- A text that is a signature as it stands resolves to what that resolves to. -/
theorem Catalog.resolve_eq_resolveSignature {c : Catalog} {s : Scope} {text : String}
    {t : TypeSignature} (h : TypeSignature.parse text = .ok t) :
    c.resolve s text = c.resolveSignature s t := by
  unfold Catalog.resolve readSignature?
  rw [h]

/-! ## Section 2: Related scopes -/

/-- What a scope says of each variable is what the other says of it, after a replacement. -/
def Scope.Specialises (s' : Scope) (c : Catalog) (f : TypeVariable → ResolvedType) (s : Scope) :
    Prop :=
  ∀ name, c.resolveVariable s' name = c.replaceVariables f (c.resolveVariable s name)

section scopes

variable {c : Catalog} {f : TypeVariable → ResolvedType} {s s' : Scope}

theorem Catalog.Keyed.replaceVariables_objectType (hc : c.Keyed) :
    c.replaceVariables f c.objectType = c.objectType := by
  obtain ⟨d, h⟩ | h := hc.objectType_cases
  · rw [h]
    exact replaceVariables_raw d
  · rw [h]
    rfl

/-- Replacement in a class that is specialised: what is filled up has no variables. -/
theorem Catalog.Keyed.replaceVariables_specialise (hc : c.Keyed) (d : ClassDeclaration)
    (types : List ResolvedType) :
    c.replaceVariables f (c.specialise (.raw d) types).toType =
      (c.specialise (.raw d) (c.replaceAll f types)).toType := by
  have hfilled := map_fillArguments (hc.replaceVariables_objectType (f := f)) d.typeVariables types
  have hlength : (c.argumentsFor d types).length = d.typeVariables.length :=
    length_fillArguments c.objectType d.typeVariables types
  -- The root class that stands for a missing argument is the same before and after.
  show c.replaceVariables f (.classType d (c.argumentsFor d types)) =
    .classType d (c.argumentsFor d (c.replaceAll f types))
  rw [replaceVariables_classType hlength, replaceAll_eq_map, replaceAll_eq_map]
  exact congrArg (ResolvedType.classType d) hfilled

mutual
/-- Signatures resolve to what they resolve to in a scope that tells less, with its variables
    replaced. The induction is on the signature. -/
theorem resolveSignature_eq_replaceVariables (hc : c.Keyed) (hs : s'.Specialises c f s)
    (t : TypeSignature) (ht : t.WellFormed) :
    c.resolveSignature s' t = c.replaceVariables f (c.resolveSignature s t) := by
  cases t with
  | primitive p => rfl
  | typeVariable name => exact hs name
  | array element =>
    rw [Catalog.resolveSignature, Catalog.resolveSignature, replaceVariables_arrayOf,
      resolveSignature_eq_replaceVariables hc hs element ht]
  | classType name arguments =>
    obtain ⟨hname, hargs⟩ := ht
    rw [Catalog.resolveSignature, Catalog.resolveSignature]
    cases hget : c.get? name with
    | none => rfl
    | some known =>
      -- A name in a signature finds a class as declared, so there are no arguments to replace yet.
      have hraw := hc.eq_raw hget (hname.2 '<' (by decide))
      simp only
      rw [hraw]
      by_cases hempty : arguments.isEmpty
      · rw [if_pos hempty, if_pos hempty]
        exact (replaceVariables_raw known.declaration).symm
      · rw [if_neg hempty, if_neg hempty, hc.replaceVariables_specialise,
          resolveArguments_eq_replaceAll hc hs arguments hargs]

theorem resolveArgument_eq_replaceVariables (hc : c.Keyed) (hs : s'.Specialises c f s)
    (a : TypeArgument) (ha : a.WellFormed) :
    c.resolveArgument s' a = c.replaceVariables f (c.resolveArgument s a) := by
  cases a with
  | any => rfl
  | upper bound =>
    rw [Catalog.resolveArgument, Catalog.resolveArgument, Catalog.replaceVariables,
      resolveSignature_eq_replaceVariables hc hs bound ha]
  | lower bound =>
    rw [Catalog.resolveArgument, Catalog.resolveArgument, Catalog.replaceVariables,
      resolveSignature_eq_replaceVariables hc hs bound ha]
  | exactly t => exact resolveSignature_eq_replaceVariables hc hs t ha

theorem resolveArguments_eq_replaceAll (hc : c.Keyed) (hs : s'.Specialises c f s)
    (as : List TypeArgument) (has : TypeArgument.AllWellFormed as) :
    c.resolveArguments s' as = c.replaceAll f (c.resolveArguments s as) := by
  cases as with
  | nil => rfl
  | cons a rest =>
    rw [Catalog.resolveArguments, Catalog.resolveArguments, Catalog.replaceAll,
      resolveArgument_eq_replaceVariables hc hs a has.1,
      resolveArguments_eq_replaceAll hc hs rest has.2]
end

theorem resolve_eq_replaceVariables (hc : c.Keyed) (hs : s'.Specialises c f s)
    (text : String) : c.resolve s' text = c.replaceVariables f (c.resolve s text) := by
  unfold Catalog.resolve
  cases hread : readSignature? text with
  | none => rfl
  | some t =>
    exact resolveSignature_eq_replaceVariables hc hs t (wellFormed_of_readSignature? hread)

end scopes

end TypeCatalog
