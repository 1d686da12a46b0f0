import TypeCatalog.Member
import TypeCatalog.Proofs.Catalog.Signature
import TypeCatalog.Proofs.Signature.Replacement

/-! # Replacement before resolution

    What a signature means inside a specialised class can be found in two ways: the tree is
    resolved where the variables of the class are bound to its arguments, or the signatures of the
    arguments are put into the text and the text is resolved where the class is not known. Both
    give one type, as long as the arguments are types that have no variables themselves. -/

set_option autoImplicit false

namespace TypeCatalog

variable {c : Catalog}

/-! ## Section 1: Types without variables -/

mutual
/-- A signature without variables resolves to the same type in every scope. -/
theorem resolveSignature_eq_of_closed (s s' : Scope) (t : TypeSignature)
    (h : t.mentionsVariable = false) : c.resolveSignature s t = c.resolveSignature s' t := by
  match t with
  | .primitive p => rfl
  | .typeVariable name => cases h
  | .array element =>
    rw [Catalog.resolveSignature, Catalog.resolveSignature,
      resolveSignature_eq_of_closed s s' element h]
  | .classType name arguments =>
    rw [Catalog.resolveSignature, Catalog.resolveSignature,
      resolveArguments_eq_of_closed s s' arguments h]
theorem resolveArgument_eq_of_closed (s s' : Scope) (a : TypeArgument)
    (h : a.mentionsVariable = false) : c.resolveArgument s a = c.resolveArgument s' a := by
  match a with
  | .any => rfl
  | .upper bound =>
    rw [Catalog.resolveArgument, Catalog.resolveArgument,
      resolveSignature_eq_of_closed s s' bound h]
  | .lower bound =>
    rw [Catalog.resolveArgument, Catalog.resolveArgument,
      resolveSignature_eq_of_closed s s' bound h]
  | .exactly t => exact resolveSignature_eq_of_closed s s' t h
theorem resolveArguments_eq_of_closed (s s' : Scope) (as : List TypeArgument)
    (h : TypeArgument.anyMentionsVariable as = false) :
    c.resolveArguments s as = c.resolveArguments s' as := by
  match as with
  | [] => rfl
  | a :: rest =>
    obtain ⟨ha, hrest⟩ := Bool.or_eq_false_iff.1 h
    rw [Catalog.resolveArguments, Catalog.resolveArguments, resolveArgument_eq_of_closed s s' a ha,
      resolveArguments_eq_of_closed s s' rest hrest]
end

theorem mentionsVariable_ofDimensions (n : Nat) (t : TypeSignature) :
    (TypeSignature.ofDimensions n t).mentionsVariable = t.mentionsVariable := by
  induction n with
  | zero => rfl
  | succ n ih => exact ih

mutual
theorem Catalog.Writes.closed {t : TypeSignature} {r : ResolvedType} (h : c.Writes t r) :
    t.mentionsVariable = false :=
  match h with
  | .primitive _ => rfl
  | .array _ _ h => (mentionsVariable_ofDimensions _ _).trans h.closed
  | .declared _ _ => rfl
  | .specialised _ _ _ _ h => h.closed
  | .unknown _ _ => rfl
termination_by structural h
theorem Catalog.WritesArgument.closed {a : TypeArgument} {r : ResolvedType}
    (h : c.WritesArgument a r) : a.mentionsVariable = false :=
  match h with
  | .any => rfl
  | .upper h => h.closed
  | .lower h => h.closed
  | .exactly h => h.closed
termination_by structural h
theorem Catalog.WritesAll.closed {as : List TypeArgument} {types : List ResolvedType}
    (h : c.WritesAll as types) : TypeArgument.anyMentionsVariable as = false :=
  match h with
  | .nil => rfl
  | .cons ha has => Bool.or_eq_false_iff.2 ⟨ha.closed, has.closed⟩
termination_by structural h
end

/-- The signature that writes a type resolves to it in every scope. -/
theorem Catalog.Writes.resolve_eq_in {t : TypeSignature} {r : ResolvedType} (h : c.Writes t r)
    (s : Scope) : c.resolveSignature s t = r := by
  rw [resolveSignature_eq_of_closed s .empty t h.closed, h.resolve_eq]

theorem Catalog.Writes.text_eq {t : TypeSignature} {r : ResolvedType} (h : c.Writes t r) :
    t.text = r.signature := by
  rw [TypeSignature.text, h.chars_eq, String.ofList_toList]

/-- A type that a signature writes is no wildcard. -/
theorem Catalog.Writes.argumentSignature_eq {t : TypeSignature} {r : ResolvedType}
    (h : c.Writes t r) : Callable.argumentSignature r = r.signature := by
  cases h <;> rfl

/-! ## Section 2: Resolution after replacement -/

section graft

variable {f : String → Option TypeSignature} {s s' : Scope}

mutual
/-- If each variable means in one scope what stands for it means in the other, so does every
    signature. The induction is on the signature. -/
theorem resolveSignature_graft
    (hf : ∀ name, c.resolveSignature s' ((f name).getD (.typeVariable name)) =
      c.resolveVariable s name)
    (t : TypeSignature) : c.resolveSignature s' (t.graft f) = c.resolveSignature s t := by
  match t with
  | .primitive p => rfl
  | .typeVariable name => exact hf name
  | .array element =>
    rw [TypeSignature.graft, Catalog.resolveSignature, Catalog.resolveSignature,
      resolveSignature_graft hf element]
  | .classType name arguments =>
    have hempty : (TypeArgument.graftAll f arguments).isEmpty = arguments.isEmpty := by
      cases arguments <;> rfl
    rw [TypeSignature.graft, Catalog.resolveSignature, Catalog.resolveSignature, hempty,
      resolveArguments_graft hf arguments]
theorem resolveArgument_graft
    (hf : ∀ name, c.resolveSignature s' ((f name).getD (.typeVariable name)) =
      c.resolveVariable s name)
    (a : TypeArgument) : c.resolveArgument s' (a.graft f) = c.resolveArgument s a := by
  match a with
  | .any => rfl
  | .upper bound =>
    rw [TypeArgument.graft, Catalog.resolveArgument, Catalog.resolveArgument,
      resolveSignature_graft hf bound]
  | .lower bound =>
    rw [TypeArgument.graft, Catalog.resolveArgument, Catalog.resolveArgument,
      resolveSignature_graft hf bound]
  | .exactly t => exact resolveSignature_graft hf t
theorem resolveArguments_graft
    (hf : ∀ name, c.resolveSignature s' ((f name).getD (.typeVariable name)) =
      c.resolveVariable s name)
    (as : List TypeArgument) :
    c.resolveArguments s' (TypeArgument.graftAll f as) = c.resolveArguments s as := by
  match as with
  | [] => rfl
  | a :: rest =>
    rw [TypeArgument.graftAll, Catalog.resolveArguments, Catalog.resolveArguments,
      resolveArgument_graft hf a, resolveArguments_graft hf rest]
end

end graft

/-! ## Section 3: The arguments of the class in the text -/

/-- What a variable of the owner is replaced with in the signature of a method, as a tree. -/
def Callable.ownerTree? (m : Callable) (owner : ClassType) (name : String) :
    Option TypeSignature :=
  (m.ownerArgument? owner name).bind fun text => (TypeSignature.parse text).toOption

section owner

variable {m : Callable} {owner : ClassType}

/-- A name either is bound to an argument of the owner, and what stands for it in the text is the
    signature of that argument, or it stays in the text and means what it means in the method. -/
theorem Callable.ownerTree?_cases (hwrites : ∀ r ∈ owner.arguments, ∃ t, c.Writes t r)
    (howner : owner.isSpecialised = true) (name : String) :
    (∃ t, c.Writes t
        (c.resolveVariable (owner.scope.withMethod m.parts.typeVariables) name) ∧
      m.ownerArgument? owner name = some t.text ∧ m.ownerTree? owner name = some t) ∨
    (m.ownerArgument? owner name = none ∧ m.ownerTree? owner name = none ∧
      c.resolveVariable (owner.scope.withMethod m.parts.typeVariables) name =
        c.resolveVariable (.ofMethod m.parts.typeVariables) name) := by
  have hbound : owner.arguments.isEmpty = false := by
    rw [ClassType.isSpecialised, Bool.not_eq_true'] at howner
    exact howner
  unfold Callable.ownerTree? Callable.ownerArgument? Catalog.resolveVariable Scope.lookup?
  simp only [ClassType.scope, Scope.withMethod, Scope.ofMethod, hbound]
  cases hmethod : Scope.findVariable? m.parts.typeVariables name with
  | some v =>
    -- A variable of the method hides that of the class.
    have hany : m.parts.typeVariables.any fun v => v.name == name := by
      have hfind := List.find?_some (p := fun w : TypeVariable => w.name == name) hmethod
      exact List.any_eq_true.2 ⟨v, List.mem_of_find?_eq_some hmethod, hfind⟩
    rw [if_pos hany]
    exact .inr ⟨rfl, rfl, rfl⟩
  | none =>
    have hany : (m.parts.typeVariables.any fun v => v.name == name) = false := by
      rw [List.any_eq_false]
      exact List.find?_eq_none.1 hmethod
    simp only [hany, ClassType.bindings, Bool.false_eq_true, if_false]
    cases hfind : (owner.declaration.typeVariables.zip owner.arguments).find? fun q =>
        q.1.name == name with
    | some q =>
      obtain ⟨t, ht⟩ := hwrites q.2 (List.of_mem_zip (List.mem_of_find?_eq_some hfind)).2
      have htext : Callable.argumentSignature q.2 = t.text := by
        rw [ht.argumentSignature_eq, ht.text_eq]
      refine .inl ⟨t, ht, congrArg some htext, ?_⟩
      rw [Option.map_some, Option.bind_some, htext, ht.wellFormed.parse_text_eq]
      rfl
    | none => exact .inr ⟨rfl, rfl, rfl⟩

end owner

theorem TypeSignature.WellFormed.resolve_text_eq {t : TypeSignature} (h : t.WellFormed)
    (s : Scope) : c.resolve s t.text = c.resolveSignature s t :=
  Catalog.resolve_eq_resolveSignature h.parse_text_eq

/-- Inside a class whose arguments were resolved from signatures where no variable is in scope, a
    signature means what its text means in the scope of the method, after the signatures of the
    arguments were put in place of the variables of the class. -/
theorem Catalog.resolve_substitute (hc : c.Reachable) (m : Callable) (owner : ClassType)
    (howner : owner.isSpecialised = true)
    (harguments : ∀ r ∈ owner.arguments, ∃ text t, TypeSignature.parse text = .ok t ∧
      r = c.resolve .empty text)
    (t : TypeSignature) (ht : t.WellFormed) (hsearch : t.Searchable) :
    c.resolve (.ofMethod m.parts.typeVariables)
        (Signature.substitute (m.ownerArgument? owner) t.text) =
      c.resolveIn owner m.parts.typeVariables t.text := by
  have hwrites : ∀ r ∈ owner.arguments, ∃ u, c.Writes u r := by
    intro r hr
    obtain ⟨text, u, hparse, rfl⟩ := harguments r hr
    unfold Catalog.resolve readSignature?
    rw [hparse]
    exact hc.keyed.exists_writes u (Signature.parse_eq_ok_iff.1 hparse).wellFormed
  have hcases := Callable.ownerTree?_cases (m := m) hwrites howner
  have hlookup : ∀ name,
      m.ownerArgument? owner name = (m.ownerTree? owner name).map TypeSignature.text := by
    intro name
    rcases hcases name with ⟨u, -, hargument, htree⟩ | ⟨hargument, htree, -⟩
    · rw [hargument, htree, Option.map_some]
    · rw [hargument, htree, Option.map_none]
  have hform : ∀ name u, m.ownerTree? owner name = some u → u.WellFormed := by
    intro name u hu
    rcases hcases name with ⟨u', hwrites', -, htree⟩ | ⟨-, htree, -⟩
    · rw [hu] at htree
      rw [Option.some.inj htree]
      exact hwrites'.wellFormed
    · rw [hu] at htree
      cases htree
  have hvariable : ∀ name, c.resolveSignature (.ofMethod m.parts.typeVariables)
      ((m.ownerTree? owner name).getD (.typeVariable name)) =
        c.resolveVariable (owner.scope.withMethod m.parts.typeVariables) name := by
    intro name
    rcases hcases name with ⟨u, hu, -, htree⟩ | ⟨-, htree, hmeaning⟩
    · rw [htree]
      exact hu.resolve_eq_in _
    · rw [htree, hmeaning]
      rfl
  rw [TypeSignature.substitute_text hlookup ht hsearch, (ht.graft hform).resolve_text_eq,
    Catalog.resolveIn, ht.resolve_text_eq]
  exact resolveSignature_graft hvariable t

/-- In a box of arrays, an array of the variable is an array of one more dimension. -/
theorem Catalog.resolve_substitute_box :
    let d : ClassDeclaration := ⟨⟨"Box"⟩, ⟨0⟩, "", [⟨"T", []⟩], [], [], [], []⟩
    let c := Catalog.empty.insertDeclaration d
    let owner : ClassType := ⟨d, [.array (.primitive .int) 1]⟩
    let m : Callable := ⟨⟨1⟩, "", "(LBox<[TT;>;)V", ⟨[], ["LBox<[TT;>;"], "V", []⟩, [], false⟩
    Signature.substitute (m.ownerArgument? owner) "LBox<[TT;>;" = "LBox<[[I>;" ∧
      c.resolve (.ofMethod []) "LBox<[[I>;" = c.resolveIn owner [] "LBox<[TT;>;" := by
  intro d c owner m
  have hc : c.Reachable := .insertDeclaration d .empty
  have harguments : ∀ r ∈ owner.arguments, ∃ text t, TypeSignature.parse text = .ok t ∧
      r = c.resolve .empty text := by
    intro r hr
    have hparse : TypeSignature.parse "[I" = .ok (.array (.primitive .int)) :=
      Signature.parse_eq_ok_iff_wholeType.2 (by cbv)
    refine ⟨"[I", _, hparse, ?_⟩
    rw [List.mem_singleton.1 hr]
    unfold Catalog.resolve readSignature?
    rw [hparse]
    rfl
  have hwords : ∀ ch ∈ "T".toList, Text.isWord ch = true := by
    have hword : Text.isWord 'T' = true := by decide +kernel
    intro ch hch
    rw [List.mem_singleton.1 hch]
    exact hword
  have htext : Signature.substitute (m.ownerArgument? owner) "LBox<[TT;>;" = "LBox<[[I>;" := by
    decide +kernel
  have hvariable : Signature.IsVariableName "T" := by simp [Signature.IsName]
  have hclass : Signature.IsClassName "Box" := by simp [Signature.IsName]
  have hsame := Catalog.resolve_substitute hc m owner rfl harguments
    (.classType "Box" [.exactly (.array (.typeVariable "T"))])
    ⟨hclass, hvariable, trivial⟩ ⟨by simp, ⟨by simp, hwords⟩, trivial⟩
  refine ⟨htext, ?_⟩
  rw [← htext]
  exact hsame

end TypeCatalog
