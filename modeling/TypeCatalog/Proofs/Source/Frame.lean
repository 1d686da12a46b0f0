import TypeCatalog.Proofs.Source.Annotation

/-! # What documentation leaves alone

    To document a class is to write texts of documentation and names of parameters, and these are
    nothing that a member of the source is looked up by. So everything else in the class is as it
    was, a field or a method that no member is looked up at is as it was altogether, and documenting
    the class once more changes nothing. A member is looked up at a method with as many parameters
    as its own, so the method gets as many names. -/

set_option autoImplicit false

namespace TypeCatalog

/-! ## Section 1: Classes without documentation -/

/-- A field without its documentation. -/
def CompiledField.bare (f : CompiledField) : CompiledField := { f with docs := "" }

/-- A method without its documentation and the names of its parameters. -/
def CompiledMethod.bare (compiled : CompiledMethod) : CompiledMethod :=
  { compiled with docs := "", parameterNames := [] }

/-- A class without the documentation of itself, its fields and its methods, and without the names
    of parameters. -/
def CompiledClass.bare (c : CompiledClass) : CompiledClass :=
  { c with
    docs := ""
    fields := c.fields.map CompiledField.bare
    methods := c.methods.map CompiledMethod.bare }

namespace Source

theorem Member.bare_describeField (m : Member) (f : CompiledField) :
    (m.describeField f).bare = f.bare :=
  rfl

theorem Member.bare_describeMethod (m : Member) (compiled : CompiledMethod) :
    (m.describeMethod compiled).bare = compiled.bare :=
  rfl

variable {outer : List String} {t : TypeUnit} {c : CompiledClass} {m : Member} {i : Nat}

/-! ## Section 2: Members and parameters -/

theorem length_of_admitParameters {typeVariables : List String} {parameters : List Parameter}
    {descriptors : List String} (h : admitParameters typeVariables parameters descriptors = true) :
    parameters.length = descriptors.length := by
  induction parameters generalizing descriptors with
  | nil =>
    cases descriptors with
    | nil => rfl
    | cons d ds => cases h
  | cons p ps ih =>
    cases descriptors with
    | nil => cases h
    | cons d ds =>
      rw [admitParameters, Bool.and_eq_true] at h
      rw [List.length_cons, List.length_cons, ih h.2]

/-- A method that a member is looked up at has as many parameters as the member. -/
theorem Member.exists_parse_of_isSourceOf {compiled : CompiledMethod}
    (h : m.isSourceOf outer compiled = true) :
    ∃ parts, MethodSignature.parse compiled.descriptor = .ok parts ∧
      m.parameters.length = parts.parameters.length := by
  rw [isSourceOf, Bool.and_eq_true] at h
  have hadmits := h.2
  unfold admits at hadmits
  cases hparse : MethodSignature.parse compiled.descriptor with
  | error e =>
    rw [hparse] at hadmits
    cases hadmits
  | ok parts =>
    rw [hparse] at hadmits
    exact ⟨parts, rfl, length_of_admitParameters hadmits⟩

/-! ## Section 3: All members -/

namespace TypeUnit

/-- The fields of a class with what the members of a type say about them. -/
def describeFields (t : TypeUnit) (fields : List CompiledField) : List CompiledField :=
  updateEach (fun m f => f.name == m.name) Member.describeField
    (t.members.filter fun m => !m.isCallable) fields

/-- The methods of a class with what the members of a type say about them. -/
def describeMethods (t : TypeUnit) (methods : List CompiledMethod) : List CompiledMethod :=
  updateEach (Member.isSourceOf · t.typeVariables) Member.describeMethod t.callables methods

theorem annotate_eq (t : TypeUnit) (c : CompiledClass) :
    t.annotate c =
      { c with
        docs := t.docs
        fields := t.describeFields c.fields
        methods := t.describeMethods c.methods } :=
  foldl_annotate t.typeVariables t.members { c with docs := t.docs }

theorem fields_annotate (t : TypeUnit) (c : CompiledClass) :
    (t.annotate c).fields = t.describeFields c.fields := by
  rw [annotate_eq]

theorem methods_annotate (t : TypeUnit) (c : CompiledClass) :
    (t.annotate c).methods = t.describeMethods c.methods := by
  rw [annotate_eq]

/-- Nothing but documentation and names of parameters is changed. -/
theorem bare_annotate (t : TypeUnit) (c : CompiledClass) : (t.annotate c).bare = c.bare := by
  have hfields : (t.describeFields c.fields).map CompiledField.bare =
      c.fields.map CompiledField.bare := map_updateEach Member.bare_describeField _ _
  have hmethods : (t.describeMethods c.methods).map CompiledMethod.bare =
      c.methods.map CompiledMethod.bare := map_updateEach Member.bare_describeMethod _ _
  rw [annotate_eq]
  simp only [CompiledClass.bare, hfields, hmethods]

theorem annotate_annotate (t : TypeUnit) (c : CompiledClass) :
    t.annotate (t.annotate c) = t.annotate c := by
  have hfields : t.describeFields (t.describeFields c.fields) = t.describeFields c.fields :=
    isOverwriting_describeField.updateEach_updateEach
  have hmethods : t.describeMethods (t.describeMethods c.methods) = t.describeMethods c.methods :=
    (isOverwriting_describeMethod t.typeVariables).updateEach_updateEach
  simp only [annotate_eq, hfields, hmethods]

/-- A field is as it was, or it has the documentation of a member that has its name. -/
theorem fields_annotate_cases {f : CompiledField} (hf : c.fields[i]? = some f) :
    (t.annotate c).fields[i]? = some f ∨
      ∃ m ∈ t.members, m.isCallable = false ∧ m.name = f.name ∧
        (t.annotate c).fields[i]? = some (m.describeField f) := by
  rw [fields_annotate, describeFields]
  rcases isOverwriting_describeField.getElem?_updateEach_cases _ hf with
    ⟨-, hkept⟩ | ⟨m, hm, -, hname, hdescribed⟩
  · exact .inl hkept
  · obtain ⟨hm, hfield⟩ := List.mem_filter.1 hm
    rw [Bool.not_eq_true'] at hfield
    exact .inr ⟨m, hm, hfield, (beq_iff_eq.1 hname).symm, hdescribed⟩

/-- A method is as it was where no member is looked up at it, or it has what a member says that is
    looked up at it and that it can be made from. -/
theorem methods_annotate_cases {compiled : CompiledMethod}
    (hcompiled : c.methods[i]? = some compiled) :
    ((∀ m ∈ t.members, m.takes t.typeVariables c.methods i = false) ∧
        (t.annotate c).methods[i]? = some compiled) ∨
      ∃ m ∈ t.members, m.takes t.typeVariables c.methods i = true ∧
        m.isSourceOf t.typeVariables compiled = true ∧
        (t.annotate c).methods[i]? = some (m.describeMethod compiled) := by
  rw [methods_annotate, describeMethods]
  rcases (isOverwriting_describeMethod t.typeVariables).getElem?_updateEach_cases t.callables
    hcompiled with ⟨hnone, hkept⟩ | ⟨m, hm, hplace, hsource, hdescribed⟩
  -- Only methods and constructors are worked off here, and a field comes to no method.
  · refine .inl ⟨fun m hm => ?_, hkept⟩
    rw [Bool.eq_false_iff]
    intro htakes
    rw [Member.takes, Bool.and_eq_true, beq_iff_eq] at htakes
    exact hnone m (List.mem_filter.2 ⟨hm, htakes.1⟩) htakes.2
  · obtain ⟨hm, hcallable⟩ := List.mem_filter.1 hm
    refine .inr ⟨m, hm, ?_, hsource, hdescribed⟩
    rw [Member.takes, hcallable, hplace, Bool.true_and, beq_self_eq_true]

/-- To document a class changes nothing but the documentation of the class, its fields and its
    methods and the names of the parameters of methods. A field that no member has the name of and
    a method that none is the source of are as they were. A method that a member is looked up at
    gets what such a member says, with as many names of parameters as it has parameters; any other
    one is as it was. And to document the class once more changes nothing. -/
theorem annotate_frame (t : TypeUnit) (c : CompiledClass) :
    (t.annotate c).bare = c.bare ∧
    (∀ (i : Nat) (f : CompiledField), c.fields[i]? = some f →
      (∀ m ∈ t.members, m.isCallable = false → m.name ≠ f.name) →
        (t.annotate c).fields[i]? = some f) ∧
    (∀ (i : Nat) (compiled : CompiledMethod), c.methods[i]? = some compiled →
      (∀ m ∈ t.members, m.isCallable = true → m.isSourceOf t.typeVariables compiled = false) →
        (t.annotate c).methods[i]? = some compiled) ∧
    (∀ (i : Nat) (compiled : CompiledMethod), c.methods[i]? = some compiled →
      ((∀ m ∈ t.members, m.takes t.typeVariables c.methods i = false) ∧
        (t.annotate c).methods[i]? = some compiled) ∨
      ∃ m ∈ t.members, m.takes t.typeVariables c.methods i = true ∧
        (t.annotate c).methods[i]? = some (m.describeMethod compiled) ∧
        ∃ parts, MethodSignature.parse compiled.descriptor = .ok parts ∧
          (m.describeMethod compiled).parameterNames.length = parts.parameters.length) ∧
    t.annotate (t.annotate c) = t.annotate c := by
  -- The parts about one field or one method are read off from what can happen to it.
  refine ⟨t.bare_annotate c, ?fields, ?methods, ?names, t.annotate_annotate c⟩
  case fields =>
    intro i f hf hnone
    rcases fields_annotate_cases (t := t) hf with hkept | ⟨m, hm, hfield, hname, -⟩
    · exact hkept
    · exact absurd hname (hnone m hm hfield)
  case methods =>
    intro i compiled hcompiled hnone
    rcases methods_annotate_cases (t := t) hcompiled with
      ⟨-, hkept⟩ | ⟨m, hm, htakes, hsource, -⟩
    · exact hkept
    · rw [Member.takes, Bool.and_eq_true] at htakes
      rw [hnone m hm htakes.1] at hsource
      cases hsource
  case names =>
    intro i compiled hcompiled
    rcases methods_annotate_cases (t := t) hcompiled with
      hkept | ⟨m, hm, htakes, hsource, hdescribed⟩
    · exact .inl hkept
    · obtain ⟨parts, hparts, hlength⟩ := Member.exists_parse_of_isSourceOf hsource
      refine .inr ⟨m, hm, htakes, hdescribed, parts, hparts, ?_⟩
      rw [Member.describeMethod, List.length_map, hlength]

end TypeUnit

end Source

end TypeCatalog
