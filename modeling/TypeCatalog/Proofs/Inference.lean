import TypeCatalog.Proofs.Catalog.Resolution
import TypeCatalog.Proofs.Matching

/-! # Inference inverts substitution

    A choice of types for the variables of some parameters makes arguments out of them. Inference
    finds the choice again from the parameters and the arguments: each parameter becomes its
    argument, and what is known afterwards is the choice for the variables that occurred, and
    nothing else.

    The invariant is `Bindings.Learned`: what is known are the chosen types for a given set of
    names. Each step extends the set by the names of the variables of one type, whether the step
    comes upon them for the first time or again. -/

set_option autoImplicit false

namespace TypeCatalog

/-! ## Section 1: Choices -/

/-- A type with the type that is chosen for its name in the place of each variable. -/
def Catalog.instantiate (c : Catalog) (choice : String → ResolvedType) :
    ResolvedType → ResolvedType :=
  c.replaceVariables fun v => choice v.name

/-- The types chosen for the given names are well-formed and tell something, which null does not. -/
def Informative (choice : String → ResolvedType) (names : List String) : Prop :=
  ∀ n ∈ names, choice n ≠ .nullType ∧ (choice n).WellFormed

/-- The bindings are the chosen types of the given names. -/
def Bindings.Learned (choice : String → ResolvedType) (names : List String) (b : Bindings) : Prop :=
  ∀ n, b.get? n = if n ∈ names then some (choice n) else none

section choices

variable {choice : String → ResolvedType} {names others : List String} {b : Bindings}

theorem Informative.left (h : Informative choice (names ++ others)) : Informative choice names :=
  fun n hn => h n (List.mem_append_left _ hn)

theorem Informative.right (h : Informative choice (names ++ others)) : Informative choice others :=
  fun n hn => h n (List.mem_append_right _ hn)

theorem Bindings.learned_nil : Bindings.Learned choice [] [] := fun _ => rfl

/-- Nothing is learned from names that are known. -/
theorem Bindings.Learned.append_of_subset (hb : b.Learned choice names)
    (h : ∀ n ∈ others, n ∈ names) : b.Learned choice (names ++ others) := by
  intro n
  rw [hb n]
  by_cases hn : n ∈ names
  · rw [if_pos hn, if_pos (List.mem_append_left _ hn)]
  · have hn' : n ∉ names ++ others := by
      rw [List.mem_append]
      rintro (hmem | hmem)
      · exact hn hmem
      · exact hn (h n hmem)
    rw [if_neg hn, if_neg hn']

theorem Bindings.Learned.bind (hb : b.Learned choice names) (name : String) :
    Bindings.Learned choice (names ++ [name]) (b.bind name (choice name)) := by
  intro n
  rw [Bindings.bind, Bindings.get?_cons, hb n]
  by_cases h : name = n
  · subst h
    simp
  · simp [h, Ne.symm h]

/-- What the bindings put in the place of a variable. -/
theorem Bindings.Learned.image (hb : b.Learned choice names) (v : TypeVariable) :
    b.image v = if v.name ∈ names then choice v.name else .typeVariable v := by
  unfold Bindings.image
  rw [hb v.name]
  split <;> rfl

end choices

/-! ## Section 2: One type -/

section types

variable {c : Catalog} {choice : String → ResolvedType}

/-- An array type gives its elements for those of a parameter of as many dimensions. -/
theorem elementArgument?_arrayOf {t : ResolvedType} (h : ∀ base n, t = .array base n → 1 ≤ n)
    (dims : Nat) : elementArgument? dims (some (t.arrayOf dims)) = some t := by
  rcases arrayOf_cases t dims with ⟨base, n, rfl, heq⟩ | ⟨-, heq⟩
  · have hn := h base n rfl
    rw [heq, elementArgument?, stripDimensions_eq_some]
    exact .inr ⟨Nat.lt_add_of_pos_left hn, by rw [Nat.add_sub_cancel]⟩
  · rw [heq, elementArgument?, stripDimensions_eq_some]
    exact .inl ⟨rfl, rfl⟩

/-- The base of an array becomes an array only where it is a variable. -/
theorem one_le_of_instantiate_eq {t : ResolvedType} (ht : t.isArray = false)
    (hchoice : Informative choice t.variableNames) (base : ResolvedType) (n : Nat)
    (h : c.instantiate choice t = .array base n) : 1 ≤ n := by
  cases t with
  | typeVariable v =>
    have hform := (hchoice v.name List.mem_cons_self).2
    change choice v.name = .array base n at h
    rw [h] at hform
    exact hform.1
  | array base dims => cases ht
  | classType d arguments =>
    unfold Catalog.instantiate Catalog.replaceVariables at h
    split at h <;> cases h
  | wildcard kind bound => cases h
  | primitive p => cases h
  | anyWildcard => cases h
  | unknownClass name => cases h
  | nullType => cases h

theorem infer_typeVariable {names : List String} {b : Bindings} (v : TypeVariable)
    (hchoice : choice v.name ≠ .nullType) (hb : b.Learned choice names) :
    ∃ b', c.infer b (.typeVariable v) (some (choice v.name)) = (choice v.name, b') ∧
      b'.Learned choice (names ++ [v.name]) := by
  have hget := hb v.name
  by_cases hn : v.name ∈ names
  -- A variable that is known keeps its type; the argument is not looked at.
  · rw [if_pos hn] at hget
    refine ⟨b, ?_, hb.append_of_subset ?_⟩
    · rw [Catalog.infer, hget]
      exact hchoice
    · intro n hmem
      rw [List.mem_singleton] at hmem
      rwa [hmem]
  · rw [if_neg hn] at hget
    refine ⟨b.bind v.name (choice v.name), ?_, hb.bind v.name⟩
    rw [Catalog.infer, hget]
    exact hchoice

theorem instantiate_classType {d : ClassDeclaration} {arguments : List ResolvedType}
    (hlength : arguments.length = d.typeVariables.length) :
    c.instantiate choice (.classType d arguments) =
      .classType d (arguments.map (c.instantiate choice)) := by
  unfold Catalog.instantiate
  rw [replaceVariables_classType hlength, replaceAll_eq_map]

/-- A class is matched with its instance argument by argument. -/
theorem infer_classType {d : ClassDeclaration} {arguments : List ResolvedType} {b b' : Bindings}
    (hne : arguments ≠ []) (hlength : arguments.length = d.typeVariables.length)
    (hinfer : c.inferAll b arguments (arguments.map (c.instantiate choice)) =
      (arguments.map (c.instantiate choice), b')) :
    c.infer b (.classType d arguments) (some (c.instantiate choice (.classType d arguments))) =
      (c.instantiate choice (.classType d arguments), b') := by
  have hempty : ¬arguments.isEmpty = true := by
    rw [List.isEmpty_iff]
    exact hne
  -- The instance has one argument for each variable, so nothing is filled up or dropped.
  have hkept : c.argumentsFor d (arguments.map (c.instantiate choice)) =
      arguments.map (c.instantiate choice) := by
    apply argumentsFor_of_length_eq
    rw [List.length_map, hlength]
  rw [instantiate_classType hlength, Catalog.infer, if_neg hempty]
  simp only [hinfer, hkept]

mutual
/-- A type that is matched with its instance becomes the instance, and the choice is learned for its
    variables. The induction is on the type; what is learned on the way is known to the later parts
    of it. -/
theorem infer_instantiate (t : ResolvedType) (ht : t.WellFormed)
    (hchoice : Informative choice t.variableNames) {names : List String} {b : Bindings}
    (hb : b.Learned choice names) :
    ∃ b', c.infer b t (some (c.instantiate choice t)) = (c.instantiate choice t, b') ∧
      b'.Learned choice (names ++ t.variableNames) := by
  cases t with
  | typeVariable v => exact infer_typeVariable v (hchoice v.name List.mem_cons_self).1 hb
  | array base dims =>
    obtain ⟨-, hbase, hform⟩ := ht
    obtain ⟨b', hinfer, hb'⟩ := infer_instantiate base hform hchoice hb
    -- Where the base has become an array itself, only the parameter's dimensions are taken off.
    have helement := elementArgument?_arrayOf
      (one_le_of_instantiate_eq (c := c) hbase hchoice) dims
    have hinstance : c.instantiate choice (.array base dims) =
        (c.instantiate choice base).arrayOf dims := rfl
    refine ⟨b', ?_, hb'⟩
    rw [Catalog.infer, hinstance, helement]
    simp only [hinfer]
  | classType d arguments =>
    obtain ⟨hlength, hform⟩ := ht
    by_cases hnil : arguments = []
    · subst hnil
      exact ⟨b, rfl, hb.append_of_subset fun n hn => nomatch hn⟩
    · have hlength := hlength.resolve_left hnil
      obtain ⟨b', hinfer, hb'⟩ := inferAll_instantiate arguments hform hchoice hb
      exact ⟨b', infer_classType hnil hlength hinfer, hb'⟩
  | wildcard kind bound =>
    obtain ⟨b', hinfer, hb'⟩ := infer_instantiate bound ht hchoice hb
    refine ⟨b', ?_, hb'⟩
    have hinstance : c.instantiate choice (.wildcard kind bound) =
        .wildcard kind (c.instantiate choice bound) := rfl
    rw [Catalog.infer, hinstance, boundArgument?]
    simp only [hinfer]
  | primitive p => exact ⟨b, rfl, hb.append_of_subset fun n hn => nomatch hn⟩
  | anyWildcard => exact ⟨b, rfl, hb.append_of_subset fun n hn => nomatch hn⟩
  | unknownClass n => exact ⟨b, rfl, hb.append_of_subset fun n hn => nomatch hn⟩
  | nullType => exact ⟨b, rfl, hb.append_of_subset fun n hn => nomatch hn⟩

theorem inferAll_instantiate (types : List ResolvedType) (ht : ResolvedType.AllWellFormed types)
    (hchoice : Informative choice (ResolvedType.allVariableNames types)) {names : List String}
    {b : Bindings} (hb : b.Learned choice names) :
    ∃ b', c.inferAll b types (types.map (c.instantiate choice)) =
        (types.map (c.instantiate choice), b') ∧
      b'.Learned choice (names ++ ResolvedType.allVariableNames types) := by
  cases types with
  | nil => exact ⟨b, rfl, hb.append_of_subset fun n hn => nomatch hn⟩
  | cons t rest =>
    obtain ⟨ht, hrest⟩ := ht
    obtain ⟨b', hinfer, hb'⟩ := infer_instantiate t ht hchoice.left hb
    -- The rest is matched with what the first argument has told.
    obtain ⟨b'', hinferAll, hb''⟩ := inferAll_instantiate rest hrest hchoice.right hb'
    rw [List.append_assoc] at hb''
    refine ⟨b'', ?_, hb''⟩
    rw [List.map_cons, Catalog.inferAll, hinfer]
    simp only [hinferAll]
end

end types

/-! ## Section 3: Parameters and calls -/

/-- The names of the variables that occur in the types of parameters. -/
def Parameter.allVariableNames (parameters : List Parameter) : List String :=
  ResolvedType.allVariableNames (parameters.map Parameter.type)

/-- A parameter with the type it has under a choice. -/
def Parameter.instantiate (p : Parameter) (c : Catalog) (choice : String → ResolvedType) :
    Parameter :=
  { p with type := c.instantiate choice p.type }

section calls

variable {c : Catalog} {choice : String → ResolvedType}

theorem inferParameters_instantiate (parameters : List Parameter)
    (hform : ∀ p ∈ parameters, p.type.WellFormed)
    (hchoice : Informative choice (Parameter.allVariableNames parameters))
    {names : List String} {b : Bindings} (hb : b.Learned choice names) :
    ∃ b', c.inferParameters b parameters (parameters.map fun p => c.instantiate choice p.type) =
        (parameters.map fun p => p.instantiate c choice, b') ∧
      b'.Learned choice (names ++ Parameter.allVariableNames parameters) := by
  induction parameters generalizing names b with
  | nil => exact ⟨b, rfl, hb.append_of_subset fun n hn => nomatch hn⟩
  | cons p rest ih =>
    have hrest : ∀ q ∈ rest, q.type.WellFormed := fun q hq => hform q (List.mem_cons_of_mem p hq)
    obtain ⟨b', hinfer, hb'⟩ :=
      infer_instantiate (c := c) p.type (hform p List.mem_cons_self) hchoice.left hb
    obtain ⟨b'', hothers, hb''⟩ := ih hrest hchoice.right hb'
    rw [List.append_assoc] at hb''
    refine ⟨b'', ?_, hb''⟩
    rw [List.map_cons, Catalog.inferParameters, List.head?_cons, List.tail_cons, hinfer]
    simp only [hothers]
    rfl

/-- A call whose arguments are the types of the parameters under a choice is the call with that
    choice. The parameters have the types of the arguments; the choice is in the place of the
    variables that occur in parameters, also in the result; and the declared variables that occur in
    no parameter are what is left. -/
theorem call_instantiate {owner : ClassType} (m : Callable)
    (hform : ∀ p ∈ m.parameters c owner, p.type.WellFormed)
    (hchoice : Informative choice (Parameter.allVariableNames (m.parameters c owner))) :
    (∀ name, Method.call ⟨m, name⟩ c owner
        ((m.parameters c owner).map fun p => c.instantiate choice p.type) =
      { owner := owner
        name := name
        modifiers := m.modifiers
        parameters := (m.parameters c owner).map fun p => p.instantiate c choice
        result := c.replaceVariables
          (fun v => if v.name ∈ Parameter.allVariableNames (m.parameters c owner) then choice v.name
            else .typeVariable v) (m.resultType c owner)
        unbound := m.parts.typeVariables.filter fun v =>
          decide (v.name ∉ Parameter.allVariableNames (m.parameters c owner)) }) ∧
    Constructor.call ⟨m⟩ c owner
        ((m.parameters c owner).map fun p => c.instantiate choice p.type) =
      { owner := owner
        modifiers := m.modifiers
        parameters := (m.parameters c owner).map fun p => p.instantiate c choice
        unbound := m.parts.typeVariables.filter fun v =>
          decide (v.name ∉ Parameter.allVariableNames (m.parameters c owner)) } := by
  obtain ⟨b, hinfer, hb⟩ :=
    inferParameters_instantiate (c := c) (m.parameters c owner) hform hchoice Bindings.learned_nil
  rw [List.nil_append] at hb
  -- Both results are read off what is known after the last parameter.
  have hresult : c.substitute b (m.resultType c owner) = c.replaceVariables
      (fun v => if v.name ∈ Parameter.allVariableNames (m.parameters c owner) then choice v.name
        else .typeVariable v) (m.resultType c owner) := by
    rw [substitute_eq_replaceVariables, funext hb.image]
  have hunbound : b.unbound m.parts.typeVariables = m.parts.typeVariables.filter fun v =>
      decide (v.name ∉ Parameter.allVariableNames (m.parameters c owner)) := by
    unfold Bindings.unbound
    apply List.filter_congr
    intro v _
    rw [hb v.name]
    by_cases hv : v.name ∈ Parameter.allVariableNames (m.parameters c owner)
    · simp [hv]
    · simp [hv]
  refine ⟨fun name => ?_, ?_⟩
  · unfold Method.call
    simp only [hinfer, hresult, hunbound]
  · unfold Constructor.call
    simp only [hinfer, hunbound]

/-- A method of an array of a variable and of the variable, called with arrays: the variable stands
    for the smaller array, and the variable of the result is not known. -/
theorem call_instantiate_arrays :
    ∃ (c : Catalog) (owner : ClassType) (m : Callable) (choice : String → ResolvedType)
      (v : TypeVariable),
      (∀ p ∈ m.parameters c owner, p.type.WellFormed) ∧
      Informative choice (Parameter.allVariableNames (m.parameters c owner)) ∧
      ∀ call, call = Method.call ⟨m, "f"⟩ c owner
          [.array (.primitive .int) 2, .array (.primitive .int) 1] →
        call.parameters.map Parameter.type =
          [.array (.primitive .int) 2, .array (.primitive .int) 1] ∧
        call.result = .typeVariable v ∧ call.unbound = [v] := by
  let t : TypeVariable := ⟨"T", []⟩
  let v : TypeVariable := ⟨"V", []⟩
  let m : Callable := ⟨⟨0⟩, "", "", ⟨[t, v], ["[TT;", "TT;"], "TV;", []⟩, ["a", "b"], false⟩
  have harray : readSignature? "[TT;" = some (.array (.typeVariable "T")) :=
    readSignature?_eq_some (by cbv)
  have hvariable : readSignature? "TT;" = some (.typeVariable "T") :=
    readSignature?_eq_some (by cbv)
  have hother : readSignature? "TV;" = some (.typeVariable "V") := readSignature?_eq_some (by cbv)
  have hparameters : m.parameters Catalog.empty (.raw default) =
      [⟨"a", .array (.typeVariable t) 1, false⟩, ⟨"b", .typeVariable t, false⟩] := by
    show [m.parameter _ _ 0 "[TT;", m.parameter _ _ 1 "TT;"] = _
    unfold Callable.parameter Catalog.resolve
    rw [harray, hvariable, show m.isVariableArity = false by decide]
    rfl
  have hresult : m.resultType Catalog.empty (.raw default) = .typeVariable v := by
    unfold Callable.resultType Catalog.resolve
    rw [hother]
    rfl
  have hform : ∀ p ∈ m.parameters Catalog.empty (.raw default), p.type.WellFormed := by
    rw [hparameters]
    simp [ResolvedType.WellFormed, ResolvedType.isArray]
  have hchoice : Informative (fun _ => .array (.primitive .int) 1)
      (Parameter.allVariableNames (m.parameters Catalog.empty (.raw default))) := by
    intro n _
    simp [ResolvedType.WellFormed, ResolvedType.isArray]
  refine ⟨Catalog.empty, .raw default, m, fun _ => .array (.primitive .int) 1, v, hform, hchoice,
    ?_⟩
  rintro call rfl
  have hcall := (call_instantiate m hform hchoice).1 "f"
  rw [hparameters, hresult] at hcall
  change Method.call ⟨m, "f"⟩ Catalog.empty (.raw default)
    [.array (.primitive .int) 2, .array (.primitive .int) 1] = _ at hcall
  rw [hcall]
  exact ⟨rfl, rfl, rfl⟩

end calls

end TypeCatalog
