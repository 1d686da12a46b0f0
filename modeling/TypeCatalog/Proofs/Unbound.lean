import TypeCatalog.Proofs.Catalog.Signature
import TypeCatalog.Proofs.Matching

/-! # Variables that are left in a call

    What a call puts in the place of variables has no variables itself, if the arguments have none.
    The result is written when all arguments were looked at, so the variables in it are those that
    no argument tells about. A parameter is written when its own argument is looked at: a variable
    that an earlier argument tells about is replaced in it, one that only a later argument tells
    about is not. Two things in an argument keep a variable where it is even then: null, and a class
    with fewer arguments than the parameter has. -/

set_option autoImplicit false

namespace TypeCatalog

/-! ## Section 1: Variables after substitution -/

theorem variableNames_arrayOf (t : ResolvedType) (dims : Nat) :
    (t.arrayOf dims).variableNames = t.variableNames := by
  cases t <;> rfl

theorem mem_allVariableNames {n : String} {types : List ResolvedType} :
    n ∈ ResolvedType.allVariableNames types ↔ ∃ t ∈ types, n ∈ t.variableNames := by
  induction types with
  | nil => simp [ResolvedType.allVariableNames]
  | cons t rest ih => simp [ResolvedType.allVariableNames, ih]

theorem Catalog.Keyed.variableNames_objectType {c : Catalog} (hc : c.Keyed) :
    c.objectType.variableNames = [] := by
  obtain ⟨d, h⟩ | h := hc.objectType_cases
  · rw [h]
    rfl
  · rw [h]
    rfl

/-- What a bound variable stands for has no variables. -/
def Bindings.Closed (b : Bindings) : Prop := ∀ n t, b.get? n = some t → t.variableNames = []

theorem Bindings.closed_nil : Bindings.Closed [] := fun _ _ h => nomatch h

section bindings

variable {c : Catalog} {b b' b'' : Bindings}

theorem Bindings.Closed.bind (hb : b.Closed) {t : ResolvedType} (ht : t.variableNames = [])
    (name : String) : (b.bind name t).Closed :=
  Bindings.forall_get?_bind hb ht name

/-- The arguments that are filled up have no variables. -/
theorem Catalog.Keyed.mem_argumentsFor (hc : c.Keyed) {d : ClassDeclaration}
    {types : List ResolvedType} {n : String}
    (h : n ∈ ResolvedType.allVariableNames (c.argumentsFor d types)) :
    n ∈ ResolvedType.allVariableNames types := by
  obtain ⟨t, ht, hn⟩ := mem_allVariableNames.1 h
  rcases mem_fillArguments ht with rfl | ht
  · rw [hc.variableNames_objectType] at hn
    exact nomatch hn
  · exact mem_allVariableNames.2 ⟨t, ht, hn⟩

mutual
/-- The variables that substitution leaves are those of the type that are not bound. -/
theorem Catalog.Keyed.mem_substitute (hc : c.Keyed) (hb : b.Closed) {n : String}
    (t : ResolvedType) (h : n ∈ (c.substitute b t).variableNames) :
    n ∈ t.variableNames ∧ b.get? n = none := by
  match t with
  | .typeVariable v =>
    rw [Catalog.substitute] at h
    cases hget : b.get? v.name with
    | some u =>
      rw [hget, Option.getD_some, hb v.name u hget] at h
      exact nomatch h
    | none =>
      rw [hget, Option.getD_none] at h
      refine ⟨h, ?_⟩
      rw [List.mem_singleton.1 h]
      exact hget
  | .array base dims =>
    rw [Catalog.substitute, variableNames_arrayOf] at h
    exact hc.mem_substitute hb base h
  | .classType d arguments =>
    rw [Catalog.substitute] at h
    split at h
    · next hempty =>
      rw [List.isEmpty_iff.1 hempty] at h
      exact nomatch h
    · exact hc.mem_substituteAll hb arguments (hc.mem_argumentsFor h)
  | .wildcard kind bound => exact hc.mem_substitute hb bound h
  | .primitive p => exact nomatch h
  | .anyWildcard => exact nomatch h
  | .unknownClass name => exact nomatch h
  | .nullType => exact nomatch h
theorem Catalog.Keyed.mem_substituteAll (hc : c.Keyed) (hb : b.Closed) {n : String}
    (types : List ResolvedType)
    (h : n ∈ ResolvedType.allVariableNames (c.substituteAll b types)) :
    n ∈ ResolvedType.allVariableNames types ∧ b.get? n = none := by
  match types with
  | [] => exact nomatch h
  | t :: rest =>
    rcases List.mem_append.1 h with h | h
    · obtain ⟨hn, hget⟩ := hc.mem_substitute hb t h
      exact ⟨List.mem_append_left _ hn, hget⟩
    · obtain ⟨hn, hget⟩ := hc.mem_substituteAll hb rest h
      exact ⟨List.mem_append_right _ hn, hget⟩
end

/-! ## Section 2: What an argument tells -/

mutual
/-- Wherever the type has variables below a class, the argument has a class with as many
    arguments, or none at all. -/
def ResolvedType.CoveredBy : ResolvedType → Option ResolvedType → Prop
  | .array base dims, argument =>
    ∀ element, elementArgument? dims argument = some element → base.CoveredBy (some element)
  | .classType _ arguments, argument =>
    ∀ d given, argument = some (.classType d given) →
      ResolvedType.AllCoveredBy arguments given
  | .wildcard _ bound, argument => bound.CoveredBy (boundArgument? argument)
  | _, _ => True
/-- Type arguments are covered one by one. Those past the last one given have no variables. -/
def ResolvedType.AllCoveredBy : List ResolvedType → List ResolvedType → Prop
  | [], _ => True
  | t :: rest, [] => ResolvedType.allVariableNames (t :: rest) = []
  | t :: rest, g :: others => t.CoveredBy (some g) ∧ ResolvedType.AllCoveredBy rest others
end

mutual
/-- Wherever the type has a variable, the argument has a type other than null. -/
def ResolvedType.ToldBy : ResolvedType → Option ResolvedType → Prop
  | .typeVariable _, argument => ∃ t, argument = some t ∧ t ≠ .nullType
  | .array base dims, argument =>
    base.variableNames = [] ∨
      ∃ element, elementArgument? dims argument = some element ∧ base.ToldBy (some element)
  | .classType _ arguments, argument =>
    ResolvedType.allVariableNames arguments = [] ∨
      ∃ d given, argument = some (.classType d given) ∧ ResolvedType.AllToldBy arguments given
  | .wildcard _ bound, argument => bound.ToldBy (boundArgument? argument)
  | _, _ => True
/-- Type arguments are told one by one. Those past the last one given have no variables. -/
def ResolvedType.AllToldBy : List ResolvedType → List ResolvedType → Prop
  | [], _ => True
  | t :: rest, [] => ResolvedType.allVariableNames (t :: rest) = []
  | t :: rest, g :: others => t.ToldBy (some g) ∧ ResolvedType.AllToldBy rest others
end

theorem passesOn_closed : PassesOn fun t => t.variableNames = [] where
  base h := h
  array h _ := h
  bound h := h
  nullType := rfl

/-! ## Section 3: What is left of a parameter -/

/-- From a type with variables of the given names, matched when `b` is known, variables are left,
    and `b'` is known afterwards. If the argument covers the type, none of those left was known
    before, and if it tells all, none is left. -/
structure Bindings.Leaves (b : Bindings) (names left : List String) (covered told : Prop)
    (b' : Bindings) : Prop where
  closed : b'.Closed
  subset : ∀ n ∈ left, n ∈ names
  fresh : covered → ∀ n ∈ left, b.get? n = none
  complete : told → left = []
  keeps : ∀ n t, b.get? n = some t → b'.get? n = some t

section leaves

variable {names names' left left' : List String} {covered covered' told told' : Prop}

/-- A type without variables tells nothing and leaves nothing. -/
theorem Bindings.Closed.leaves_nil (hb : b.Closed) : b.Leaves names [] covered told b where
  closed := hb
  subset := fun _ hn => nomatch hn
  fresh := fun _ _ hn => nomatch hn
  complete := fun _ => rfl
  keeps := fun _ _ h => h

/-- Types that stay as they are; to be covered or told they must have no variables. -/
theorem Bindings.Closed.leaves_unchanged (hb : b.Closed) :
    b.Leaves names names (names = []) (names = []) b where
  closed := hb
  subset := fun _ hn => hn
  fresh := by
    rintro rfl n hn
    exact nomatch hn
  complete := fun h => h
  keeps := fun _ _ h => h

/-- A variable that is not bound and meets nothing or null. -/
theorem Bindings.Closed.leaves_open (hb : b.Closed) {v : TypeVariable}
    (hget : b.get? v.name = none) (htold : ¬told) : b.Leaves [v.name] [v.name] covered told b where
  closed := hb
  subset := fun _ hn => hn
  fresh := by
    intro _ n hn
    rw [List.mem_singleton.1 hn]
    exact hget
  complete := fun h => absurd h htold
  keeps := fun _ _ h => h

/-- A variable that is not bound and meets a type that tells something. -/
theorem Bindings.Closed.leaves_bound (hb : b.Closed) {v : TypeVariable} {t : ResolvedType}
    (hget : b.get? v.name = none) (ht : t.variableNames = []) :
    b.Leaves [v.name] [] covered told (b.bind v.name t) where
  closed := hb.bind ht v.name
  subset := fun _ hn => nomatch hn
  fresh := fun _ _ hn => nomatch hn
  complete := fun _ => rfl
  keeps := by
    intro n u hu
    have hother : v.name ≠ n := by
      rintro rfl
      rw [hget] at hu
      cases hu
    rw [Bindings.bind, Bindings.get?_cons, if_neg (by simpa using hother)]
    exact hu

/-- A variable is told by any type but null, unless it is bound already. -/
theorem Bindings.Closed.leaves_variable (hb : b.Closed) (c : Catalog) (v : TypeVariable)
    (argument : Option ResolvedType) (ha : ∀ u, argument = some u → u.variableNames = []) :
    b.Leaves [v.name] (c.infer b (.typeVariable v) argument).1.variableNames covered
      (∃ t, argument = some t ∧ t ≠ .nullType) (c.infer b (.typeVariable v) argument).2 := by
  rcases infer_typeVariable_cases c b argument v with
    ⟨t, hget, heq⟩ | ⟨hget, hnull, heq⟩ | ⟨t, hget, rfl, hne, heq⟩
  · rw [heq, hb v.name t hget]
    exact hb.leaves_nil
  · rw [heq]
    apply hb.leaves_open hget
    rintro ⟨t, rfl, hne⟩
    exact hne (hnull t rfl)
  · rw [heq, ha t rfl]
    exact hb.leaves_bound hget (ha t rfl)

/-- A type that is substituted. -/
theorem Catalog.Keyed.leaves_substitute (hc : c.Keyed) (hb : b.Closed) (t : ResolvedType)
    (htold : told → t.variableNames = []) :
    b.Leaves t.variableNames (c.substitute b t).variableNames covered told b where
  closed := hb
  subset := fun _ hn => (hc.mem_substitute hb t hn).1
  fresh := fun _ _ hn => (hc.mem_substitute hb t hn).2
  complete := by
    intro h
    rw [List.eq_nil_iff_forall_not_mem]
    intro n hn
    have hmem := (hc.mem_substitute hb t hn).1
    rw [htold h] at hmem
    exact nomatch hmem
  keeps := fun _ _ h => h

/-- Types one after the other; what the first one told is known to the second one. -/
theorem Bindings.Leaves.append (h : b.Leaves names left covered told b')
    (h' : b'.Leaves names' left' covered' told' b'') :
    b.Leaves (names ++ names') (left ++ left') (covered ∧ covered') (told ∧ told') b'' where
  closed := h'.closed
  subset := by
    intro n hn
    exact List.mem_append.2 ((List.mem_append.1 hn).imp (h.subset n) (h'.subset n))
  fresh := by
    rintro ⟨hcovered, hcovered'⟩ n hn
    rcases List.mem_append.1 hn with hn | hn
    · exact h.fresh hcovered n hn
    · -- What was known before the first one is known after it too.
      cases hget : b.get? n with
      | none => rfl
      | some t =>
        have hnone := h'.fresh hcovered' n hn
        rw [h.keeps n t hget] at hnone
        cases hnone
  complete := by
    rintro ⟨htold, htold'⟩
    rw [h.complete htold, h'.complete htold', List.append_nil]
  keeps := fun n t hget => h'.keeps n t (h.keeps n t hget)

theorem Bindings.Leaves.weaken (h : b.Leaves names left covered told b')
    (hleft : ∀ n ∈ left', n ∈ left) (hcovered : covered' → covered)
    (htold : told' → names = [] ∨ told) : b.Leaves names left' covered' told' b' where
  closed := h.closed
  subset := fun n hn => h.subset n (hleft n hn)
  fresh := fun hc n hn => h.fresh (hcovered hc) n (hleft n hn)
  complete := by
    intro ht
    rw [List.eq_nil_iff_forall_not_mem]
    intro n hn
    rcases htold ht with hnames | ht
    · have hmem := h.subset n (hleft n hn)
      rw [hnames] at hmem
      exact nomatch hmem
    · have hmem := hleft n hn
      rw [h.complete ht] at hmem
      exact nomatch hmem
  keeps := h.keeps

end leaves

mutual
/-- The induction is on the type of the parameter. -/
theorem Catalog.Keyed.infer_leaves (hc : c.Keyed) {b : Bindings} (hb : b.Closed)
    (t : ResolvedType) (argument : Option ResolvedType)
    (ha : ∀ u, argument = some u → u.variableNames = []) :
    b.Leaves t.variableNames (c.infer b t argument).1.variableNames (t.CoveredBy argument)
      (t.ToldBy argument) (c.infer b t argument).2 := by
  match t with
  | .typeVariable v => exact hb.leaves_variable c v argument ha
  | .array base dims =>
    rw [Catalog.infer]
    cases helement : elementArgument? dims argument with
    | some element =>
      have hbase := hc.infer_leaves hb base (some element) (by
        rintro u ⟨⟩
        exact passesOn_closed.elementArgument? ha helement)
      apply hbase.weaken
      · intro n hn
        rwa [variableNames_arrayOf] at hn
      · exact fun hcovered => hcovered element helement
      · rintro (hnone | ⟨element', helement', htold⟩)
        · exact .inl hnone
        · rw [helement] at helement'
          rw [Option.some.inj helement']
          exact .inr htold
    | none =>
      apply hc.leaves_substitute hb
      rintro (hnone | ⟨element, helement', -⟩)
      · exact hnone
      · rw [helement] at helement'
        cases helement'
  | .classType d arguments =>
    rcases infer_classType_cases c b argument d arguments with
      ⟨rfl, heq⟩ | ⟨d', given, rfl, heq⟩ | ⟨hother, heq⟩
    · rw [heq]
      exact hb.leaves_nil
    · have hall := hc.inferAll_leaves hb arguments given (ha _ rfl)
      rw [heq]
      apply hall.weaken
      · exact fun n hn => hc.mem_argumentsFor hn
      · exact fun hcovered => hcovered d' given rfl
      · rintro (hnone | ⟨d'', given', ⟨⟩, htold⟩)
        · exact .inl hnone
        · exact .inr htold
    · -- Anything but a class tells nothing; what is known is put in the place of variables.
      rw [heq]
      apply hc.leaves_substitute hb
      rintro (hnone | ⟨d', given, hargument, -⟩)
      · exact hnone
      · exact absurd hargument (hother d' given)
  | .wildcard kind bound =>
    rw [Catalog.infer]
    exact hc.infer_leaves hb bound (boundArgument? argument) fun u hu =>
      passesOn_closed.boundArgument? ha hu
  | .primitive p =>
    rw [Catalog.infer]
    exact hb.leaves_nil
  | .anyWildcard =>
    rw [Catalog.infer]
    exact hb.leaves_nil
  | .unknownClass name =>
    rw [Catalog.infer]
    exact hb.leaves_nil
  | .nullType =>
    rw [Catalog.infer]
    exact hb.leaves_nil
theorem Catalog.Keyed.inferAll_leaves (hc : c.Keyed) {b : Bindings} (hb : b.Closed)
    (types given : List ResolvedType) (hgiven : ResolvedType.allVariableNames given = []) :
    b.Leaves (ResolvedType.allVariableNames types)
      (ResolvedType.allVariableNames (c.inferAll b types given).1)
      (ResolvedType.AllCoveredBy types given) (ResolvedType.AllToldBy types given)
      (c.inferAll b types given).2 := by
  match types, given with
  | [], given =>
    rw [Catalog.inferAll]
    exact hb.leaves_nil
  | t :: rest, [] =>
    -- Here not even what is known is put in the place of variables.
    rw [Catalog.inferAll]
    exact hb.leaves_unchanged
  | t :: rest, g :: others =>
    rw [Catalog.inferAll]
    obtain ⟨hg, hothers⟩ := List.append_eq_nil_iff.1 hgiven
    have ht := hc.infer_leaves hb t (some g) (by
      rintro u ⟨⟩
      exact hg)
    exact ht.append (hc.inferAll_leaves ht.closed rest others hothers)
end

/-! ## Section 4: Parameters from left to right -/

/-- A type without an argument tells nothing. -/
theorem infer_none (t : ResolvedType) : (c.infer b t none).2 = b := by
  match t with
  | .typeVariable v =>
    rw [Catalog.infer]
    cases b.get? v.name <;> rfl
  | .array base dims => rfl
  | .classType d arguments =>
    rw [Catalog.infer.eq_def]
    simp only
    split <;> rfl
  | .wildcard kind bound => exact infer_none bound
  | .primitive p => rfl
  | .anyWildcard => rfl
  | .unknownClass name => rfl
  | .nullType => rfl

theorem inferParameters_nil (parameters : List Parameter) :
    (c.inferParameters b parameters []).2 = b := by
  induction parameters with
  | nil => rfl
  | cons p rest ih =>
    rw [Catalog.inferParameters]
    show (c.inferParameters (c.infer b p.type none).2 rest []).2 = b
    rw [infer_none, ih]

/-- A parameter is matched with its argument when the arguments before it are known. -/
theorem getElem?_inferParameters (parameters : List Parameter) (arguments : List ResolvedType)
    (i : Nat) : (c.inferParameters b parameters arguments).1[i]? =
      parameters[i]?.map fun p => { p with
        type := (c.infer (c.inferParameters b parameters (arguments.take i)).2 p.type
          arguments[i]?).1 } := by
  induction parameters generalizing b arguments i with
  | nil => rfl
  | cons p rest ih =>
    cases i with
    | zero =>
      rw [List.take_zero, inferParameters_nil]
      cases arguments <;> rfl
    | succ i =>
      have hrest := ih (b := (c.infer b p.type arguments.head?).2) arguments.tail i
      have hbefore : (c.inferParameters b (p :: rest) (arguments.take (i + 1))).2 =
          (c.inferParameters (c.infer b p.type arguments.head?).2 rest
            (arguments.tail.take i)).2 := by
        cases arguments with
        | nil => rw [List.tail_nil, List.take_nil, List.take_nil]; rfl
        | cons a others => rfl
      have hargument : arguments[i + 1]? = arguments.tail[i]? := by
        cases arguments <;> rfl
      rw [hbefore, hargument]
      exact hrest

theorem Catalog.Keyed.inferParameters_closed (hc : c.Keyed) {b : Bindings} (hb : b.Closed)
    (parameters : List Parameter) {arguments : List ResolvedType}
    (ha : ∀ a ∈ arguments, a.variableNames = []) :
    (c.inferParameters b parameters arguments).2.Closed := by
  induction parameters generalizing b arguments with
  | nil => exact hb
  | cons p rest ih =>
    have hhead : ∀ u, arguments.head? = some u → u.variableNames = [] := fun u hu =>
      ha u (List.mem_of_head? hu)
    have hstep := hc.infer_leaves hb p.type arguments.head? hhead
    exact ih hstep.closed fun a hmem => ha a (List.mem_of_mem_tail hmem)

/-! ## Section 5: Calls -/

theorem Bindings.mem_unbound {typeVariables : List TypeVariable} {v : TypeVariable} :
    v ∈ b.unbound typeVariables ↔ v ∈ typeVariables ∧ b.get? v.name = none := by
  rw [Bindings.unbound, List.mem_filter, Option.isNone_iff_eq_none]

/-- Where the arguments of a call have no variables, a variable of the method that is left in the
    result is one that no argument tells about. One that is left in a parameter is not told by the
    argument of that parameter; and if that argument covers the parameter, no argument before it
    tells about the variable. -/
theorem Method.call_leaves (hc : c.Reachable) (m : Method) (owner : ClassType)
    (arguments : List ResolvedType) (ha : ∀ a ∈ arguments, a.variableNames = [])
    (v : TypeVariable) (hv : v ∈ m.parts.typeVariables) :
    (v.name ∈ (m.call c owner arguments).result.variableNames →
      v ∈ (m.call c owner arguments).unbound) ∧
    ∀ (i : Nat) (p q : Parameter), (m.parameters c owner)[i]? = some p →
      (m.call c owner arguments).parameters[i]? = some q → v.name ∈ q.type.variableNames →
      ¬p.type.ToldBy arguments[i]? ∧
        (p.type.CoveredBy arguments[i]? →
          v ∈ (m.call c owner (arguments.take i)).unbound) := by
  have hclosed := hc.keyed.inferParameters_closed Bindings.closed_nil (m.parameters c owner) ha
  refine ⟨fun hresult => ?_, fun i p q hp hq hleft => ?_⟩
  · obtain ⟨-, hnone⟩ := hc.keyed.mem_substitute hclosed _ hresult
    exact Bindings.mem_unbound.2 ⟨hv, hnone⟩
  · have htake : ∀ a ∈ arguments.take i, a.variableNames = [] := fun a hmem =>
      ha a (List.mem_of_mem_take hmem)
    have hbefore :=
      hc.keyed.inferParameters_closed Bindings.closed_nil (m.parameters c owner) htake
    have hleaves := hc.keyed.infer_leaves hbefore p.type arguments[i]? fun u hu =>
      ha u (List.mem_of_getElem? hu)
    have hparameter :=
      getElem?_inferParameters (c := c) (b := []) (m.parameters c owner) arguments i
    rw [hp, Option.map_some] at hparameter
    have hsame := Option.some.inj (hq.symm.trans hparameter)
    rw [hsame] at hleft
    refine ⟨fun htold => ?_, fun hcovered => ?_⟩
    · rw [hleaves.complete htold] at hleft
      exact nomatch hleft
    · exact Bindings.mem_unbound.2 ⟨hv, hleaves.fresh hcovered _ hleft⟩

end bindings

/-- A number and null for a variable and an array of it: null tells nothing, but the number before
    it has told what the elements are. -/
theorem Method.call_leaves_null :
    let t : TypeVariable := ⟨"T", []⟩
    let m : Method := ⟨⟨⟨1⟩, "", "", ⟨[t], ["TT;", "[TT;"], "V", []⟩, ["a", "b"], false⟩, "f"⟩
    let call := m.call .empty (.raw default) [.primitive .int, .nullType]
    call.unbound = [] ∧
      ∀ q, call.parameters[1]? = some q → "T" ∉ q.type.variableNames := by
  intro t m call
  have hvariable : readSignature? "TT;" = some (.typeVariable "T") :=
    readSignature?_eq_some (by cbv)
  have harray : readSignature? "[TT;" = some (.array (.typeVariable "T")) :=
    readSignature?_eq_some (by cbv)
  have hparameters : m.parameters .empty (.raw default) =
      [⟨"a", .typeVariable t, false⟩, ⟨"b", .array (.typeVariable t) 1, false⟩] := by
    show [m.parameter _ _ 0 "TT;", m.parameter _ _ 1 "[TT;"] = _
    unfold Callable.parameter Catalog.resolve
    rw [hvariable, harray, show m.isVariableArity = false by decide]
    rfl
  have hunbound : ∀ arguments, (m.call .empty (.raw default) arguments).unbound =
      (Catalog.empty.inferParameters [] [⟨"a", .typeVariable t, false⟩,
        ⟨"b", .array (.typeVariable t) 1, false⟩] arguments).2.unbound [t] := by
    intro arguments
    rw [← hparameters]
    rfl
  have hclosed : ∀ a ∈ [ResolvedType.primitive .int, .nullType], a.variableNames = [] := by
    intro a ha
    simp only [List.mem_cons, List.not_mem_nil, or_false] at ha
    rcases ha with rfl | rfl <;> rfl
  refine ⟨hunbound _, fun q hq hleft => ?_⟩
  have hcall := (Method.call_leaves .empty m (.raw default) _ hclosed t List.mem_cons_self).2 1
    ⟨"b", .array (.typeVariable t) 1, false⟩ q (by rw [hparameters]; rfl) hq hleft
  have hcovered : (ResolvedType.array (.typeVariable t) 1).CoveredBy (some .nullType) := by
    intro element _
    trivial
  have hbefore := hcall.2 hcovered
  rw [hunbound] at hbefore
  cases hbefore

/-- A class without arguments for a class of a variable: what the argument before it told is not put
    in the place of the variable. -/
theorem Method.call_leaves_raw :
    let t : TypeVariable := ⟨"T", []⟩
    let list : ClassDeclaration := ⟨⟨"List"⟩, ⟨0⟩, "", [⟨"E", []⟩], [], [], [], []⟩
    let c := Catalog.empty.insertDeclaration list
    let m : Method :=
      ⟨⟨⟨1⟩, "", "", ⟨[t], ["TT;", "LList<TT;>;"], "V", []⟩, ["a", "b"], false⟩, "f"⟩
    let call := m.call c (.raw default) [.unknownClass ⟨"S"⟩, (ClassType.raw list).toType]
    c.Reachable ∧ call.unbound = [] ∧
      ∃ q, call.parameters[1]? = some q ∧ "T" ∈ q.type.variableNames := by
  intro t list c m call
  have hvariable : readSignature? "TT;" = some (.typeVariable "T") :=
    readSignature?_eq_some (by cbv)
  have hclass : readSignature? "LList<TT;>;" =
      some (.classType "List" [.exactly (.typeVariable "T")]) :=
    readSignature?_eq_some (by cbv)
  have hget : c.get? "List" = some (.raw list) := by
    simp [c, Catalog.get?_insertDeclaration, list]
  have hparameters : m.parameters c (.raw default) =
      [⟨"a", .typeVariable t, false⟩, ⟨"b", .classType list [.typeVariable t], false⟩] := by
    show [m.parameter _ _ 0 "TT;", m.parameter _ _ 1 "LList<TT;>;"] = _
    unfold Callable.parameter Catalog.resolve
    rw [hvariable, hclass, show m.isVariableArity = false by decide]
    simp only [Catalog.resolveSignature, hget]
    rfl
  have hcall : call.unbound = [] ∧ call.parameters[1]? =
      some ⟨"b", .classType list [.typeVariable t], false⟩ := by
    show (Method.call m c (.raw default) _).unbound = [] ∧
      (Method.call m c (.raw default) _).parameters[1]? = _
    unfold Method.call
    rw [hparameters]
    exact ⟨rfl, rfl⟩
  exact ⟨.insertDeclaration list .empty, hcall.1, _, hcall.2, List.mem_cons_self⟩

end TypeCatalog
