import TypeCatalog.Call

/-! # Substitution in types

    What replacing type variables does to arrays, to arguments that are filled up, and to the
    variables that occur in a type. Bindings are a list that is searched by name; the replacement is
    first described as a function on variables, which has no order and no repetitions. -/

set_option autoImplicit false

namespace TypeCatalog

/-! ## Section 1: Arrays and arguments -/

/-- Whether a type is an array. -/
def ResolvedType.isArray : ResolvedType → Bool
  | .array _ _ => true
  | _ => false

theorem arrayOf_of_isArray {t : ResolvedType} (h : t.isArray = false) (dims : Nat) :
    t.arrayOf dims = .array t dims := by
  cases t with
  | array base n => cases h
  | _ => rfl

theorem arrayOf_array (base : ResolvedType) (dims n : Nat) :
    (ResolvedType.array base dims).arrayOf n = .array base (dims + n) := rfl

/-- An array of arrays is one of their base, with the dimensions of both; an array of anything else
    is one of that. -/
theorem arrayOf_cases (t : ResolvedType) (dims : Nat) :
    (∃ base n, t = .array base n ∧ t.arrayOf dims = .array base (n + dims)) ∨
      (t.isArray = false ∧ t.arrayOf dims = .array t dims) := by
  by_cases h : t.isArray
  · cases t with
    | array base n => exact .inl ⟨base, n, rfl, arrayOf_array base n dims⟩
    | _ => cases h
  · rw [Bool.not_eq_true] at h
    exact .inr ⟨h, arrayOf_of_isArray h dims⟩

/-- Dimensions that are put on in two steps add up. -/
theorem arrayOf_arrayOf (t : ResolvedType) (m n : Nat) :
    (t.arrayOf m).arrayOf n = t.arrayOf (m + n) := by
  rcases arrayOf_cases t m with ⟨base, dims, rfl, heq⟩ | ⟨h, heq⟩
  · rw [heq, arrayOf_array, arrayOf_array, Nat.add_assoc]
  · rw [heq, arrayOf_of_isArray h, arrayOf_array]

theorem length_fillArguments (default : ResolvedType) (typeVariables : List TypeVariable)
    (types : List ResolvedType) :
    (fillArguments default typeVariables types).length = typeVariables.length := by
  induction typeVariables generalizing types with
  | nil => cases types <;> rfl
  | cons v typeVariables ih => cases types <;> simp [fillArguments, ih]

/-- Nothing is filled up or dropped if there is one type for each variable. -/
theorem fillArguments_of_length_eq {default : ResolvedType} {typeVariables : List TypeVariable}
    {types : List ResolvedType} (h : types.length = typeVariables.length) :
    fillArguments default typeVariables types = types := by
  induction typeVariables generalizing types with
  | nil =>
    rw [List.length_nil, List.length_eq_zero_iff] at h
    rw [h]
    rfl
  | cons v typeVariables ih =>
    cases types with
    | nil => cases h
    | cons t types =>
      rw [fillArguments, ih (Nat.succ.inj h)]

/-- Filling up commutes with a function that keeps the default. -/
theorem map_fillArguments {f : ResolvedType → ResolvedType} {default : ResolvedType}
    (h : f default = default) (typeVariables : List TypeVariable) (types : List ResolvedType) :
    (fillArguments default typeVariables types).map f =
      fillArguments default typeVariables (types.map f) := by
  induction typeVariables generalizing types with
  | nil => cases types <;> rfl
  | cons v typeVariables ih =>
    cases types with
    | nil =>
      have hrest := ih []
      rw [List.map_nil] at hrest
      rw [fillArguments, List.map_cons, h, hrest, List.map_nil, fillArguments]
    | cons t types =>
      rw [fillArguments, List.map_cons, ih, List.map_cons, fillArguments]

theorem argumentsFor_of_length_eq (c : Catalog) {d : ClassDeclaration} {types : List ResolvedType}
    (h : types.length = d.typeVariables.length) : c.argumentsFor d types = types :=
  fillArguments_of_length_eq h

/-! ## Section 2: Replacing variables -/

mutual
/-- A type with each variable replaced by what a function gives for it, all at once. -/
def Catalog.replaceVariables (c : Catalog) (f : TypeVariable → ResolvedType) :
    ResolvedType → ResolvedType
  | .typeVariable v => f v
  | .array base dims => .arrayOf (c.replaceVariables f base) dims
  | .classType d arguments =>
    if arguments.isEmpty then .classType d arguments
    else .classType d (c.argumentsFor d (c.replaceAll f arguments))
  | .wildcard kind bound => .wildcard kind (c.replaceVariables f bound)
  | .primitive p => .primitive p
  | .anyWildcard => .anyWildcard
  | .unknownClass n => .unknownClass n
  | .nullType => .nullType
/-- Types with each variable replaced. -/
def Catalog.replaceAll (c : Catalog) (f : TypeVariable → ResolvedType) :
    List ResolvedType → List ResolvedType
  | [] => []
  | t :: rest => c.replaceVariables f t :: c.replaceAll f rest
end

theorem replaceAll_eq_map (c : Catalog) (f : TypeVariable → ResolvedType)
    (types : List ResolvedType) : c.replaceAll f types = types.map (c.replaceVariables f) := by
  induction types with
  | nil => rfl
  | cons t types ih => rw [Catalog.replaceAll, ih, List.map_cons]

/-- What bindings give for a variable: the variable itself if it is not bound. -/
def Bindings.image (b : Bindings) (v : TypeVariable) : ResolvedType :=
  (b.get? v.name).getD (.typeVariable v)

theorem Bindings.get?_cons (n name : String) (t : ResolvedType) (b : Bindings) :
    Bindings.get? ((n, t) :: b) name = if n == name then some t else b.get? name := by
  by_cases h : n == name
  · simp [Bindings.get?, h]
  · simp [Bindings.get?, h]

mutual
/-- Substitution replaces the variables that are bound. -/
theorem substitute_eq_replaceVariables (c : Catalog) (b : Bindings) (t : ResolvedType) :
    c.substitute b t = c.replaceVariables b.image t := by
  cases t with
  | typeVariable v => rfl
  | array base dims =>
    rw [Catalog.substitute, Catalog.replaceVariables, substitute_eq_replaceVariables c b base]
  | classType d arguments =>
    rw [Catalog.substitute, Catalog.replaceVariables, substituteAll_eq_replaceAll c b arguments]
  | wildcard kind bound =>
    rw [Catalog.substitute, Catalog.replaceVariables, substitute_eq_replaceVariables c b bound]
  | primitive p => rfl
  | anyWildcard => rfl
  | unknownClass n => rfl
  | nullType => rfl

theorem substituteAll_eq_replaceAll (c : Catalog) (b : Bindings) (types : List ResolvedType) :
    c.substituteAll b types = c.replaceAll b.image types := by
  cases types with
  | nil => rfl
  | cons t rest =>
    rw [Catalog.substituteAll, Catalog.replaceAll, substitute_eq_replaceVariables c b t,
      substituteAll_eq_replaceAll c b rest]
end

section replace

variable {c : Catalog} {f : TypeVariable → ResolvedType}

theorem replaceVariables_arrayOf (t : ResolvedType) (dims : Nat) :
    c.replaceVariables f (t.arrayOf dims) = (c.replaceVariables f t).arrayOf dims := by
  rcases arrayOf_cases t dims with ⟨base, n, rfl, heq⟩ | ⟨-, heq⟩
  · rw [heq, Catalog.replaceVariables, Catalog.replaceVariables, arrayOf_arrayOf]
  · rw [heq, Catalog.replaceVariables]

/-- A class as declared has no variables to replace. -/
theorem replaceVariables_raw (d : ClassDeclaration) :
    c.replaceVariables f (ClassType.raw d).toType = (ClassType.raw d).toType := rfl

/-- Replacement in a class with arguments, of which it has one for each variable. -/
theorem replaceVariables_classType {d : ClassDeclaration} {arguments : List ResolvedType}
    (h : arguments.length = d.typeVariables.length) :
    c.replaceVariables f (.classType d arguments) = .classType d (c.replaceAll f arguments) := by
  rw [Catalog.replaceVariables]
  cases arguments with
  | nil => rfl
  | cons t rest =>
    have hlength : (c.replaceAll f (t :: rest)).length = d.typeVariables.length := by
      rw [replaceAll_eq_map, List.length_map, h]
    rw [List.isEmpty_cons, if_neg Bool.false_ne_true, argumentsFor_of_length_eq c hlength]

end replace

/-! ## Section 3: The variables and the form of a type -/

mutual
/-- The names of the variables that occur in a type. -/
def ResolvedType.variableNames : ResolvedType → List String
  | .typeVariable v => [v.name]
  | .array base _ => base.variableNames
  | .classType _ arguments => ResolvedType.allVariableNames arguments
  | .wildcard _ bound => bound.variableNames
  | .primitive _ => []
  | .anyWildcard => []
  | .unknownClass _ => []
  | .nullType => []
/-- The names of the variables that occur in types. -/
def ResolvedType.allVariableNames : List ResolvedType → List String
  | [] => []
  | t :: rest => t.variableNames ++ ResolvedType.allVariableNames rest
end

mutual
/-- Arrays have dimensions and bases that are no arrays, and classes have no arguments or one for
    each variable, at every depth. -/
def ResolvedType.WellFormed : ResolvedType → Prop
  | .array base dims => 1 ≤ dims ∧ base.isArray = false ∧ base.WellFormed
  | .classType d arguments =>
    (arguments = [] ∨ arguments.length = d.typeVariables.length) ∧
      ResolvedType.AllWellFormed arguments
  | .wildcard _ bound => bound.WellFormed
  | .typeVariable _ => True
  | .primitive _ => True
  | .anyWildcard => True
  | .unknownClass _ => True
  | .nullType => True
/-- Several types are of this form. -/
def ResolvedType.AllWellFormed : List ResolvedType → Prop
  | [] => True
  | t :: rest => t.WellFormed ∧ ResolvedType.AllWellFormed rest
end

end TypeCatalog
