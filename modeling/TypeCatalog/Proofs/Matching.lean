import TypeCatalog.Proofs.Substitution

/-! # Steps of a match

    A parameter is matched with an argument step by step: each step looks at the outermost part of
    the parameter and hands a part of the argument on to the next. Here is what a step can come to,
    and which properties of arguments are those of the parts that are handed on. -/

set_option autoImplicit false

namespace TypeCatalog

/-! ## Section 1: What is handed on -/

/-- What is left of an array after some dimensions is its base or an array with the others. -/
theorem stripDimensions_eq_some {base r : ResolvedType} {dims count : Nat} :
    stripDimensions base dims count = some r ↔
      (count = dims ∧ r = base) ∨ (count < dims ∧ r = .array base (dims - count)) := by
  unfold stripDimensions
  rcases Nat.lt_trichotomy dims count with h | rfl | h
  · -- There are not as many dimensions as are to be taken off.
    rw [if_pos h]
    constructor
    · intro hnone
      cases hnone
    · rintro (⟨rfl, -⟩ | ⟨hlt, -⟩)
      · exact absurd h (Nat.lt_irrefl _)
      · exact absurd hlt (Nat.lt_asymm h)
  · rw [if_neg (Nat.lt_irrefl dims), if_pos rfl]
    constructor
    · intro hbase
      exact .inl ⟨rfl, (Option.some.inj hbase).symm⟩
    · rintro (⟨-, rfl⟩ | ⟨hlt, -⟩)
      · rfl
      · exact absurd hlt (Nat.lt_irrefl dims)
  · rw [if_neg (Nat.lt_asymm h), if_neg (Nat.ne_of_gt h)]
    constructor
    · intro hothers
      exact .inr ⟨h, (Option.some.inj hothers).symm⟩
    · rintro (⟨heq, -⟩ | ⟨-, rfl⟩)
      · exact absurd heq (Nat.ne_of_lt h)
      · rfl

/-- A property of types that goes over to what a match hands on: to the base of an array and to
    arrays of that base, to the bound of a wildcard, and to null. -/
structure PassesOn (P : ResolvedType → Prop) : Prop where
  base {base : ResolvedType} {dims : Nat} : P (.array base dims) → P base
  array {base : ResolvedType} {dims left : Nat} :
    P (.array base dims) → 1 ≤ left → P (.array base left)
  bound {kind : WildcardKind} {bound : ResolvedType} : P (.wildcard kind bound) → P bound
  nullType : P .nullType

section passes

variable {P : ResolvedType → Prop}

theorem PassesOn.stripDimensions (hP : PassesOn P) {base r : ResolvedType} {dims count : Nat}
    (h : P (.array base dims)) (hstrip : stripDimensions base dims count = some r) : P r := by
  rcases stripDimensions_eq_some.1 hstrip with ⟨-, rfl⟩ | ⟨hlt, rfl⟩
  · exact hP.base h
  · exact hP.array h (Nat.sub_pos_of_lt hlt)

theorem PassesOn.elementArgument? (hP : PassesOn P) {dims : Nat} {argument : Option ResolvedType}
    (ha : ∀ u, argument = some u → P u) {element : ResolvedType}
    (h : elementArgument? dims argument = some element) : P element := by
  unfold TypeCatalog.elementArgument? at h
  split at h
  · exact hP.stripDimensions (ha _ rfl) h
  · rw [← Option.some.inj h]
    exact hP.nullType
  · cases h

theorem PassesOn.boundArgument? (hP : PassesOn P) {argument : Option ResolvedType}
    (ha : ∀ u, argument = some u → P u) {bound : ResolvedType}
    (h : boundArgument? argument = some bound) : P bound := by
  unfold TypeCatalog.boundArgument? at h
  split at h
  · rw [← Option.some.inj h]
    exact hP.bound (ha _ rfl)
  · cases h
  · exact ha bound h

/-- What variables stand for keeps a property that the newly bound type has. -/
theorem Bindings.forall_get?_bind {b : Bindings} (hb : ∀ n u, b.get? n = some u → P u)
    {t : ResolvedType} (ht : P t) (name n : String) (u : ResolvedType)
    (hu : (b.bind name t).get? n = some u) : P u := by
  rw [Bindings.bind, Bindings.get?_cons] at hu
  split at hu
  · rw [← Option.some.inj hu]
    exact ht
  · exact hb n u hu

end passes

/-! ## Section 2: What a step comes to -/

section steps

variable (c : Catalog) (b : Bindings) (argument : Option ResolvedType)

/-- A variable that is bound becomes what it stands for. One that is not becomes the argument and
    stands for it from then on, unless there is none or it is null. -/
theorem infer_typeVariable_cases (v : TypeVariable) :
    (∃ t, b.get? v.name = some t ∧ c.infer b (.typeVariable v) argument = (t, b)) ∨
    (b.get? v.name = none ∧ (∀ t, argument = some t → t = .nullType) ∧
      c.infer b (.typeVariable v) argument = (.typeVariable v, b)) ∨
    ∃ t, b.get? v.name = none ∧ argument = some t ∧ t ≠ .nullType ∧
      c.infer b (.typeVariable v) argument = (t, b.bind v.name t) := by
  cases hget : b.get? v.name with
  | some t =>
    refine .inl ⟨t, rfl, ?_⟩
    rw [Catalog.infer.eq_def]
    simp only [hget]
  | none =>
    cases argument with
    | none =>
      have hnone : ∀ t : ResolvedType, none = some t → t = .nullType := by
        intro t h
        cases h
      refine .inr (.inl ⟨rfl, hnone, ?_⟩)
      rw [Catalog.infer, hget]
    | some t =>
      by_cases hnull : t = .nullType
      · subst hnull
        have honly : ∀ t, some ResolvedType.nullType = some t → t = .nullType := by
          intro t h
          exact (Option.some.inj h).symm
        refine .inr (.inl ⟨rfl, honly, ?_⟩)
        rw [Catalog.infer, hget]
      · refine .inr (.inr ⟨t, rfl, rfl, hnull, ?_⟩)
        rw [Catalog.infer, hget]
        exact hnull

/-- A class without arguments stays. One with arguments is matched argument by argument with
    another class; with anything else, what is known is put in the place of its variables. -/
theorem infer_classType_cases (d : ClassDeclaration) (arguments : List ResolvedType) :
    (arguments = [] ∧ c.infer b (.classType d arguments) argument = (.classType d [], b)) ∨
    (∃ d' given, argument = some (.classType d' given) ∧
      c.infer b (.classType d arguments) argument =
        (.classType d (c.argumentsFor d (c.inferAll b arguments given).1),
          (c.inferAll b arguments given).2)) ∨
    ((∀ d' given, argument ≠ some (.classType d' given)) ∧
      c.infer b (.classType d arguments) argument =
        (c.substitute b (.classType d arguments), b)) := by
  by_cases hempty : arguments = []
  · subst hempty
    refine .inl ⟨rfl, ?_⟩
    rw [Catalog.infer.eq_def]
    rfl
  · rw [← List.isEmpty_iff] at hempty
    by_cases hclass : ∃ d' given, argument = some (.classType d' given)
    · obtain ⟨d', given, rfl⟩ := hclass
      refine .inr (.inl ⟨d', given, rfl, ?_⟩)
      rw [Catalog.infer, if_neg hempty]
    · have hother : ∀ d' given, argument ≠ some (.classType d' given) := by
        intro d' given h
        exact hclass ⟨d', given, h⟩
      refine .inr (.inr ⟨hother, ?_⟩)
      rw [Catalog.infer, if_neg hempty]
      exact hother

end steps

end TypeCatalog
