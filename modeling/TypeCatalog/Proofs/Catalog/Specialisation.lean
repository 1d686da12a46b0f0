import TypeCatalog.Proofs.Catalog.Resolution

/-! # Specialisation commutes with resolution

    The scope inside a specialised class binds each variable to an argument; the scope inside the
    class as declared leaves it a variable. So the first tells of each variable what the second does
    with the arguments put in, and this carries over to every text that is resolved. -/

set_option autoImplicit false

namespace TypeCatalog

/-! ## Section 1: The scope inside a specialised class -/

/-- The bindings of the variables of a class, by name. -/
def ClassDeclaration.bindingsOf (d : ClassDeclaration) (types : List ResolvedType) : Bindings :=
  (d.typeVariables.map TypeVariable.name).zip types

/-- A name is bound if a variable has it. -/
theorem isSome_get?_zip (name : String) {typeVariables : List TypeVariable}
    {types : List ResolvedType} (h : types.length = typeVariables.length) :
    (Bindings.get? ((typeVariables.map TypeVariable.name).zip types) name).isSome =
      (Scope.findVariable? typeVariables name).isSome := by
  induction typeVariables generalizing types with
  | nil => rfl
  | cons v typeVariables ih =>
    cases types with
    | nil => cases h
    | cons t types =>
      rw [List.map_cons, List.zip_cons_cons, Bindings.get?_cons, Scope.findVariable?,
        List.find?_cons]
      cases v.name == name with
      | true => rfl
      | false => exact ih (Nat.succ.inj h)

section inside

variable {d : ClassDeclaration} {types : List ResolvedType}

theorem lookup?_raw (d : ClassDeclaration) (name : String) :
    (ClassType.raw d).scope.lookup? name =
      (Scope.findVariable? d.typeVariables name).map .declared := rfl

theorem lookup?_specialised (hne : types ≠ []) (name : String) :
    (ClassType.mk d types).scope.lookup? name = ((d.bindingsOf types).get? name).map .bound := by
  have hempty : types.isEmpty = false := by
    cases types with
    | nil => exact absurd rfl hne
    | cons t rest => rfl
  unfold Scope.lookup? ClassType.scope ClassDeclaration.bindingsOf Bindings.get?
  rw [List.zip_map_left, List.find?_map, Option.map_map, Option.map_map]
  simp only [hempty]
  rfl

/-- What a variable means inside a specialised class is what it means inside the class as declared,
    with the arguments in place of the variables. -/
theorem scope_specialises {c : Catalog} (hc : c.Keyed) (hvars : d.typeVariables ≠ [])
    (hlength : types.length = d.typeVariables.length) :
    (ClassType.mk d types).scope.Specialises c (d.bindingsOf types).image
      (ClassType.raw d).scope := by
  intro name
  -- Without arguments the class would count as not specialised.
  have hne : types ≠ [] := by
    rintro rfl
    exact hvars (List.length_eq_zero_iff.1 hlength.symm)
  have hbound := isSome_get?_zip name hlength
  change ((d.bindingsOf types).get? name).isSome = _ at hbound
  unfold Catalog.resolveVariable
  rw [lookup?_raw, lookup?_specialised hne]
  cases hfind : Scope.findVariable? d.typeVariables name with
  | none =>
    rw [hfind, Option.isSome_none, Option.isSome_eq_false_iff, Option.isNone_iff_eq_none] at hbound
    rw [hbound]
    exact hc.replaceVariables_objectType.symm
  | some v =>
    rw [hfind, Option.isSome_some, Option.isSome_iff_exists] at hbound
    obtain ⟨t, ht⟩ := hbound
    have hbeq : (v.name == name) = true :=
      List.find?_some (p := fun w : TypeVariable => w.name == name) hfind
    have hname : v.name = name := eq_of_beq hbeq
    rw [ht]
    show t = ((d.bindingsOf types).get? v.name).getD _
    rw [hname, ht, Option.getD_some]

end inside

/-! ## Section 2: Types and supertypes -/

/-- Resolving a text inside a specialised class is resolving it inside the class as declared and
    then putting the arguments in place of the variables; and so for the supertypes of the class.
    There is one argument for each variable, of any kind. -/
theorem resolveIn_specialise {c : Catalog} (hc : c.Reachable) {d : ClassDeclaration}
    {types : List ResolvedType} (hvars : d.typeVariables ≠ [])
    (hlength : types.length = d.typeVariables.length) :
    (∀ text, c.resolveIn (c.specialise (.raw d) types) [] text =
      c.substitute (d.bindingsOf types) (c.resolveIn (.raw d) [] text)) ∧
    c.supertypes (c.specialise (.raw d) types) =
      (c.supertypes (.raw d)).map (c.substitute (d.bindingsOf types)) := by
  have hspecialise : c.specialise (.raw d) types = ⟨d, types⟩ :=
    congrArg (ClassType.mk d) (argumentsFor_of_length_eq c hlength)
  have hresolve : ∀ text, c.resolveIn ⟨d, types⟩ [] text =
      c.substitute (d.bindingsOf types) (c.resolveIn (.raw d) [] text) := by
    intro text
    rw [substitute_eq_replaceVariables]
    exact resolve_eq_replaceVariables hc.keyed (scope_specialises hc.keyed hvars hlength) text
  rw [hspecialise]
  refine ⟨hresolve, ?_⟩
  unfold Catalog.supertypes
  rw [List.map_map]
  apply List.map_congr_left
  intro signature _
  exact hresolve signature

/-- An array of the variable of a class is, once the variable is bound to an array, an array of the
    dimensions of both. -/
theorem resolveIn_specialise_array :
    ∃ (c : Catalog) (d : ClassDeclaration) (types : List ResolvedType), c.Reachable ∧
      d.typeVariables ≠ [] ∧ types.length = d.typeVariables.length ∧
      c.resolveIn (c.specialise (.raw d) types) [] "[TT;" = .array (.primitive .int) 2 := by
  let d : ClassDeclaration := ⟨⟨"Box"⟩, ⟨0⟩, "", [⟨"T", []⟩], [], [], [], []⟩
  refine ⟨Catalog.empty.insertDeclaration d, d, [.array (.primitive .int) 1],
    .insertDeclaration d .empty, List.cons_ne_nil _ _, rfl, ?_⟩
  have hread : readSignature? "[TT;" = some (.array (.typeVariable "T")) :=
    readSignature?_eq_some (by cbv)
  rw [(resolveIn_specialise (.insertDeclaration d .empty) (List.cons_ne_nil _ _) rfl).1]
  unfold Catalog.resolveIn Catalog.resolve
  rw [hread]
  rfl

end TypeCatalog
