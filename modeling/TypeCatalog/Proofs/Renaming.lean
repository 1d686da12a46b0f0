import Mathlib.Data.Set.Function
import TypeCatalog.Proofs.Unbound

/-! # Renaming type variables

    What variables are called does not matter to inference as long as different variables keep
    different names. Two matches run side by side, one with renamed variables: what is bound in one
    is bound in the other, to the same type, provided that the renaming is injective on the names
    that occur in the parameters and leaves the arguments alone. -/

set_option autoImplicit false

namespace TypeCatalog

/-! ## Section 1: Renaming in types -/

mutual
/-- A type with its variables renamed. -/
def ResolvedType.rename (g : TypeVariable → TypeVariable) : ResolvedType → ResolvedType
  | .typeVariable v => .typeVariable (g v)
  | .array base dims => .array (base.rename g) dims
  | .classType d arguments => .classType d (ResolvedType.renameAll g arguments)
  | .wildcard kind bound => .wildcard kind (bound.rename g)
  | .primitive p => .primitive p
  | .anyWildcard => .anyWildcard
  | .unknownClass n => .unknownClass n
  | .nullType => .nullType
/-- Types with their variables renamed. -/
def ResolvedType.renameAll (g : TypeVariable → TypeVariable) : List ResolvedType → List ResolvedType
  | [] => []
  | t :: rest => t.rename g :: ResolvedType.renameAll g rest
end

/-- A parameter with the variables in its type renamed. -/
def Parameter.rename (g : TypeVariable → TypeVariable) (p : Parameter) : Parameter :=
  { p with type := p.type.rename g }

section rename

variable {g : TypeVariable → TypeVariable}

theorem renameAll_eq_map (types : List ResolvedType) :
    ResolvedType.renameAll g types = types.map (ResolvedType.rename g) := by
  induction types with
  | nil => rfl
  | cons t rest ih => rw [ResolvedType.renameAll, ih, List.map_cons]

theorem rename_arrayOf (t : ResolvedType) (dims : Nat) :
    (t.arrayOf dims).rename g = (t.rename g).arrayOf dims := by
  cases t <;> rfl

theorem isEmpty_renameAll (types : List ResolvedType) :
    (ResolvedType.renameAll g types).isEmpty = types.isEmpty := by
  cases types <;> rfl

mutual
/-- A type stays if the variables in it do. -/
theorem rename_eq_self (t : ResolvedType)
    (h : ∀ v : TypeVariable, v.name ∈ t.variableNames → g v = v) :
    t.rename g = t := by
  match t with
  | .typeVariable v => rw [ResolvedType.rename, h v List.mem_cons_self]
  | .array base dims => rw [ResolvedType.rename, rename_eq_self base h]
  | .classType d arguments => rw [ResolvedType.rename, renameAll_eq_self arguments h]
  | .wildcard kind bound => rw [ResolvedType.rename, rename_eq_self bound h]
  | .primitive p => rfl
  | .anyWildcard => rfl
  | .unknownClass n => rfl
  | .nullType => rfl
theorem renameAll_eq_self (types : List ResolvedType)
    (h : ∀ v : TypeVariable, v.name ∈ ResolvedType.allVariableNames types → g v = v) :
    ResolvedType.renameAll g types = types := by
  match types with
  | [] => rfl
  | t :: rest =>
    rw [ResolvedType.renameAll, rename_eq_self t fun v hv => h v (List.mem_append_left _ hv),
      renameAll_eq_self rest fun v hv => h v (List.mem_append_right _ hv)]
end

variable {c : Catalog}

theorem Catalog.Keyed.rename_objectType (hc : c.Keyed) : c.objectType.rename g = c.objectType := by
  apply rename_eq_self
  intro v hv
  rw [hc.variableNames_objectType] at hv
  exact nomatch hv

/-- Arguments can be renamed before or after they are filled up. -/
theorem Catalog.Keyed.renameAll_argumentsFor (hc : c.Keyed) (d : ClassDeclaration)
    (types : List ResolvedType) :
    ResolvedType.renameAll g (c.argumentsFor d types) =
      c.argumentsFor d (ResolvedType.renameAll g types) := by
  rw [renameAll_eq_map, renameAll_eq_map]
  exact map_fillArguments hc.rename_objectType d.typeVariables types

end rename

/-! ## Section 2: Bindings under a renaming -/

/-- A renaming that goes by names and keeps those apart that occur. -/
structure RenamesApart (g : TypeVariable → TypeVariable) (β : String → String)
    (names : Set String) : Prop where
  name : ∀ v, (g v).name = β v.name
  injective : Set.InjOn β names

/-- Bindings before and after the renaming: the same types under the new names. The types have none
    of the variables that are renamed. -/
structure Bindings.Renamed (g : TypeVariable → TypeVariable) (β : String → String)
    (names : Set String) (b b' : Bindings) : Prop where
  get? : ∀ n ∈ names, b'.get? (β n) = b.get? n
  kept : ∀ n t, b.get? n = some t → t.rename g = t

section bindings

variable {g : TypeVariable → TypeVariable} {β : String → String} {names : Set String}
  {c : Catalog} {b b' : Bindings}

theorem Bindings.renamed_nil : Bindings.Renamed g β names [] [] where
  get? := fun _ _ => rfl
  kept := fun _ _ h => nomatch h

theorem Bindings.Renamed.bind (hg : RenamesApart g β names) (hb : b.Renamed g β names b')
    {name : String} (hname : name ∈ names) {t : ResolvedType} (ht : t.rename g = t) :
    (b.bind name t).Renamed g β names (b'.bind (β name) t) where
  get? := by
    intro n hn
    rw [Bindings.bind, Bindings.bind, Bindings.get?_cons, Bindings.get?_cons]
    by_cases h : name = n
    · simp [h]
    · have hne : β name ≠ β n := fun heq => h (hg.injective hname hn heq)
      simp [h, hne, hb.get? n hn]
  kept := Bindings.forall_get?_bind hb.kept ht name

mutual
/-- Substitution and renaming can change places. -/
theorem Catalog.Keyed.substitute_rename (hc : c.Keyed) (hg : RenamesApart g β names)
    (hb : b.Renamed g β names b') (t : ResolvedType) (ht : ∀ n ∈ t.variableNames, n ∈ names) :
    c.substitute b' (t.rename g) = (c.substitute b t).rename g := by
  match t with
  | .typeVariable v =>
    rw [ResolvedType.rename, Catalog.substitute, Catalog.substitute, hg.name,
      hb.get? v.name (ht v.name List.mem_cons_self)]
    cases hget : b.get? v.name with
    | none => rfl
    | some u => exact (hb.kept v.name u hget).symm
  | .array base dims =>
    rw [ResolvedType.rename, Catalog.substitute, Catalog.substitute, rename_arrayOf,
      hc.substitute_rename hg hb base ht]
  | .classType d arguments =>
    rw [ResolvedType.rename, Catalog.substitute, Catalog.substitute, isEmpty_renameAll]
    split
    · rfl
    · rw [hc.substituteAll_rename hg hb arguments ht, ResolvedType.rename,
        hc.renameAll_argumentsFor]
  | .wildcard kind bound =>
    rw [ResolvedType.rename, Catalog.substitute, Catalog.substitute, ResolvedType.rename,
      hc.substitute_rename hg hb bound ht]
  | .primitive p => rfl
  | .anyWildcard => rfl
  | .unknownClass n => rfl
  | .nullType => rfl
theorem Catalog.Keyed.substituteAll_rename (hc : c.Keyed) (hg : RenamesApart g β names)
    (hb : b.Renamed g β names b') (types : List ResolvedType)
    (ht : ∀ n ∈ ResolvedType.allVariableNames types, n ∈ names) :
    c.substituteAll b' (ResolvedType.renameAll g types) =
      ResolvedType.renameAll g (c.substituteAll b types) := by
  match types with
  | [] => rfl
  | t :: rest =>
    rw [ResolvedType.renameAll, Catalog.substituteAll, Catalog.substituteAll,
      ResolvedType.renameAll,
      hc.substitute_rename hg hb t fun n hn => ht n (List.mem_append_left _ hn),
      hc.substituteAll_rename hg hb rest fun n hn => ht n (List.mem_append_right _ hn)]
end

end bindings

/-! ## Section 3: Inference under a renaming -/

section inference

variable {g : TypeVariable → TypeVariable} {β : String → String} {names : Set String}
  {c : Catalog}

theorem passesOn_kept : PassesOn fun u => u.rename g = u where
  base h := (ResolvedType.array.inj h).1
  array h _ := by rw [ResolvedType.rename, (ResolvedType.array.inj h).1]
  bound h := (ResolvedType.wildcard.inj h).2
  nullType := rfl

/-- A match before and after the renaming: the types that the parameters have in the call, and the
    bindings that are left. -/
structure Alike (g : TypeVariable → TypeVariable) (β : String → String) (names : Set String)
    (first second : ResolvedType × Bindings) : Prop where
  type : second.1 = first.1.rename g
  bindings : first.2.Renamed g β names second.2

/-- A variable is bound in both matches or in neither. -/
theorem Bindings.Renamed.infer_typeVariable (hg : RenamesApart g β names) {b b' : Bindings}
    (hb : b.Renamed g β names b') (v : TypeVariable) (hv : v.name ∈ names)
    (argument : Option ResolvedType) (ha : ∀ u, argument = some u → u.rename g = u) :
    Alike g β names (c.infer b (.typeVariable v) argument)
      (c.infer b' (.typeVariable (g v)) argument) := by
  have hget := hb.get? v.name hv
  rw [Catalog.infer.eq_def, Catalog.infer.eq_def]
  simp only [hg.name, hget]
  cases hbound : b.get? v.name with
  | some t => exact ⟨(hb.kept v.name t hbound).symm, hb⟩
  | none =>
    cases argument with
    | none => exact ⟨rfl, hb⟩
    | some t =>
      have ht := ha t rfl
      cases t with
      | nullType => exact ⟨rfl, hb⟩
      | _ => exact ⟨ht.symm, hb.bind hg hv ht⟩

mutual
/-- The induction is on the type of the parameter. -/
theorem Catalog.Keyed.infer_rename (hc : c.Keyed) (hg : RenamesApart g β names) {b b' : Bindings}
    (hb : b.Renamed g β names b') (t : ResolvedType) (ht : ∀ n ∈ t.variableNames, n ∈ names)
    (argument : Option ResolvedType) (ha : ∀ u, argument = some u → u.rename g = u) :
    Alike g β names (c.infer b t argument) (c.infer b' (t.rename g) argument) := by
  match t with
  | .typeVariable v => exact hb.infer_typeVariable hg v (ht v.name List.mem_cons_self) argument ha
  | .array base dims =>
    rw [ResolvedType.rename, Catalog.infer, Catalog.infer]
    cases helement : elementArgument? dims argument with
    | some element =>
      have hbase := hc.infer_rename hg hb base ht (some element) (by
        rintro u ⟨⟩
        exact passesOn_kept.elementArgument? ha helement)
      exact ⟨by rw [rename_arrayOf, ← hbase.type], hbase.bindings⟩
    | none => exact ⟨hc.substitute_rename hg hb (.array base dims) ht, hb⟩
  | .classType d arguments =>
    by_cases hempty : arguments.isEmpty
    · rw [List.isEmpty_iff.1 hempty]
      exact ⟨rfl, hb⟩
    have hempty' : ¬(ResolvedType.renameAll g arguments).isEmpty := by rwa [isEmpty_renameAll]
    by_cases hclass : ∃ d' given, argument = some (.classType d' given)
    · obtain ⟨d', given, rfl⟩ := hclass
      have hgiven : ResolvedType.renameAll g given = given :=
        (ResolvedType.classType.inj (ha _ rfl)).2
      have hall := hc.inferAll_rename hg hb arguments ht given hgiven
      rw [ResolvedType.rename, Catalog.infer, Catalog.infer, if_neg hempty, if_neg hempty']
      refine ⟨?_, hall.2⟩
      rw [ResolvedType.rename, hc.renameAll_argumentsFor, ← hall.1]
    · have hother : ∀ d' given, argument = some (.classType d' given) → False :=
        fun d' given h => hclass ⟨d', given, h⟩
      rw [ResolvedType.rename, Catalog.infer, Catalog.infer, if_neg hempty, if_neg hempty']
      · exact ⟨hc.substitute_rename hg hb (.classType d arguments) ht, hb⟩
      · exact hother
      · exact hother
  | .wildcard kind bound =>
    have hbound := hc.infer_rename hg hb bound ht (boundArgument? argument) fun u hu =>
      passesOn_kept.boundArgument? ha hu
    rw [ResolvedType.rename, Catalog.infer, Catalog.infer]
    exact ⟨by rw [ResolvedType.rename, ← hbound.type], hbound.bindings⟩
  | .primitive p =>
    rw [ResolvedType.rename, Catalog.infer, Catalog.infer]
    exact ⟨rfl, hb⟩
  | .anyWildcard =>
    rw [ResolvedType.rename, Catalog.infer, Catalog.infer]
    exact ⟨rfl, hb⟩
  | .unknownClass n =>
    rw [ResolvedType.rename, Catalog.infer, Catalog.infer]
    exact ⟨rfl, hb⟩
  | .nullType =>
    rw [ResolvedType.rename, Catalog.infer, Catalog.infer]
    exact ⟨rfl, hb⟩
theorem Catalog.Keyed.inferAll_rename (hc : c.Keyed) (hg : RenamesApart g β names)
    {b b' : Bindings} (hb : b.Renamed g β names b') (types : List ResolvedType)
    (ht : ∀ n ∈ ResolvedType.allVariableNames types, n ∈ names) (given : List ResolvedType)
    (hgiven : ResolvedType.renameAll g given = given) :
    (c.inferAll b' (ResolvedType.renameAll g types) given).1 =
        ResolvedType.renameAll g (c.inferAll b types given).1 ∧
      (c.inferAll b types given).2.Renamed g β names
        (c.inferAll b' (ResolvedType.renameAll g types) given).2 := by
  match types, given with
  | [], given =>
    rw [ResolvedType.renameAll, Catalog.inferAll, Catalog.inferAll]
    exact ⟨rfl, hb⟩
  | t :: rest, [] =>
    rw [ResolvedType.renameAll, Catalog.inferAll, Catalog.inferAll]
    exact ⟨rfl, hb⟩
  | t :: rest, a :: others =>
    obtain ⟨ha, hothers⟩ := List.cons.inj hgiven
    have hfirst := hc.infer_rename hg hb t (fun n hn => ht n (List.mem_append_left _ hn)) (some a)
      (by
        rintro u ⟨⟩
        exact ha)
    have hrest := hc.inferAll_rename hg hfirst.bindings rest
      (fun n hn => ht n (List.mem_append_right _ hn)) others hothers
    rw [ResolvedType.renameAll, Catalog.inferAll, Catalog.inferAll]
    exact ⟨by rw [ResolvedType.renameAll, ← hfirst.type, ← hrest.1], hrest.2⟩
end

/-- Parameters one after the other, the bindings of each handed on to the next. -/
theorem Catalog.Keyed.inferParameters_rename (hc : c.Keyed) (hg : RenamesApart g β names)
    {b b' : Bindings} (hb : b.Renamed g β names b') (parameters : List Parameter)
    (ht : ∀ p ∈ parameters, ∀ n ∈ p.type.variableNames, n ∈ names) (arguments : List ResolvedType)
    (ha : ∀ a ∈ arguments, a.rename g = a) :
    (c.inferParameters b' (parameters.map (Parameter.rename g)) arguments).1 =
        (c.inferParameters b parameters arguments).1.map (Parameter.rename g) ∧
      (c.inferParameters b parameters arguments).2.Renamed g β names
        (c.inferParameters b' (parameters.map (Parameter.rename g)) arguments).2 := by
  induction parameters generalizing b b' arguments with
  | nil => exact ⟨rfl, hb⟩
  | cons p rest ih =>
    have hfirst := hc.infer_rename hg hb p.type (ht p List.mem_cons_self) arguments.head?
      fun u hu => ha u (List.mem_of_head? hu)
    obtain ⟨hothers, hbindings⟩ := ih hfirst.bindings
      (fun q hq => ht q (List.mem_cons_of_mem p hq)) arguments.tail
      fun a hmem => ha a (List.mem_of_mem_tail hmem)
    rw [List.map_cons, Catalog.inferParameters, Catalog.inferParameters]
    refine ⟨?_, hbindings⟩
    rw [List.map_cons, ← hothers]
    simp only [Parameter.rename, ← hfirst.type]

end inference

end TypeCatalog
