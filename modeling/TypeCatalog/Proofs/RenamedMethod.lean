import Mathlib.Data.List.Find
import TypeCatalog.Proofs.Renaming
import TypeCatalog.Proofs.Signature.Rewriting

/-! # Methods with renamed type variables

    The names that a method gives to its own type variables are bound by it. A call of the method
    looks the same whatever they are, as long as none of them occurs in the arguments of the owner:
    the parameters are matched after the arguments of the owner have been put in them, and
    bindings are kept by name. -/

set_option autoImplicit false

namespace TypeCatalog

open Signature

/-! ## Section 1: Names in signatures -/

mutual
/-- The names of the variables that a type refers to. -/
def TypeSignature.variableNames : TypeSignature → List String
  | .primitive _ => []
  | .typeVariable name => [name]
  | .array element => element.variableNames
  | .classType _ arguments => TypeArgument.allVariableNames arguments
/-- The names of the variables that a type argument refers to. -/
def TypeArgument.variableNames : TypeArgument → List String
  | .any => []
  | .upper bound => bound.variableNames
  | .lower bound => bound.variableNames
  | .exactly type => type.variableNames
/-- The names of the variables that type arguments refer to. -/
def TypeArgument.allVariableNames : List TypeArgument → List String
  | [] => []
  | a :: rest => a.variableNames ++ TypeArgument.allVariableNames rest
end

/-! ## Section 2: Resolution of renamed signatures -/

/-- A type and the same under a renaming that keeps its variables apart. -/
structure ResolvedType.RenamesTo (g : TypeVariable → TypeVariable) (names : Set String)
    (t t' : ResolvedType) : Prop where
  eq : t.rename g = t'
  names : ∀ n ∈ t.variableNames, n ∈ names

section resolution

variable {g : TypeVariable → TypeVariable} {names : Set String} {c : Catalog} {s s' : Scope}
  {f : String → Option TypeSignature}

theorem ResolvedType.RenamesTo.arrayOf {t t' : ResolvedType} (h : t.RenamesTo g names t')
    (dims : Nat) : (t.arrayOf dims).RenamesTo g names (t'.arrayOf dims) where
  eq := by rw [rename_arrayOf, h.eq]
  names := by
    rw [variableNames_arrayOf]
    exact h.names

/-- A type without variables is the same under every renaming. -/
theorem ResolvedType.renamesTo_self {t : ResolvedType} (h : t.variableNames = []) :
    t.RenamesTo g names t where
  eq := rename_eq_self t fun v hv => by
    rw [h] at hv
    exact absurd hv List.not_mem_nil
  names := by
    intro n hn
    rw [h] at hn
    exact absurd hn List.not_mem_nil

mutual
/-- If each name that is referred to is renamed, the type is. The induction is on the signature. -/
theorem Catalog.Keyed.resolveSignature_graft_renamesTo (hc : c.Keyed) (t : TypeSignature)
    (ht : t.WellFormed)
    (hf : ∀ q ∈ t.variableNames,
      (c.resolveSignature s ((f q).getD (.typeVariable q))).RenamesTo g names
        (c.resolveVariable s' q)) :
    (c.resolveSignature s (t.graft f)).RenamesTo g names (c.resolveSignature s' t) := by
  match t with
  | .primitive p => exact ResolvedType.renamesTo_self rfl
  | .typeVariable name => exact hf name List.mem_cons_self
  | .array element =>
    rw [TypeSignature.graft, Catalog.resolveSignature, Catalog.resolveSignature]
    exact (hc.resolveSignature_graft_renamesTo element ht hf).arrayOf 1
  | .classType name arguments =>
    rw [TypeSignature.graft, Catalog.resolveSignature, Catalog.resolveSignature]
    cases hget : c.get? name with
    | none => exact ResolvedType.renamesTo_self rfl
    | some known =>
      have hraw : known = .raw known.declaration := hc.eq_raw hget (ht.1.2 '<' (by decide))
      cases arguments with
      | nil =>
        rw [hraw]
        exact ResolvedType.renamesTo_self rfl
      | cons a rest =>
        obtain ⟨heq, hnames⟩ := hc.resolveArguments_graft_renamesTo (a :: rest) ht.2 hf
        constructor
        · show ResolvedType.classType _ (ResolvedType.renameAll g (c.argumentsFor _ _)) = _
          rw [hc.renameAll_argumentsFor, heq]
          rfl
        · intro n hn
          exact hnames n (hc.mem_argumentsFor hn)
theorem Catalog.Keyed.resolveArgument_graft_renamesTo (hc : c.Keyed) (a : TypeArgument)
    (ha : a.WellFormed)
    (hf : ∀ q ∈ a.variableNames,
      (c.resolveSignature s ((f q).getD (.typeVariable q))).RenamesTo g names
        (c.resolveVariable s' q)) :
    (c.resolveArgument s (a.graft f)).RenamesTo g names (c.resolveArgument s' a) := by
  match a with
  | .any => exact ResolvedType.renamesTo_self rfl
  | .upper bound =>
    have hbound := hc.resolveSignature_graft_renamesTo bound ha hf
    exact ⟨congrArg (ResolvedType.wildcard .upper) hbound.eq, hbound.names⟩
  | .lower bound =>
    have hbound := hc.resolveSignature_graft_renamesTo bound ha hf
    exact ⟨congrArg (ResolvedType.wildcard .lower) hbound.eq, hbound.names⟩
  | .exactly type => exact hc.resolveSignature_graft_renamesTo type ha hf
theorem Catalog.Keyed.resolveArguments_graft_renamesTo (hc : c.Keyed) (as : List TypeArgument)
    (has : TypeArgument.AllWellFormed as)
    (hf : ∀ q ∈ TypeArgument.allVariableNames as,
      (c.resolveSignature s ((f q).getD (.typeVariable q))).RenamesTo g names
        (c.resolveVariable s' q)) :
    ResolvedType.renameAll g (c.resolveArguments s (TypeArgument.graftAll f as)) =
        c.resolveArguments s' as ∧
      ∀ n ∈ ResolvedType.allVariableNames (c.resolveArguments s (TypeArgument.graftAll f as)),
        n ∈ names := by
  match as with
  | [] => exact ⟨rfl, fun n hn => nomatch hn⟩
  | a :: rest =>
    have ha := hc.resolveArgument_graft_renamesTo a has.1 fun q hq =>
      hf q (List.mem_append_left _ hq)
    obtain ⟨heq, hnames⟩ := hc.resolveArguments_graft_renamesTo rest has.2 fun q hq =>
      hf q (List.mem_append_right _ hq)
    rw [TypeArgument.graftAll, Catalog.resolveArguments, Catalog.resolveArguments]
    constructor
    · rw [ResolvedType.renameAll, ha.eq, heq]
    · intro n hn
      rcases List.mem_append.1 hn with hn | hn
      · exact ha.names n hn
      · exact hnames n hn
end

end resolution

/-! ## Section 3: Methods that differ in the names of their variables -/

section declared

variable (ρ : String → String) (declared : List TypeVariable)

/-- The reference to a declared variable under its new name. -/
def renamedReference? (name : String) : Option String :=
  if declared.any fun v => v.name == name then some ("T" ++ ρ name ++ ";") else none

/-- The type that is referred to under the new name. -/
def renamedVariable? (name : String) : Option TypeSignature :=
  if declared.any fun v => v.name == name then some (.typeVariable (ρ name)) else none

/-- The declared variable that got the name, and the variable itself if none did. -/
def originalVariable (v : TypeVariable) : TypeVariable :=
  (declared.find? fun w => ρ w.name == v.name).getD v

/-- The name of the declared variable that got the name, and the name itself if none did. -/
def originalName (name : String) : String :=
  ((declared.find? fun w => ρ w.name == name).map TypeVariable.name).getD name

/-- The names that are new or not declared. -/
def renamedNames : Set String :=
  {n | (∃ v ∈ declared, ρ v.name = n) ∨ ∀ v ∈ declared, v.name ≠ n}

end declared

/-- The signature `m'` is `m` with the declared variables renamed by `ρ`, each to a name of its own
    that does not occur in `m`. -/
structure MethodSignature.RenamedTo (ρ : String → String) (m m' : MethodSignature) : Prop where
  rewritten : m.Rewritten ρ (renamedReference? ρ m.typeVariables) m'
  valid : ∀ v ∈ m.typeVariables, IsVariableName (ρ v.name)
  injective : ∀ v ∈ m.typeVariables, ∀ w ∈ m.typeVariables, ρ v.name = ρ w.name → v.name = w.name
  fresh : ∀ v ∈ m.typeVariables, ∀ text ∈ m.result :: m.parameters, ∀ t,
    TypeSignature.parse text = .ok t → ρ v.name ∉ t.variableNames

/-- The method `m'` is `m` with the declared variables renamed. -/
structure Method.RenamedTo (ρ : String → String) (m m' : Method) : Prop where
  parts : m.parts.RenamedTo ρ m'.parts
  rest : m' = { m with signature := m'.signature, parts := m'.parts }

section renamed

variable {ρ : String → String} {declared : List TypeVariable}

/-- The new references are read as the new variables. -/
theorem readsAs_renamedVariable? (hvalid : ∀ v ∈ declared, IsVariableName (ρ v.name)) :
    ReadsAs (renamedReference? ρ declared) (renamedVariable? ρ declared) := by
  intro name
  unfold renamedReference? renamedVariable?
  split
  · next h =>
    obtain ⟨v, hv, hname⟩ := List.any_eq_true.1 h
    obtain rfl : v.name = name := by simpa using hname
    apply Option.Rel.some
    apply TypeSignature.parse_eq_ok_iff_spelled.2
    refine ⟨.typeVariable (ρ v.name), hvalid v hv, ?_, rfl⟩
    rw [← String.toList_inj]
    simp [TypeSpelling.text, TypeSpelling.chars]
  · exact .none

theorem renamedVariable?_eq_some {name : String} {v : TypeVariable} (hv : v ∈ declared)
    (hname : v.name = name) : renamedVariable? ρ declared name = some (.typeVariable (ρ name)) := by
  have hany : (declared.any fun w => w.name == name) = true :=
    List.any_eq_true.2 ⟨v, hv, beq_iff_eq.2 hname⟩
  rw [renamedVariable?, if_pos hany]

theorem renamedVariable?_eq_none {name : String} (h : ∀ v ∈ declared, v.name ≠ name) :
    renamedVariable? ρ declared name = none := by
  have hany : ¬(declared.any fun w => w.name == name) = true := by simpa using h
  rw [renamedVariable?, if_neg hany]

section original

variable (hinjective : ∀ v ∈ declared, ∀ w ∈ declared, ρ v.name = ρ w.name → v.name = w.name)

include hinjective

theorem originalName_new {v : TypeVariable} (hv : v ∈ declared) :
    originalName ρ declared (ρ v.name) = v.name := by
  unfold originalName
  cases hfind : declared.find? fun w => ρ w.name == ρ v.name with
  | none =>
    have hnone := List.find?_eq_none.1 hfind v hv
    simp at hnone
  | some w =>
    have hname : ρ w.name = ρ v.name := by simpa using List.find?_some hfind
    exact hinjective w (List.mem_of_find?_eq_some hfind) v hv hname

/-- A variable under its new name is taken back to the variable that is found under the old one. -/
theorem originalVariable_new {name : String} {v v' : TypeVariable}
    (hfind : Scope.findVariable? declared name = some v) (hname : v'.name = ρ name) :
    originalVariable ρ declared v' = v := by
  have hv : v.name = name := by simpa using List.find?_some hfind
  have hcongr : (declared.find? fun w => ρ w.name == v'.name) =
      declared.find? fun w => w.name == name := by
    apply List.find?_congr
    intro w hw
    have hnames : ρ w.name = ρ name ↔ w.name = name := by
      constructor
      · intro h
        rw [← hv] at h ⊢
        exact hinjective w hw v (List.mem_of_find?_eq_some hfind) h
      · intro h
        rw [h]
    rw [hname, Bool.eq_iff_iff]
    simpa using hnames
  rw [originalVariable, hcongr]
  exact congrArg (Option.getD · v') hfind

omit hinjective in
theorem originalName_other {name : String} (h : ∀ v ∈ declared, ρ v.name ≠ name) :
    originalName ρ declared name = name := by
  have hnone : (declared.find? fun w => ρ w.name == name) = none := by
    simpa [List.find?_eq_none] using h
  rw [originalName, hnone]
  rfl

omit hinjective in
theorem originalVariable_other {v : TypeVariable} (h : ∀ w ∈ declared, ρ w.name ≠ v.name) :
    originalVariable ρ declared v = v := by
  have hnone : (declared.find? fun w => ρ w.name == v.name) = none := by
    simpa [List.find?_eq_none] using h
  rw [originalVariable, hnone]
  rfl

/-- Different names that occur stand for different variables. -/
theorem renamesApart_original :
    RenamesApart (originalVariable ρ declared) (originalName ρ declared)
      (renamedNames ρ declared) where
  name := by
    intro v
    unfold originalVariable originalName
    cases declared.find? fun w => ρ w.name == v.name <;> rfl
  injective := by
    -- A name that is not new stays and is not declared, so no new name is taken back to it.
    have hother : ∀ n ∈ renamedNames ρ declared, (¬∃ v ∈ declared, ρ v.name = n) →
        originalName ρ declared n = n ∧ ∀ v ∈ declared, v.name ≠ n := by
      intro n hn hnew
      exact ⟨originalName_other fun v hv h => hnew ⟨v, hv, h⟩, hn.resolve_left hnew⟩
    intro n hn k hk heq
    by_cases hn' : ∃ v ∈ declared, ρ v.name = n
    · obtain ⟨v, hv, rfl⟩ := hn'
      rw [originalName_new hinjective hv] at heq
      by_cases hk' : ∃ w ∈ declared, ρ w.name = k
      · obtain ⟨w, hw, rfl⟩ := hk'
        rw [originalName_new hinjective hw] at heq
        rw [heq]
      · obtain ⟨hstays, hdeclared⟩ := hother k hk hk'
        exact absurd (heq.trans hstays) (hdeclared v hv)
    · obtain ⟨hstays, hdeclared⟩ := hother n hn hn'
      by_cases hk' : ∃ w ∈ declared, ρ w.name = k
      · obtain ⟨w, hw, rfl⟩ := hk'
        rw [originalName_new hinjective hw, hstays] at heq
        exact absurd heq.symm (hdeclared w hw)
      · rw [hstays, (hother k hk hk').1] at heq
        exact heq

end original

/-! ## Section 4: Resolution inside renamed methods -/

theorem name_of_findVariable? {vs : List TypeVariable} {name : String} {v : TypeVariable}
    (h : Scope.findVariable? vs name = some v) : v.name = name := by
  simpa using List.find?_some h

/-- The variables in what a name means in a class are the name itself and those of the arguments. -/
theorem Catalog.Keyed.mem_resolveVariable {c : Catalog} (hc : c.Keyed) {owner : ClassType}
    {name n : String} (h : n ∈ (c.resolveVariable owner.scope name).variableNames) :
    n = name ∨ n ∈ ResolvedType.allVariableNames owner.arguments := by
  have hobject : n ∉ c.objectType.variableNames := by
    rw [hc.variableNames_objectType]
    exact List.not_mem_nil
  unfold Catalog.resolveVariable Scope.lookup? at h
  by_cases hempty : owner.arguments.isEmpty
  · simp only [ClassType.scope, Scope.findVariable?, List.find?_nil, if_pos hempty] at h
    cases hclass : Scope.findVariable? owner.declaration.typeVariables name with
    | some v =>
      rw [Scope.findVariable?] at hclass
      rw [hclass] at h
      left
      rw [List.mem_singleton.1 h]
      exact name_of_findVariable? hclass
    | none =>
      rw [Scope.findVariable?] at hclass
      rw [hclass] at h
      exact absurd h hobject
  · simp only [ClassType.scope, Scope.findVariable?, List.find?_nil, if_neg hempty] at h
    cases hbound : (owner.declaration.typeVariables.zip owner.arguments).find?
        fun q => q.1.name == name with
    | some q =>
      rw [hbound] at h
      right
      exact mem_allVariableNames.2
        ⟨q.2, (List.of_mem_zip (List.mem_of_find?_eq_some hbound)).2, h⟩
    | none =>
      rw [hbound] at h
      exact absurd h hobject

/-- A name that a method does not declare means what it means in the class. -/
theorem resolveVariable_withMethod_of_none (c : Catalog) {owner : ClassType}
    {vs : List TypeVariable} {name : String} (h : Scope.findVariable? vs name = none) :
    c.resolveVariable (owner.scope.withMethod vs) name = c.resolveVariable owner.scope name := by
  unfold Catalog.resolveVariable Scope.lookup?
  simp only [Scope.withMethod, h]
  rfl

theorem resolveVariable_withMethod_of_some (c : Catalog) {owner : ClassType}
    {vs : List TypeVariable} {name : String} {v : TypeVariable}
    (h : Scope.findVariable? vs name = some v) :
    c.resolveVariable (owner.scope.withMethod vs) name = .typeVariable v := by
  unfold Catalog.resolveVariable Scope.lookup?
  simp only [Scope.withMethod, h]

/-- A declared variable is declared under its new name. -/
theorem exists_findVariable?_new {lookup : String → Option String} {declared' : List TypeVariable}
    (h : List.Forall₂ (TypeVariable.Rewritten ρ lookup) declared declared') {v : TypeVariable}
    (hv : v ∈ declared) : ∃ v', Scope.findVariable? declared' (ρ v.name) = some v' := by
  induction h with
  | nil => exact nomatch hv
  | cons hfirst _ ih =>
    rw [Scope.findVariable?, List.find?_cons]
    split
    · exact ⟨_, rfl⟩
    · next hne =>
      rcases List.mem_cons.1 hv with rfl | hv
      · rw [hfirst.name] at hne
        simp at hne
      · exact ih hv

theorem findVariable?_new_eq_none {lookup : String → Option String}
    {declared' : List TypeVariable}
    (h : List.Forall₂ (TypeVariable.Rewritten ρ lookup) declared declared') {name : String}
    (hname : ∀ v ∈ declared, ρ v.name ≠ name) : Scope.findVariable? declared' name = none := by
  apply List.find?_eq_none.2
  refine forall_mem_of_forall₂ (P := fun v => ¬(v.name == name) = true) h ?_
  intro v hv v' hv'
  rw [hv'.name]
  simpa using hname v hv

end renamed

section method

variable {ρ : String → String} {m m' : MethodSignature} {c : Catalog} {owner : ClassType}

/-- The names of the declared variables, old and new, do not occur in the arguments of the owner. -/
structure MethodSignature.ApartFrom (ρ : String → String) (m : MethodSignature)
    (types : List ResolvedType) : Prop where
  declared : ∀ v ∈ m.typeVariables, v.name ∉ ResolvedType.allVariableNames types
  new : ∀ v ∈ m.typeVariables, ρ v.name ∉ ResolvedType.allVariableNames types

/-- What a name means in the method, and what it means under the new names. -/
theorem MethodSignature.RenamedTo.resolveVariable_renamesTo (h : m.RenamedTo ρ m') (hc : c.Keyed)
    (howner : m.ApartFrom ρ owner.arguments) {name : String}
    (hfresh : ∀ v ∈ m.typeVariables, ρ v.name ≠ name) :
    (c.resolveSignature (owner.scope.withMethod m'.typeVariables)
        ((renamedVariable? ρ m.typeVariables name).getD (.typeVariable name))).RenamesTo
      (originalVariable ρ m.typeVariables) (renamedNames ρ m.typeVariables)
      (c.resolveVariable (owner.scope.withMethod m.typeVariables) name) := by
  cases hfind : Scope.findVariable? m.typeVariables name with
  | some v =>
    have hv : v ∈ m.typeVariables := List.mem_of_find?_eq_some hfind
    have hname : v.name = name := name_of_findVariable? hfind
    obtain ⟨v', hfind'⟩ := exists_findVariable?_new h.rewritten.typeVariables hv
    rw [hname] at hfind'
    have hname' : v'.name = ρ name := name_of_findVariable? hfind'
    rw [renamedVariable?_eq_some hv hname, Option.getD_some, Catalog.resolveSignature,
      resolveVariable_withMethod_of_some c hfind, resolveVariable_withMethod_of_some c hfind']
    constructor
    · rw [ResolvedType.rename, originalVariable_new h.injective hfind hname']
    · intro n hn
      left
      exact ⟨v, hv, by rw [hname, List.mem_singleton.1 hn, hname']⟩
  | none =>
    have hdeclared : ∀ v ∈ m.typeVariables, v.name ≠ name := by
      simpa [Scope.findVariable?] using hfind
    have hfind' := findVariable?_new_eq_none h.rewritten.typeVariables hfresh
    rw [renamedVariable?_eq_none hdeclared, Option.getD_none, Catalog.resolveSignature,
      resolveVariable_withMethod_of_none c hfind, resolveVariable_withMethod_of_none c hfind']
    -- The name means the same in both, and no name in what it means is renamed.
    constructor
    · apply rename_eq_self
      intro v hv
      apply originalVariable_other
      intro w hw heq
      rcases hc.mem_resolveVariable hv with hname | hmem
      · exact hfresh w hw (heq.trans hname)
      · exact howner.new w hw (heq ▸ hmem)
    · intro n hn
      right
      rintro v hv rfl
      rcases hc.mem_resolveVariable hn with hname | hmem
      · exact hdeclared v hv hname
      · exact howner.declared v hv hmem

theorem MethodSignature.RenamedTo.resolve_renamesTo (h : m.RenamedTo ρ m') (hc : c.Keyed)
    (howner : m.ApartFrom ρ owner.arguments) {text text' : String}
    (hmem : text ∈ m.result :: m.parameters)
    (htext : IsReplacement (renamedReference? ρ m.typeVariables) text text') :
    (c.resolve (owner.scope.withMethod m'.typeVariables) text').RenamesTo
      (originalVariable ρ m.typeVariables) (renamedNames ρ m.typeVariables)
      (c.resolve (owner.scope.withMethod m.typeVariables) text) := by
  have hread := htext
  obtain ⟨x, hx, hspelled, -⟩ := hread
  have hparse : TypeSignature.parse text = .ok x.type :=
    TypeSignature.parse_eq_ok_iff_spelled.2 ⟨x, hx, hspelled, rfl⟩
  have hparse' := htext.parse_eq (readsAs_renamedVariable? h.valid) hparse
  have hwf := (Signature.parse_eq_ok_iff.1 hparse).wellFormed
  rw [Catalog.resolve_eq_resolveSignature hparse, Catalog.resolve_eq_resolveSignature hparse']
  apply hc.resolveSignature_graft_renamesTo x.type hwf
  intro name hname
  apply h.resolveVariable_renamesTo hc howner
  rintro v hv rfl
  exact h.fresh v hv text hmem x.type hparse hname

end method

/-! ## Section 5: Calls of renamed methods -/

theorem map_zipIdx_of_forall₂ {α β γ : Type} {R : α → β → Prop} {as : List α} {bs : List β}
    (h : List.Forall₂ R as bs) {f : α × Nat → γ} {f' : β × Nat → γ} (start : Nat)
    (hf : ∀ a ∈ as, ∀ b, R a b → ∀ i, f (a, i) = f' (b, i)) :
    (as.zipIdx start).map f = (bs.zipIdx start).map f' := by
  induction h generalizing start with
  | nil => rfl
  | cons hab _ ih =>
    rw [List.zipIdx_cons, List.zipIdx_cons, List.map_cons, List.map_cons,
      hf _ List.mem_cons_self _ hab start,
      ih (start + 1) fun a ha => hf a (List.mem_cons_of_mem _ ha)]

theorem forall₂_filter {α β : Type} {R : α → β → Prop} {as : List α} {bs : List β}
    (h : List.Forall₂ R as bs) {p : α → Bool} {q : β → Bool}
    (hpq : ∀ a ∈ as, ∀ b, R a b → p a = q b) :
    List.Forall₂ R (as.filter p) (bs.filter q) := by
  induction h with
  | nil => exact .nil
  | cons hab _ ih =>
    have hrest := ih fun a ha => hpq a (List.mem_cons_of_mem _ ha)
    have hfirst := hpq _ List.mem_cons_self _ hab
    rw [List.filter_cons, List.filter_cons, hfirst]
    split
    · exact .cons hab hrest
    · exact hrest

/-- A call and the call of the renamed method: the same types, with the original variables in place
    of the renamed ones, and the corresponding variables left. -/
structure MethodCall.RenamedTo (ρ : String → String) (declared : List TypeVariable)
    (call call' : MethodCall) : Prop where
  owner : call'.owner = call.owner
  name : call'.name = call.name
  modifiers : call'.modifiers = call.modifiers
  parameters : call.parameters =
    call'.parameters.map (Parameter.rename (originalVariable ρ declared))
  result : call.result = call'.result.rename (originalVariable ρ declared)
  unbound : List.Forall₂ (TypeVariable.Rewritten ρ (renamedReference? ρ declared))
    call.unbound call'.unbound

section call

variable {ρ : String → String} {m m' : Method} {c : Catalog} {owner : ClassType}

theorem Method.RenamedTo.parameters_eq (h : m.RenamedTo ρ m') (hc : c.Keyed)
    (howner : m.parts.ApartFrom ρ owner.arguments) :
    m.parameters c owner = (m'.parameters c owner).map
      (Parameter.rename (originalVariable ρ m.parts.typeVariables)) := by
  have hnames : m'.parameterNames = m.parameterNames := congrArg (·.parameterNames) h.rest
  have hmodifiers : m'.modifiers = m.modifiers := congrArg (·.modifiers) h.rest
  have hlength := h.parts.rewritten.parameters.length_eq
  have hempty : m'.parts.parameters.isEmpty = m.parts.parameters.isEmpty := by
    rw [Bool.eq_iff_iff, List.isEmpty_iff_length_eq_zero, List.isEmpty_iff_length_eq_zero, hlength]
  have harity : m'.isVariableArity = m.isVariableArity := by
    rw [Callable.isVariableArity, Callable.isVariableArity, hmodifiers, hempty]
  unfold Callable.parameters
  rw [List.map_map]
  apply map_zipIdx_of_forall₂ h.parts.rewritten.parameters
  intro text htext text' hreplaced i
  have htype := h.parts.resolve_renamesTo hc howner (List.mem_cons_of_mem _ htext) hreplaced
  simp only [Function.comp, Callable.parameter, Parameter.rename, Callable.scope, hnames, harity,
    hlength, htype.eq]

theorem Method.RenamedTo.mem_renamedNames (h : m.RenamedTo ρ m') (hc : c.Keyed)
    (howner : m.parts.ApartFrom ρ owner.arguments) :
    ∀ p ∈ m'.parameters c owner, ∀ n ∈ p.type.variableNames,
      n ∈ renamedNames ρ m.parts.typeVariables := by
  intro p hp
  obtain ⟨⟨text', i⟩, htext', rfl⟩ := List.mem_map.1 hp
  have hmem : text' ∈ m'.parts.parameters := (List.mem_zipIdx' htext').2 ▸ List.getElem_mem _
  refine forall_mem_of_forall₂
    (P := fun text' => ∀ n ∈ (c.resolve (m'.scope owner) text').variableNames,
      n ∈ renamedNames ρ m.parts.typeVariables) h.parts.rewritten.parameters ?_ text' hmem
  intro text htext text' hreplaced
  exact (h.parts.resolve_renamesTo hc howner (List.mem_cons_of_mem _ htext) hreplaced).names

/-- A call does not depend on how the method names its variables, if the names occur neither in the
    arguments of the owner nor, as far as they are new, in those of the call. -/
theorem Method.call_renamed (hc : c.Reachable) (h : m.RenamedTo ρ m') (owner : ClassType)
    (arguments : List ResolvedType)
    (hnew : ∀ v ∈ m.parts.typeVariables,
      ρ v.name ∉ ResolvedType.allVariableNames (owner.arguments ++ arguments))
    (hdeclared : ∀ v ∈ m.parts.typeVariables,
      v.name ∉ ResolvedType.allVariableNames owner.arguments) :
    (m.call c owner arguments).RenamedTo ρ m.parts.typeVariables (m'.call c owner arguments) := by
  have howner : m.parts.ApartFrom ρ owner.arguments := by
    refine ⟨hdeclared, fun v hv hmem => hnew v hv ?_⟩
    obtain ⟨t, ht, hn⟩ := mem_allVariableNames.1 hmem
    exact mem_allVariableNames.2 ⟨t, List.mem_append_left _ ht, hn⟩
  have hg := renamesApart_original h.parts.injective
  have harguments : ∀ a ∈ arguments,
      a.rename (originalVariable ρ m.parts.typeVariables) = a := by
    intro a ha
    apply rename_eq_self
    intro v hv
    apply originalVariable_other
    intro w hw heq
    exact hnew w hw (mem_allVariableNames.2 ⟨a, List.mem_append_right _ ha, heq ▸ hv⟩)
  obtain ⟨hparameters, hbindings⟩ := hc.keyed.inferParameters_rename hg Bindings.renamed_nil
    (m'.parameters c owner) (h.mem_renamedNames hc.keyed howner) arguments harguments
  rw [← h.parameters_eq hc.keyed howner] at hparameters hbindings
  have hresult := h.parts.resolve_renamesTo hc.keyed howner List.mem_cons_self
    h.parts.rewritten.result
  constructor
  · rfl
  · exact congrArg (·.name) h.rest
  · exact congrArg (·.modifiers) h.rest
  · exact hparameters
  · have hsubstitute := hc.keyed.substitute_rename hg hbindings _ hresult.names
    rw [hresult.eq] at hsubstitute
    exact hsubstitute
  · apply forall₂_filter h.parts.rewritten.typeVariables
    intro v hv v' hv'
    have hget := hbindings.get? (ρ v.name) (.inl ⟨v, hv, rfl⟩)
    rw [originalName_new h.parts.injective hv] at hget
    exact congrArg Option.isNone (hget.trans (by rw [hv'.name]))

end call

/-- The bound of a variable that has no other one. -/
def anyBound : Bound := ⟨.classBound, "Ljava/lang/Object;"⟩

/-- A class with the variable `E`. -/
def boxOf (argument : ResolvedType) : ClassType :=
  ⟨{ (default : ClassDeclaration) with name := ⟨"Box"⟩, typeVariables := [⟨"E", [anyBound]⟩] },
    [argument]⟩

/-- A method of the class that turns an element into anything. -/
def castT : Method :=
  ⟨⟨⟨1025⟩, "", "<T:Ljava/lang/Object;>(TE;)TT;", ⟨[⟨"T", [anyBound]⟩], ["TE;"], "TT;", []⟩,
    ["e"], false⟩, "f"⟩

/-- The method with `U` for `T`. -/
def castU : Method :=
  ⟨⟨⟨1025⟩, "", "<U:Ljava/lang/Object;>(TE;)TU;", ⟨[⟨"U", [anyBound]⟩], ["TE;"], "TU;", []⟩,
    ["e"], false⟩, "f"⟩

theorem castT_renamedTo : castT.RenamedTo (fun _ => "U") castU := by
  have hobject : ClassSpelling.WellFormed (.last "java/lang/Object" []) := ⟨by decide, trivial⟩
  have hE : TypeSpelling.WellFormed (.typeVariable "E") := (by decide : IsVariableName "E")
  have hT : TypeSpelling.WellFormed (.typeVariable "T") := (by decide : IsVariableName "T")
  refine ⟨⟨⟨.cons ⟨rfl, .cons ⟨rfl, ?_⟩ .nil⟩ .nil, .cons ?_ .nil, ?_, .nil⟩, ?_, ?_, ?_⟩, rfl⟩
  · exact ⟨.classType (.last "java/lang/Object" []), hobject, by cbv, by cbv⟩
  · exact ⟨.typeVariable "E", hE, by cbv, by cbv⟩
  · exact ⟨.typeVariable "T", hT, by cbv, by cbv⟩
  · intro v _
    exact (by decide : IsVariableName "U")
  · intro v hv w hw _
    rw [List.mem_singleton.1 hv, List.mem_singleton.1 hw]
  · intro v _ text htext t ht
    have hreadT : TypeSignature.parse "TT;" = .ok (.typeVariable "T") :=
      TypeSignature.parse_eq_ok_iff_spelled.2 ⟨.typeVariable "T", hT, by cbv, rfl⟩
    have hreadE : TypeSignature.parse "TE;" = .ok (.typeVariable "E") :=
      TypeSignature.parse_eq_ok_iff_spelled.2 ⟨.typeVariable "E", hE, by cbv, rfl⟩
    have hcases : text = "TT;" ∨ text = "TE;" := by simpa [castT] using htext
    rcases hcases with rfl | rfl
    · rw [hreadT] at ht
      rw [← Except.ok.inj ht]
      decide
    · rw [hreadE] at ht
      rw [← Except.ok.inj ht]
      decide

/-- On an owner whose argument is a variable of the context with a name of its own, the variable of
    the method is left in the call under either name. -/
theorem Method.call_renamed_box :
    let owner := boxOf (.typeVariable ⟨"S", [anyBound]⟩)
    let arguments : List ResolvedType := [.unknownClass ⟨"java/lang/String"⟩]
    castT.RenamedTo (fun _ => "U") castU ∧
      (castT.call .empty owner arguments).RenamedTo (fun _ => "U") castT.parts.typeVariables
        (castU.call .empty owner arguments) := by
  intro owner arguments
  refine ⟨castT_renamedTo, Method.call_renamed .empty castT_renamedTo owner arguments ?_ ?_⟩
  · intro v _
    decide
  · intro v hv
    rw [List.mem_singleton.1 hv]
    decide

/-- On an owner whose argument is a variable of the context with the name of the variable of the
    method, the argument of the call is taken to tell what the method's own variable stands for: it
    is not left in the call, but under another name it is. -/
theorem Method.call_captures :
    let owner := boxOf (.typeVariable ⟨"T", [anyBound]⟩)
    let arguments : List ResolvedType := [.unknownClass ⟨"java/lang/String"⟩]
    castT.RenamedTo (fun _ => "U") castU ∧
      "U" ∉ ResolvedType.allVariableNames (owner.arguments ++ arguments) ∧
      (castT.call .empty owner arguments).unbound = [] ∧
      (castU.call .empty owner arguments).unbound = castU.parts.typeVariables ∧
      ¬(castT.call .empty owner arguments).RenamedTo (fun _ => "U") castT.parts.typeVariables
        (castU.call .empty owner arguments) := by
  intro owner arguments
  have helement : readSignature? "TE;" = some (.typeVariable "E") :=
    readSignature?_eq_some (by cbv)
  -- Inside the owner the parameter has the type that is the argument of the owner.
  have hparameters : ∀ m : Method, m = castT ∨ m = castU →
      m.parameters .empty owner = [⟨"e", .typeVariable ⟨"T", [anyBound]⟩, false⟩] := by
    intro m hm
    have harity : m.isVariableArity = false := by rcases hm with rfl | rfl <;> decide
    have hsingle : m.parameters .empty owner = [m.parameter .empty owner 0 "TE;"] := by
      rcases hm with rfl | rfl <;> rfl
    rw [hsingle, Callable.parameter, Catalog.resolve, helement, harity]
    rcases hm with rfl | rfl <;> rfl
  have hT : (castT.call .empty owner arguments).unbound = [] := by
    rw [Method.call, hparameters castT (.inl rfl)]
    rfl
  have hU : (castU.call .empty owner arguments).unbound = castU.parts.typeVariables := by
    rw [Method.call, hparameters castU (.inr rfl)]
    rfl
  refine ⟨castT_renamedTo, by decide, hT, hU, fun h => ?_⟩
  have hunbound := h.unbound
  rw [hT, hU] at hunbound
  cases hunbound

end TypeCatalog
