import TypeCatalog.Declaration
import TypeCatalog.Proofs.Signature.Lookups
import TypeCatalog.Proofs.Signature.Spelling

/-! # References to type variables

    The generic signature of a constructor is kept if it has to do with type variables. Whether it
    has is asked of the trees of its parameters and of its result. A tree keeps the arguments of the
    last segment of a class only, so references in the arguments of outer classes are dropped before
    the question is asked; and those in exceptions are not asked for. -/

set_option autoImplicit false

namespace TypeCatalog

open Signature

/-! ## Section 1: Names in a spelling -/

mutual
/-- The names of the type variables that a spelling refers to. -/
def TypeSpelling.referredNames : TypeSpelling → List String
  | .primitive _ => []
  | .typeVariable name => [name]
  | .array element => element.referredNames
  | .classType written => written.referredNames
/-- The names in the arguments of all segments of a class. -/
def ClassSpelling.referredNames : ClassSpelling → List String
  | .last _ arguments => ArgumentSpelling.listReferredNames arguments
  | .outer _ arguments inner =>
    ArgumentSpelling.listReferredNames arguments ++ inner.referredNames
/-- The names in a type argument. -/
def ArgumentSpelling.referredNames : ArgumentSpelling → List String
  | .any => []
  | .upper bound => bound.referredNames
  | .lower bound => bound.referredNames
  | .exactly type => type.referredNames
/-- The names in type arguments. -/
def ArgumentSpelling.listReferredNames : List ArgumentSpelling → List String
  | [] => []
  | a :: rest => a.referredNames ++ ArgumentSpelling.listReferredNames rest
end

mutual
/-- The names that stand in arguments of an outer class. -/
def TypeSpelling.droppedNames : TypeSpelling → List String
  | .primitive _ => []
  | .typeVariable _ => []
  | .array element => element.droppedNames
  | .classType written => written.droppedNames
/-- Everything in front of the last segment of a class is dropped, and so is what is dropped within
    the arguments of the last one. -/
def ClassSpelling.droppedNames : ClassSpelling → List String
  | .last _ arguments => ArgumentSpelling.listDroppedNames arguments
  | .outer _ arguments inner =>
    ArgumentSpelling.listReferredNames arguments ++ inner.droppedNames
/-- The names that are dropped from a type argument. -/
def ArgumentSpelling.droppedNames : ArgumentSpelling → List String
  | .any => []
  | .upper bound => bound.droppedNames
  | .lower bound => bound.droppedNames
  | .exactly type => type.droppedNames
/-- The names that are dropped from type arguments. -/
def ArgumentSpelling.listDroppedNames : List ArgumentSpelling → List String
  | [] => []
  | a :: rest => a.droppedNames ++ ArgumentSpelling.listDroppedNames rest
end

mutual
/-- A name in a spelling is in the tree or has been dropped. The induction is on the spelling. -/
theorem TypeSpelling.mem_referredNames {name : String} (x : TypeSpelling) :
    name ∈ x.referredNames ↔ name ∈ x.type.referredNames ∨ name ∈ x.droppedNames := by
  cases x with
  | primitive p =>
    simp [TypeSpelling.referredNames, TypeSpelling.type, TypeSignature.referredNames,
      TypeSpelling.droppedNames]
  | typeVariable word =>
    simp [TypeSpelling.referredNames, TypeSpelling.type, TypeSignature.referredNames,
      TypeSpelling.droppedNames]
  | array element =>
    rw [TypeSpelling.referredNames, TypeSpelling.type, TypeSignature.referredNames,
      TypeSpelling.droppedNames, element.mem_referredNames]
  | classType written =>
    rw [TypeSpelling.referredNames, TypeSpelling.type, TypeSignature.referredNames,
      TypeSpelling.droppedNames, written.mem_referredNames]
theorem ClassSpelling.mem_referredNames {name : String} (k : ClassSpelling) :
    name ∈ k.referredNames ↔
      name ∈ TypeArgument.listReferredNames k.arguments ∨ name ∈ k.droppedNames := by
  cases k with
  | last word as =>
    rw [ClassSpelling.referredNames, ClassSpelling.arguments, ClassSpelling.droppedNames,
      ArgumentSpelling.mem_listReferredNames as]
  | outer word as inner =>
    -- The arguments of an outer class are dropped as a whole, so only the inner class is split.
    rw [ClassSpelling.referredNames, ClassSpelling.arguments, ClassSpelling.droppedNames,
      List.mem_append, List.mem_append, inner.mem_referredNames]
    exact or_left_comm
theorem ArgumentSpelling.mem_referredNames {name : String} (a : ArgumentSpelling) :
    name ∈ a.referredNames ↔ name ∈ a.argument.referredNames ∨ name ∈ a.droppedNames := by
  cases a with
  | any =>
    simp [ArgumentSpelling.referredNames, ArgumentSpelling.argument, TypeArgument.referredNames,
      ArgumentSpelling.droppedNames]
  | upper bound =>
    rw [ArgumentSpelling.referredNames, ArgumentSpelling.argument, TypeArgument.referredNames,
      ArgumentSpelling.droppedNames, bound.mem_referredNames]
  | lower bound =>
    rw [ArgumentSpelling.referredNames, ArgumentSpelling.argument, TypeArgument.referredNames,
      ArgumentSpelling.droppedNames, bound.mem_referredNames]
  | exactly type =>
    rw [ArgumentSpelling.referredNames, ArgumentSpelling.argument, TypeArgument.referredNames,
      ArgumentSpelling.droppedNames, type.mem_referredNames]
theorem ArgumentSpelling.mem_listReferredNames {name : String} (as : List ArgumentSpelling) :
    name ∈ ArgumentSpelling.listReferredNames as ↔
      name ∈ TypeArgument.listReferredNames (ArgumentSpelling.argumentsOf as) ∨
        name ∈ ArgumentSpelling.listDroppedNames as := by
  cases as with
  | nil =>
    simp [ArgumentSpelling.listReferredNames, ArgumentSpelling.argumentsOf,
      TypeArgument.listReferredNames, ArgumentSpelling.listDroppedNames]
  | cons a rest =>
    rw [ArgumentSpelling.listReferredNames, ArgumentSpelling.argumentsOf,
      TypeArgument.listReferredNames, ArgumentSpelling.listDroppedNames, List.mem_append,
      List.mem_append, List.mem_append, a.mem_referredNames,
      ArgumentSpelling.mem_listReferredNames rest]
    exact or_or_or_comm
end

/-! ## Section 2: What a tree tells -/

mutual
theorem TypeSignature.mentionsVariable_iff (t : TypeSignature) :
    t.mentionsVariable = true ↔ ∃ name, name ∈ t.referredNames := by
  cases t with
  | primitive p => simp [TypeSignature.mentionsVariable, TypeSignature.referredNames]
  | typeVariable word => simp [TypeSignature.mentionsVariable, TypeSignature.referredNames]
  | array element =>
    rw [TypeSignature.mentionsVariable, TypeSignature.referredNames, element.mentionsVariable_iff]
  | classType word as =>
    rw [TypeSignature.mentionsVariable, TypeSignature.referredNames,
      TypeArgument.anyMentionsVariable_iff as]
theorem TypeArgument.mentionsVariable_iff (a : TypeArgument) :
    a.mentionsVariable = true ↔ ∃ name, name ∈ a.referredNames := by
  cases a with
  | any => simp [TypeArgument.mentionsVariable, TypeArgument.referredNames]
  | upper bound =>
    rw [TypeArgument.mentionsVariable, TypeArgument.referredNames, bound.mentionsVariable_iff]
  | lower bound =>
    rw [TypeArgument.mentionsVariable, TypeArgument.referredNames, bound.mentionsVariable_iff]
  | exactly type =>
    rw [TypeArgument.mentionsVariable, TypeArgument.referredNames, type.mentionsVariable_iff]
theorem TypeArgument.anyMentionsVariable_iff (as : List TypeArgument) :
    TypeArgument.anyMentionsVariable as = true ↔
      ∃ name, name ∈ TypeArgument.listReferredNames as := by
  cases as with
  | nil => simp [TypeArgument.anyMentionsVariable, TypeArgument.listReferredNames]
  | cons a rest =>
    simp only [TypeArgument.anyMentionsVariable, TypeArgument.listReferredNames, Bool.or_eq_true,
      List.mem_append, exists_or, a.mentionsVariable_iff,
      TypeArgument.anyMentionsVariable_iff rest]
end

namespace Signature

/-- A type variable is referred to somewhere in the text of a type. -/
def Refers (text : String) : Prop :=
  ∃ x : TypeSpelling, x.WellFormed ∧ x.text = text ∧ ∃ name, name ∈ x.referredNames

/-- A type variable is referred to in the type that a text is read as. -/
def Shows (text : String) : Prop :=
  ∃ x : TypeSpelling, x.WellFormed ∧ x.text = text ∧ ∃ name, name ∈ x.type.referredNames

/-- A type variable is referred to in an argument of an outer class. -/
def Drops (text : String) : Prop :=
  ∃ x : TypeSpelling, x.WellFormed ∧ x.text = text ∧ ∃ name, name ∈ x.droppedNames

theorem refers_iff {text : String} : Refers text ↔ Shows text ∨ Drops text := by
  simp only [Refers, Shows, Drops, TypeSpelling.mem_referredNames, exists_or, and_or_left]

end Signature

theorem mentionsVariable_eq {text : String} {t : TypeSignature}
    (h : TypeSignature.parse text = .ok t) : mentionsVariable text = t.mentionsVariable := by
  unfold mentionsVariable
  rw [h]

theorem mentionsVariable_iff_shows {text : String} : mentionsVariable text = true ↔ Shows text := by
  constructor
  · intro h
    cases hread : TypeSignature.parse text with
    | error e =>
      rw [mentionsVariable, hread] at h
      cases h
    | ok t =>
      rw [mentionsVariable_eq hread, TypeSignature.mentionsVariable_iff] at h
      obtain ⟨x, hx, htext, rfl⟩ := TypeSignature.parse_eq_ok_iff_spelled.1 hread
      exact ⟨x, hx, htext, h⟩
  · rintro ⟨x, hx, htext, hnames⟩
    rw [mentionsVariable_eq (TypeSignature.parse_eq_ok_iff_spelled.2 ⟨x, hx, htext, rfl⟩),
      TypeSignature.mentionsVariable_iff]
    exact hnames

/-! ## Section 3: Methods -/

namespace MethodSignature

variable (m : MethodSignature)

/-- A method that declares type variables or refers to one, in whatever place. -/
def HasVariables : Prop :=
  m.typeVariables ≠ [] ∨ ∃ text ∈ m.parameters ++ m.result :: m.exceptions, Refers text

/-- A method that declares type variables or refers to one in the type of a parameter or of the
    result. -/
def ShowsVariables : Prop :=
  m.typeVariables ≠ [] ∨ ∃ text ∈ m.parameters ++ [m.result], Shows text

/-- A method that refers to a type variable in an exception or in an argument of an outer class. -/
def HidesVariables : Prop :=
  (∃ text ∈ m.parameters ++ [m.result], Drops text) ∨ ∃ text ∈ m.exceptions, Refers text

variable {m}

theorem hasVariables_iff : m.HasVariables ↔ m.ShowsVariables ∨ m.HidesVariables := by
  have hplaces : (∃ text ∈ m.parameters ++ m.result :: m.exceptions, Refers text) ↔
      (∃ text ∈ m.parameters ++ [m.result], Refers text) ∨ ∃ text ∈ m.exceptions, Refers text := by
    rw [List.append_cons]
    simp only [List.mem_append (s := m.parameters ++ [m.result]), or_and_right, exists_or]
  have htypes : (∃ text ∈ m.parameters ++ [m.result], Refers text) ↔
      (∃ text ∈ m.parameters ++ [m.result], Shows text) ∨
        ∃ text ∈ m.parameters ++ [m.result], Drops text := by
    simp only [refers_iff, and_or_left, exists_or]
  unfold HasVariables ShowsVariables HidesVariables
  rw [hplaces, htypes, or_assoc, or_assoc]

theorem mentionsVariable_iff_showsVariables : m.mentionsVariable = true ↔ m.ShowsVariables := by
  unfold mentionsVariable ShowsVariables
  rw [Bool.or_eq_true, List.any_eq_true]
  simp only [mentionsVariable_iff_shows, Bool.not_eq_true', List.isEmpty_eq_false_iff, ne_eq]

end MethodSignature

/-! ## Section 4: Constructors -/

theorem Constructor.ofCompiled_eq_ok {m : CompiledMethod} {parts : MethodSignature}
    (h : MethodSignature.parse m.constructorSignature = .ok parts) :
    ∃ k, Constructor.ofCompiled m = .ok k ∧ k.signature = m.constructorSignature ∧
      k.parts = parts := by
  unfold Constructor.ofCompiled Callable.ofCompiled
  rw [h]
  exact ⟨_, rfl, rfl, rfl⟩

section constructor

variable {m : CompiledMethod} {generic : String} {parts erased : MethodSignature}
  (hgeneric : signatureOf? m.attributes = some generic)
  (hparts : MethodSignature.parse generic = .ok parts)
  (herased : MethodSignature.parse m.descriptor = .ok erased)

include hgeneric hparts

theorem CompiledMethod.constructorSignature_of_generic :
    m.constructorSignature = if parts.mentionsVariable then generic else m.descriptor := by
  unfold CompiledMethod.constructorSignature
  rw [hgeneric]
  simp only [hparts]

theorem Constructor.ofCompiled_of_mentionsVariable (h : parts.mentionsVariable = true) :
    ∃ k, Constructor.ofCompiled m = .ok k ∧ k.signature = generic ∧ k.parts = parts := by
  have hsignature := CompiledMethod.constructorSignature_of_generic hgeneric hparts
  rw [if_pos h] at hsignature
  rw [← hsignature] at hparts ⊢
  exact Constructor.ofCompiled_eq_ok hparts

include herased

theorem Constructor.ofCompiled_of_not_mentionsVariable (h : parts.mentionsVariable = false) :
    ∃ k, Constructor.ofCompiled m = .ok k ∧ k.signature = m.descriptor ∧ k.parts = erased := by
  have hsignature := CompiledMethod.constructorSignature_of_generic hgeneric hparts
  rw [h, if_neg Bool.false_ne_true] at hsignature
  rw [← hsignature] at herased ⊢
  exact Constructor.ofCompiled_eq_ok herased

end constructor

/-- The signature of a constructor with a generic one is the generic one exactly if it declares type
    variables or shows one in a parameter or in the result. These are the signatures that have to do
    with type variables at all, but for those that hide all of them in exceptions and in arguments
    of outer classes. -/
theorem Constructor.ofCompiled_generic {m : CompiledMethod} {generic : String}
    {parts erased : MethodSignature} (hgeneric : signatureOf? m.attributes = some generic)
    (hparts : MethodSignature.parse generic = .ok parts)
    (herased : MethodSignature.parse m.descriptor = .ok erased) :
    ∃ k, Constructor.ofCompiled m = .ok k ∧
      (parts.ShowsVariables → k.signature = generic ∧ k.parts = parts) ∧
      (¬parts.ShowsVariables → k.signature = m.descriptor ∧ k.parts = erased) ∧
      (parts.HasVariables ↔ parts.ShowsVariables ∨ parts.HidesVariables) := by
  by_cases hshows : parts.ShowsVariables
  · have hmentions := MethodSignature.mentionsVariable_iff_showsVariables.2 hshows
    obtain ⟨k, hk, hkept⟩ :=
      Constructor.ofCompiled_of_mentionsVariable hgeneric hparts hmentions
    exact ⟨k, hk, fun _ => hkept, fun h => absurd hshows h, MethodSignature.hasVariables_iff⟩
  · have hmentions : parts.mentionsVariable = false := by
      rw [← Bool.not_eq_true, MethodSignature.mentionsVariable_iff_showsVariables]
      exact hshows
    obtain ⟨k, hk, hplain⟩ :=
      Constructor.ofCompiled_of_not_mentionsVariable hgeneric hparts herased hmentions
    exact ⟨k, hk, fun h => absurd h hshows, fun _ => hplain, MethodSignature.hasVariables_iff⟩

/-- A row of a table, whose argument shows a variable. -/
theorem Constructor.ofCompiled_generic_row :
    ∃ k, Constructor.ofCompiled ⟨1, "<init>", "(LTable$Row;)V",
      [⟨"Signature", .raw [0, 1], some "(LTable<TX;>.Row<TX;>;)V"⟩], "", []⟩ = .ok k ∧
      k.signature = "(LTable<TX;>.Row<TX;>;)V" := by
  have hX : IsVariableName "X" := by decide
  let row : TypeSpelling :=
    .classType (.outer "Table" [.exactly (.typeVariable "X")]
      (.last "Row" [.exactly (.typeVariable "X")]))
  have hrow : row.WellFormed := ⟨by decide, ⟨hX, trivial⟩, by decide, hX, trivial⟩
  have hvoid : IsTypeText "V" := ⟨.primitive .void, parse_eq_ok_iff_wholeType.2 (by cbv)⟩
  have hgeneric : IsTypeText "LTable<TX;>.Row<TX;>;" :=
    ⟨_, TypeSignature.parse_eq_ok_iff_spelled.2 ⟨row, hrow, by cbv, rfl⟩⟩
  have herased : IsTypeText "LTable$Row;" :=
    ⟨.classType "Table$Row" [], parse_eq_ok_iff_wholeType.2 (by cbv)⟩
  have hparts : MethodSignature.parse "(LTable<TX;>.Row<TX;>;)V" =
      .ok ⟨[], ["LTable<TX;>.Row<TX;>;"], "V", []⟩ :=
    MethodSignature.parse_eq_ok_iff.2
      ⟨⟨by simp, by simpa using hgeneric, hvoid, by simp⟩, by decide⟩
  have hdescriptor : MethodSignature.parse "(LTable$Row;)V" = .ok ⟨[], ["LTable$Row;"], "V", []⟩ :=
    MethodSignature.parse_eq_ok_iff.2
      ⟨⟨by simp, by simpa using herased, hvoid, by simp⟩, by decide⟩
  obtain ⟨k, hk, hkept, -⟩ := Constructor.ofCompiled_generic
    (m := ⟨1, "<init>", "(LTable$Row;)V",
      [⟨"Signature", .raw [0, 1], some "(LTable<TX;>.Row<TX;>;)V"⟩], "", []⟩) rfl hparts hdescriptor
  have hshows : Shows "LTable<TX;>.Row<TX;>;" := ⟨row, hrow, by cbv, "X", by decide⟩
  exact ⟨k, hk, (hkept (.inr ⟨_, List.mem_cons_self, hshows⟩)).1⟩

/-- A variable in an exception: the signature refers to it and is not kept. -/
theorem Constructor.ofCompiled_hides :
    (∃ parts, MethodSignature.parse "()V^TX;" = .ok parts ∧ parts.HasVariables) ∧
    (∃ parts, MethodSignature.parse "()V" = .ok parts) ∧
    ∃ k, Constructor.ofCompiled ⟨1, "<init>", "()V",
      [⟨"Signature", .raw [0, 1], some "()V^TX;"⟩], "", []⟩ = .ok k ∧ k.signature = "()V" := by
  have hvoid : TypeSignature.parse "V" = .ok (.primitive .void) :=
    parse_eq_ok_iff_wholeType.2 (by cbv)
  have hexception : TypeSignature.parse "TX;" = .ok (.typeVariable "X") :=
    parse_eq_ok_iff_wholeType.2 (by cbv)
  have hrefers : Refers "TX;" :=
    ⟨.typeVariable "X", (by decide : IsVariableName "X"), by cbv, "X", by decide⟩
  have hparts : MethodSignature.parse "()V^TX;" = .ok ⟨[], [], "V", ["TX;"]⟩ :=
    MethodSignature.parse_eq_ok_iff.2
      ⟨⟨by simp, by simp, ⟨_, hvoid⟩, by simpa using ⟨_, hexception⟩⟩, by decide⟩
  have hdescriptor : MethodSignature.parse "()V" = .ok ⟨[], [], "V", []⟩ :=
    MethodSignature.parse_eq_ok_iff.2 ⟨⟨by simp, by simp, ⟨_, hvoid⟩, by simp⟩, by decide⟩
  have hmentions : (MethodSignature.mk [] [] "V" ["TX;"]).mentionsVariable = false := by
    simp [MethodSignature.mentionsVariable, mentionsVariable_eq hvoid,
      TypeSignature.mentionsVariable]
  obtain ⟨k, hk, hkept, -⟩ := Constructor.ofCompiled_of_not_mentionsVariable
    (m := ⟨1, "<init>", "()V", [⟨"Signature", .raw [0, 1], some "()V^TX;"⟩], "", []⟩) rfl hparts
    hdescriptor hmentions
  exact ⟨⟨_, hparts, .inr ⟨"TX;", by simp, hrefers⟩⟩, ⟨_, hdescriptor⟩, k, hk, hkept⟩

end TypeCatalog
