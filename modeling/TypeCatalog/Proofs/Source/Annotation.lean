import Mathlib.Data.List.Forall2
import TypeCatalog.Proofs.Signature.Declaration
import TypeCatalog.Proofs.Signature.RoundTrip
import TypeCatalog.Proofs.Source.Updates
import TypeCatalog.Source.Annotate

/-! # Where documentation lands

    A member of a source file is looked for among the compiled methods by its name and the types of
    its parameters as they are written. The first method that it can be the source of takes what it
    says, and of several members that are looked up at one method the last one counts. A written
    type stands for many erased ones: a name for the classes of every package that have it, and a
    type variable for all classes. So a member finds its own method where no method before can be
    made from it, and keeps it where no later member is looked up there. -/

set_option autoImplicit false

namespace TypeCatalog

/-! ## Section 1: Erased types -/

/-- What an erased type has below its dimensions. -/
inductive ErasedElement where
  | primitive (p : Primitive)
  | classType (name : String) (legal : Signature.IsClassName name)

/-- A type as it is in a method descriptor. -/
structure ErasedType where
  element : ErasedElement
  dimensions : Nat

def ErasedElement.signature : ErasedElement → TypeSignature
  | primitive p => .primitive p
  | classType name _ => .classType name []

namespace ErasedType

def signature (e : ErasedType) : TypeSignature := .ofDimensions e.dimensions e.element.signature

def descriptor (e : ErasedType) : String := e.signature.text

/-- The descriptor of a method with the given parameters and the given result. -/
def methodDescriptor (parameters : List ErasedType) (result : ErasedType) : String :=
  (MethodSignature.mk [] (parameters.map descriptor) result.descriptor []).text

theorem dimensions_signature (e : ErasedType) : e.signature.dimensions = e.dimensions := by
  obtain ⟨element, dimensions⟩ := e
  induction dimensions with
  | zero => cases element <;> rfl
  | succ n ih => exact congrArg (· + 1) ih

theorem innermost_signature (e : ErasedType) : e.signature.innermost = e.element.signature := by
  obtain ⟨element, dimensions⟩ := e
  induction dimensions with
  | zero => cases element <;> rfl
  | succ n ih => exact ih

theorem wellFormed_signature (e : ErasedType) : e.signature.WellFormed := by
  obtain ⟨element, dimensions⟩ := e
  induction dimensions with
  | zero =>
    cases element with
    | primitive p => trivial
    | classType name legal => exact ⟨legal, trivial⟩
  | succ n ih => exact ih

theorem parse_descriptor (e : ErasedType) : TypeSignature.parse e.descriptor = .ok e.signature :=
  e.wellFormed_signature.parse_text_eq

theorem parse_methodDescriptor (parameters : List ErasedType) (result : ErasedType) :
    MethodSignature.parse (methodDescriptor parameters result) =
      .ok ⟨[], parameters.map descriptor, result.descriptor, []⟩ := by
  rw [MethodSignature.parse_eq_ok_iff]
  refine ⟨⟨by simp, ?_, ⟨_, result.parse_descriptor⟩, by simp⟩, rfl⟩
  intro text htext
  obtain ⟨e, -, rfl⟩ := List.mem_map.1 htext
  exact ⟨_, e.parse_descriptor⟩

end ErasedType

/-- The types in the descriptor of a method are erased. -/
def CompiledMethod.IsErased (compiled : CompiledMethod) : Prop :=
  ∃ parameters result, compiled.descriptor = ErasedType.methodDescriptor parameters result

namespace Source

/-! ## Section 2: Compiled forms -/

/-- An erased type is that of a written one, where the scope has the names of the type variables
    that can be referred to. A class has the written name as the last part of its own, unless that
    is the name of a variable: then the class is some bound. -/
def WrittenType.ErasesTo (scope : List String) (t : WrittenType) (e : ErasedType) : Prop :=
  e.dimensions = t.dimensions ∧
    match e.element with
    | .primitive p => p.keyword = t.name
    | .classType name _ => t.name ∈ scope ∨ lastPart name = t.name

/-- A compiled method has the name of a member, and the erased types of its parameters are those of
    the parameters of the member. -/
def Member.CompilesTo (outer : List String) (m : Member) (compiled : CompiledMethod) : Prop :=
  compiled.name = m.compiledName ∧
    ∃ parameters result, compiled.descriptor = ErasedType.methodDescriptor parameters result ∧
      List.Forall₂ (fun p e => p.type.ErasesTo (m.typeVariables ++ outer) e) m.parameters parameters

theorem WrittenType.admits_descriptor_iff (t : WrittenType) (scope : List String)
    (e : ErasedType) :
    t.admits (scope.contains t.name) e.descriptor = true ↔ t.ErasesTo scope e := by
  unfold admits ErasesTo
  rw [e.parse_descriptor]
  simp only [e.dimensions_signature, e.innermost_signature, Bool.and_eq_true, beq_iff_eq]
  cases e.element with
  | primitive p => simp only [ErasedElement.signature, beq_iff_eq]
  | classType name legal =>
    simp only [ErasedElement.signature, Bool.or_eq_true, List.contains_iff_mem, beq_iff_eq]

theorem admitParameters_descriptors_iff (scope : List String) (parameters : List Parameter)
    (es : List ErasedType) :
    admitParameters scope parameters (es.map ErasedType.descriptor) = true ↔
      List.Forall₂ (fun p e => p.type.ErasesTo scope e) parameters es := by
  induction parameters generalizing es with
  | nil => cases es <;> simp [admitParameters]
  | cons p ps ih =>
    cases es with
    | nil => simp [admitParameters]
    | cons e es =>
      rw [List.map_cons, admitParameters, Bool.and_eq_true, WrittenType.admits_descriptor_iff, ih,
        List.forall₂_cons]

theorem Member.admits_methodDescriptor_iff (m : Member) (outer : List String)
    (es : List ErasedType) (result : ErasedType) :
    m.admits outer (ErasedType.methodDescriptor es result) = true ↔
      List.Forall₂ (fun p e => p.type.ErasesTo (m.typeVariables ++ outer) e) m.parameters es := by
  unfold admits
  rw [ErasedType.parse_methodDescriptor]
  exact admitParameters_descriptors_iff _ _ es

/-- A member is looked up by what it compiles to. -/
theorem Member.isSourceOf_iff {m : Member} {outer : List String} {compiled : CompiledMethod}
    (h : compiled.IsErased) :
    m.isSourceOf outer compiled = true ↔ m.CompilesTo outer compiled := by
  unfold isSourceOf CompilesTo
  rw [Bool.and_eq_true, beq_iff_eq]
  refine and_congr_right fun _ => ⟨fun hadmits => ?_, ?_⟩
  -- The types that the descriptor is made of are the ones that the member admits.
  · obtain ⟨es, result, hdescriptor⟩ := h
    rw [hdescriptor, m.admits_methodDescriptor_iff] at hadmits
    exact ⟨es, result, hdescriptor, hadmits⟩
  · rintro ⟨es, result, hdescriptor, herases⟩
    rwa [hdescriptor, m.admits_methodDescriptor_iff]

/-! ## Section 3: One member -/

section lists

variable {α : Type} {p : α → Bool}

/-- An item that a predicate holds on, and on nothing after, is the last one that it holds on. -/
theorem getLast?_filter_eq {s : List α} {i : Nat} {a : α} (ha : s[i]? = some a) (hp : p a = true)
    (hafter : ∀ b ∈ s.drop (i + 1), p b = false) : (s.filter p).getLast? = some a := by
  obtain ⟨hi, rfl⟩ := List.getElem?_eq_some_iff.1 ha
  have hnone : (s.drop (i + 1)).filter p = [] := by
    rw [List.filter_eq_nil_iff]
    intro b hb
    rw [hafter b hb]
    exact Bool.false_ne_true
  have hsplit : s = s.take i ++ s[i] :: s.drop (i + 1) := by
    rw [← List.drop_eq_getElem_cons hi, List.take_append_drop]
  have hfilter : s.filter p = (s.take i).filter p ++ [s[i]] := by
    conv => lhs; rw [hsplit]
    rw [List.filter_append, List.filter_cons_of_pos hp, hnone]
  rw [hfilter, List.getLast?_concat]

end lists

/-- Fields are not methods. -/
def Member.isCallable (m : Member) : Bool := m.kind != .field

/-- Whether a member is looked up at the method with the given index. -/
def Member.takes (outer : List String) (methods : List CompiledMethod) (i : Nat) (m : Member) :
    Bool :=
  m.isCallable && methods.findIdx (m.isSourceOf outer) == i

variable {outer : List String} {c : CompiledClass} {m : Member} {i : Nat}

/-- What a member says about a method is nothing that members are looked up by. -/
theorem isOverwriting_describeMethod (outer : List String) :
    IsOverwriting (Member.isSourceOf · outer) Member.describeMethod :=
  ⟨fun _ _ _ => rfl, fun _ _ _ => rfl⟩

/-- What a member says about a field is nothing that members are looked up by. -/
theorem isOverwriting_describeField :
    IsOverwriting (fun (m : Member) f => f.name == m.name) Member.describeField :=
  ⟨fun _ _ _ => rfl, fun _ _ _ => rfl⟩

/-! ## Section 4: All members -/

/-- The members update the fields and the methods, each for itself, and nothing else. -/
theorem foldl_annotate (outer : List String) (ms : List Member) (c : CompiledClass) :
    ms.foldl (Member.annotate outer) c =
      { c with
        fields := updateEach (fun m f => f.name == m.name) Member.describeField
          (ms.filter fun m => !m.isCallable) c.fields
        methods := updateEach (Member.isSourceOf · outer) Member.describeMethod
          (ms.filter Member.isCallable) c.methods } := by
  induction ms generalizing c with
  | nil => rfl
  | cons m ms ih =>
    rw [List.foldl_cons, ih]
    cases hkind : m.kind with
    | field => simp [Member.annotate, Member.isCallable, hkind, updateEach_cons]
    | method => simp [Member.annotate, Member.isCallable, hkind, updateEach_cons]
    | constructor => simp [Member.annotate, Member.isCallable, hkind, updateEach_cons]

/-- A method is described by the last one of the members that are looked up at it. -/
theorem getElem?_methods_foldl (outer : List String) (ms : List Member) (c : CompiledClass)
    (i : Nat) :
    (ms.foldl (Member.annotate outer) c).methods[i]? =
      c.methods[i]?.map ((ms.filter (Member.takes outer c.methods i)).getLast?.elim id
        Member.describeMethod) := by
  have hlast : lastAt (Member.isSourceOf · outer) c.methods i (ms.filter Member.isCallable) =
      (ms.filter (Member.takes outer c.methods i)).getLast? := by
    unfold lastAt
    rw [List.filter_filter]
    congr 2
    funext m
    exact Bool.and_comm _ _
  rw [foldl_annotate, ← hlast]
  exact (isOverwriting_describeMethod outer).getElem?_updateEach

namespace TypeUnit

/-- The methods and the constructors of a type. -/
def callables (t : TypeUnit) : List Member := t.members.filter Member.isCallable

theorem filter_callables (t : TypeUnit) (methods : List CompiledMethod) (i : Nat) :
    t.callables.filter (Member.takes t.typeVariables methods i) =
      t.members.filter (Member.takes t.typeVariables methods i) := by
  unfold callables
  rw [List.filter_filter]
  refine List.filter_congr fun m _ => ?_
  unfold Member.takes
  cases m.isCallable <;> simp

end TypeUnit

/-- One of the methods before the one with the given index has the compiled form of a member. -/
def Member.CompilesBefore (outer : List String) (methods : List CompiledMethod) (i : Nat)
    (m : Member) : Prop :=
  ∃ compiled ∈ methods.take i, m.CompilesTo outer compiled

/-- A member is looked up at the first method that has its compiled form. -/
theorem Member.takes_iff {methods : List CompiledMethod} {compiled : CompiledMethod}
    (herased : ∀ other ∈ methods, other.IsErased) (hcompiled : methods[i]? = some compiled) :
    m.takes outer methods i = true ↔
      m.isCallable = true ∧ m.CompilesTo outer compiled ∧ ¬ m.CompilesBefore outer methods i := by
  obtain ⟨hi, rfl⟩ := List.getElem?_eq_some_iff.1 hcompiled
  unfold takes
  rw [Bool.and_eq_true, beq_iff_eq, List.findIdx_eq hi,
    isSourceOf_iff (herased _ (List.getElem_mem hi))]
  refine and_congr_right fun _ => and_congr_right fun _ => ⟨fun hnone => ?_, fun hnone j hj => ?_⟩
  · rintro ⟨other, hother, hcompiles⟩
    obtain ⟨j, hj, rfl⟩ := List.mem_take_iff_getElem.1 hother
    have hlook := (isSourceOf_iff (herased _ (List.getElem_mem _))).2 hcompiles
    rw [hnone j (by omega)] at hlook
    cases hlook
  · rw [Bool.eq_false_iff]
    intro hlook
    refine hnone ⟨methods[j], List.mem_take_iff_getElem.2 ⟨j, by omega, rfl⟩, ?_⟩
    exact (isSourceOf_iff (herased _ (List.getElem_mem _))).1 hlook

theorem isErased_of_forall₂ {ms : List Member} {methods : List CompiledMethod}
    (h : List.Forall₂ (Member.CompilesTo outer) ms methods) :
    ∀ compiled ∈ methods, compiled.IsErased := by
  induction h with
  | nil => exact nofun
  | cons hcompiles _ ih =>
    obtain ⟨-, es, result, hdescriptor, -⟩ := hcompiles
    rintro compiled (_ | ⟨_, hmem⟩)
    · exact ⟨es, result, hdescriptor⟩
    · exact ih compiled hmem

/-- Let the methods of a class be the compiled forms of the members of its source, in their order.
    A method carries the documentation and the parameter names of its own member if no method
    before it has the compiled form of that member, and if every later member that the method could
    be made from is looked up at some method before it as well. -/
theorem TypeUnit.methods_annotate_own {t : TypeUnit}
    (hclass : List.Forall₂ (Member.CompilesTo t.typeVariables) t.callables c.methods)
    {compiled : CompiledMethod} (hm : t.callables[i]? = some m)
    (hcompiled : c.methods[i]? = some compiled)
    (hbefore : ¬ m.CompilesBefore t.typeVariables c.methods i)
    (hafter : ∀ other ∈ t.callables.drop (i + 1), other.CompilesTo t.typeVariables compiled →
      other.CompilesBefore t.typeVariables c.methods i) :
    (t.annotate c).methods[i]? = some (m.describeMethod compiled) := by
  have herased := isErased_of_forall₂ hclass
  have hown : m.CompilesTo t.typeVariables compiled := by
    obtain ⟨hi, rfl⟩ := List.getElem?_eq_some_iff.1 hm
    obtain ⟨hi', rfl⟩ := List.getElem?_eq_some_iff.1 hcompiled
    exact hclass.get hi hi'
  have hcallable : m.isCallable = true :=
    (List.mem_filter.1 (List.mem_of_getElem? hm)).2
  have htakes : m.takes t.typeVariables c.methods i = true :=
    (Member.takes_iff herased hcompiled).2 ⟨hcallable, hown, hbefore⟩
  -- No later member is looked up at this method, so the own one is the last.
  have hlast : (t.callables.filter (Member.takes t.typeVariables c.methods i)).getLast? =
      some m := by
    refine getLast?_filter_eq hm htakes fun other hother => ?_
    rw [Bool.eq_false_iff]
    intro hother'
    obtain ⟨-, hcompiles, hfirst⟩ := (Member.takes_iff herased hcompiled).1 hother'
    exact hfirst (hafter other hother hcompiles)
  unfold annotate
  rw [getElem?_methods_foldl]
  show c.methods[i]?.map _ = _
  rw [← t.filter_callables, hlast, hcompiled]
  rfl

/-! ## Section 5: Overloads -/

/-- A type with the given members. -/
def unitOf (members : List Member) : TypeUnit := ⟨"A", "", [], members, []⟩

/-- A class with the given methods. -/
def classOf (methods : List CompiledMethod) : CompiledClass :=
  { (default : CompiledClass) with methods := methods }

/-- The member `void f(String s)`. -/
def textMember : Member := ⟨.method, "f", "text", [], [⟨"s", ⟨"String", 0⟩⟩]⟩

/-- The member `<T> void f(T t)`. -/
def anyMember : Member := ⟨.method, "f", "anything", ["T"], [⟨"t", ⟨"T", 0⟩⟩]⟩

/-- A method `f` with one parameter of a class. -/
def overload (name : String) (legal : Signature.IsClassName name) : CompiledMethod :=
  { (default : CompiledMethod) with
    name := "f"
    descriptor := ErasedType.methodDescriptor [⟨.classType name legal, 0⟩] ⟨.primitive .void, 0⟩ }

def textMethod : CompiledMethod := overload "java/lang/String" (by simp [Signature.IsName])

def anyMethod : CompiledMethod := overload "java/lang/Object" (by simp [Signature.IsName])

theorem textMember_compilesTo : textMember.CompilesTo [] textMethod :=
  ⟨rfl, _, _, rfl, .cons ⟨rfl, .inr (by decide)⟩ .nil⟩

/-- The variable can be any class. -/
theorem anyMember_compilesTo (name : String) (legal : Signature.IsClassName name) :
    anyMember.CompilesTo [] (overload name legal) :=
  ⟨rfl, _, _, rfl, .cons ⟨rfl, .inl (by decide)⟩ .nil⟩

theorem not_textMember_compilesTo : ¬ textMember.CompilesTo [] anyMethod := by
  rw [← Member.isSourceOf_iff ⟨_, _, rfl⟩]
  decide +kernel

/-- With the method for all classes before the one for texts, both have their own documentation. -/
theorem methods_annotate_own_overloads :
    let t := unitOf [anyMember, textMember]
    let c := classOf [anyMethod, textMethod]
    (t.annotate c).methods[0]? = some (anyMember.describeMethod anyMethod) ∧
      (t.annotate c).methods[1]? = some (textMember.describeMethod textMethod) := by
  intro t c
  have hclass : List.Forall₂ (Member.CompilesTo t.typeVariables) t.callables c.methods :=
    .cons (anyMember_compilesTo _ _) (.cons textMember_compilesTo .nil)
  refine ⟨TypeUnit.methods_annotate_own hclass rfl rfl ?_ ?_,
    TypeUnit.methods_annotate_own hclass rfl rfl ?_ ?_⟩
  · rintro ⟨compiled, hmem, -⟩
    cases hmem
  · intro other hother hcompiles
    obtain rfl : other = textMember := List.mem_singleton.1 hother
    exact absurd hcompiles not_textMember_compilesTo
  · rintro ⟨compiled, hmem, hcompiles⟩
    obtain rfl : compiled = anyMethod := List.mem_singleton.1 hmem
    exact not_textMember_compilesTo hcompiles
  · exact nofun

/-- With the method for texts before the one for all classes, the documentation of the second member
    is on the method of the first one, and the method of the second one has none. -/
theorem methods_annotate_swapped :
    let t := unitOf [textMember, anyMember]
    let c := classOf [textMethod, anyMethod]
    List.Forall₂ (Member.CompilesTo t.typeVariables) t.callables c.methods ∧
      (c.methods.map fun compiled => (compiled.name,
        (MethodSignature.parse compiled.descriptor).toOption.map fun s => s.parameters)).Nodup ∧
      (t.callables.map fun m => (m.docs, m.parameters.map Parameter.name)) =
        [("text", ["s"]), ("anything", ["t"])] ∧
      ((t.annotate c).methods.map fun compiled => (compiled.docs, compiled.parameterNames)) =
        [("anything", ["t"]), ("", [])] := by
  exact ⟨.cons textMember_compilesTo (.cons (anyMember_compilesTo _ _) .nil),
    by decide +kernel, by decide +kernel, by decide +kernel⟩

end Source

end TypeCatalog
