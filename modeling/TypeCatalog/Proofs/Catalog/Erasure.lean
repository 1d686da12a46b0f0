import TypeCatalog.Proofs.Catalog.Signature

/-! # Erasure

    Erasure is written twice: on signatures, where a type variable becomes the root class, and on
    resolved types, where it becomes the leftmost bound of the variable. The two agree where no
    variable is in scope. In a scope the second one looks at the bound of a variable by itself, so
    it is the erasure of the language as long as no variable is bounded by another one. -/

set_option autoImplicit false

namespace TypeCatalog

open Signature

/-! ## Section 1: Erased signatures -/

namespace TypeSignature

theorem text_primitive (p : Primitive) : (primitive p).text = String.singleton p.letter := by
  rw [text, chars, ← String.toList_inj, String.toList_ofList, String.toList_singleton]

theorem text_array (element : TypeSignature) : (array element).text = "[" ++ element.text := by
  rw [text, text, chars, ← List.singleton_append, String.ofList_append]

theorem text_class (name : String) : (classType name []).text = BinaryName.signature ⟨name⟩ := by
  rw [text, chars, ← String.toList_inj, String.toList_ofList]
  simp [BinaryName.signature]

theorem WellFormed.erasure {t : TypeSignature} (h : t.WellFormed) : t.erasure.WellFormed := by
  fun_induction TypeSignature.erasure t with
  | case1 p => exact trivial
  | case2 name => exact ⟨by decide, trivial⟩
  | case3 element ih => exact ih h
  | case4 name arguments => exact ⟨h.1, trivial⟩

@[simp]
theorem erasure_erasure : ∀ t : TypeSignature, t.erasure.erasure = t.erasure
  | primitive _ => rfl
  | typeVariable _ => rfl
  | array element => congrArg array element.erasure_erasure
  | classType _ _ => rfl

@[simp]
theorem dimensions_erasure : ∀ t : TypeSignature, t.erasure.dimensions = t.dimensions
  | primitive _ => rfl
  | typeVariable _ => rfl
  | array element => congrArg (· + 1) element.dimensions_erasure
  | classType _ _ => rfl

@[simp]
theorem mentionsVariable_erasure : ∀ t : TypeSignature, t.erasure.mentionsVariable = false
  | primitive _ => by rw [erasure, mentionsVariable]
  | typeVariable _ => by
    rw [erasure, object, mentionsVariable, TypeArgument.anyMentionsVariable]
  | array element => by rw [erasure, mentionsVariable, element.mentionsVariable_erasure]
  | classType _ _ => by rw [erasure, mentionsVariable, TypeArgument.anyMentionsVariable]

/-- Below its arrays an erased signature is a primitive type or a class without arguments. -/
theorem arguments_eq_nil_of_erasure {name : String} {as : List TypeArgument} :
    ∀ t : TypeSignature, t.erasure.innermost = classType name as → as = []
  | primitive _, h => nomatch h
  | typeVariable _, h => (classType.inj h).2.symm
  | array element, h => arguments_eq_nil_of_erasure element h
  | classType _ _, h => (classType.inj h).2.symm

theorem erasure_ofDimensions (n : Nat) (t : TypeSignature) :
    (ofDimensions n t).erasure = ofDimensions n t.erasure := by
  induction n with
  | zero => rfl
  | succ n ih => exact congrArg array ih

theorem text_ofDimensions (n : Nat) (t : TypeSignature) :
    (ofDimensions n t).text = String.ofList (List.replicate n '[') ++ t.text := by
  rw [text, chars_ofDimensions, String.ofList_append, text]

end TypeSignature

/-! ## Section 2: Erasure in a scope -/

/-- The leftmost bound of a type variable, if it has one and that is a type. -/
def TypeVariable.leftmostBound? (v : TypeVariable) : Option TypeSignature :=
  match v.bounds with
  | [] => none
  | b :: _ => (TypeSignature.parse b.signature).toOption

namespace Scope

/-- The leftmost bound of the declared type variable that a name means. -/
def leftmostBound? (s : Scope) (name : String) : Option TypeSignature :=
  match s.lookup? name with
  | some (.declared v) => v.leftmostBound?
  | _ => none

/-- The erasure of a type in a scope, where that of a type variable is the erasure of its leftmost
    bound in the scope `b`. With the scope itself for `b` this is the erasure of the language, which
    follows bounds that are variables to their own bounds; with the empty scope a bound is erased by
    itself. -/
inductive Erases (b : Scope) : Scope → TypeSignature → TypeSignature → Prop
  | primitive {s : Scope} (p : Primitive) : Erases b s (.primitive p) (.primitive p)
  | array {s : Scope} {t e : TypeSignature} : Erases b s t e → Erases b s (.array t) (.array e)
  | classType {s : Scope} (name : String) (arguments : List TypeArgument) :
      Erases b s (.classType name arguments) (.classType name [])
  | bounded {s : Scope} {name : String} {bound e : TypeSignature} :
      s.leftmostBound? name = some bound → Erases b b bound e → Erases b s (.typeVariable name) e
  | unbounded {s : Scope} {name : String} :
      s.leftmostBound? name = none → Erases b s (.typeVariable name) .object

variable {b b' s s' : Scope} {t e e' : TypeSignature}

theorem Erases.unique (h : Erases b s t e) (h' : Erases b s t e') : e = e' := by
  induction h generalizing e' with
  | primitive p =>
    cases h'
    rfl
  | array _ ih =>
    cases h' with
    | array h' => exact congrArg TypeSignature.array (ih h')
  | classType name arguments =>
    cases h'
    rfl
  | bounded hbound _ ih =>
    cases h' with
    | bounded hbound' h' =>
      rw [hbound] at hbound'
      cases hbound'
      exact ih h'
    | unbounded hbound' =>
      rw [hbound] at hbound'
      cases hbound'
  | unbounded hbound =>
    cases h' with
    | bounded hbound' _ =>
      rw [hbound] at hbound'
      cases hbound'
    | unbounded _ => rfl

/-- Without variables in scope this is the erasure of a signature by itself. -/
theorem erases_empty : ∀ t : TypeSignature, Erases b .empty t t.erasure
  | .primitive p => .primitive p
  | .typeVariable _ => .unbounded rfl
  | .array element => .array (erases_empty element)
  | .classType name arguments => .classType name arguments

theorem exists_erases : ∀ t : TypeSignature, ∃ e, Erases .empty s t e
  | .primitive p => ⟨_, .primitive p⟩
  | .typeVariable name => by
    cases hbound : s.leftmostBound? name with
    | none => exact ⟨_, .unbounded hbound⟩
    | some bound => exact ⟨_, .bounded hbound (erases_empty bound)⟩
  | .array element => by
    obtain ⟨e, h⟩ := exists_erases element
    exact ⟨_, .array h⟩
  | .classType name arguments => ⟨_, .classType name arguments⟩

/-- A type that is not made of a variable has one erasure in all scopes. -/
theorem Erases.of_innermost_ne (h : Erases b s t e)
    (ht : ∀ name, t.innermost ≠ .typeVariable name) : Erases b' s' t e := by
  induction h with
  | primitive p => exact .primitive p
  | array _ ih => exact .array (ih ht)
  | classType name arguments => exact .classType name arguments
  | bounded _ _ _ => exact absurd rfl (ht _)
  | unbounded _ => exact absurd rfl (ht _)

/-- A variable with a bound that is not made of a variable has one erasure wherever the bound is
    erased. -/
theorem Erases.of_bound_ne (h : Erases b s t e)
    (ht : ∀ name bound, t.innermost = .typeVariable name → s.leftmostBound? name = some bound →
      ∀ name', bound.innermost ≠ .typeVariable name') : Erases b' s t e := by
  induction h with
  | primitive p => exact .primitive p
  | array _ ih => exact .array (ih ht)
  | classType name arguments => exact .classType name arguments
  | bounded hbound h _ => exact .bounded hbound (h.of_innermost_ne (ht _ _ rfl hbound))
  | unbounded hbound => exact .unbounded hbound

/-- In the scope of a class that is not specialised no variable is bound to a type. -/
theorem lookup?_ne_bound (hs : s.classArguments = []) (name : String) (r : ResolvedType) :
    s.lookup? name ≠ some (.bound r) := by
  unfold lookup?
  rw [hs]
  cases findVariable? s.methodVariables name with
  | some v => simp
  | none => simp

end Scope

/-! ## Section 3: The erasure of a resolved type -/

theorem TypeVariable.erasedSignature_eq (v : TypeVariable) :
    v.erasedSignature =
      (v.leftmostBound?.elim TypeSignature.object TypeSignature.erasure).text := by
  unfold TypeVariable.erasedSignature TypeVariable.leftmostBound?
  cases v.bounds with
  | nil => rfl
  | cons b rest =>
    simp only
    cases TypeSignature.parse b.signature <;> rfl

theorem ResolvedType.erasedSignature_arrayOf (r : ResolvedType) :
    (r.arrayOf 1).erasedSignature = "[" ++ r.erasedSignature := by
  rcases arrayOf_cases r 1 with ⟨base, dims, rfl, heq⟩ | ⟨-, heq⟩
  · rw [heq, ResolvedType.erasedSignature, ResolvedType.erasedSignature, ← String.toList_inj]
    simp [List.replicate_succ]
  · rw [heq, ResolvedType.erasedSignature]
    rfl

variable {c : Catalog} {s : Scope}

/-- What a name finds is erased to that name. -/
theorem Catalog.Keyed.erasedSignature_found (hc : c.Keyed) {name : String} {known : ClassType}
    (hname : IsClassName name) (hget : c.get? name = some known) :
    known.toType.erasedSignature = (TypeSignature.classType name []).text := by
  obtain ⟨d, rfl, rfl⟩ := hc.exists_raw hname hget
  exact (TypeSignature.text_class d.name.short).symm

theorem Catalog.Keyed.erasedSignature_objectType (hc : c.Keyed) :
    c.objectType.erasedSignature = TypeSignature.object.text := by
  unfold Catalog.objectType
  cases hget : c.get? objectName with
  | none => exact (TypeSignature.text_class objectName).symm
  | some known => exact hc.erasedSignature_found (by decide) hget

theorem Catalog.Keyed.erasedSignature_resolveVariable (hc : c.Keyed) (hs : s.classArguments = [])
    (name : String) :
    (c.resolveVariable s name).erasedSignature =
      ((s.leftmostBound? name).elim TypeSignature.object TypeSignature.erasure).text := by
  unfold Catalog.resolveVariable Scope.leftmostBound?
  cases hlookup : s.lookup? name with
  | none => exact hc.erasedSignature_objectType
  | some meaning =>
    cases meaning with
    | declared v => exact v.erasedSignature_eq
    | bound r => exact absurd hlookup (Scope.lookup?_ne_bound hs name r)

/-- What a signature resolves to is erased as the signature is, with bounds by themselves. -/
theorem Catalog.Keyed.erasedSignature_resolveSignature (hc : c.Keyed) (hs : s.classArguments = [])
    {t e : TypeSignature} (ht : t.WellFormed) (h : Scope.Erases .empty s t e) :
    (c.resolveSignature s t).erasedSignature = e.text := by
  induction h with
  | primitive p => exact (TypeSignature.text_primitive p).symm
  | array _ ih =>
    rw [Catalog.resolveSignature, ResolvedType.erasedSignature_arrayOf, ih hs ht,
      TypeSignature.text_array]
  | classType name arguments =>
    rw [Catalog.resolveSignature]
    cases hget : c.get? name with
    | none => exact (TypeSignature.text_class name).symm
    | some known =>
      -- The arguments, if there are any, are not part of the erasure.
      rw [← hc.erasedSignature_found ht.1 hget]
      cases arguments <;> rfl
  | @bounded s name bound e hbound h _ =>
    -- A resolved variable keeps the texts of its bounds, without the scope they stand in.
    obtain rfl : e = bound.erasure := h.unique (Scope.erases_empty bound)
    rw [Catalog.resolveSignature, hc.erasedSignature_resolveVariable hs, hbound]
    rfl
  | unbounded hbound =>
    rw [Catalog.resolveSignature, hc.erasedSignature_resolveVariable hs, hbound]
    rfl

theorem Catalog.Writes.text_erasure_of_isArray {t : TypeSignature} {r : ResolvedType}
    (h : c.Writes t r) (hr : r.isArray = false) : t.erasure.text = r.erasedSignature := by
  cases h with
  | primitive p => exact TypeSignature.text_primitive p
  | array _ _ _ => cases hr
  | declared _ _ => exact TypeSignature.text_class _
  | specialised _ _ _ _ _ => exact TypeSignature.text_class _
  | unknown _ _ => exact TypeSignature.text_class _

/-- The signature that writes a type is erased as the type is. -/
theorem Catalog.Writes.text_erasure {t : TypeSignature} {r : ResolvedType} (h : c.Writes t r) :
    t.erasure.text = r.erasedSignature := by
  by_cases hr : r.isArray
  · cases h with
    | array _ hbase h =>
      rw [TypeSignature.erasure_ofDimensions, TypeSignature.text_ofDimensions,
        h.text_erasure_of_isArray hbase, ResolvedType.erasedSignature]
    | _ => cases hr
  · rw [Bool.not_eq_true] at hr
    exact h.text_erasure_of_isArray hr

/-! ## Section 4: Erasure with variables in scope -/

/-- A signature resolves, with declared variables in scope, to a type whose erased signature is the
    erasure of the signature in which the leftmost bound of a variable is erased by itself. This is
    the erasure of the language unless the signature is made of a variable that is bounded by a
    variable or by an array of one. -/
theorem Catalog.erasedSignature_resolve (hc : c.Reachable) (hs : s.classArguments = [])
    {text : String} {t : TypeSignature} (ht : TypeSignature.parse text = .ok t) :
    (∃ e, Scope.Erases .empty s t e) ∧
    (∀ e, Scope.Erases .empty s t e → (c.resolve s text).erasedSignature = e.text) ∧
    ((∀ name bound, t.innermost = .typeVariable name → s.leftmostBound? name = some bound →
        ∀ name', bound.innermost ≠ .typeVariable name') →
      (∃ e, Scope.Erases s s t e) ∧
      ∀ e, Scope.Erases s s t e → (c.resolve s text).erasedSignature = e.text) := by
  have hwf := (parse_eq_ok_iff.1 ht).wellFormed
  have hown : ∀ e, Scope.Erases .empty s t e → (c.resolve s text).erasedSignature = e.text := by
    intro e h
    rw [Catalog.resolve_eq_resolveSignature ht]
    exact hc.keyed.erasedSignature_resolveSignature hs hwf h
  obtain ⟨e, he⟩ := Scope.exists_erases (s := s) t
  refine ⟨⟨e, he⟩, hown, ?_⟩
  intro hbounds
  refine ⟨⟨e, he.of_bound_ne hbounds⟩, ?_⟩
  intro e' h
  exact hown e' (h.of_bound_ne hbounds)

/-- Arrays of a variable that is bounded by a box of another variable. -/
theorem Catalog.erasedSignature_resolve_box :
    let s : Scope := ⟨[⟨"V", [⟨.interfaceBound, "LBox<TK;>;"⟩]⟩], [⟨"K", []⟩], []⟩
    s.classArguments = [] ∧ TypeSignature.parse "[TV;" = .ok (.array (.typeVariable "V")) ∧
      Scope.Erases s s (.array (.typeVariable "V")) (.array (.classType "Box" [])) ∧
      (Catalog.empty.resolve s "[TV;").erasedSignature = "[LBox;" := by
  intro s
  have hparse : TypeSignature.parse "[TV;" = .ok (.array (.typeVariable "V")) :=
    parse_eq_ok_iff_wholeType.2 (by cbv)
  have hread : TypeSignature.parse "LBox<TK;>;" =
      .ok (.classType "Box" [.exactly (.typeVariable "K")]) :=
    parse_eq_ok_iff_wholeType.2 (by cbv)
  have hbound : s.leftmostBound? "V" = some (.classType "Box" [.exactly (.typeVariable "K")]) := by
    show (TypeSignature.parse "LBox<TK;>;").toOption = _
    rw [hread]
    rfl
  have herases : Scope.Erases s s (.array (.typeVariable "V")) (.array (.classType "Box" [])) :=
    .array (.bounded hbound (.classType "Box" _))
  obtain ⟨-, -, hlanguage⟩ :=
    Catalog.erasedSignature_resolve (c := Catalog.empty) (s := s) .empty rfl hparse
  refine ⟨rfl, hparse, herases, ?_⟩
  refine ((hlanguage ?_).2 _ herases).trans (by decide)
  intro name bound hname hfound name'
  cases hname
  rw [hbound] at hfound
  cases hfound
  exact TypeSignature.noConfusion

/-- A variable that is bounded by a variable has the erasure of that variable's bound, and every
    chain of bounds ends; the type it resolves to is erased to the root class. -/
theorem Catalog.erasedSignature_misses_bound :
    let s : Scope :=
      ⟨[⟨"K", [⟨.classBound, "LNumber;"⟩]⟩, ⟨"V", [⟨.classBound, "TK;"⟩]⟩], [], []⟩
    (∀ name, ∃ e, Scope.Erases s s (.typeVariable name) e) ∧
      TypeSignature.parse "TV;" = .ok (.typeVariable "V") ∧
      Scope.Erases s s (.typeVariable "V") (.classType "Number" []) ∧
      (TypeSignature.classType "Number" []).text = "LNumber;" ∧
      (Catalog.empty.resolve s "TV;").erasedSignature = "Ljava/lang/Object;" := by
  intro s
  have hreadNumber : TypeSignature.parse "LNumber;" = .ok (.classType "Number" []) :=
    parse_eq_ok_iff_wholeType.2 (by cbv)
  have hreadK : TypeSignature.parse "TK;" = .ok (.typeVariable "K") :=
    parse_eq_ok_iff_wholeType.2 (by cbv)
  have hnumber : s.leftmostBound? "K" = some (.classType "Number" []) := by
    show (TypeSignature.parse "LNumber;").toOption = _
    rw [hreadNumber]
    rfl
  have hvariable : s.leftmostBound? "V" = some (.typeVariable "K") := by
    show (TypeSignature.parse "TK;").toOption = _
    rw [hreadK]
    rfl
  have hk : Scope.Erases s s (.typeVariable "K") (.classType "Number" []) :=
    .bounded hnumber (.classType "Number" [])
  have hv : Scope.Erases s s (.typeVariable "V") (.classType "Number" []) :=
    .bounded hvariable hk
  have hread : TypeSignature.parse "TV;" = .ok (.typeVariable "V") :=
    parse_eq_ok_iff_wholeType.2 (by cbv)
  have herased : (Catalog.empty.resolve s "TV;").erasedSignature = TypeSignature.object.text := by
    have hwf := (parse_eq_ok_iff.1 hread).wellFormed
    rw [Catalog.resolve_eq_resolveSignature hread]
    exact Catalog.keyed_empty.erasedSignature_resolveSignature rfl hwf
      (.bounded hvariable (Scope.erases_empty (.typeVariable "K")))
  refine ⟨?_, hread, hv, by decide, herased.trans (by decide)⟩
  intro name
  by_cases hnameK : name = "K"
  · exact ⟨_, hnameK ▸ hk⟩
  by_cases hnameV : name = "V"
  · exact ⟨_, hnameV ▸ hv⟩
  have hnone : s.leftmostBound? name = none := by
    simp [Scope.leftmostBound?, Scope.lookup?, Scope.findVariable?, s, Ne.symm hnameK,
      Ne.symm hnameV]
  exact ⟨_, .unbounded hnone⟩

/-! ## Section 5: Erasure without variables in scope -/

/-- Without variables in scope the two erasures agree. The erasure of a signature is read back as a
    signature of as many dimensions, without variables and without arguments, that is its own
    erasure; and the signature of the resolved type is read and has that erasure as well. -/
theorem Catalog.erasedSignature_resolve_empty (hc : c.Reachable) {text : String}
    {t : TypeSignature} (ht : TypeSignature.parse text = .ok t) :
    (c.resolve .empty text).erasedSignature = t.erasure.text ∧
    (∃ u, TypeSignature.parse t.erasure.text = .ok u ∧ u.dimensions = t.dimensions ∧
      u.mentionsVariable = false ∧
      (∀ name as, u.innermost = .classType name as → as = []) ∧
      u.erasure = u ∧ u.text = t.erasure.text) ∧
    ∃ u, TypeSignature.parse (c.resolve .empty text).signature = .ok u ∧
      u.erasure.text = t.erasure.text := by
  have hwf := (parse_eq_ok_iff.1 ht).wellFormed
  have hresolve : c.resolve .empty text = c.resolveSignature .empty t :=
    Catalog.resolve_eq_resolveSignature ht
  have herased : (c.resolve .empty text).erasedSignature = t.erasure.text := by
    rw [hresolve]
    exact hc.keyed.erasedSignature_resolveSignature rfl hwf (Scope.erases_empty t)
  refine ⟨herased, ?_, ?_⟩
  · refine ⟨t.erasure, hwf.erasure.parse_text_eq, t.dimensions_erasure, t.mentionsVariable_erasure,
      ?_, t.erasure_erasure, rfl⟩
    intro name as h
    exact t.arguments_eq_nil_of_erasure h
  · obtain ⟨u, hu⟩ := hc.keyed.exists_writes t hwf
    rw [← hresolve] at hu
    exact ⟨u, hu.parse_signature, hu.text_erasure.trans herased⟩

/-- An array of an inner class with an unbound variable for its argument. -/
theorem Catalog.erasedSignature_resolve_empty_entry :
    ∃ c : Catalog, c.Reachable ∧
      (c.resolve .empty "[LMap<TK;>.Entry<TK;>;").erasedSignature = "[LMap$Entry;" ∧
      ∃ u, TypeSignature.parse (c.resolve .empty "[LMap<TK;>.Entry<TK;>;").signature = .ok u ∧
        u.erasure.text = "[LMap$Entry;" := by
  let d : ClassDeclaration := ⟨⟨"Map$Entry"⟩, ⟨0⟩, "", [⟨"T", []⟩], [], [], [], []⟩
  have hc : (Catalog.empty.insertDeclaration d).Reachable := .insertDeclaration d .empty
  have hread : TypeSignature.parse "[LMap<TK;>.Entry<TK;>;" =
      .ok (.array (.classType "Map$Entry" [.exactly (.typeVariable "K")])) :=
    parse_eq_ok_iff_wholeType.2 (by cbv)
  obtain ⟨herased, -, hsignature⟩ := Catalog.erasedSignature_resolve_empty hc hread
  exact ⟨_, hc, herased, hsignature⟩

end TypeCatalog
