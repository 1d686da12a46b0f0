import TypeCatalog.Proofs.Signature.Declaration
import TypeCatalog.Proofs.Signature.Refusal

/-! # Type variables without a bound

    In the grammar of declarations a type variable is

        variable  ::=  name ':' type? (':' type)*

    so it may have no bound at all. The reader asks for one: unless a second colon follows the first
    at once, it takes what stands there for the class. So a list is read back exactly if each of its
    variables has a bound. In every other list the reader goes on, after the first variable without
    one, with what is not its bound: the next name or the closing bracket. -/

set_option autoImplicit false

namespace TypeCatalog

open Signature

/-! ## Section 1: Variables that a declaration can write -/

/-- A type variable of the grammar: any number of bounds, of which only the first may be a class. -/
structure TypeVariable.Declarable (v : TypeVariable) : Prop where
  name : IsDeclaredName v.name
  types : ∀ b ∈ v.bounds, IsTypeText b.signature
  interfaces : ∀ b ∈ v.bounds.tail, b.kind = .interfaceBound

theorem TypeVariable.Declarable.wellFormed_iff {v : TypeVariable} (h : v.Declarable) :
    v.WellFormed ↔ v.bounds ≠ [] := by
  constructor
  · intro hv
    exact hv.bounds.bounded
  · intro hne
    exact ⟨h.name, hne, h.types, h.interfaces⟩

/-! ## Section 2: Where the reader stops

    What is wrong with the text after a variable without a bound, taken for a type, is what is wrong
    with the list. The readers around the one of types hand its fault on. -/

namespace Signature

variable {v : TypeVariable} {front : List TypeVariable} {rest : List Char} {h : Halt}

theorem bounds_eq_error (hcolon : rest.head? ≠ some ':') (hrest : (type rest).outcome = .error h) :
    (bounds rest).outcome = .error h := by
  rw [outcome_bounds_class hcolon, outcome_typeText, hrest]
  rfl

theorem declaredVariable_eq_error (hname : IsDeclaredName v.name) (hnone : v.bounds = [])
    (hcolon : rest.head? ≠ some ':') (hrest : (type rest).outcome = .error h) :
    declaredVariable (v.text.toList ++ rest) = .error h := by
  have htext : v.text.toList ++ rest = v.name.toList ++ ':' :: rest := by
    rw [TypeVariable.toList_text, hnone, List.flatMap_nil, List.append_assoc,
      List.singleton_append]
  unfold declaredVariable
  rw [htext, outcome_name endsAt_declared hname (by simp)]
  simp only [Except.bind, outcome_expect, bounds_eq_error hcolon hrest]
  rfl

theorem typeVariables_eq_error (hfront : ∀ w ∈ front, w.WellFormed)
    (hname : IsDeclaredName v.name) (hnone : v.bounds = []) (hcolon : rest.head? ≠ some ':')
    (hrest : (type rest).outcome = .error h) :
    (typeVariables (front.flatMap (fun w => w.text.toList) ++ (v.text.toList ++ rest))).outcome =
      .error h := by
  obtain ⟨c, r, htext, hclose, hstart⟩ := hname.toList_text_eq_cons
  have hitem := declaredVariable_eq_error hname hnone hcolon hrest
  have hstops : (v.text.toList ++ rest).head? ≠ some ':' := by
    rw [htext]
    simpa using hstart
  -- The variables in front are read, and the one without a bound is the next item.
  have hread := readsUntil_typeVariables.append itemTexts_declaredVariable hfront hstops
  rw [htext, List.cons_append] at hread hitem ⊢
  rw [readsUntil_typeVariables.more c _ hclose, hitem] at hread
  exact hread

end Signature

/-- The first variable without a bound makes a list unreadable if what follows it is no type. -/
theorem TypeVariable.parseList_eq_error {front others : List TypeVariable} {v : TypeVariable}
    {h : Halt} {text : String} (hfront : ∀ w ∈ front, w.WellFormed) (hv : IsDeclaredName v.name)
    (hnone : v.bounds = []) (hothers : ∀ w ∈ others, IsDeclaredName w.name)
    (hrest : (type (others.flatMap (fun w => w.text.toList) ++ ['>'])).outcome = .error h)
    (htext : "<" ++ String.join ((front ++ v :: others).map TypeVariable.text) ++ ">" = text) :
    TypeVariable.parseList text = .error (h.inText text) := by
  have hcolon : (others.flatMap (fun w => w.text.toList) ++ ['>']).head? ≠ some ':' := by
    cases others with
    | nil => simp
    | cons w others =>
      obtain ⟨c, r, hw, -, hstart⟩ := (hothers w List.mem_cons_self).toList_text_eq_cons
      rw [List.flatMap_cons, hw]
      simpa using hstart
  have hchars : text.toList = '<' :: (front.flatMap (fun w => w.text.toList) ++
      (v.text.toList ++ (others.flatMap (fun w => w.text.toList) ++ ['>']))) := by
    rw [← htext]
    simp [List.flatMap_map]
  unfold TypeVariable.parseList Signature.run
  rw [hchars, wholeVariableList_eq, outcome_variableList, outcome_expect]
  simp only [Except.bind, typeVariables_eq_error hfront hv hnone hcolon hrest]
  rfl

/-- A list whose last variable is the only one without a bound is refused at its closing bracket,
    which is not a type. -/
theorem TypeVariable.parseList_eq_error_last {front : List TypeVariable} {v : TypeVariable}
    {text : String} (hfront : ∀ w ∈ front, w.WellFormed) (hv : IsDeclaredName v.name)
    (hnone : v.bounds = [])
    (htext : "<" ++ String.join ((front ++ [v]).map TypeVariable.text) ++ ">" = text) :
    TypeVariable.parseList text = .error ⟨text, text.utf8ByteSize - 1, .notAType '>'⟩ := by
  have hbracket : (type ([].flatMap (fun w : TypeVariable => w.text.toList) ++ ['>'])).outcome =
      .error ⟨.notAType '>', ['>']⟩ :=
    outcome_type_letter [] (by decide) (by decide) (by decide)
  rw [TypeVariable.parseList_eq_error hfront hv hnone (by simp) hbracket htext]
  have hsize : Text.Utf8.size text.toList = text.utf8ByteSize := by
    rw [size_eq_utf8ByteSize, String.ofList_toList]
  simp only [Halt.inText, hsize]
  rfl

/-! ## Section 3: Lists of declarable variables -/

/-- A list of type variables in the grammar is read from its text exactly if each of them has a
    bound. If the last one is the first without, the list is refused at its closing bracket, which
    is not a type. -/
theorem TypeVariable.parseList_iff_bounded {vs : List TypeVariable} {text : String} (hne : vs ≠ [])
    (hvs : ∀ v ∈ vs, v.Declarable)
    (htext : "<" ++ String.join (vs.map TypeVariable.text) ++ ">" = text) :
    (TypeVariable.parseList text = .ok vs ↔ ∀ v ∈ vs, v.bounds ≠ []) ∧
    ∀ front v, vs = front ++ [v] → (∀ w ∈ front, w.bounds ≠ []) → v.bounds = [] →
      TypeVariable.parseList text = .error ⟨text, text.utf8ByteSize - 1, .notAType '>'⟩ := by
  refine ⟨?_, ?_⟩
  · rw [TypeVariable.parseList_eq_ok_iff]
    constructor
    · rintro ⟨-, hwf, -⟩ v hv
      exact (hvs v hv).wellFormed_iff.1 (hwf v hv)
    · intro hbounded
      exact ⟨hne, fun v hv => (hvs v hv).wellFormed_iff.2 (hbounded v hv), htext⟩
  · rintro front v rfl hfront hnone
    have hwf : ∀ w ∈ front, w.WellFormed := fun w hw =>
      (hvs w (List.mem_append_left _ hw)).wellFormed_iff.2 (hfront w hw)
    have hname := (hvs v (List.mem_append_right _ (List.mem_singleton_self v))).name
    exact TypeVariable.parseList_eq_error_last hwf hname hnone htext

/-- Two variables with bounds, of which the second has interfaces only, and two of which the second
    has none. -/
theorem TypeVariable.parseList_iff_bounded_interfaces :
    TypeVariable.parseList "<K:LNumber;V::LList<TK;>;:LSet;>" =
      .ok [⟨"K", [⟨.classBound, "LNumber;"⟩]⟩,
        ⟨"V", [⟨.interfaceBound, "LList<TK;>;"⟩, ⟨.interfaceBound, "LSet;"⟩]⟩] ∧
    TypeVariable.parseList "<K:LNumber;V:>" = .error ⟨"<K:LNumber;V:>", 13, .notAType '>'⟩ := by
  have hnumber : IsTypeText "LNumber;" := ⟨_, parse_eq_ok_iff_wholeType.2 (by cbv)⟩
  have hlist : IsTypeText "LList<TK;>;" := ⟨_, parse_eq_ok_iff_wholeType.2 (by cbv)⟩
  have hset : IsTypeText "LSet;" := ⟨_, parse_eq_ok_iff_wholeType.2 (by cbv)⟩
  let k : TypeVariable := ⟨"K", [⟨.classBound, "LNumber;"⟩]⟩
  let v : TypeVariable :=
    ⟨"V", [⟨.interfaceBound, "LList<TK;>;"⟩, ⟨.interfaceBound, "LSet;"⟩]⟩
  let w : TypeVariable := ⟨"V", []⟩
  have hk : k.Declarable := ⟨by decide, by simpa [k] using hnumber, by decide⟩
  have hv : v.Declarable := ⟨by decide, by simpa [v] using ⟨hlist, hset⟩, by decide⟩
  have hw : w.Declarable := ⟨by decide, by simp [w], by decide⟩
  have hkv : ∀ u ∈ [k, v], u.Declarable := by simp [hk, hv]
  have hkw : ∀ u ∈ [k, w], u.Declarable := by simp [hk, hw]
  constructor
  · exact (TypeVariable.parseList_iff_bounded (by simp) hkv (by decide)).1.2 (by decide)
  · exact (TypeVariable.parseList_iff_bounded (by simp) hkw (by decide)).2 [k] w rfl (by decide) rfl

/-- A lone variable without a bound is in the grammar, and its list is refused. -/
theorem TypeVariable.parseList_unbounded :
    (TypeVariable.mk "T" []).Declarable ∧
    "<" ++ String.join ([TypeVariable.mk "T" []].map TypeVariable.text) ++ ">" = "<T:>" ∧
    TypeVariable.parseList "<T:>" = .error ⟨"<T:>", 3, .notAType '>'⟩ := by
  have hname : IsDeclaredName "T" := by decide
  have htext : "<" ++ String.join (([] ++ [TypeVariable.mk "T" []]).map TypeVariable.text) ++ ">" =
      "<T:>" := by decide
  have hrefused := TypeVariable.parseList_eq_error_last (by simp) hname rfl htext
  exact ⟨⟨hname, by simp, by simp⟩, htext, hrefused⟩

end TypeCatalog
