import TypeCatalog.Catalog.Basic

/-! # Catalogs that loading can reach

    A catalog starts empty and grows by insertion only, so each class type in it stands under its
    own short signature. The key of a class with arguments contains an angle bracket, which no name
    in a signature does: what a name in a signature finds is a class as declared. -/

set_option autoImplicit false

namespace TypeCatalog

/-- What the insertions make out of the empty catalog. -/
inductive Catalog.Reachable : Catalog → Prop
  | empty : Reachable Catalog.empty
  | insert {c : Catalog} (t : ClassType) : Reachable c → Reachable (c.insert t)
  | insertDeclaration {c : Catalog} (d : ClassDeclaration) :
      Reachable c → Reachable (c.insertDeclaration d)
  | extend {c : Catalog} (classes : List CompiledClass) :
      Reachable c → Reachable (c.extend classes).1

/-- Each class type stands under its own short signature. -/
def Catalog.Keyed (c : Catalog) : Prop :=
  ∀ key t, c.get? key = some t → t.shortSignature = key

/-! ## Section 1: Insertion keeps the keys right -/

theorem Catalog.keyed_empty : Catalog.empty.Keyed := by
  intro key t h
  rw [Catalog.get?_empty] at h
  cases h

theorem Catalog.Keyed.insert {c : Catalog} (hc : c.Keyed) (t : ClassType) : (c.insert t).Keyed := by
  intro key found h
  rw [Catalog.get?_insert] at h
  by_cases hkey : t.shortSignature = key
  · rw [if_pos hkey] at h
    rw [← Option.some.inj h, hkey]
  · rw [if_neg hkey] at h
    exact hc key found h

theorem Catalog.Keyed.addCompiled {added : Catalog × Nat} (h : added.1.Keyed)
    (compiled : CompiledClass) : (Catalog.addCompiled added compiled).1.Keyed := by
  unfold Catalog.addCompiled
  -- A class that cannot be read leaves the catalog as it is.
  split
  · next d _ => exact h.insert (.raw d)
  · exact h

theorem Catalog.Keyed.foldl_addCompiled {added : Catalog × Nat} (h : added.1.Keyed)
    (classes : List CompiledClass) : (classes.foldl Catalog.addCompiled added).1.Keyed := by
  induction classes generalizing added with
  | nil => exact h
  | cons compiled classes ih => exact ih (h.addCompiled compiled)

theorem Catalog.Reachable.keyed {c : Catalog} (h : c.Reachable) : c.Keyed := by
  induction h with
  | empty => exact Catalog.keyed_empty
  | insert t _ ih => exact ih.insert t
  | insertDeclaration d _ ih => exact ih.insert (.raw d)
  | extend classes _ ih => exact ih.foldl_addCompiled classes

/-- A declared class is found under its name, and nothing else changes. -/
theorem Catalog.get?_insertDeclaration (c : Catalog) (d : ClassDeclaration) (key : String) :
    (c.insertDeclaration d).get? key =
      if d.name.short = key then some (.raw d) else c.get? key := by
  have hshort : (ClassType.raw d).shortSignature = d.name.short := by
    rw [← String.toList_inj]
    simp [ClassType.shortSignature, ClassType.raw, ResolvedType.signatures, bracketed]
  unfold Catalog.insertDeclaration
  rw [Catalog.get?_insert, hshort]

/-! ## Section 2: Names find classes as declared -/

/-- The short signature of a class with arguments is not a name. -/
theorem ClassType.mem_shortSignature {t : ClassType} (h : t.arguments ≠ []) :
    '<' ∈ t.shortSignature.toList := by
  have hparts : (ResolvedType.signatures t.arguments).isEmpty = false := by
    cases hargs : t.arguments with
    | nil => exact absurd hargs h
    | cons a rest => rfl
  rw [ClassType.shortSignature, bracketed, hparts]
  simp

/-- A name without an angle bracket finds a class as declared. -/
theorem Catalog.Keyed.eq_raw {c : Catalog} (hc : c.Keyed) {name : String} {t : ClassType}
    (hget : c.get? name = some t) (hname : '<' ∉ name.toList) : t = .raw t.declaration := by
  have harguments : t.arguments = [] := by
    by_cases h : t.arguments = []
    · exact h
    · have hmem := ClassType.mem_shortSignature h
      rw [hc name t hget] at hmem
      exact absurd hmem hname
  obtain ⟨d, arguments⟩ := t
  rw [ClassType.raw]
  exact congrArg (ClassType.mk d) harguments

/-- The root class is a class as declared or a name. -/
theorem Catalog.Keyed.objectType_cases {c : Catalog} (hc : c.Keyed) :
    (∃ d, c.objectType = (ClassType.raw d).toType) ∨ c.objectType = .unknownClass ⟨objectName⟩ := by
  unfold Catalog.objectType
  split
  · next t hget =>
    have hraw := hc.eq_raw hget (by decide)
    exact .inl ⟨t.declaration, congrArg ClassType.toType hraw⟩
  · exact .inr rfl

end TypeCatalog
