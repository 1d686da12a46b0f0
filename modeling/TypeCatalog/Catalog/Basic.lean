import Std.Data.TreeMap
import TypeCatalog.ResolvedType

/-! # The catalog

    All classes that have been loaded, each under its short signature. A class that is put in again
    takes the place of the one before. Classes whose signatures cannot be read are left out without
    disturbing the others.
-/

set_option autoImplicit false

namespace TypeCatalog

/-- Class types by short signature. -/
structure Catalog where
  /-- The entries in the order of their keys. -/
  entries : Std.TreeMap String ClassType

namespace Catalog

/-! ## Section 1: Contents -/

/-- A catalog without classes. -/
def empty : Catalog := ⟨∅⟩

instance : Inhabited Catalog := ⟨empty⟩

/-- The class type of a short signature. -/
def get? (c : Catalog) (key : String) : Option ClassType := c.entries[key]?

/-- Whether there is a class type of a short signature. -/
def contains (c : Catalog) (key : String) : Bool := (c.get? key).isSome

/-- The number of class types. -/
def size (c : Catalog) : Nat := c.entries.size

/-- The short signatures in order. -/
def names (c : Catalog) : List String := c.entries.keys

/-- The packages of the class types, in order and each once. -/
def packages (c : Catalog) : List String :=
  let found := c.entries.values.foldl (fun (known : Std.TreeMap String Unit) t =>
    known.insert t.declaration.name.package ()) ∅
  found.keys

/-! ## Section 2: Insertion -/

/-- The catalog with a class type put under its short signature. -/
def insert (c : Catalog) (t : ClassType) : Catalog := ⟨c.entries.insert t.shortSignature t⟩

/-- The catalog with a declared class put in. -/
def insertDeclaration (c : Catalog) (d : ClassDeclaration) : Catalog := c.insert (.raw d)

/-- The catalog with a compiled class put in, unless it cannot be read; and how many were put in. -/
def addCompiled (added : Catalog × Nat) (compiled : CompiledClass) : Catalog × Nat :=
  match ClassDeclaration.ofCompiled compiled with
  | .ok d => (added.1.insertDeclaration d, added.2 + 1)
  | .error _ => added

/-- The catalog with compiled classes put in one after the other, and the number of those that could
    be read. -/
def extend (c : Catalog) (classes : List CompiledClass) : Catalog × Nat :=
  classes.foldl addCompiled (c, 0)

@[simp]
theorem get?_empty (key : String) : empty.get? key = none := by
  simp [get?, empty]

/-- A class type is found under its own short signature, and nothing else changes. -/
theorem get?_insert (c : Catalog) (t : ClassType) (key : String) :
    (c.insert t).get? key = if t.shortSignature = key then some t else c.get? key := by
  unfold get? insert
  rw [Std.TreeMap.getElem?_insert]
  simp [Std.LawfulEqCmp.compare_eq_iff_eq]

/-! ## Section 3: Names as source text writes them -/

/-- The name with `$` in place of its last `/`. -/
def nestLast (name : List Char) : List Char :=
  Text.beforeLast '/' name ++ '$' :: Text.afterLast '/' name

theorem count_nestLast_lt {name : List Char} (h : '/' ∈ name) :
    (nestLast name).count '/' < name.count '/' := by
  have whole := congrArg (List.count '/') (Text.beforeLast_append_afterLast h)
  simp [nestLast] at *
  omega

/-- The class of a name, or else of the name with its last separator read as that of a nested class,
    and so on until no separator is left. -/
def findFrom? (c : Catalog) (name : List Char) : Option ClassType :=
  match c.get? (String.ofList name) with
  | some t => some t
  | none => if '/' ∈ name then c.findFrom? (nestLast name) else none
termination_by name.count '/'
decreasing_by
  apply count_nestLast_lt
  assumption

/-- The class of a name that is written with dots, or of a short signature. Trailing segments are
    tried as nested classes, innermost first. -/
def findByName? (c : Catalog) (name : String) : Option ClassType :=
  c.findFrom? (Text.replace '.' '/' name.toList)

/-- The root class; if it is not in the catalog, its name. -/
def objectType (c : Catalog) : ResolvedType :=
  match c.get? objectName with
  | some t => t.toType
  | none => .unknownClass ⟨objectName⟩

end Catalog

end TypeCatalog
