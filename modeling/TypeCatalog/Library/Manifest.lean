import TypeCatalog.Json.Basic
import TypeCatalog.Text.Segment

/-! # Manifests of zipped caches

    A zipped cache holds one document for each library, and a manifest that tells for each library
    the ones it depends on. To load some libraries is to load the documents of these and of all that
    they depend on, directly or not.
-/

set_option autoImplicit false

namespace TypeCatalog.Library

/-- The libraries that a library depends on, by its name. -/
abbrev Manifest := List (String × List String)

namespace Manifest

/-- The manifest that a JSON value is. A library with anything but an array depends on nothing, and
    in an array only the strings count. -/
def ofJson? : Json → Option Manifest
  | .object members =>
    some (members.map fun (name, value) =>
      (name, (value.array?.getD []).filterMap Json.string?))
  | _ => none

/-- The libraries that a library depends on directly; of several lists the last counts. -/
def dependencies (manifest : Manifest) (library : String) : List String :=
  match (List.reverse manifest).find? fun entry => entry.1 == library with
  | some entry => entry.2
  | none => []

/-- The number of entries of libraries that are not among the given ones. -/
def remaining (manifest : Manifest) (found : List String) : Nat :=
  List.countP (fun entry => !found.contains entry.1) manifest

theorem remaining_cons_le (manifest : Manifest) (found : List String) (library : String) :
    manifest.remaining (library :: found) ≤ manifest.remaining found := by
  unfold remaining
  refine List.countP_mono_left fun entry _ h => ?_
  simp only [List.contains_cons, Bool.not_or, Bool.and_eq_true] at h
  exact h.2

theorem remaining_cons_lt {manifest : Manifest} {found : List String} {library : String}
    (hnew : library ∉ found) (hkey : manifest.dependencies library ≠ []) :
    manifest.remaining (library :: found) < manifest.remaining found := by
  have hin : ∃ entry ∈ manifest, entry.1 = library := by
    unfold dependencies at hkey
    split at hkey
    · next entry h =>
      exact ⟨entry, by simpa using List.mem_of_find?_eq_some h, by simpa using List.find?_some h⟩
    · exact absurd rfl hkey
  obtain ⟨entry, hentry, rfl⟩ := hin
  obtain ⟨front, back, rfl⟩ := List.append_of_mem hentry
  have hfront := remaining_cons_le front found entry.1
  have hback := remaining_cons_le back found entry.1
  unfold remaining at hfront hback ⊢
  simp only [List.countP_append, List.countP_cons]
  simp [hnew] at hfront hback ⊢
  omega

/-- The libraries found so far, the last one first, with the pending ones and all that these depend
    on. -/
def closeFrom (manifest : Manifest) (found pending : List String) : List String :=
  match pending with
  | [] => found.reverse
  | library :: rest =>
    if library ∈ found then closeFrom manifest found rest
    else closeFrom manifest (library :: found) (manifest.dependencies library ++ rest)
termination_by (manifest.remaining found, pending.length)
decreasing_by
  · exact Prod.Lex.right _ (by simp)
  · next hnew =>
    by_cases hkey : manifest.dependencies library = []
    · rw [hkey]
      rcases Nat.lt_or_eq_of_le (remaining_cons_le manifest found library) with h | h
      · exact Prod.Lex.left _ _ h
      · rw [h]
        exact Prod.Lex.right _ (by simp)
    · exact Prod.Lex.left _ _ (remaining_cons_lt hnew hkey)

/-- Libraries with all that they depend on, in the order of their discovery. -/
def closure (manifest : Manifest) (libraries : List String) : List String :=
  manifest.closeFrom [] libraries

end Manifest

/-- Whether one text occurs in another. -/
def occursIn (part : List Char) (s : List Char) : Bool :=
  part.isPrefixOf s ||
    match s with
    | [] => false
    | _ :: rest => occursIn part rest

/-- Whether an entry of a zipped cache is a document. -/
def isDocument (name : String) : Bool := name.startsWith "cache/" && name.endsWith ".json"

/-- Whether an entry of a zipped cache is a document of one of some libraries. -/
def isDocumentOf (libraries : List String) (name : String) : Bool :=
  isDocument name && libraries.any fun library => occursIn library.toList name.toList

end TypeCatalog.Library
