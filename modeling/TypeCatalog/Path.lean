import TypeCatalog.Text.Segment

/-! # Paths

    Paths with `/` between their components. Empty components and `.` name the directory they stand
    in.
-/

set_option autoImplicit false

namespace TypeCatalog.Path

/-- One path after another. An absolute path stands alone; an empty one adds a separator. -/
def join (base part : String) : String :=
  if part.startsWith "/" then part
  else if base = "" || base.endsWith "/" then base ++ part
  else base ++ "/" ++ part

/-- The components of a path that name something else than the directory they stand in. -/
def components (path : String) : List (List Char) :=
  (Text.segments '/' path.toList).filter fun s => !s.isEmpty && s != ['.']

/-- The steps that a path is walked by: all of its components that are not empty. -/
def steps (path : String) : List (List Char) :=
  (Text.segments '/' path.toList).filter fun s => !s.isEmpty

/-- What follows the last dot of a file name, unless that dot is the first character or missing. -/
def nameExtension? (name : List Char) : Option String :=
  match Text.beforeLast '.' name with
  | [] => none
  | _ => some (String.ofList (Text.afterLast '.' name))

/-- The extension of the file that a path names. -/
def extension? (path : String) : Option String := do
  let last ← (components path).getLast?
  if last = ['.', '.'] then none else nameExtension? last

/-- The path without separators at its end. -/
def trimSeparators (path : String) : String :=
  String.ofList (path.toList.reverse.dropWhile (· == '/')).reverse

theorem trimSeparators_append {path separators : String} (hpath : path.toList.getLast? ≠ some '/')
    (h : ∀ c ∈ separators.toList, c = '/') : trimSeparators (path ++ separators) = path := by
  have hseparators : ∀ c ∈ separators.toList.reverse, (c == '/') = true :=
    fun c hc => beq_iff_eq.2 (h c (List.mem_reverse.1 hc))
  have hstop : path.toList.reverse.dropWhile (· == '/') = path.toList.reverse := by
    cases hlast : path.toList.reverse with
    | nil => rfl
    | cons c rest =>
      rw [← List.head?_reverse, hlast] at hpath
      exact List.dropWhile_cons_of_neg fun heq => hpath (congrArg some (beq_iff_eq.1 heq))
  rw [trimSeparators, String.toList_append, List.reverse_append,
    List.dropWhile_append_of_pos hseparators, hstop, List.reverse_reverse, String.ofList_toList]

/-- A path is the one without separators at its end, and these. -/
theorem exists_trimSeparators_append (path : String) :
    (trimSeparators path).toList.getLast? ≠ some '/' ∧
      ∃ separators, path = trimSeparators path ++ separators ∧
        ∀ c ∈ separators.toList, c = '/' := by
  have hsplit := congrArg List.reverse
    (List.takeWhile_append_dropWhile (p := (· == '/')) (l := path.toList.reverse))
  rw [List.reverse_append, List.reverse_reverse] at hsplit
  refine ⟨?_, String.ofList (path.toList.reverse.takeWhile (· == '/')).reverse, ?_, ?_⟩
  · rw [trimSeparators, String.toList_ofList, List.getLast?_reverse]
    intro hlast
    obtain ⟨rest, hrest⟩ := List.head?_eq_some_iff.1 hlast
    have := Text.of_dropWhile_eq_cons hrest
    simp at this
  · rw [trimSeparators, ← String.ofList_append, hsplit, String.ofList_toList]
  · intro c hc
    rw [String.toList_ofList, List.mem_reverse] at hc
    have := Text.of_mem_takeWhile hc
    simpa using this

/-- Whether a path ends like that, where the case of ASCII letters does not matter. -/
def hasSuffix (suffix path : String) : Bool := path.toLower.endsWith suffix

end TypeCatalog.Path
