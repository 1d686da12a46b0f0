import Mathlib.Logic.Relation
import TypeCatalog.Library.Manifest

/-! # All that libraries depend on

    The search for the dependencies of some libraries keeps a list of pending ones and takes them
    from its front. What a library depends on is put in front of the others when it is found, and a
    library may be pending more than once. So the search is the recursive walk that visits each
    library before its dependencies, from left to right, and passes over what it has visited: what
    is put in front is walked through before the rest is looked at. It ends since the dependencies
    of a library are put there once only. -/

set_option autoImplicit false

namespace TypeCatalog.Library

/-! ## Section 1: What a manifest lists -/

section manifest

variable {members : List (String × Json)} {library dependency : String}

/-- The strings in the array that the members of an object have for a library. -/
def listed (members : List (String × Json)) (library : String) : List String :=
  match Json.lookup? library members with
  | some (.array items) => items.filterMap Json.string?
  | _ => []

/-- A library has an array in a manifest, and another one is a string in that array. -/
def Lists (members : List (String × Json)) (library dependency : String) : Prop :=
  ∃ items, Json.lookup? library members = some (.array items) ∧ Json.string dependency ∈ items

/-- A library is one of some libraries, or one of these leads to it from list to list. -/
def Needed (members : List (String × Json)) (libraries : List String) (library : String) : Prop :=
  ∃ root ∈ libraries, Relation.ReflTransGen (Lists members) root library

theorem string?_eq_some_iff {value : Json} {text : String} :
    value.string? = some text ↔ value = .string text := by
  cases value <;> simp [Json.string?]

theorem mem_listed_iff :
    dependency ∈ listed members library ↔ Lists members library dependency := by
  unfold listed Lists
  split
  · next items hitems =>
    simp only [List.mem_filterMap, string?_eq_some_iff, exists_eq_right]
    constructor
    · intro hmem
      exact ⟨items, hitems, hmem⟩
    · rintro ⟨items', hitems', hmem⟩
      rw [hitems, Option.some.injEq, Json.array.injEq] at hitems'
      rwa [hitems']
  · next hother =>
    constructor
    · intro hmem
      cases hmem
    · rintro ⟨items, hitems, -⟩
      exact absurd hitems (hother items)

theorem dependencies_eq_listed {manifest : Manifest}
    (h : Manifest.ofJson? (.object members) = some manifest) (library : String) :
    manifest.dependencies library = listed members library := by
  obtain rfl := Option.some.inj h
  unfold Manifest.dependencies listed Json.lookup?
  -- An entry is found by its name, which it has from its member.
  rw [← List.map_reverse, List.find?_map]
  simp only [Function.comp_def]
  cases members.reverse.find? fun m => m.1 == library with
  | none => rfl
  | some m =>
    obtain ⟨name, value⟩ := m
    cases value <;> rfl

end manifest

/-! ## Section 2: The recursive walk -/

/-- The walk through libraries from left to right, where `next` gives what a library depends on. It
    starts with the visited libraries of the first list and ends with those of the last one. -/
inductive Walk (next : String → List String) : List String → List String → List String → Prop where
  | nil (visited : List String) : Walk next visited [] visited
  /-- A library that is visited is passed over. -/
  | skip {visited rest after : List String} {library : String} (hold : library ∈ visited)
      (hrest : Walk next visited rest after) : Walk next visited (library :: rest) after
  /-- Any other one is visited, then what it depends on, and then the others. -/
  | visit {visited inner rest after : List String} {library : String} (hnew : library ∉ visited)
      (hinner : Walk next (visited ++ [library]) (next library) inner)
      (hrest : Walk next inner rest after) : Walk next visited (library :: rest) after

namespace Walk

variable {next : String → List String} {visited libraries after : List String}

/-- There is one walk at most. -/
theorem unique (h : Walk next visited libraries after) :
    ∀ {other}, Walk next visited libraries other → after = other := by
  induction h with
  | nil =>
    intro other hother
    cases hother
    rfl
  | skip hold _ ih =>
    intro other hother
    rcases hother with _ | ⟨_, hrest⟩ | ⟨hnew, _, _⟩
    · exact ih hrest
    · exact absurd hold hnew
  | visit hnew _ _ ihinner ihrest =>
    intro other hother
    rcases hother with _ | ⟨hold, _⟩ | ⟨_, hinner, hrest⟩
    · exact absurd hold hnew
    · obtain rfl := ihinner hinner
      exact ihrest hrest

/-- A walk through two lists is a walk through the one and then through the other. -/
theorem exists_of_append {front back : List String}
    (h : Walk next visited (front ++ back) after) :
    ∃ between, Walk next visited front between ∧ Walk next between back after := by
  induction front generalizing visited with
  | nil => exact ⟨visited, .nil visited, h⟩
  | cons library front ih =>
    rcases h with _ | ⟨hold, hrest⟩ | ⟨hnew, hinner, hrest⟩
    · obtain ⟨between, hfront, hback⟩ := ih hrest
      exact ⟨between, .skip hold hfront, hback⟩
    · obtain ⟨between, hfront, hback⟩ := ih hrest
      exact ⟨between, .visit hnew hinner hfront, hback⟩

theorem visited_subset (h : Walk next visited libraries after) : visited ⊆ after := by
  induction h with
  | nil => exact List.Subset.refl _
  | skip _ _ ih => exact ih
  | visit _ _ _ ihinner ihrest =>
    intro a ha
    exact ihrest (ihinner (List.mem_append_left _ ha))

theorem libraries_subset (h : Walk next visited libraries after) : libraries ⊆ after := by
  induction h with
  | nil => exact List.nil_subset _
  | skip hold hrest ih => exact List.cons_subset.2 ⟨hrest.visited_subset hold, ih⟩
  | visit _ hinner hrest _ ihrest =>
    have hown := hinner.visited_subset (List.mem_append_right _ List.mem_cons_self)
    exact List.cons_subset.2 ⟨hrest.visited_subset hown, ihrest⟩

theorem nodup (h : Walk next visited libraries after) (hvisited : visited.Nodup) :
    after.Nodup := by
  induction h with
  | nil => exact hvisited
  | skip _ _ ih => exact ih hvisited
  | visit hnew _ _ ihinner ihrest =>
    apply ihrest
    apply ihinner
    apply List.nodup_append.2 ⟨hvisited, List.pairwise_singleton _ _, _⟩
    intro a ha b hb heq
    rw [heq, List.mem_singleton.1 hb] at ha
    exact hnew ha

/-- Whatever is visited was visited before, or some library of the list leads to it. -/
theorem reached (h : Walk next visited libraries after) :
    ∀ a ∈ after, a ∈ visited ∨
      ∃ root ∈ libraries, Relation.ReflTransGen (fun a b => b ∈ next a) root a := by
  induction h with
  | nil =>
    intro a ha
    exact .inl ha
  | skip _ _ ih =>
    intro a ha
    rcases ih a ha with hbefore | ⟨root, hroot, hpath⟩
    · exact .inl hbefore
    · exact .inr ⟨root, List.mem_cons_of_mem _ hroot, hpath⟩
  | @visit _ _ _ _ library _ _ _ ihinner ihrest =>
    intro a ha
    rcases ihrest a ha with hinside | ⟨root, hroot, hpath⟩
    · rcases ihinner a hinside with hbefore | ⟨root, hroot, hpath⟩
      · rcases List.mem_append.1 hbefore with hbefore | hown
        · exact .inl hbefore
        · obtain rfl := List.mem_singleton.1 hown
          exact .inr ⟨a, List.mem_cons_self, .refl⟩
      -- A dependency of the visited library is one step behind it.
      · exact .inr ⟨library, List.mem_cons_self, .head hroot hpath⟩
    · exact .inr ⟨root, List.mem_cons_of_mem _ hroot, hpath⟩

/-- What a library depends on is visited if the library was visited on the walk. -/
theorem next_subset (h : Walk next visited libraries after) :
    ∀ a ∈ after, a ∉ visited → next a ⊆ after := by
  induction h with
  | nil =>
    intro a ha hnew
    exact absurd ha hnew
  | skip _ _ ih => exact ih
  | @visit visited inner _ _ library _ hinner hrest ihinner ihrest =>
    intro a ha hnew
    by_cases hinside : a ∈ inner
    · apply List.Subset.trans _ hrest.visited_subset
      by_cases hown : a ∈ visited ++ [library]
      · obtain rfl := List.mem_singleton.1 ((List.mem_append.1 hown).resolve_left hnew)
        exact hinner.libraries_subset
      · exact ihinner a hinside hown
    · exact ihrest a ha hinside

/-- A walk from the start visits what the libraries lead to, and nothing else. -/
theorem mem_iff (h : Walk next [] libraries after) (a : String) :
    a ∈ after ↔ ∃ root ∈ libraries, Relation.ReflTransGen (fun a b => b ∈ next a) root a := by
  constructor
  · intro ha
    exact (h.reached a ha).resolve_left List.not_mem_nil
  · rintro ⟨root, hroot, hpath⟩
    induction hpath with
    | refl => exact h.libraries_subset hroot
    | tail _ hstep ih => exact h.next_subset _ ih List.not_mem_nil hstep

end Walk

/-! ## Section 3: The search -/

namespace Manifest

variable {manifest : Manifest} {found pending : List String} {library : String}

/-- The search is the walk through the pending libraries. -/
theorem walk_closeFrom (manifest : Manifest) (found pending : List String) :
    Walk manifest.dependencies found.reverse pending (manifest.closeFrom found pending) := by
  fun_induction closeFrom manifest found pending with
  | case1 found => exact .nil _
  | case2 found library rest hold ih => exact .skip (List.mem_reverse.2 hold) ih
  | case3 found library rest hnew ih =>
    rw [List.reverse_cons] at ih
    obtain ⟨between, hinner, hrest⟩ := ih.exists_of_append
    exact .visit (fun hold => hnew (List.mem_reverse.1 hold)) hinner hrest

/-- What the search finds if it ends within a number of turns, in each of which it takes one pending
    library. -/
def closeWithin (manifest : Manifest) (turns : Nat) (found pending : List String) :
    Option (List String) :=
  match pending, turns with
  | [], _ => some found.reverse
  | _ :: _, 0 => none
  | library :: rest, turns + 1 =>
    if library ∈ found then manifest.closeWithin turns found rest
    else manifest.closeWithin turns (library :: found) (manifest.dependencies library ++ rest)

/-- The number of dependencies that can become pending still: those in the entries of libraries that
    are not found. -/
def owed (found : List String) : Manifest → Nat
  | [] => 0
  | (name, names) :: rest => (if name ∈ found then 0 else names.length) + owed found rest

theorem owed_cons_le (found : List String) (library : String) (manifest : Manifest) :
    owed (library :: found) manifest ≤ owed found manifest := by
  induction manifest with
  | nil => exact Nat.le_refl _
  | cons entry rest ih =>
    obtain ⟨name, names⟩ := entry
    apply Nat.add_le_add _ ih
    by_cases hfound : name ∈ found
    · rw [if_pos (List.mem_cons_of_mem _ hfound)]
      exact Nat.zero_le _
    · rw [if_neg hfound]
      split
      · exact Nat.zero_le _
      · exact Nat.le_refl _

theorem length_add_owed_le {names : List String} (hnew : library ∉ found)
    (hmem : (library, names) ∈ manifest) :
    names.length + owed (library :: found) manifest ≤ owed found manifest := by
  induction manifest with
  | nil => cases hmem
  | cons entry rest ih =>
    obtain ⟨name, others⟩ := entry
    rcases List.mem_cons.1 hmem with hown | hrest
    · obtain ⟨rfl, rfl⟩ := Prod.mk.inj hown
      have hle := owed_cons_le found library rest
      simp only [owed, List.mem_cons_self, hnew, if_true, if_false]
      omega
    · have hle := ih hrest
      by_cases hfound : name ∈ found
      · simp only [owed, hfound, List.mem_cons_of_mem, if_true]
        omega
      · simp only [owed, hfound, if_false]
        split <;> omega

theorem dependencies_eq_nil_or_mem (manifest : Manifest) (library : String) :
    manifest.dependencies library = [] ∨
      (library, manifest.dependencies library) ∈ (manifest : List (String × List String)) := by
  unfold dependencies
  split
  · next entry hentry =>
    have hname : entry.1 = library := by simpa using List.find?_some hentry
    have hmem : entry ∈ (manifest : List (String × List String)) := by
      simpa using List.mem_of_find?_eq_some hentry
    right
    rwa [← hname]
  · left
    rfl

/-- Each turn takes a pending library away, and what it adds was owed before. -/
theorem dependencies_add_owed_le (manifest : Manifest) (hnew : library ∉ found) :
    (manifest.dependencies library).length + owed (library :: found) manifest ≤
      owed found manifest := by
  rcases dependencies_eq_nil_or_mem manifest library with hnil | hmem
  · rw [hnil, List.length_nil, Nat.zero_add]
    exact owed_cons_le found library manifest
  · exact length_add_owed_le hnew hmem

theorem closeWithin_eq {turns : Nat} (h : pending.length + owed found manifest ≤ turns) :
    manifest.closeWithin turns found pending = some (manifest.closeFrom found pending) := by
  induction turns generalizing found pending with
  | zero =>
    have hnil : pending = [] := List.eq_nil_of_length_eq_zero (by omega)
    rw [hnil, closeWithin, closeFrom]
  | succ turns ih =>
    cases pending with
    | nil => rw [closeWithin, closeFrom]
    | cons library rest =>
      rw [List.length_cons] at h
      rw [closeWithin, closeFrom]
      by_cases hold : library ∈ found
      · rw [if_pos hold, if_pos hold]
        apply ih
        omega
      · rw [if_neg hold, if_neg hold]
        apply ih
        have hle := dependencies_add_owed_le manifest hold
        rw [List.length_append]
        omega

end Manifest

section closure

variable {members : List (String × Json)} {manifest : Manifest} {libraries : List String}

theorem walk_closure (h : Manifest.ofJson? (.object members) = some manifest)
    (libraries : List String) :
    Walk (listed members) [] libraries (manifest.closure libraries) := by
  have hlisted : manifest.dependencies = listed members := funext (dependencies_eq_listed h)
  rw [← hlisted]
  exact manifest.walk_closeFrom [] libraries

theorem mem_closure_iff (h : Manifest.ofJson? (.object members) = some manifest)
    {library : String} :
    library ∈ manifest.closure libraries ↔ Needed members libraries library := by
  rw [(walk_closure h libraries).mem_iff]
  simp only [mem_listed_iff]
  exact Iff.rfl

/-- What is needed is known from a search that ended. -/
theorem needed_iff_of_closeWithin (h : Manifest.ofJson? (.object members) = some manifest)
    (turns : Nat) (hturns : libraries.length + manifest.owed [] ≤ turns) {found : List String}
    (hfound : manifest.closeWithin turns [] libraries = some found) {library : String} :
    Needed members libraries library ↔ library ∈ found := by
  have hends : manifest.closeWithin turns [] libraries = some (manifest.closure libraries) :=
    Manifest.closeWithin_eq hturns
  rw [← mem_closure_iff h, Option.some.inj (hends.symm.trans hfound)]

end closure

/-- For every manifest and every list of libraries the search ends, after no more turns than there
    are libraries in the list and dependencies in the manifest. What it gives has no duplicates,
    consists of all that the list leads to through the strings of arrays, and is what the recursive
    walk through the list visits, in that order. -/
theorem closure_walk (members : List (String × Json)) (libraries : List String) :
    ∃ manifest, Manifest.ofJson? (.object members) = some manifest ∧
      (∀ turns, libraries.length + manifest.owed [] ≤ turns →
        manifest.closeWithin turns [] libraries = some (manifest.closure libraries)) ∧
      (manifest.closure libraries).Nodup ∧
      (∀ library, library ∈ manifest.closure libraries ↔ Needed members libraries library) ∧
      ∀ visited, Walk (listed members) [] libraries visited ↔
        visited = manifest.closure libraries := by
  obtain ⟨manifest, hmanifest⟩ : ∃ manifest, Manifest.ofJson? (.object members) = some manifest :=
    ⟨_, rfl⟩
  have hwalk := walk_closure hmanifest libraries
  refine ⟨manifest, hmanifest, ?_, hwalk.nodup List.nodup_nil, ?_, ?_⟩
  · intro turns hturns
    exact Manifest.closeWithin_eq hturns
  · intro library
    exact mem_closure_iff hmanifest
  · intro visited
    constructor
    · intro hother
      exact hother.unique hwalk
    · rintro rfl
      exact hwalk

/-- A library may list itself, one that was found, and one more than once. -/
example : Manifest.closeWithin [("a", ["b", "a", "b"]), ("b", ["c", "a"])] 7 [] ["a", "d"] =
    some ["a", "b", "c", "d"] := by
  decide

end TypeCatalog.Library
