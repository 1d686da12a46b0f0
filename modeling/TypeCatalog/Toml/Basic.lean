/-! # TOML values

    The values of a settings file. Numbers and moments are told apart from the other kinds of
    values, but which ones they are is not kept, since no setting is one. Tables remember how they
    came about: a table that was written in full cannot be added to.
-/

set_option autoImplicit false

namespace TypeCatalog

/-- How a table came about. -/
inductive TableOrigin where
  /-- It was written between braces. -/
  | braces
  /-- It has a header of its own. -/
  | header
  /-- It stands in the header of another table. -/
  | implied
  /-- It stands in a dotted key. -/
  | dotted
  deriving DecidableEq, Repr

/-- A TOML value. -/
inductive Toml where
  | text (value : String)
  | truth (value : Bool)
  | number
  | moment
  | array (items : List Toml)
  | table (origin : TableOrigin) (members : List (String × Toml))
  /-- Tables with one header, the last one first. -/
  | tables (items : List Toml)
  deriving Inhabited

namespace Toml

/-- The members of a table. -/
abbrev Members := List (String × Toml)

/-- A member by its name. -/
def Members.get? (members : Members) (name : String) : Option Toml := List.lookup name members

/-- The members with another value in the place of one. -/
def Members.set (members : Members) (name : String) (value : Toml) : Members :=
  List.map (fun m => if m.1 = name then (name, value) else m) members

/-- The members with one more at the end. -/
def Members.add (members : Members) (name : String) (value : Toml) : Members :=
  members ++ [(name, value)]

/-! ## Section 1: Adding to tables -/

/-- Add a value under a key that has none. -/
def assignNew (name : String) (value : Toml) (members : Members) : Option Members :=
  match members.get? name with
  | some _ => none
  | none => some (members.add name value)

/-- Add a value under a dotted key, all of whose parts but the last name tables. The value itself is
    only added to a table that dotted keys made. On the way there the key may pass tables that
    headers have implied, and the last of several tables with one header. -/
def assign (first : String) (path : List String) (value : Toml) (members : Members) :
    Option Members :=
  match path with
  | [] => assignNew first value members
  | next :: path =>
    match members.get? first with
    | none => (assign next path value []).map fun inner => members.add first (.table .dotted inner)
    | some (.table .dotted inner) =>
      (assign next path value inner).map fun inner => members.set first (.table .dotted inner)
    | some (.table .implied inner) =>
      if path.isEmpty then none
      else (assign next path value inner).map fun inner => members.set first (.table .implied inner)
    | some (.tables (.table origin inner :: items)) =>
      if path.isEmpty then none
      else (assign next path value inner).map fun inner =>
        members.set first (.tables (.table origin inner :: items))
    | some _ => none

/-- Add a table under the last part of a header. A table that other headers have implied may get its
    own header once. -/
def defineTable (name : String) (members : Members) : Option Members :=
  match members.get? name with
  | none => some (members.add name (.table .header []))
  | some (.table .implied inner) => some (members.set name (.table .header inner))
  | some _ => none

/-- Add one more of the tables that share a header. -/
def defineItem (name : String) (members : Members) : Option Members :=
  match members.get? name with
  | none => some (members.add name (.tables [.table .header []]))
  | some (.tables items) => some (members.set name (.tables (.table .header [] :: items)))
  | some _ => none

/-- Change the members of the table that a path of headers leads to. Of tables that share a header
    it is the last one. -/
def changeAt (path : List String) (change : Members → Option Members) (members : Members) :
    Option Members :=
  match path with
  | [] => change members
  | name :: path =>
    match members.get? name with
    | none => (changeAt path change []).map fun inner => members.add name (.table .implied inner)
    | some (.tables (.table origin inner :: items)) =>
      (changeAt path change inner).map fun inner =>
        members.set name (.tables (.table origin inner :: items))
    | some (.table .braces _) => none
    | some (.table origin inner) =>
      (changeAt path change inner).map fun inner => members.set name (.table origin inner)
    | some _ => none

/-! ## Section 2: Lines -/

/-- What a line of a file says. -/
inductive Line where
  /-- Nothing, apart from a comment. -/
  | blank
  /-- The header of a table, by the parts of its name. -/
  | header (path : List String) (name : String)
  /-- The header of one of several tables. -/
  | item (path : List String) (name : String)
  /-- A value under a dotted key. -/
  | entry (first : String) (path : List String) (value : Toml)

/-- What the lines of a file so far have built, and the header that the next entry stands under. -/
structure Draft where
  members : Members
  current : List String

/-- The draft with one line more, unless the line does not fit those before. -/
def Draft.add (d : Draft) : Line → Option Draft
  | .blank => some d
  | .header path name =>
    (changeAt path (defineTable name) d.members).map fun members => ⟨members, path ++ [name]⟩
  | .item path name =>
    (changeAt path (defineItem name) d.members).map fun members => ⟨members, path ++ [name]⟩
  | .entry first path value =>
    (changeAt d.current (assign first path value) d.members).map fun members =>
      ⟨members, d.current⟩

end Toml

end TypeCatalog
