import TypeCatalog.Text.Word

/-! # Substitution in the text of a signature

    A signature can be searched for references to type variables without reading it as a tree: from
    left to right a primitive letter is passed over, a class name is passed over up to the bracket
    or the semicolon that ends it, and `T`, a word and a semicolon are a reference. Whatever fits
    none of these is passed over character by character. The text in place of a reference is not
    searched again.
-/

set_option autoImplicit false

namespace TypeCatalog.Signature

/-- A piece of a signature text. -/
inductive Piece where
  /-- Text that stays as it is. -/
  | text (chars : List Char)
  /-- A reference to the type variable of that name. -/
  | reference (name : List Char)
  deriving DecidableEq, Repr

/-- The characters of a piece. -/
def Piece.chars : Piece → List Char
  | .text chars => chars
  | .reference name => 'T' :: name ++ [';']

/-- The number of characters that a class name takes after its `L`: the shortest run of one
    character or more that a bracket or a semicolon follows, that character included. None if a line
    break or the end comes first. -/
def classNameLength? : List Char → Option Nat
  | [] => none
  | first :: rest =>
    if first = '\n' then none
    else
      let run := rest.takeWhile fun c => c != '<' && c != ';' && c != '\n'
      match rest.drop run.length with
      | '<' :: _ => some (run.length + 2)
      | ';' :: _ => some (run.length + 2)
      | _ => none

/-- The name of a reference after its `T`: word characters, at least one, and then a semicolon. -/
def referenceName? (s : List Char) : Option (List Char) :=
  let word := s.takeWhile Text.isWord
  match word, s.drop word.length with
  | _ :: _, ';' :: _ => some word
  | _, _ => none

/-- The pieces of a signature text, in order. -/
def pieces (s : List Char) : List Piece :=
  match s with
  | [] => []
  | 'L' :: rest =>
    match classNameLength? rest with
    | some n => .text ('L' :: rest.take n) :: pieces (rest.drop n)
    | none => .text ['L'] :: pieces rest
  | 'T' :: rest =>
    match referenceName? rest with
    | some word => .reference word :: pieces (rest.drop (word.length + 1))
    | none => .text ['T'] :: pieces rest
  | c :: rest => .text [c] :: pieces rest
termination_by s.length
decreasing_by
  all_goals
    simp only [List.length_cons, List.length_drop]
    omega

/-- The names that are referred to, in order, one for each reference. -/
def references (signature : String) : List String :=
  (pieces signature.toList).filterMap fun
    | .reference name => some (String.ofList name)
    | .text _ => none

/-- One piece with a reference replaced by what `lookup` gives for its name. A name that `lookup`
    does not know stays. -/
def Piece.substitute (lookup : String → Option String) : Piece → List Char
  | .text chars => chars
  | .reference name =>
    match lookup (String.ofList name) with
    | some replacement => replacement.toList
    | none => (Piece.reference name).chars

/-- A signature text with the references replaced that `lookup` knows. -/
def substitute (lookup : String → Option String) (signature : String) : String :=
  String.ofList ((pieces signature.toList).flatMap (Piece.substitute lookup))

example : substitute (fun n => if n = "T" then some "LS;" else none) "(TT;LThread;)LList<TT;TU;>;" =
    "(LS;LThread;)LList<LS;TU;>;" := by decide +kernel

end TypeCatalog.Signature
