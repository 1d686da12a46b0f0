/-! # Variables in texts

    A reference `${NAME}` in a settings file stands for the value of a variable. A reference to a
    variable without value stays as it is, and a value is not searched again.
-/

set_option autoImplicit false

namespace TypeCatalog.Settings

/-- A piece of a text with references. -/
inductive VariablePiece where
  | plain (c : Char)
  | reference (name : List Char)
  deriving DecidableEq, Repr

/-- A name up to the brace that ends it, and the text after that brace. -/
def referenceTail (s : List Char) : Option (List Char × List Char) :=
  match s with
  | [] => none
  | c :: rest =>
    if c = '\x7d' then some ([], rest)
    else (referenceTail rest).map fun (name, left) => (c :: name, left)

theorem length_referenceTail_lt {s name left : List Char}
    (h : referenceTail s = some (name, left)) : left.length < s.length := by
  induction s generalizing name left with
  | nil => simp [referenceTail] at h
  | cons c rest ih =>
    unfold referenceTail at h
    split at h
    · obtain ⟨_, rfl⟩ := by simpa using h
      simp
    · cases hr : referenceTail rest with
      | none => simp [hr] at h
      | some found =>
        obtain ⟨inner, after⟩ := found
        have := ih hr
        simp [hr] at h
        simp only [← h.2, List.length_cons]
        omega

/-- The pieces of a text. -/
def variablePieces (s : List Char) : List VariablePiece :=
  match s with
  | [] => []
  | '$' :: '\x7b' :: rest =>
    match _found : referenceTail rest with
    | some (c :: name, left) => .reference (c :: name) :: variablePieces left
    | _ => .plain '$' :: variablePieces ('\x7b' :: rest)
  | c :: rest => .plain c :: variablePieces rest
termination_by s.length
decreasing_by
  · have := length_referenceTail_lt _found
    simp only [List.length_cons]
    omega
  · simp
  · simp

/-- The text of a piece where the references stand for what `value` tells. -/
def VariablePiece.expand (value : String → Option String) : VariablePiece → List Char
  | plain c => [c]
  | reference name =>
    match value (String.ofList name) with
    | some found => found.toList
    | none => '$' :: '\x7b' :: name ++ ['\x7d']

/-- The text with the values of variables in the place of the references to them. -/
def expandVariables (value : String → Option String) (text : String) : String :=
  String.ofList ((variablePieces text.toList).flatMap (VariablePiece.expand value))

/-- The names that a text refers to. -/
def variableNames (text : String) : List String :=
  (variablePieces text.toList).filterMap fun
    | .reference name => some (String.ofList name)
    | .plain _ => none

end TypeCatalog.Settings
