import TypeCatalog.Signature.Basic

/-! # The grammar of type signatures

    Which texts are type signatures, and of which type, without saying how they are read:

        type  ::=  letter  |  '[' type  |  'T' name ';'  |  'L' name tail
        tail  ::=  args? ';'  |  args? '.' name tail
        args  ::=  '<' arg+ '>'
        arg   ::=  '*'  |  '+' type  |  '-' type  |  type

    A name is any text that the characters after it cannot cut short. The trees that a text of this
    grammar can have are the well-formed ones: those whose names are names in this sense. -/

set_option autoImplicit false

namespace TypeCatalog

/-! ## Section 1: Names -/

namespace Signature

/-- A text that is not empty and contains none of the given delimiters. -/
def IsName (delimiters : List Char) (name : String) : Prop :=
  name ≠ "" ∧ ∀ c ∈ delimiters, c ∉ name.toList

-- The delimiters are gone through, not all characters there are.
instance (delimiters : List Char) (name : String) : Decidable (IsName delimiters name) :=
  @instDecidableAnd _ _ _ (List.decidableBAll (· ∉ name.toList) delimiters)

/-- A name that can stand between `T` and `;`. -/
abbrev IsVariableName (name : String) : Prop := IsName [';', '<', '>'] name

/-- A name that can stand after `L` or `.` in a class type. -/
abbrev IsClassName (name : String) : Prop := IsName ['<', ';', '.'] name

/-- The name of a nested class: its own name after that of the class around it. -/
def nest (outer inner : String) : String := outer ++ "$" ++ inner

theorem IsClassName.nest {outer inner : String} (ho : IsClassName outer) (hi : IsClassName inner) :
    IsClassName (nest outer inner) := by
  obtain ⟨hne, ho⟩ := ho
  obtain ⟨-, hi⟩ := hi
  refine ⟨fun h => hne ?_, fun c hc => ?_⟩
  · have := congrArg String.toList h
    simp [Signature.nest] at this
  · have hdollar : c ≠ '$' := by
      rintro rfl
      simp at hc
    simp [Signature.nest, ho c hc, hi c hc, hdollar]

end Signature

/-! ## Section 2: Well-formed trees -/

mutual
/-- All names in a type can be read back. -/
def TypeSignature.WellFormed : TypeSignature → Prop
  | .primitive _ => True
  | .typeVariable name => Signature.IsVariableName name
  | .array element => element.WellFormed
  | .classType name arguments =>
    Signature.IsClassName name ∧ TypeArgument.AllWellFormed arguments
/-- All names in a type argument can be read back. -/
def TypeArgument.WellFormed : TypeArgument → Prop
  | .any => True
  | .upper bound => bound.WellFormed
  | .lower bound => bound.WellFormed
  | .exactly type => type.WellFormed
/-- All names in several type arguments can be read back. -/
def TypeArgument.AllWellFormed : List TypeArgument → Prop
  | [] => True
  | a :: rest => a.WellFormed ∧ TypeArgument.AllWellFormed rest
end

/-! ## Section 3: Derivations -/

namespace Signature

mutual
/-- A text is a type signature. -/
inductive IsType : List Char → TypeSignature → Prop
  | primitive (p : Primitive) : IsType [p.letter] (.primitive p)
  | array {s : List Char} {element : TypeSignature} :
      IsType s element → IsType ('[' :: s) (.array element)
  | typeVariable {name : String} :
      IsVariableName name → IsType ('T' :: name.toList ++ [';']) (.typeVariable name)
  | classType {name : String} {s : List Char} {t : TypeSignature} :
      IsClassName name → IsClassTail name s t → IsType ('L' :: name.toList ++ s) t
/-- A text ends a class type, of which the given segments of its name stand before it. -/
inductive IsClassTail : String → List Char → TypeSignature → Prop
  | close {segments : String} {s : List Char} {arguments : List TypeArgument} :
      IsOptionalArguments s arguments →
      IsClassTail segments (s ++ [';']) (.classType segments arguments)
  | inner {segments name : String} {s s' : List Char} {arguments : List TypeArgument}
      {t : TypeSignature} :
      IsOptionalArguments s arguments → IsClassName name → IsClassTail (nest segments name) s' t →
      IsClassTail segments (s ++ '.' :: name.toList ++ s') t
/-- A text is empty or a list of type arguments between angle brackets. -/
inductive IsOptionalArguments : List Char → List TypeArgument → Prop
  | none : IsOptionalArguments [] []
  | some {s : List Char} {arguments : List TypeArgument} :
      IsArguments s arguments → IsOptionalArguments ('<' :: s ++ ['>']) arguments
/-- A text is one type argument or more. -/
inductive IsArguments : List Char → List TypeArgument → Prop
  | last {s : List Char} {a : TypeArgument} : IsArgument s a → IsArguments s [a]
  | more {s s' : List Char} {a : TypeArgument} {rest : List TypeArgument} :
      IsArgument s a → IsArguments s' rest → IsArguments (s ++ s') (a :: rest)
/-- A text is a type argument. -/
inductive IsArgument : List Char → TypeArgument → Prop
  | any : IsArgument ['*'] .any
  | upper {s : List Char} {bound : TypeSignature} :
      IsType s bound → IsArgument ('+' :: s) (.upper bound)
  | lower {s : List Char} {bound : TypeSignature} :
      IsType s bound → IsArgument ('-' :: s) (.lower bound)
  | exactly {s : List Char} {t : TypeSignature} : IsType s t → IsArgument s (.exactly t)
end

end Signature

end TypeCatalog
