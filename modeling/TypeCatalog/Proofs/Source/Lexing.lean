import TypeCatalog.Source.Token

/-! # The lexer piece by piece

    What the lexer does next is told by what stands first in the text. It passes over a piece, puts
    a token onto those found so far, or refuses the text. So the lexer is a relation with one rule
    for each kind of piece, and what holds of it is proved rule by rule. -/

set_option autoImplicit false

namespace TypeCatalog.Source

open Text.Utf8 (size)

/-- A character that is not blank and starts neither a comment nor a text block. -/
structure StartsToken (c : Char) (rest : List Char) : Prop where
  space : ¬isSpace c = true
  line : ∀ r, c = '/' → rest = '/' :: r → False
  comment : ∀ r, c = '/' → rest = '*' :: r → False
  block : ∀ r, c = '"' → rest = '"' :: '"' :: r → False

/-- At a quote all depends on whether there is another one. -/
theorem StartsToken.lexOnto_quote {c : Char} {rest : List Char} (h : StartsToken c rest)
    (hquote : c = '"' ∨ c = '\'') (done : List Token) (position : Nat) (docs : Option String) :
    lexOnto done position docs (c :: rest) =
      (Run.throughQuote? c rest).elim (.error ⟨position, .openLiteral⟩) fun run =>
        lexOnto (⟨.literal, position, docs⟩ :: done) (position + 1 + size run.taken) none
          run.left := by
  rw [lexOnto, if_neg h.space, if_pos hquote]
  · cases Run.throughQuote? c rest with
    | none => rfl
    | some run => rfl
  · exact h.line
  · exact h.comment
  · exact h.block

/-- Without quotes it is told by the character alone what the token is. -/
theorem StartsToken.lexOnto_eq {c : Char} {rest : List Char} (h : StartsToken c rest)
    (hquote : ¬(c = '"' ∨ c = '\'')) (done : List Token) (position : Nat) (docs : Option String) :
    lexOnto done position docs (c :: rest) =
      if c.isDigit then
        lexOnto (⟨.literal, position, docs⟩ :: done)
          (position + 1 + size (Run.while continuesNumber rest).taken) none
          (Run.while continuesNumber rest).left
      else if startsWord c then
        lexOnto (⟨.word (String.ofList (c :: (Run.while continuesWord rest).taken)), position,
          docs⟩ :: done) (position + size (c :: (Run.while continuesWord rest).taken)) none
          (Run.while continuesWord rest).left
      else lexOnto (⟨.symbol c, position, docs⟩ :: done) (position + 1) none rest := by
  rw [lexOnto, if_neg h.space, if_neg hquote]
  · exact h.line
  · exact h.comment
  · exact h.block

/-- What the lexer comes to from a text at some position, where tokens are found and documentation
    waits. -/
inductive Lexes :
    List Token → Nat → Option String → List Char → Except Error (List Token) → Prop
  | nil {done : List Token} {position : Nat} {docs : Option String} :
      Lexes done position docs [] (.ok done.reverse)
  | line {done : List Token} {position : Nat} {docs : Option String} {rest : List Char}
      {x : Except Error (List Token)} :
      Lexes done (position + 2 + size (Run.while (· != '\n') rest).taken) docs
        (Run.while (· != '\n') rest).left x →
      Lexes done position docs ('/' :: '/' :: rest) x
  | openComment {done : List Token} {position : Nat} {docs : Option String} {rest : List Char} :
      Run.through? ['*', '/'] rest = none →
      Lexes done position docs ('/' :: '*' :: rest) (.error ⟨position, .openComment⟩)
  | comment {done : List Token} {position : Nat} {docs : Option String} {rest : List Char}
      {run : Run rest} {x : Except Error (List Token)} :
      Run.through? ['*', '/'] rest = some run →
      Lexes done (position + 2 + size run.taken) (pendingDocs docs ('/' :: '*' :: run.taken))
        run.left x →
      Lexes done position docs ('/' :: '*' :: rest) x
  | openBlock {done : List Token} {position : Nat} {docs : Option String} {rest : List Char} :
      Run.through? ['"', '"', '"'] rest = none →
      Lexes done position docs ('"' :: '"' :: '"' :: rest) (.error ⟨position, .openTextBlock⟩)
  | block {done : List Token} {position : Nat} {docs : Option String} {rest : List Char}
      {run : Run rest} {x : Except Error (List Token)} :
      Run.through? ['"', '"', '"'] rest = some run →
      Lexes (⟨.literal, position, docs⟩ :: done) (position + 3 + size run.taken) none run.left x →
      Lexes done position docs ('"' :: '"' :: '"' :: rest) x
  | space {done : List Token} {position : Nat} {docs : Option String} {c : Char}
      {rest : List Char} {x : Except Error (List Token)} :
      isSpace c = true → Lexes done (position + 1) docs rest x →
      Lexes done position docs (c :: rest) x
  | openLiteral {done : List Token} {position : Nat} {docs : Option String} {c : Char}
      {rest : List Char} :
      StartsToken c rest → c = '"' ∨ c = '\'' → Run.throughQuote? c rest = none →
      Lexes done position docs (c :: rest) (.error ⟨position, .openLiteral⟩)
  | literal {done : List Token} {position : Nat} {docs : Option String} {c : Char}
      {rest : List Char} {run : Run rest} {x : Except Error (List Token)} :
      StartsToken c rest → c = '"' ∨ c = '\'' → Run.throughQuote? c rest = some run →
      Lexes (⟨.literal, position, docs⟩ :: done) (position + 1 + size run.taken) none run.left x →
      Lexes done position docs (c :: rest) x
  | number {done : List Token} {position : Nat} {docs : Option String} {c : Char}
      {rest : List Char} {x : Except Error (List Token)} :
      StartsToken c rest → ¬(c = '"' ∨ c = '\'') → c.isDigit = true →
      Lexes (⟨.literal, position, docs⟩ :: done)
        (position + 1 + size (Run.while continuesNumber rest).taken) none
        (Run.while continuesNumber rest).left x →
      Lexes done position docs (c :: rest) x
  | word {done : List Token} {position : Nat} {docs : Option String} {c : Char}
      {rest : List Char} {x : Except Error (List Token)} :
      StartsToken c rest → ¬(c = '"' ∨ c = '\'') → ¬c.isDigit = true → startsWord c = true →
      Lexes (⟨.word (String.ofList (c :: (Run.while continuesWord rest).taken)), position, docs⟩ ::
          done)
        (position + size (c :: (Run.while continuesWord rest).taken)) none
        (Run.while continuesWord rest).left x →
      Lexes done position docs (c :: rest) x
  | symbol {done : List Token} {position : Nat} {docs : Option String} {c : Char}
      {rest : List Char} {x : Except Error (List Token)} :
      StartsToken c rest → ¬(c = '"' ∨ c = '\'') → ¬c.isDigit = true → ¬startsWord c = true →
      Lexes (⟨.symbol c, position, docs⟩ :: done) (position + 1) none rest x →
      Lexes done position docs (c :: rest) x

/-- The lexer keeps to the rules. -/
theorem lexes_lexOnto (done : List Token) (position : Nat) (docs : Option String) (s : List Char) :
    Lexes done position docs s (lexOnto done position docs s) := by
  fun_induction lexOnto done position docs s with
  | case1 => exact .nil
  | case2 _ _ _ _ _ ih => exact .line ih
  | case3 _ _ _ _ hrun => exact .openComment hrun
  | case4 _ _ _ _ _ hrun ih => exact .comment hrun ih
  | case5 _ _ _ _ hrun => exact .openBlock hrun
  | case6 _ _ _ _ _ hrun ih => exact .block hrun ih
  | case7 _ _ _ _ _ _ _ _ hspace ih => exact .space hspace ih
  | case8 _ _ _ _ _ hline hcomment hblock hspace hquote hrun =>
    exact .openLiteral ⟨hspace, hline, hcomment, hblock⟩ hquote hrun
  | case9 _ _ _ _ _ hline hcomment hblock hspace hquote _ hrun ih =>
    exact .literal ⟨hspace, hline, hcomment, hblock⟩ hquote hrun ih
  | case10 _ _ _ _ _ hline hcomment hblock hspace hquote hdigit _ ih =>
    exact .number ⟨hspace, hline, hcomment, hblock⟩ hquote hdigit ih
  | case11 _ _ _ _ _ hline hcomment hblock hspace hquote hdigit hword _ _ ih =>
    exact .word ⟨hspace, hline, hcomment, hblock⟩ hquote hdigit hword ih
  | case12 _ _ _ _ _ hline hcomment hblock hspace hquote hdigit hword ih =>
    exact .symbol ⟨hspace, hline, hcomment, hblock⟩ hquote hdigit hword ih

/-- The rules leave no choice. -/
theorem Lexes.eq {done : List Token} {position : Nat} {docs : Option String} {s : List Char}
    {x : Except Error (List Token)} (h : Lexes done position docs s x) :
    lexOnto done position docs s = x := by
  induction h with
  | nil => rw [lexOnto]
  | line _ ih =>
    rw [lexOnto]
    exact ih
  | openComment hrun => rw [lexOnto, hrun]
  | comment hrun _ ih =>
    rw [lexOnto, hrun]
    exact ih
  | openBlock hrun => rw [lexOnto, hrun]
  | block hrun _ ih =>
    rw [lexOnto, hrun]
    exact ih
  | space hspace _ ih =>
    rw [lexOnto, if_pos hspace, ih]
    -- What starts a comment or a text block is not blank.
    all_goals
      rintro r rfl
      exact absurd hspace (by decide)
  | openLiteral hstart hquote hrun => rw [hstart.lexOnto_quote hquote, hrun, Option.elim_none]
  | literal hstart hquote hrun _ ih =>
    rw [hstart.lexOnto_quote hquote, hrun, Option.elim_some, ih]
  | number hstart hquote hdigit _ ih => rw [hstart.lexOnto_eq hquote, if_pos hdigit, ih]
  | word hstart hquote hdigit hword _ ih =>
    rw [hstart.lexOnto_eq hquote, if_neg hdigit, if_pos hword, ih]
  | symbol hstart hquote hdigit hword _ ih =>
    rw [hstart.lexOnto_eq hquote, if_neg hdigit, if_neg hword, ih]

end TypeCatalog.Source
