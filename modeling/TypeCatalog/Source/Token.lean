import TypeCatalog.Text.Utf8

/-! # Tokens of source text

    The lexer keeps identifiers, and tells literals and symbols apart; comments and blanks are
    dropped, except that a documentation comment stays with the token after it. Letters outside
    ASCII belong to identifiers. Positions count bytes.
-/

set_option autoImplicit false

namespace TypeCatalog.Source

/-! ## Section 1: Tokens and faults -/

/-- What a token is. -/
inductive TokenKind where
  /-- An identifier or a keyword. -/
  | word (text : String)
  /-- A string, a character, a text block or a number. -/
  | literal
  /-- Any other character. -/
  | symbol (c : Char)
  deriving DecidableEq, Repr

/-- A token of source text. -/
structure Token where
  kind : TokenKind
  /-- The offset of its first byte. -/
  position : Nat
  /-- The last documentation comment between the token before and this one. -/
  docs : Option String
  deriving DecidableEq, Repr

/-- What a declaration has to go on with at some point. -/
inductive Wanted where
  | typeBody
  | typeBodyEnd
  | enumBodyEnd
  | fieldDeclaration
  | typeParametersEnd
  | parameterSeparator
  | methodEnd
  | initializerEnd
  | closing (opening : Char)
  | symbol (c : Char)
  | identifier
  deriving DecidableEq, Repr

/-- Why a source text cannot be read. -/
inductive Fault where
  /-- A comment does not end. -/
  | openComment
  /-- A text block does not end. -/
  | openTextBlock
  /-- A string or a character does not end on its line. -/
  | openLiteral
  /-- Something else stands there than what is wanted; nothing is the end of the text. -/
  | unexpected (wanted : Wanted) (found : Option TokenKind)
  deriving DecidableEq, Repr

/-- The wording for what is wanted. -/
def Wanted.message : Wanted → String
  | typeBody => "expected type body"
  | typeBodyEnd => "unterminated type body"
  | enumBodyEnd => "unterminated enum body"
  | fieldDeclaration => "expected field declaration"
  | typeParametersEnd => "unterminated type parameters"
  | parameterSeparator => "expected ',' or ')' in parameter list"
  | methodEnd => "unterminated method declaration"
  | initializerEnd => "unterminated field initializer"
  | closing opening => "unbalanced '" ++ String.singleton opening ++ "'"
  | symbol c => "expected '" ++ String.singleton c ++ "'"
  | identifier => "expected identifier"

/-- The wording for what was found. -/
def foundMessage : Option TokenKind → String
  | some (.word text) => text
  | some .literal => "literal"
  | some (.symbol c) => String.singleton c
  | none => "end of input"

/-- The wording of a fault. -/
def Fault.message : Fault → String
  | openComment => "unterminated comment"
  | openTextBlock => "unterminated text block"
  | openLiteral => "unterminated literal"
  | unexpected wanted found => wanted.message ++ ", found " ++ foundMessage found

/-- A source text that cannot be read. -/
structure Error where
  /-- The offset of the fault in bytes. -/
  position : Nat
  /-- What is wrong there. -/
  fault : Fault
  deriving DecidableEq, Repr

/-- The wording of an error. -/
def Error.message (e : Error) : String :=
  "Java source error at byte " ++ toString e.position ++ ": " ++ e.fault.message

/-! ## Section 2: Runs of characters -/

/-- What a run takes from the front of a text, and the text after it. -/
structure Run (s : List Char) where
  /-- The characters taken. -/
  taken : List Char
  /-- The characters after them. -/
  left : List Char
  /-- Nothing is lost. -/
  whole : taken ++ left = s

/-- The longest run of characters that a predicate holds on. -/
def Run.while (p : Char → Bool) (s : List Char) : Run s :=
  ⟨s.takeWhile p, s.dropWhile p, List.takeWhile_append_dropWhile⟩

theorem Run.length_le {s : List Char} (r : Run s) : r.left.length ≤ s.length := by
  have := congrArg List.length r.whole
  simp at this
  omega

/-- The characters through the end of a mark, onto those taken so far, the last one first. -/
def throughMark (mark done s : List Char) : Option (List Char × List Char) :=
  match s with
  | [] => none
  | c :: rest =>
    if mark.isPrefixOf (c :: rest) then
      some (done.reverse ++ mark, (c :: rest).drop mark.length)
    else throughMark mark (c :: done) rest

theorem throughMark_append {mark done s taken left : List Char}
    (h : throughMark mark done s = some (taken, left)) : taken ++ left = done.reverse ++ s := by
  fun_induction throughMark mark done s with
  | case1 => simp at h
  | case2 done c rest hp =>
    obtain ⟨rfl, rfl⟩ := by simpa using h
    have hs : mark <+: c :: rest := List.isPrefixOf_iff_prefix.1 hp
    obtain ⟨after, ha⟩ := hs
    rw [← ha]
    simp
  | case3 done c rest _ ih =>
    rw [ih h]
    simp

/-- The characters of a literal after its opening quote, through the closing one, onto those taken
    so far, the last one first. The character after a reverse solidus does not count; a line break
    ends the literal too early. -/
def throughQuote (quote : Char) (done s : List Char) : Option (List Char × List Char) :=
  match s with
  | [] => none
  | ['\\'] => none
  | '\\' :: c :: rest => throughQuote quote (c :: '\\' :: done) rest
  | c :: rest =>
    if c = '\n' then none
    else if c = quote then some ((c :: done).reverse, rest)
    else throughQuote quote (c :: done) rest

theorem throughQuote_append {quote : Char} {done s taken left : List Char}
    (h : throughQuote quote done s = some (taken, left)) : taken ++ left = done.reverse ++ s := by
  fun_induction throughQuote quote done s with
  | case1 => simp at h
  | case2 => simp at h
  | case3 done c rest ih =>
    rw [ih h]
    simp
  | case4 => simp at h
  | case5 done rest =>
    obtain ⟨rfl, rfl⟩ := by simpa using h
    simp
  | case6 done c rest _ _ _ _ ih =>
    rw [ih h]
    simp

/-- The run through the end of a mark, if the mark occurs. -/
def Run.through? (mark s : List Char) : Option (Run s) :=
  match h : throughMark mark [] s with
  | some (taken, left) => some ⟨taken, left, by simpa using throughMark_append h⟩
  | none => none

/-- The run through the closing quote of a literal, if it ends on its line. -/
def Run.throughQuote? (quote : Char) (s : List Char) : Option (Run s) :=
  match h : throughQuote quote [] s with
  | some (taken, left) => some ⟨taken, left, by simpa using throughQuote_append h⟩
  | none => none

/-! ## Section 3: The lexer -/

/-- The blanks between tokens. -/
def isSpace (c : Char) : Bool :=
  c = ' ' || c = '\t' || c = '\n' || c = '\r' || c = '\x0c'

/-- What an identifier starts with. -/
def startsWord (c : Char) : Bool :=
  c.isAlpha || c = '_' || c = '$' || 0x80 ≤ c.toNat

/-- What an identifier goes on with. -/
def continuesWord (c : Char) : Bool := startsWord c || c.isDigit

/-- What a number goes on with. -/
def continuesNumber (c : Char) : Bool := c.isAlphanum || c = '_' || c = '.'

/-- Whether a comment is documentation. The shortest block comment starts like one and is none. -/
def isDocComment (comment : List Char) : Bool :=
  ['/', '*', '*'].isPrefixOf comment && 4 < comment.length

/-- The documentation that waits for a token after a comment. -/
def pendingDocs (docs : Option String) (comment : List Char) : Option String :=
  if isDocComment comment then some (String.ofList comment) else docs

/-- The tokens of `s`, which starts at the given position with the given documentation waiting, onto
    those read so far, the last one first. -/
def lexOnto (done : List Token) (position : Nat) (docs : Option String) (s : List Char) :
    Except Error (List Token) :=
  match s with
  | [] => .ok done.reverse
  | '/' :: '/' :: rest =>
    let run := Run.while (· != '\n') rest
    lexOnto done (position + 2 + Text.Utf8.size run.taken) docs run.left
  | '/' :: '*' :: rest =>
    match Run.through? ['*', '/'] rest with
    | none => .error ⟨position, .openComment⟩
    | some run =>
      lexOnto done (position + 2 + Text.Utf8.size run.taken)
        (pendingDocs docs ('/' :: '*' :: run.taken)) run.left
  | '"' :: '"' :: '"' :: rest =>
    match Run.through? ['"', '"', '"'] rest with
    | none => .error ⟨position, .openTextBlock⟩
    | some run =>
      lexOnto (⟨.literal, position, docs⟩ :: done) (position + 3 + Text.Utf8.size run.taken) none
        run.left
  | c :: rest =>
    if isSpace c then lexOnto done (position + 1) docs rest
    else if c = '"' ∨ c = '\'' then
      match Run.throughQuote? c rest with
      | none => .error ⟨position, .openLiteral⟩
      | some run =>
        lexOnto (⟨.literal, position, docs⟩ :: done) (position + 1 + Text.Utf8.size run.taken) none
          run.left
    else if c.isDigit then
      let run := Run.while continuesNumber rest
      lexOnto (⟨.literal, position, docs⟩ :: done) (position + 1 + Text.Utf8.size run.taken) none
        run.left
    else if startsWord c then
      let run := Run.while continuesWord rest
      let word := c :: run.taken
      lexOnto (⟨.word (String.ofList word), position, docs⟩ :: done)
        (position + Text.Utf8.size word) none run.left
    else lexOnto (⟨.symbol c, position, docs⟩ :: done) (position + 1) none rest
termination_by s.length
decreasing_by
  · have := (Run.while (· != '\n') rest).length_le
    simp only [List.length_cons]
    omega
  · have := run.length_le
    simp only [List.length_cons]
    omega
  · have := run.length_le
    simp only [List.length_cons]
    omega
  · simp
  · have := run.length_le
    simp only [List.length_cons]
    omega
  · have := (Run.while continuesNumber rest).length_le
    simp only [List.length_cons]
    omega
  · have := (Run.while continuesWord rest).length_le
    simp only [List.length_cons]
    omega
  · simp

/-- The tokens of a source text. -/
def lex (text : List Char) : Except Error (List Token) := lexOnto [] 0 none text

end TypeCatalog.Source
