import TypeCatalog.Source.Reader

/-! # Reading with a cursor

    The readers of declarations take lists of tokens apart, so that they end is seen from their
    recursions and nothing can be looked up outside a list. A reader that keeps all tokens in one
    sequence and moves an index along it has neither for free: a look-up may miss, a loop may go
    round without end, and a step at the last token leaves the index where it is. Here the same
    declarations are read in that manner, loop by loop, with the end of the text as one more token.

    A reading either does not end, or stops because something is looked up outside the sequence or
    because calls nest too deep, or refuses the text, or gives a result and the place of the
    index. -/

set_option autoImplicit false

namespace TypeCatalog.Source

/-! ## Section 1: Cursors -/

/-- Why a reading stops short. -/
inductive Stop where
  /-- Something is looked up outside the input, or a text is cut inside a character. -/
  | overrun
  /-- There is no room for one more nested call. -/
  | exhausted
  /-- The text is refused. -/
  | refused (e : Error)
  deriving DecidableEq, Repr

/-- A reading of an input that moves an index along it. -/
abbrev Cursor (ι α : Type) := ReaderT ι (StateT Nat (ExceptT Stop Option)) α

namespace Cursor

variable {ι σ α : Type}

/-- How a reading goes from an index on: not at all, if it does not end. -/
def result (m : Cursor ι α) (input : ι) (i : Nat) : Option (Except Stop (α × Nat)) :=
  m input i

/-- A round of a loop after which the loop goes on from a state. -/
def again (s : σ) : Cursor ι (σ ⊕ α) := pure (.inl s)

/-- The last round of a loop, with what the loop gives. -/
def done (a : α) : Cursor ι (σ ⊕ α) := pure (.inr a)

/-- What comes after a round. -/
def after (k : σ → Cursor ι α) : σ ⊕ α → Cursor ι α
  | .inl s => k s
  | .inr a => pure a

/-- A loop that is left to itself after a number of rounds, and does not end then. -/
def rounds (round : σ → Cursor ι (σ ⊕ α)) : Nat → σ → Cursor ι α
  | 0, _ => fun _ _ => (none : Option (Except Stop (α × Nat)))
  | n + 1, s => round s >>= after (rounds round n)

open Classical in
/-- A loop from a state on. It ends if it ends in some number of rounds. -/
noncomputable def loop (s : σ) (round : σ → Cursor ι (σ ⊕ α)) : Cursor ι α := fun input i =>
  if h : ∃ n, (rounds round n s).result input i ≠ none then (rounds round h.choose s).result input i
  else (none : Option (Except Stop (α × Nat)))

end Cursor

/-- What a cursor over tokens stands at: a token, or the end of the text, which has no kind. -/
structure Lexeme where
  kind : Option TokenKind
  /-- The offset of its first byte. -/
  position : Nat
  /-- The documentation comment before it. -/
  docs : Option String
  deriving DecidableEq, Repr

/-- A token in the sequence of a cursor. -/
def Token.lexeme (t : Token) : Lexeme := ⟨some t.kind, t.position, t.docs⟩

/-- A reading of a sequence of lexemes. -/
abbrev TokenCursor (α : Type) := Cursor (List Lexeme) α

namespace TokenCursor

open Cursor (again done loop)

/-- The lexeme at the index. -/
def current : TokenCursor Lexeme := do
  match (← read)[← get]? with
  | some l => return l
  | none => throw .overrun

/-- What the lexeme at the index is. -/
def peek : TokenCursor (Option TokenKind) := do
  return (← current).kind

/-- What a later lexeme is. Past the end there is nothing, as at the end. -/
def peekAt (k : Nat) : TokenCursor (Option TokenKind) := do
  return (← read)[(← get) + k]?.bind Lexeme.kind

/-- One step forward. At the last lexeme the index stays; without any there is no last one. -/
def advance : TokenCursor Unit := do
  match (← read).length with
  | 0 => throw .overrun
  | last + 1 => modify fun i => if i < last then i + 1 else i

/-- The text is refused for what stands at the index. -/
def refuse {α : Type} (wanted : Wanted) : TokenCursor α := do
  let l ← current
  throw (.refused ⟨l.position, .unexpected wanted l.kind⟩)

/-- The lexemes from `start` through the index. -/
def since (start : Nat) : TokenCursor (List Lexeme) := do
  let input ← read
  let stop := (← get) + 1
  if start ≤ stop ∧ stop ≤ input.length then return (input.take stop).drop start
  else throw .overrun

/-- The first documentation from `start` through the index. -/
def docsSince (start : Nat) : TokenCursor String := do
  match (← since start).findSome? Lexeme.docs with
  | some comment => return docsText comment
  | none => return ""

/-- An identifier is taken. -/
def expectIdent : TokenCursor String := do
  match ← peek with
  | some (.word name) =>
    advance
    return name
  | _ => refuse .identifier

/-- A symbol is taken if it is there. -/
def accepts (c : Char) : TokenCursor Bool := do
  if (← peek) = some (.symbol c) then
    advance
    return true
  else return false

/-- A symbol is taken. -/
def expectSymbol (c : Char) : TokenCursor Unit := do
  if ← accepts c then return () else refuse (.symbol c)

/-! ## Section 2: What is passed over -/

noncomputable section

/-- Everything through a symbol is passed over. -/
def skipPast (c : Char) : TokenCursor Unit :=
  loop () fun _ => do
    if ← accepts c then done ()
    else if (← peek) = none then refuse (.symbol c)
    else
      advance
      again ()

/-- Everything through the bracket that brings the depth back to nothing is passed over. -/
def skipBalanced (opening closing : Char) (depth : Nat) : TokenCursor Unit :=
  loop depth fun depth => do
    let next ← peek
    if next = some (.symbol opening) then
      advance
      again (depth + 1)
    else if next = some (.symbol closing) then
      advance
      if depth - 1 = 0 then done () else again (depth - 1)
    else if next = none then refuse (.closing opening)
    else
      advance
      again depth

/-- A group is passed over if one opens here. -/
def skipOptional (opening closing : Char) : TokenCursor Unit := do
  if (← peek) = some (.symbol opening) then skipBalanced opening closing 0 else return ()

/-- Whether a kind is a word. -/
def isWord : Option TokenKind → Bool
  | some (.word _) => true
  | _ => false

/-- The further parts of a dotted name. -/
def namesFrom (name : String) : TokenCursor String :=
  loop name fun name => do
    if (← peek) = some (.symbol '.') ∧ isWord (← peekAt 1) then
      advance
      let part ← expectIdent
      again (name ++ "." ++ part)
    else done name

/-- A dotted name. -/
def qualifiedName : TokenCursor String := do
  let first ← expectIdent
  namesFrom first

/-- An annotation. -/
def skipAnnotation : TokenCursor Unit := do
  expectSymbol '@'
  let _ ← qualifiedName
  skipOptional '(' ')'

/-- Whether a kind is a modifier of one word. -/
def isModifier : Option TokenKind → Bool
  | some (.word w) => w ∈ modifierWords
  | _ => false

/-- Modifiers and annotations in any order. -/
def skipModifiers : TokenCursor Unit :=
  loop () fun _ => do
    let next ← peek
    if isModifier next then
      advance
      again ()
    else if next = some (.word "non") ∧ (← peekAt 1) = some (.symbol '-') ∧
        (← peekAt 2) = some (.word "sealed") then
      advance
      advance
      advance
      again ()
    else if next = some (.symbol '@') ∧ (← peekAt 1) ≠ some (.word "interface") then
      skipAnnotation
      again ()
    else done ()

/-- What follows the parameters of a method, through its body or the semicolon. -/
def skipMemberTail : TokenCursor Unit :=
  loop () fun _ => do
    let next ← peek
    if next = some (.symbol ';') then
      advance
      done ()
    else if next = some (.symbol '\x7b') then
      skipBalanced '\x7b' '\x7d' 0
      done ()
    else if next = some (.symbol '(') then
      skipBalanced '(' ')' 0
      again ()
    else if next = none then refuse .methodEnd
    else
      advance
      again ()

/-- Whether a kind is one that can follow the name of a field. -/
def followsField : Option TokenKind → Bool
  | some (.symbol c) => c = '=' || c = ',' || c = ';' || c = '['
  | _ => false

/-- The initialiser of a field after the equals sign. -/
def skipInitializerFrom : TokenCursor Unit :=
  loop () fun _ => do
    let next ← peek
    if next = some (.symbol ';') then done ()
    else if next = some (.symbol ',') ∧ isWord (← peekAt 1) ∧ followsField (← peekAt 2) then done ()
    else if next = some (.symbol '(') then
      skipBalanced '(' ')' 0
      again ()
    else if next = some (.symbol '\x7b') then
      skipBalanced '\x7b' '\x7d' 0
      again ()
    else if next = some (.symbol '[') then
      skipBalanced '[' ']' 0
      again ()
    else if next = none then refuse .initializerEnd
    else
      advance
      again ()

/-- The equals sign and the initialiser of a field. -/
def skipInitializer : TokenCursor Unit := do
  expectSymbol '='
  skipInitializerFrom

/-- What stands between the type variables of a type and its body, with the opening brace. -/
def skipHeader : TokenCursor Unit :=
  loop () fun _ => do
    let next ← peek
    if next = some (.symbol '\x7b') then
      advance
      done ()
    else if next = some (.symbol '(') then
      skipBalanced '(' ')' 0
      again ()
    else if next = none then refuse .typeBody
    else
      advance
      again ()

/-! ## Section 3: Types and members -/

/-- The further parts of the name of a type; the last one is its name. -/
def partsFrom (name : String) : TokenCursor String :=
  loop name fun name => do
    let next ← peek
    if next = some (.symbol '<') then
      skipBalanced '<' '>' 0
      again name
    else if next = some (.symbol '.') ∧ isWord (← peekAt 1) then
      advance
      let part ← expectIdent
      again part
    else if next = some (.symbol '.') ∧ (← peekAt 1) = some (.symbol '@') then
      advance
      skipAnnotation
      again name
    else done name

/-- The dimensions after a type, onto those counted. -/
def dimensionsFrom (n : Nat) : TokenCursor Nat :=
  loop n fun n => do
    let next ← peek
    if next = some (.symbol '[') ∧ (← peekAt 1) = some (.symbol ']') then
      advance
      advance
      again (n + 1)
    else if (← peekAt 0) = some (.symbol '.') ∧ (← peekAt 1) = some (.symbol '.') ∧
        (← peekAt 2) = some (.symbol '.') then
      advance
      advance
      advance
      again (n + 1)
    else if next = some (.symbol '@') then
      skipAnnotation
      again n
    else done n

/-- A type. -/
def typeName : TokenCursor WrittenType := do
  skipModifiers
  let first ← expectIdent
  let name ← partsFrom first
  let n ← dimensionsFrom 0
  return ⟨name, n⟩

/-- The dimensions after the name of a parameter, onto those of its type. -/
def nameDimensionsFrom (type : WrittenType) : TokenCursor WrittenType :=
  loop type fun type => do
    if (← peek) = some (.symbol '[') ∧ (← peekAt 1) = some (.symbol ']') then
      advance
      advance
      again { type with dimensions := type.dimensions + 1 }
    else done type

/-- One parameter. -/
def parameter : TokenCursor Parameter := do
  let type ← typeName
  let name ← expectIdent
  let type ← nameDimensionsFrom type
  return ⟨name, type⟩

/-- A comma after a parameter is taken; the closing parenthesis is not. -/
def separator : TokenCursor Unit := do
  if ← accepts ',' then return ()
  else if (← peek) ≠ some (.symbol ')') then refuse .parameterSeparator
  else return ()

/-- The parameters through the closing parenthesis, onto those found. -/
def parametersFrom (found : List Parameter) : TokenCursor (List Parameter) :=
  loop found fun found => do
    if ← accepts ')' then done found
    else
      let p ← parameter
      separator
      again (if p.name = "this" then found else found ++ [p])

/-- The names of type variables onto those found, at a depth of brackets. -/
def typeParametersFrom (names : List String) (depth : Nat) (expectName : Bool) :
    TokenCursor (List String) :=
  loop (names, depth, expectName) fun (names, depth, expectName) => do
    match ← peek with
    | none => refuse .typeParametersEnd
    | some (.word name) =>
      advance
      if expectName then again (names ++ [name], depth, false)
      else again (names, depth, expectName)
    | some .literal =>
      advance
      again (names, depth, expectName)
    | some (.symbol c) =>
      if c = '<' then
        advance
        again (names, depth + 1, depth + 1 = 1)
      else if c = '>' then
        advance
        if depth - 1 = 0 then done names else again (names, depth - 1, expectName)
      else if c = ',' ∧ depth = 1 then
        advance
        again (names, depth, true)
      else if c = '@' then
        skipAnnotation
        again (names, depth, expectName)
      else
        advance
        again (names, depth, expectName)

/-- The names of type variables with their brackets. -/
def typeParameters : TokenCursor (List String) := typeParametersFrom [] 0 true

/-- The names of type variables, if their list opens here. -/
def optionalTypeParameters : TokenCursor (List String) := do
  if (← peek) = some (.symbol '<') then typeParameters else return []

/-- The fields of one declaration after their first name, onto those found. -/
def fieldsFrom (docs : String) (found : List Member) : TokenCursor (List Member) :=
  loop found fun found => do
    let next ← peek
    if next = some (.symbol ';') then
      advance
      done found
    else if next = some (.symbol ',') then
      advance
      let name ← expectIdent
      again (found ++ [.ofField docs name])
    else if next = some (.symbol '=') then
      skipInitializer
      again found
    else if next = some (.symbol '[') then
      skipBalanced '[' ']' 0
      again found
    else refuse .fieldDeclaration

/-- The parameters in their parentheses and what follows them. -/
def callable (kind : MemberKind) (docs name : String) (typeVariables : List String) :
    TokenCursor (List Member) := do
  expectSymbol '('
  let parameters ← parametersFrom []
  skipMemberTail
  return [⟨kind, name, docs, typeVariables, parameters⟩]

/-- What follows the name of a member that is no constructor. -/
def afterName (docs name : String) (typeVariables : List String) : TokenCursor (List Member) := do
  if (← peek) = some (.symbol '(') then callable .method docs name typeVariables
  else fieldsFrom docs [.ofField docs name]

/-- A method or fields, from their type on. -/
def typedMembers (docs : String) (typeVariables : List String) : TokenCursor (List Member) := do
  let _ ← typeName
  let name ← expectIdent
  afterName docs name typeVariables

/-- The members of one declaration after its type variables. -/
def membersAfter (owner docs : String) (typeVariables : List String) :
    TokenCursor (List Member) := do
  if (← peek) = some (.word owner) ∧ (← peekAt 1) = some (.symbol '(') then
    advance
    callable .constructor docs owner typeVariables
  else typedMembers docs typeVariables

/-- The type variables of a member, with further modifiers. -/
def memberTypeParameters : TokenCursor (List String) := do
  if (← peek) = some (.symbol '<') then
    let names ← typeParameters
    skipModifiers
    return names
  else return []

/-- The members of one declaration. -/
def members (owner docs : String) : TokenCursor (List Member) := do
  let typeVariables ← memberTypeParameters
  membersAfter owner docs typeVariables

/-- One enum constant with its arguments and its body. -/
def enumConstant : TokenCursor Member := do
  let start ← get
  skipModifiers
  let docs ← docsSince start
  let name ← expectIdent
  skipOptional '(' ')'
  skipOptional '\x7b' '\x7d'
  return .ofField docs name

/-- The constants of an enum, onto those found. -/
def enumConstantsFrom (found : List Member) : TokenCursor (List Member) :=
  loop found fun found => do
    let next ← peek
    if next = some (.symbol ';') then
      advance
      done found
    else if next = some (.symbol '\x7d') then done found
    else if next = some (.symbol ',') then
      advance
      again found
    else if next = none then refuse .enumBodyEnd
    else
      let constant ← enumConstant
      again (found ++ [constant])

/-- The constants of a type: only an enum has some. -/
def constantsOf (keyword : String) : TokenCursor (List Member) :=
  if keyword = "enum" then enumConstantsFrom [] else return []

/-! ## Section 4: Declarations -/

/-- Whether a kind is a word that starts the declaration of a type. -/
def startsType : Option TokenKind → Bool
  | some (.word w) => w ∈ typeWords
  | _ => false

section nested

-- How a type that is declared inside a type is read, from its keyword on.
variable (inner : String → List String → TokenCursor TypeUnit)

/-- A declaration after its modifiers. -/
def bareDeclaration (owner docs : String) (outer : List String) : TokenCursor Declared := do
  let next ← peek
  if next = some (.symbol '\x7b') then
    skipBalanced '\x7b' '\x7d' 0
    return .nothing
  else if next = some (.symbol ';') then
    advance
    return .nothing
  else if startsType next then
    let t ← inner docs outer
    return .type t
  else if next = some (.symbol '@') then
    advance
    let t ← inner docs outer
    return .type t
  else
    let ms ← members owner docs
    return .members ms

/-- A declaration with its modifiers. -/
def declaration (owner : String) (outer : List String) : TokenCursor Declared := do
  let start ← get
  skipModifiers
  let docs ← docsSince start
  bareDeclaration inner owner docs outer

/-- The declarations of a body through its closing brace, added to the type. -/
def bodyFrom (t : TypeUnit) : TokenCursor TypeUnit :=
  loop t fun t => do
    if ← accepts '\x7d' then done t
    else if (← peek) = none then refuse .typeBodyEnd
    else
      match ← declaration inner t.name t.typeVariables with
      | .type found => again { t with types := t.types ++ [found] }
      | .members ms => again { t with members := t.members ++ ms }
      | .nothing => again t

end nested

/-- A type from its keyword on, where there is room for some nested calls. -/
def typeUnit : Nat → String → List String → TokenCursor TypeUnit
  | 0, _, _ => throw .exhausted
  | room + 1, docs, outer => do
    let keyword ← expectIdent
    let name ← expectIdent
    let own ← optionalTypeParameters
    skipHeader
    let constants ← constantsOf keyword
    bodyFrom (typeUnit room) ⟨name, docs, outer ++ own, constants, []⟩

/-- A source file from some point on, with the package and the types found. -/
def unitFrom (room : Nat) (package : String) (types : List TypeUnit) : TokenCursor SourceUnit :=
  loop (package, types) fun (package, types) => do
    let next ← peek
    if next = none then done ⟨package, types⟩
    else if next = some (.symbol ';') then
      advance
      again (package, types)
    else if next = some (.word "package") then
      advance
      let name ← qualifiedName
      expectSymbol ';'
      again (name, types)
    else if next = some (.word "import") then
      skipPast ';'
      again (package, types)
    else
      let found ← declaration (typeUnit room) "" []
      again (package, types ++ found.type?.toList)

/-- A source file. -/
def sourceUnit (room : Nat) : TokenCursor SourceUnit := unitFrom room "" []

end

end TokenCursor

end TypeCatalog.Source
