import TypeCatalog.Source.Reader

/-! # The grammar of source files

    Which token sequences are source files, and of which declarations, without saying how they are
    read:

        file        ::=  package? import* (front type | ';')*
        type        ::=  keyword name variables? clause '{' contents '}'
        contents    ::=  item*  |  constants  |  constants ';' item*
        item        ::=  front type  |  front member  |  front block  |  ';'
        member      ::=  written name pairs (',' name pairs)* ';'
                      |  variables? written name '(' parameters? ')' end
                      |  variables? owner '(' parameters? ')' end
        end         ::=  clause (';' | block)
        parameter   ::=  front written name pairs
        written     ::=  name ('.' name | '<' … '>')* dimension*
        variables   ::=  '<' variable (',' variable)* '>'
        constant    ::=  front name ('(' … ')')? block?

    A front is any modifiers and annotations, a block anything between balanced braces, and a clause
    anything without braces outside of parentheses. Only an enum has constants. The documentation
    of a declaration waits at its first token. -/

set_option autoImplicit false

namespace TypeCatalog.Source

/-! ## Section 1: Balanced brackets and names -/

/-- How many brackets are open after some tokens, where `depth` were open before them. -/
def depthAfter (opening closing : Char) (depth : Nat) : List Token → Option Nat
  | [] => some depth
  | t :: r =>
    if t.kind = .symbol opening then depthAfter opening closing (depth + 1) r
    else if t.kind = .symbol closing then
      match depth with
      | 0 => none
      | depth + 1 => depthAfter opening closing depth r
    else depthAfter opening closing depth r

/-- Every bracket that opens is closed, and none is closed that did not open. -/
def WellNested (opening closing : Char) (s : List Token) : Prop :=
  depthAfter opening closing 0 s = some 0

instance (opening closing : Char) (s : List Token) : Decidable (WellNested opening closing s) :=
  inferInstanceAs (Decidable (depthAfter opening closing 0 s = some 0))

/-- Any tokens in brackets. -/
inductive IsGroup (opening closing : Char) : List Token → Prop
  | intro {first last : Token} {s : List Token} :
      first.kind = .symbol opening → WellNested opening closing s →
      last.kind = .symbol closing → IsGroup opening closing (first :: (s ++ [last]))

/-- Nothing, or any tokens in brackets. -/
inductive IsOptionalGroup (opening closing : Char) : List Token → Prop
  | none : IsOptionalGroup opening closing []
  | some {s : List Token} : IsGroup opening closing s → IsOptionalGroup opening closing s

/-- The words that are no names, apart from modifiers. -/
def reservedWords : List String :=
  ["class", "interface", "enum", "record", "package", "import", "this"]

/-- A word that can be a name. -/
def IsIdentifier (w : String) : Prop := w ∉ modifierWords ∧ w ∉ reservedWords

instance (w : String) : Decidable (IsIdentifier w) :=
  inferInstanceAs (Decidable (w ∉ modifierWords ∧ w ∉ reservedWords))

/-- Names with dots between them. -/
inductive IsQualifiedName : List Token → String → Prop
  | last {t : Token} {w : String} : t.kind = .word w → IsIdentifier w → IsQualifiedName [t] w
  | more {t dot : Token} {w name : String} {s : List Token} :
      t.kind = .word w → IsIdentifier w → dot.kind = .symbol '.' → IsQualifiedName s name →
      IsQualifiedName (t :: dot :: s) (w ++ "." ++ name)

/-! ## Section 2: What stands before a declaration -/

/-- An annotation: its sign, its name, and its arguments if it has some. -/
inductive IsAnnotation : List Token → Prop
  | intro {sign : Token} {name : String} {s args : List Token} :
      sign.kind = .symbol '@' → IsQualifiedName s name → IsOptionalGroup '(' ')' args →
      IsAnnotation (sign :: (s ++ args))

/-- Modifiers and annotations in any order. -/
inductive IsModifiers : List Token → Prop
  | nil : IsModifiers []
  | word {t : Token} {w : String} {s : List Token} :
      t.kind = .word w → w ∈ modifierWords → IsModifiers s → IsModifiers (t :: s)
  | nonSealed {t dash t' : Token} {s : List Token} :
      t.kind = .word "non" → dash.kind = .symbol '-' → t'.kind = .word "sealed" →
      IsModifiers s → IsModifiers (t :: dash :: t' :: s)
  | annotated {a s : List Token} : IsAnnotation a → IsModifiers s → IsModifiers (a ++ s)

/-- The documentation that waits at the first of some tokens, if there is one at all. -/
inductive Documented : List Token → String → Prop
  | undocumented {s : List Token} : (∀ t ∈ s, t.docs = none) → Documented s ""
  | documented {t : Token} {comment : String} (s : List Token) :
      t.docs = some comment → Documented (t :: s) (docsText comment)

/-! ## Section 3: Types and parameters -/

/-- What goes on with a type of which `name` stands before it, and the last part of its name. -/
inductive IsTypeTail : String → List Token → String → Prop
  | nil (name : String) : IsTypeTail name [] name
  | arguments {name last : String} {g s : List Token} :
      IsGroup '<' '>' g → IsTypeTail name s last → IsTypeTail name (g ++ s) last
  | part {dot t : Token} {name w last : String} {s : List Token} :
      dot.kind = .symbol '.' → t.kind = .word w → IsIdentifier w → IsTypeTail w s last →
      IsTypeTail name (dot :: t :: s) last

/-- Dimensions, annotated or not, and the dots of variable arity. -/
inductive IsDimensions : List Token → Nat → Prop
  | nil : IsDimensions [] 0
  | brackets {opening closing : Token} {n : Nat} {s : List Token} :
      opening.kind = .symbol '[' → closing.kind = .symbol ']' → IsDimensions s n →
      IsDimensions (opening :: closing :: s) (n + 1)
  | dots {dot dot' dot'' : Token} {n : Nat} {s : List Token} :
      dot.kind = .symbol '.' → dot'.kind = .symbol '.' → dot''.kind = .symbol '.' →
      IsDimensions s n → IsDimensions (dot :: dot' :: dot'' :: s) (n + 1)
  | annotated {n : Nat} {a s : List Token} :
      IsAnnotation a → IsDimensions s n → IsDimensions (a ++ s) n

/-- A type without annotations before it. -/
inductive IsWritten : List Token → WrittenType → Prop
  | intro {t : Token} {w last : String} {n : Nat} {s s' : List Token} :
      t.kind = .word w → IsIdentifier w → IsTypeTail w s last → IsDimensions s' n →
      IsWritten (t :: (s ++ s')) ⟨last, n⟩

/-- Pairs of square brackets after a name. -/
inductive IsPairs : List Token → Nat → Prop
  | nil : IsPairs [] 0
  | more {opening closing : Token} {n : Nat} {s : List Token} :
      opening.kind = .symbol '[' → closing.kind = .symbol ']' → IsPairs s n →
      IsPairs (opening :: closing :: s) (n + 1)

/-- A parameter. -/
inductive IsParameter : List Token → Parameter → Prop
  | intro {t : Token} {name : String} {type : WrittenType} {n : Nat} {m s s' : List Token} :
      IsModifiers m → IsWritten s type → t.kind = .word name → IsIdentifier name →
      IsPairs s' n →
      IsParameter (m ++ (s ++ t :: s')) ⟨name, { type with dimensions := type.dimensions + n }⟩

/-- One parameter or more, with commas between them. -/
inductive IsParameterList : List Token → List Parameter → Prop
  | last {x : Parameter} {s : List Token} : IsParameter s x → IsParameterList s [x]
  | more {comma : Token} {x : Parameter} {xs : List Parameter} {s s' : List Token} :
      IsParameter s x → comma.kind = .symbol ',' → IsParameterList s' xs →
      IsParameterList (s ++ comma :: s') (x :: xs)

/-- The parameters of a member, in parentheses. -/
inductive IsParameters : List Token → List Parameter → Prop
  | none {opening closing : Token} :
      opening.kind = .symbol '(' → closing.kind = .symbol ')' → IsParameters [opening, closing] []
  | some {opening closing : Token} {xs : List Parameter} {s : List Token} :
      opening.kind = .symbol '(' → IsParameterList s xs → closing.kind = .symbol ')' →
      IsParameters (opening :: (s ++ [closing])) xs

/-! ## Section 4: Type variables -/

/-- Whether some tokens go on with a dotted name that stands before them. -/
def startsPart : List Token → Bool
  | ⟨.symbol '.', _, _⟩ :: ⟨.word _, _, _⟩ :: _ => true
  | _ => false

/-- Whether the first token is of a given kind. -/
def startsWith (k : TokenKind) : List Token → Bool
  | t :: _ => t.kind = k
  | [] => false

/-- Tokens that do not go on with an annotation that stands before them. -/
def EndsAnnotation (s : List Token) : Prop :=
  startsPart s = false ∧ startsWith (.symbol '(') s = false

/-- What follows the name of a type variable. Angle brackets are well nested, and commas stand only
    inside them. -/
inductive IsBound : Bool → List Token → Prop
  | nil (inside : Bool) : IsBound inside []
  | token {inside : Bool} {t : Token} {s : List Token} :
      t.kind ∉ ['<', '>', ',', '@'].map TokenKind.symbol → IsBound inside s →
      IsBound inside (t :: s)
  | comma {t : Token} {s : List Token} :
      t.kind = .symbol ',' → IsBound true s → IsBound true (t :: s)
  | nested {opening closing : Token} {inside : Bool} {s s' : List Token} :
      opening.kind = .symbol '<' → IsBound true s → closing.kind = .symbol '>' →
      IsBound inside s' → IsBound inside (opening :: (s ++ closing :: s'))
  | annotated {inside : Bool} {a s : List Token} :
      IsAnnotation a → EndsAnnotation s → IsBound inside s → IsBound inside (a ++ s)

/-- A type variable with its annotations and its bounds. -/
inductive IsVariable : List Token → String → Prop
  | intro {t : Token} {name : String} {s : List Token} :
      t.kind = .word name → IsIdentifier name → IsBound false s → IsVariable (t :: s) name
  | annotated {name : String} {a s : List Token} :
      IsAnnotation a → IsVariable s name → IsVariable (a ++ s) name

/-- One type variable or more, with commas between them. -/
inductive IsVariableList : List Token → List String → Prop
  | last {name : String} {s : List Token} : IsVariable s name → IsVariableList s [name]
  | more {comma : Token} {name : String} {names : List String} {s s' : List Token} :
      IsVariable s name → comma.kind = .symbol ',' → IsVariableList s' names →
      IsVariableList (s ++ comma :: s') (name :: names)

/-- A list of type variables in angle brackets. -/
inductive IsVariables : List Token → List String → Prop
  | intro {opening closing : Token} {names : List String} {s : List Token} :
      opening.kind = .symbol '<' → IsVariableList s names → closing.kind = .symbol '>' →
      IsVariables (opening :: (s ++ [closing])) names

/-! ## Section 5: Members -/

/-- Any tokens that have parentheses around each of the given symbols. -/
inductive IsClause (ends : List Char) : List Token → Prop
  | nil : IsClause ends []
  | group {g s : List Token} : IsGroup '(' ')' g → IsClause ends s → IsClause ends (g ++ s)
  | token {t : Token} {s : List Token} :
      t.kind ∉ ('(' :: ends).map TokenKind.symbol → IsClause ends s → IsClause ends (t :: s)

/-- What follows the parameters of a member: a clause, then a semicolon or a body. -/
inductive IsMemberEnd : List Token → Prop
  | semicolon {t : Token} {s : List Token} :
      IsClause [';', '\x7b'] s → t.kind = .symbol ';' → IsMemberEnd (s ++ [t])
  | body {s g : List Token} :
      IsClause [';', '\x7b'] s → IsGroup '\x7b' '\x7d' g → IsMemberEnd (s ++ g)

/-- The names of fields through the semicolon, each with its own dimensions. -/
inductive IsFieldNames : List Token → List String → Prop
  | last {t semicolon : Token} {name : String} {n : Nat} {s : List Token} :
      t.kind = .word name → IsIdentifier name → IsPairs s n → semicolon.kind = .symbol ';' →
      IsFieldNames (t :: (s ++ [semicolon])) [name]
  | more {t comma : Token} {name : String} {names : List String} {n : Nat} {s s' : List Token} :
      t.kind = .word name → IsIdentifier name → IsPairs s n → comma.kind = .symbol ',' →
      IsFieldNames s' names → IsFieldNames (t :: (s ++ comma :: s')) (name :: names)

/-- The type variables of a member with the modifiers after them. -/
inductive IsMemberVariables : List Token → List String → Prop
  | none : IsMemberVariables [] []
  | some {names : List String} {s m : List Token} :
      IsVariables s names → IsModifiers m → IsMemberVariables (s ++ m) names

/-- The members of one declaration in the body of the type `owner`, with their documentation. -/
inductive IsMember (owner docs : String) : List Token → List Member → Prop
  | fields {type : WrittenType} {names : List String} {s s' : List Token} :
      IsWritten s type → IsFieldNames s' names →
      IsMember owner docs (s ++ s') (names.map (Member.ofField docs))
  | method {t : Token} {name : String} {names : List String} {xs : List Parameter}
      {type : WrittenType} {v s s' e : List Token} :
      IsMemberVariables v names → IsWritten s type → t.kind = .word name → IsIdentifier name →
      IsParameters s' xs → IsMemberEnd e →
      IsMember owner docs (v ++ (s ++ t :: (s' ++ e))) [⟨.method, name, docs, names, xs⟩]
  | constructor {t : Token} {names : List String} {xs : List Parameter} {v s e : List Token} :
      IsMemberVariables v names → t.kind = .word owner → IsParameters s xs → IsMemberEnd e →
      IsMember owner docs (v ++ t :: (s ++ e)) [⟨.constructor, owner, docs, names, xs⟩]

/-- An enum constant with its arguments and its body. -/
inductive IsConstant : List Token → Member → Prop
  | intro {t : Token} {name docs : String} {m g b : List Token} :
      IsModifiers m → t.kind = .word name → IsIdentifier name → Documented (m ++ [t]) docs →
      IsOptionalGroup '(' ')' g → IsOptionalGroup '\x7b' '\x7d' b →
      IsConstant (m ++ t :: (g ++ b)) (.ofField docs name)

/-- Enum constants with commas between them; a comma may stand after the last. -/
inductive IsConstants : List Token → List Member → Prop
  | nil : IsConstants [] []
  | last {c : Member} {s : List Token} : IsConstant s c → IsConstants s [c]
  | more {comma : Token} {c : Member} {cs : List Member} {s s' : List Token} :
      IsConstant s c → comma.kind = .symbol ',' → IsConstants s' cs →
      IsConstants (s ++ comma :: s') (c :: cs)

/-! ## Section 6: Types -/

/-- How the declaration of a type starts, and whether the type is an enum. -/
inductive IsTypeKeyword : List Token → Bool → Prop
  | class {t : Token} : t.kind = .word "class" → IsTypeKeyword [t] false
  | interface {t : Token} : t.kind = .word "interface" → IsTypeKeyword [t] false
  | enum {t : Token} : t.kind = .word "enum" → IsTypeKeyword [t] true
  | annotationType {sign t : Token} :
      sign.kind = .symbol '@' → t.kind = .word "interface" → IsTypeKeyword [sign, t] false

/-- What stands between the name of a type and its body: its type variables, and what it extends
    and implements. -/
inductive IsTypeHeader : List Token → List String → Prop
  | bare {s : List Token} :
      IsClause ['\x7b'] s → startsWith (.symbol '<') s = false → IsTypeHeader s []
  | generic {names : List String} {v s : List Token} :
      IsVariables v names → IsClause ['\x7b'] s → IsTypeHeader (v ++ s) names

mutual
/-- A type from its keyword on, where the type variables `outer` are declared around it. -/
inductive IsType : List String → String → List Token → TypeUnit → Prop
  | intro {t opening closing : Token} {outer own : List String} {docs name : String}
      {isEnum : Bool} {k h b : List Token} {ms : List Member} {types : List TypeUnit} :
      IsTypeKeyword k isEnum → t.kind = .word name → IsIdentifier name → IsTypeHeader h own →
      opening.kind = .symbol '\x7b' → IsBody isEnum name (outer ++ own) b ms types →
      closing.kind = .symbol '\x7d' →
      IsType outer docs (k ++ t :: (h ++ opening :: (b ++ [closing])))
        ⟨name, docs, outer ++ own, ms, types⟩
/-- What stands between the braces of a type, with the members and the types in it. -/
inductive IsBody : Bool → String → List String → List Token → List Member → List TypeUnit → Prop
  | items {owner : String} {vars : List String} {s : List Token} {ms : List Member}
      {types : List TypeUnit} :
      IsItems owner vars s ms types → IsBody false owner vars s ms types
  | constants {owner : String} {vars : List String} {s : List Token} {cs : List Member} :
      IsConstants s cs → IsBody true owner vars s cs []
  | constantsAndItems {semicolon : Token} {owner : String} {vars : List String}
      {s s' : List Token} {cs ms : List Member} {types : List TypeUnit} :
      IsConstants s cs → semicolon.kind = .symbol ';' → IsItems owner vars s' ms types →
      IsBody true owner vars (s ++ semicolon :: s') (cs ++ ms) types
/-- Declarations in the body of the type `owner`. -/
inductive IsItems : String → List String → List Token → List Member → List TypeUnit → Prop
  | nil (owner : String) (vars : List String) : IsItems owner vars [] [] []
  | semicolon {t : Token} {owner : String} {vars : List String} {s : List Token}
      {ms : List Member} {types : List TypeUnit} :
      t.kind = .symbol ';' → IsItems owner vars s ms types → IsItems owner vars (t :: s) ms types
  | block {owner : String} {vars : List String} {m g s : List Token} {ms : List Member}
      {types : List TypeUnit} :
      IsModifiers m → IsGroup '\x7b' '\x7d' g → IsItems owner vars s ms types →
      IsItems owner vars (m ++ (g ++ s)) ms types
  | member {owner docs : String} {vars : List String} {m b s : List Token}
      {found ms : List Member} {types : List TypeUnit} :
      IsModifiers m → Documented (m ++ b.take 1) docs → IsMember owner docs b found →
      IsItems owner vars s ms types → IsItems owner vars (m ++ (b ++ s)) (found ++ ms) types
  | type {owner docs : String} {vars : List String} {m b s : List Token} {t : TypeUnit}
      {ms : List Member} {types : List TypeUnit} :
      IsModifiers m → Documented (m ++ b.take 1) docs → IsType vars docs b t →
      IsItems owner vars s ms types → IsItems owner vars (m ++ (b ++ s)) ms (t :: types)
end

/-! ## Section 7: Files -/

/-- The declaration of the package, if it has a name. -/
inductive IsPackage : List Token → String → Prop
  | none : IsPackage [] ""
  | some {t semicolon : Token} {name : String} {s : List Token} :
      t.kind = .word "package" → IsQualifiedName s name → semicolon.kind = .symbol ';' →
      IsPackage (t :: (s ++ [semicolon])) name

/-- Imports. -/
inductive IsImports : List Token → Prop
  | nil : IsImports []
  | more {t semicolon : Token} {s s' : List Token} :
      t.kind = .word "import" → (∀ u ∈ s, u.kind ≠ .symbol ';') → semicolon.kind = .symbol ';' →
      IsImports s' → IsImports (t :: (s ++ semicolon :: s'))

/-- The types of a file. -/
inductive IsTypes : List Token → List TypeUnit → Prop
  | nil : IsTypes [] []
  | semicolon {t : Token} {s : List Token} {types : List TypeUnit} :
      t.kind = .symbol ';' → IsTypes s types → IsTypes (t :: s) types
  | more {docs : String} {m b s : List Token} {t : TypeUnit} {types : List TypeUnit} :
      IsModifiers m → Documented (m ++ b.take 1) docs → IsType [] docs b t → IsTypes s types →
      IsTypes (m ++ (b ++ s)) (t :: types)

/-- A source file. -/
inductive IsSource : List Token → SourceUnit → Prop
  | intro {package : String} {types : List TypeUnit} {s i b : List Token} :
      IsPackage s package → IsImports i → IsTypes b types →
      IsSource (s ++ (i ++ b)) ⟨package, types⟩

end TypeCatalog.Source
