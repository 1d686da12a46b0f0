import TypeCatalog.Rest
import TypeCatalog.Source.Token
import TypeCatalog.Source.Unit

/-! # Reading declarations

    A recursive descent over the tokens of a source file, with up to two tokens of lookahead. What
    stands between brackets is passed over as long as brackets of its kind are balanced. A reader
    that cannot go on tells what it wanted and what was left.
-/

set_option autoImplicit false

namespace TypeCatalog.Source

/-! ## Section 1: Readings -/

/-- What was wanted, and the tokens left where it was not found. -/
structure Halt where
  wanted : Wanted
  left : List Token
  deriving DecidableEq

/-- What a reader that takes at least one token gives on `s`. -/
abbrev Reading (α : Type) (s : List Token) := Except Halt (α × Tail s)

/-- What a reader that may take nothing gives on `s`. -/
abbrev LoopReading (α : Type) (s : List Token) := Except Halt (α × Rest s)

/-- An identifier. -/
def identifier (s : List Token) : Reading String s :=
  match s with
  | ⟨.word w, _, _⟩ :: r => .ok (w, .one _ r)
  | s => .error ⟨.identifier, s⟩

/-- One given symbol. -/
def symbol (c : Char) (s : List Token) : Reading Unit s :=
  match s with
  | [] => .error ⟨.symbol c, []⟩
  | t :: r => if t.kind = .symbol c then .ok ((), .one t r) else .error ⟨.symbol c, t :: r⟩

/-- All tokens through one given symbol. -/
def throughSymbol (c : Char) (s : List Token) : Reading Unit s :=
  match s with
  | [] => .error ⟨.symbol c, []⟩
  | t :: r => do
    if t.kind = .symbol c then
      return ((), .one t r)
    let (_, left) ← throughSymbol c r
    return ((), .cons t left.toRest)

/-- The tokens after the bracket that closes a group, where `depth` groups are open inside it. -/
def afterGroup (opening closing : Char) (depth : Nat) (s : List Token) : Option (List Token) :=
  match s with
  | [] => none
  | t :: r =>
    if t.kind = .symbol opening then afterGroup opening closing (depth + 1) r
    else if t.kind = .symbol closing then
      match depth with
      | 0 => some r
      | depth + 1 => afterGroup opening closing depth r
    else afterGroup opening closing depth r

theorem afterGroup_suffix {opening closing : Char} {depth : Nat} {s left : List Token}
    (h : afterGroup opening closing depth s = some left) :
    left <:+ s ∧ left.length < s.length := by
  fun_induction afterGroup opening closing depth s with
  | case1 => simp at h
  | case2 depth t r _ ih =>
    exact ⟨(ih h).1.trans (List.suffix_cons t r), Nat.lt_succ_of_lt (ih h).2⟩
  | case3 t r =>
    cases h
    exact ⟨List.suffix_cons t left, Nat.lt_succ_self _⟩
  | case4 t r _ _ depth ih =>
    exact ⟨(ih h).1.trans (List.suffix_cons t r), Nat.lt_succ_of_lt (ih h).2⟩
  | case5 depth t r _ _ ih =>
    exact ⟨(ih h).1.trans (List.suffix_cons t r), Nat.lt_succ_of_lt (ih h).2⟩

/-- The rest of a group after its opening bracket. -/
def group (opening closing : Char) (s : List Token) : Reading Unit s :=
  match h : afterGroup opening closing 0 s with
  | none => .error ⟨.closing opening, []⟩
  | some left => .ok ((), ⟨⟨left, (afterGroup_suffix h).1⟩, (afterGroup_suffix h).2⟩)

/-- A group in parentheses, if one starts here. -/
def optionalGroup (opening closing : Char) (s : List Token) : LoopReading Unit s :=
  match s with
  | [] => .ok ((), .all [])
  | t :: r => do
    if t.kind = .symbol opening then
      let (_, left) ← group opening closing r
      return ((), (Tail.cons t left.toRest).toRest)
    return ((), .all (t :: r))

/-! ## Section 2: Names, annotations and modifiers -/

/-- The further parts of a qualified name, each after a dot. -/
def furtherNames (s : List Token) : String × Rest s :=
  match s with
  | ⟨.symbol '.', _, _⟩ :: ⟨.word w, _, _⟩ :: r =>
    let (names, left) := furtherNames r
    ("." ++ w ++ names, (Tail.cons _ (Tail.cons _ left).toRest).toRest)
  | s => ("", .all s)

/-- A dotted name. -/
def qualifiedName (s : List Token) : Reading String s := do
  let (first, left) ← identifier s
  let (others, left') := furtherNames left.left
  return (first ++ others, left.append left')

/-- An annotation after its sign: its name and its arguments. -/
def annotation (s : List Token) : Reading Unit s := do
  let (_, left) ← qualifiedName s
  let (_, left') ← optionalGroup '(' ')' left.left
  return ((), left.append left')

/-- The modifiers of one word. -/
def modifierWords : List String :=
  ["public", "protected", "private", "static", "final", "abstract", "native", "synchronized",
    "transient", "volatile", "strictfp", "default", "sealed"]

/-- Modifiers and annotations in any order. The sign of an annotation type is none. -/
def modifiers (s : List Token) : LoopReading Unit s :=
  match s with
  | ⟨.word "non", _, _⟩ :: ⟨.symbol '-', _, _⟩ :: ⟨.word "sealed", _, _⟩ :: r => do
    let (_, left) ← modifiers r
    return ((), (Tail.cons _ (Tail.cons _ (Tail.cons _ left).toRest).toRest).toRest)
  | ⟨.symbol '@', p, d⟩ :: ⟨.word "interface", p', d'⟩ :: r =>
    .ok ((), .all (⟨.symbol '@', p, d⟩ :: ⟨.word "interface", p', d'⟩ :: r))
  | ⟨.symbol '@', _, _⟩ :: r => do
    let (_, left) ← annotation r
    let (_, left') ← modifiers left.left
    return ((), (Tail.cons _ (left.append left').toRest).toRest)
  | ⟨.word w, p, d⟩ :: r => do
    if w ∈ modifierWords then
      let (_, left) ← modifiers r
      return ((), (Tail.cons _ left).toRest)
    return ((), .all (⟨.word w, p, d⟩ :: r))
  | s => .ok ((), .all s)
termination_by s.length
decreasing_by
  · simp only [List.length_cons]
    omega
  · have := left.lt
    simp only [List.length_cons]
    omega
  · simp

/-! ## Section 3: Types and parameters -/

/-- What goes on with the name of a type: type arguments, further parts, annotations of parts. The
    last part is its name. -/
def furtherParts (name : String) (s : List Token) : LoopReading String s :=
  match s with
  | ⟨.symbol '<', _, _⟩ :: r => do
    let (_, left) ← group '<' '>' r
    let (last, left') ← furtherParts name left.left
    return (last, (Tail.cons _ (left.append left').toRest).toRest)
  | ⟨.symbol '.', _, _⟩ :: ⟨.word w, _, _⟩ :: r => do
    let (last, left) ← furtherParts w r
    return (last, (Tail.cons _ (Tail.cons _ left).toRest).toRest)
  | ⟨.symbol '.', _, _⟩ :: ⟨.symbol '@', _, _⟩ :: r => do
    let (_, left) ← annotation r
    let (last, left') ← furtherParts name left.left
    return (last, (Tail.cons _ (Tail.cons _ (left.append left').toRest).toRest).toRest)
  | s => .ok (name, .all s)
termination_by s.length
decreasing_by
  · have := left.lt
    simp only [List.length_cons]
    omega
  · simp only [List.length_cons]
    omega
  · have := left.lt
    simp only [List.length_cons]
    omega

/-- The dimensions after a type. The dots of variable arity count as one. -/
def dimensions (s : List Token) : LoopReading Nat s :=
  match s with
  | ⟨.symbol '[', _, _⟩ :: ⟨.symbol ']', _, _⟩ :: r => do
    let (n, left) ← dimensions r
    return (n + 1, (Tail.cons _ (Tail.cons _ left).toRest).toRest)
  | ⟨.symbol '.', _, _⟩ :: ⟨.symbol '.', _, _⟩ :: ⟨.symbol '.', _, _⟩ :: r => do
    let (n, left) ← dimensions r
    return (n + 1, (Tail.cons _ (Tail.cons _ (Tail.cons _ left).toRest).toRest).toRest)
  | ⟨.symbol '@', _, _⟩ :: r => do
    let (_, left) ← annotation r
    let (n, left') ← dimensions left.left
    return (n, (Tail.cons _ (left.append left').toRest).toRest)
  | s => .ok (0, .all s)
termination_by s.length
decreasing_by
  · simp only [List.length_cons]
    omega
  · simp only [List.length_cons]
    omega
  · have := left.lt
    simp only [List.length_cons]
    omega

/-- A type. -/
def writtenType (s : List Token) : Reading WrittenType s := do
  let (_, left) ← modifiers s
  let (first, left') ← identifier left.left
  let (last, left'') ← furtherParts first left'.left
  let (n, left''') ← dimensions left''.left
  return (⟨last, n⟩, left.before (left'.append (left''.append left''')))

/-- The dimensions after the name of a parameter. -/
def nameDimensions (s : List Token) : Nat × Rest s :=
  match s with
  | ⟨.symbol '[', _, _⟩ :: ⟨.symbol ']', _, _⟩ :: r =>
    let (n, left) := nameDimensions r
    (n + 1, (Tail.cons _ (Tail.cons _ left).toRest).toRest)
  | s => (0, .all s)

/-- One parameter. -/
def parameter (s : List Token) : Reading Parameter s := do
  let (type, left) ← writtenType s
  let (name, left') ← identifier left.left
  let (n, left'') := nameDimensions left'.left
  return (⟨name, { type with dimensions := type.dimensions + n }⟩,
    left.append (left'.append left'').toRest)

/-- What follows a parameter: a comma, which is taken, or the closing parenthesis, which is not. -/
def separator (s : List Token) : LoopReading Unit s :=
  match s with
  | ⟨.symbol ',', _, _⟩ :: r => .ok ((), (Tail.one _ r).toRest)
  | ⟨.symbol ')', p, d⟩ :: r => .ok ((), .all (⟨.symbol ')', p, d⟩ :: r))
  | s => .error ⟨.parameterSeparator, s⟩

/-- The parameters through the closing parenthesis. The receiver is none of them. -/
def parameters (s : List Token) : Reading (List Parameter) s :=
  match s with
  | ⟨.symbol ')', _, _⟩ :: r => .ok ([], .one _ r)
  | s => do
    let (p, left) ← parameter s
    let (_, left') ← separator left.left
    let (ps, left'') ← parameters left'.left
    let kept := if p.name = "this" then ps else p :: ps
    return (kept, left.append (left'.append left''.toRest))
termination_by s.length
decreasing_by
  have := left.lt
  have := left'.length_le
  omega

/-- The names of type variables after the opening bracket of their list, where `depth` lists of
    arguments are open inside it and `first` tells whether a name comes next. -/
def variableNames (depth : Nat) (first : Bool) (s : List Token) : Reading (List String) s :=
  match s with
  | [] => .error ⟨.typeParametersEnd, []⟩
  | ⟨.symbol '<', _, _⟩ :: r => do
    let (names, left) ← variableNames (depth + 1) false r
    return (names, .cons _ left.toRest)
  | ⟨.symbol '>', _, _⟩ :: r =>
    match depth with
    | 0 => .ok ([], .one _ r)
    | depth + 1 => do
      let (names, left) ← variableNames depth first r
      return (names, .cons _ left.toRest)
  | ⟨.symbol ',', _, _⟩ :: r => do
    let (names, left) ← variableNames depth (first || depth == 0) r
    return (names, .cons _ left.toRest)
  | ⟨.symbol '@', _, _⟩ :: r => do
    let (_, left) ← annotation r
    let (names, left') ← variableNames depth first left.left
    return (names, .cons _ (left.append left'.toRest).toRest)
  | ⟨.word w, _, _⟩ :: r => do
    let (names, left) ← variableNames depth false r
    return (if first then w :: names else names, .cons _ left.toRest)
  | _ :: r => do
    let (names, left) ← variableNames depth first r
    return (names, .cons _ left.toRest)
termination_by s.length
decreasing_by
  · simp
  · simp
  · simp
  · have := left.lt
    simp only [List.length_cons]
    omega
  · simp
  · simp

/-- The names of declared type variables, if their list starts here. -/
def optionalVariables (s : List Token) : LoopReading (List String) s :=
  match s with
  | ⟨.symbol '<', _, _⟩ :: r => do
    let (names, left) ← variableNames 0 true r
    return (names, (Tail.cons _ left.toRest).toRest)
  | s => .ok ([], .all s)

/-! ## Section 4: Members -/

/-- What follows the parameters of a method, through its body or the semicolon. -/
def methodTail (s : List Token) : Reading Unit s :=
  match s with
  | [] => .error ⟨.methodEnd, []⟩
  | ⟨.symbol ';', _, _⟩ :: r => .ok ((), .one _ r)
  | ⟨.symbol '\x7b', _, _⟩ :: r => do
    let (_, left) ← group '\x7b' '\x7d' r
    return ((), .cons _ left.toRest)
  | ⟨.symbol '(', _, _⟩ :: r => do
    let (_, left) ← group '(' ')' r
    let (_, left') ← methodTail left.left
    return ((), .cons _ (left.append left'.toRest).toRest)
  | _ :: r => do
    let (_, left) ← methodTail r
    return ((), .cons _ left.toRest)
termination_by s.length
decreasing_by
  · have := left.lt
    simp only [List.length_cons]
    omega
  · simp

/-- Whether the next field of a declaration starts here, and not a further type argument. -/
def startsField (s : List Token) : Bool :=
  match s with
  | ⟨.word _, _, _⟩ :: ⟨.symbol c, _, _⟩ :: _ => c = '=' || c = ',' || c = ';' || c = '['
  | _ => false

/-- The initialiser of a field after the equals sign, up to what ends it. -/
def initialiser (s : List Token) : LoopReading Unit s :=
  match s with
  | [] => .error ⟨.initializerEnd, []⟩
  | ⟨.symbol ';', p, d⟩ :: r => .ok ((), .all (⟨.symbol ';', p, d⟩ :: r))
  | ⟨.symbol '(', _, _⟩ :: r => do
    let (_, left) ← group '(' ')' r
    let (_, left') ← initialiser left.left
    return ((), (Tail.cons _ (left.append left').toRest).toRest)
  | ⟨.symbol '\x7b', _, _⟩ :: r => do
    let (_, left) ← group '\x7b' '\x7d' r
    let (_, left') ← initialiser left.left
    return ((), (Tail.cons _ (left.append left').toRest).toRest)
  | ⟨.symbol '[', _, _⟩ :: r => do
    let (_, left) ← group '[' ']' r
    let (_, left') ← initialiser left.left
    return ((), (Tail.cons _ (left.append left').toRest).toRest)
  | t :: r => do
    if t.kind = .symbol ',' ∧ startsField r then
      return ((), .all (t :: r))
    let (_, left) ← initialiser r
    return ((), (Tail.cons _ left).toRest)
termination_by s.length
decreasing_by
  · have := left.lt
    simp only [List.length_cons]
    omega
  · have := left.lt
    simp only [List.length_cons]
    omega
  · have := left.lt
    simp only [List.length_cons]
    omega
  · simp

/-- What follows the name of a field, through the semicolon: the names of the further fields of the
    same declaration. -/
def furtherFields (s : List Token) : Reading (List String) s :=
  match s with
  | ⟨.symbol ';', _, _⟩ :: r => .ok ([], .one _ r)
  | ⟨.symbol ',', _, _⟩ :: r => do
    let (name, left) ← identifier r
    let (names, left') ← furtherFields left.left
    return (name :: names, .cons _ (left.append left'.toRest).toRest)
  | ⟨.symbol '=', _, _⟩ :: r => do
    let (_, left) ← initialiser r
    let (names, left') ← furtherFields left.left
    return (names, .cons _ (left.before left').toRest)
  | ⟨.symbol '[', _, _⟩ :: r => do
    let (_, left) ← group '[' ']' r
    let (names, left') ← furtherFields left.left
    return (names, .cons _ (left.append left'.toRest).toRest)
  | s => .error ⟨.fieldDeclaration, s⟩
termination_by s.length
decreasing_by
  · have := left.lt
    simp only [List.length_cons]
    omega
  · have := left.length_le
    simp only [List.length_cons]
    omega
  · have := left.lt
    simp only [List.length_cons]
    omega

/-- The parameters and the body of a method or a constructor, after the opening parenthesis. -/
def callable (kind : MemberKind) (docs name : String) (typeVariables : List String)
    (s : List Token) : Reading (List Member) s := do
  let (found, left) ← parameters s
  let (_, left') ← methodTail left.left
  return ([⟨kind, name, docs, typeVariables, found⟩], left.append left'.toRest)

/-- What follows the name of a member that is no constructor. -/
def afterMemberName (docs name : String) (typeVariables : List String) (s : List Token) :
    Reading (List Member) s :=
  match s with
  | ⟨.symbol '(', _, _⟩ :: r => do
    let (found, left) ← callable .method docs name typeVariables r
    return (found, .cons _ left.toRest)
  | s => do
    let (names, left) ← furtherFields s
    return ((name :: names).map (Member.ofField docs), left)

/-- A method or fields, from their type on. -/
def typedMembers (docs : String) (typeVariables : List String) (s : List Token) :
    Reading (List Member) s := do
  let (_, left) ← writtenType s
  let (name, left') ← identifier left.left
  let (found, left'') ← afterMemberName docs name typeVariables left'.left
  return (found, left.append (left'.append left''.toRest).toRest)

/-- The members of one declaration after its type variables. A constructor has the name of the type
    `owner` and no type. -/
def membersAfterVariables (owner docs : String) (typeVariables : List String) (s : List Token) :
    Reading (List Member) s :=
  match s with
  | ⟨.word w, p, d⟩ :: ⟨.symbol '(', p', d'⟩ :: r => do
    if w = owner then
      let (found, left) ← callable .constructor docs owner typeVariables r
      return (found, .cons _ (Tail.cons _ left.toRest).toRest)
    typedMembers docs typeVariables (⟨.word w, p, d⟩ :: ⟨.symbol '(', p', d'⟩ :: r)
  | s => typedMembers docs typeVariables s

/-- What stands between modifiers and a member: its type variables, with further modifiers. -/
def memberVariables (s : List Token) : LoopReading (List String) s :=
  match s with
  | ⟨.symbol '<', _, _⟩ :: r => do
    let (names, left) ← variableNames 0 true r
    let (_, left') ← modifiers left.left
    return (names, (Tail.cons _ (left.append left').toRest).toRest)
  | s => .ok ([], .all s)

/-- The members of one declaration. -/
def members (owner docs : String) (s : List Token) : Reading (List Member) s := do
  let (typeVariables, left) ← memberVariables s
  let (found, left') ← membersAfterVariables owner docs typeVariables left.left
  return (found, left.before left')

/-! ## Section 5: Types -/

/-- The documentation of a declaration: the first one that waits at a token from its start to the
    one after its modifiers. -/
def docsBetween (s left : List Token) : String :=
  match (takenBefore s left ++ left.take 1).findSome? Token.docs with
  | some comment => docsText comment
  | none => ""

/-- One enum constant with its arguments and its body. -/
def enumConstant (s : List Token) : Reading Member s := do
  let (_, left) ← modifiers s
  let (name, left') ← identifier left.left
  let (_, left'') ← optionalGroup '(' ')' left'.left
  let (_, left''') ← optionalGroup '\x7b' '\x7d' left''.left
  return (.ofField (docsBetween s left.left) name,
    left.before (left'.append (left''.append left''')))

/-- The constants of an enum, through the semicolon after them or up to the end of the body. -/
def enumConstants (s : List Token) : LoopReading (List Member) s :=
  match s with
  | [] => .error ⟨.enumBodyEnd, []⟩
  | ⟨.symbol ';', _, _⟩ :: r => .ok ([], (Tail.one _ r).toRest)
  | ⟨.symbol '\x7d', p, d⟩ :: r => .ok ([], .all (⟨.symbol '\x7d', p, d⟩ :: r))
  | ⟨.symbol ',', _, _⟩ :: r => do
    let (others, left) ← enumConstants r
    return (others, (Tail.cons _ left).toRest)
  | s => do
    let (constant, left) ← enumConstant s
    let (others, left') ← enumConstants left.left
    return (constant :: others, (left.append left').toRest)
termination_by s.length
decreasing_by
  · simp
  · exact left.lt

/-- The constants of a type: only an enum has some. -/
def constantsOf (keyword : String) (s : List Token) : LoopReading (List Member) s :=
  if keyword = "enum" then enumConstants s else .ok ([], .all s)

/-- What stands between the type variables of a type and its body, with the opening brace. -/
def typeHeader (s : List Token) : Reading Unit s :=
  match s with
  | [] => .error ⟨.typeBody, []⟩
  | ⟨.symbol '\x7b', _, _⟩ :: r => .ok ((), .one _ r)
  | ⟨.symbol '(', _, _⟩ :: r => do
    let (_, left) ← group '(' ')' r
    let (_, left') ← typeHeader left.left
    return ((), .cons _ (left.append left'.toRest).toRest)
  | _ :: r => do
    let (_, left) ← typeHeader r
    return ((), .cons _ left.toRest)
termination_by s.length
decreasing_by
  · have := left.lt
    simp only [List.length_cons]
    omega
  · simp

/-- What one declaration in a body gives. -/
inductive Declared where
  /-- An initialiser block or a lone semicolon. -/
  | nothing
  | type (t : TypeUnit)
  | members (ms : List Member)

/-- The members that a declaration gives. -/
def Declared.memberList : Declared → List Member
  | members ms => ms
  | _ => []

/-- The type that a declaration gives. -/
def Declared.type? : Declared → Option TypeUnit
  | type t => some t
  | _ => none

/-- The words that start the declaration of a type. -/
def typeWords : List String := ["class", "interface", "enum", "record"]

mutual
/-- A type from its keyword on. -/
def typeUnit (docs : String) (outer : List String) (s : List Token) : Reading TypeUnit s := do
  let (keyword, left) ← identifier s
  let (name, left₂) ← identifier left.left
  let (own, left₃) ← optionalVariables left₂.left
  let (_, left₄) ← typeHeader left₃.left
  let (constants, left₅) ← constantsOf keyword left₄.left
  let (found, left₆) ← body name (outer ++ own) left₅.left
  return (⟨name, docs, outer ++ own, constants ++ found.flatMap Declared.memberList,
      found.filterMap Declared.type?⟩,
    left.append (left₂.append
      (left₃.before (left₄.append (left₅.append left₆.toRest))).toRest).toRest)
termination_by 4 * s.length
decreasing_by
  have := left.lt
  have := left₂.lt
  have := left₃.length_le
  have := left₄.lt
  have := left₅.length_le
  omega
/-- The declarations of a body through its closing brace. -/
def body (owner : String) (typeVariables : List String) (s : List Token) :
    Reading (List Declared) s :=
  match s with
  | [] => .error ⟨.typeBodyEnd, []⟩
  | ⟨.symbol '\x7d', _, _⟩ :: r => .ok ([], .one _ r)
  | s => do
    let (first, left) ← declaration owner typeVariables s
    let (others, left') ← body owner typeVariables left.left
    return (first :: others, left.append left'.toRest)
termination_by 4 * s.length + 3
decreasing_by
  · omega
  · have := left.lt
    omega
/-- A declaration with its modifiers. -/
def declaration (owner : String) (typeVariables : List String) (s : List Token) :
    Reading Declared s := do
  let (_, left) ← modifiers s
  let (found, left') ← bareDeclaration owner (docsBetween s left.left) typeVariables left.left
  return (found, left.before left')
termination_by 4 * s.length + 2
decreasing_by
  have := left.length_le
  omega
/-- A declaration after its modifiers. -/
def bareDeclaration (owner docs : String) (typeVariables : List String) (s : List Token) :
    Reading Declared s :=
  match s with
  | ⟨.symbol '\x7b', _, _⟩ :: r => do
    let (_, left) ← group '\x7b' '\x7d' r
    return (.nothing, .cons _ left.toRest)
  | ⟨.symbol ';', _, _⟩ :: r => .ok (.nothing, .one _ r)
  | ⟨.symbol '@', _, _⟩ :: r => do
    let (t, left) ← typeUnit docs typeVariables r
    return (.type t, .cons _ left.toRest)
  | ⟨.word w, p, d⟩ :: r => do
    if w ∈ typeWords then
      let (t, left) ← typeUnit docs typeVariables (⟨.word w, p, d⟩ :: r)
      return (.type t, left)
    let (found, left) ← members owner docs (⟨.word w, p, d⟩ :: r)
    return (.members found, left)
  | s => do
    let (found, left) ← members owner docs s
    return (.members found, left)
termination_by 4 * s.length + 1
decreasing_by
  · simp only [List.length_cons]
    omega
  · omega
end

/-! ## Section 6: Files -/

/-- A source file from some point on, where the package declared last is the given one. -/
def sourceUnit (package : String) (s : List Token) : Except Halt SourceUnit :=
  match s with
  | [] => .ok ⟨package, []⟩
  | ⟨.symbol ';', _, _⟩ :: r => sourceUnit package r
  | ⟨.word "package", _, _⟩ :: r => do
    let (name, left) ← qualifiedName r
    let (_, left') ← symbol ';' left.left
    sourceUnit name left'.left
  | ⟨.word "import", _, _⟩ :: r => do
    let (_, left) ← throughSymbol ';' r
    sourceUnit package left.left
  | s => do
    let (found, left) ← declaration "" [] s
    let u ← sourceUnit package left.left
    return { u with types := found.type?.toList ++ u.types }
termination_by s.length
decreasing_by
  · simp
  · have := left.lt
    have := left'.lt
    simp only [List.length_cons]
    omega
  · have := left.lt
    simp only [List.length_cons]
    omega
  · exact left.lt

/-- Place a halt in the text that the tokens are of. -/
def Halt.inText (text : List Char) (h : Halt) : Error :=
  match h.left with
  | [] => ⟨Text.Utf8.size text, .unexpected h.wanted none⟩
  | t :: _ => ⟨t.position, .unexpected h.wanted (some t.kind)⟩

/-- The declarations of a source text. -/
def SourceUnit.parse (text : String) : Except Error SourceUnit := do
  let tokens ← lex text.toList
  (sourceUnit "" tokens).mapError (Halt.inText text.toList)

end TypeCatalog.Source
