import TypeCatalog.Proofs.Signature.Declaration
import TypeCatalog.Proofs.Signature.Replacement

/-! # What a search looks up

    A lookup may do more than answer: it may count, keep what it was asked or give up. So the search
    is stated here for lookups with any effect. In the text of a type it looks up the variables of
    the type, each where it stands, from left to right and nothing else; the same goes for the texts
    of methods. -/

set_option autoImplicit false

namespace TypeCatalog

/-! ## Section 1: Lookups with effects -/

namespace Signature

section effects

variable {m : Type → Type} [Monad m] (lookup : String → m (Option String))

/-- One piece with what an effectful `lookup` gives for its name. -/
def Piece.substituteM : Piece → m (List Char)
  | .text chars => pure chars
  | .reference name => do
    match ← lookup (String.ofList name) with
    | some replacement => return replacement.toList
    | none => return (Piece.reference name).chars

/-- Pieces with what an effectful `lookup` gives for their names, asked in order. -/
def substitutePieces : List Piece → m (List Char)
  | [] => pure []
  | piece :: rest => do
    let first ← piece.substituteM lookup
    let others ← substitutePieces rest
    return first ++ others

/-- A signature text with the references replaced that an effectful `lookup` knows. -/
def substituteM (signature : String) : m String :=
  String.ofList <$> substitutePieces lookup (pieces signature.toList)

variable [LawfulMonad m]

theorem substitutePieces_append (first others : List Piece) :
    substitutePieces lookup (first ++ others) = do
      let s ← substitutePieces lookup first
      let s' ← substitutePieces lookup others
      return s ++ s' := by
  induction first with
  | nil => simp [substitutePieces]
  | cons piece first ih => simp [substitutePieces, ih, ← List.append_assoc]

theorem substitutePieces_cons_text (chars : List Char) (rest : List Piece) :
    substitutePieces lookup (.text chars :: rest) =
      (chars ++ ·) <$> substitutePieces lookup rest := by
  simp [substitutePieces, Piece.substituteM]

theorem substitutePieces_singleton (piece : Piece) :
    substitutePieces lookup [piece] = piece.substituteM lookup := by
  simp [substitutePieces]

theorem substitutePieces_flatMap {α : Type} (split : α → List Piece) (xs : List α) :
    substitutePieces lookup (xs.flatMap split) =
      List.flatten <$> xs.mapM fun x => substitutePieces lookup (split x) := by
  induction xs with
  | nil => simp [substitutePieces]
  | cons x xs ih => simp [substitutePieces_append, List.mapM_cons, ih]

/-- A lookup without effects gives the search as it runs. -/
theorem substituteM_pure (lookup : String → Option String) (signature : String) :
    substituteM (fun name => (pure (lookup name) : m (Option String))) signature =
      pure (substitute lookup signature) := by
  have hpiece : ∀ piece : Piece,
      piece.substituteM (fun name => (pure (lookup name) : m (Option String))) =
        pure (piece.substitute lookup) := by
    intro piece
    cases piece with
    | text chars => rfl
    | reference name =>
      simp only [Piece.substituteM, Piece.substitute, pure_bind]
      cases lookup (String.ofList name) <;> rfl
  have hpieces : ∀ ps : List Piece,
      substitutePieces (fun name => (pure (lookup name) : m (Option String))) ps =
        pure (ps.flatMap (Piece.substitute lookup)) := by
    intro ps
    induction ps with
    | nil => rfl
    | cons piece ps ih => simp [substitutePieces, hpiece, ih]
  rw [substituteM, hpieces, map_pure, substitute]

end effects

/-! ## Section 2: What is asked -/

/-- The lookup that keeps the names it is asked for, in order. -/
def asking (lookup : String → Option String) (name : String) :
    StateM (List String) (Option String) := do
  modify (· ++ [name])
  return lookup name

/-- The name that a piece refers to. -/
def Piece.name? : Piece → Option String
  | .reference name => some (String.ofList name)
  | .text _ => none

theorem references_eq (signature : String) :
    references signature = (pieces signature.toList).filterMap Piece.name? := by
  rw [references]
  rfl

@[simp]
theorem filterMap_name?_cons_text (chars : List Char) (ps : List Piece) :
    (Piece.text chars :: ps).filterMap Piece.name? = ps.filterMap Piece.name? :=
  rfl

@[simp]
theorem filterMap_name?_cons_reference (name : List Char) (ps : List Piece) :
    (Piece.reference name :: ps).filterMap Piece.name? =
      String.ofList name :: ps.filterMap Piece.name? :=
  rfl

theorem substitutePieces_asking (lookup : String → Option String) (ps : List Piece) :
    ∀ asked : List String, (substitutePieces (asking lookup) ps).run asked =
      (ps.flatMap (Piece.substitute lookup), asked ++ ps.filterMap Piece.name?) := by
  induction ps with
  | nil =>
    intro asked
    simp [substitutePieces]
    rfl
  | cons piece ps ih =>
    intro asked
    cases piece with
    | text chars =>
      simp [substitutePieces, Piece.substituteM, Piece.substitute, ih]
      rfl
    | reference name =>
      cases h : lookup (String.ofList name) with
      | none =>
        simp [substitutePieces, Piece.substituteM, Piece.substitute, asking, ih, h]
        rfl
      | some replacement =>
        simp [substitutePieces, Piece.substituteM, Piece.substitute, asking, ih, h]
        rfl

/-- In any text a search asks for the references, once each and in order. -/
theorem substituteM_asking (lookup : String → Option String) (signature : String)
    (asked : List String) :
    (substituteM (asking lookup) signature).run asked =
      (substitute lookup signature, asked ++ references signature) := by
  rw [references_eq, substituteM, substitute]
  simp [substitutePieces_asking]
  rfl

end Signature

/-! ## Section 3: Replacement along the tree -/

section replaced

variable {m : Type → Type} [Monad m] (lookup : String → m (Option String))

mutual
/-- The characters of a type with its variables looked up from left to right; one that is not known
    stays. -/
def TypeSignature.replacedM : TypeSignature → m (List Char)
  | .primitive p => pure [p.letter]
  | .typeVariable name => do
    match ← lookup name with
    | some replacement => return replacement.toList
    | none => return 'T' :: name.toList ++ [';']
  | .array element => ('[' :: ·) <$> element.replacedM
  | .classType name [] => pure ('L' :: name.toList ++ [';'])
  | .classType name (a :: rest) => do
    let first ← a.replacedM
    let others ← TypeArgument.listReplacedM rest
    return 'L' :: name.toList ++ '<' :: (first ++ others) ++ ['>', ';']
/-- The characters of a type argument with its variables looked up. -/
def TypeArgument.replacedM : TypeArgument → m (List Char)
  | .any => pure ['*']
  | .upper bound => ('+' :: ·) <$> bound.replacedM
  | .lower bound => ('-' :: ·) <$> bound.replacedM
  | .exactly type => type.replacedM
/-- The characters of type arguments with their variables looked up. -/
def TypeArgument.listReplacedM : List TypeArgument → m (List Char)
  | [] => pure []
  | a :: rest => do
    let first ← a.replacedM
    let others ← TypeArgument.listReplacedM rest
    return first ++ others
end

end replaced

mutual
/-- The names of the variables of a type, once for each time they stand there, from left to
    right. -/
def TypeSignature.referredNames : TypeSignature → List String
  | .primitive _ => []
  | .typeVariable name => [name]
  | .array element => element.referredNames
  | .classType _ arguments => TypeArgument.listReferredNames arguments
/-- The names of the variables of a type argument. -/
def TypeArgument.referredNames : TypeArgument → List String
  | .any => []
  | .upper bound => bound.referredNames
  | .lower bound => bound.referredNames
  | .exactly type => type.referredNames
/-- The names of the variables of type arguments. -/
def TypeArgument.listReferredNames : List TypeArgument → List String
  | [] => []
  | a :: rest => a.referredNames ++ TypeArgument.listReferredNames rest
end

open Signature

section pieces

variable {m : Type → Type} [Monad m] [LawfulMonad m] (lookup : String → m (Option String))

mutual
/-- The pieces of a type are replaced as the tree says. The induction is on the type. -/
theorem TypeSignature.substitutePieces_pieces (t : TypeSignature) :
    substitutePieces lookup t.pieces = t.replacedM lookup := by
  match t with
  | .primitive p =>
    rw [TypeSignature.pieces, TypeSignature.replacedM, substitutePieces_singleton,
      Piece.substituteM]
  | .typeVariable name =>
    rw [TypeSignature.pieces, TypeSignature.replacedM, substitutePieces_singleton,
      Piece.substituteM, String.ofList_toList]
    rfl
  | .array element =>
    rw [TypeSignature.pieces, TypeSignature.replacedM, substitutePieces_cons_text,
      element.substitutePieces_pieces]
    rfl
  | .classType name [] =>
    rw [TypeSignature.pieces, TypeSignature.replacedM, substitutePieces_singleton,
      Piece.substituteM]
  | .classType name (a :: rest) =>
    rw [TypeSignature.pieces, TypeSignature.replacedM, substitutePieces_cons_text,
      substitutePieces_append, substitutePieces_append, a.substitutePieces_pieces,
      TypeArgument.substitutePieces_listPieces rest]
    simp [substitutePieces, Piece.substituteM]
theorem TypeArgument.substitutePieces_pieces (a : TypeArgument) :
    substitutePieces lookup a.pieces = a.replacedM lookup := by
  match a with
  | .any =>
    rw [TypeArgument.pieces, TypeArgument.replacedM, substitutePieces_singleton,
      Piece.substituteM]
  | .upper bound =>
    rw [TypeArgument.pieces, TypeArgument.replacedM, substitutePieces_cons_text,
      bound.substitutePieces_pieces]
    rfl
  | .lower bound =>
    rw [TypeArgument.pieces, TypeArgument.replacedM, substitutePieces_cons_text,
      bound.substitutePieces_pieces]
    rfl
  | .exactly type =>
    rw [TypeArgument.pieces, TypeArgument.replacedM, type.substitutePieces_pieces]
theorem TypeArgument.substitutePieces_listPieces (as : List TypeArgument) :
    substitutePieces lookup (TypeArgument.listPieces as) =
      TypeArgument.listReplacedM lookup as := by
  match as with
  | [] => rw [TypeArgument.listPieces, TypeArgument.listReplacedM, substitutePieces]
  | a :: rest =>
    rw [TypeArgument.listPieces, TypeArgument.listReplacedM, substitutePieces_append,
      a.substitutePieces_pieces, TypeArgument.substitutePieces_listPieces rest]
end

end pieces

mutual
theorem TypeSignature.filterMap_name?_pieces (t : TypeSignature) :
    t.pieces.filterMap Piece.name? = t.referredNames := by
  match t with
  | .primitive p => rw [TypeSignature.pieces, TypeSignature.referredNames]; rfl
  | .typeVariable name =>
    rw [TypeSignature.pieces, TypeSignature.referredNames]
    simp
  | .array element =>
    rw [TypeSignature.pieces, TypeSignature.referredNames, ← element.filterMap_name?_pieces]
    rfl
  | .classType name [] =>
    rw [TypeSignature.pieces, TypeSignature.referredNames, TypeArgument.listReferredNames]
    rfl
  | .classType name (a :: rest) =>
    rw [TypeSignature.pieces, TypeSignature.referredNames, TypeArgument.listReferredNames,
      ← a.filterMap_name?_pieces, ← TypeArgument.filterMap_name?_listPieces rest]
    simp
theorem TypeArgument.filterMap_name?_pieces (a : TypeArgument) :
    a.pieces.filterMap Piece.name? = a.referredNames := by
  match a with
  | .any => rw [TypeArgument.pieces, TypeArgument.referredNames]; rfl
  | .upper bound =>
    rw [TypeArgument.pieces, TypeArgument.referredNames, ← bound.filterMap_name?_pieces]
    rfl
  | .lower bound =>
    rw [TypeArgument.pieces, TypeArgument.referredNames, ← bound.filterMap_name?_pieces]
    rfl
  | .exactly type =>
    rw [TypeArgument.pieces, TypeArgument.referredNames, type.filterMap_name?_pieces]
theorem TypeArgument.filterMap_name?_listPieces (as : List TypeArgument) :
    (TypeArgument.listPieces as).filterMap Piece.name? = TypeArgument.listReferredNames as := by
  match as with
  | [] => rw [TypeArgument.listPieces, TypeArgument.listReferredNames]; rfl
  | a :: rest =>
    rw [TypeArgument.listPieces, TypeArgument.listReferredNames, List.filterMap_append,
      a.filterMap_name?_pieces, TypeArgument.filterMap_name?_listPieces rest]
end

/-! ## Section 4: Searches in printed texts -/

/-- A search in the text is the given rendering, whatever the lookup does, and asks for the given
    names. -/
structure Signature.SearchedAs (text : String)
    (rendering : ∀ {m : Type → Type} [Monad m], (String → m (Option String)) → m (List Char))
    (names : List String) : Prop where
  /-- With a lookup of any effect the search does what the rendering does. -/
  effects : ∀ (m : Type → Type) [Monad m] [LawfulMonad m] (lookup : String → m (Option String)),
    substituteM lookup text = String.ofList <$> rendering lookup
  /-- The result is the rendering for a lookup that only answers. -/
  result : ∀ lookup : String → Option String,
    substitute lookup text = String.ofList (Id.run (rendering fun name => pure (lookup name)))
  /-- Each of the names is asked for where it stands, and no other. -/
  asks : ∀ (lookup : String → Option String) (asked : List String),
    (substituteM (asking lookup) text).run asked = (substitute lookup text, asked ++ names)

/-- It is enough to know the pieces of the text. -/
theorem Signature.SearchedAs.of_pieces {text : String}
    {rendering : ∀ {m : Type → Type} [Monad m], (String → m (Option String)) → m (List Char)}
    {names : List String} {ps : List Piece} (hpieces : Signature.pieces text.toList = ps)
    (hrendering : ∀ (m : Type → Type) [Monad m] [LawfulMonad m]
      (lookup : String → m (Option String)), substitutePieces lookup ps = rendering lookup)
    (hnames : ps.filterMap Piece.name? = names) : SearchedAs text rendering names := by
  have heffects : ∀ (m : Type → Type) [Monad m] [LawfulMonad m]
      (lookup : String → m (Option String)),
      substituteM lookup text = String.ofList <$> rendering lookup := by
    intro m _ _ lookup
    rw [substituteM, hpieces, hrendering]
  refine ⟨heffects, ?_, ?_⟩
  · intro lookup
    have hpure := substituteM_pure (m := Id) lookup text
    rw [heffects] at hpure
    exact hpure.symm
  · intro lookup asked
    rw [substituteM_asking, references_eq, hpieces, hnames]

section methods

variable (parameters : List TypeSignature) (result : TypeSignature)
  (exceptions : List TypeSignature)

/-- The text of a method without variables of its own: its parameters in brackets, its result and
    each exception after its mark. -/
def methodText : String :=
  MethodSignature.text
    ⟨[], parameters.map TypeSignature.text, result.text, exceptions.map TypeSignature.text⟩

/-- The pieces of the text of a method. -/
def methodPieces : List Piece :=
  .text ['('] :: (parameters.flatMap TypeSignature.pieces ++ .text [')'] ::
    (result.pieces ++ exceptions.flatMap fun t => .text ['^'] :: t.pieces))

/-- The text of a method with its variables looked up from left to right. -/
def methodReplacedM {m : Type → Type} [Monad m] (lookup : String → m (Option String)) :
    m (List Char) := do
  let inside ← parameters.mapM (TypeSignature.replacedM lookup)
  let after ← result.replacedM lookup
  let thrown ← exceptions.mapM (TypeSignature.replacedM lookup)
  return '(' :: inside.flatten ++ ')' :: (after ++ thrown.flatMap ('^' :: ·))

/-- The names of the variables in the text of a method, from left to right. -/
def methodReferredNames : List String :=
  parameters.flatMap TypeSignature.referredNames ++ result.referredNames ++
    exceptions.flatMap TypeSignature.referredNames

theorem toList_methodText :
    (methodText parameters result exceptions).toList =
      '(' :: (parameters.flatMap TypeSignature.chars ++ ')' :: (result.chars ++
        exceptions.flatMap fun t => '^' :: t.chars)) := by
  rw [methodText, MethodSignature.toList_text]
  simp [TypeVariable.listText, TypeSignature.text, List.flatMap_map]

end methods

/-- A list of texts is taken to its pieces if each of them is, in front of any text. -/
theorem Signature.pieces_flatMap_append {α : Type} {chars : α → List Char} {split : α → List Piece}
    {xs : List α} (h : ∀ x ∈ xs, ∀ rest : List Char,
      Signature.pieces (chars x ++ rest) = split x ++ Signature.pieces rest) (rest : List Char) :
    Signature.pieces (xs.flatMap chars ++ rest) = xs.flatMap split ++ Signature.pieces rest := by
  induction xs with
  | nil => rfl
  | cons x xs ih =>
    have hxs := ih fun y hy => h y (List.mem_cons_of_mem x hy)
    rw [List.flatMap_cons, List.flatMap_cons, List.append_assoc, h x List.mem_cons_self, hxs,
      List.append_assoc]

/-- The names of variables are words, and those of classes have no bracket, semicolon, dot or line
    break. -/
def TypeSignature.CanBeSearched (t : TypeSignature) : Prop := t.WellFormed ∧ t.Searchable

theorem pieces_methodText {parameters : List TypeSignature} {result : TypeSignature}
    {exceptions : List TypeSignature} (hparameters : ∀ t ∈ parameters, t.CanBeSearched)
    (hresult : result.CanBeSearched) (hexceptions : ∀ t ∈ exceptions, t.CanBeSearched) :
    Signature.pieces (methodText parameters result exceptions).toList =
      methodPieces parameters result exceptions := by
  have hplain : ∀ t ∈ parameters, ∀ rest : List Char,
      Signature.pieces (t.chars ++ rest) = t.pieces ++ Signature.pieces rest := by
    intro t ht rest
    exact t.pieces_chars_append (hparameters t ht).1 (hparameters t ht).2 rest
  -- The mark in front of an exception is passed over like any other character.
  have hmarked : ∀ t ∈ exceptions, ∀ rest : List Char,
      Signature.pieces (('^' :: t.chars) ++ rest) =
        (.text ['^'] :: t.pieces) ++ Signature.pieces rest := by
    intro t ht rest
    rw [List.cons_append, pieces_cons (by decide) (by decide),
      t.pieces_chars_append (hexceptions t ht).1 (hexceptions t ht).2, List.cons_append]
  have hthrown := pieces_flatMap_append hmarked []
  rw [List.append_nil, pieces_nil, List.append_nil] at hthrown
  rw [toList_methodText, methodPieces, pieces_cons (by decide) (by decide),
    pieces_flatMap_append hplain, pieces_cons (by decide) (by decide),
    result.pieces_chars_append hresult.1 hresult.2, hthrown]

theorem substitutePieces_methodPieces {m : Type → Type} [Monad m] [LawfulMonad m]
    (lookup : String → m (Option String)) (parameters : List TypeSignature)
    (result : TypeSignature) (exceptions : List TypeSignature) :
    substitutePieces lookup (methodPieces parameters result exceptions) =
      methodReplacedM parameters result exceptions lookup := by
  have hmarked : ∀ ts : List TypeSignature,
      substitutePieces lookup (ts.flatMap fun t => .text ['^'] :: t.pieces) =
        (List.flatMap ('^' :: ·)) <$> ts.mapM (TypeSignature.replacedM lookup) := by
    intro ts
    induction ts with
    | nil => simp [substitutePieces]
    | cons t ts ih =>
      simp [substitutePieces_append, substitutePieces_cons_text, t.substitutePieces_pieces,
        List.mapM_cons, ih]
  rw [methodPieces, methodReplacedM, substitutePieces_cons_text, substitutePieces_append,
    substitutePieces_flatMap, substitutePieces_cons_text, substitutePieces_append,
    result.substitutePieces_pieces, hmarked]
  simp [TypeSignature.substitutePieces_pieces]

theorem filterMap_name?_methodPieces (parameters : List TypeSignature) (result : TypeSignature)
    (exceptions : List TypeSignature) :
    (methodPieces parameters result exceptions).filterMap Piece.name? =
      methodReferredNames parameters result exceptions := by
  rw [methodPieces, methodReferredNames]
  simp [List.filterMap_flatMap, TypeSignature.filterMap_name?_pieces]

/-- Searching the text of a type is going through the type, and the same for methods: references
    are replaced where the variables stand, each is looked up once and in order, and the letters of
    class names and primitive types are never taken for one. -/
theorem printed_searchedAs :
    (∀ t : TypeSignature, t.CanBeSearched →
      SearchedAs t.text (fun lookup => t.replacedM lookup) t.referredNames) ∧
    ∀ (parameters : List TypeSignature) (result : TypeSignature) (exceptions : List TypeSignature),
      (∀ t ∈ parameters ++ result :: exceptions, t.CanBeSearched) →
        SearchedAs (methodText parameters result exceptions)
          (fun lookup => methodReplacedM parameters result exceptions lookup)
          (methodReferredNames parameters result exceptions) := by
  constructor
  · intro t ht
    have hpieces := t.pieces_chars_append ht.1 ht.2 []
    rw [List.append_nil, pieces_nil, List.append_nil, ← String.toList_ofList (l := t.chars)]
      at hpieces
    exact .of_pieces hpieces (fun _ _ _ lookup => t.substitutePieces_pieces lookup)
      t.filterMap_name?_pieces
  · intro parameters result exceptions h
    have hparameters : ∀ t ∈ parameters, t.CanBeSearched := fun t ht => h t (by simp [ht])
    have hexceptions : ∀ t ∈ exceptions, t.CanBeSearched := fun t ht => h t (by simp [ht])
    have hpieces := pieces_methodText hparameters (h result (by simp)) hexceptions
    exact .of_pieces hpieces
      (fun _ _ _ lookup => substitutePieces_methodPieces lookup parameters result exceptions)
      (filterMap_name?_methodPieces parameters result exceptions)

theorem printed_searchedAs_thread :
    (substituteM (asking fun name => if name = "T" then some "LS;" else none)
      "LThread<TT;+[TU;>;").run [] = ("LThread<LS;+[TU;>;", ["T", "U"]) ∧
    (substituteM (asking fun name => if name = "T" then some "LS;" else none)
      "(LThread<TT;+[TU;>;I)TT;^TE;").run [] =
        ("(LThread<LS;+[TU;>;I)LS;^TE;", ["T", "U", "T", "E"]) := by
  have hword : ['T', 'U', 'E'].all Text.isWord = true := by decide +kernel
  simp only [List.all_cons, List.all_nil, Bool.and_true, Bool.and_eq_true] at hword
  have hthread : TypeSignature.CanBeSearched (.classType "Thread"
      [.exactly (.typeVariable "T"), .upper (.array (.typeVariable "U"))]) := by
    simp [TypeSignature.CanBeSearched, TypeSignature.WellFormed, TypeArgument.AllWellFormed,
      TypeArgument.WellFormed, TypeSignature.Searchable, TypeArgument.AllSearchable,
      TypeArgument.Searchable, IsName, hword]
  have hvariable : ∀ name ∈ ["T", "E"], TypeSignature.CanBeSearched (.typeVariable name) := by
    simp [TypeSignature.CanBeSearched, TypeSignature.WellFormed, TypeSignature.Searchable, IsName,
      hword]
  have htype := printed_searchedAs.1 _ hthread
  have hmethod := printed_searchedAs.2 [_, .primitive .int] (.typeVariable "T")
    [.typeVariable "E"] (by
      intro t ht
      simp only [List.cons_append, List.nil_append, List.mem_cons, List.not_mem_nil, or_false] at ht
      rcases ht with rfl | rfl | rfl | rfl
      · exact hthread
      · exact ⟨trivial, trivial⟩
      · exact hvariable "T" (by simp)
      · exact hvariable "E" (by simp))
  constructor
  · have hasks := htype.asks (fun name => if name = "T" then some "LS;" else none) []
    rw [htype.result] at hasks
    exact hasks.trans (Prod.ext (by decide +kernel) (by decide +kernel))
  · have hasks := hmethod.asks (fun name => if name = "T" then some "LS;" else none) []
    rw [hmethod.result] at hasks
    exact hasks.trans (Prod.ext (by decide +kernel) (by decide +kernel))

end TypeCatalog
