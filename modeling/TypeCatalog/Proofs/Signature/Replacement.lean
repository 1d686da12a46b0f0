import TypeCatalog.Signature.Substitution
import TypeCatalog.Proofs.Signature.RoundTrip

/-! # Searching the text of a type

    The search for references reads a text without knowing the grammar of types. In the text of a
    type it finds all references and nothing else, if the names of variables are words and no name
    of a class has a line break. So replacing references in the text is replacing variables in the
    tree. -/

set_option autoImplicit false

namespace TypeCatalog

/-! ## Section 1: Types whose text can be searched -/

mutual
/-- The names of variables are words, and those of classes stand on one line. -/
def TypeSignature.Searchable : TypeSignature → Prop
  | .primitive _ => True
  | .typeVariable name => name ≠ "" ∧ ∀ ch ∈ name.toList, Text.isWord ch = true
  | .array element => element.Searchable
  | .classType name arguments => '\n' ∉ name.toList ∧ TypeArgument.AllSearchable arguments
/-- A type argument can be searched. -/
def TypeArgument.Searchable : TypeArgument → Prop
  | .any => True
  | .upper bound => bound.Searchable
  | .lower bound => bound.Searchable
  | .exactly type => type.Searchable
/-- Several type arguments can be searched. -/
def TypeArgument.AllSearchable : List TypeArgument → Prop
  | [] => True
  | a :: rest => a.Searchable ∧ TypeArgument.AllSearchable rest
end

mutual
/-- The pieces of the text of a type. -/
def TypeSignature.pieces : TypeSignature → List Signature.Piece
  | .primitive p => [.text [p.letter]]
  | .typeVariable name => [.reference name.toList]
  | .array element => .text ['['] :: element.pieces
  | .classType name [] => [.text ('L' :: name.toList ++ [';'])]
  | .classType name (a :: rest) =>
    .text ('L' :: name.toList ++ ['<']) ::
      (a.pieces ++ TypeArgument.listPieces rest ++ [.text ['>'], .text [';']])
/-- The pieces of the text of a type argument. -/
def TypeArgument.pieces : TypeArgument → List Signature.Piece
  | .any => [.text ['*']]
  | .upper bound => .text ['+'] :: bound.pieces
  | .lower bound => .text ['-'] :: bound.pieces
  | .exactly type => type.pieces
/-- The pieces of the text of type arguments. -/
def TypeArgument.listPieces : List TypeArgument → List Signature.Piece
  | [] => []
  | a :: rest => a.pieces ++ TypeArgument.listPieces rest
end

/-! ## Section 2: The search -/

namespace Signature

theorem pieces_nil : pieces [] = [] := by
  rw [pieces]

theorem pieces_cons {ch : Char} (hclass : ch ≠ 'L') (hvariable : ch ≠ 'T') (rest : List Char) :
    pieces (ch :: rest) = .text [ch] :: pieces rest := by
  rw [pieces]
  · exact hclass
  · exact hvariable

/-- A run of characters that pass ends at the first one that does not. -/
theorem takeWhile_append_cons {p : Char → Bool} {run rest : List Char} {ch : Char}
    (hrun : ∀ x ∈ run, p x = true) (hch : p ch = false) :
    (run ++ ch :: rest).takeWhile p = run := by
  rw [List.takeWhile_append_of_pos hrun, List.takeWhile_cons_of_neg (by simp [hch]),
    List.append_nil]

/-- Characters after an `L` that do not end what the search takes for the name of a class. -/
def IsClassRun (run : List Char) : Prop := ∀ ch ∈ run, ch ∉ ['<', ';', '\n']

theorem IsClassRun.append {run run' : List Char} (h : IsClassRun run) (h' : IsClassRun run') :
    IsClassRun (run ++ run') := by
  intro ch hch
  rcases List.mem_append.1 hch with hch | hch
  · exact h ch hch
  · exact h' ch hch

theorem IsClassName.isClassRun {name : String} (hname : IsClassName name)
    (hline : '\n' ∉ name.toList) : IsClassRun name.toList := by
  intro ch hch hmem
  simp only [List.mem_cons, List.not_mem_nil, or_false] at hmem
  rcases hmem with rfl | rfl | rfl
  · exact hname.2 '<' (by decide) hch
  · exact hname.2 ';' (by decide) hch
  · exact hline hch

theorem IsClassName.toList_ne_nil {name : String} (hname : IsClassName name) : name.toList ≠ [] :=
  fun h => hname.1 (String.toList_eq_nil_iff.1 h)

/-- A run after an `L` is passed over together with the character that ends it. -/
theorem classNameLength?_append {run : List Char} (hne : run ≠ []) (hrun : IsClassRun run)
    {ch : Char} (hch : ch = '<' ∨ ch = ';') (rest : List Char) :
    classNameLength? (run ++ ch :: rest) = some (run.length + 1) := by
  cases run with
  | nil => exact absurd rfl hne
  | cons first tail =>
    -- The first character is passed over whatever it is, as long as it does not break the line.
    have hfirst : first ≠ '\n' := fun h => hrun first List.mem_cons_self (by simp [h])
    have htail : ∀ x ∈ tail, (x != '<' && x != ';' && x != '\n') = true := by
      intro x hx
      have hmem := hrun x (List.mem_cons_of_mem first hx)
      simp only [List.mem_cons, List.not_mem_nil, or_false, not_or] at hmem
      simp [hmem]
    have hstop : (ch != '<' && ch != ';' && ch != '\n') = false := by
      rcases hch with rfl | rfl <;> decide
    rw [List.cons_append, classNameLength?, if_neg hfirst]
    simp only [takeWhile_append_cons htail hstop, List.drop_left]
    rcases hch with rfl | rfl <;> rfl

theorem pieces_class {run : List Char} (hne : run ≠ []) (hrun : IsClassRun run) {ch : Char}
    (hch : ch = '<' ∨ ch = ';') (rest : List Char) :
    pieces ('L' :: run ++ ch :: rest) = .text ('L' :: run ++ [ch]) :: pieces rest := by
  have hsplit : run ++ ch :: rest = (run ++ [ch]) ++ rest := by simp
  have hlength : run.length + 1 = (run ++ [ch]).length := by simp
  rw [List.cons_append, pieces, classNameLength?_append hne hrun hch]
  simp only [hlength]
  rw [hsplit, List.take_left, List.drop_left, List.cons_append]

theorem referenceName?_append {word : List Char} (hne : word ≠ [])
    (hword : ∀ ch ∈ word, Text.isWord ch = true) (rest : List Char) :
    referenceName? (word ++ ';' :: rest) = some word := by
  have hstop : Text.isWord ';' = false := by decide +kernel
  unfold referenceName?
  simp only [takeWhile_append_cons hword hstop, List.drop_left]
  cases word with
  | nil => exact absurd rfl hne
  | cons ch word => rfl

theorem pieces_variable {word : List Char} (hne : word ≠ [])
    (hword : ∀ ch ∈ word, Text.isWord ch = true) (rest : List Char) :
    pieces ('T' :: word ++ ';' :: rest) = .reference word :: pieces rest := by
  have hsplit : word ++ ';' :: rest = (word ++ [';']) ++ rest := by simp
  have hlength : word.length + 1 = (word ++ [';']).length := by simp
  rw [List.cons_append, pieces, referenceName?_append hne hword]
  simp only [hlength]
  rw [hsplit, List.drop_left]

end Signature

/-! ## Section 3: The pieces of a printed type -/

open Signature

mutual
/-- In front of any text the search takes the text of a type to its pieces. The induction is on the
    type. -/
theorem TypeSignature.pieces_chars_append (t : TypeSignature) (ht : t.WellFormed)
    (hsearch : t.Searchable) (rest : List Char) :
    Signature.pieces (t.chars ++ rest) = t.pieces ++ Signature.pieces rest := by
  match t with
  | .primitive p =>
    rw [TypeSignature.chars, TypeSignature.pieces]
    exact pieces_cons (by cases p <;> decide) (by cases p <;> decide) rest
  | .typeVariable name =>
    obtain ⟨hne, hword⟩ := hsearch
    have hchars : name.toList ≠ [] := fun h => hne (String.toList_eq_nil_iff.1 h)
    rw [TypeSignature.chars, TypeSignature.pieces, List.append_assoc]
    exact pieces_variable hchars hword rest
  | .array element =>
    rw [TypeSignature.chars, TypeSignature.pieces, List.cons_append, List.cons_append,
      pieces_cons (by decide) (by decide), element.pieces_chars_append ht hsearch]
  | .classType name [] =>
    rw [TypeSignature.chars, TypeSignature.pieces, List.append_assoc]
    exact pieces_class ht.1.toList_ne_nil (ht.1.isClassRun hsearch.1) (.inr rfl) rest
  | .classType name (a :: args) =>
    obtain ⟨hname, ha, hargs⟩ := ht
    obtain ⟨hline, hsearcha, hsearchargs⟩ := hsearch
    -- The search knows nothing of brackets: the two characters that close the type are passed over.
    have hclose : Signature.pieces ('>' :: ';' :: rest) =
        .text ['>'] :: .text [';'] :: Signature.pieces rest := by
      rw [pieces_cons (by decide) (by decide), pieces_cons (by decide) (by decide)]
    have htext : (TypeSignature.classType name (a :: args)).chars ++ rest =
        'L' :: name.toList ++ '<' :: (a.chars ++ (TypeArgument.listChars args ++
          '>' :: ';' :: rest)) := by simp [TypeSignature.chars]
    rw [htext, pieces_class hname.toList_ne_nil (hname.isClassRun hline) (.inl rfl),
      a.pieces_chars_append ha hsearcha,
      TypeArgument.pieces_listChars_append args hargs hsearchargs, hclose, TypeSignature.pieces]
    simp
theorem TypeArgument.pieces_chars_append (a : TypeArgument) (ha : a.WellFormed)
    (hsearch : a.Searchable) (rest : List Char) :
    Signature.pieces (a.chars ++ rest) = a.pieces ++ Signature.pieces rest := by
  match a with
  | .any =>
    rw [TypeArgument.chars, TypeArgument.pieces]
    exact pieces_cons (by decide) (by decide) rest
  | .upper bound =>
    rw [TypeArgument.chars, TypeArgument.pieces, List.cons_append, List.cons_append,
      pieces_cons (by decide) (by decide), bound.pieces_chars_append ha hsearch]
  | .lower bound =>
    rw [TypeArgument.chars, TypeArgument.pieces, List.cons_append, List.cons_append,
      pieces_cons (by decide) (by decide), bound.pieces_chars_append ha hsearch]
  | .exactly type =>
    rw [TypeArgument.chars, TypeArgument.pieces, type.pieces_chars_append ha hsearch]
theorem TypeArgument.pieces_listChars_append (as : List TypeArgument)
    (has : TypeArgument.AllWellFormed as) (hsearch : TypeArgument.AllSearchable as)
    (rest : List Char) :
    Signature.pieces (TypeArgument.listChars as ++ rest) =
      TypeArgument.listPieces as ++ Signature.pieces rest := by
  match as with
  | [] =>
    rw [TypeArgument.listChars, TypeArgument.listPieces, List.nil_append, List.nil_append]
  | a :: as =>
    rw [TypeArgument.listChars, TypeArgument.listPieces, List.append_assoc,
      a.pieces_chars_append has.1 hsearch.1,
      TypeArgument.pieces_listChars_append as has.2 hsearch.2, List.append_assoc]
end

/-! ## Section 4: Replacement in trees -/

mutual
/-- A type with some of its variables replaced by types. -/
def TypeSignature.graft (f : String → Option TypeSignature) : TypeSignature → TypeSignature
  | .primitive p => .primitive p
  | .typeVariable name => (f name).getD (.typeVariable name)
  | .array element => .array (element.graft f)
  | .classType name arguments => .classType name (TypeArgument.graftAll f arguments)
/-- A type argument with some of its variables replaced. -/
def TypeArgument.graft (f : String → Option TypeSignature) : TypeArgument → TypeArgument
  | .any => .any
  | .upper bound => .upper (bound.graft f)
  | .lower bound => .lower (bound.graft f)
  | .exactly type => .exactly (type.graft f)
/-- Type arguments with some of their variables replaced. -/
def TypeArgument.graftAll (f : String → Option TypeSignature) :
    List TypeArgument → List TypeArgument
  | [] => []
  | a :: rest => a.graft f :: TypeArgument.graftAll f rest
end

section graft

variable {f : String → Option TypeSignature}

mutual
theorem TypeSignature.WellFormed.graft (hf : ∀ name u, f name = some u → u.WellFormed)
    {t : TypeSignature} (ht : t.WellFormed) : (t.graft f).WellFormed := by
  match t with
  | .primitive p => trivial
  | .typeVariable name =>
    rw [TypeSignature.graft]
    cases hname : f name with
    | none => exact ht
    | some u => exact hf name u hname
  | .array element =>
    exact TypeSignature.WellFormed.graft hf (t := element) ht
  | .classType name arguments => exact ⟨ht.1, TypeArgument.AllWellFormed.graft hf ht.2⟩
theorem TypeArgument.WellFormed.graft (hf : ∀ name u, f name = some u → u.WellFormed)
    {a : TypeArgument} (ha : a.WellFormed) : (a.graft f).WellFormed := by
  match a with
  | .any => trivial
  | .upper bound => exact TypeSignature.WellFormed.graft hf (t := bound) ha
  | .lower bound => exact TypeSignature.WellFormed.graft hf (t := bound) ha
  | .exactly type => exact TypeSignature.WellFormed.graft hf (t := type) ha
theorem TypeArgument.AllWellFormed.graft (hf : ∀ name u, f name = some u → u.WellFormed)
    {as : List TypeArgument} (has : TypeArgument.AllWellFormed as) :
    TypeArgument.AllWellFormed (TypeArgument.graftAll f as) := by
  match as with
  | [] => trivial
  | a :: rest => exact ⟨has.1.graft hf, has.2.graft hf⟩
end

variable {lookup : String → Option String}

mutual
/-- Replacing references in the text is replacing variables in the tree. -/
theorem TypeSignature.substitute_pieces
    (hlookup : ∀ name, lookup name = (f name).map TypeSignature.text) (t : TypeSignature) :
    t.pieces.flatMap (Piece.substitute lookup) = (t.graft f).chars := by
  match t with
  | .primitive p => rw [TypeSignature.pieces, TypeSignature.graft, TypeSignature.chars]; rfl
  | .typeVariable name =>
    rw [TypeSignature.pieces, TypeSignature.graft, List.flatMap_singleton, Piece.substitute,
      String.ofList_toList, hlookup]
    cases f name with
    | none => rw [Option.getD_none, TypeSignature.chars]; rfl
    | some u => exact String.toList_ofList
  | .array element =>
    rw [TypeSignature.pieces, TypeSignature.graft, TypeSignature.chars, List.flatMap_cons,
      element.substitute_pieces hlookup]
    rfl
  | .classType name [] =>
    rw [TypeSignature.pieces, TypeSignature.graft, TypeArgument.graftAll, TypeSignature.chars]
    exact List.append_nil _
  | .classType name (a :: rest) =>
    rw [TypeSignature.pieces, TypeSignature.graft, TypeArgument.graftAll, TypeSignature.chars,
      List.flatMap_cons, List.flatMap_append, List.flatMap_append, a.substitute_pieces hlookup,
      TypeArgument.substitute_listPieces hlookup rest]
    simp [Piece.substitute]
theorem TypeArgument.substitute_pieces
    (hlookup : ∀ name, lookup name = (f name).map TypeSignature.text) (a : TypeArgument) :
    a.pieces.flatMap (Piece.substitute lookup) = (a.graft f).chars := by
  match a with
  | .any => rw [TypeArgument.pieces, TypeArgument.graft, TypeArgument.chars]; rfl
  | .upper bound =>
    rw [TypeArgument.pieces, TypeArgument.graft, TypeArgument.chars, List.flatMap_cons,
      bound.substitute_pieces hlookup]
    rfl
  | .lower bound =>
    rw [TypeArgument.pieces, TypeArgument.graft, TypeArgument.chars, List.flatMap_cons,
      bound.substitute_pieces hlookup]
    rfl
  | .exactly type =>
    rw [TypeArgument.pieces, TypeArgument.graft, TypeArgument.chars,
      type.substitute_pieces hlookup]
theorem TypeArgument.substitute_listPieces
    (hlookup : ∀ name, lookup name = (f name).map TypeSignature.text) (as : List TypeArgument) :
    (TypeArgument.listPieces as).flatMap (Piece.substitute lookup) =
      TypeArgument.listChars (TypeArgument.graftAll f as) := by
  match as with
  | [] => rw [TypeArgument.listPieces, TypeArgument.graftAll, TypeArgument.listChars]; rfl
  | a :: rest =>
    rw [TypeArgument.listPieces, TypeArgument.graftAll, TypeArgument.listChars,
      List.flatMap_append, a.substitute_pieces hlookup,
      TypeArgument.substitute_listPieces hlookup rest]
end

/-- The text of a type with references replaced is the text of the type with the variables
    replaced. -/
theorem TypeSignature.substitute_text
    (hlookup : ∀ name, lookup name = (f name).map TypeSignature.text) {t : TypeSignature}
    (ht : t.WellFormed) (hsearch : t.Searchable) :
    Signature.substitute lookup t.text = (t.graft f).text := by
  have hpieces := t.pieces_chars_append ht hsearch []
  rw [List.append_nil, pieces_nil, List.append_nil] at hpieces
  rw [Signature.substitute, TypeSignature.text, String.toList_ofList, hpieces,
    t.substitute_pieces hlookup, TypeSignature.text]

end graft

end TypeCatalog
