import TypeCatalog.Proofs.Signature.Replacement
import TypeCatalog.Proofs.Signature.Spelling

/-! # Searching the text of a spelling

    The search for references knows the marks of the grammar only in part. In the text of a spelling
    it is always in one of two places: in the open, in front of the next mark, or inside what it
    takes for the name of a class, after an `L` and before the next `<` or `;`. A class name that
    stands after type arguments is searched in the open, where its own letters can be taken for
    marks. The search is aligned with the grammar as long as none of these names ends in a first `L`
    or in `T` and the name of a variable that is replaced. -/

set_option autoImplicit false

namespace TypeCatalog

open Signature

/-! ## Section 1: Replacement in spellings -/

section replaced

variable (lookup : String → Option String)

mutual
/-- The characters of a type with texts in place of the variables that `lookup` knows. -/
def TypeSpelling.replacedChars : TypeSpelling → List Char
  | .primitive p => [p.letter]
  | .typeVariable name =>
    match lookup name with
    | some replacement => replacement.toList
    | none => 'T' :: name.toList ++ [';']
  | .array element => '[' :: element.replacedChars
  | .classType written => 'L' :: written.replacedChars ++ [';']
/-- The characters of a class with texts in place of variables. -/
def ClassSpelling.replacedChars : ClassSpelling → List Char
  | .last name arguments =>
    name.toList ++ angled arguments (ArgumentSpelling.listReplacedChars arguments)
  | .outer name arguments inner =>
    name.toList ++ angled arguments (ArgumentSpelling.listReplacedChars arguments)
      ++ '.' :: inner.replacedChars
/-- The characters of a type argument with texts in place of variables. -/
def ArgumentSpelling.replacedChars : ArgumentSpelling → List Char
  | .any => ['*']
  | .upper bound => '+' :: bound.replacedChars
  | .lower bound => '-' :: bound.replacedChars
  | .exactly type => type.replacedChars
/-- The characters of type arguments with texts in place of variables. -/
def ArgumentSpelling.listReplacedChars : List ArgumentSpelling → List Char
  | [] => []
  | a :: rest => a.replacedChars ++ ArgumentSpelling.listReplacedChars rest
end

/-- The text of a type with texts in place of the variables that `lookup` knows. -/
def TypeSpelling.replacedText (x : TypeSpelling) : String := String.ofList (x.replacedChars lookup)

/-- What stands after the outermost segment of a class, with texts in place of variables. -/
def ClassSpelling.replacedAfterHead : ClassSpelling → List Char
  | .last _ arguments => angled arguments (ArgumentSpelling.listReplacedChars lookup arguments)
  | .outer _ arguments inner =>
    angled arguments (ArgumentSpelling.listReplacedChars lookup arguments)
      ++ '.' :: inner.replacedChars lookup

theorem ClassSpelling.replacedChars_eq (k : ClassSpelling) :
    k.replacedChars lookup = k.head.toList ++ k.replacedAfterHead lookup := by
  cases k with
  | last name arguments => rw [replacedChars, head, replacedAfterHead]
  | outer name arguments inner => rw [replacedChars, head, replacedAfterHead, List.append_assoc]

end replaced

/-- The texts in place of variables are read as the types in place of them. -/
def ReadsAs (lookup : String → Option String) (f : String → Option TypeSignature) : Prop :=
  ∀ name, Option.Rel (fun text t => TypeSignature.parse text = .ok t) (lookup name) (f name)

section spelled

variable {lookup : String → Option String} {f : String → Option TypeSignature}

/-- A variable stays, or a spelling is put in its place. -/
theorem ReadsAs.cases (h : ReadsAs lookup f) (name : String) :
    (lookup name = none ∧ f name = none) ∨
      ∃ y : TypeSpelling, y.WellFormed ∧ lookup name = some y.text ∧ f name = some y.type := by
  have hname := h name
  generalize lookup name = text? at hname ⊢
  generalize f name = t? at hname ⊢
  cases hname with
  | none => exact .inl ⟨rfl, rfl⟩
  | some hread =>
    obtain ⟨y, hy, rfl, rfl⟩ := TypeSignature.parse_eq_ok_iff_spelled.1 hread
    exact .inr ⟨y, hy, rfl, rfl⟩

theorem angled_congr {α β : Type} {as : List α} {bs : List β} (h : as.isEmpty = bs.isEmpty)
    (inside : List Char) : angled as inside = angled bs inside := by
  rw [angled, angled, h]

mutual
/-- What is there after the replacement is a spelling again, of the type with the variables
    replaced. -/
theorem TypeSpelling.WellFormed.exists_replaced (hlookup : ReadsAs lookup f) {x : TypeSpelling}
    (h : x.WellFormed) :
    ∃ y : TypeSpelling, y.WellFormed ∧ y.chars = x.replacedChars lookup ∧
      y.type = x.type.graft f := by
  match x with
  | .primitive p => exact ⟨.primitive p, trivial, rfl, rfl⟩
  | .typeVariable name =>
    rw [TypeSpelling.replacedChars, TypeSpelling.type, TypeSignature.graft]
    rcases hlookup.cases name with ⟨htext, htype⟩ | ⟨y, hy, htext, htype⟩
    · rw [htext, htype]
      exact ⟨.typeVariable name, h, rfl, rfl⟩
    · rw [htext, htype]
      exact ⟨y, hy, String.toList_ofList.symm, rfl⟩
  | .array element =>
    obtain ⟨y, hy, hchars, htype⟩ :=
      TypeSpelling.WellFormed.exists_replaced hlookup (x := element) h
    refine ⟨.array y, hy, ?_, ?_⟩
    · rw [TypeSpelling.chars, hchars, TypeSpelling.replacedChars]
    · rw [TypeSpelling.type, htype, TypeSpelling.type, TypeSignature.graft]
  | .classType k =>
    obtain ⟨k', hk', hchars, hname, harguments⟩ :=
      ClassSpelling.WellFormed.exists_replaced hlookup (k := k) h
    refine ⟨.classType k', hk', ?_, ?_⟩
    · rw [TypeSpelling.chars, hchars, TypeSpelling.replacedChars]
    · rw [TypeSpelling.type, hname, harguments, TypeSpelling.type, TypeSignature.graft]
theorem ClassSpelling.WellFormed.exists_replaced (hlookup : ReadsAs lookup f) {k : ClassSpelling}
    (h : k.WellFormed) :
    ∃ k' : ClassSpelling, k'.WellFormed ∧ k'.chars = k.replacedChars lookup ∧ k'.name = k.name ∧
      k'.arguments = TypeArgument.graftAll f k.arguments := by
  match k with
  | .last name as =>
    obtain ⟨bs, hbs, hempty, hchars, htypes⟩ :=
      ArgumentSpelling.AllWellFormed.exists_replaced hlookup h.2
    refine ⟨.last name bs, ⟨h.1, hbs⟩, ?_, rfl, htypes⟩
    rw [ClassSpelling.chars, hchars, angled_congr hempty, ClassSpelling.replacedChars]
  | .outer name as inner =>
    obtain ⟨bs, hbs, hempty, hchars, -⟩ :=
      ArgumentSpelling.AllWellFormed.exists_replaced hlookup h.2.1
    obtain ⟨k', hk', hinner, hname, harguments⟩ :=
      ClassSpelling.WellFormed.exists_replaced hlookup h.2.2
    refine ⟨.outer name bs k', ⟨h.1, hbs, hk'⟩, ?_, ?_, harguments⟩
    · rw [ClassSpelling.chars, hchars, hinner, angled_congr hempty, ClassSpelling.replacedChars]
    · rw [ClassSpelling.name, hname, ClassSpelling.name]
theorem ArgumentSpelling.AllWellFormed.exists_replaced (hlookup : ReadsAs lookup f)
    {as : List ArgumentSpelling} (h : ArgumentSpelling.AllWellFormed as) :
    ∃ bs : List ArgumentSpelling, ArgumentSpelling.AllWellFormed bs ∧ bs.isEmpty = as.isEmpty ∧
      ArgumentSpelling.listChars bs = ArgumentSpelling.listReplacedChars lookup as ∧
      ArgumentSpelling.argumentsOf bs =
        TypeArgument.graftAll f (ArgumentSpelling.argumentsOf as) := by
  match as with
  | [] => exact ⟨[], trivial, rfl, rfl, rfl⟩
  | a :: rest =>
    obtain ⟨b, hb, hchars, hargument⟩ := ArgumentSpelling.WellFormed.exists_replaced hlookup h.1
    obtain ⟨bs, hbs, -, hlist, harguments⟩ :=
      ArgumentSpelling.AllWellFormed.exists_replaced hlookup h.2
    refine ⟨b :: bs, ⟨hb, hbs⟩, rfl, ?_, ?_⟩
    · rw [ArgumentSpelling.listChars, hchars, hlist, ArgumentSpelling.listReplacedChars]
    · rw [ArgumentSpelling.argumentsOf, hargument, harguments, ArgumentSpelling.argumentsOf,
        TypeArgument.graftAll]
theorem ArgumentSpelling.WellFormed.exists_replaced (hlookup : ReadsAs lookup f)
    {a : ArgumentSpelling} (h : a.WellFormed) :
    ∃ b : ArgumentSpelling, b.WellFormed ∧ b.chars = a.replacedChars lookup ∧
      b.argument = a.argument.graft f := by
  match a with
  | .any => exact ⟨.any, trivial, rfl, rfl⟩
  | .upper bound =>
    obtain ⟨y, hy, hchars, htype⟩ := TypeSpelling.WellFormed.exists_replaced hlookup (x := bound) h
    refine ⟨.upper y, hy, ?_, ?_⟩
    · rw [ArgumentSpelling.chars, hchars, ArgumentSpelling.replacedChars]
    · rw [ArgumentSpelling.argument, htype, ArgumentSpelling.argument, TypeArgument.graft]
  | .lower bound =>
    obtain ⟨y, hy, hchars, htype⟩ := TypeSpelling.WellFormed.exists_replaced hlookup (x := bound) h
    refine ⟨.lower y, hy, ?_, ?_⟩
    · rw [ArgumentSpelling.chars, hchars, ArgumentSpelling.replacedChars]
    · rw [ArgumentSpelling.argument, htype, ArgumentSpelling.argument, TypeArgument.graft]
  | .exactly type =>
    obtain ⟨y, hy, hchars, htype⟩ := TypeSpelling.WellFormed.exists_replaced hlookup (x := type) h
    refine ⟨.exactly y, hy, ?_, ?_⟩
    · rw [ArgumentSpelling.chars, hchars, ArgumentSpelling.replacedChars]
    · rw [ArgumentSpelling.argument, htype, ArgumentSpelling.argument, TypeArgument.graft]
end

end spelled

/-! ## Section 2: Steps of the search -/

namespace Signature

variable {lookup : String → Option String}

/-- The characters of a signature with the references replaced that `lookup` knows. -/
def substituteChars (lookup : String → Option String) (s : List Char) : List Char :=
  (pieces s).flatMap (Piece.substitute lookup)

theorem toList_substitute (signature : String) :
    (substitute lookup signature).toList = substituteChars lookup signature.toList :=
  String.toList_ofList

theorem substituteChars_nil : substituteChars lookup [] = [] := by
  rw [substituteChars, pieces_nil, List.flatMap_nil]

theorem substituteChars_cons {ch : Char} (hclass : ch ≠ 'L') (hvariable : ch ≠ 'T')
    (rest : List Char) :
    substituteChars lookup (ch :: rest) = ch :: substituteChars lookup rest := by
  rw [substituteChars, pieces_cons hclass hvariable, List.flatMap_cons]
  rfl

theorem substituteChars_class {run : List Char} (hne : run ≠ []) (hrun : IsClassRun run)
    {ch : Char} (hch : ch = '<' ∨ ch = ';') (rest : List Char) :
    substituteChars lookup ('L' :: run ++ ch :: rest) =
      'L' :: run ++ ch :: substituteChars lookup rest := by
  rw [substituteChars, pieces_class hne hrun hch, List.flatMap_cons, Piece.substitute,
    List.append_assoc, List.singleton_append]
  rfl

theorem substituteChars_variable {word : List Char} (hne : word ≠ [])
    (hword : ∀ ch ∈ word, Text.isWord ch = true) (rest : List Char) :
    substituteChars lookup ('T' :: word ++ ';' :: rest) =
      Piece.substitute lookup (.reference word) ++ substituteChars lookup rest := by
  rw [substituteChars, pieces_variable hne hword, List.flatMap_cons]
  rfl

theorem substituteChars_bareT {rest : List Char} (h : referenceName? rest = none) :
    substituteChars lookup ('T' :: rest) = 'T' :: substituteChars lookup rest := by
  rw [substituteChars, pieces, h]
  rfl

/-- The search passes over word characters inside the name of a class. -/
theorem IsClassRun.of_isWord {word : List Char} (h : ∀ ch ∈ word, Text.isWord ch = true) :
    IsClassRun word := by
  intro ch hch hmem
  have hword := h ch hch
  simp only [List.mem_cons, List.not_mem_nil, or_false] at hmem
  rcases hmem with rfl | rfl | rfl <;> exact absurd hword (by decide +kernel)

/-- A reference ends at the first character that does not belong to a word. -/
theorem referenceName?_eq_none {word : List Char} {ch : Char} (hsemicolon : ';' ∉ word)
    (hch : Text.isWord ch = false)
    (h : ch = ';' → word ≠ [] → ∃ x ∈ word, Text.isWord x = false) (rest : List Char) :
    referenceName? (word ++ ch :: rest) = none := by
  unfold referenceName?
  by_cases hword : ∀ x ∈ word, Text.isWord x = true
  · simp only [takeWhile_append_cons hword hch, List.drop_left]
    cases word with
    | nil => rfl
    | cons first tail =>
      have hne : ch ≠ ';' := by
        intro heq
        obtain ⟨x, hx, hfalse⟩ := h heq (List.cons_ne_nil first tail)
        rw [hword x hx] at hfalse
        cases hfalse
      split
      · next heq => exact absurd (List.cons.inj heq).1 hne
      · rfl
  · -- The word stops inside, at a character that is no semicolon.
    have hsplit := List.takeWhile_append_dropWhile (p := Text.isWord) (l := word)
    have hhead := List.head?_dropWhile_not Text.isWord word
    cases hdrop : word.dropWhile Text.isWord with
    | nil =>
      rw [hdrop, List.append_nil] at hsplit
      exact absurd (fun x hx => Text.of_mem_takeWhile (hsplit.symm ▸ hx)) hword
    | cons stop tail =>
      rw [hdrop] at hsplit hhead
      have hne : stop ≠ ';' := by
        rintro rfl
        exact hsemicolon (hsplit ▸ List.mem_append_right _ List.mem_cons_self)
      have hrun : ∀ x ∈ word.takeWhile Text.isWord, Text.isWord x = true :=
        fun x hx => Text.of_mem_takeWhile hx
      rw [← hsplit, List.append_assoc, List.cons_append]
      simp only [takeWhile_append_cons hrun hhead, List.drop_left]
      split
      · next heq => exact absurd (List.cons.inj heq).1 hne
      · rfl

/-- A word is passed over in the open if the search is aligned behind it whenever it stops at a mark
    inside: in front of what follows the first `L`, and of what follows a `T` that starts a
    reference. -/
theorem substituteChars_word {word rest rest' : List Char}
    (hopen : substituteChars lookup rest = rest')
    (hclass : ∀ before after, word = before ++ 'L' :: after → 'L' ∉ before →
      substituteChars lookup ('L' :: after ++ rest) = 'L' :: after ++ rest')
    (hvariable : ∀ after, 'T' :: after <:+ word → referenceName? (after ++ rest) = none ∨
      substituteChars lookup ('T' :: after ++ rest) = 'T' :: after ++ rest') :
    substituteChars lookup (word ++ rest) = word ++ rest' := by
  induction word with
  | nil => exact hopen
  | cons ch word ih =>
    by_cases hL : ch = 'L'
    · subst hL
      exact hclass [] word rfl (by simp)
    have hrest : substituteChars lookup (word ++ rest) = word ++ rest' := by
      apply ih
      · intro before after hword hbefore
        exact hclass (ch :: before) after (by rw [hword, List.cons_append])
          (by simp [hbefore, Ne.symm hL])
      · intro after hafter
        exact hvariable after (hafter.trans (List.suffix_cons ch word))
    by_cases hT : ch = 'T'
    · subst hT
      rcases hvariable word (List.suffix_refl _) with hnone | hstays
      · rw [List.cons_append, substituteChars_bareT hnone, hrest, List.cons_append]
      · exact hstays
    · rw [List.cons_append, substituteChars_cons hL hT, hrest, List.cons_append]

end Signature

/-! ## Section 3: What can be searched -/

section search

variable (lookup : String → Option String)

/-- A name of a class that is passed over in the open. -/
structure ClearSegment (name : String) : Prop where
  /-- An `L` at the end would take what follows the name along, if no earlier one takes it. -/
  noBareMark : ∀ before, name.toList = before ++ ['L'] → 'L' ∈ before
  /-- A `T` and what is left of the name is not taken for a reference that is replaced. -/
  noReference : ∀ after, 'T' :: after <:+ name.toList → lookup (String.ofList after) = none

mutual
/-- The names of variables are words, those of classes stand on one line, and those that stand after
    type arguments are passed over in the open. -/
def TypeSpelling.Searchable : TypeSpelling → Prop
  | .primitive _ => True
  | .typeVariable name => ∀ ch ∈ name.toList, Text.isWord ch = true
  | .array element => element.Searchable
  | .classType written => written.Searchable False
/-- A class can be searched, where it may stand after type arguments. -/
def ClassSpelling.Searchable : ClassSpelling → Prop → Prop
  | .last name arguments, afterArguments =>
    '\n' ∉ name.toList ∧ (afterArguments → ClearSegment lookup name) ∧
      ArgumentSpelling.AllSearchable arguments
  | .outer name arguments inner, afterArguments =>
    '\n' ∉ name.toList ∧ (afterArguments → ClearSegment lookup name) ∧
      ArgumentSpelling.AllSearchable arguments ∧
        inner.Searchable (afterArguments ∨ arguments ≠ [])
/-- A type argument can be searched. -/
def ArgumentSpelling.Searchable : ArgumentSpelling → Prop
  | .any => True
  | .upper bound => bound.Searchable
  | .lower bound => bound.Searchable
  | .exactly type => type.Searchable
/-- Several type arguments can be searched. -/
def ArgumentSpelling.AllSearchable : List ArgumentSpelling → Prop
  | [] => True
  | a :: rest => a.Searchable ∧ ArgumentSpelling.AllSearchable rest
end

end search

variable {lookup : String → Option String}

/-- Where less stands before a class, less is asked of it. -/
theorem ClassSpelling.Searchable.mono {P Q : Prop} (hPQ : Q → P) {k : ClassSpelling}
    (h : k.Searchable lookup P) : k.Searchable lookup Q := by
  match k with
  | .last name as => exact ⟨h.1, fun hq => h.2.1 (hPQ hq), h.2.2⟩
  | .outer name as inner =>
    obtain ⟨hline, hclear, has, hinner⟩ := h
    exact ⟨hline, fun hq => hclear (hPQ hq), has, hinner.mono (Or.imp_left hPQ)⟩

theorem ClassSpelling.Searchable.head_line {P : Prop} {k : ClassSpelling}
    (h : k.Searchable lookup P) : '\n' ∉ k.head.toList := by
  cases k with
  | last name as => exact h.1
  | outer name as inner => exact h.1

theorem ClassSpelling.Searchable.head_clear {k : ClassSpelling} (h : k.Searchable lookup True) :
    ClearSegment lookup k.head := by
  cases k with
  | last name as => exact h.2.1 trivial
  | outer name as inner => exact h.2.1 trivial

/-! ## Section 4: The search finds the references -/

/-- A clear name in the open, in front of a mark that ends names of classes. -/
theorem ClearSegment.substituteChars_append {name : String} (hclear : ClearSegment lookup name)
    (hname : IsClassName name) (hline : '\n' ∉ name.toList) {ch : Char} {rest : List Char}
    (hch : ch ∈ ['<', ';', '.'])
    (hinside : ∀ run, run ≠ [] → IsClassRun run →
      substituteChars lookup ('L' :: run ++ ch :: rest) =
        'L' :: run ++ substituteChars lookup (ch :: rest)) :
    substituteChars lookup (name.toList ++ ch :: rest) =
      name.toList ++ substituteChars lookup (ch :: rest) := by
  have hrun := hname.isClassRun hline
  have hsemicolon : ';' ∉ name.toList := hname.2 ';' (by decide)
  have hstop : Text.isWord ch = false := by
    simp only [List.mem_cons, List.not_mem_nil, or_false] at hch
    rcases hch with rfl | rfl | rfl <;> decide +kernel
  apply substituteChars_word rfl
  · intro before after hword hfirst
    apply hinside
    · -- An `L` at the end is not the first one.
      rintro rfl
      exact hfirst (hclear.noBareMark before hword)
    · exact fun x hx => hrun x (by simp [hword, hx])
  · intro after hafter
    have hsub : after <:+ name.toList := (List.suffix_cons 'T' after).trans hafter
    by_cases href : ch = ';' ∧ after ≠ [] ∧ ∀ x ∈ after, Text.isWord x = true
    · -- The rest of the name is taken for a reference to a variable that stays.
      obtain ⟨rfl, hne, hword⟩ := href
      right
      rw [substituteChars_variable hne hword, Piece.substitute, hclear.noReference after hafter,
        substituteChars_cons (by decide) (by decide)]
      simp [Piece.chars]
    · left
      refine referenceName?_eq_none (fun h => hsemicolon (hsub.subset h)) hstop ?_ rest
      intro hch hne
      simpa [hch, hne] using href

section angled

variable {as : List ArgumentSpelling}
  (hlist : ∀ rest, substituteChars lookup (ArgumentSpelling.listChars as ++ rest) =
    ArgumentSpelling.listReplacedChars lookup as ++ substituteChars lookup rest)

include hlist

/-- The search knows nothing of brackets: in the open they are passed over. -/
theorem substituteChars_angled (rest : List Char) :
    substituteChars lookup (angled as (ArgumentSpelling.listChars as) ++ rest) =
      angled as (ArgumentSpelling.listReplacedChars lookup as) ++ substituteChars lookup rest := by
  cases as with
  | nil => rfl
  | cons a as =>
    simp only [angled_cons, List.cons_append, List.append_assoc, List.nil_append]
    rw [substituteChars_cons (by decide) (by decide), hlist,
      substituteChars_cons (by decide) (by decide)]

/-- An opening bracket ends the name of a class. -/
theorem substituteChars_inside_angled (has : as ≠ []) {run : List Char} (hne : run ≠ [])
    (hrun : IsClassRun run) (rest : List Char) :
    substituteChars lookup
        ('L' :: run ++ (angled as (ArgumentSpelling.listChars as) ++ rest)) =
      'L' :: run ++ (angled as (ArgumentSpelling.listReplacedChars lookup as) ++
        substituteChars lookup rest) := by
  cases as with
  | nil => exact absurd rfl has
  | cons a as =>
    simp only [angled_cons, List.cons_append, List.append_assoc, List.nil_append]
    refine (substituteChars_class hne hrun (.inl rfl) _).trans ?_
    rw [hlist, substituteChars_cons (by decide) (by decide)]
    rfl

end angled

/-- A class in the open, from what holds behind its outermost segment. -/
theorem ClassSpelling.WellFormed.substituteChars_of_afterHead {k : ClassSpelling}
    (hk : k.WellFormed) (hsearch : k.Searchable lookup True) {rest : List Char}
    (hopen : substituteChars lookup (k.afterHead ++ ';' :: rest) =
      k.replacedAfterHead lookup ++ ';' :: substituteChars lookup rest)
    (hinside : ∀ run, run ≠ [] → IsClassRun run →
      substituteChars lookup ('L' :: run ++ (k.afterHead ++ ';' :: rest)) =
        'L' :: run ++ (k.replacedAfterHead lookup ++ ';' :: substituteChars lookup rest)) :
    substituteChars lookup (k.chars ++ ';' :: rest) =
      k.replacedChars lookup ++ ';' :: substituteChars lookup rest := by
  obtain ⟨ch, tail, htail, hch⟩ := (hk.isClassTail "").eq_cons
  have hmark : k.afterHead ++ ';' :: rest = ch :: (tail ++ rest) := by
    rw [← List.cons_append, ← htail, List.append_assoc, List.singleton_append]
  rw [← hopen, hmark] at hinside
  rw [k.chars_eq, k.replacedChars_eq, List.append_assoc, List.append_assoc, ← hopen, hmark]
  exact hsearch.head_clear.substituteChars_append hk.head hsearch.head_line hch hinside

mutual
/-- In front of any text the search replaces the references of a type. The induction is on the
    spelling. -/
theorem TypeSpelling.WellFormed.substituteChars_append {x : TypeSpelling} (hx : x.WellFormed)
    (hsearch : x.Searchable lookup) (rest : List Char) :
    substituteChars lookup (x.chars ++ rest) =
      x.replacedChars lookup ++ substituteChars lookup rest := by
  match x with
  | .primitive p =>
    exact substituteChars_cons (by cases p <;> decide) (by cases p <;> decide) rest
  | .typeVariable name =>
    have hne : name.toList ≠ [] := fun h => hx.1 (String.toList_eq_nil_iff.1 h)
    rw [TypeSpelling.chars, TypeSpelling.replacedChars, List.append_assoc]
    refine (substituteChars_variable hne hsearch rest).trans ?_
    rw [Piece.substitute, String.ofList_toList]
    rfl
  | .array element =>
    rw [TypeSpelling.chars, TypeSpelling.replacedChars, List.cons_append, List.cons_append,
      substituteChars_cons (by decide) (by decide),
      TypeSpelling.WellFormed.substituteChars_append (x := element) hx hsearch]
  | .classType k =>
    have hk : k.WellFormed := hx
    have hhead := hk.head.isClassRun hsearch.head_line
    have hclass := hk.substituteChars_inside hsearch hk.head.toList_ne_nil hhead rest
    rw [TypeSpelling.chars, TypeSpelling.replacedChars, k.chars_eq, k.replacedChars_eq]
    simpa using hclass
/-- Inside what the search takes for the name of a class, after one character of it at least. -/
theorem ClassSpelling.WellFormed.substituteChars_inside {k : ClassSpelling} (hk : k.WellFormed)
    (hsearch : k.Searchable lookup False) {run : List Char} (hne : run ≠ [])
    (hrun : IsClassRun run) (rest : List Char) :
    substituteChars lookup ('L' :: run ++ (k.afterHead ++ ';' :: rest)) =
      'L' :: run ++ (k.replacedAfterHead lookup ++ ';' :: substituteChars lookup rest) := by
  match k with
  | .last name [] => exact substituteChars_class hne hrun (.inr rfl) rest
  | .last name (a :: as) =>
    have hlist := ArgumentSpelling.AllWellFormed.substituteChars_append hk.2 hsearch.2.2
    have hclass := substituteChars_inside_angled hlist (List.cons_ne_nil a as) hne hrun
      (';' :: rest)
    rwa [substituteChars_cons (by decide) (by decide)] at hclass
  | .outer name [] inner =>
    -- The name goes on behind the dot.
    obtain ⟨-, -, hinner⟩ := hk
    have hsearch' : inner.Searchable lookup False := hsearch.2.2.2.mono (by simp)
    have hrun' : IsClassRun (run ++ ['.'] ++ inner.head.toList) :=
      (hrun.append (by simp [IsClassRun])).append (hinner.head.isClassRun hsearch'.head_line)
    have hclass := hinner.substituteChars_inside hsearch' (by simp) hrun' rest
    simpa [ClassSpelling.afterHead, ClassSpelling.replacedAfterHead, inner.chars_eq,
      inner.replacedChars_eq] using hclass
  | .outer name (a :: as) inner =>
    obtain ⟨-, has, hinner⟩ := hk
    have hsearch' : inner.Searchable lookup True := hsearch.2.2.2.mono (by simp)
    have hopen := hinner.substituteChars_of_afterHead hsearch'
      (hinner.substituteChars_afterHead hsearch' rest)
      (fun run hne hrun => hinner.substituteChars_inside (hsearch'.mono False.elim) hne hrun rest)
    have hlist := ArgumentSpelling.AllWellFormed.substituteChars_append has hsearch.2.2.1
    have hclass := substituteChars_inside_angled hlist (List.cons_ne_nil a as) hne hrun
      ('.' :: (inner.chars ++ ';' :: rest))
    rw [substituteChars_cons (by decide) (by decide), hopen] at hclass
    simpa [ClassSpelling.afterHead, ClassSpelling.replacedAfterHead] using hclass
/-- In the open, behind the outermost segment of a class. -/
theorem ClassSpelling.WellFormed.substituteChars_afterHead {k : ClassSpelling} (hk : k.WellFormed)
    (hsearch : k.Searchable lookup True) (rest : List Char) :
    substituteChars lookup (k.afterHead ++ ';' :: rest) =
      k.replacedAfterHead lookup ++ ';' :: substituteChars lookup rest := by
  match k with
  | .last name as =>
    have hlist := ArgumentSpelling.AllWellFormed.substituteChars_append hk.2 hsearch.2.2
    rw [ClassSpelling.afterHead, ClassSpelling.replacedAfterHead, substituteChars_angled hlist,
      substituteChars_cons (by decide) (by decide)]
  | .outer name as inner =>
    obtain ⟨-, has, hinner⟩ := hk
    have hsearch' : inner.Searchable lookup True := hsearch.2.2.2.mono (by simp)
    have hopen := hinner.substituteChars_of_afterHead hsearch'
      (hinner.substituteChars_afterHead hsearch' rest)
      (fun run hne hrun => hinner.substituteChars_inside (hsearch'.mono False.elim) hne hrun rest)
    have hlist := ArgumentSpelling.AllWellFormed.substituteChars_append has hsearch.2.2.1
    rw [ClassSpelling.afterHead, ClassSpelling.replacedAfterHead, List.append_assoc,
      substituteChars_angled hlist, List.cons_append, substituteChars_cons (by decide) (by decide),
      hopen, List.append_assoc, List.cons_append]
/-- Type arguments up to the bracket that closes them. -/
theorem ArgumentSpelling.AllWellFormed.substituteChars_append {as : List ArgumentSpelling}
    (has : ArgumentSpelling.AllWellFormed as) (hsearch : ArgumentSpelling.AllSearchable lookup as)
    (rest : List Char) :
    substituteChars lookup (ArgumentSpelling.listChars as ++ rest) =
      ArgumentSpelling.listReplacedChars lookup as ++ substituteChars lookup rest := by
  match as with
  | [] => rfl
  | a :: as =>
    rw [ArgumentSpelling.listChars, ArgumentSpelling.listReplacedChars, List.append_assoc,
      has.1.substituteChars_append hsearch.1, has.2.substituteChars_append hsearch.2,
      List.append_assoc]
theorem ArgumentSpelling.WellFormed.substituteChars_append {a : ArgumentSpelling}
    (ha : a.WellFormed) (hsearch : a.Searchable lookup) (rest : List Char) :
    substituteChars lookup (a.chars ++ rest) =
      a.replacedChars lookup ++ substituteChars lookup rest := by
  match a with
  | .any => exact substituteChars_cons (by decide) (by decide) rest
  | .upper bound =>
    rw [ArgumentSpelling.chars, ArgumentSpelling.replacedChars, List.cons_append,
      List.cons_append, substituteChars_cons (by decide) (by decide),
      TypeSpelling.WellFormed.substituteChars_append (x := bound) ha hsearch]
  | .lower bound =>
    rw [ArgumentSpelling.chars, ArgumentSpelling.replacedChars, List.cons_append,
      List.cons_append, substituteChars_cons (by decide) (by decide),
      TypeSpelling.WellFormed.substituteChars_append (x := bound) ha hsearch]
  | .exactly type =>
    rw [ArgumentSpelling.chars, ArgumentSpelling.replacedChars,
      TypeSpelling.WellFormed.substituteChars_append (x := type) ha hsearch]
end

/-! ## Section 5: A type inside what is taken for the name of a class -/

/-- The text of the type ends where the search ends the name of a class, and nothing in it is
    replaced before. -/
def TypeSpelling.Closes (lookup : String → Option String) : TypeSpelling → Prop
  | .primitive _ => False
  | .typeVariable name => lookup name = none
  | .array element => element.Closes lookup
  | .classType _ => True

/-- A type that the search comes upon inside what it takes for the name of a class. -/
theorem TypeSpelling.WellFormed.substituteChars_inside {x : TypeSpelling} (hx : x.WellFormed)
    (hsearch : x.Searchable lookup) (hcloses : x.Closes lookup) {run : List Char}
    (hrun : IsClassRun run) (rest : List Char) :
    substituteChars lookup ('L' :: run ++ (x.chars ++ rest)) =
      'L' :: run ++ (x.replacedChars lookup ++ substituteChars lookup rest) := by
  match x with
  | .primitive p => exact hcloses.elim
  | .typeVariable name =>
    have hstays : lookup name = none := hcloses
    have hrun' : IsClassRun (run ++ ['T'] ++ name.toList) :=
      (hrun.append (by simp [IsClassRun])).append (.of_isWord hsearch)
    have hclass :
        substituteChars lookup ('L' :: (run ++ ['T'] ++ name.toList) ++ ';' :: rest) = _ :=
      substituteChars_class (by simp) hrun' (.inr rfl) rest
    simpa [TypeSpelling.chars, TypeSpelling.replacedChars, hstays] using hclass
  | .array element =>
    have hrun' : IsClassRun (run ++ ['[']) := hrun.append (by simp [IsClassRun])
    have hclass := TypeSpelling.WellFormed.substituteChars_inside (x := element) hx hsearch hcloses
      hrun' rest
    simpa [TypeSpelling.chars, TypeSpelling.replacedChars] using hclass
  | .classType k =>
    have hk : k.WellFormed := hx
    have hrun' : IsClassRun (run ++ ['L'] ++ k.head.toList) :=
      (hrun.append (by simp [IsClassRun])).append (hk.head.isClassRun hsearch.head_line)
    have hclass := hk.substituteChars_inside hsearch (by simp) hrun' rest
    simpa [TypeSpelling.chars, TypeSpelling.replacedChars, k.chars_eq, k.replacedChars_eq]
      using hclass

end TypeCatalog
