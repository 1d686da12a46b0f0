import TypeCatalog.Proofs.Signature.Refusal
import TypeCatalog.Proofs.Signature.RoundTrip

/-! # Spellings of types

    A type can be written in several ways: a nested class with dots or with dollar signs, and with
    arguments of its outer classes, which the type does not keep. A spelling is a type as it is
    written, in the grammar

        type   ::=  letter  |  '[' type  |  'T' name ';'  |  'L' class ';'
        class  ::=  name args?  |  name args? '.' class
        args   ::=  '<' arg+ '>'
        arg    ::=  '*'  |  '+' type  |  '-' type  |  type

    A text has one spelling at most, whatever follows it, and the texts that are read as types are
    those that have one. Every other text is refused at a place within it. -/

set_option autoImplicit false

namespace TypeCatalog

open Signature

/-! ## Section 1: Spellings -/

mutual
/-- A type as it is written. -/
inductive TypeSpelling where
  /-- The letter of a primitive type or of `void`. -/
  | primitive (p : Primitive)
  /-- A reference to a type variable. -/
  | typeVariable (name : String)
  /-- An array of the given elements. -/
  | array (element : TypeSpelling)
  /-- A class. -/
  | classType (written : ClassSpelling)
/-- A class as it is written, one segment of its name after the other. -/
inductive ClassSpelling where
  /-- The last segment with its arguments. -/
  | last (name : String) (arguments : List ArgumentSpelling)
  /-- A segment with its arguments, and the class inside. -/
  | outer (name : String) (arguments : List ArgumentSpelling) (inner : ClassSpelling)
/-- A type argument as it is written. -/
inductive ArgumentSpelling where
  /-- Any type at all. -/
  | any
  /-- Any type below the bound. -/
  | upper (bound : TypeSpelling)
  /-- Any type above the bound. -/
  | lower (bound : TypeSpelling)
  /-- Exactly one type. -/
  | exactly (type : TypeSpelling)
end

/-- The text of a list between angle brackets; nothing for an empty list. -/
def angled {α : Type} (items : List α) (inside : List Char) : List Char :=
  if items.isEmpty then [] else '<' :: inside ++ ['>']

@[simp]
theorem angled_nil {α : Type} (inside : List Char) : angled ([] : List α) inside = [] := rfl

@[simp]
theorem angled_cons {α : Type} (a : α) (rest : List α) (inside : List Char) :
    angled (a :: rest) inside = '<' :: inside ++ ['>'] := rfl

mutual
/-- The characters of a type. -/
def TypeSpelling.chars : TypeSpelling → List Char
  | .primitive p => [p.letter]
  | .typeVariable name => 'T' :: name.toList ++ [';']
  | .array element => '[' :: element.chars
  | .classType written => 'L' :: written.chars ++ [';']
/-- The characters of a class between its marks. -/
def ClassSpelling.chars : ClassSpelling → List Char
  | .last name arguments => name.toList ++ angled arguments (ArgumentSpelling.listChars arguments)
  | .outer name arguments inner =>
    name.toList ++ angled arguments (ArgumentSpelling.listChars arguments) ++ '.' :: inner.chars
/-- The characters of a type argument. -/
def ArgumentSpelling.chars : ArgumentSpelling → List Char
  | .any => ['*']
  | .upper bound => '+' :: bound.chars
  | .lower bound => '-' :: bound.chars
  | .exactly type => type.chars
/-- The characters of type arguments, one after the other. -/
def ArgumentSpelling.listChars : List ArgumentSpelling → List Char
  | [] => []
  | a :: rest => a.chars ++ ArgumentSpelling.listChars rest
end

/-- The text of a spelling. -/
def TypeSpelling.text (x : TypeSpelling) : String := String.ofList x.chars

/-- The binary name of a class: its segments with dollar signs between them. -/
def ClassSpelling.name : ClassSpelling → String
  | .last name _ => name
  | .outer name _ inner => nest name inner.name

mutual
/-- The type that is written. -/
def TypeSpelling.type : TypeSpelling → TypeSignature
  | .primitive p => .primitive p
  | .typeVariable name => .typeVariable name
  | .array element => .array element.type
  | .classType written => .classType written.name written.arguments
/-- The arguments of a class, which are those of its last segment. -/
def ClassSpelling.arguments : ClassSpelling → List TypeArgument
  | .last _ arguments => ArgumentSpelling.argumentsOf arguments
  | .outer _ _ inner => inner.arguments
/-- The type argument that is written. -/
def ArgumentSpelling.argument : ArgumentSpelling → TypeArgument
  | .any => .any
  | .upper bound => .upper bound.type
  | .lower bound => .lower bound.type
  | .exactly type => .exactly type.type
/-- The type arguments that are written. -/
def ArgumentSpelling.argumentsOf : List ArgumentSpelling → List TypeArgument
  | [] => []
  | a :: rest => a.argument :: ArgumentSpelling.argumentsOf rest
end

mutual
/-- All names can be read back. -/
def TypeSpelling.WellFormed : TypeSpelling → Prop
  | .primitive _ => True
  | .typeVariable name => IsVariableName name
  | .array element => element.WellFormed
  | .classType written => written.WellFormed
/-- All names in a class can be read back. -/
def ClassSpelling.WellFormed : ClassSpelling → Prop
  | .last name arguments => IsClassName name ∧ ArgumentSpelling.AllWellFormed arguments
  | .outer name arguments inner =>
    IsClassName name ∧ ArgumentSpelling.AllWellFormed arguments ∧ inner.WellFormed
/-- All names in a type argument can be read back. -/
def ArgumentSpelling.WellFormed : ArgumentSpelling → Prop
  | .any => True
  | .upper bound => bound.WellFormed
  | .lower bound => bound.WellFormed
  | .exactly type => type.WellFormed
/-- All names in several type arguments can be read back. -/
def ArgumentSpelling.AllWellFormed : List ArgumentSpelling → Prop
  | [] => True
  | a :: rest => a.WellFormed ∧ ArgumentSpelling.AllWellFormed rest
end

/-! ## Section 2: A spelling derives its type -/

/-- The outermost segment of a class. -/
def ClassSpelling.head : ClassSpelling → String
  | .last name _ => name
  | .outer name _ _ => name

/-- What stands after the outermost segment of a class. -/
def ClassSpelling.afterHead : ClassSpelling → List Char
  | .last _ arguments => angled arguments (ArgumentSpelling.listChars arguments)
  | .outer _ arguments inner =>
    angled arguments (ArgumentSpelling.listChars arguments) ++ '.' :: inner.chars

theorem ClassSpelling.chars_eq (k : ClassSpelling) : k.chars = k.head.toList ++ k.afterHead := by
  cases k with
  | last name arguments => rw [ClassSpelling.chars, head, afterHead]
  | outer name arguments inner => rw [ClassSpelling.chars, head, afterHead, List.append_assoc]

theorem ClassSpelling.WellFormed.head {k : ClassSpelling} (h : k.WellFormed) :
    IsClassName k.head := by
  cases k with
  | last name arguments => exact h.1
  | outer name arguments inner => exact h.1

mutual
theorem TypeSpelling.WellFormed.isType {x : TypeSpelling} (h : x.WellFormed) :
    IsType x.chars x.type := by
  match x with
  | .primitive p =>
    rw [TypeSpelling.chars, TypeSpelling.type]
    exact .primitive p
  | .typeVariable name =>
    rw [TypeSpelling.chars, TypeSpelling.type]
    exact .typeVariable h
  | .array element =>
    rw [TypeSpelling.chars, TypeSpelling.type]
    exact .array (TypeSpelling.WellFormed.isType (x := element) h)
  | .classType written =>
    have hwritten : written.WellFormed := h
    have htail := hwritten.isClassTail ""
    rw [String.empty_append, String.empty_append] at htail
    rw [TypeSpelling.chars, TypeSpelling.type, written.chars_eq, List.cons_append,
      List.append_assoc]
    exact .classType hwritten.head htail
/-- What stands after the outermost segment of a class ends a class type, whatever segments stand
    before it. -/
theorem ClassSpelling.WellFormed.isClassTail {k : ClassSpelling} (h : k.WellFormed)
    (before : String) :
    IsClassTail (before ++ k.head) (k.afterHead ++ [';'])
      (.classType (before ++ k.name) k.arguments) := by
  match k with
  | .last name arguments =>
    exact .close (ArgumentSpelling.AllWellFormed.isOptionalArguments h.2)
  | .outer name arguments inner =>
    obtain ⟨hname, harguments, hinner⟩ := h
    -- For the class inside one segment more stands before.
    have htail := hinner.isClassTail (before ++ name ++ "$")
    have hhead : before ++ name ++ "$" ++ inner.head = nest (before ++ name) inner.head := rfl
    have hwhole : before ++ name ++ "$" ++ inner.name = before ++ nest name inner.name := by
      simp only [nest, String.append_assoc]
    rw [hhead, hwhole] at htail
    have hderives := IsClassTail.inner harguments.isOptionalArguments hinner.head htail
    simpa [ClassSpelling.head, ClassSpelling.afterHead, ClassSpelling.name,
      ClassSpelling.arguments, inner.chars_eq] using hderives
theorem ArgumentSpelling.AllWellFormed.isOptionalArguments {as : List ArgumentSpelling}
    (h : ArgumentSpelling.AllWellFormed as) :
    IsOptionalArguments (angled as (ArgumentSpelling.listChars as))
      (ArgumentSpelling.argumentsOf as) := by
  match as with
  | [] => exact .none
  | a :: rest => exact .some (h.isArguments (List.cons_ne_nil a rest))
theorem ArgumentSpelling.AllWellFormed.isArguments {as : List ArgumentSpelling}
    (h : ArgumentSpelling.AllWellFormed as) (hne : as ≠ []) :
    IsArguments (ArgumentSpelling.listChars as) (ArgumentSpelling.argumentsOf as) := by
  match as with
  | [] => exact absurd rfl hne
  | [a] =>
    rw [ArgumentSpelling.listChars, ArgumentSpelling.listChars, List.append_nil]
    exact .last h.1.isArgument
  | a :: b :: rest =>
    rw [ArgumentSpelling.listChars]
    exact .more h.1.isArgument (h.2.isArguments (List.cons_ne_nil b rest))
theorem ArgumentSpelling.WellFormed.isArgument {a : ArgumentSpelling} (h : a.WellFormed) :
    IsArgument a.chars a.argument := by
  match a with
  | .any =>
    rw [ArgumentSpelling.chars]
    exact .any
  | .upper bound =>
    rw [ArgumentSpelling.chars]
    exact .upper (TypeSpelling.WellFormed.isType (x := bound) h)
  | .lower bound =>
    rw [ArgumentSpelling.chars]
    exact .lower (TypeSpelling.WellFormed.isType (x := bound) h)
  | .exactly type =>
    rw [ArgumentSpelling.chars]
    exact .exactly (TypeSpelling.WellFormed.isType (x := type) h)
end

/-! ## Section 3: What derives a type is spelled -/

mutual
theorem Signature.IsType.exists_spelling {s : List Char} {t : TypeSignature} (h : IsType s t) :
    ∃ x : TypeSpelling, x.WellFormed ∧ x.chars = s ∧ x.type = t :=
  match h with
  | .primitive p => ⟨.primitive p, trivial, by rw [TypeSpelling.chars], by rw [TypeSpelling.type]⟩
  | .array h => by
    obtain ⟨x, hx, rfl, rfl⟩ := h.exists_spelling
    exact ⟨.array x, hx, by rw [TypeSpelling.chars], by rw [TypeSpelling.type]⟩
  | .typeVariable hn =>
    ⟨.typeVariable _, hn, by rw [TypeSpelling.chars], by rw [TypeSpelling.type]⟩
  | .classType hn ht => by
    obtain ⟨k, hk, hhead, hchars, rfl⟩ :=
      ht.exists_spelling "" _ String.empty_append.symm hn
    refine ⟨.classType k, hk, ?_, ?_⟩
    · rw [TypeSpelling.chars, k.chars_eq, hhead, List.cons_append, List.append_assoc, hchars,
        List.cons_append]
    · rw [TypeSpelling.type, String.empty_append]
termination_by structural h
/-- The segments read so far end in the outermost segment of the class that is spelled. -/
theorem Signature.IsClassTail.exists_spelling {segments : String} {s : List Char}
    {t : TypeSignature} (h : IsClassTail segments s t) :
    ∀ before name : String, segments = before ++ name → IsClassName name →
      ∃ k : ClassSpelling, k.WellFormed ∧ k.head = name ∧ k.afterHead ++ [';'] = s ∧
        t = .classType (before ++ k.name) k.arguments :=
  match h with
  | .close hs => by
    intro before name hsegments hname
    obtain ⟨as, has, rfl, rfl⟩ := hs.exists_spelling
    exact ⟨.last name as, ⟨hname, has⟩, rfl, rfl, by rw [hsegments]; rfl⟩
  | .inner hs hn ht => by
    intro before name hsegments hname
    obtain ⟨as, has, rfl, -⟩ := hs.exists_spelling
    obtain ⟨k, hk, hhead, hafter, htype⟩ :=
      ht.exists_spelling (before ++ name ++ "$") _ (congrArg (nest · _) hsegments) hn
    refine ⟨.outer name as k, ⟨hname, has, hk⟩, rfl, ?_, ?_⟩
    · rw [ClassSpelling.afterHead, k.chars_eq, hhead, ← hafter]
      simp
    · rw [htype]
      simp only [ClassSpelling.name, ClassSpelling.arguments, nest, String.append_assoc]
termination_by structural h
theorem Signature.IsOptionalArguments.exists_spelling {s : List Char}
    {arguments : List TypeArgument} (h : IsOptionalArguments s arguments) :
    ∃ as : List ArgumentSpelling, ArgumentSpelling.AllWellFormed as ∧
      angled as (ArgumentSpelling.listChars as) = s ∧
        ArgumentSpelling.argumentsOf as = arguments :=
  match h with
  | .none => ⟨[], trivial, rfl, by rw [ArgumentSpelling.argumentsOf]⟩
  | .some h => by
    obtain ⟨a, rest, has, rfl, rfl⟩ := h.exists_spelling
    exact ⟨a :: rest, has, rfl, rfl⟩
termination_by structural h
theorem Signature.IsArguments.exists_spelling {s : List Char} {arguments : List TypeArgument}
    (h : IsArguments s arguments) :
    ∃ (a : ArgumentSpelling) (rest : List ArgumentSpelling),
      ArgumentSpelling.AllWellFormed (a :: rest) ∧ ArgumentSpelling.listChars (a :: rest) = s ∧
        ArgumentSpelling.argumentsOf (a :: rest) = arguments :=
  match h with
  | .last ha => by
    obtain ⟨a, hform, rfl, rfl⟩ := ha.exists_spelling
    refine ⟨a, [], ⟨hform, trivial⟩, ?_, ?_⟩
    · rw [ArgumentSpelling.listChars, ArgumentSpelling.listChars, List.append_nil]
    · rw [ArgumentSpelling.argumentsOf, ArgumentSpelling.argumentsOf]
  | .more ha hs => by
    obtain ⟨a, hform, rfl, rfl⟩ := ha.exists_spelling
    obtain ⟨b, rest, hrest, rfl, rfl⟩ := hs.exists_spelling
    refine ⟨a, b :: rest, ⟨hform, hrest⟩, ?_, ?_⟩
    · rw [ArgumentSpelling.listChars]
    · rw [ArgumentSpelling.argumentsOf]
termination_by structural h
theorem Signature.IsArgument.exists_spelling {s : List Char} {a : TypeArgument}
    (h : IsArgument s a) :
    ∃ b : ArgumentSpelling, b.WellFormed ∧ b.chars = s ∧ b.argument = a :=
  match h with
  | .any => ⟨.any, trivial, by rw [ArgumentSpelling.chars], by rw [ArgumentSpelling.argument]⟩
  | .upper h => by
    obtain ⟨x, hx, rfl, rfl⟩ := h.exists_spelling
    exact ⟨.upper x, hx, by rw [ArgumentSpelling.chars], by rw [ArgumentSpelling.argument]⟩
  | .lower h => by
    obtain ⟨x, hx, rfl, rfl⟩ := h.exists_spelling
    exact ⟨.lower x, hx, by rw [ArgumentSpelling.chars], by rw [ArgumentSpelling.argument]⟩
  | .exactly h => by
    obtain ⟨x, hx, rfl, rfl⟩ := h.exists_spelling
    exact ⟨.exactly x, hx, by rw [ArgumentSpelling.chars], by rw [ArgumentSpelling.argument]⟩
termination_by structural h
end

/-- The texts that derive a type are those that spell it. -/
theorem Signature.isType_iff {s : List Char} {t : TypeSignature} :
    IsType s t ↔ ∃ x : TypeSpelling, x.WellFormed ∧ x.chars = s ∧ x.type = t := by
  constructor
  · exact fun h => h.exists_spelling
  · rintro ⟨x, hx, rfl, rfl⟩
    exact hx.isType

/-! ## Section 4: A text has one spelling at most

    Where a type or an argument ends is known from its reader, which finds the end whatever
    follows. So two spellings of one text are compared part by part. -/

section unambiguous

variable {r r' : List Char}

theorem TypeSpelling.WellFormed.append_cancel {x y : TypeSpelling} (hx : x.WellFormed)
    (hy : y.WellFormed) (h : x.chars ++ r = y.chars ++ r') :
    x.type = y.type ∧ x.chars = y.chars ∧ r = r' := by
  have hread := type_complete hx.isType r
  rw [h, type_complete hy.isType r'] at hread
  obtain ⟨htype, rfl⟩ := Prod.mk.inj (Except.ok.inj hread)
  exact ⟨htype.symm, List.append_cancel_right h, rfl⟩

theorem ArgumentSpelling.WellFormed.append_cancel {a b : ArgumentSpelling} (ha : a.WellFormed)
    (hb : b.WellFormed) (h : a.chars ++ r = b.chars ++ r') :
    a.argument = b.argument ∧ a.chars = b.chars ∧ r = r' := by
  have hread := argument_complete ha.isArgument r
  rw [h, argument_complete hb.isArgument r'] at hread
  obtain ⟨hargument, rfl⟩ := Prod.mk.inj (Except.ok.inj hread)
  exact ⟨hargument.symm, List.append_cancel_right h, rfl⟩

/-- Arguments between brackets, or none, in front of a character that does not open a bracket. -/
theorem angled_append_cancel {as bs : List ArgumentSpelling}
    (has : ArgumentSpelling.AllWellFormed as) (hbs : ArgumentSpelling.AllWellFormed bs)
    {c c' : Char} (hc : c ≠ '<') (hc' : c' ≠ '<')
    (h : angled as (ArgumentSpelling.listChars as) ++ c :: r =
      angled bs (ArgumentSpelling.listChars bs) ++ c' :: r') :
    ArgumentSpelling.listChars as = ArgumentSpelling.listChars bs ∧ c = c' ∧ r = r' := by
  cases as with
  | nil =>
    cases bs with
    | nil => simpa using h
    | cons b bs => exact absurd (List.cons.inj h).1 hc
  | cons a as =>
    cases bs with
    | nil => exact absurd (List.cons.inj h).1.symm hc'
    | cons b bs =>
      have hread := arguments_complete (has.isArguments (List.cons_ne_nil a as)) (c :: r)
      have hread' := arguments_complete (hbs.isArguments (List.cons_ne_nil b bs)) (c' :: r')
      simp only [angled_cons, List.cons_append, List.append_assoc, List.nil_append,
        List.cons.injEq, true_and] at h
      rw [h, hread'] at hread
      obtain ⟨rfl, rfl⟩ := List.cons.inj (Prod.mk.inj (Except.ok.inj hread)).2
      exact ⟨List.append_cancel_right h, rfl, rfl⟩

/-- The outermost segment of a class ends at the first delimiter. -/
theorem ClassSpelling.WellFormed.cancel_head {k k' : ClassSpelling} (hk : k.WellFormed)
    (hk' : k'.WellFormed) (h : k.chars = k'.chars) :
    k.head = k'.head ∧ k.afterHead = k'.afterHead := by
  obtain ⟨d, s, hs, hd⟩ := (hk.isClassTail "").eq_cons
  obtain ⟨d', s', hs', hd'⟩ := (hk'.isClassTail "").eq_cons
  have hread := outcome_name endsAt_segment hk.head hd s
  have hread' := outcome_name endsAt_segment hk'.head hd' s'
  have hclosed : k.head.toList ++ (k.afterHead ++ [';']) =
      k'.head.toList ++ (k'.afterHead ++ [';']) := by
    rw [← List.append_assoc, ← List.append_assoc, ← k.chars_eq, ← k'.chars_eq, h]
  rw [hs, hs'] at hclosed
  rw [hclosed, hread'] at hread
  obtain ⟨hhead, htail⟩ := Prod.mk.inj (Except.ok.inj hread)
  rw [← hs, ← hs'] at htail
  exact ⟨hhead.symm, (List.append_cancel_right htail).symm⟩

end unambiguous

mutual
/-- Two spellings with one text are the same. The induction is on the first one. -/
theorem TypeSpelling.WellFormed.eq_of_chars_eq {x y : TypeSpelling} (hx : x.WellFormed)
    (hy : y.WellFormed) (h : x.chars = y.chars) : x = y := by
  -- They write one type, so they are of one kind.
  obtain ⟨htype, -⟩ := hx.append_cancel hy (congrArg (· ++ []) h)
  match x with
  | .primitive p =>
    cases y with
    | primitive q =>
      cases htype
      rfl
    | _ => cases htype
  | .typeVariable name =>
    cases y with
    | typeVariable name' =>
      cases htype
      rfl
    | _ => cases htype
  | .array element =>
    cases y with
    | array element' =>
      rw [TypeSpelling.chars, TypeSpelling.chars] at h
      exact congrArg TypeSpelling.array
        (TypeSpelling.WellFormed.eq_of_chars_eq (x := element) hx hy (List.cons.inj h).2)
    | _ => cases htype
  | .classType k =>
    cases y with
    | classType k' =>
      rw [TypeSpelling.chars, TypeSpelling.chars] at h
      have hchars := List.append_cancel_right (List.cons.inj h).2
      exact congrArg TypeSpelling.classType
        (ClassSpelling.WellFormed.eq_of_chars_eq (k := k) hx hy hchars)
    | _ => cases htype
theorem ClassSpelling.WellFormed.eq_of_chars_eq {k k' : ClassSpelling} (hk : k.WellFormed)
    (hk' : k'.WellFormed) (h : k.chars = k'.chars) : k = k' := by
  obtain ⟨hhead, hafter⟩ := hk.cancel_head hk' h
  -- A semicolon after both shows where the arguments of a last segment end.
  replace hafter := congrArg (· ++ [';']) hafter
  match k with
  | .last name as =>
    obtain ⟨-, has⟩ := hk
    cases k' with
    | last name' bs =>
      obtain ⟨hlist, -⟩ := angled_append_cancel has hk'.2 (by decide) (by decide) hafter
      obtain rfl : name = name' := hhead
      rw [ArgumentSpelling.AllWellFormed.eq_of_listChars_eq has hk'.2 hlist]
    | outer name' bs inner =>
      simp only [ClassSpelling.afterHead, List.append_assoc, List.cons_append] at hafter
      obtain ⟨-, hmark, -⟩ := angled_append_cancel has hk'.2.1 (by decide) (by decide) hafter
      exact absurd hmark (by decide)
  | .outer name as inner =>
    obtain ⟨-, has, hinner⟩ := hk
    cases k' with
    | last name' bs =>
      simp only [ClassSpelling.afterHead, List.append_assoc, List.cons_append] at hafter
      obtain ⟨-, hmark, -⟩ := angled_append_cancel has hk'.2 (by decide) (by decide) hafter
      exact absurd hmark (by decide)
    | outer name' bs inner' =>
      obtain ⟨-, hbs, hinner'⟩ := hk'
      simp only [ClassSpelling.afterHead, List.append_assoc, List.cons_append] at hafter
      obtain ⟨hlist, -, hrest⟩ := angled_append_cancel has hbs (by decide) (by decide) hafter
      obtain rfl : name = name' := hhead
      rw [ArgumentSpelling.AllWellFormed.eq_of_listChars_eq has hbs hlist,
        ClassSpelling.WellFormed.eq_of_chars_eq hinner hinner' (List.append_cancel_right hrest)]
theorem ArgumentSpelling.AllWellFormed.eq_of_listChars_eq {as bs : List ArgumentSpelling}
    (has : ArgumentSpelling.AllWellFormed as) (hbs : ArgumentSpelling.AllWellFormed bs)
    (h : ArgumentSpelling.listChars as = ArgumentSpelling.listChars bs) : as = bs := by
  match as, bs with
  | [], [] => rfl
  | [], b :: bs =>
    obtain ⟨c, s, hs, -⟩ := (hbs.isArguments (List.cons_ne_nil b bs)).eq_cons
    rw [hs, ArgumentSpelling.listChars] at h
    cases h
  | a :: as, [] =>
    obtain ⟨c, s, hs, -⟩ := (has.isArguments (List.cons_ne_nil a as)).eq_cons
    rw [hs, ArgumentSpelling.listChars] at h
    cases h
  | a :: as, b :: bs =>
    obtain ⟨ha, has⟩ := has
    obtain ⟨hb, hbs⟩ := hbs
    rw [ArgumentSpelling.listChars, ArgumentSpelling.listChars] at h
    obtain ⟨-, hchars, hrest⟩ := ha.append_cancel hb h
    rw [ha.eq_of_chars_eq hb hchars, has.eq_of_listChars_eq hbs hrest]
theorem ArgumentSpelling.WellFormed.eq_of_chars_eq {a b : ArgumentSpelling} (ha : a.WellFormed)
    (hb : b.WellFormed) (h : a.chars = b.chars) : a = b := by
  obtain ⟨hargument, -⟩ := ha.append_cancel hb (congrArg (· ++ []) h)
  match a with
  | .any =>
    cases b with
    | any => rfl
    | _ => cases hargument
  | .upper bound =>
    cases b with
    | upper bound' =>
      rw [ArgumentSpelling.chars, ArgumentSpelling.chars] at h
      exact congrArg ArgumentSpelling.upper
        (TypeSpelling.WellFormed.eq_of_chars_eq (x := bound) ha hb (List.cons.inj h).2)
    | _ => cases hargument
  | .lower bound =>
    cases b with
    | lower bound' =>
      rw [ArgumentSpelling.chars, ArgumentSpelling.chars] at h
      exact congrArg ArgumentSpelling.lower
        (TypeSpelling.WellFormed.eq_of_chars_eq (x := bound) ha hb (List.cons.inj h).2)
    | _ => cases hargument
  | .exactly type =>
    cases b with
    | exactly type' =>
      rw [ArgumentSpelling.chars, ArgumentSpelling.chars] at h
      exact congrArg ArgumentSpelling.exactly
        (TypeSpelling.WellFormed.eq_of_chars_eq (x := type) ha hb h)
    | _ => cases hargument
end

theorem TypeSpelling.WellFormed.eq_of_text_eq {x y : TypeSpelling} (hx : x.WellFormed)
    (hy : y.WellFormed) (h : x.text = y.text) : x = y := by
  rw [TypeSpelling.text, TypeSpelling.text, ← String.toList_inj, String.toList_ofList,
    String.toList_ofList] at h
  exact hx.eq_of_chars_eq hy h

/-- Two spellings are the same as soon as texts that start with them are. -/
theorem TypeSpelling.WellFormed.eq_of_append_eq {x y : TypeSpelling} (hx : x.WellFormed)
    (hy : y.WellFormed) {rest rest' : List Char} (h : x.chars ++ rest = y.chars ++ rest') :
    x = y ∧ rest = rest' := by
  obtain ⟨-, hchars, hrest⟩ := hx.append_cancel hy h
  exact ⟨hx.eq_of_chars_eq hy hchars, hrest⟩

/-! ## Section 5: The texts that are types -/

theorem TypeSignature.parse_eq_ok_iff_spelled {text : String} {t : TypeSignature} :
    TypeSignature.parse text = .ok t ↔
      ∃ x : TypeSpelling, x.WellFormed ∧ x.text = text ∧ x.type = t := by
  have htext : ∀ x : TypeSpelling, x.text = text ↔ x.chars = text.toList := by
    intro x
    constructor
    · rintro rfl
      rw [TypeSpelling.text, String.toList_ofList]
    · intro h
      rw [TypeSpelling.text, h, String.ofList_toList]
  simp only [Signature.parse_eq_ok_iff, Signature.isType_iff, htext]

/-- The texts that are read as types are those that spell one, each read as the type it spells. No
    text has two spellings, and none is the beginning of a text that goes on with another one. Every
    other text is refused with the text itself and the size of one of its fronts as offset. -/
theorem TypeSignature.parse_exact (text : String) :
    (∀ t, TypeSignature.parse text = .ok t ↔
      ∃ x : TypeSpelling, x.WellFormed ∧ x.text = text ∧ x.type = t) ∧
    (∀ x y : TypeSpelling, x.WellFormed → y.WellFormed → ∀ rest rest' : String,
      x.text ++ rest = text → y.text ++ rest' = text → x = y ∧ rest = rest') ∧
    ((¬∃ x : TypeSpelling, x.WellFormed ∧ x.text = text) →
      ∃ e, TypeSignature.parse text = .error e ∧ e.signature = text ∧
        e.offset ≤ text.utf8ByteSize ∧
        ∃ before after : String, text = before ++ after ∧ e.offset = before.utf8ByteSize) := by
  refine ⟨fun t => TypeSignature.parse_eq_ok_iff_spelled, ?_, ?_⟩
  · intro x y hx hy rest rest' hxt hyt
    have hchars : x.chars ++ rest.toList = y.chars ++ rest'.toList := by
      have := congrArg String.toList (hxt.trans hyt.symm)
      simpa only [TypeSpelling.text, String.toList_append, String.toList_ofList] using this
    obtain ⟨heq, hrest⟩ := hx.eq_of_append_eq hy hchars
    exact ⟨heq, String.toList_inj.1 hrest⟩
  · intro hnone
    cases hread : TypeSignature.parse text with
    | ok t =>
      obtain ⟨x, hx, htext, -⟩ := TypeSignature.parse_eq_ok_iff_spelled.1 hread
      exact absurd ⟨x, hx, htext⟩ hnone
    | error e =>
      obtain ⟨hsignature, before, after, hsplit, hoffset⟩ := Signature.of_parse_eq_error hread
      refine ⟨e, rfl, hsignature, ?_, before, after, hsplit, hoffset⟩
      rw [hoffset, hsplit, String.utf8ByteSize_append]
      exact Nat.le_add_right _ _

/-- A class in a class with arguments, which are dropped, and a text that ends too early. -/
theorem TypeSignature.parse_exact_entry :
    TypeSignature.parse "LMap<TK;>.Entry<*>;" = .ok (.classType "Map$Entry" [.any]) ∧
    (∀ y : TypeSpelling, y.WellFormed → y.text = "LMap<TK;>.Entry<*>;" →
      y = .classType (.outer "Map" [.exactly (.typeVariable "K")] (.last "Entry" [.any]))) ∧
    ∃ e, TypeSignature.parse "LMap<TK;>.Entry" = .error e ∧ e.offset ≤ 15 := by
  have hwf : TypeSpelling.WellFormed
      (.classType (.outer "Map" [.exactly (.typeVariable "K")] (.last "Entry" [.any]))) :=
    ⟨by decide, ⟨(by decide : IsVariableName "K"), trivial⟩, by decide, trivial, trivial⟩
  have htext : TypeSpelling.text
      (.classType (.outer "Map" [.exactly (.typeVariable "K")] (.last "Entry" [.any]))) =
      "LMap<TK;>.Entry<*>;" := by cbv
  obtain ⟨hread, hunique, -⟩ := TypeSignature.parse_exact "LMap<TK;>.Entry<*>;"
  refine ⟨(hread _).2 ⟨_, hwf, htext, by cbv⟩, ?_, ?_⟩
  · intro y hy hytext
    exact (hunique y _ hy hwf "" "" (by simp [hytext]) (by simp [htext])).1
  · obtain ⟨-, -, hrefused⟩ := TypeSignature.parse_exact "LMap<TK;>.Entry"
    have hhalt : Signature.wholeType "LMap<TK;>.Entry".toList = .error ⟨.classUnfinished, []⟩ := by
      cbv
    obtain ⟨e, he, -, hoffset, -⟩ := hrefused (by
      rintro ⟨x, hx, hxtext⟩
      have hread := TypeSignature.parse_eq_ok_iff_spelled.2 ⟨x, hx, hxtext, rfl⟩
      rw [Signature.parse_eq_ok_iff_wholeType, hhalt] at hread
      cases hread)
    exact ⟨e, he, hoffset⟩

end TypeCatalog
