import TypeCatalog.Proofs.Source.OffsetLexer

/-! # Lexical elements

    A text is spelled by lexical elements: blanks, comments, identifiers, numbers, literals and
    symbols. What an element is says nothing about how it is found. An element ends where it is
    meant to end if nothing follows that goes on with it, so a sequence of elements that are kept
    apart is lexed to one token for each identifier, number, literal and symbol. What stands inside
    a comment or a literal is never looked at. -/

set_option autoImplicit false

namespace TypeCatalog.Source

open Text.Utf8 (size)

/-! ## Section 1: Elements -/

/-- A blank, a tab, a line feed, a carriage return or a form feed. -/
def IsBlank (c : Char) : Prop := c ∈ [' ', '\t', '\n', '\r', '\x0c']

/-- A letter, an underscore, a dollar sign or any character outside ASCII. -/
def IsNameStart (c : Char) : Prop := c.isAlpha ∨ c ∈ ['_', '$'] ∨ 0x80 ≤ c.toNat

/-- What an identifier goes on with. -/
def IsNamePart (c : Char) : Prop := IsNameStart c ∨ c.isDigit

/-- What a number goes on with. -/
def IsNumberPart (c : Char) : Prop := c.isAlpha ∨ c.isDigit ∨ c ∈ ['_', '.']

/-- Any other character. -/
def IsSymbol (c : Char) : Prop :=
  ¬ IsBlank c ∧ ¬ IsNameStart c ∧ ¬ c.isDigit ∧ c ∉ ['"', '\'']

instance (c : Char) : Decidable (IsBlank c) :=
  inferInstanceAs (Decidable (c ∈ [' ', '\t', '\n', '\r', '\x0c']))

instance (c : Char) : Decidable (IsNameStart c) :=
  inferInstanceAs (Decidable (c.isAlpha ∨ c ∈ ['_', '$'] ∨ 0x80 ≤ c.toNat))

instance (c : Char) : Decidable (IsSymbol c) :=
  inferInstanceAs (Decidable (¬ IsBlank c ∧ ¬ IsNameStart c ∧ ¬ c.isDigit ∧ c ∉ ['"', '\'']))

/-- What can stand between two quotes of a kind: escapes, which are a reverse solidus and any
    character but a line feed, and characters other than that quote, a reverse solidus and a line
    feed. -/
inductive IsQuotable (quote : Char) : List Char → Prop
  | nil : IsQuotable quote []
  | escape {c : Char} {s : List Char} :
      c ≠ '\n' → IsQuotable quote s → IsQuotable quote ('\\' :: c :: s)
  | plain {c : Char} {s : List Char} :
      c ∉ [quote, '\\', '\n'] → IsQuotable quote s → IsQuotable quote (c :: s)

/-- With a mark after it, a text has the mark nowhere before. -/
def EndsAtFirst (mark s : List Char) : Prop :=
  ∀ t, t <:+ s → t ≠ [] → ¬ mark <+: t ++ mark

instance (mark s : List Char) : Decidable (EndsAtFirst mark s) :=
  decidable_of_iff (∀ k ≤ s.length, s.drop k ≠ [] → ¬ mark <+: s.drop k ++ mark) {
    mp h t ht := by
      rw [List.suffix_iff_eq_drop.1 ht]
      exact h _ (Nat.sub_le _ _)
    mpr h k _ := h _ (List.drop_suffix k s) }

/-- A lexical element. -/
inductive Element where
  | blank (c : Char) (h : IsBlank c)
  /-- A comment through the end of its line. -/
  | lineComment (s : List Char) (h : '\n' ∉ s)
  | blockComment (s : List Char) (h : ¬ ['*', '/'] <:+: s)
  | identifier (first : Char) (more : List Char) (hfirst : IsNameStart first)
    (hmore : ∀ c ∈ more, IsNamePart c)
  | number (first : Char) (more : List Char) (hfirst : first.isDigit)
    (hmore : ∀ c ∈ more, IsNumberPart c)
  /-- A string or a character. -/
  | literal (quote : Char) (s : List Char) (hquote : quote ∈ ['"', '\''])
    (h : IsQuotable quote s)
  /-- A text block in which no three quotes stand in a row. -/
  | textBlock (s : List Char) (h : EndsAtFirst ['"', '"', '"'] s)
  | symbol (c : Char) (h : IsSymbol c)

/-- A string. -/
def Element.string (s : List Char) (h : IsQuotable '"' s) : Element := literal '"' s (by decide) h

/-- How an element is spelled. -/
def Element.spelling : Element → List Char
  | blank c _ => [c]
  | lineComment s _ => '/' :: '/' :: (s ++ ['\n'])
  | blockComment s _ => '/' :: '*' :: (s ++ ['*', '/'])
  | identifier first more _ _ => first :: more
  | number first more _ _ => first :: more
  | literal quote s _ _ => quote :: (s ++ [quote])
  | textBlock s _ => '"' :: '"' :: '"' :: (s ++ ['"', '"', '"'])
  | symbol c _ => [c]

/-- The token that an element is, if it is one. -/
def Element.kind? : Element → Option TokenKind
  | identifier first more _ _ => some (.word (String.ofList (first :: more)))
  | number _ _ _ _ => some .literal
  | literal _ _ _ _ => some .literal
  | textBlock _ _ => some .literal
  | symbol c _ => some (.symbol c)
  | _ => none

/-- The documentation that a comment is: it has two asterisks at its start and more than four
    bytes. -/
def documentation? (comment : List Char) : Option String :=
  if ['/', '*', '*'] <+: comment ∧ 4 < size comment then some (String.ofList comment) else none

/-- The documentation that an element is, if it is any. -/
def Element.docs? : Element → Option String
  | blockComment s h => documentation? (blockComment s h).spelling
  | _ => none

/-- How a sequence of elements is spelled. -/
def spelling (es : List Element) : List Char := es.flatMap Element.spelling

/-! ## Section 2: Tokens of a sequence -/

/-- The last documentation after the last token of a sequence. -/
def docsAfter (es : List Element) : Option String :=
  (es.reverse.takeWhile fun e => e.kind?.isNone).findSome? Element.docs?

/-- The token of an element after a sequence: it starts where the spelling of the sequence ends. -/
def tokenAfter (before : List Element) (e : Element) : Option Token :=
  e.kind?.map fun kind => ⟨kind, size (spelling before), docsAfter before⟩

/-- The tokens of a sequence after another one. -/
def tokensAfter (before : List Element) : List Element → List Token
  | [] => []
  | e :: es => (tokenAfter before e).toList ++ tokensAfter (before ++ [e]) es

/-! ## Section 3: Elements that are kept apart -/

/-- Whether a text does not go on with an element that stands before it. -/
def Element.EndsBefore (e : Element) (rest : List Char) : Prop :=
  match e with
  | identifier _ _ _ _ => ∀ c ∈ rest.head?, ¬ IsNamePart c
  | number _ _ _ _ => ∀ c ∈ rest.head?, ¬ IsNumberPart c
  | literal quote s _ _ => quote = '"' → s = [] → rest.head? ≠ some '"'
  | symbol c _ => c = '/' → rest.head? ≠ some '/' ∧ rest.head? ≠ some '*'
  | _ => True

/-- No element is gone on with by what follows it, be that another one or the rest of the text. -/
def Apart : List Element → List Char → Prop
  | [], _ => True
  | e :: es, rest => e.EndsBefore (spelling es ++ rest) ∧ Apart es rest

/-- Whether a sequence starts with white space, if with anything. -/
def StartsBlank : List Element → Prop
  | [] => True
  | .blank _ _ :: _ => True
  | _ => False

/-- White space follows each token but the last one, if nothing at all comes after that. -/
def Spaced : List Element → Prop
  | [] => True
  | e :: es => (e.kind?.isSome → StartsBlank es) ∧ Spaced es

@[simp]
theorem spelling_nil : spelling [] = [] := rfl

@[simp]
theorem spelling_cons (e : Element) (es : List Element) :
    spelling (e :: es) = e.spelling ++ spelling es :=
  List.flatMap_cons ..

@[simp]
theorem spelling_append (es es' : List Element) :
    spelling (es ++ es') = spelling es ++ spelling es' :=
  List.flatMap_append ..

/-- A character of white space goes on with nothing. -/
theorem IsBlank.not_part {c : Char} (h : IsBlank c) :
    ¬ IsNamePart c ∧ ¬ IsNumberPart c ∧ c ≠ '"' ∧ c ≠ '/' ∧ c ≠ '*' := by
  simp only [IsBlank, List.mem_cons, List.not_mem_nil, or_false] at h
  rcases h with rfl | rfl | rfl | rfl | rfl <;> simp [IsNamePart, IsNumberPart, IsNameStart]

theorem Element.endsBefore_of_blank (e : Element) {rest : List Char}
    (h : ∀ c ∈ rest.head?, IsBlank c) : e.EndsBefore rest := by
  cases e with
  | identifier => exact fun c hc => (h c hc).not_part.1
  | number => exact fun c hc => (h c hc).not_part.2.1
  | literal => exact fun _ _ hc => (h _ hc).not_part.2.2.1 rfl
  | symbol =>
    intro _
    exact ⟨fun hc => (h _ hc).not_part.2.2.2.1 rfl, fun hc => (h _ hc).not_part.2.2.2.2 rfl⟩
  | blank | lineComment | blockComment | textBlock => trivial

/-- White space after each token keeps the elements apart. -/
theorem Spaced.apart {es : List Element} (h : Spaced es) : Apart es [] := by
  induction es with
  | nil => trivial
  | cons e es ih =>
    obtain ⟨hspace, hes⟩ := h
    refine ⟨?_, ih hes⟩
    rw [List.append_nil]
    cases hkind : e.kind? with
    | none =>
      cases e <;> first | exact trivial | cases hkind
    | some kind =>
      refine e.endsBefore_of_blank ?_
      have hstart := hspace (by rw [hkind]; rfl)
      match es, hstart with
      | [], _ => simp
      | .blank c hc :: _, _ =>
        intro c' hc'
        cases hc'
        exact hc

/-! ## Section 4: Lexing one element -/

theorem isSpace_iff {c : Char} : isSpace c = true ↔ IsBlank c := by
  simp [isSpace, IsBlank, or_assoc]

theorem startsWord_iff {c : Char} : startsWord c = true ↔ IsNameStart c := by
  simp [startsWord, IsNameStart, or_assoc]

theorem continuesWord_iff {c : Char} : continuesWord c = true ↔ IsNamePart c := by
  simp [continuesWord, IsNamePart, startsWord_iff]

theorem continuesNumber_iff {c : Char} : continuesNumber c = true ↔ IsNumberPart c := by
  simp [continuesNumber, IsNumberPart, Char.isAlphanum, or_assoc]

/-- No digit starts a name. -/
theorem IsNameStart.not_digit {c : Char} (h : IsNameStart c) : ¬ c.isDigit := by
  intro hdigit
  have hlt := TextCursor.lt_of_isDigit hdigit
  rcases h with hletter | hmark | hlarge
  · delta Char.isAlpha Char.isUpper Char.isLower at hletter
    simp only [Char.isDigit, Bool.or_eq_true, Bool.and_eq_true, decide_eq_true_eq,
      UInt32.le_iff_toNat_le, ge_iff_le] at hletter hdigit
    rcases hletter with ⟨h, -⟩ | ⟨h, -⟩ <;> exact absurd (Nat.le_trans h hdigit.2) (by decide)
  · simp only [List.mem_cons, List.not_mem_nil, or_false] at hmark
    rcases hmark with rfl | rfl <;> exact absurd hdigit (by decide)
  · exact absurd hlarge (Nat.not_le.2 hlt)

/-- The documentation that waits after a block comment. -/
theorem pendingDocs_comment (s : List Char) (docs : Option String) :
    pendingDocs docs ('/' :: '*' :: (s ++ ['*', '/'])) =
      (documentation? ('/' :: '*' :: (s ++ ['*', '/']))).or docs := by
  rw [pendingDocs, ← TextCursor.isDocComment_closed, TextCursor.isDocComment, documentation?]
  simp only [Bool.and_eq_true, List.isPrefixOf_iff_prefix, decide_eq_true_eq]
  split <;> rfl

/-- A run takes what passes its test, up to a character that does not. -/
theorem run_while_append {p : Char → Bool} {s rest : List Char} (hs : ∀ c ∈ s, p c = true)
    (hrest : ∀ c ∈ rest.head?, p c = false) :
    (Run.while p (s ++ rest)).taken = s ∧ (Run.while p (s ++ rest)).left = rest := by
  have hdrop : rest.takeWhile p = [] ∧ rest.dropWhile p = rest := by
    cases rest with
    | nil => exact ⟨rfl, rfl⟩
    | cons c r =>
      have hc := hrest c rfl
      simp [hc]
  constructor
  · show (s ++ rest).takeWhile p = s
    rw [List.takeWhile_append_of_pos hs, hdrop.1, List.append_nil]
  · show (s ++ rest).dropWhile p = rest
    rw [List.dropWhile_append_of_pos hs, hdrop.2]

/-- The search for a mark stops where the mark is meant to be. -/
theorem throughMark_of_endsAtFirst {mark s : List Char} (h : EndsAtFirst mark s)
    (hmark : mark ≠ []) (done rest : List Char) :
    throughMark mark done (s ++ (mark ++ rest)) = some (done.reverse ++ (s ++ mark), rest) := by
  induction s generalizing done with
  | nil =>
    obtain ⟨c, m, rfl⟩ := List.exists_cons_of_ne_nil hmark
    have hprefix : (c :: m).isPrefixOf (c :: (m ++ rest)) = true := by
      rw [List.isPrefixOf_iff_prefix]
      exact List.prefix_append (c :: m) rest
    rw [List.nil_append, List.cons_append, throughMark, if_pos hprefix, ← List.cons_append,
      List.drop_left, List.nil_append]
  | cons c s ih =>
    have hnot : ¬ mark.isPrefixOf (c :: (s ++ (mark ++ rest))) = true := by
      rw [List.isPrefixOf_iff_prefix]
      intro hprefix
      -- A mark at the start would lie before the end of the one that is meant.
      have hlength : mark.length ≤ (c :: s ++ mark).length := by
        rw [List.length_append]
        exact Nat.le_add_left _ _
      have hwhole : c :: s ++ mark <+: c :: (s ++ (mark ++ rest)) :=
        ⟨rest, by simp⟩
      exact h (c :: s) (List.suffix_refl _) (List.cons_ne_nil c s)
        (List.prefix_of_prefix_length_le hprefix hwhole hlength)
    have hrest : EndsAtFirst mark s := fun t ht => h t (ht.trans (List.suffix_cons c s))
    rw [List.cons_append, throughMark, if_neg hnot, ih hrest]
    simp

/-- No end of a comment stands before the one at the end of it. -/
theorem endsAtFirst_comment {s : List Char} (h : ¬ ['*', '/'] <:+: s) :
    EndsAtFirst ['*', '/'] s := by
  intro t ht hne hmark
  match t, hne with
  | [c], _ =>
    obtain ⟨left, hleft⟩ := hmark
    cases hleft
  | c :: c' :: t, _ =>
    obtain ⟨left, hleft⟩ := hmark
    cases hleft
    exact h (.trans ⟨[], t, rfl⟩ ht.isInfix)

theorem exists_run_through {mark s taken left : List Char}
    (h : throughMark mark [] s = some (taken, left)) :
    ∃ run, Run.through? mark s = some run ∧ run.taken = taken ∧ run.left = left := by
  rw [← TextCursor.map_through?] at h
  obtain ⟨run, hrun, heq⟩ := Option.map_eq_some_iff.1 h
  exact ⟨run, hrun, congrArg Prod.fst heq, congrArg Prod.snd heq⟩

/-- A literal ends at the first quote that is not escaped. -/
theorem throughQuote_of_isQuotable {quote : Char} {s : List Char} (h : IsQuotable quote s)
    (hquote : quote ≠ '\\' ∧ quote ≠ '\n') (done rest : List Char) :
    throughQuote quote done (s ++ quote :: rest) =
      some (done.reverse ++ (s ++ [quote]), rest) := by
  induction h generalizing done with
  | nil =>
    rw [List.nil_append, throughQuote, if_neg hquote.2, if_pos rfl]
    · simp
    · exact fun heq _ => hquote.1 heq
    · exact fun _ _ heq _ => hquote.1 heq
  | @escape c s _ _ ih =>
    rw [List.cons_append, List.cons_append, throughQuote, ih]
    simp
  | @plain c s hc _ ih =>
    simp only [List.mem_cons, List.not_mem_nil, or_false, not_or] at hc
    obtain ⟨hc, hescape, hline⟩ := hc
    rw [List.cons_append, throughQuote, if_neg hline, if_neg hc, ih]
    · simp
    · exact fun heq _ => hescape heq
    · exact fun _ _ heq _ => hescape heq

theorem exists_run_throughQuote {quote : Char} {s taken left : List Char}
    (h : throughQuote quote [] s = some (taken, left)) :
    ∃ run, Run.throughQuote? quote s = some run ∧ run.taken = taken ∧ run.left = left := by
  rw [← TextCursor.map_throughQuote?] at h
  obtain ⟨run, hrun, heq⟩ := Option.map_eq_some_iff.1 h
  exact ⟨run, hrun, congrArg Prod.fst heq, congrArg Prod.snd heq⟩

section lexOnto

variable {done : List Token} {position : Nat} {docs : Option String} {s rest : List Char}

theorem lexOnto_blank {c : Char} (h : IsBlank c) :
    lexOnto done position docs (c :: rest) = lexOnto done (position + 1) docs rest :=
  (Lexes.space (isSpace_iff.2 h) (lexes_lexOnto ..)).eq

theorem lexOnto_lineComment (h : '\n' ∉ s) :
    lexOnto done position docs ('/' :: '/' :: (s ++ '\n' :: rest)) =
      lexOnto done (position + 2 + size s + 1) docs rest := by
  have hs : ∀ c ∈ s, (c != '\n') = true := by
    intro c hc
    rw [bne_iff_ne]
    rintro rfl
    exact h hc
  have hline : ∀ c ∈ ('\n' :: rest).head?, (c != '\n') = false := by simp
  obtain ⟨htaken, hleft⟩ := run_while_append hs hline
  rw [lexOnto, htaken, hleft, lexOnto_blank (by simp [IsBlank])]

theorem lexOnto_blockComment (h : ¬ ['*', '/'] <:+: s) :
    lexOnto done position docs ('/' :: '*' :: (s ++ (['*', '/'] ++ rest))) =
      lexOnto done (position + 2 + size (s ++ ['*', '/']))
        (pendingDocs docs ('/' :: '*' :: (s ++ ['*', '/']))) rest := by
  obtain ⟨run, hrun, htaken, hleft⟩ := exists_run_through
    (throughMark_of_endsAtFirst (endsAtFirst_comment h) (by simp) [] rest)
  simp only [List.reverse_nil, List.nil_append] at htaken
  rw [lexOnto, hrun]
  dsimp only
  rw [htaken, hleft]

theorem lexOnto_textBlock (h : EndsAtFirst ['"', '"', '"'] s) :
    lexOnto done position docs ('"' :: '"' :: '"' :: (s ++ (['"', '"', '"'] ++ rest))) =
      lexOnto (⟨.literal, position, docs⟩ :: done)
        (position + 3 + size (s ++ ['"', '"', '"'])) none rest := by
  obtain ⟨run, hrun, htaken, hleft⟩ := exists_run_through
    (throughMark_of_endsAtFirst h (by simp) [] rest)
  simp only [List.reverse_nil, List.nil_append] at htaken
  rw [lexOnto, hrun]
  dsimp only
  rw [htaken, hleft]

theorem lexOnto_literal {quote : Char} (hquote : quote ∈ ['"', '\'']) (h : IsQuotable quote s)
    (hends : quote = '"' → s = [] → rest.head? ≠ some '"') :
    lexOnto done position docs (quote :: (s ++ quote :: rest)) =
      lexOnto (⟨.literal, position, docs⟩ :: done) (position + 1 + size (s ++ [quote])) none
        rest := by
  have hother : isSpace quote = false ∧ quote ≠ '\\' ∧ quote ≠ '\n' ∧ quote ≠ '/' := by
    simp only [List.mem_cons, List.not_mem_nil, or_false] at hquote
    rcases hquote with rfl | rfl <;> decide
  obtain ⟨run, hrun, htaken, hleft⟩ := exists_run_throughQuote
    (throughQuote_of_isQuotable h ⟨hother.2.1, hother.2.2.1⟩ [] rest)
  simp only [List.reverse_nil, List.nil_append] at htaken
  have hstart : StartsToken quote (s ++ quote :: rest) := by
    refine ⟨Bool.eq_false_iff.1 hother.1, fun _ heq _ => hother.2.2.2 heq,
      fun _ heq _ => hother.2.2.2 heq, ?_⟩
    -- The first character of a literal is no quote, so no text block starts here.
    rintro r rfl heq
    cases h with
    | nil => exact hends rfl rfl (by rw [List.nil_append, List.cons.injEq] at heq; simp [heq.2])
    | escape => exact absurd (List.cons.inj heq).1 (by decide)
    | plain hc => exact hc (by simp [(List.cons.inj heq).1])
  have hlexes : Lexes done position docs (quote :: (s ++ quote :: rest)) _ :=
    .literal hstart (by simpa using hquote) hrun (lexes_lexOnto ..)
  rw [hlexes.eq, htaken, hleft]

/-- What starts no blank, comment or literal is told by whether it is a digit or starts a name. -/
theorem lexOnto_other {c : Char} (hblank : ¬ IsBlank c) (hquote : c ∉ ['"', '\''])
    (hslash : c = '/' → rest.head? ≠ some '/' ∧ rest.head? ≠ some '*') :
    lexOnto done position docs (c :: rest) =
      if c.isDigit then
        lexOnto (⟨.literal, position, docs⟩ :: done)
          (position + 1 + size (Run.while continuesNumber rest).taken) none
          (Run.while continuesNumber rest).left
      else if startsWord c then
        lexOnto (⟨.word (String.ofList (c :: (Run.while continuesWord rest).taken)), position,
          docs⟩ :: done) (position + size (c :: (Run.while continuesWord rest).taken)) none
          (Run.while continuesWord rest).left
      else lexOnto (⟨.symbol c, position, docs⟩ :: done) (position + 1) none rest := by
  simp only [List.mem_cons, List.not_mem_nil, or_false] at hquote
  have hstart : StartsToken c rest := by
    refine ⟨mt isSpace_iff.1 hblank, ?_, ?_, ?_⟩
    · rintro r rfl rfl
      exact (hslash rfl).1 rfl
    · rintro r rfl rfl
      exact (hslash rfl).2 rfl
    · rintro r rfl -
      exact hquote (.inl rfl)
  exact hstart.lexOnto_eq hquote done position docs

/-- The characters that start blanks, comments and literals. -/
def openingChars : List Char := [' ', '\t', '\n', '\r', '\x0c', '"', '\'', '/']

theorem not_opening {c : Char} (h : c ∉ openingChars) :
    ¬ IsBlank c ∧ c ∉ ['"', '\''] ∧ c ≠ '/' := by
  simp only [openingChars, IsBlank, List.mem_cons, List.not_mem_nil, or_false, not_or] at h ⊢
  obtain ⟨hspace, htab, hline, hreturn, hfeed, hquote, hsingle, hslash⟩ := h
  exact ⟨⟨hspace, htab, hline, hreturn, hfeed⟩, ⟨hquote, hsingle⟩, hslash⟩

theorem lexOnto_number {c : Char} (hc : c.isDigit) (hs : ∀ c ∈ s, IsNumberPart c)
    (hrest : ∀ c ∈ rest.head?, ¬ IsNumberPart c) :
    lexOnto done position docs (c :: (s ++ rest)) =
      lexOnto (⟨.literal, position, docs⟩ :: done) (position + 1 + size s) none rest := by
  have hopening : ∀ k ∈ openingChars, ¬ k.isDigit := by simp [openingChars]
  obtain ⟨hblank, hquote, hslash⟩ := not_opening fun hmem => hopening c hmem hc
  obtain ⟨htaken, hleft⟩ := run_while_append (p := continuesNumber)
    (fun c hc => continuesNumber_iff.2 (hs c hc))
    (fun c hc => Bool.eq_false_iff.2 fun h => hrest c hc (continuesNumber_iff.1 h))
  rw [lexOnto_other hblank hquote (absurd · hslash), if_pos hc, htaken, hleft]

theorem lexOnto_identifier {c : Char} (hc : IsNameStart c) (hs : ∀ c ∈ s, IsNamePart c)
    (hrest : ∀ c ∈ rest.head?, ¬ IsNamePart c) :
    lexOnto done position docs (c :: (s ++ rest)) =
      lexOnto (⟨.word (String.ofList (c :: s)), position, docs⟩ :: done)
        (position + size (c :: s)) none rest := by
  have hopening : ∀ k ∈ openingChars, ¬ IsNameStart k := by simp [openingChars, IsNameStart]
  obtain ⟨hblank, hquote, hslash⟩ := not_opening fun hmem => hopening c hmem hc
  obtain ⟨htaken, hleft⟩ := run_while_append (p := continuesWord)
    (fun c hc => continuesWord_iff.2 (hs c hc))
    (fun c hc => Bool.eq_false_iff.2 fun h => hrest c hc (continuesWord_iff.1 h))
  rw [lexOnto_other hblank hquote (absurd · hslash), if_neg fun hdigit => hc.not_digit hdigit,
    if_pos (startsWord_iff.2 hc), htaken, hleft]

theorem lexOnto_symbol {c : Char} (h : IsSymbol c)
    (hslash : c = '/' → rest.head? ≠ some '/' ∧ rest.head? ≠ some '*') :
    lexOnto done position docs (c :: rest) =
      lexOnto (⟨.symbol c, position, docs⟩ :: done) (position + 1) none rest := by
  obtain ⟨hblank, hname, hdigit, hquote⟩ := h
  rw [lexOnto_other hblank hquote hslash, if_neg hdigit, if_neg (mt startsWord_iff.1 hname)]

/-- An element is lexed to its token, if it is one, and what follows it is lexed after it. -/
theorem lexOnto_element (e : Element) (h : e.EndsBefore rest) :
    lexOnto done position docs (e.spelling ++ rest) = match e.kind? with
      | some kind => lexOnto (⟨kind, position, docs⟩ :: done) (position + size e.spelling) none rest
      | none => lexOnto done (position + size e.spelling) (e.docs?.or docs) rest := by
  cases e with
  | blank c hc =>
    have hsize : size [c] = 1 :=
      Text.Utf8.size_cons_of_lt (TextCursor.lt_of_isSpace (isSpace_iff.2 hc)) []
    show lexOnto done position docs (c :: rest) = lexOnto done (position + size [c]) docs rest
    rw [lexOnto_blank hc, hsize]
  | lineComment s hs =>
    have hsize : size ('/' :: '/' :: (s ++ ['\n'])) = 2 + (size s + 1) := by
      rw [TextCursor.size_comment (by decide), Text.Utf8.size_append]
      rfl
    show lexOnto done position docs ('/' :: '/' :: (s ++ ['\n'] ++ rest)) =
      lexOnto done (position + size ('/' :: '/' :: (s ++ ['\n']))) docs rest
    rw [hsize, List.append_assoc, List.singleton_append, lexOnto_lineComment hs]
    simp only [Nat.add_assoc]
  | blockComment s hs =>
    show lexOnto done position docs ('/' :: '*' :: (s ++ ['*', '/'] ++ rest)) =
      lexOnto done (position + size ('/' :: '*' :: (s ++ ['*', '/'])))
        ((documentation? ('/' :: '*' :: (s ++ ['*', '/']))).or docs) rest
    rw [TextCursor.size_comment (by decide), List.append_assoc, lexOnto_blockComment hs,
      pendingDocs_comment, Nat.add_assoc]
  | identifier c s hc hs => exact lexOnto_identifier hc hs h
  | number c s hc hs =>
    show lexOnto done position docs (c :: (s ++ rest)) =
      lexOnto (⟨.literal, position, docs⟩ :: done) (position + size (c :: s)) none rest
    rw [lexOnto_number hc hs h, Text.Utf8.size_cons_of_lt (TextCursor.lt_of_isDigit hc),
      Nat.add_assoc]
  | literal quote s hquote hs =>
    have hlt : quote.toNat < 0x80 := by
      simp only [List.mem_cons, List.not_mem_nil, or_false] at hquote
      rcases hquote with rfl | rfl <;> decide
    show lexOnto done position docs (quote :: (s ++ [quote] ++ rest)) =
      lexOnto (⟨.literal, position, docs⟩ :: done) (position + size (quote :: (s ++ [quote]))) none
        rest
    rw [List.append_assoc, List.singleton_append, lexOnto_literal hquote hs h,
      Text.Utf8.size_cons_of_lt hlt, Nat.add_assoc]
  | textBlock s hs =>
    have hsize : size ('"' :: '"' :: '"' :: (s ++ ['"', '"', '"'])) =
        3 + size (s ++ ['"', '"', '"']) :=
      Text.Utf8.size_append ['"', '"', '"'] _
    show lexOnto done position docs ('"' :: '"' :: '"' :: (s ++ ['"', '"', '"'] ++ rest)) =
      lexOnto (⟨.literal, position, docs⟩ :: done)
        (position + size ('"' :: '"' :: '"' :: (s ++ ['"', '"', '"']))) none rest
    rw [hsize, List.append_assoc, lexOnto_textBlock hs, Nat.add_assoc]
  | symbol c hc =>
    have hsize : size [c] = 1 :=
      Text.Utf8.size_cons_of_lt (TextCursor.lt_of_not_startsWord (mt startsWord_iff.1 hc.2.1)) []
    show lexOnto done position docs (c :: rest) =
      lexOnto (⟨.symbol c, position, docs⟩ :: done) (position + size [c]) none rest
    rw [lexOnto_symbol hc h, hsize]

end lexOnto

/-! ## Section 5: Lexing a sequence -/

/-- After a token no documentation waits; after anything else it is that one's, if it has one. -/
theorem docsAfter_concat (es : List Element) (e : Element) :
    docsAfter (es ++ [e]) = if e.kind?.isSome then none else e.docs?.or (docsAfter es) := by
  rw [docsAfter, List.reverse_append, List.reverse_singleton, List.singleton_append]
  cases hkind : e.kind? with
  | some kind => simp [hkind]
  | none =>
    rw [List.takeWhile_cons_of_pos (by simp [hkind]), List.findSome?_cons]
    cases e.docs? <;> rfl

theorem tokenAfter_of_kind {before : List Element} {e : Element} {kind : TokenKind}
    (h : e.kind? = some kind) :
    tokenAfter before e = some ⟨kind, size (spelling before), docsAfter before⟩ := by
  rw [tokenAfter, h]
  rfl

/-- A sequence that is kept apart is lexed to its tokens, and the rest of the text after them. -/
theorem lexOnto_spelling {es : List Element} {rest : List Char} (h : Apart es rest)
    (done : List Token) (before : List Element) :
    lexOnto done (size (spelling before)) (docsAfter before) (spelling es ++ rest) =
      lexOnto ((tokensAfter before es).reverse ++ done) (size (spelling (before ++ es)))
        (docsAfter (before ++ es)) rest := by
  induction es generalizing done before with
  | nil => rw [List.append_nil, tokensAfter]; rfl
  | cons e es ih =>
    obtain ⟨hends, hes⟩ := h
    have hsize : size (spelling before) + size e.spelling = size (spelling (before ++ [e])) := by
      simp
    have hdocs := docsAfter_concat before e
    have hassoc : before ++ e :: es = before ++ [e] ++ es := by simp
    rw [spelling_cons, List.append_assoc, lexOnto_element e hends, hassoc, tokensAfter, hsize]
    cases hkind : e.kind? with
    | none =>
      rw [hkind, Option.isSome_none, if_neg Bool.false_ne_true] at hdocs
      have htoken : tokenAfter before e = none := by rw [tokenAfter, hkind]; rfl
      rw [htoken, ← hdocs]
      exact ih hes done (before ++ [e])
    | some kind =>
      rw [hkind, Option.isSome_some, if_pos rfl] at hdocs
      rw [tokenAfter_of_kind hkind, ← hdocs]
      refine (ih hes _ (before ++ [e])).trans ?_
      simp

/-- Elements with white space after each token are lexed to one token for each identifier, number,
    literal and symbol among them, each one where it starts and with the last documentation after
    the token before; then comes the end of the text. -/
theorem lex_spelling {es : List Element} (h : Spaced es) :
    lex (spelling es) = .ok (tokensAfter [] es) ∧
    TextCursor.lex.result (spelling es) 0 =
      some (.ok (lexemes (spelling es) (tokensAfter [] es), size (spelling es))) := by
  have hlex : lex (spelling es) = .ok (tokensAfter [] es) := by
    have hrun := lexOnto_spelling h.apart [] []
    rw [List.append_nil, List.append_nil, List.nil_append] at hrun
    refine hrun.trans ?_
    rw [lexOnto, List.reverse_reverse]
  refine ⟨hlex, ?_⟩
  rw [TextCursor.result_lex, hlex]
  rfl

/-- A documented name and a literal, with a comment between them; a quote stands in each comment,
    and an escaped quote, the start of a comment and a letter of two bytes in the literal. -/
def documentedName : List Element := [
  .blockComment ['*', '\'', '/', '*', '*'] (by decide),
  .identifier 'a' [] (by decide) (by simp),
  .blank '\t' (by decide),
  .lineComment ['"'] (by decide),
  .string ['\\', '"', '/', '*', '\\', 'é']
    (.escape (by decide) (.plain (by decide) (.plain (by decide) (.escape (by decide) .nil))))]

theorem lex_documentedName :
    Spaced documentedName ∧
    String.ofList (spelling documentedName) = "/**'/***/a\t//\"\n\"\\\"/*\\é\"" ∧
    lex (spelling documentedName) = .ok [
      ⟨.word "a", 9, some "/**'/***/"⟩, ⟨.literal, 15, none⟩] := by
  have hspaced : Spaced documentedName := by
    simp [documentedName, Spaced, StartsBlank, Element.kind?, Element.string]
  have htokens : tokensAfter [] documentedName =
      [⟨.word "a", 9, some "/**'/***/"⟩, ⟨.literal, 15, none⟩] := by
    decide +kernel
  exact ⟨hspaced, by decide +kernel, htokens ▸ (lex_spelling hspaced).1⟩

end TypeCatalog.Source
