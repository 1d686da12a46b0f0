import TypeCatalog.Proofs.Source.Elements
import TypeCatalog.Proofs.Source.PassageReaders

/-! # Bodies

    A body is never read: it is passed over by counting brackets. So two texts that differ only in
    what stands between the braces of a body come to the same declarations, as long as the lexer
    finds the elements there as they are meant. It does so for comments and for strings and
    characters with any escapes in them. But it looks for the end of a text block with no regard to
    escapes, so three quotes in a text block end it even if the first of them is escaped. -/

set_option autoImplicit false

namespace TypeCatalog.Source

open Text.Utf8 (size)

/-! ## Section 1: The same text at another place -/

/-- Two lexings that go on from tokens read before: either both refuse the text, or they add tokens
    that differ in their places at most. -/
def LexedAlike (done done' : List Token) :
    Except Error (List Token) → Except Error (List Token) → Prop
  | .ok us, .ok us' => ∃ ts ts', us = done.reverse ++ ts ∧ us' = done'.reverse ++ ts' ∧
      ts.map Token.look = ts'.map Token.look
  | .error _, .error _ => True
  | _, _ => False

section alike

variable {done done' : List Token} {x x' : Except Error (List Token)}

theorem LexedAlike.of_cons {t t' : Token} (h : LexedAlike (t :: done) (t' :: done') x x')
    (hlook : t.look = t'.look) : LexedAlike done done' x x' := by
  match x, x', h with
  | .ok us, .ok us', ⟨ts, ts', hts, hts', halike⟩ =>
    refine ⟨t :: ts, t' :: ts', ?_, ?_, ?_⟩
    · rw [hts, List.reverse_cons, List.append_assoc, List.singleton_append]
    · rw [hts', List.reverse_cons, List.append_assoc, List.singleton_append]
    · rw [List.map_cons, List.map_cons, hlook, halike]
  | .error _, .error _, _ => trivial

/-- A text is lexed in the same way wherever it stands, by the same rules. -/
theorem Lexes.exists_alike {position : Nat} {docs : Option String} {s : List Char}
    (h : Lexes done position docs s x) (done' : List Token) (position' : Nat) :
    ∃ x', Lexes done' position' docs s x' ∧ LexedAlike done done' x x' := by
  induction h generalizing done' position' with
  | nil => exact ⟨_, .nil, [], [], by simp, by simp, rfl⟩
  | line _ ih =>
    obtain ⟨x', hx, halike⟩ := ih done' _
    exact ⟨x', .line hx, halike⟩
  | openComment hrun => exact ⟨_, .openComment hrun, trivial⟩
  | comment hrun _ ih =>
    obtain ⟨x', hx, halike⟩ := ih done' _
    exact ⟨x', .comment hrun hx, halike⟩
  | openBlock hrun => exact ⟨_, .openBlock hrun, trivial⟩
  | block hrun _ ih =>
    obtain ⟨x', hx, halike⟩ := ih _ _
    exact ⟨x', .block hrun hx, halike.of_cons rfl⟩
  | space hspace _ ih =>
    obtain ⟨x', hx, halike⟩ := ih done' _
    exact ⟨x', .space hspace hx, halike⟩
  | openLiteral hstart hquote hrun => exact ⟨_, .openLiteral hstart hquote hrun, trivial⟩
  | literal hstart hquote hrun _ ih =>
    obtain ⟨x', hx, halike⟩ := ih _ _
    exact ⟨x', .literal hstart hquote hrun hx, halike.of_cons rfl⟩
  | number hstart hquote hdigit _ ih =>
    obtain ⟨x', hx, halike⟩ := ih _ _
    exact ⟨x', .number hstart hquote hdigit hx, halike.of_cons rfl⟩
  | word hstart hquote hdigit hword _ ih =>
    obtain ⟨x', hx, halike⟩ := ih _ _
    exact ⟨x', .word hstart hquote hdigit hword hx, halike.of_cons rfl⟩
  | symbol hstart hquote hdigit hword _ ih =>
    obtain ⟨x', hx, halike⟩ := ih _ _
    exact ⟨x', .symbol hstart hquote hdigit hword hx, halike.of_cons rfl⟩

theorem lexedAlike_lexOnto (done done' : List Token) (position position' : Nat)
    (docs : Option String) (s : List Char) :
    LexedAlike done done' (lexOnto done position docs s) (lexOnto done' position' docs s) := by
  obtain ⟨x', hx, halike⟩ := (lexes_lexOnto done position docs s).exists_alike done' position'
  rwa [hx.eq]

end alike

/-! ## Section 2: Elements in braces -/

/-- An opening brace. -/
def openBrace : Element := .symbol '\x7b' (by decide)

/-- A closing brace. -/
def closeBrace : Element := .symbol '\x7d' (by decide)

/-- Elements with others in braces after them. -/
def braced (front inside : List Element) : List Element :=
  front ++ openBrace :: (inside ++ [closeBrace])

/-- What can stand in the braces of a body: any blanks, comments, identifiers, numbers, literals and
    symbols of which the brackets of a kind are well nested. That kind is the brace. Only if the
    body is itself in a group of other brackets, as in the arguments of an initialiser or of an
    annotation, it is that of the group; then no comment may be documentation. -/
structure IsContent (bracket : Char) (es : List Element) : Prop where
  apart : Apart es ['\x7d']
  nested : WellNested bracket (closerOf bracket) (tokensAfter [] es)
  undocumented : bracket ≠ '\x7b' → ∀ e ∈ es, e.docs? = none

/-- A text ends where a body begins: nothing is wrong with it but that a bracket is left open, which
    is the brace at its end or opens a group around that. -/
def OpensBody (bracket : Char) (text : String) : Prop :=
  ∃ position, SourceUnit.parse text = .error ⟨position, .unexpected (.closing bracket) none⟩

section elements

variable {e : Element} {es es' : List Element} {rest rest' : List Char}

/-- What an element is not gone on with is told by the first character. -/
theorem Element.endsBefore_congr (h : rest.head? = rest'.head?) (hends : e.EndsBefore rest) :
    e.EndsBefore rest' := by
  unfold EndsBefore at hends ⊢
  rw [← h]
  exact hends

theorem Apart.congr (h : rest.head? = rest'.head?) (hes : Apart es rest) : Apart es rest' := by
  induction es with
  | nil => trivial
  | cons e es ih =>
    refine ⟨Element.endsBefore_congr ?_ hes.1, ih hes.2⟩
    rw [List.head?_append, List.head?_append, h]

theorem Apart.append (hes : Apart es (spelling es' ++ rest)) (hes' : Apart es' rest) :
    Apart (es ++ es') rest := by
  induction es with
  | nil => exact hes'
  | cons e es ih =>
    refine ⟨?_, ih hes.2⟩
    show e.EndsBefore (spelling (es ++ es') ++ rest)
    rw [spelling_append, List.append_assoc]
    exact hes.1

theorem apart_symbol {c : Char} (h : IsSymbol c) (hc : c ≠ '/') (rest : List Char) :
    Apart [.symbol c h] rest :=
  ⟨fun heq => absurd heq hc, trivial⟩

/-- The elements in braces are kept apart if those before and between the braces are. -/
theorem apart_braced {front inside : List Element} {bracket : Char} (hfront : Apart front ['\x7b'])
    (hinside : IsContent bracket inside) (rest : List Char) : Apart (braced front inside) rest := by
  have hclose : Apart [closeBrace] rest := apart_symbol _ (by decide) rest
  have hinside : Apart inside (spelling [closeBrace] ++ rest) := hinside.apart.congr (by rfl)
  have hopen : Apart (openBrace :: (inside ++ [closeBrace])) rest :=
    ⟨(apart_symbol _ (by decide) _).1, hinside.append hclose⟩
  have hfront : Apart front (spelling (openBrace :: (inside ++ [closeBrace])) ++ rest) :=
    hfront.congr (by rfl)
  exact hfront.append hopen

theorem tokensAfter_append (before es es' : List Element) : tokensAfter before (es ++ es') =
    tokensAfter before es ++ tokensAfter (before ++ es) es' := by
  induction es generalizing before with
  | nil => rw [List.append_nil]; rfl
  | cons e es ih =>
    rw [List.cons_append, tokensAfter, ih, tokensAfter, List.append_assoc, List.append_assoc,
      List.singleton_append]

/-- The kinds of tokens do not depend on what stands before them. -/
theorem map_kind_tokensAfter (before es : List Element) :
    (tokensAfter before es).map Token.kind = es.filterMap Element.kind? := by
  induction es generalizing before with
  | nil => rfl
  | cons e es ih =>
    rw [tokensAfter, List.map_append, ih, List.filterMap_cons, tokenAfter]
    cases e.kind? <;> rfl

/-- Without documentation in a sequence and before it, its tokens have none, and nothing waits after
    it. -/
theorem docs_eq_none {before : List Element} (hbefore : docsAfter before = none)
    (hes : ∀ e ∈ es, e.docs? = none) :
    (∀ t ∈ tokensAfter before es, t.docs = none) ∧ docsAfter (before ++ es) = none := by
  induction es generalizing before with
  | nil =>
    rw [List.append_nil]
    exact ⟨by simp [tokensAfter], hbefore⟩
  | cons e es ih =>
    obtain ⟨he, hes⟩ := List.forall_mem_cons.1 hes
    have hnext : docsAfter (before ++ [e]) = none := by
      rw [docsAfter_concat, he, hbefore, Option.or_none, ite_self]
    obtain ⟨htokens, hafter⟩ := ih hnext hes
    rw [List.append_assoc, List.singleton_append] at hafter
    refine ⟨?_, hafter⟩
    intro t ht
    rw [tokensAfter, List.mem_append, Option.mem_toList, tokenAfter, Option.map_eq_some_iff] at ht
    obtain ⟨kind, -, rfl⟩ | ht := ht
    · exact hbefore
    · exact htokens t ht

/-- How brackets nest is told by the kinds of the tokens. -/
theorem depthAfter_congr {o c : Char} {depth : Nat} {s s' : List Token}
    (h : s.map Token.kind = s'.map Token.kind) :
    depthAfter o c depth s = depthAfter o c depth s' := by
  induction s generalizing depth s' with
  | nil =>
    cases s' with
    | nil => rfl
    | cons t r => cases h
  | cons t r ih =>
    cases s' with
    | nil => cases h
    | cons t' r' =>
      obtain ⟨hkind, hr⟩ := List.cons.inj h
      unfold depthAfter
      rw [hkind]
      split
      · exact ih hr
      · split
        · cases depth with
          | zero => rfl
          | succ depth => exact ih hr
        · exact ih hr

end elements

/-! ## Section 3: Two bodies -/

/-- Reading along a text comes to what it is parsed to. -/
theorem result_sourceUnit_parse {text : List Char} {ts : List Token} (hlex : lex text = .ok ts)
    {room : Nat} (hroom : ts.length < room) :
    (TokenCursor.sourceUnit room).result (lexemes text ts) 0 =
      some (match SourceUnit.parse (String.ofList text) with
        | .ok u => .ok (u, ts.length)
        | .error e => .error (.refused e)) := by
  have hparse : SourceUnit.parse (String.ofList text) =
      (sourceUnit "" ts).mapError (Halt.inText text) := by
    rw [SourceUnit.parse, String.toList_ofList, hlex]
    rfl
  rw [result_sourceUnit _ hroom, hparse]
  cases sourceUnit "" ts <;> rfl

/-- A text whose tokens pass over braces is parsed like the one with the other filling, if nothing
    is wrong with the text up to the opening brace but that a bracket is left open. -/
theorem Passage.parse_second {p : Passage} {u : SourceUnit}
    (hcut : lex p.cutText = .ok (p.front ++ [p.opening]))
    (hfirst : lex p.firstText = .ok (p.through p.first ++ p.rest))
    (hsecond : lex p.secondText = .ok (p.through p.second ++ p.rest'))
    (hopens : OpensBody p.bracket (String.ofList p.cutText))
    (h : SourceUnit.parse (String.ofList p.firstText) = .ok u) :
    SourceUnit.parse (String.ofList p.secondText) = .ok u := by
  obtain ⟨position, hposition⟩ := hopens
  -- Enough room for all three texts: to be compared, they are read with the same.
  let room := (p.front ++ [p.opening]).length + (p.through p.first ++ p.rest).length +
    (p.through p.second ++ p.rest').length + 1
  have hcut := result_sourceUnit_parse hcut (show _ < room by omega)
  have hfirst := result_sourceUnit_parse hfirst (show _ < room by omega)
  have hsecond := result_sourceUnit_parse hsecond (show _ < room by omega)
  rw [hposition] at hcut
  rw [h] at hfirst
  obtain ⟨d, -, hresumed⟩ := (passes_sourceUnit room (kindOf p.cut 0)).resumed (Nat.zero_le _) rfl
    hcut ⟨position, rfl⟩ hfirst
  have hsame := hsecond.symm.trans hresumed
  split at hsame
  · next u' hu' =>
    simp only [Option.some.injEq, Except.ok.injEq, Prod.mk.injEq] at hsame
    rw [hu', hsame.1]
  · cases hsame

/-- The token of an opening brace after a sequence. -/
def openingAfter (front : List Element) : Token :=
  ⟨.symbol '\x7b', size (spelling front), docsAfter front⟩

/-- The token of the closing brace. -/
def closingAfter (front inside : List Element) : Token :=
  ⟨.symbol '\x7d', size (spelling (front ++ openBrace :: inside)),
    docsAfter (front ++ openBrace :: inside)⟩

section bodies

variable {bracket : Char} {front inside inside' : List Element}

theorem docsAfter_openBrace (front : List Element) : docsAfter (front ++ [openBrace]) = none :=
  docsAfter_concat front openBrace

/-- The tokens of a body fill its braces. -/
def IsContent.filling (h : IsContent bracket inside) (front : List Element) : Filling bracket where
  inside := tokensAfter (front ++ [openBrace]) inside
  closing := closingAfter front inside
  closing_kind := rfl
  nested := by
    rw [WellNested, ← h.nested]
    exact depthAfter_congr (by rw [map_kind_tokensAfter, map_kind_tokensAfter])
  undocumented hbracket := by
    obtain ⟨htokens, hafter⟩ := docs_eq_none (docsAfter_openBrace front) (h.undocumented hbracket)
    rw [List.append_assoc, List.singleton_append] at hafter
    rw [List.forall_mem_append, List.forall_mem_singleton]
    exact ⟨htokens, hafter⟩

theorem tokensAfter_braced (front inside : List Element) : tokensAfter [] (braced front inside) =
    tokensAfter [] front ++ openingAfter front ::
      (tokensAfter (front ++ [openBrace]) inside ++ [closingAfter front inside]) := by
  rw [braced, tokensAfter_append, List.nil_append, tokensAfter, tokensAfter_append]
  simp only [List.append_assoc, List.singleton_append]
  rfl

/-- A text with a body is lexed to the tokens through the closing brace, and the rest of the text
    after them. -/
theorem lex_braced (hfront : Apart front ['\x7b']) (hinside : IsContent bracket inside)
    (after : List Char) : lex (spelling (braced front inside) ++ after) =
      lexOnto (tokensAfter [] (braced front inside)).reverse (size (spelling (braced front inside)))
        none after := by
  have hrun := lexOnto_spelling (apart_braced hfront hinside after) [] []
  have hdocs : docsAfter (braced front inside) = none := by
    rw [braced, ← List.cons_append, ← List.append_assoc, docsAfter_concat]
    rfl
  rw [List.append_nil, List.nil_append, hdocs] at hrun
  exact hrun

/-- The text that ends with the opening brace. -/
theorem lex_cut (hfront : Apart front ['\x7b']) :
    lex (spelling (front ++ [openBrace])) = .ok (tokensAfter [] front ++ [openingAfter front]) := by
  have hapart : Apart (front ++ [openBrace]) [] :=
    hfront.append (apart_symbol _ (by decide) [])
  have hrun := lexOnto_spelling hapart [] []
  rw [List.append_nil, List.append_nil, List.nil_append, tokensAfter_append] at hrun
  refine hrun.trans ?_
  rw [lexOnto, List.reverse_reverse]
  rfl

/-- Two texts with bodies, and tokens after these that differ in their places at most. -/
def IsContent.passage (hinside : IsContent bracket inside) (hinside' : IsContent bracket inside')
    (front : List Element) (after : List Char) {ts ts' : List Token}
    (halike : ts.map Token.look = ts'.map Token.look) : Passage where
  bracket := bracket
  front := tokensAfter [] front
  opening := openingAfter front
  opening_kind := rfl
  first := hinside.filling front
  second := hinside'.filling front
  rest := ts
  rest' := ts'
  alike := halike
  cutText := spelling (front ++ [openBrace])
  firstText := spelling (braced front inside) ++ after
  secondText := spelling (braced front inside') ++ after

/-- What a text comes to with one body it comes to with another one. -/
theorem parse_body_of_parse {after : List Char} {u : SourceUnit} (hfront : Apart front ['\x7b'])
    (hopens : OpensBody bracket (String.ofList (spelling (front ++ [openBrace]))))
    (hinside : IsContent bracket inside) (hinside' : IsContent bracket inside')
    (h : SourceUnit.parse (String.ofList (spelling (braced front inside) ++ after)) = .ok u) :
    SourceUnit.parse (String.ofList (spelling (braced front inside') ++ after)) = .ok u := by
  have halike := lexedAlike_lexOnto (tokensAfter [] (braced front inside)).reverse
    (tokensAfter [] (braced front inside')).reverse (size (spelling (braced front inside)))
    (size (spelling (braced front inside'))) none after
  rw [← lex_braced hfront hinside, ← lex_braced hfront hinside'] at halike
  cases hfirst : lex (spelling (braced front inside) ++ after) with
  | error e =>
    rw [SourceUnit.parse, String.toList_ofList, hfirst] at h
    cases h
  | ok us =>
    rw [hfirst] at halike
    cases hsecond : lex (spelling (braced front inside') ++ after) with
    | error e =>
      rw [hsecond] at halike
      exact halike.elim
    | ok us' =>
      rw [hsecond] at halike
      obtain ⟨ts, ts', rfl, rfl, hlook⟩ := halike
      -- The tokens after the closing brace are `ts` and `ts'`.
      rw [List.reverse_reverse, tokensAfter_braced] at hfirst hsecond
      exact Passage.parse_second (p := hinside.passage hinside' front after hlook) (lex_cut hfront)
        hfirst hsecond hopens h

/-- Bodies do not matter. Where a body begins, a text is parsed to the same declarations with any
    two contents of it, and it is refused with one if it is with the other. The contents can be
    anything whose elements are kept apart and whose brackets are well nested. Comments, strings and
    characters in them can hold anything, and text blocks anything but three quotes in a row. -/
theorem parse_body_iff (hfront : Apart front ['\x7b'])
    (hopens : OpensBody bracket (String.ofList (spelling (front ++ [openBrace]))))
    (hinside : IsContent bracket inside) (hinside' : IsContent bracket inside')
    (after : List Char) (u : SourceUnit) :
    SourceUnit.parse (String.ofList (spelling (braced front inside) ++ after)) = .ok u ↔
      SourceUnit.parse (String.ofList (spelling (braced front inside') ++ after)) = .ok u :=
  ⟨parse_body_of_parse hfront hopens hinside hinside',
    parse_body_of_parse hfront hopens hinside' hinside⟩

end bodies

/-- What stands before the body of a method: `class It{void go()`. -/
def methodFront : List Element := [
  .identifier 'c' ['l', 'a', 's', 's'] (by decide) (by simp [IsNamePart, IsNameStart]),
  .blank ' ' (by decide),
  .identifier 'I' ['t'] (by decide) (by simp [IsNamePart, IsNameStart]), openBrace,
  .identifier 'v' ['o', 'i', 'd'] (by decide) (by simp [IsNamePart, IsNameStart]),
  .blank ' ' (by decide), .identifier 'g' ['o'] (by decide) (by simp [IsNamePart, IsNameStart]),
  .symbol '(' (by decide), .symbol ')' (by decide)]

/-- Braces in a string, a character, a text block and two comments, and a block of its own. -/
def quotedBraces : List Element := [
  .string ['\\', '"', '\x7d'] (.escape (by decide) (.plain (by decide) .nil)),
  .symbol ';' (by decide), openBrace,
  .literal '\'' ['\x7b'] (by decide) (.plain (by decide) .nil),
  .lineComment [' ', '\x7d'] (by decide),
  .textBlock ['\n', '\x7d', '\\', '"', '\n'] (by decide), closeBrace,
  .blockComment ['*', '\x7b'] (by decide)]

theorem parse_quotedBraces :
    IsContent '\x7b' quotedBraces ∧
    SourceUnit.parse (String.ofList
        (spelling (braced methodFront quotedBraces) ++ "int x;\x7d".toList)) =
      .ok ⟨"", [⟨"It", "", [], [⟨.method, "go", "", [], []⟩, .ofField "" "x"], []⟩]⟩ := by
  have hfront : Apart methodFront ['\x7b'] := by
    simp [methodFront, Apart, Element.EndsBefore, Element.spelling, IsNamePart, IsNameStart,
      openBrace]
  have hopens : OpensBody '\x7b' (String.ofList (spelling (methodFront ++ [openBrace]))) :=
    ⟨19, by with_unfolding_all rfl⟩
  have hempty : IsContent '\x7b' [] := ⟨trivial, rfl, absurd rfl⟩
  have hquoted : IsContent '\x7b' quotedBraces := by
    refine ⟨?_, by decide +kernel, absurd rfl⟩
    simp [quotedBraces, Apart, Element.EndsBefore, Element.string, openBrace, closeBrace]
  exact ⟨hquoted, (parse_body_iff hfront hopens hempty hquoted _ _).1 (by with_unfolding_all rfl)⟩

-- The escaped quote and the two after it end the text block, and so the three that are meant to do
-- so start another one.
theorem parse_escaped_quotes :
    SourceUnit.parse "class A\x7bvoid f()\x7b\x7dint x;\x7d" =
      .ok ⟨"", [⟨"A", "", [], [⟨.method, "f", "", [], []⟩, .ofField "" "x"], []⟩]⟩ ∧
    SourceUnit.parse "class A\x7bvoid f()\x7bString s=\"\"\"\n\\\"\"\" \x7d\"\"\";\x7dint x;\x7d" =
      .error ⟨36, .openTextBlock⟩ :=
  ⟨by with_unfolding_all rfl, by with_unfolding_all rfl⟩

end TypeCatalog.Source
