import TypeCatalog.Proofs.Source.CursorMembers

/-! # The cursor over declarations

    What a cursor takes for the documentation of a declaration is a slice of its lexemes, which is
    found to lie inside them. The declarations of a type are added to it one by one, and in the end
    the type is the one that the reader puts together. A whole file is read up to the end of the
    text. -/

set_option autoImplicit false

namespace TypeCatalog.Source

/-! ## Section 1: Documentation -/

section docs

variable {α τ : Type} {text : List Char} {ts : List Token} {left : τ → List Token}
  {s r : List Token} {x : Except Halt (α × τ)}

/-- The lexemes between two places are the tokens between them and what stands at the second. -/
theorem slice_lexemes (hs : s <:+ ts) (hr : r <:+ s) :
    ((lexemes text ts).take (ts.length - r.length + 1)).drop (ts.length - s.length) =
      (takenBefore s r).map Token.lexeme ++ [frontLexeme text r] := by
  obtain ⟨mid, rfl⟩ := hr
  obtain ⟨taken, rfl⟩ := hs
  have hmid : takenBefore (mid ++ r) r = mid := by simp [takenBefore]
  have hstart : (taken ++ (mid ++ r)).length - (mid ++ r).length =
      (taken.map Token.lexeme).length := by simp
  have hstop : (taken ++ (mid ++ r)).length - r.length + 1 =
      (taken.map Token.lexeme).length + ((mid.map Token.lexeme).length + 1) := by
    simp
    omega
  have hlexemes : lexemes text (taken ++ (mid ++ r)) =
      taken.map Token.lexeme ++ (mid.map Token.lexeme ++ lexemes text r) := by simp [lexemes]
  have hfront : (lexemes text r).take 1 = [frontLexeme text r] := by cases r <;> rfl
  rw [hmid, hstart, hstop, hlexemes, List.take_length_add_append, List.take_length_add_append,
    hfront, List.drop_left]

theorem result_since (hs : s <:+ ts) (hr : r <:+ s) :
    (TokenCursor.since (ts.length - s.length)).result (lexemes text ts) (ts.length - r.length) =
      some (.ok ((takenBefore s r).map Token.lexeme ++ [frontLexeme text r],
        ts.length - r.length)) := by
  have hlength : (lexemes text ts).length = ts.length + 1 := by simp [lexemes]
  have hle := hr.length_le
  show (if ts.length - s.length ≤ ts.length - r.length + 1 ∧
      ts.length - r.length + 1 ≤ (lexemes text ts).length then
    (pure (((lexemes text ts).take (ts.length - r.length + 1)).drop (ts.length - s.length)) :
      TokenCursor (List Lexeme)) else throw Stop.overrun).result _ _ = _
  rw [if_pos ⟨by omega, by omega⟩, result_pure, slice_lexemes hs hr]

/-- The first documentation in the slice is that of the declaration. -/
theorem result_docsSince (hs : s <:+ ts) (hr : r <:+ s) :
    (TokenCursor.docsSince (ts.length - s.length)).result (lexemes text ts)
      (ts.length - r.length) = some (.ok (docsBetween s r, ts.length - r.length)) := by
  have hdocs : ((takenBefore s r).map Token.lexeme ++ [frontLexeme text r]).findSome? Lexeme.docs =
      (takenBefore s r ++ r.take 1).findSome? Token.docs := by
    rw [List.findSome?_append, List.findSome?_append, List.findSome?_map]
    cases r <;> rfl
  rw [TokenCursor.docsSince, result_step (result_since hs hr), docsBetween, ← hdocs]
  cases ((takenBefore s r).map Token.lexeme ++ [frontLexeme text r]).findSome? Lexeme.docs <;> rfl

theorem Follows.docsSince {f : String → TokenCursor α} (hs : s <:+ ts) (hr : r <:+ s)
    (h : Follows text ts left (f (docsBetween s r)) r x) :
    Follows text ts left (TokenCursor.docsSince (ts.length - s.length) >>= f) r x := by
  intro hrest
  exact agrees_of_result_eq (result_docsSince hs hr) (h hrest)

end docs

variable (text : List Char) (ts : List Token)

/-! ## Section 2: Enum constants and headers -/

theorem follows_enumConstant (s : List Token) :
    TailFollows text ts TokenCursor.enumConstant (enumConstant s) := by
  intro hs
  unfold TokenCursor.enumConstant enumConstant
  refine Follows.get ?_ hs
  refine (follows_modifiers text ts s).bind fun _ left => ?_
  refine .docsSince hs left.isSuffix ?_
  refine (follows_identifier text ts left.left).bind fun name left₂ => ?_
  refine (follows_optionalGroup text ts '(' ')' left₂.left).bind fun _ left₃ => ?_
  exact (follows_optionalGroup text ts '\x7b' '\x7d' left₃.left).bind fun _ _ => .done rfl

theorem follows_enumConstants (found : List Member) (s : List Token) :
    LoopFollows text ts (TokenCursor.enumConstantsFrom found)
      (given (found ++ ·) (enumConstants s)) := by
  fun_induction enumConstants s generalizing found with
  | case1 =>
    refine .loop ?_
    exact .peek (.neg (by simp) (.neg (by simp) (.neg (by simp) (.pos rfl .refuse))))
  | case2 p d r =>
    refine .loop ?_
    refine .peek (.pos rfl (.advance ?_))
    simp only [given, Except.map, List.append_nil]
    exact .done rfl
  | case3 p d r =>
    refine .loop ?_
    refine .peek (.neg (by simp) (.pos rfl ?_))
    simp only [given, Except.map, List.append_nil]
    exact .done rfl
  | case4 p d r ih =>
    refine .loop ?_
    refine .peek (.neg (by simp) (.neg (by simp) (.pos rfl (.advance ?_))))
    exact .again ((ih found).wrapGiven fun _ _ => ⟨_, _, rfl, rfl, rfl⟩)
  | case5 s hne hsemicolon hclose hcomma ih =>
    refine .loop ?_
    refine .peek (.neg (kindAt_ne hsemicolon) (.neg (kindAt_ne hclose) ?_))
    refine .neg (kindAt_ne hcomma) (.neg (kindAt_ne_none hne) ?_)
    refine (follows_enumConstant text ts s).bindRoundGiven fun constant left => ?_
    exact .again ((ih left _).wrapGiven fun _ _ => ⟨_, _, rfl, rfl, by simp⟩)

theorem follows_constantsOf (keyword : String) (s : List Token) :
    LoopFollows text ts (TokenCursor.constantsOf keyword) (constantsOf keyword s) := by
  unfold TokenCursor.constantsOf constantsOf
  by_cases hkeyword : keyword = "enum"
  · rw [if_pos hkeyword, if_pos hkeyword]
    have hconstants := follows_enumConstants text ts [] s
    simp only [List.nil_append, given_id] at hconstants
    exact hconstants
  · rw [if_neg hkeyword, if_neg hkeyword]
    exact .done rfl

theorem follows_typeHeader (s : List Token) :
    TailFollows text ts TokenCursor.skipHeader (typeHeader s) := by
  fun_induction typeHeader s with
  | case1 =>
    refine .loop ?_
    exact .peek (.neg (by simp) (.neg (by simp) (.pos rfl .refuse)))
  | case2 p d r =>
    refine .loop ?_
    exact .peek (.pos rfl (.advance (.done rfl)))
  | case3 p d r ih =>
    refine .loop ?_
    refine .peek (.neg (by simp) (.pos rfl ?_))
    refine (follows_group text ts ')' rfl r).bindRound fun _ left => ?_
    exact .again ((ih left).wrap fun _ _ => ⟨_, rfl, rfl⟩)
  | case4 t r hopen hgroup ih =>
    refine .loop ?_
    refine .peek (.neg (kindAt_cons_ne hopen r) (.neg (kindAt_cons_ne hgroup r) ?_))
    exact .neg (by simp) (.advance (.again (ih.wrap fun _ _ => ⟨_, rfl, rfl⟩)))

/-! ## Section 3: Types and their bodies -/

/-- A type with the declarations of a body added to it. -/
def TypeUnit.with (t : TypeUnit) (found : List Declared) : TypeUnit :=
  { t with
    members := t.members ++ found.flatMap Declared.memberList
    types := t.types ++ found.filterMap Declared.type? }

theorem TypeUnit.with_nil (t : TypeUnit) : t.with [] = t := by
  cases t
  simp [TypeUnit.with]

theorem eq_word_of_startsType {k : Option TokenKind} (h : TokenCursor.startsType k = true) :
    ∃ w ∈ typeWords, k = some (.word w) := by
  rcases k with _ | w | _ | c
  · cases h
  · exact ⟨w, by simpa [TokenCursor.startsType] using h, rfl⟩
  · cases h
  · cases h

section nested

variable (inner : String → List String → TokenCursor TypeUnit)

/-- A declaration is followed if the types that stand in it are. -/
theorem follows_bareDeclaration (owner docs : String) (outer : List String) (s : List Token)
    (htypes : ∀ r : List Token, r.length ≤ s.length →
      TailFollows text ts (inner docs outer) (typeUnit docs outer r)) :
    TailFollows text ts (TokenCursor.bareDeclaration inner owner docs outer)
      (bareDeclaration owner docs outer s) := by
  unfold TokenCursor.bareDeclaration bareDeclaration
  split
  · next p d r =>
    refine .peek (.pos rfl ?_)
    exact (follows_group text ts '\x7d' rfl r).bind fun _ _ => .done rfl
  · next p d r => exact .peek (.neg (by simp) (.pos rfl (.advance (.done rfl))))
  · next p d r =>
    refine .peek (.neg (by simp) (.neg (by simp) (.neg (by simp [TokenCursor.startsType]) ?_)))
    refine .pos rfl (.advance ?_)
    exact (htypes r (by simp)).bind fun _ _ => .done rfl
  · next w p d r =>
    refine .peek (.neg (by simp) (.neg (by simp) ?_))
    by_cases hw : w ∈ typeWords
    · rw [if_pos hw]
      refine .pos (by simpa [TokenCursor.startsType] using hw) ?_
      exact (htypes (⟨.word w, p, d⟩ :: r) (Nat.le_refl _)).bind fun _ _ => .done rfl
    · rw [if_neg hw]
      refine .neg (by simpa [TokenCursor.startsType] using hw) (.neg (by simp) ?_)
      exact (follows_members text ts owner docs _).bind fun _ _ => .done rfl
  · next hblock hsemicolon hsign hword =>
    refine .peek (.neg (kindAt_ne hblock) (.neg (kindAt_ne hsemicolon) (.neg ?_ ?_)))
    · intro h
      obtain ⟨w, -, hw⟩ := eq_word_of_startsType h
      exact kindAt_ne (hword w) hw
    · refine .neg (kindAt_ne hsign) ?_
      exact (follows_members text ts owner docs s).bind fun _ _ => .done rfl

theorem follows_declaration (owner : String) (outer : List String) (s : List Token)
    (htypes : ∀ (docs : String) (r : List Token), r.length ≤ s.length →
      TailFollows text ts (inner docs outer) (typeUnit docs outer r)) :
    TailFollows text ts (TokenCursor.declaration inner owner outer)
      (declaration owner outer s) := by
  intro hs
  rw [TokenCursor.declaration, declaration]
  refine Follows.get ?_ hs
  refine (follows_modifiers text ts s).bind fun _ left => ?_
  refine .docsSince hs left.isSuffix ?_
  have hdeclaration := follows_bareDeclaration text ts inner owner (docsBetween s left.left) outer
    left.left fun r hr => htypes _ r (Nat.le_trans hr left.length_le)
  exact hdeclaration.wrap fun _ _ => ⟨_, rfl, rfl⟩

theorem follows_body (t : TypeUnit) (s : List Token)
    (htypes : ∀ (docs : String) (outer : List String) (r : List Token), r.length ≤ s.length →
      TailFollows text ts (inner docs outer) (typeUnit docs outer r)) :
    TailFollows text ts (TokenCursor.bodyFrom inner t)
      (given t.with (body t.name t.typeVariables s)) := by
  unfold body
  refine .loop ?_
  split
  · exact .rejects (by simp) (.peek (.pos rfl .refuse))
  · refine .accepts rfl ?_
    simp only [given, Except.map, TypeUnit.with_nil]
    exact .done rfl
  · next hne hclose =>
    refine .rejects (kindAt_ne hclose) (.peek (.neg (kindAt_ne_none hne) ?_))
    refine (follows_declaration text ts inner t.name t.typeVariables s fun docs r hr =>
      htypes docs _ r hr).bindRoundGiven fun first left => ?_
    have hshorter : ∀ (docs : String) (outer : List String) (r : List Token),
        r.length ≤ left.left.length →
          TailFollows text ts (inner docs outer) (typeUnit docs outer r) := by
      intro docs outer r hr
      exact htypes docs outer r (Nat.le_trans hr (Nat.le_of_lt left.lt))
    -- Each kind of declaration is added to the type before the rest of the body is read.
    cases first with
    | nothing =>
      refine .again ((follows_body t left.left hshorter).wrapGiven
        fun found _ => ⟨_, _, rfl, rfl, ?_⟩)
      simp [TypeUnit.with, Declared.memberList, Declared.type?, List.filterMap_cons]
    | type found =>
      refine .again ((follows_body { t with types := t.types ++ [found] } left.left
        hshorter).wrapGiven fun found _ => ⟨_, _, rfl, rfl, ?_⟩)
      simp [TypeUnit.with, Declared.memberList, Declared.type?]
    | members ms =>
      refine .again ((follows_body { t with members := t.members ++ ms } left.left
        hshorter).wrapGiven fun found _ => ⟨_, _, rfl, rfl, ?_⟩)
      simp [TypeUnit.with, Declared.memberList, Declared.type?, List.filterMap_cons]
termination_by s.length
decreasing_by all_goals exact left.lt

end nested

/-- There is room enough for the types inside a type if it is more than there are tokens. -/
theorem follows_typeUnit {room : Nat} (docs : String) (outer : List String) (s : List Token)
    (hroom : s.length < room) :
    TailFollows text ts (TokenCursor.typeUnit room docs outer) (typeUnit docs outer s) := by
  induction room generalizing docs outer s with
  | zero => exact (Nat.not_lt_zero _ hroom).elim
  | succ room ih =>
    -- Two words at least are taken before the body, so there is room for the types in it.
    rw [TokenCursor.typeUnit, typeUnit]
    refine (follows_identifier text ts s).bind fun keyword left => ?_
    refine (follows_identifier text ts left.left).bind fun name left₂ => ?_
    refine (follows_optionalVariables text ts left₂.left).bind fun own left₃ => ?_
    refine (follows_typeHeader text ts left₃.left).bind fun _ left₄ => ?_
    refine (follows_constantsOf text ts keyword left₄.left).bind fun constants left₅ => ?_
    have hbody := follows_body text ts (TokenCursor.typeUnit room)
      ⟨name, docs, outer ++ own, constants, []⟩ left₅.left
    refine (hbody fun docs outer r hr => ih docs outer r ?_).ofGiven fun _ _ => ⟨_, rfl, rfl⟩
    have := left.lt
    have := left₂.lt
    have := left₃.length_le
    have := left₄.lt
    have := left₅.length_le
    omega

/-! ## Section 4: Files -/

/-- A file is read up to the end: nothing is left of the tokens. -/
theorem follows_sourceUnit {room : Nat} (package : String) (types : List TypeUnit)
    (s : List Token) (hroom : s.length < room) :
    Follows text ts (fun _ : Unit => []) (TokenCursor.unitFrom room package types) s
      ((sourceUnit package s).map fun u => ({ u with types := types ++ u.types }, ())) := by
  fun_induction sourceUnit package s generalizing types with
  | case1 package =>
    refine .loop ?_
    refine .peek (.pos rfl ?_)
    simp only [Except.map, List.append_nil]
    exact .done rfl
  | case2 package p d r ih =>
    refine .loop ?_
    refine .peek (.neg (by simp) (.pos rfl (.advance (.again (ih types ?_)))))
    exact Nat.lt_of_succ_lt hroom
  | case3 package p d r ih =>
    refine .loop ?_
    refine .peek (.neg (by simp) (.neg (by simp) (.pos rfl (.advance ?_))))
    refine (follows_qualifiedName text ts r).bindRoundMap fun name left => ?_
    refine (follows_symbol text ts ';' left.left).bindRoundMap fun _ left₂ => ?_
    refine .again (ih name left left₂ types ?_)
    have := left.lt
    have := left₂.lt
    rw [List.length_cons] at hroom
    omega
  | case4 package p d r ih =>
    refine .loop ?_
    refine .peek (.neg (by simp) (.neg (by simp) (.neg (by simp) (.pos rfl ?_))))
    refine (follows_throughSymbol_cons text ts (by simp) r).bindRoundMap fun _ left => ?_
    refine .again (ih left types ?_)
    exact Nat.lt_trans left.lt (Nat.lt_of_succ_lt hroom)
  | case5 package s hne hsemicolon hpackage himport ih =>
    refine .loop ?_
    refine .peek (.neg (kindAt_ne_none hne) (.neg (kindAt_ne hsemicolon) ?_))
    refine .neg (kindAt_ne hpackage) (.neg (kindAt_ne himport) ?_)
    refine (follows_declaration text ts (TokenCursor.typeUnit room) "" [] s fun docs r hr =>
      follows_typeUnit text ts docs [] r (Nat.lt_of_le_of_lt hr hroom)).bindRoundMap
        fun found left => ?_
    refine .again ((ih left (types ++ found.type?.toList) (Nat.lt_trans left.lt hroom)).congr ?_)
    show _ = Except.map _ (Except.map _ (sourceUnit package left.left >>= _))
    cases sourceUnit package left.left with
    | error e => rfl
    | ok u => simp [Except.map, bind, Except.bind, pure, Except.pure]

end TypeCatalog.Source
