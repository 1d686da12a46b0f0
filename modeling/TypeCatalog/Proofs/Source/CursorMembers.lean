import TypeCatalog.Proofs.Source.Following

/-! # The cursor over members

    The loops over types, parameters, type variables and members go along the readers of these. A
    loop that keeps what it has found gives that, followed by what the reader gives from there on.
    -/

set_option autoImplicit false

namespace TypeCatalog.Source

variable (text : List Char) (ts : List Token)

/-! ## Section 1: Types -/

theorem follows_furtherParts (name : String) (s : List Token) :
    LoopFollows text ts (TokenCursor.partsFrom name) (furtherParts name s) := by
  fun_induction furtherParts name s with
  | case1 name p d r ih =>
    refine .loop ?_
    refine .peek (.pos rfl ?_)
    refine (follows_group text ts '>' rfl r).bindRound fun _ left => ?_
    exact .again ((ih left).wrap fun _ _ => ⟨_, rfl, rfl⟩)
  | case2 name p d w p' d' r ih =>
    refine .loop ?_
    refine .peek (.neg (by simp) (.peekAt (.pos ⟨rfl, rfl⟩ ?_)))
    exact .advance (.word rfl (.again (ih.wrap fun _ _ => ⟨_, rfl, rfl⟩)))
  | case3 name p d p' d' r ih =>
    refine .loop ?_
    refine .peek (.neg (by simp) (.peekAt (.neg (by simp [TokenCursor.isWord]) ?_)))
    refine .peekAt (.pos ⟨rfl, rfl⟩ (.advance ?_))
    refine (follows_annotated text ts rfl r).bindRound fun _ left => ?_
    exact .again ((ih left).wrap fun _ _ => ⟨_, rfl, rfl⟩)
  | case4 name s harguments hpart hsign =>
    -- The cursor tests for the two forms one by one that the reader leaves out at once.
    refine .loop ?_
    refine .peek (.neg (kindAt_ne harguments) (.peekAt (.neg ?_ (.peekAt (.neg ?_ (.done rfl))))))
    · intro ⟨hdot, hword⟩
      obtain ⟨w, hw⟩ := eq_word_of_isWord hword
      obtain ⟨p, d, p', d', r, rfl⟩ := eq_cons_cons_of_kindAt hdot hw
      exact hpart p d w p' d' r rfl
    · intro ⟨hdot, hat⟩
      obtain ⟨p, d, p', d', r, rfl⟩ := eq_cons_cons_of_kindAt hdot hat
      exact hsign p d p' d' r rfl

theorem follows_dimensions (n : Nat) (s : List Token) :
    LoopFollows text ts (TokenCursor.dimensionsFrom n) (given (n + ·) (dimensions s)) := by
  fun_induction dimensions s generalizing n with
  | case1 p d p' d' r ih =>
    refine .loop ?_
    refine .peek (.peekAt (.pos ⟨rfl, rfl⟩ (.advance (.advance ?_))))
    exact .again ((ih (n + 1)).wrapGiven fun k _ => ⟨k + 1, _, rfl, rfl, by omega⟩)
  | case2 p d p' d' p'' d'' r ih =>
    refine .loop ?_
    refine .peek (.peekAt (.neg (by simp) ?_))
    refine .peekAt (.peekAt (.peekAt (.pos ⟨rfl, rfl, rfl⟩ ?_)))
    refine .advance (.advance (.advance ?_))
    exact .again ((ih (n + 1)).wrapGiven fun k _ => ⟨k + 1, _, rfl, rfl, by omega⟩)
  | case3 p d r ih =>
    refine .loop ?_
    refine .peek (.peekAt (.neg (by simp) ?_))
    refine .peekAt (.peekAt (.peekAt (.neg (by simp) (.pos rfl ?_))))
    refine (follows_annotated text ts rfl r).bindRoundGiven fun _ left => ?_
    exact .again ((ih left n).wrapGiven fun _ _ => ⟨_, _, rfl, rfl, rfl⟩)
  | case4 s hpair hdots hsign =>
    refine .loop ?_
    refine .peek (.peekAt (.neg ?_ (.peekAt (.peekAt (.peekAt (.neg ?_ ?_))))))
    · intro ⟨h0, h1⟩
      obtain ⟨p, d, p', d', r, rfl⟩ := eq_cons_cons_of_kindAt h0 h1
      exact hpair p d p' d' r rfl
    · intro ⟨h0, h1, h2⟩
      obtain ⟨p, d, p', d', r, rfl⟩ := eq_cons_cons_of_kindAt h0 h1
      rw [kindAt_succ, kindAt_succ] at h2
      obtain ⟨p'', d'', r, rfl⟩ := eq_cons_of_kindAt h2
      exact hdots p d p' d' p'' d'' r rfl
    · exact .neg (kindAt_ne hsign) (.done rfl)

theorem follows_writtenType (s : List Token) :
    TailFollows text ts TokenCursor.typeName (writtenType s) := by
  unfold TokenCursor.typeName writtenType
  refine (follows_modifiers text ts s).bind fun _ left => ?_
  refine (follows_identifier text ts left.left).bind fun first left₂ => ?_
  refine (follows_furtherParts text ts first left₂.left).bind fun last left₃ => ?_
  have hdimensions := follows_dimensions text ts 0 left₃.left
  simp only [Nat.zero_add, given_id] at hdimensions
  exact hdimensions.bind fun _ _ => .done rfl

theorem follows_nameDimensions (type : WrittenType) (s : List Token) :
    LoopFollows text ts (TokenCursor.nameDimensionsFrom type) (s := s)
      (.ok ({ type with dimensions := type.dimensions + (nameDimensions s).1 },
        (nameDimensions s).2)) := by
  fun_induction nameDimensions s generalizing type with
  | case1 p d p' d' r n left hrest ih =>
    refine .loop ?_
    refine .peek (.peekAt (.pos ⟨rfl, rfl⟩ (.advance (.advance ?_))))
    have hih := ih { type with dimensions := type.dimensions + 1 }
    rw [hrest] at hih
    refine .again (hih.congr ?_)
    simp only [Except.map, Nat.add_comm n, Nat.add_assoc]
    rfl
  | case2 s h =>
    refine .loop ?_
    refine .peek (.peekAt (.neg ?_ (.done rfl)))
    intro ⟨h0, h1⟩
    obtain ⟨p, d, p', d', r, rfl⟩ := eq_cons_cons_of_kindAt h0 h1
    exact h p d p' d' r rfl

/-! ## Section 2: Parameters and type variables -/

theorem follows_parameter (s : List Token) :
    TailFollows text ts TokenCursor.parameter (parameter s) := by
  unfold TokenCursor.parameter parameter
  refine (follows_writtenType text ts s).bind fun type left => ?_
  refine (follows_identifier text ts left.left).bind fun name left₂ => ?_
  exact (follows_nameDimensions text ts type left₂.left).bind
    (f := fun type => pure (Parameter.mk name type))
    (g := fun p => .ok (⟨name, p.1⟩, left.append (left₂.append p.2).toRest)) fun _ _ => .done rfl

theorem follows_separator (s : List Token) :
    LoopFollows text ts TokenCursor.separator (separator s) := by
  unfold TokenCursor.separator separator
  split
  · exact .accepts rfl (.done rfl)
  · exact .rejects (by simp) (.peek (.neg (by simp) (.done rfl)))
  · next hcomma hclose =>
    exact .rejects (kindAt_ne hcomma) (.peek (.pos (kindAt_ne hclose) .refuse))

theorem follows_parameters (found : List Parameter) (s : List Token) :
    TailFollows text ts (TokenCursor.parametersFrom found) (given (found ++ ·) (parameters s)) := by
  fun_induction parameters s generalizing found with
  | case1 p d r =>
    refine .loop ?_
    refine .accepts rfl ?_
    simp only [given, Except.map, List.append_nil]
    exact .done rfl
  | case2 s h ih =>
    refine .loop ?_
    refine .rejects (kindAt_ne h) ?_
    refine (follows_parameter text ts s).bindRoundGiven fun p left => ?_
    refine (follows_separator text ts left.left).bindRoundGiven fun _ left₂ => ?_
    refine .again ((ih left left₂ _).wrapGiven fun ps left₃ => ⟨_, _, rfl, rfl, ?_⟩)
    by_cases hthis : p.name = "this"
    · rw [if_pos hthis, if_pos hthis]
    · rw [if_neg hthis, if_neg hthis, List.append_assoc]
      rfl

/-- Inside its brackets the cursor counts one level more than the reader. -/
theorem follows_variableNames (names : List String) (depth : Nat) (first : Bool)
    (s : List Token) :
    TailFollows text ts (TokenCursor.typeParametersFrom names (depth + 1) first)
      (given (names ++ ·) (variableNames depth first s)) := by
  fun_induction variableNames depth first s generalizing names with
  | case1 depth first =>
    refine .loop ?_
    exact .peek .refuse
  | case2 depth first p d r ih =>
    refine .loop ?_
    refine .peek (.pos rfl (.advance ?_))
    -- A bracket inside the list is never the first one, so no name comes right after it.
    have hfirst : decide (depth + 1 + 1 = 1) = false := by simp
    rw [hfirst]
    exact .again ((ih names).wrapGiven fun _ _ => ⟨_, _, rfl, rfl, rfl⟩)
  | case3 first p d r =>
    refine .loop ?_
    refine .peek (.neg (by simp) (.pos rfl (.advance (.pos rfl ?_))))
    simp only [given, Except.map, List.append_nil]
    exact .done rfl
  | case4 first p d r depth ih =>
    refine .loop ?_
    refine .peek (.neg (by simp) (.pos rfl (.advance (.neg (by simp) ?_))))
    exact .again ((ih names).wrapGiven fun _ _ => ⟨_, _, rfl, rfl, rfl⟩)
  | case5 depth first p d r ih =>
    refine .loop ?_
    refine .peek (.neg (by simp) (.neg (by simp) ?_))
    by_cases hdepth : depth = 0
    · subst hdepth
      refine .pos ⟨rfl, rfl⟩ (.advance ?_)
      have hih := ih names
      simp only [beq_self_eq_true, Bool.or_true] at hih ⊢
      exact .again (hih.wrapGiven fun _ _ => ⟨_, _, rfl, rfl, rfl⟩)
    · refine .neg (by simpa using hdepth) (.neg (by simp) (.advance ?_))
      have hih := ih names
      simp only [beq_eq_false_iff_ne.2 hdepth, Bool.or_false] at hih ⊢
      exact .again (hih.wrapGiven fun _ _ => ⟨_, _, rfl, rfl, rfl⟩)
  | case6 depth first p d r ih =>
    refine .loop ?_
    refine .peek (.neg (by simp) (.neg (by simp) (.neg (by simp) (.pos rfl ?_))))
    refine (follows_annotated text ts rfl r).bindRoundGiven fun _ left => ?_
    exact .again ((ih left names).wrapGiven fun _ _ => ⟨_, _, rfl, rfl, rfl⟩)
  | case7 depth first w p d r ih =>
    refine .loop ?_
    refine .peek (.advance ?_)
    cases first with
    | true =>
      refine .pos rfl (.again ((ih (names ++ [w])).wrapGiven fun _ _ => ⟨_, _, rfl, rfl, ?_⟩))
      simp
    | false =>
      exact .neg (by simp) (.again ((ih names).wrapGiven fun _ _ => ⟨_, _, rfl, rfl, rfl⟩))
  | case8 depth first t r hopen hclose hcomma hsign hword ih =>
    refine .loop ?_
    refine .peek ?_
    obtain ⟨k, p, d⟩ := t
    cases k with
    | word w => exact (hword w p d rfl).elim
    | literal => exact .advance (.again ((ih names).wrapGiven fun _ _ => ⟨_, _, rfl, rfl, rfl⟩))
    | symbol c =>
      refine .neg (fun h => hopen p d (h ▸ rfl)) (.neg (fun h => hclose p d (h ▸ rfl)) ?_)
      refine .neg (fun h => hcomma p d (h.1 ▸ rfl)) (.neg (fun h => hsign p d (h ▸ rfl)) ?_)
      exact .advance (.again ((ih names).wrapGiven fun _ _ => ⟨_, _, rfl, rfl, rfl⟩))

theorem follows_typeParameters {t : Token} (ht : t.kind = .symbol '<') (r : List Token) :
    Follows text ts (fun l : Tail r => l.left) TokenCursor.typeParameters (t :: r)
      (variableNames 0 true r) := by
  rw [TokenCursor.typeParameters]
  refine .loop (.peek ?_)
  rw [kindAt_zero, ht]
  refine .pos rfl (.advance (.again ?_))
  have hnames := follows_variableNames text ts [] 0 true r
  simp only [List.nil_append, given_id] at hnames
  exact hnames

theorem follows_optionalVariables (s : List Token) :
    LoopFollows text ts TokenCursor.optionalTypeParameters (optionalVariables s) := by
  unfold TokenCursor.optionalTypeParameters optionalVariables
  split
  · next p d r =>
    refine .peek (.pos rfl ?_)
    exact (follows_typeParameters text ts rfl r).wrap fun _ _ => ⟨_, rfl, rfl⟩
  · next h => exact .peek (.neg (kindAt_ne h) (.done rfl))

/-! ## Section 3: Members -/

theorem follows_methodTail (s : List Token) :
    TailFollows text ts TokenCursor.skipMemberTail (methodTail s) := by
  fun_induction methodTail s with
  | case1 =>
    refine .loop ?_
    exact .peek .refuse
  | case2 p d r =>
    refine .loop ?_
    exact .peek (.pos rfl (.advance (.done rfl)))
  | case3 p d r =>
    refine .loop ?_
    refine .peek (.neg (by simp) (.pos rfl ?_))
    exact (follows_group text ts '\x7d' rfl r).bindRound fun _ _ => .done rfl
  | case4 p d r ih =>
    refine .loop ?_
    refine .peek (.neg (by simp) (.neg (by simp) (.pos rfl ?_)))
    refine (follows_group text ts ')' rfl r).bindRound fun _ left => ?_
    exact .again ((ih left).wrap fun _ _ => ⟨_, rfl, rfl⟩)
  | case5 t r hsemicolon hblock hgroup ih =>
    refine .loop ?_
    refine .peek (.neg (kindAt_cons_ne hsemicolon r) (.neg (kindAt_cons_ne hblock r) ?_))
    refine .neg (kindAt_cons_ne hgroup r) (.neg (by simp) (.advance ?_))
    exact .again (ih.wrap fun _ _ => ⟨_, rfl, rfl⟩)

theorem startsField_eq (s : List Token) :
    startsField s = (TokenCursor.isWord (kindAt s 0) && TokenCursor.followsField (kindAt s 1)) := by
  rcases s with _ | ⟨⟨k, p, d⟩, _ | ⟨⟨k', p', d'⟩, r⟩⟩
  · rfl
  · cases k <;> rfl
  · cases k <;> cases k' <;> rfl

theorem endsInitialiser_iff (t : Token) (r : List Token) :
    (kindAt (t :: r) 0 = some (.symbol ',') ∧ TokenCursor.isWord (kindAt (t :: r) 1) = true ∧
      TokenCursor.followsField (kindAt (t :: r) 2) = true) ↔
      t.kind = .symbol ',' ∧ startsField r = true := by
  simp [startsField_eq]

theorem follows_initialiser (s : List Token) :
    LoopFollows text ts TokenCursor.skipInitializerFrom (initialiser s) := by
  fun_induction initialiser s with
  | case1 =>
    refine .loop ?_
    refine .peek (.neg (by simp) (.peekAt (.peekAt (.neg (by simp) ?_))))
    exact .neg (by simp) (.neg (by simp) (.neg (by simp) (.pos rfl .refuse)))
  | case2 p d r =>
    refine .loop ?_
    exact .peek (.pos rfl (.done rfl))
  | case3 p d r ih =>
    refine .loop ?_
    refine .peek (.neg (by simp) (.peekAt (.peekAt (.neg (by simp) (.pos rfl ?_)))))
    refine (follows_group text ts ')' rfl r).bindRound fun _ left => ?_
    exact .again ((ih left).wrap fun _ _ => ⟨_, rfl, rfl⟩)
  | case4 p d r ih =>
    refine .loop ?_
    refine .peek (.neg (by simp) (.peekAt (.peekAt (.neg (by simp) ?_))))
    refine .neg (by simp) (.pos rfl ?_)
    refine (follows_group text ts '\x7d' rfl r).bindRound fun _ left => ?_
    exact .again ((ih left).wrap fun _ _ => ⟨_, rfl, rfl⟩)
  | case5 p d r ih =>
    refine .loop ?_
    refine .peek (.neg (by simp) (.peekAt (.peekAt (.neg (by simp) ?_))))
    refine .neg (by simp) (.neg (by simp) (.pos rfl ?_))
    refine (follows_group text ts ']' rfl r).bindRound fun _ left => ?_
    exact .again ((ih left).wrap fun _ _ => ⟨_, rfl, rfl⟩)
  | case6 t r hsemicolon _ _ _ h =>
    -- The cursor looks for the next declarator before the brackets, which no comma is.
    refine .loop ?_
    refine .peek (.neg (kindAt_cons_ne hsemicolon r) (.peekAt (.peekAt (.pos ?_ (.done rfl)))))
    rwa [endsInitialiser_iff]
  | case7 t r hsemicolon hgroup hblock harray h ih =>
    refine .loop ?_
    refine .peek (.neg (kindAt_cons_ne hsemicolon r) (.peekAt (.peekAt (.neg ?_ ?_))))
    · rwa [endsInitialiser_iff]
    · refine .neg (kindAt_cons_ne hgroup r) (.neg (kindAt_cons_ne hblock r) ?_)
      refine .neg (kindAt_cons_ne harray r) (.neg (by simp) (.advance ?_))
      exact .again (ih.wrap fun _ _ => ⟨_, rfl, rfl⟩)

theorem follows_equals {t : Token} (ht : t.kind = .symbol '=') (r : List Token) :
    Follows text ts (fun l : Rest r => l.left) TokenCursor.skipInitializer (t :: r)
      (initialiser r) := by
  unfold TokenCursor.skipInitializer
  exact .symbol ht (follows_initialiser text ts r)

theorem follows_furtherFields (docs : String) (found : List Member) (s : List Token) :
    TailFollows text ts (TokenCursor.fieldsFrom docs found)
      (given (fun names => found ++ names.map (Member.ofField docs)) (furtherFields s)) := by
  fun_induction furtherFields s generalizing found with
  | case1 p d r =>
    refine .loop ?_
    refine .peek (.pos rfl (.advance ?_))
    simp only [given, Except.map, List.map_nil, List.append_nil]
    exact .done rfl
  | case2 p d r ih =>
    refine .loop ?_
    refine .peek (.neg (by simp) (.pos rfl (.advance ?_)))
    refine (follows_identifier text ts r).bindRoundGiven fun name left => ?_
    exact .again ((ih left _).wrapGiven fun names _ => ⟨name :: names, _, rfl, rfl, by simp⟩)
  | case3 p d r ih =>
    refine .loop ?_
    refine .peek (.neg (by simp) (.neg (by simp) (.pos rfl ?_)))
    refine (follows_equals text ts rfl r).bindRoundGiven fun _ left => ?_
    exact .again ((ih left _).wrapGiven fun _ _ => ⟨_, _, rfl, rfl, rfl⟩)
  | case4 p d r ih =>
    refine .loop ?_
    refine .peek (.neg (by simp) (.neg (by simp) (.neg (by simp) (.pos rfl ?_))))
    refine (follows_group text ts ']' rfl r).bindRoundGiven fun _ left => ?_
    exact .again ((ih left _).wrapGiven fun _ _ => ⟨_, _, rfl, rfl, rfl⟩)
  | case5 s hsemicolon hcomma hequals harray =>
    refine .loop ?_
    refine .peek (.neg (kindAt_ne hsemicolon) (.neg (kindAt_ne hcomma) ?_))
    exact .neg (kindAt_ne hequals) (.neg (kindAt_ne harray) .refuse)

theorem follows_callable (kind : MemberKind) (docs name : String) (typeVariables : List String)
    {t : Token} (ht : t.kind = .symbol '(') (r : List Token) :
    Follows text ts (fun l : Tail r => l.left) (TokenCursor.callable kind docs name typeVariables)
      (t :: r) (callable kind docs name typeVariables r) := by
  unfold TokenCursor.callable callable
  have hparameters := follows_parameters text ts [] r
  simp only [List.nil_append, given_id] at hparameters
  refine .symbol ht (hparameters.bind fun found left => ?_)
  exact (follows_methodTail text ts left.left).bind fun _ _ => .done rfl

theorem follows_afterMemberName (docs name : String) (typeVariables : List String)
    (s : List Token) :
    TailFollows text ts (TokenCursor.afterName docs name typeVariables)
      (afterMemberName docs name typeVariables s) := by
  unfold TokenCursor.afterName afterMemberName
  split
  · next p d r =>
    refine .peek (.pos rfl ?_)
    exact (follows_callable text ts .method docs name typeVariables rfl r).wrap
      fun _ _ => ⟨_, rfl, rfl⟩
  · next h =>
    refine .peek (.neg (kindAt_ne h) ?_)
    exact (follows_furtherFields text ts docs [.ofField docs name] s).ofGiven
      fun _ _ => ⟨_, rfl, rfl⟩

theorem follows_typedMembers (docs : String) (typeVariables : List String) (s : List Token) :
    TailFollows text ts (TokenCursor.typedMembers docs typeVariables)
      (typedMembers docs typeVariables s) := by
  unfold TokenCursor.typedMembers typedMembers
  refine (follows_writtenType text ts s).bind fun _ left => ?_
  refine (follows_identifier text ts left.left).bind fun name left₂ => ?_
  exact (follows_afterMemberName text ts docs name typeVariables left₂.left).wrap
    fun _ _ => ⟨_, rfl, rfl⟩

theorem follows_membersAfterVariables (owner docs : String) (typeVariables : List String)
    (s : List Token) :
    TailFollows text ts (TokenCursor.membersAfter owner docs typeVariables)
      (membersAfterVariables owner docs typeVariables s) := by
  unfold TokenCursor.membersAfter membersAfterVariables
  split
  · next w p d p' d' r =>
    by_cases howner : w = owner
    · rw [if_pos howner]
      refine .peek (.peekAt (.pos ⟨by rw [← howner]; rfl, rfl⟩ (.advance ?_)))
      exact (follows_callable text ts .constructor docs owner typeVariables rfl r).wrap
        fun _ _ => ⟨_, rfl, rfl⟩
    · rw [if_neg howner]
      refine .peek (.peekAt (.neg ?_ (follows_typedMembers text ts docs typeVariables _)))
      intro ⟨hword, _⟩
      exact howner (by simpa using hword)
  · next h =>
    refine .peek (.peekAt (.neg ?_ (follows_typedMembers text ts docs typeVariables s)))
    intro ⟨hword, hopen⟩
    obtain ⟨p, d, p', d', r, rfl⟩ := eq_cons_cons_of_kindAt hword hopen
    exact h owner p d p' d' r rfl

theorem follows_memberVariables (s : List Token) :
    LoopFollows text ts TokenCursor.memberTypeParameters (memberVariables s) := by
  unfold TokenCursor.memberTypeParameters memberVariables
  split
  · next p d r =>
    refine .peek (.pos rfl ((follows_typeParameters text ts rfl r).bind fun names left => ?_))
    exact (follows_modifiers text ts left.left).bind fun _ _ => .done rfl
  · next h => exact .peek (.neg (kindAt_ne h) (.done rfl))

theorem follows_members (owner docs : String) (s : List Token) :
    TailFollows text ts (TokenCursor.members owner docs) (members owner docs s) := by
  unfold TokenCursor.members members
  refine (follows_memberVariables text ts s).bind fun typeVariables left => ?_
  exact (follows_membersAfterVariables text ts owner docs typeVariables left.left).wrap
    fun _ _ => ⟨_, rfl, rfl⟩

end TypeCatalog.Source
