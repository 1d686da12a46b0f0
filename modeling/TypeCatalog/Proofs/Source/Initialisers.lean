import TypeCatalog.Proofs.Source.Members

/-! # Initialisers of fields

    A field may have an initialiser, which is passed over up to the semicolon or to the comma before
    the next field. Outside of brackets a comma stands only between type arguments, and the reader
    tells the two commas apart by two tokens of what follows: the next field is a name with an
    equals sign, a comma, a semicolon or a square bracket after it. A type argument that is a name
    with a further argument after it, or an array of it, starts like a field. A declaration without
    such an argument is read to its fields; with one it is refused. -/

set_option autoImplicit false

namespace TypeCatalog.Source

/-! ## Section 1: The grammar of initialisers -/

/-- Any tokens in round, curly or square brackets. -/
inductive IsBracketed : List Token → Prop
  | round {g : List Token} : IsGroup '(' ')' g → IsBracketed g
  | curly {g : List Token} : IsGroup '\x7b' '\x7d' g → IsBracketed g
  | square {g : List Token} : IsGroup '[' ']' g → IsBracketed g

/-- An expression, or type arguments in one if it stands inside angle brackets, with the tokens that
    follow each comma up to the end of the type arguments that the comma stands between. An angle
    bracket that encloses nothing is an operator. -/
inductive IsExpression : Bool → List Token → List (List Token) → Prop
  | nil (inside : Bool) : IsExpression inside [] []
  | token {t : Token} {inside : Bool} {s : List Token} {after : List (List Token)} :
      t.kind ∉ ['(', '\x7b', '[', ',', ';'].map TokenKind.symbol →
      (inside = true → t.kind ∉ ['<', '>', '='].map TokenKind.symbol) →
      IsExpression inside s after → IsExpression inside (t :: s) after
  | bracketed {inside : Bool} {g s : List Token} {after : List (List Token)} :
      IsBracketed g → IsExpression inside s after → IsExpression inside (g ++ s) after
  | comma {t : Token} {s : List Token} {after : List (List Token)} :
      t.kind = .symbol ',' → IsExpression true s after → IsExpression true (t :: s) (s :: after)
  | arguments {opening closing : Token} {inside : Bool} {s s' : List Token}
      {after after' : List (List Token)} :
      opening.kind = .symbol '<' → IsExpression true s after → closing.kind = .symbol '>' →
      IsExpression inside s' after' →
      IsExpression inside (opening :: (s ++ closing :: s')) (after ++ after')

/-- An equals sign and an expression, or nothing. -/
inductive IsInitialiser : List Token → List (List Token) → Prop
  | none : IsInitialiser [] []
  | some {sign : Token} {s : List Token} {after : List (List Token)} :
      sign.kind = .symbol '=' → IsExpression false s after → IsInitialiser (sign :: s) after

/-- The names of fields through the semicolon, each with its own dimensions and its initialiser. -/
inductive IsFields : List Token → List String → List (List Token) → Prop
  | last {t u : Token} {name : String} {n : Nat} {s i : List Token}
      {after : List (List Token)} :
      t.kind = .word name → IsPairs s n → IsInitialiser i after → u.kind = .symbol ';' →
      IsFields (t :: (s ++ (i ++ [u]))) [name] after
  | more {t u : Token} {name : String} {names : List String} {n : Nat} {s i s' : List Token}
      {after after' : List (List Token)} :
      t.kind = .word name → IsPairs s n → IsInitialiser i after → u.kind = .symbol ',' →
      IsFields s' names after' →
      IsFields (t :: (s ++ (i ++ u :: s'))) (name :: names) (after ++ after')

/-- Type arguments that start with a name and go on with a comma or a square bracket. -/
def StartsLikeField (s : List Token) : Prop :=
  ∃ t u r w, s = t :: u :: r ∧ t.kind = .word w ∧ u.kind ∈ [',', '['].map TokenKind.symbol

/-! ## Section 2: What stands inside type arguments -/

theorem IsBracketed.exists_cons {g : List Token} (h : IsBracketed g) :
    ∃ t r, g = t :: r ∧ t.kind ∈ ['(', '\x7b', '['].map TokenKind.symbol := by
  cases h with
  | round h =>
    obtain ⟨t, r, rfl, ht, -⟩ := h.exists_cons (by decide)
    exact ⟨t, r, rfl, by simp [ht]⟩
  | curly h =>
    obtain ⟨t, r, rfl, ht, -⟩ := h.exists_cons (by decide)
    exact ⟨t, r, rfl, by simp [ht]⟩
  | square h =>
    obtain ⟨t, r, rfl, ht, -⟩ := h.exists_cons (by decide)
    exact ⟨t, r, rfl, by simp [ht]⟩

section inside

variable {t u : Token} {w : String} {s r left : List Token} {after : List (List Token)}

/-- Neither an equals sign nor a semicolon stands between type arguments. -/
theorem IsExpression.first_inside (h : IsExpression true (t :: s) after) :
    t.kind ∉ ['=', ';'].map TokenKind.symbol := by
  generalize hs : t :: s = ts at h
  cases h with
  | nil => cases hs
  | token hbrackets hinside _ =>
    cases hs
    have hinside := hinside rfl
    simp_all
  | bracketed hg _ =>
    obtain ⟨t', r, rfl, ht⟩ := hg.exists_cons
    cases hs
    intro hmem
    simp only [List.map_cons, List.map_nil, List.mem_cons, List.not_mem_nil, or_false] at ht hmem
    rcases hmem with hmem | hmem <;> simp [hmem] at ht
  | comma ht _ =>
    cases hs
    simp [ht]
  | arguments ht _ _ _ =>
    cases hs
    simp [ht]

/-- What follows a name inside type arguments stands inside them as well. -/
theorem IsExpression.of_word_cons (h : IsExpression true (t :: s) after) (ht : t.kind = .word w) :
    IsExpression true s after := by
  generalize hs : t :: s = ts at h
  cases h with
  | nil => cases hs
  | token _ _ h =>
    cases hs
    exact h
  | bracketed hg _ =>
    obtain ⟨t', r, rfl, ht'⟩ := hg.exists_cons
    cases hs
    simp [ht] at ht'
  | comma ht' _ =>
    cases hs
    cases ht.symm.trans ht'
  | arguments ht' _ _ _ =>
    cases hs
    cases ht.symm.trans ht'

theorem startsField_cons_cons (t u : Token) (r : List Token) :
    startsField (t :: u :: r) = true ↔
      (∃ w, t.kind = .word w) ∧ u.kind ∈ ['=', ',', ';', '['].map TokenKind.symbol := by
  obtain ⟨k, p, d⟩ := t
  obtain ⟨k', p', d'⟩ := u
  cases k with
  | word w => cases k' <;> simp [startsField, or_assoc]
  | literal => simp [startsField]
  | symbol c => simp [startsField]

/-- Type arguments after a comma are taken for a field exactly if they start like one. -/
theorem IsExpression.startsField_append_iff (h : IsExpression true s after)
    (hleft : startsWith (.symbol '>') left = true) :
    startsField (s ++ left) = true ↔ StartsLikeField s := by
  match left, hleft with
  | closing :: left, hleft =>
  have hclosing : closing.kind = .symbol '>' := of_decide_eq_true hleft
  match s with
  | [] =>
    have hnot : ¬ startsField (closing :: left) = true := by
      obtain ⟨_, p, d⟩ := closing
      cases hclosing
      simp [startsField]
    refine iff_of_false hnot ?_
    rintro ⟨t, u, r, w, hs, -⟩
    cases hs
  | [t] =>
    have hnot : ¬ startsField (t :: closing :: left) = true := by
      rw [startsField_cons_cons, hclosing]
      simp
    refine iff_of_false hnot ?_
    rintro ⟨t, u, r, w, hs, -⟩
    cases hs
  | t :: u :: r =>
    rw [List.cons_append, List.cons_append, startsField_cons_cons]
    constructor
    · rintro ⟨⟨w, ht⟩, hu⟩
      have hfirst := (h.of_word_cons ht).first_inside
      refine ⟨t, u, r, w, rfl, ht, ?_⟩
      simp only [List.map_cons, List.map_nil, List.mem_cons, List.not_mem_nil, or_false,
        not_or] at hu hfirst ⊢
      obtain hu | hu | hu | hu := hu
      · exact absurd hu hfirst.1
      · exact .inl hu
      · exact absurd hu hfirst.2
      · exact .inr hu
    · rintro ⟨t', u', r', w, hs, ht, hu⟩
      cases hs
      refine ⟨⟨w, ht⟩, ?_⟩
      simp only [List.map_cons, List.map_nil, List.mem_cons, List.not_mem_nil, or_false] at hu ⊢
      exact hu.elim (fun hu => .inr (.inl hu)) fun hu => .inr (.inr (.inr hu))

end inside

/-! ## Section 3: Names after a field -/

/-- The names of the fields after one, and what is left then. -/
def fieldsAfter (s : List Token) : Except Halt (List String × List Token) := do
  let (names, left) ← furtherFields s
  return (names, left.left)

/-- The same from inside the initialiser of the one. -/
def fieldsAfterExpression (s : List Token) : Except Halt (List String × List Token) := do
  let (_, left) ← initialiser s
  fieldsAfter left.left

section fieldsAfter

variable {t : Token} {w : String} {s r g left : List Token}

theorem reads_furtherFields_iff {names : List String} :
    Reads (furtherFields s) names left ↔ fieldsAfter s = .ok (names, left) := by
  unfold fieldsAfter
  constructor
  · rintro ⟨u, hread, rfl⟩
    rw [hread]
    rfl
  · intro h
    cases hread : furtherFields s with
    | error e =>
      rw [hread] at h
      cases h
    | ok x =>
      rw [hread] at h
      cases h
      exact ⟨_, rfl, rfl⟩

theorem furtherFields_eq_error {e : Halt} (h : fieldsAfter s = .error e) :
    furtherFields s = .error e := by
  unfold fieldsAfter at h
  cases hread : furtherFields s with
  | error e' =>
    rw [hread] at h
    cases h
    rfl
  | ok x =>
    rw [hread] at h
    cases h

theorem fieldsAfter_semicolon (ht : t.kind = .symbol ';') (r : List Token) :
    fieldsAfter (t :: r) = .ok ([], r) := by
  obtain ⟨_, p, d⟩ := t
  cases ht
  rw [fieldsAfter, furtherFields]
  rfl

theorem fieldsAfter_comma {u : Token} (ht : t.kind = .symbol ',') (hu : u.kind = .word w)
    (r : List Token) :
    fieldsAfter (t :: u :: r) = (fieldsAfter r).map fun x => (w :: x.1, x.2) := by
  obtain ⟨_, p, d⟩ := t
  obtain ⟨_, p', d'⟩ := u
  cases ht
  cases hu
  rw [fieldsAfter, furtherFields, bind_assoc]
  refine (reads_identifier rfl rfl).bind_eq fun u hu =>
    Eq.trans ?_ (congrArg (fun s => (fieldsAfter s).map fun x => (w :: x.1, x.2)) hu)
  simp only [fieldsAfter, bind_assoc, pure_bind]
  cases furtherFields u.left <;> rfl

theorem fieldsAfter_equals (ht : t.kind = .symbol '=') (r : List Token) :
    fieldsAfter (t :: r) = fieldsAfterExpression r := by
  obtain ⟨_, p, d⟩ := t
  cases ht
  simp only [fieldsAfterExpression, fieldsAfter, furtherFields, bind_assoc, pure_bind,
    Tail.left_cons]
  rfl

theorem fieldsAfter_square (hg : IsGroup '[' ']' g) (r : List Token) :
    fieldsAfter (g ++ r) = fieldsAfter r := by
  obtain ⟨t, g', rfl, ht, hread⟩ := hg.exists_cons (by decide)
  obtain ⟨_, p, d⟩ := t
  cases ht
  rw [List.cons_append, fieldsAfter, furtherFields, bind_assoc]
  refine (hread rfl).bind_eq fun u hu => Eq.trans ?_ (congrArg fieldsAfter hu)
  simp only [fieldsAfter, bind_assoc, pure_bind]
  rfl

theorem fieldsAfter_pairs {n : Nat} (hpairs : IsPairs s n) (r : List Token) :
    fieldsAfter (s ++ r) = fieldsAfter r := by
  induction hpairs with
  | nil => rfl
  | @more opening closing n s hopening hclosing _ ih =>
    have hgroup : IsGroup '[' ']' (opening :: ([] ++ [closing])) := .intro hopening rfl hclosing
    exact (fieldsAfter_square hgroup (s ++ r)).trans ih

/-- After a field only a semicolon, a comma, an equals sign or a square bracket is read. -/
theorem fieldsAfter_other (ht : t.kind ∉ [';', ',', '=', '['].map TokenKind.symbol)
    (r : List Token) : fieldsAfter (t :: r) = .error ⟨.fieldDeclaration, t :: r⟩ := by
  rw [fieldsAfter, furtherFields]
  · rfl
  all_goals
    rintro p d r' heq
    cases heq
    exact ht (List.mem_map_of_mem (by decide))

/-- After a comma a name is read. -/
theorem fieldsAfter_comma_other {u : Token} (ht : t.kind = .symbol ',')
    (hu : ∀ w, u.kind ≠ .word w) (r : List Token) :
    fieldsAfter (t :: u :: r) = .error ⟨.identifier, u :: r⟩ := by
  obtain ⟨_, p, d⟩ := t
  cases ht
  rw [fieldsAfter, furtherFields, identifier]
  · rfl
  · rintro w p d r' heq
    cases heq
    exact hu w rfl

theorem fieldsAfterExpression_semicolon (ht : t.kind = .symbol ';') (r : List Token) :
    fieldsAfterExpression (t :: r) = .ok ([], r) := by
  have hfields := fieldsAfter_semicolon ht r
  obtain ⟨_, p, d⟩ := t
  cases ht
  rw [fieldsAfterExpression, initialiser]
  exact hfields

theorem fieldsAfterExpression_bracketed (hg : IsBracketed g) (r : List Token) :
    fieldsAfterExpression (g ++ r) = fieldsAfterExpression r := by
  cases hg with
  | round hg | curly hg | square hg =>
    obtain ⟨t, g', rfl, ht, hread⟩ := hg.exists_cons (by decide)
    obtain ⟨_, p, d⟩ := t
    cases ht
    rw [List.cons_append, fieldsAfterExpression, initialiser, bind_assoc]
    refine (hread rfl).bind_eq fun u hu => Eq.trans ?_ (congrArg fieldsAfterExpression hu)
    simp only [fieldsAfterExpression, bind_assoc, pure_bind]
    rfl

/-- Any other token is passed over, unless it is a comma before what looks like a field. -/
theorem fieldsAfterExpression_token
    (ht : t.kind ∉ [';', '(', '\x7b', '['].map TokenKind.symbol)
    (hcomma : t.kind = .symbol ',' → startsField r = false) :
    fieldsAfterExpression (t :: r) = fieldsAfterExpression r := by
  have hnot : ¬ (t.kind = .symbol ',' ∧ startsField r = true) := by
    rintro ⟨hkind, hstarts⟩
    rw [hcomma hkind] at hstarts
    cases hstarts
  rw [fieldsAfterExpression, initialiser, if_neg hnot]
  · simp only [fieldsAfterExpression, bind_assoc, pure_bind]
    rfl
  all_goals
    rintro p d heq
    cases heq
    exact ht (List.mem_map_of_mem (by decide))

theorem fieldsAfterExpression_comma (ht : t.kind = .symbol ',') (hr : startsField r = true) :
    fieldsAfterExpression (t :: r) = fieldsAfter (t :: r) := by
  obtain ⟨_, p, d⟩ := t
  cases ht
  rw [fieldsAfterExpression, initialiser, if_pos ⟨rfl, hr⟩]
  · rfl
  all_goals
    rintro p d heq
    cases heq

end fieldsAfter

/-! ## Section 4: Expressions -/

section expressions

variable {inside : Bool} {s left : List Token} {after : List (List Token)}

/-- An operator, a name or a literal is passed over. -/
theorem fieldsAfterExpression_plain {t : Token}
    (ht : t.kind ∉ ['(', '\x7b', '[', ',', ';'].map TokenKind.symbol) (r : List Token) :
    fieldsAfterExpression (t :: r) = fieldsAfterExpression r := by
  simp only [List.map_cons, List.map_nil, List.mem_cons, List.not_mem_nil, or_false, not_or] at ht
  obtain ⟨hround, hcurly, hsquare, hcomma, hsemicolon⟩ := ht
  refine fieldsAfterExpression_token ?_ fun h => absurd h hcomma
  simp [hround, hcurly, hsquare, hsemicolon]

/-- Angle brackets are passed over like operators. -/
theorem fieldsAfterExpression_angle {t : Token} {c : Char} (ht : t.kind = .symbol c)
    (hc : c ∈ ['<', '>']) (r : List Token) :
    fieldsAfterExpression (t :: r) = fieldsAfterExpression r := by
  refine fieldsAfterExpression_plain ?_ r
  simp only [List.mem_cons, List.not_mem_nil, or_false] at hc
  rcases hc with rfl | rfl <;> simp [ht]

/-- An expression is passed over if no type argument after a comma starts like a field. -/
theorem fieldsAfterExpression_append (h : IsExpression inside s after)
    (hafter : ∀ a ∈ after, ¬ StartsLikeField a)
    (hleft : inside = true → startsWith (.symbol '>') left = true) :
    fieldsAfterExpression (s ++ left) = fieldsAfterExpression left := by
  induction h generalizing left with
  | nil => rfl
  | token ht _ _ ih =>
    rw [List.cons_append, fieldsAfterExpression_plain ht]
    exact ih hafter hleft
  | bracketed hg _ ih =>
    rw [List.append_assoc, fieldsAfterExpression_bracketed hg]
    exact ih hafter hleft
  | comma ht hs ih =>
    rw [List.forall_mem_cons] at hafter
    have hstarts := mt (hs.startsField_append_iff (hleft rfl)).1 hafter.1
    rw [List.cons_append, fieldsAfterExpression_token]
    · exact ih hafter.2 hleft
    · simp [ht]
    · exact fun _ => Bool.eq_false_iff.2 hstarts
  | @arguments opening closing inside s s' after after' hopening _ hclosing _ ih ih' =>
    rw [List.forall_mem_append] at hafter
    have hclose : startsWith (.symbol '>') (closing :: (s' ++ left)) = true :=
      decide_eq_true hclosing
    calc fieldsAfterExpression (opening :: (s ++ closing :: s') ++ left)
        = fieldsAfterExpression (opening :: (s ++ closing :: (s' ++ left))) := by simp
      _ = fieldsAfterExpression (s ++ closing :: (s' ++ left)) :=
          fieldsAfterExpression_angle hopening (by decide) _
      _ = fieldsAfterExpression (closing :: (s' ++ left)) := ih hafter.1 fun _ => hclose
      _ = fieldsAfterExpression (s' ++ left) :=
          fieldsAfterExpression_angle hclosing (by decide) _
      _ = fieldsAfterExpression left := ih' hafter.2 hleft

/-- Inside type arguments no fields can be read to their end, neither at once nor after a comma. -/
theorem fieldsAfter_inside (h : IsExpression inside s after) (hinside : inside = true)
    (hleft : startsWith (.symbol '>') left = true) :
    (∃ e, fieldsAfter (s ++ left) = .error e) ∧
      ∀ t : Token, t.kind = .symbol ',' → ∃ e, fieldsAfter (t :: (s ++ left)) = .error e := by
  induction h with
  | nil =>
    match left, hleft with
    | closing :: left, hleft =>
    have hclosing : closing.kind = .symbol '>' := of_decide_eq_true hleft
    exact ⟨⟨_, fieldsAfter_other (by simp [hclosing]) left⟩,
      fun t ht => ⟨_, fieldsAfter_comma_other ht (by simp [hclosing]) left⟩⟩
  | @token u inside s after hbrackets hangles _ ih =>
    simp only [List.map_cons, List.map_nil, List.mem_cons, List.not_mem_nil, or_false,
      not_or] at hbrackets hangles
    constructor
    · refine ⟨_, fieldsAfter_other ?_ (s ++ left)⟩
      simp [hbrackets, hangles hinside]
    · intro t ht
      by_cases hword : ∃ w, u.kind = .word w
      · obtain ⟨w, hw⟩ := hword
        obtain ⟨e, he⟩ := (ih hinside).1
        refine ⟨e, (fieldsAfter_comma ht hw (s ++ left)).trans ?_⟩
        rw [he]
        rfl
      · exact ⟨_, fieldsAfter_comma_other ht (not_exists.1 hword) (s ++ left)⟩
  | @bracketed inside g s after hg _ ih =>
    obtain ⟨u, r, hcons, hu⟩ := hg.exists_cons
    have hword : ∀ w, u.kind ≠ .word w := by
      intro w hw
      simp [hw] at hu
    rw [List.append_assoc]
    constructor
    · cases hg with
      | square hg =>
        rw [fieldsAfter_square hg]
        exact (ih hinside).1
      | round hg | curly hg =>
        obtain ⟨u, r, rfl, hu, -⟩ := hg.exists_cons (by decide)
        exact ⟨_, fieldsAfter_other (by simp [hu]) _⟩
    · intro t ht
      rw [hcons]
      exact ⟨_, fieldsAfter_comma_other ht hword _⟩
  | @comma u s after hu _ ih =>
    exact ⟨(ih rfl).2 u hu, fun t ht => ⟨_, fieldsAfter_comma_other ht (by simp [hu]) (s ++ left)⟩⟩
  | arguments hopening _ _ _ _ _ =>
    exact ⟨⟨_, fieldsAfter_other (by simp [hopening]) _⟩,
      fun t ht => ⟨_, fieldsAfter_comma_other ht (by simp [hopening]) _⟩⟩

/-- A type argument after a comma that starts like a field is read as one, and then the rest of the
    type arguments is refused. -/
theorem fieldsAfterExpression_refused (h : IsExpression inside s after)
    (hafter : ∃ a ∈ after, StartsLikeField a)
    (hleft : inside = true → startsWith (.symbol '>') left = true) :
    ∃ e, fieldsAfterExpression (s ++ left) = .error e := by
  induction h generalizing left with
  | nil =>
    obtain ⟨a, ha, -⟩ := hafter
    cases ha
  | token ht _ _ ih =>
    rw [List.cons_append, fieldsAfterExpression_plain ht]
    exact ih hafter hleft
  | bracketed hg _ ih =>
    rw [List.append_assoc, fieldsAfterExpression_bracketed hg]
    exact ih hafter hleft
  | @comma t s after ht hs ih =>
    rw [List.cons_append]
    by_cases hstarts : StartsLikeField s
    · rw [fieldsAfterExpression_comma ht ((hs.startsField_append_iff (hleft rfl)).2 hstarts)]
      exact (fieldsAfter_inside hs rfl (hleft rfl)).2 t ht
    · have hother := mt (hs.startsField_append_iff (hleft rfl)).1 hstarts
      simp only [List.mem_cons, exists_eq_or_imp, or_iff_right hstarts] at hafter
      rw [fieldsAfterExpression_token (by simp [ht]) fun _ => Bool.eq_false_iff.2 hother]
      exact ih hafter hleft
  | @arguments opening closing inside s s' after after' hopening hs hclosing _ ih ih' =>
    have hclose : startsWith (.symbol '>') (closing :: (s' ++ left)) = true :=
      decide_eq_true hclosing
    have hassoc : opening :: (s ++ closing :: s') ++ left =
        opening :: (s ++ closing :: (s' ++ left)) := by simp
    rw [hassoc, fieldsAfterExpression_angle hopening (by decide)]
    by_cases hfirst : ∃ a ∈ after, StartsLikeField a
    · exact ih hfirst fun _ => hclose
    · have hclear : ∀ a ∈ after, ¬ StartsLikeField a := fun a ha hstarts =>
        hfirst ⟨a, ha, hstarts⟩
      rw [fieldsAfterExpression_append hs hclear fun _ => hclose,
        fieldsAfterExpression_angle hclosing (by decide)]
      refine ih' ?_ hleft
      obtain ⟨a, ha, hstarts⟩ := hafter
      exact ⟨a, (List.mem_append.1 ha).resolve_left fun ha => hclear a ha hstarts, hstarts⟩

end expressions

/-! ## Section 5: Declarations of fields -/

section declarations

variable {s i ts rest : List Token} {names : List String} {after : List (List Token)}

/-- An initialiser is passed over up to what ends it. -/
theorem fieldsAfter_initialiser {left : List Token} (h : IsInitialiser i after)
    (hafter : ∀ a ∈ after, ¬ StartsLikeField a)
    (hleft : fieldsAfterExpression left = fieldsAfter left) :
    fieldsAfter (i ++ left) = fieldsAfter left := by
  cases h with
  | none => rfl
  | some hsign hs =>
    rw [List.cons_append, fieldsAfter_equals hsign,
      fieldsAfterExpression_append hs hafter (by simp), hleft]

theorem fieldsAfter_initialiser_refused {left : List Token} (h : IsInitialiser i after)
    (hafter : ∃ a ∈ after, StartsLikeField a) : ∃ e, fieldsAfter (i ++ left) = .error e := by
  cases h with
  | none =>
    obtain ⟨a, ha, -⟩ := hafter
    cases ha
  | some hsign hs =>
    rw [List.cons_append, fieldsAfter_equals hsign]
    exact fieldsAfterExpression_refused hs hafter (by simp)

/-- What follows the name of a field starts with one of the symbols that tell it from another
    name. -/
theorem exists_cons_after_name {t : Token} {n : Nat} (hpairs : IsPairs s n)
    (hi : IsInitialiser i after) (ht : t.kind ∈ ['=', ',', ';', '['].map TokenKind.symbol)
    (r : List Token) : ∃ u r', s ++ (i ++ t :: r) = u :: r' ∧
      u.kind ∈ ['=', ',', ';', '['].map TokenKind.symbol := by
  cases hpairs with
  | more hopening _ _ => exact ⟨_, _, rfl, by simp [hopening]⟩
  | nil =>
    cases hi with
    | none => exact ⟨t, r, rfl, ht⟩
    | some hsign _ => exact ⟨_, _, rfl, by simp [hsign]⟩

/-- Fields start with the name of the first of them, and one of the symbols follows it. -/
theorem IsFields.exists_cons (h : IsFields ts names after) :
    ∃ t name names' u r, ts = t :: u :: r ∧ names = name :: names' ∧ t.kind = .word name ∧
      u.kind ∈ ['=', ',', ';', '['].map TokenKind.symbol := by
  cases h with
  | @last t semicolon name _ s i _ ht hpairs hi hsemicolon =>
    have hend : semicolon.kind ∈ ['=', ',', ';', '['].map TokenKind.symbol := by simp [hsemicolon]
    obtain ⟨u, r, hcons, hu⟩ := exists_cons_after_name hpairs hi hend []
    exact ⟨t, name, [], u, r, congrArg (t :: ·) hcons, rfl, ht, hu⟩
  | @more t comma name names _ s i s' _ _ ht hpairs hi hcomma _ =>
    have hend : comma.kind ∈ ['=', ',', ';', '['].map TokenKind.symbol := by simp [hcomma]
    obtain ⟨u, r, hcons, hu⟩ := exists_cons_after_name hpairs hi hend s'
    exact ⟨t, name, names, u, r, congrArg (t :: ·) hcons, rfl, ht, hu⟩

/-- After the name of the first field the others are read, if no type argument after a comma starts
    like a field, and else there is an error. -/
theorem IsFields.fieldsAfter_tail (h : IsFields ts names after) (rest : List Token) :
    ((∀ a ∈ after, ¬ StartsLikeField a) →
      fieldsAfter (ts.tail ++ rest) = .ok (names.tail, rest)) ∧
    ((∃ a ∈ after, StartsLikeField a) → ∃ e, fieldsAfter (ts.tail ++ rest) = .error e) := by
  induction h with
  | @last t semicolon name n s i after ht hpairs hi hsemicolon =>
    have hassoc : s ++ (i ++ [semicolon]) ++ rest = s ++ (i ++ semicolon :: rest) := by simp
    have hend := (fieldsAfterExpression_semicolon hsemicolon rest).trans
      (fieldsAfter_semicolon hsemicolon rest).symm
    rw [List.tail_cons, List.tail_cons, hassoc, fieldsAfter_pairs hpairs]
    constructor
    · intro hafter
      rw [fieldsAfter_initialiser hi hafter hend, fieldsAfter_semicolon hsemicolon]
    · exact fieldsAfter_initialiser_refused hi
  | @more t comma name names n s i s' after after' ht hpairs hi hcomma hs' ih =>
    have hassoc : s ++ (i ++ comma :: s') ++ rest = s ++ (i ++ comma :: (s' ++ rest)) := by simp
    obtain ⟨t', name', names', u, r, rfl, rfl, ht', hu⟩ := hs'.exists_cons
    have hstarts : startsField (t' :: u :: r ++ rest) = true :=
      (startsField_cons_cons t' u (r ++ rest)).2 ⟨⟨name', ht'⟩, hu⟩
    have hend := fieldsAfterExpression_comma hcomma hstarts
    have hnext : fieldsAfter (comma :: (t' :: u :: r ++ rest)) =
        (fieldsAfter (u :: r ++ rest)).map fun x => (name' :: x.1, x.2) :=
      fieldsAfter_comma hcomma ht' (u :: r ++ rest)
    rw [List.tail_cons, List.tail_cons, hassoc, fieldsAfter_pairs hpairs]
    constructor
    · intro hafter
      rw [List.forall_mem_append] at hafter
      have hothers := ih.1 hafter.2
      rw [List.tail_cons, List.tail_cons] at hothers
      rw [fieldsAfter_initialiser hi hafter.1 hend, hnext, hothers]
      rfl
    · rintro ⟨a, ha, hlike⟩
      by_cases hfirst : ∃ a ∈ after, StartsLikeField a
      · exact fieldsAfter_initialiser_refused hi hfirst
      · have hclear : ∀ a ∈ after, ¬ StartsLikeField a := fun a ha hlike =>
          hfirst ⟨a, ha, hlike⟩
        have hmem := (List.mem_append.1 ha).resolve_left fun ha => hclear a ha hlike
        obtain ⟨e, he⟩ := ih.2 ⟨a, hmem, hlike⟩
        rw [List.tail_cons] at he
        refine ⟨e, ?_⟩
        rw [fieldsAfter_initialiser hi hclear hend, hnext, he]
        rfl

/-- What is refused after the name of a field is refused from the type of the field on. -/
theorem members_eq_error {owner docs name : String} {type : WrittenType} {t : Token}
    {r : List Token} {e : Halt} (htype : IsWritten ts type) (ht : t.kind = .word name)
    (hr : startsWith (.symbol '(') r = false) (he : fieldsAfter r = .error e) :
    members owner docs (ts ++ t :: r) = .error e := by
  have hname : ∀ s, s = r → afterMemberName docs name [] s = .error e := by
    rintro _ rfl
    rw [afterMemberName, furtherFields_eq_error he]
    · rfl
    · rintro p d r' rfl
      exact startsWith_cons.1 hr rfl
  have htyped : ∀ s, s = ts ++ t :: r → membersAfterVariables owner docs [] s = .error e := by
    rintro _ rfl
    rw [membersAfterVariables_eq htype ht]
    refine (reads_writtenType .nil htype ht rfl).bind_eq fun u hu => ?_
    refine (reads_identifier ht hu).bind_eq fun v hv => ?_
    dsimp only
    rw [hname v.left hv]
    rfl
  obtain ⟨t', w, r', rfl, ht', hw, hnext⟩ := htype.exists_cons ht
  have hends : EndsModifiers (t' :: r' ++ t :: r) := .word ht' hw.1 (hnext '-' r (by decide))
  refine (loopReads_memberVariables .none hends (startsWith_word ht' '<' _) rfl).bind_eq ?_
  intro u hu
  dsimp only
  rw [htyped u.left hu]
  rfl

/-- A declaration of fields with initialisers is read to the fields, and what follows the semicolon
    is left, exactly if no type argument after a comma of an initialiser starts like a field. -/
theorem reads_members_initialised_iff {owner docs : String} {type : WrittenType}
    (htype : IsWritten s type) (h : IsFields ts names after) (rest : List Token) :
    Reads (members owner docs (s ++ (ts ++ rest))) (names.map (Member.ofField docs)) rest ↔
      ∀ a ∈ after, ¬ StartsLikeField a := by
  obtain ⟨hread, hrefused⟩ := h.fieldsAfter_tail rest
  obtain ⟨t, name, names', u, r, rfl, rfl, ht, hu⟩ := h.exists_cons
  have hcall : startsWith (.symbol '(') (u :: r ++ rest) = false := by
    rw [List.cons_append, startsWith_cons]
    rintro hkind
    simp [hkind] at hu
  constructor
  · intro hmembers a ha hlike
    obtain ⟨e, he⟩ := hrefused ⟨a, ha, hlike⟩
    obtain ⟨x, hx, -⟩ := hmembers
    cases hx.symm.trans (members_eq_error htype ht hcall he)
  · intro hafter
    refine reads_members_typed .none htype ht ?_ rfl
    rintro _ rfl
    exact reads_afterMemberName_fields hcall (reads_furtherFields_iff.2 (hread hafter))

-- `Map m = a < b ? new Map<K, V>() : f(a, b), n[] = {1, 2}, o;`
theorem reads_members_initialised_map :
    let w (text : String) : Token := ⟨.word text, 0, none⟩
    let c (symbol : Char) : Token := ⟨.symbol symbol, 0, none⟩
    let one : Token := ⟨.literal, 0, none⟩
    Reads (members "Table" "" [w "Map",
        w "m", c '=', w "a", c '<', w "b", c '?', w "new", w "Map", c '<', w "K", c ',', w "V",
          c '>', c '(', c ')', c ':', w "f", c '(', w "a", c ',', w "b", c ')', c ',',
        w "n", c '[', c ']', c '=', c '\x7b', one, c ',', one, c '\x7d', c ',',
        w "o", c ';', c '\x7d'])
      [.ofField "" "m", .ofField "" "n", .ofField "" "o"] [c '\x7d'] := by
  intro w c one
  have htype : IsWritten [w "Map"] ⟨"Map", 0⟩ :=
    .intro (s := []) rfl (by decide) (.nil "Map") .nil
  have hcall : IsExpression false [w "f", c '(', w "a", c ',', w "b", c ')'] [] :=
    .token (by decide) (by decide) (.bracketed (g := [_, _, _, _, _])
      (.round (.intro (s := [_, _, _]) rfl (by decide) rfl)) (.nil false))
  have harguments : IsExpression true [w "K", c ',', w "V"] [[w "V"]] :=
    .token (by decide) (by decide) (.comma rfl (.token (by decide) (by decide) (.nil true)))
  have hnew : IsExpression false (w "new" :: w "Map" :: c '<' :: ([w "K", c ',', w "V"] ++ c '>' ::
      ([c '(', c ')'] ++ c ':' :: [w "f", c '(', w "a", c ',', w "b", c ')']))) [[w "V"]] :=
    .token (by decide) (by decide) (.token (by decide) (by decide)
      (.arguments rfl harguments rfl (.bracketed
        (.round (.intro (s := []) rfl (by decide) rfl))
        (.token (by decide) (by decide) hcall))))
  have hfirst : IsInitialiser (c '=' :: w "a" :: c '<' :: w "b" :: c '?' :: _) [[w "V"]] :=
    .some rfl (.token (by decide) (by decide) (.token (by decide) (by decide)
      (.token (by decide) (by decide) (.token (by decide) (by decide) hnew))))
  have hsecond : IsInitialiser (c '=' :: ([c '\x7b', one, c ',', one, c '\x7d'] ++ [])) [] :=
    .some rfl (.bracketed (.curly (.intro (s := [_, _, _]) rfl (by decide) rfl)) (.nil false))
  have hfields : IsFields _ ["m", "n", "o"] [[w "V"]] :=
    .more (s := []) (t := w "m") (u := c ',') rfl .nil hfirst rfl
      (.more (s := [c '[', c ']']) (t := w "n") (u := c ',') rfl (.more rfl rfl .nil) hsecond rfl
        (.last (s := []) (i := []) (t := w "o") (u := c ';') rfl .nil .none rfl))
  refine (reads_members_initialised_iff htype hfields [c '\x7d']).2 ?_
  simp only [List.mem_singleton]
  rintro _ rfl ⟨t, u, r, name, hs, -⟩
  cases hs

-- `Map m = new Map<K, int[]>();` is refused at the angle bracket that closes.
theorem members_array_argument :
    let w (text : String) : Token := ⟨.word text, 0, none⟩
    let c (symbol : Char) : Token := ⟨.symbol symbol, 0, none⟩
    let s := [w "Map"]
    let ts := [w "m", c '=', w "new", w "Map", c '<', w "K", c ',', w "int", c '[', c ']', c '>',
      c '(', c ')', c ';']
    (∃ type, IsWritten s type) ∧ (∃ after, IsFields ts ["m"] after) ∧
      members "Table" "" (s ++ ts) = .error ⟨.fieldDeclaration, [c '>', c '(', c ')', c ';']⟩ := by
  intro w c s ts
  have htype : IsWritten s ⟨"Map", 0⟩ := .intro (s := []) rfl (by decide) (.nil "Map") .nil
  have harguments : IsExpression true [w "K", c ',', w "int", c '[', c ']'] _ :=
    .token (by decide) (by decide) (.comma rfl (.token (by decide) (by decide)
      (.bracketed (g := [_, _]) (.square (.intro (s := []) rfl (by decide) rfl)) (.nil true))))
  have hinitialiser : IsInitialiser (c '=' :: w "new" :: w "Map" :: c '<' ::
      ([w "K", c ',', w "int", c '[', c ']'] ++ c '>' :: ([c '(', c ')'] ++ []))) _ :=
    .some rfl (.token (by decide) (by decide) (.token (by decide) (by decide)
      (.arguments rfl harguments rfl (.bracketed
        (.round (.intro (s := []) rfl (by decide) rfl)) (.nil false)))))
  have hfields : IsFields ts ["m"] _ :=
    .last (s := []) (t := w "m") (u := c ';') rfl .nil hinitialiser rfl
  exact ⟨⟨_, htype⟩, ⟨_, hfields⟩, by cbv⟩

end declarations

end TypeCatalog.Source
