import TypeCatalog.Proofs.Source.Passage

/-! # Readers of declarations pass over braces

    A group that holds the opening brace is passed over, because brackets of its kind are well
    nested between the braces. The documentation of a declaration is looked for in a slice of the
    lexemes; braces are in it only if an annotation before the declaration holds them, and then
    nothing between them is documentation. All other cursors are put together from these. -/

set_option autoImplicit false

namespace TypeCatalog.Source

variable {p : Passage} {k : Option TokenKind}

/-! ## Section 1: Groups -/

section groups

variable {o c : Char} {depth : Nat} {s left : List Token}

theorem afterGroup_opening {t : Token} (ht : t.kind = .symbol o) (depth : Nat) (r : List Token) :
    afterGroup o c depth (t :: r) = afterGroup o c (depth + 1) r := by
  conv => lhs; unfold afterGroup
  rw [if_pos ht]

theorem afterGroup_last {t : Token} (ho : t.kind ≠ .symbol o) (hc : t.kind = .symbol c)
    (r : List Token) : afterGroup o c 0 (t :: r) = some r := by
  unfold afterGroup
  rw [if_neg ho, if_pos hc]

theorem afterGroup_closing {t : Token} (ho : t.kind ≠ .symbol o) (hc : t.kind = .symbol c)
    (depth : Nat) (r : List Token) :
    afterGroup o c (depth + 1) (t :: r) = afterGroup o c depth r := by
  conv => lhs; unfold afterGroup
  rw [if_neg ho, if_pos hc]

theorem afterGroup_other {t : Token} (ho : t.kind ≠ .symbol o) (hc : t.kind ≠ .symbol c)
    (depth : Nat) (r : List Token) : afterGroup o c depth (t :: r) = afterGroup o c depth r := by
  conv => lhs; unfold afterGroup
  rw [if_neg ho, if_neg hc]

/-- What ends a group ends it whatever follows. -/
theorem afterGroup_append_right (h : afterGroup o c depth s = some left) (y : List Token) :
    afterGroup o c depth (s ++ y) = some (left ++ y) := by
  fun_induction afterGroup o c depth s with
  | case1 => cases h
  | case2 depth t r ho ih => exact (afterGroup_opening ho depth (r ++ y)).trans (ih h)
  | case3 t r ho hc =>
    cases h
    exact afterGroup_last ho hc (left ++ y)
  | case4 t r ho hc depth ih => exact (afterGroup_closing ho hc depth (r ++ y)).trans (ih h)
  | case5 depth t r ho hc ih => exact (afterGroup_other ho hc depth (r ++ y)).trans (ih h)

/-- A group that does not end is gone on with at some depth. -/
theorem exists_depth_of_afterGroup (h : afterGroup o c depth s = none) :
    ∃ depth', ∀ y, afterGroup o c depth (s ++ y) = afterGroup o c depth' y := by
  fun_induction afterGroup o c depth s with
  | case1 depth => exact ⟨depth, fun y => rfl⟩
  | case2 depth t r ho ih =>
    obtain ⟨depth', hdepth⟩ := ih h
    exact ⟨depth', fun y => (afterGroup_opening ho depth (r ++ y)).trans (hdepth y)⟩
  | case3 => cases h
  | case4 t r ho hc depth ih =>
    obtain ⟨depth', hdepth⟩ := ih h
    exact ⟨depth', fun y => (afterGroup_closing ho hc depth (r ++ y)).trans (hdepth y)⟩
  | case5 depth t r ho hc ih =>
    obtain ⟨depth', hdepth⟩ := ih h
    exact ⟨depth', fun y => (afterGroup_other ho hc depth (r ++ y)).trans (hdepth y)⟩

/-- Inside further brackets tokens bring the depth to as much more. -/
theorem depthAfter_add {depth' : Nat} (h : depthAfter o c depth s = some depth') (n : Nat) :
    depthAfter o c (depth + n) s = some (depth' + n) := by
  induction s generalizing depth with
  | nil =>
    cases h
    rfl
  | cons t r ih =>
    unfold depthAfter at h ⊢
    split
    · next ho =>
      rw [if_pos ho] at h
      rw [Nat.add_right_comm]
      exact ih h
    · next ho =>
      rw [if_neg ho] at h
      split
      · next hc =>
        rw [if_pos hc] at h
        cases depth with
        | zero => cases h
        | succ depth =>
          rw [Nat.add_right_comm]
          exact ih h
      · next hc =>
        rw [if_neg hc] at h
        exact ih h

/-- Tokens between the braces and the closing brace are passed over like the brace alone. -/
theorem afterGroup_filling (filling : Filling o) (depth : Nat) (y : List Token) :
    afterGroup o (closerOf o) depth (filling.inside ++ filling.closing :: y) =
      afterGroup o (closerOf o) depth (filling.closing :: y) := by
  have hnested := depthAfter_add filling.nested depth
  rw [Nat.zero_add] at hnested
  exact afterGroup_append hnested _

/-- How much a group takes is told by the kinds of the tokens. -/
theorem exists_afterGroup {s' : List Token} (hkinds : s.map Token.kind = s'.map Token.kind)
    (h : afterGroup o c depth s = some left) :
    ∃ left', afterGroup o c depth s' = some left' ∧ left'.length = left.length := by
  fun_induction afterGroup o c depth s generalizing s' with
  | case1 => cases h
  | case2 depth t r ho ih =>
    obtain ⟨t', r', rfl, ht, hr⟩ := List.map_eq_cons_iff.1 hkinds.symm
    rw [afterGroup_opening (ht.trans ho)]
    exact ih hr.symm h
  | case3 t r ho hc =>
    obtain ⟨t', r', rfl, ht, hr⟩ := List.map_eq_cons_iff.1 hkinds.symm
    cases h
    rw [← ht] at ho hc
    exact ⟨r', afterGroup_last ho hc r', by simpa using congrArg List.length hr⟩
  | case4 t r ho hc depth ih =>
    obtain ⟨t', r', rfl, ht, hr⟩ := List.map_eq_cons_iff.1 hkinds.symm
    rw [← ht] at ho hc
    rw [afterGroup_closing ho hc]
    exact ih hr.symm h
  | case5 depth t r ho hc ih =>
    obtain ⟨t', r', rfl, ht, hr⟩ := List.map_eq_cons_iff.1 hkinds.symm
    rw [← ht] at ho hc
    rw [afterGroup_other ho hc]
    exact ih hr.symm h

/-- A cursor in front of a group goes to the end of it, or finds a bracket left open. -/
theorem result_skipBalanced {text : List Char} {ts : List Token} {i : Nat}
    (h : kindAt ts i = some (.symbol o)) :
    (TokenCursor.skipBalanced o c 0).result (lexemes text ts) i =
      some (match afterGroup o c 0 (ts.drop (i + 1)) with
        | none => .error (.refused ⟨Text.Utf8.size text, .unexpected (.closing o) none⟩)
        | some left => .ok ((), ts.length - left.length)) := by
  obtain ⟨t, ht, hkind⟩ := Option.map_eq_some_iff.1 h
  obtain ⟨hlt, rfl⟩ := List.getElem?_eq_some_iff.1 ht
  have hdrop : ts.drop i = ts[i] :: ts.drop (i + 1) := List.drop_eq_getElem_cons hlt
  have hindex : ts.length - (ts[i] :: ts.drop (i + 1)).length = i := by
    rw [List.length_cons, List.length_drop]
    omega
  have hfollows := follows_group text ts c hkind (ts.drop (i + 1)) (hdrop ▸ List.drop_suffix i ts)
  have hresult := hfollows.result_eq
  rw [hindex] at hresult
  rw [hresult, group]
  split <;> split <;> simp_all [placed, Halt.inText]

end groups

theorem map_kind_rest (p : Passage) : p.rest.map Token.kind = p.rest'.map Token.kind := by
  have h := congrArg (List.map Prod.fst) p.alike
  simpa [Token.look, Function.comp_def] using h

/-- A group that opens up to the opening brace takes what it takes of the tokens there and of what
    follows them. -/
theorem result_group_upTo {o c : Char} {i : Nat} (hi : i ≤ p.front.length)
    (hk : kindOf p.cut i = some (.symbol o)) (text : List Char) (y : List Token) :
    (TokenCursor.skipBalanced o c 0).result (lexemes text (p.front ++ p.opening :: y)) i =
      some (match afterGroup o c 0 ((p.front ++ [p.opening]).drop (i + 1) ++ y) with
        | none => .error (.refused ⟨Text.Utf8.size text, .unexpected (.closing o) none⟩)
        | some left => .ok ((), p.front.length + 1 + y.length - left.length)) := by
  have hat : kindAt (p.front ++ p.opening :: y) i = some (.symbol o) := by
    rw [← kindOf_lexemes text, kindOf_lexemes_upTo p hi, hk]
  have hdrop : (p.front ++ p.opening :: y).drop (i + 1) =
      (p.front ++ [p.opening]).drop (i + 1) ++ y := by
    rw [← List.drop_append_of_le_length (by simp; omega), List.append_assoc,
      List.singleton_append]
  have hlength : (p.front ++ p.opening :: y).length = p.front.length + 1 + y.length := by
    simp only [List.length_append, List.length_cons]
    omega
  rw [result_skipBalanced hat, hdrop, hlength]

theorem result_group_cut {o c : Char} {i : Nat} (hi : i ≤ p.front.length)
    (hk : kindOf p.cut i = some (.symbol o)) :
    (TokenCursor.skipBalanced o c 0).result p.cut i =
      some (match afterGroup o c 0 ((p.front ++ [p.opening]).drop (i + 1)) with
        | none => .error (.refused ⟨Text.Utf8.size p.cutText, .unexpected (.closing o) none⟩)
        | some left => .ok ((), p.front.length + 1 - left.length)) := by
  have h := result_group_upTo (c := c) hi hk p.cutText []
  rwa [List.append_nil] at h

/-- A group that is open at some depth after the opening brace takes the braces and what it takes of
    the tokens after them. -/
theorem result_group_filled {i depth : Nat} (hi : i ≤ p.front.length)
    (hk : kindOf p.cut i = some (.symbol p.bracket))
    (hdepth : ∀ y, afterGroup p.bracket (closerOf p.bracket) 0
      ((p.front ++ [p.opening]).drop (i + 1) ++ y) =
        afterGroup p.bracket (closerOf p.bracket) depth y)
    (filling : Filling p.bracket) (text : List Char) (rest : List Token) :
    (TokenCursor.skipBalanced p.bracket (closerOf p.bracket) 0).result
        (lexemes text (p.through filling ++ rest)) i =
      some (match afterGroup p.bracket (closerOf p.bracket) depth (filling.closing :: rest) with
        | none => .error (.refused ⟨Text.Utf8.size text, .unexpected (.closing p.bracket) none⟩)
        | some left => .ok ((), (p.through filling).length + (rest.length - left.length))) := by
  have hthrough : p.through filling ++ rest =
      p.front ++ p.opening :: (filling.inside ++ filling.closing :: rest) := by
    simp [Passage.through]
  rw [hthrough, result_group_upTo hi hk, hdepth, afterGroup_filling]
  cases hafter : afterGroup p.bracket (closerOf p.bracket) depth (filling.closing :: rest) with
  | none => rfl
  | some left =>
    have hle := (afterGroup_suffix hafter).2
    have hlength := p.length_through filling
    have hplace : p.front.length + 1 + (filling.inside ++ filling.closing :: rest).length -
        left.length = (p.through filling).length + (rest.length - left.length) := by
      rw [List.length_cons] at hle
      rw [List.length_append, List.length_cons]
      omega
    dsimp only
    rw [hplace]

theorem result_group_rest {o c : Char} {rest : List Token} {d : Nat}
    (hk : kindAt rest d = some (.symbol o)) (text : List Char) (before : List Token) :
    (TokenCursor.skipBalanced o c 0).result (lexemes text (before ++ rest)) (before.length + d) =
      some (match afterGroup o c 0 (rest.drop (d + 1)) with
        | none => .error (.refused ⟨Text.Utf8.size text, .unexpected (.closing o) none⟩)
        | some left => .ok ((), before.length + (rest.length - left.length))) := by
  have hat : kindAt (before ++ rest) (before.length + d) = some (.symbol o) := by
    rw [← kindOf_lexemes text, kindOf, getElem?_lexemes_append, ← kindOf, kindOf_lexemes, hk]
  have hdrop : (before ++ rest).drop (before.length + d + 1) = rest.drop (d + 1) := by
    rw [Nat.add_assoc, List.drop_length_add_append]
  rw [result_skipBalanced hat, hdrop, List.length_append]
  cases hafter : afterGroup o c 0 (rest.drop (d + 1)) with
  | none => rfl
  | some left =>
    have hle := (afterGroup_suffix hafter).1.length_le
    rw [List.length_drop] at hle
    dsimp only
    rw [Nat.add_sub_assoc (by omega)]

/-- A group is passed over with the braces in it. -/
theorem PassesAt.group {o : Char} :
    PassesAt p (some (.symbol o)) (TokenCursor.skipBalanced o (closerOf o) 0) where
  settled {i x} hi hk hcut hx text y := by
    rw [result_group_cut hi hk] at hcut
    rw [result_group_upTo hi hk]
    cases hgroup : afterGroup o (closerOf o) 0 ((p.front ++ [p.opening]).drop (i + 1)) with
    | none =>
      rw [hgroup] at hcut
      cases hcut
      obtain ⟨_, _, _, h⟩ := hx
      cases h
    | some left =>
      rw [hgroup] at hcut
      cases hcut
      rw [afterGroup_append_right hgroup]
      simp only [List.length_append, Nat.add_sub_add_right]
  bounded {i j a} hi hk hcut := by
    rw [result_group_cut hi hk] at hcut
    split at hcut
    · cases hcut
    · cases hcut
      exact Nat.sub_le _ _
  resumed {i j e a} hi hk hcut he hwhole := by
    obtain ⟨position, rfl⟩ := he
    rw [result_group_cut hi hk] at hcut
    cases hgroup : afterGroup o (closerOf o) 0 ((p.front ++ [p.opening]).drop (i + 1)) with
    | some left =>
      rw [hgroup] at hcut
      cases hcut
    | none =>
      rw [hgroup] at hcut
      -- The bracket left open is of the kind that is well nested between the braces.
      obtain rfl : p.bracket = o := by
        cases hcut
        rfl
      obtain ⟨depth, hdepth⟩ := exists_depth_of_afterGroup hgroup
      -- From the closing brace on both groups go on at that depth over tokens of the same kinds.
      have hkinds : (p.first.closing :: p.rest).map Token.kind =
          (p.second.closing :: p.rest').map Token.kind := by
        rw [List.map_cons, List.map_cons, p.first.closing_kind, p.second.closing_kind,
          map_kind_rest]
      rw [Passage.firstInput, result_group_filled hi hk hdepth] at hwhole
      rw [Passage.secondInput, result_group_filled hi hk hdepth]
      cases hafter : afterGroup p.bracket (closerOf p.bracket) depth
          (p.first.closing :: p.rest) with
      | none =>
        rw [hafter] at hwhole
        cases hwhole
      | some left =>
        obtain ⟨left', hafter', hleft⟩ := exists_afterGroup hkinds hafter
        rw [hafter] at hwhole
        cases hwhole
        rw [hafter']
        dsimp only
        rw [hleft, ← length_rest]
        exact ⟨p.rest.length - left.length, rfl, rfl⟩
  rested {d j a} hk hwhole := by
    have hkinds : (p.rest.drop (d + 1)).map Token.kind = (p.rest'.drop (d + 1)).map Token.kind := by
      rw [List.map_drop, List.map_drop, map_kind_rest]
    rw [Passage.firstInput, Passage.firstEnd, result_group_rest hk] at hwhole
    rw [Passage.secondInput, Passage.secondEnd, result_group_rest (by rw [← kindAt_rest, hk])]
    cases hafter : afterGroup o (closerOf o) 0 (p.rest.drop (d + 1)) with
    | none =>
      rw [hafter] at hwhole
      cases hwhole
    | some left =>
      obtain ⟨left', hafter', hleft⟩ := exists_afterGroup hkinds hafter
      rw [hafter] at hwhole
      cases hwhole
      rw [hafter']
      dsimp only
      rw [hleft, ← length_rest]
      exact ⟨p.rest.length - left.length, rfl, rfl⟩
  ended {x} hk hcut := by
    cases hk

/-- A group that closes with the bracket that it has to. -/
theorem PassesAt.group_of_eq {o c : Char} (hc : closerOf o = c) (hk : k = some (.symbol o)) :
    PassesAt p k (TokenCursor.skipBalanced o c 0) := by
  subst hc hk
  exact .group

/-! ## Section 2: Names, annotations and modifiers -/

theorem passes_skipPast (c : Char) : Passes p (TokenCursor.skipPast c) := by
  refine .loop (fun _ k => ?_) ()
  refine (Passes.accepts c k).bind fun found k => .ite (fun _ => Passes.done () k) fun _ => ?_
  refine .peek (.ite (fun _ => Passes.refuse (by simp) k) fun _ => ?_)
  exact (Passes.advance k).bind fun _ => .again ()

theorem passes_skipOptional {o c : Char} (hc : closerOf o = c) :
    Passes p (TokenCursor.skipOptional o c) := by
  intro k
  exact .peek (.ite (.group_of_eq hc) fun _ => Passes.pure () k)

theorem passes_namesFrom (name : String) : Passes p (TokenCursor.namesFrom name) := by
  refine .loop (fun name k => ?_) name
  refine .peek (.test_next (by decide) (fun _ => ?_) (Passes.done name k))
  refine (Passes.advance k).bind fun _ k => ?_
  exact (Passes.expectIdent k).bind fun part => .again (name ++ "." ++ part)

theorem passes_qualifiedName : Passes p TokenCursor.qualifiedName := by
  intro k
  exact (Passes.expectIdent k).bind fun first => passes_namesFrom first

theorem passes_annotated : Passes p TokenCursor.skipAnnotation := by
  intro k
  refine (Passes.expectSymbol '@' k).bind fun _ k => ?_
  exact (passes_qualifiedName k).bind fun _ => passes_skipOptional rfl

theorem passes_skipModifiers : Passes p TokenCursor.skipModifiers := by
  refine .loop (fun _ k => ?_) ()
  refine .peek (.ite (fun _ => ?_) fun _ => ?_)
  · exact (Passes.advance k).bind fun _ => .again ()
  refine .test_next_two (by decide) (by simp) (fun _ => ?_) ?_
  · refine (Passes.advance k).bind fun _ k => (Passes.advance k).bind fun _ k => ?_
    exact (Passes.advance k).bind fun _ => .again ()
  refine .test_next (by decide) (fun _ => ?_) (Passes.done () k)
  exact (passes_annotated k).bind fun _ => .again ()

/-! ## Section 3: Documentation -/

theorem wanted_of_identifier {s : List Token} {h : Halt} (hread : identifier s = .error h) :
    h.wanted = .identifier := by
  unfold identifier at hread
  split at hread
  · cases hread
  · cases hread
    rfl

theorem wanted_of_optionalGroup {o c : Char} {s : List Token} {h : Halt}
    (hread : optionalGroup o c s = .error h) : h.wanted = .closing o := by
  cases s with
  | nil => cases hread
  | cons t r =>
    by_cases ht : t.kind = .symbol o
    · rw [optionalGroup, if_pos ht] at hread
      obtain hgroup | ⟨_, -, hpure⟩ := bind_eq_error.1 hread
      · unfold group at hgroup
        split at hgroup
        · cases hgroup
          rfl
        · cases hgroup
      · cases hpure
    · rw [optionalGroup, if_neg ht] at hread
      cases hread

theorem wanted_of_annotation {s : List Token} {h : Halt} (hread : annotation s = .error h) :
    h.wanted = .identifier ∨ h.wanted = .closing '(' := by
  unfold annotation at hread
  obtain hname | ⟨_, -, hread⟩ := bind_eq_error.1 hread
  · unfold qualifiedName at hname
    obtain hfirst | ⟨_, -, hpure⟩ := bind_eq_error.1 hname
    · exact .inl (wanted_of_identifier hfirst)
    · cases hpure
  · obtain hgroup | ⟨_, -, hpure⟩ := bind_eq_error.1 hread
    · exact .inr (wanted_of_optionalGroup hgroup)
    · cases hpure

/-- Modifiers are refused for their annotations alone, and never for a brace that is left open. -/
theorem wanted_of_modifiers {s : List Token} {h : Halt} (hread : modifiers s = .error h) :
    h.wanted = .identifier ∨ h.wanted = .closing '(' := by
  fun_induction modifiers s with
  | case1 p d p' d' p'' d'' r ih =>
    obtain hread | ⟨_, -, hpure⟩ := bind_eq_error.1 hread
    · exact ih hread
    · cases hpure
  | case2 p d p' d' r => cases hread
  | case3 p d r _ ih =>
    obtain hread | ⟨left, -, hread⟩ := bind_eq_error.1 hread
    · exact wanted_of_annotation hread
    · obtain hread | ⟨_, -, hpure⟩ := bind_eq_error.1 hread
      · exact ih left.2 hread
      · cases hpure
  | case4 w p d r _ _ ih =>
    obtain hread | ⟨_, -, hpure⟩ := bind_eq_error.1 hread
    · exact ih hread
    · cases hpure
  | case5 => cases hread
  | case6 => cases hread

/-- The documentation of a declaration. -/
noncomputable def documentation : TokenCursor String := do
  let start ← get
  TokenCursor.skipModifiers
  TokenCursor.docsSince start

/-- The first documentation in a slice. -/
def firstDocs (ls : List Lexeme) : String :=
  match ls.findSome? Lexeme.docs with
  | some comment => docsText comment
  | none => ""

theorem result_since_at (input : List Lexeme) (start j : Nat) :
    (TokenCursor.since start).result input j =
      some (if start ≤ j + 1 ∧ j + 1 ≤ input.length then .ok ((input.take (j + 1)).drop start, j)
        else .error .overrun) := by
  show (if start ≤ j + 1 ∧ j + 1 ≤ input.length then
    (pure ((input.take (j + 1)).drop start) : TokenCursor (List Lexeme))
    else throw Stop.overrun).result _ _ = _
  split <;> rfl

theorem result_docsSince_at {input : List Lexeme} {start j : Nat}
    (h : start ≤ j + 1 ∧ j + 1 ≤ input.length) :
    (TokenCursor.docsSince start).result input j =
      some (.ok (firstDocs ((input.take (j + 1)).drop start), j)) := by
  have hsince := result_since_at input start j
  rw [if_pos h] at hsince
  rw [TokenCursor.docsSince, result_step hsince, firstDocs]
  cases ((input.take (j + 1)).drop start).findSome? Lexeme.docs <;> rfl

theorem result_docsSince_overrun {input : List Lexeme} {start j : Nat}
    (h : ¬ (start ≤ j + 1 ∧ j + 1 ≤ input.length)) :
    (TokenCursor.docsSince start).result input j = some (.error .overrun) := by
  have hsince := result_since_at input start j
  rw [if_neg h] at hsince
  rw [TokenCursor.docsSince, result_stop hsince]

theorem eq_of_result_docsSince {input : List Lexeme} {start j j' : Nat} {docs : String}
    (h : (TokenCursor.docsSince start).result input j = some (.ok (docs, j'))) :
    j' = j ∧ docs = firstDocs ((input.take (j + 1)).drop start) ∧
      start ≤ j + 1 ∧ j + 1 ≤ input.length := by
  by_cases hj : start ≤ j + 1 ∧ j + 1 ≤ input.length
  · rw [result_docsSince_at hj] at h
    cases h
    exact ⟨rfl, rfl, hj⟩
  · rw [result_docsSince_overrun hj] at h
    cases h

theorem not_result_docsSince_error {input : List Lexeme} {start j : Nat} {e : Stop}
    (h : (TokenCursor.docsSince start).result input j = some (.error e)) : e = .overrun := by
  by_cases hj : start ≤ j + 1 ∧ j + 1 ≤ input.length
  · rw [result_docsSince_at hj] at h
    cases h
  · rw [result_docsSince_overrun hj] at h
    cases h
    rfl

theorem firstDocs_congr {ls ls' : List Lexeme}
    (h : ls.findSome? Lexeme.docs = ls'.findSome? Lexeme.docs) : firstDocs ls = firstDocs ls' := by
  rw [firstDocs, h, firstDocs]

/-- What is found first depends on what there is alone. -/
theorem findSome?_docs_congr {ls ls' : List Lexeme} (h : ls.map Lexeme.docs = ls'.map Lexeme.docs) :
    ls.findSome? Lexeme.docs = ls'.findSome? Lexeme.docs := by
  have hfind : ∀ ls : List Lexeme,
      ls.findSome? Lexeme.docs = (ls.map Lexeme.docs).findSome? id := by
    intro ls
    rw [List.findSome?_map]
    rfl
  rw [hfind, h, ← hfind]

theorem map_docs_rest (p : Passage) : (lexemes p.firstText p.rest).map Lexeme.docs =
    (lexemes p.secondText p.rest').map Lexeme.docs := by
  have h := congrArg (List.map Prod.snd) p.alike
  simp only [List.map_map] at h
  simp only [lexemes, List.map_append, List.map_map]
  exact congrArg (· ++ _) h

theorem lexemes_append (text : List Char) (before rest : List Token) :
    lexemes text (before ++ rest) = before.map Token.lexeme ++ lexemes text rest := by
  simp [lexemes]

/-- Up to the opening brace a slice is the same whatever follows. -/
theorem take_lexemes_upTo {j : Nat} (hj : j ≤ p.front.length) (text : List Char) (y : List Token) :
    (lexemes text (p.front ++ p.opening :: y)).take (j + 1) = p.cut.take (j + 1) := by
  have hle : j + 1 ≤ ((p.front ++ [p.opening]).map Token.lexeme).length := by simp; omega
  have hsplit : p.front ++ p.opening :: y = p.front ++ [p.opening] ++ y := by simp
  rw [hsplit, lexemes_append, List.take_append_of_le_length hle, Passage.cut, lexemes,
    List.take_append_of_le_length hle]

/-- A slice behind some tokens is one of what follows them. -/
theorem slice_lexemes_append (text : List Char) (before rest : List Token) (d d' : Nat) :
    ((lexemes text (before ++ rest)).take (before.length + d' + 1)).drop (before.length + d) =
      ((lexemes text rest).take (d' + 1)).drop d := by
  have hlength : before.length = (before.map Token.lexeme).length := by simp
  rw [lexemes_append, hlength, Nat.add_assoc, List.take_length_add_append,
    List.drop_length_add_append]

/-- Nothing between the braces is found in a slice from before them, if nothing there is
    documentation. -/
theorem findSome?_docs_through {filling : Filling p.bracket} (hbracket : p.bracket ≠ '\x7b')
    {i : Nat} (hi : i ≤ p.front.length) (text : List Char) (rest : List Token) (d : Nat) :
    (((lexemes text (p.through filling ++ rest)).take ((p.through filling).length + d + 1)).drop
      i).findSome? Lexeme.docs =
      ((((p.front ++ [p.opening]).drop i).map Token.lexeme).findSome? Lexeme.docs).or
        (((lexemes text rest).take (d + 1)).findSome? Lexeme.docs) := by
  have hthrough : p.through filling =
      p.front ++ [p.opening] ++ (filling.inside ++ [filling.closing]) := by
    simp [Passage.through]
  have hlength : (p.through filling).length = ((p.through filling).map Token.lexeme).length := by
    simp
  have hle : i ≤ ((p.front ++ [p.opening]).map Token.lexeme).length := by simp; omega
  have hinside : ((filling.inside ++ [filling.closing]).map Token.lexeme).findSome? Lexeme.docs =
      none := by
    rw [List.findSome?_eq_none_iff]
    intro l hl
    obtain ⟨t, ht, rfl⟩ := List.mem_map.1 hl
    exact filling.undocumented hbracket t ht
  rw [lexemes_append, hlength, Nat.add_assoc, List.take_length_add_append, hthrough,
    List.map_append, List.append_assoc, List.drop_append_of_le_length hle, List.findSome?_append,
    List.findSome?_append, hinside, Option.none_or, List.map_drop]

theorem findSome?_docs_take (p : Passage) (d : Nat) :
    ((lexemes p.secondText p.rest').take d).findSome? Lexeme.docs =
      ((lexemes p.firstText p.rest).take d).findSome? Lexeme.docs := by
  refine findSome?_docs_congr ?_
  rw [List.map_take, List.map_take, map_docs_rest]

/-- After the braces a place is in one sequence if it is in the other. -/
theorem length_secondInput {d : Nat} (h : p.firstEnd + d + 1 ≤ p.firstInput.length) :
    p.secondEnd + d + 1 ≤ p.secondInput.length := by
  have hrest := length_rest p
  rw [Passage.firstInput, Passage.firstEnd, length_lexemes, List.length_append] at h
  rw [Passage.secondInput, Passage.secondEnd, length_lexemes, List.length_append]
  omega

/-- The text is refused for modifiers, if at all, and not for a brace that is left open. -/
theorem bracket_ne_of_leavesOpen {i : Nat} {e : Stop} (hi : i ≤ p.front.length)
    (hcut : TokenCursor.skipModifiers.result p.cut i = some (.error e))
    (he : e.LeavesOpen p.bracket) : p.bracket ≠ '\x7b' := by
  obtain ⟨position, rfl⟩ := he
  have hindex : (p.front ++ [p.opening]).length - ((p.front ++ [p.opening]).drop i).length = i := by
    rw [List.length_drop, List.length_append, List.length_singleton]
    omega
  have hfollows := (follows_modifiers p.cutText (p.front ++ [p.opening])
    ((p.front ++ [p.opening]).drop i) (List.drop_suffix i _)).result_eq
  rw [hindex, ← Passage.cut, hcut] at hfollows
  cases hread : modifiers ((p.front ++ [p.opening]).drop i) with
  | ok a =>
    rw [hread] at hfollows
    cases hfollows
  | error h =>
    rw [hread] at hfollows
    have hwanted : h.wanted = .closing p.bracket := by
      simp only [placed, Option.some.injEq, Except.error.injEq, Stop.refused.injEq] at hfollows
      unfold Halt.inText at hfollows
      split at hfollows <;> exact (Fault.unexpected.inj (Error.mk.inj hfollows).2).1.symm
    intro hbracket
    rw [hbracket] at hwanted
    rcases wanted_of_modifiers hread with hother | hother <;> cases hwanted.symm.trans hother

theorem result_documentation (input : List Lexeme) (i : Nat) :
    documentation.result input i =
      (TokenCursor.skipModifiers >>= fun _ => TokenCursor.docsSince i).result input i :=
  rfl

/-- A slice from before the braces to behind them starts with the same documentation whatever fills
    the braces, if that has none. -/
theorem firstDocs_through (hbracket : p.bracket ≠ '\x7b') {i : Nat} (hi : i ≤ p.front.length)
    (d : Nat) : firstDocs ((p.secondInput.take (p.secondEnd + d + 1)).drop i) =
      firstDocs ((p.firstInput.take (p.firstEnd + d + 1)).drop i) := by
  refine firstDocs_congr ?_
  rw [Passage.secondInput, Passage.secondEnd, Passage.firstInput, Passage.firstEnd,
    findSome?_docs_through hbracket hi, findSome?_docs_through hbracket hi, findSome?_docs_take]

/-- So does a slice behind the braces. -/
theorem firstDocs_rest (p : Passage) (d d' : Nat) :
    firstDocs ((p.secondInput.take (p.secondEnd + d' + 1)).drop (p.secondEnd + d)) =
      firstDocs ((p.firstInput.take (p.firstEnd + d' + 1)).drop (p.firstEnd + d)) := by
  refine firstDocs_congr (findSome?_docs_congr ?_)
  rw [Passage.secondInput, Passage.secondEnd, Passage.firstInput, Passage.firstEnd,
    slice_lexemes_append, slice_lexemes_append, List.map_drop, List.map_take, List.map_drop,
    List.map_take, map_docs_rest]

theorem passes_documentation : Passes p documentation := fun k => by
  have hmodifiers := passes_skipModifiers (p := p) k
  exact {
    settled := by
      intro i x hi hk hcut hx text y
      rw [result_documentation] at hcut ⊢
      obtain ⟨_, j, hfirst, hdocs⟩ | ⟨e, hfirst, rfl⟩ := result_bind_eq_some hcut
      · rcases x with e | ⟨docs, j'⟩
        · obtain rfl := not_result_docsSince_error hdocs
          exact absurd hx Stop.not_atToken_overrun
        · obtain ⟨rfl, rfl, hstart, -⟩ := eq_of_result_docsSince hdocs
          have hj : j' ≤ p.front.length := hx
          have hlength : j' + 1 ≤ (lexemes text (p.front ++ p.opening :: y)).length := by
            rw [length_lexemes, List.length_append]
            omega
          rw [result_step (hmodifiers.settled hi hk hfirst hj text y),
            result_docsSince_at ⟨hstart, hlength⟩, take_lexemes_upTo hj]
      · exact result_stop (hmodifiers.settled hi hk hfirst hx text y)
    bounded := by
      intro i j docs hi hk hcut
      rw [result_documentation] at hcut
      obtain ⟨_, j', hfirst, hdocs⟩ := result_bind_eq_ok hcut
      obtain ⟨rfl, -⟩ := eq_of_result_docsSince hdocs
      exact hmodifiers.bounded hi hk hfirst
    resumed := by
      intro i j e docs hi hk hcut he hwhole
      rw [result_documentation] at hcut hwhole ⊢
      obtain ⟨_, j', hwfirst, hwdocs⟩ := result_bind_eq_ok hwhole
      obtain ⟨rfl, rfl, -, hlength⟩ := eq_of_result_docsSince hwdocs
      obtain ⟨_, j', hfirst, hdocs⟩ | ⟨e', hfirst, heq⟩ := result_bind_eq_some hcut
      · obtain rfl := not_result_docsSince_error hdocs
        exact absurd he (Stop.not_leavesOpen_overrun _)
      -- The braces are in the parentheses of an annotation before the declaration.
      · cases heq
        obtain ⟨d, rfl, hsecond⟩ := hmodifiers.resumed hi hk hfirst he hwfirst
        have hstart : i ≤ p.secondEnd + d + 1 := by
          rw [Passage.secondEnd, p.length_through]
          omega
        refine ⟨d, rfl, ?_⟩
        rw [result_step hsecond, result_docsSince_at ⟨hstart, length_secondInput hlength⟩,
          firstDocs_through (bracket_ne_of_leavesOpen hi hfirst he) hi]
    rested := by
      intro d j docs hk hwhole
      rw [result_documentation] at hwhole ⊢
      obtain ⟨_, j', hwfirst, hwdocs⟩ := result_bind_eq_ok hwhole
      obtain ⟨rfl, rfl, hstart, hlength⟩ := eq_of_result_docsSince hwdocs
      obtain ⟨d', rfl, hsecond⟩ := hmodifiers.rested hk hwfirst
      have hstart' : p.secondEnd + d ≤ p.secondEnd + d' + 1 := by omega
      refine ⟨d', rfl, ?_⟩
      rw [result_step hsecond, result_docsSince_at ⟨hstart', length_secondInput hlength⟩,
        firstDocs_rest]
    ended := by
      intro x hk hcut
      rw [result_documentation] at hcut
      obtain ⟨_, j, hfirst, hdocs⟩ | ⟨e, hfirst, rfl⟩ := result_bind_eq_some hcut
      · obtain ⟨_, h⟩ | ⟨e, h, -⟩ := hmodifiers.ended hk hfirst
        · cases h
          rcases x with e | ⟨docs, j⟩
          · obtain rfl := not_result_docsSince_error hdocs
            exact .inr ⟨_, rfl, Stop.not_atToken_overrun, Stop.not_leavesOpen_overrun _⟩
          · obtain ⟨rfl, -⟩ := eq_of_result_docsSince hdocs
            exact .inl ⟨docs, rfl⟩
        · cases h
      · obtain ⟨_, h⟩ | ⟨e', h, hnot⟩ := hmodifiers.ended hk hfirst
        · cases h
        · cases h
          exact .inr ⟨e, rfl, hnot⟩ }

/-! ## Section 4: What is passed over anyway -/

theorem passes_skipMemberTail : Passes p TokenCursor.skipMemberTail := by
  refine .loop (fun _ k => ?_) ()
  refine .peek (.ite (fun _ => ?_) fun _ => .ite (fun hk => ?_) fun _ =>
    .ite (fun hk => ?_) fun _ => .ite (fun _ => Passes.refuse (by simp) k) fun _ => ?_)
  · exact (Passes.advance k).bind fun _ => .done ()
  · exact (PassesAt.group_of_eq rfl hk).bind fun _ => .done ()
  · exact (PassesAt.group_of_eq rfl hk).bind fun _ => .again ()
  · exact (Passes.advance k).bind fun _ => .again ()

theorem passes_skipInitializer : Passes p TokenCursor.skipInitializer := by
  intro k
  refine (Passes.expectSymbol '=' k).bind fun _ => Passes.loop (fun _ k => ?_) ()
  refine .peek (.ite (fun _ => Passes.done () k) fun _ => ?_)
  refine .test_next_two (by decide) (by simp [TokenCursor.isWord]) (fun _ => Passes.done () k) ?_
  refine .ite (fun hk => ?_) fun _ => .ite (fun hk => ?_) fun _ => .ite (fun hk => ?_) fun _ =>
    .ite (fun _ => Passes.refuse (by simp) k) fun _ => ?_
  · exact (PassesAt.group_of_eq rfl hk).bind fun _ => .again ()
  · exact (PassesAt.group_of_eq rfl hk).bind fun _ => .again ()
  · exact (PassesAt.group_of_eq rfl hk).bind fun _ => .again ()
  · exact (Passes.advance k).bind fun _ => .again ()

theorem passes_skipHeader : Passes p TokenCursor.skipHeader := by
  refine .loop (fun _ k => ?_) ()
  refine .peek (.ite (fun _ => ?_) fun _ => .ite (fun hk => ?_) fun _ =>
    .ite (fun _ => Passes.refuse (by simp) k) fun _ => ?_)
  · exact (Passes.advance k).bind fun _ => .done ()
  · exact (PassesAt.group_of_eq rfl hk).bind fun _ => .again ()
  · exact (Passes.advance k).bind fun _ => .again ()

/-! ## Section 5: Types and members -/

theorem passes_partsFrom (name : String) : Passes p (TokenCursor.partsFrom name) := by
  refine .loop (fun name k => ?_) name
  refine .peek (.ite (fun hk => ?_) fun _ => ?_)
  · exact (PassesAt.group_of_eq rfl hk).bind fun _ => .again name
  refine .test_next (by decide) (fun _ => ?_) ?_
  · refine (Passes.advance k).bind fun _ k => ?_
    exact (Passes.expectIdent k).bind fun part => .again part
  refine .test_next (by decide) (fun _ => ?_) (Passes.done name k)
  refine (Passes.advance k).bind fun _ k => ?_
  exact (passes_annotated k).bind fun _ => .again name

theorem passes_dimensionsFrom (n : Nat) : Passes p (TokenCursor.dimensionsFrom n) := by
  refine .loop (fun n k => ?_) n
  refine .peek (.test_next (by decide) (fun _ => ?_) ?_)
  · refine (Passes.advance k).bind fun _ k => ?_
    exact (Passes.advance k).bind fun _ => .again (n + 1)
  refine .peekAt_zero (.test_next_two (by decide) (by simp) (fun _ => ?_) (.ite (fun _ => ?_)
    fun _ => Passes.done n k))
  · refine (Passes.advance k).bind fun _ k => (Passes.advance k).bind fun _ k => ?_
    exact (Passes.advance k).bind fun _ => .again (n + 1)
  · exact (passes_annotated k).bind fun _ => .again n

theorem passes_typeName : Passes p TokenCursor.typeName := by
  intro k
  refine (passes_skipModifiers k).bind fun _ k => (Passes.expectIdent k).bind fun first k => ?_
  refine (passes_partsFrom first k).bind fun name k => ?_
  exact (passes_dimensionsFrom 0 k).bind fun n => .pure _

theorem passes_nameDimensionsFrom (type : WrittenType) :
    Passes p (TokenCursor.nameDimensionsFrom type) := by
  refine .loop (fun type k => ?_) type
  refine .peek (.test_next (by decide) (fun _ => ?_) (Passes.done type k))
  refine (Passes.advance k).bind fun _ k => ?_
  exact (Passes.advance k).bind fun _ => .again _

theorem passes_parameter : Passes p TokenCursor.parameter := by
  intro k
  refine (passes_typeName k).bind fun type k => (Passes.expectIdent k).bind fun name k => ?_
  exact (passes_nameDimensionsFrom type k).bind fun type => .pure _

theorem passes_separator : Passes p TokenCursor.separator := by
  intro k
  refine (Passes.accepts ',' k).bind fun found k => .ite (fun _ => Passes.pure () k) fun _ => ?_
  exact .peek (.ite (fun _ => Passes.refuse (by simp) k) fun _ => Passes.pure () k)

theorem passes_parametersFrom (found : List Parameter) :
    Passes p (TokenCursor.parametersFrom found) := by
  refine .loop (fun found k => ?_) found
  refine (Passes.accepts ')' k).bind fun closed k =>
    .ite (fun _ => Passes.done found k) fun _ => ?_
  refine (passes_parameter k).bind fun x k => ?_
  exact (passes_separator k).bind fun _ => .again _

theorem passes_typeParametersFrom (names : List String) (depth : Nat) (expectName : Bool) :
    Passes p (TokenCursor.typeParametersFrom names depth expectName) := by
  refine .loop ?_ _
  rintro ⟨names, depth, expectName⟩ k
  refine .peek ?_
  rcases k with _ | w | _ | c
  · exact Passes.refuse (by simp) _
  · exact (Passes.advance _).bind fun _ k => .ite (fun _ => Passes.again _ k) fun _ =>
      Passes.again _ k
  · exact (Passes.advance _).bind fun _ => .again _
  · refine .ite (fun _ => ?_) fun _ => .ite (fun _ => ?_) fun _ => .ite (fun _ => ?_) fun _ =>
      .ite (fun _ => ?_) fun _ => ?_
    · exact (Passes.advance _).bind fun _ => .again _
    · exact (Passes.advance _).bind fun _ k => .ite (fun _ => Passes.done names k) fun _ =>
        Passes.again _ k
    · exact (Passes.advance _).bind fun _ => .again _
    · exact (passes_annotated _).bind fun _ => .again _
    · exact (Passes.advance _).bind fun _ => .again _

theorem passes_optionalTypeParameters : Passes p TokenCursor.optionalTypeParameters := by
  intro k
  exact .peek (.ite (fun _ => passes_typeParametersFrom [] 0 true k) fun _ => Passes.pure [] k)

theorem passes_fieldsFrom (docs : String) (found : List Member) :
    Passes p (TokenCursor.fieldsFrom docs found) := by
  refine .loop (fun found k => ?_) found
  refine .peek (.ite (fun _ => ?_) fun _ => .ite (fun _ => ?_) fun _ => .ite (fun _ => ?_) fun _ =>
    .ite (fun hk => ?_) fun _ => Passes.refuse (by simp) k)
  · exact (Passes.advance k).bind fun _ => .done found
  · refine (Passes.advance k).bind fun _ k => ?_
    exact (Passes.expectIdent k).bind fun name => .again _
  · exact (passes_skipInitializer k).bind fun _ => .again found
  · exact (PassesAt.group_of_eq rfl hk).bind fun _ => .again found

theorem passes_callable (kind : MemberKind) (docs name : String) (typeVariables : List String) :
    Passes p (TokenCursor.callable kind docs name typeVariables) := by
  intro k
  refine (Passes.expectSymbol '(' k).bind fun _ k => ?_
  refine (passes_parametersFrom [] k).bind fun parameters k => ?_
  exact (passes_skipMemberTail k).bind fun _ => .pure _

theorem passes_afterName (docs name : String) (typeVariables : List String) :
    Passes p (TokenCursor.afterName docs name typeVariables) := by
  intro k
  exact .peek (.ite (fun _ => passes_callable .method docs name typeVariables k) fun _ =>
    passes_fieldsFrom docs _ k)

theorem passes_typedMembers (docs : String) (typeVariables : List String) :
    Passes p (TokenCursor.typedMembers docs typeVariables) := by
  intro k
  refine (passes_typeName k).bind fun _ k => ?_
  exact (Passes.expectIdent k).bind fun name => passes_afterName docs name typeVariables

theorem passes_membersAfter (owner docs : String) (typeVariables : List String) :
    Passes p (TokenCursor.membersAfter owner docs typeVariables) := by
  intro k
  refine .peek (.test_next (by simp) (fun _ => ?_) (passes_typedMembers docs typeVariables k))
  exact (Passes.advance k).bind fun _ => passes_callable .constructor docs owner typeVariables

theorem passes_members (owner docs : String) : Passes p (TokenCursor.members owner docs) := by
  have hvariables : Passes p TokenCursor.memberTypeParameters := by
    intro k
    refine .peek (.ite (fun _ => ?_) fun _ => Passes.pure [] k)
    refine (passes_typeParametersFrom [] 0 true k).bind fun names k => ?_
    exact (passes_skipModifiers k).bind fun _ => .pure names
  intro k
  exact (hvariables k).bind fun typeVariables => passes_membersAfter owner docs typeVariables

/-! ## Section 6: Declarations -/

theorem passes_enumConstant : Passes p TokenCursor.enumConstant := by
  have hassoc : TokenCursor.enumConstant = documentation >>= fun docs =>
      TokenCursor.expectIdent >>= fun name => TokenCursor.skipOptional '(' ')' >>= fun _ =>
      TokenCursor.skipOptional '\x7b' '\x7d' >>= fun _ => pure (.ofField docs name) := by
    simp only [TokenCursor.enumConstant, documentation, bind_assoc]
  intro k
  rw [hassoc]
  refine (passes_documentation k).bind fun docs k => (Passes.expectIdent k).bind fun name k => ?_
  refine (passes_skipOptional rfl k).bind fun _ k => ?_
  exact (passes_skipOptional rfl k).bind fun _ => .pure _

theorem passes_enumConstantsFrom (found : List Member) :
    Passes p (TokenCursor.enumConstantsFrom found) := by
  refine .loop (fun found k => ?_) found
  refine .peek (.ite (fun _ => ?_) fun _ => .ite (fun _ => Passes.done found k) fun _ =>
    .ite (fun _ => ?_) fun _ => .ite (fun _ => Passes.refuse (by simp) k) fun _ => ?_)
  · exact (Passes.advance k).bind fun _ => .done found
  · exact (Passes.advance k).bind fun _ => .again found
  · exact (passes_enumConstant k).bind fun constant => .again _

theorem passes_constantsOf (keyword : String) : Passes p (TokenCursor.constantsOf keyword) := by
  intro k
  exact .ite (fun _ => passes_enumConstantsFrom [] k) fun _ => Passes.pure [] k

section nested

variable {inner : String → List String → TokenCursor TypeUnit}
  (hinner : ∀ docs outer, Passes p (inner docs outer))

include hinner

theorem passes_bareDeclaration (owner docs : String) (outer : List String) :
    Passes p (TokenCursor.bareDeclaration inner owner docs outer) := by
  intro k
  refine .peek (.ite (fun hk => ?_) fun _ => .ite (fun _ => ?_) fun _ => .ite (fun _ => ?_) fun _ =>
    .ite (fun _ => ?_) fun _ => ?_)
  · exact (PassesAt.group_of_eq rfl hk).bind fun _ => .pure _
  · exact (Passes.advance k).bind fun _ => .pure _
  · exact (hinner docs outer k).bind fun t => .pure _
  · refine (Passes.advance k).bind fun _ k => ?_
    exact (hinner docs outer k).bind fun t => .pure _
  · exact (passes_members owner docs k).bind fun ms => .pure _

theorem passes_declaration (owner : String) (outer : List String) :
    Passes p (TokenCursor.declaration inner owner outer) := by
  have hassoc : TokenCursor.declaration inner owner outer = documentation >>= fun docs =>
      TokenCursor.bareDeclaration inner owner docs outer := by
    simp only [TokenCursor.declaration, documentation, bind_assoc]
  intro k
  rw [hassoc]
  exact (passes_documentation k).bind fun docs => passes_bareDeclaration hinner owner docs outer

theorem passes_bodyFrom (t : TypeUnit) : Passes p (TokenCursor.bodyFrom inner t) := by
  refine .loop (fun t k => ?_) t
  refine (Passes.accepts '\x7d' k).bind fun closed k => .ite (fun _ => Passes.done t k) fun _ => ?_
  refine .peek (.ite (fun _ => Passes.refuse (by simp) k) fun _ => ?_)
  refine (passes_declaration hinner t.name t.typeVariables k).bind fun found => ?_
  cases found with
  | nothing => exact .again t
  | type found => exact .again _
  | members ms => exact .again _

end nested

theorem passes_typeUnit (room : Nat) (docs : String) (outer : List String) :
    Passes p (TokenCursor.typeUnit room docs outer) := by
  induction room generalizing docs outer with
  | zero => exact .exhausted
  | succ room ih =>
    intro k
    refine (Passes.expectIdent k).bind fun keyword k => (Passes.expectIdent k).bind fun name k => ?_
    refine (passes_optionalTypeParameters k).bind fun own k => ?_
    refine (passes_skipHeader k).bind fun _ k => ?_
    exact (passes_constantsOf keyword k).bind fun constants => passes_bodyFrom ih _

/-- A source file is read over the braces. -/
theorem passes_sourceUnit (room : Nat) : Passes p (TokenCursor.sourceUnit room) := by
  refine .loop ?_ _
  rintro ⟨package, types⟩ k
  refine .peek (.ite (fun _ => Passes.done _ k) fun _ => .ite (fun _ => ?_) fun _ =>
    .ite (fun _ => ?_) fun _ => .ite (fun _ => ?_) fun _ => ?_)
  · exact (Passes.advance k).bind fun _ => .again _
  · refine (Passes.advance k).bind fun _ k => (passes_qualifiedName k).bind fun name k => ?_
    exact (Passes.expectSymbol ';' k).bind fun _ => .again _
  · exact (passes_skipPast ';' k).bind fun _ => .again _
  · exact (passes_declaration (passes_typeUnit room) "" [] k).bind fun found => .again _

end TypeCatalog.Source
