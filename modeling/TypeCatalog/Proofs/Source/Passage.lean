import TypeCatalog.Proofs.Source.Bounds
import TypeCatalog.Proofs.Source.Reading

/-! # Passing over what stands in braces

    Two sequences of tokens are the same up to an opening brace and from its closing one on, and
    differ between the two. Whether a cursor comes to the same on both can be told from the sequence
    that is cut after the opening brace. What is settled on it before the brace is settled in the
    same way on every longer sequence. If it is refused because a bracket is left open, then the
    cursor is in a group there, which it passes over by counting brackets of one kind. These are
    well nested between the braces, so from the closing brace on the cursor is in the same state
    again. And what comes then does not depend on where it stands.

    This passes through sequences of cursors, and through loops, round by round. -/

set_option autoImplicit false

namespace TypeCatalog.Source

/-! ## Section 1: Sequences with braces in them -/

/-- The bracket that closes a group. -/
def closerOf : Char → Char
  | '(' => ')'
  | '[' => ']'
  | '<' => '>'
  | _ => '\x7d'

/-- What counts in a token apart from its place. -/
def Token.look (t : Token) : TokenKind × Option String := (t.kind, t.docs)

/-- What stands between two braces, with the closing one. Brackets of the given kind are well nested
    in it. A group in braces is never part of modifiers, so comments in it are not taken for the
    documentation of a declaration. -/
structure Filling (bracket : Char) where
  inside : List Token
  closing : Token
  closing_kind : closing.kind = .symbol '\x7d'
  nested : WellNested bracket (closerOf bracket) inside
  undocumented : bracket ≠ '\x7b' → ∀ t ∈ inside ++ [closing], t.docs = none

/-- Tokens up to an opening brace, two ways to fill the braces, and tokens after them that differ in
    their places at most. The texts are those that the tokens stand in: one that ends with the
    opening brace, and one for each filling. -/
structure Passage where
  bracket : Char
  front : List Token
  opening : Token
  opening_kind : opening.kind = .symbol '\x7b'
  first : Filling bracket
  second : Filling bracket
  rest : List Token
  rest' : List Token
  alike : rest.map Token.look = rest'.map Token.look
  cutText : List Char
  firstText : List Char
  secondText : List Char

namespace Passage

variable (p : Passage)

/-- The tokens through the closing brace. -/
def through (filling : Filling p.bracket) : List Token :=
  p.front ++ p.opening :: (filling.inside ++ [filling.closing])

/-- The lexemes of the text that ends with the opening brace. -/
def cut : List Lexeme := lexemes p.cutText (p.front ++ [p.opening])

/-- The lexemes with the first filling. -/
def firstInput : List Lexeme := lexemes p.firstText (p.through p.first ++ p.rest)

/-- The lexemes with the second filling. -/
def secondInput : List Lexeme := lexemes p.secondText (p.through p.second ++ p.rest')

/-- The index after the closing brace. -/
def firstEnd : Nat := (p.through p.first).length

def secondEnd : Nat := (p.through p.second).length

theorem length_through (filling : Filling p.bracket) :
    (p.through filling).length = p.front.length + filling.inside.length + 2 := by
  simp only [through, List.length_append, List.length_cons, List.length_nil]
  omega

theorem firstInput_eq : p.firstInput = lexemes p.firstText
    (p.front ++ p.opening :: (p.first.inside ++ p.first.closing :: p.rest)) := by
  simp [firstInput, through]

theorem secondInput_eq : p.secondInput = lexemes p.secondText
    (p.front ++ p.opening :: (p.second.inside ++ p.second.closing :: p.rest')) := by
  simp [secondInput, through]

end Passage

/-- What the lexeme at an index is. -/
def kindOf (input : List Lexeme) (i : Nat) : Option TokenKind := input[i]?.bind Lexeme.kind

section lexemes

variable {text : List Char} {p : Passage}

theorem getElem?_lexemes_append (text : List Char) (before rest : List Token) (d : Nat) :
    (lexemes text (before ++ rest))[before.length + d]? = (lexemes text rest)[d]? := by
  have hlength : before.length = (before.map Token.lexeme).length := by simp
  rw [lexemes, List.map_append, List.append_assoc, hlength, List.getElem?_append_right (by omega),
    Nat.add_sub_cancel_left, lexemes]

/-- Up to the opening brace it does not matter what follows. -/
theorem getElem?_lexemes_upTo (p : Passage) {i : Nat} (hi : i ≤ p.front.length)
    (text text' : List Char) (y y' : List Token) :
    (lexemes text (p.front ++ p.opening :: y))[i]? =
      (lexemes text' (p.front ++ p.opening :: y'))[i]? := by
  have hle : i < ((p.front ++ [p.opening]).map Token.lexeme).length := by simp; omega
  have hsplit : ∀ (text : List Char) (y : List Token), lexemes text (p.front ++ p.opening :: y) =
      (p.front ++ [p.opening]).map Token.lexeme ++ lexemes text y := by simp [lexemes]
  rw [hsplit, hsplit, List.getElem?_append_left hle, List.getElem?_append_left hle]

/-- Up to the opening brace there is a token at each index. -/
theorem exists_getElem?_cut {i : Nat} (hi : i ≤ p.front.length) :
    ∃ t, p.cut[i]? = some (Token.lexeme t) := by
  have hle : i < (p.front ++ [p.opening]).length := by simp; omega
  refine ⟨(p.front ++ [p.opening])[i], ?_⟩
  rw [Passage.cut, lexemes, List.getElem?_append_left (by simpa using hle), List.getElem?_map,
    List.getElem?_eq_getElem hle]
  rfl

theorem kindOf_opening (text : List Char) (y : List Token) :
    kindOf (lexemes text (p.front ++ p.opening :: y)) p.front.length = some (.symbol '\x7b') := by
  have h := getElem?_lexemes_append text p.front (p.opening :: y) 0
  rw [Nat.add_zero] at h
  rw [kindOf, h]
  show some p.opening.kind = _
  rw [p.opening_kind]

/-- After the opening brace the cut sequence ends. -/
theorem getElem?_cut_end : ∃ l : Lexeme, l.kind = none ∧ p.cut[p.front.length + 1]? = some l := by
  refine ⟨⟨none, Text.Utf8.size p.cutText, none⟩, rfl, ?_⟩
  have h := getElem?_lexemes_append p.cutText (p.front ++ [p.opening]) [] 0
  rw [List.append_nil, List.length_append, List.length_singleton, Nat.add_zero] at h
  exact h

theorem kindOf_lexemes (text : List Char) (ts : List Token) (i : Nat) :
    kindOf (lexemes text ts) i = kindAt ts i := by
  have h : (lexemes text ts)[ts.length - ts.length + i]?.bind Lexeme.kind = kindAt ts i :=
    bind_kind_getElem?_lexemes (List.suffix_refl ts) i
  rwa [Nat.sub_self, Nat.zero_add] at h

theorem kindAt_rest (p : Passage) (d : Nat) : kindAt p.rest d = kindAt p.rest' d := by
  have h := congrArg (fun l => (l[d]?).map Prod.fst) p.alike
  simpa [kindAt, Token.look, Function.comp_def] using h

end lexemes

/-! ## Section 2: Cursors that pass -/

/-- A text is refused for a token of it. -/
def Stop.AtToken (e : Stop) : Prop :=
  ∃ position wanted kind, e = .refused ⟨position, .unexpected wanted (some kind)⟩

/-- A text is refused at its end for a bracket that is left open. -/
def Stop.LeavesOpen (bracket : Char) (e : Stop) : Prop :=
  ∃ position, e = .refused ⟨position, .unexpected (.closing bracket) none⟩

theorem Stop.not_atToken_overrun : ¬ overrun.AtToken := by
  rintro ⟨_, _, _, h⟩
  cases h

theorem Stop.not_leavesOpen_overrun (bracket : Char) : ¬ overrun.LeavesOpen bracket := by
  rintro ⟨_, h⟩
  cases h

/-- An outcome up to an index, which is that of the opening brace or before it. -/
def Settled (limit : Nat) {α : Type} : Except Stop (α × Nat) → Prop
  | .ok (_, j) => j ≤ limit
  | .error e => e.AtToken

/-- A cursor that is in front of a lexeme of a kind passes over the braces. -/
structure PassesAt (p : Passage) (k : Option TokenKind) {α : Type} (m : TokenCursor α) : Prop where
  /-- What is settled on the cut sequence is so on every longer one. -/
  settled {i : Nat} {x : Except Stop (α × Nat)} : i ≤ p.front.length → kindOf p.cut i = k →
    m.result p.cut i = some x → Settled p.front.length x →
    ∀ text y, m.result (lexemes text (p.front ++ p.opening :: y)) i = some x
  /-- The cut sequence is not left. -/
  bounded {i j : Nat} {a : α} : i ≤ p.front.length → kindOf p.cut i = k →
    m.result p.cut i = some (.ok (a, j)) → j ≤ p.front.length + 1
  /-- If a bracket is left open on the cut sequence, both fillings are passed over to the same
      place. -/
  resumed {i j : Nat} {e : Stop} {a : α} : i ≤ p.front.length → kindOf p.cut i = k →
    m.result p.cut i = some (.error e) → e.LeavesOpen p.bracket →
    m.result p.firstInput i = some (.ok (a, j)) →
    ∃ d, j = p.firstEnd + d ∧ m.result p.secondInput i = some (.ok (a, p.secondEnd + d))
  /-- After the braces both sequences go on to the same place. -/
  rested {d j : Nat} {a : α} : kindAt p.rest d = k →
    m.result p.firstInput (p.firstEnd + d) = some (.ok (a, j)) →
    ∃ d', j = p.firstEnd + d' ∧
      m.result p.secondInput (p.secondEnd + d) = some (.ok (a, p.secondEnd + d'))
  /-- At the end of the cut sequence the index stays, or the text is refused, but not for a bracket
      that is left open. -/
  ended {x : Except Stop (α × Nat)} : k = none → m.result p.cut (p.front.length + 1) = some x →
    (∃ a, x = .ok (a, p.front.length + 1)) ∨
      ∃ e, x = .error e ∧ ¬ e.AtToken ∧ ¬ e.LeavesOpen p.bracket

/-- A cursor that passes over the braces wherever it stands. -/
def Passes (p : Passage) {α : Type} (m : TokenCursor α) : Prop := ∀ k, PassesAt p k m

section rules

variable {p : Passage} {k : Option TokenKind} {α β σ : Type} {m m' : TokenCursor α}

theorem PassesAt.settled_first (hm : PassesAt p k m) {i : Nat} {x : Except Stop (α × Nat)}
    (hi : i ≤ p.front.length) (hk : kindOf p.cut i = k) (hcut : m.result p.cut i = some x)
    (hx : Settled p.front.length x) : m.result p.firstInput i = some x := by
  rw [p.firstInput_eq]
  exact hm.settled hi hk hcut hx _ _

theorem PassesAt.settled_second (hm : PassesAt p k m) {i : Nat} {x : Except Stop (α × Nat)}
    (hi : i ≤ p.front.length) (hk : kindOf p.cut i = k) (hcut : m.result p.cut i = some x)
    (hx : Settled p.front.length x) : m.result p.secondInput i = some x := by
  rw [p.secondInput_eq]
  exact hm.settled hi hk hcut hx _ _

theorem result_bind_eq_some {f : α → TokenCursor β} {input : List Lexeme} {i : Nat}
    {x : Except Stop (β × Nat)} (h : (m >>= f).result input i = some x) :
    (∃ a j, m.result input i = some (.ok (a, j)) ∧ (f a).result input j = some x) ∨
      ∃ e, m.result input i = some (.error e) ∧ x = .error e := by
  rw [result_bind] at h
  rcases hm : m.result input i with _ | e | ⟨a, j⟩ <;> rw [hm] at h
  · cases h
  · exact .inr ⟨e, rfl, (Option.some.inj h).symm⟩
  · exact .inl ⟨a, j, rfl, h⟩

theorem result_bind_eq_ok {f : α → TokenCursor β} {input : List Lexeme} {i j : Nat} {b : β}
    (h : (m >>= f).result input i = some (.ok (b, j))) :
    ∃ a i', m.result input i = some (.ok (a, i')) ∧ (f a).result input i' = some (.ok (b, j)) := by
  obtain h | ⟨e, -, he⟩ := result_bind_eq_some h
  · exact h
  · cases he

/-- On the cut sequence one cursor goes on where the other stops, before the end or at it. -/
theorem PassesAt.goes_on {f : α → TokenCursor β} (hm : PassesAt p k m) (hf : ∀ a, Passes p (f a))
    {i j : Nat} {a : α} {x : Except Stop (β × Nat)} (hi : i ≤ p.front.length)
    (hk : kindOf p.cut i = k) (hcut : m.result p.cut i = some (.ok (a, j)))
    (hnext : (f a).result p.cut j = some x) :
    j ≤ p.front.length ∨ (∃ b, x = .ok (b, p.front.length + 1)) ∨
      ∃ e, x = .error e ∧ ¬ e.AtToken ∧ ¬ e.LeavesOpen p.bracket := by
  obtain hle | rfl := Nat.le_succ_iff.1 (hm.bounded hi hk hcut)
  · exact .inl hle
  · exact .inr ((hf a none).ended rfl hnext)

theorem PassesAt.bind {f : α → TokenCursor β} (hm : PassesAt p k m) (hf : ∀ a, Passes p (f a)) :
    PassesAt p k (m >>= f) where
  settled {i x} hi hk hcut hx text y := by
    obtain ⟨a, j, hfirst, hnext⟩ | ⟨e, hfirst, rfl⟩ := result_bind_eq_some hcut
    · obtain hj | ⟨b, rfl⟩ | ⟨e, rfl, he, -⟩ := hm.goes_on hf hi hk hfirst hnext
      · rw [result_step (hm.settled hi hk hfirst hj text y)]
        exact (hf a _).settled hj rfl hnext hx text y
      · exact absurd hx (Nat.not_succ_le_self _)
      · exact absurd hx he
    · exact result_stop (hm.settled hi hk hfirst hx text y)
  bounded {i j b} hi hk hcut := by
    obtain ⟨a, i', hfirst, hnext⟩ := result_bind_eq_ok hcut
    obtain hi' | ⟨b', hb⟩ | ⟨e, he, -⟩ := hm.goes_on hf hi hk hfirst hnext
    · exact (hf a _).bounded hi' rfl hnext
    · cases hb
      exact Nat.le_refl _
    · cases he
  resumed {i j e b} hi hk hcut he hwhole := by
    obtain ⟨a, i', hwfirst, hwnext⟩ := result_bind_eq_ok hwhole
    obtain ⟨a', i'', hfirst, hnext⟩ | ⟨e', hfirst, heq⟩ := result_bind_eq_some hcut
    -- The braces are in a group of the second cursor, or in one of the first; then the second
    -- starts behind them.
    · obtain hi'' | ⟨b', hb⟩ | ⟨e', hb, -, hnot⟩ := hm.goes_on hf hi hk hfirst hnext
      · have hsecond := hm.settled_second hi hk hfirst hi''
        cases hwfirst.symm.trans (hm.settled_first hi hk hfirst hi'')
        obtain ⟨d, rfl, hsecond'⟩ := (hf a _).resumed hi'' rfl hnext he hwnext
        exact ⟨d, rfl, (result_step hsecond).trans hsecond'⟩
      · cases hb
      · cases hb
        exact absurd he hnot
    · cases heq
      obtain ⟨d, rfl, hsecond⟩ := hm.resumed hi hk hfirst he hwfirst
      obtain ⟨d', rfl, hsecond'⟩ := (hf a _).rested rfl hwnext
      exact ⟨d', rfl, (result_step hsecond).trans hsecond'⟩
  rested {d j b} hk hwhole := by
    obtain ⟨a, i', hwfirst, hwnext⟩ := result_bind_eq_ok hwhole
    obtain ⟨d', rfl, hsecond⟩ := hm.rested hk hwfirst
    obtain ⟨d'', rfl, hsecond'⟩ := (hf a _).rested rfl hwnext
    exact ⟨d'', rfl, (result_step hsecond).trans hsecond'⟩
  ended {x} hk hcut := by
    obtain ⟨a, j, hfirst, hnext⟩ | ⟨e, hfirst, rfl⟩ := result_bind_eq_some hcut
    · obtain ⟨a', ha⟩ | ⟨e, he, -⟩ := hm.ended hk hfirst
      · cases ha
        exact (hf a none).ended rfl hnext
      · cases he
    · obtain ⟨a', ha⟩ | ⟨e', he, hnot⟩ := hm.ended hk hfirst
      · cases ha
      · cases he
        exact .inr ⟨e, rfl, hnot⟩

theorem Passes.pure (a : α) : Passes p (Pure.pure a : TokenCursor α) := by
  intro k
  refine ⟨?_, ?_, ?_, ?_, ?_⟩
  · rintro i x - - hcut - text y
    exact hcut
  · rintro i j b hi - hcut
    cases hcut
    exact Nat.le_succ_of_le hi
  · rintro i j e b - - hcut
    cases hcut
  · rintro d j b - hwhole
    cases hwhole
    exact ⟨d, rfl, rfl⟩
  · rintro x - hcut
    cases hcut
    exact .inl ⟨a, rfl⟩

/-- A reading that stops without regard to the text. -/
theorem Passes.throw {e : Stop} (htoken : ¬ e.AtToken) (hopen : ¬ e.LeavesOpen p.bracket) :
    Passes p (MonadExcept.throw e : TokenCursor α) := by
  intro k
  refine ⟨?_, ?_, ?_, ?_, ?_⟩
  · rintro i x - - hcut - text y
    exact hcut
  · rintro i j b - - hcut
    cases hcut
  · rintro i j e b - - - - hwhole
    cases hwhole
  · rintro d j b - hwhole
    cases hwhole
  · rintro x - hcut
    cases hcut
    exact .inr ⟨e, rfl, htoken, hopen⟩

theorem Passes.overrun : Passes p (MonadExcept.throw Stop.overrun : TokenCursor α) :=
  .throw Stop.not_atToken_overrun (Stop.not_leavesOpen_overrun _)

theorem Passes.exhausted : Passes p (MonadExcept.throw Stop.exhausted : TokenCursor α) := by
  refine .throw ?_ ?_
  · rintro ⟨_, _, _, h⟩
    cases h
  · rintro ⟨_, h⟩
    cases h

theorem PassesAt.ite {c : Prop} [Decidable c] (h : c → PassesAt p k m)
    (h' : ¬ c → PassesAt p k m') : PassesAt p k (if c then m else m') := by
  split
  · exact h ‹_›
  · exact h' ‹_›

/-! ## Section 3: Loops -/

/-- What no number of rounds decides otherwise, the loop does not either. -/
theorem PassesAt.of_rounds {round : σ → TokenCursor (σ ⊕ α)} {s : σ}
    (h : ∀ n, PassesAt p k (Cursor.rounds round n s)) : PassesAt p k (Cursor.loop s round) where
  settled {i x} hi hk hcut hx text y := by
    obtain ⟨n, hn⟩ := Cursor.result_loop_eq_some_iff.1 hcut
    exact Cursor.result_loop_eq_some_iff.2 ⟨n, (h n).settled hi hk hn hx text y⟩
  bounded {i j a} hi hk hcut := by
    obtain ⟨n, hn⟩ := Cursor.result_loop_eq_some_iff.1 hcut
    exact (h n).bounded hi hk hn
  resumed {i j e a} hi hk hcut he hwhole := by
    obtain ⟨n, hn⟩ := Cursor.result_loop_eq_some_iff.1 hcut
    obtain ⟨l, hl⟩ := Cursor.result_loop_eq_some_iff.1 hwhole
    -- Both readings come to the same with as many rounds as the one that takes more of them.
    have hn := Cursor.result_rounds_of_le (Nat.le_max_left n l) hn
    have hl := Cursor.result_rounds_of_le (Nat.le_max_right n l) hl
    obtain ⟨d, hj, hsecond⟩ := (h _).resumed hi hk hn he hl
    exact ⟨d, hj, Cursor.result_loop_eq_some_iff.2 ⟨_, hsecond⟩⟩
  rested {d j a} hk hwhole := by
    obtain ⟨n, hn⟩ := Cursor.result_loop_eq_some_iff.1 hwhole
    obtain ⟨d', hj, hsecond⟩ := (h n).rested hk hn
    exact ⟨d', hj, Cursor.result_loop_eq_some_iff.2 ⟨n, hsecond⟩⟩
  ended {x} hk hcut := by
    obtain ⟨n, hn⟩ := Cursor.result_loop_eq_some_iff.1 hcut
    exact (h n).ended hk hn

/-- A loop passes over the braces if each of its rounds does. -/
theorem Passes.loop {round : σ → TokenCursor (σ ⊕ α)} (h : ∀ s, Passes p (round s)) (s : σ) :
    Passes p (Cursor.loop s round) := by
  intro k
  refine .of_rounds fun n => ?_
  induction n generalizing s k with
  | zero =>
    refine ⟨?_, ?_, ?_, ?_, ?_⟩
    · rintro i x - - hcut
      cases hcut
    · rintro i j a - - hcut
      cases hcut
    · rintro i j e a - - hcut
      cases hcut
    · rintro d j a - hwhole
      cases hwhole
    · rintro x - hcut
      cases hcut
  | succ n ih =>
    refine (h s k).bind fun y => ?_
    rcases y with s' | a
    · exact fun k => ih s' k
    · exact .pure a

theorem Passes.again (s : σ) : Passes p (Cursor.again s : TokenCursor (σ ⊕ α)) := .pure _

theorem Passes.done (a : α) : Passes p (Cursor.done a : TokenCursor (σ ⊕ α)) := .pure _

/-! ## Section 4: Looking and stepping -/

/-- A cursor that is the same as another one at each place: one for each index up to the opening
    brace, one for each after the closing one, and one for the end of the cut sequence. -/
theorem PassesAt.of_places
    (hfront : ∀ i ≤ p.front.length, kindOf p.cut i = k → ∃ m', PassesAt p k m' ∧ ∀ text y,
      m.result (lexemes text (p.front ++ p.opening :: y)) i =
        m'.result (lexemes text (p.front ++ p.opening :: y)) i)
    (hrest : ∀ d, kindAt p.rest d = k → ∃ m', PassesAt p k m' ∧
      m.result p.firstInput (p.firstEnd + d) = m'.result p.firstInput (p.firstEnd + d) ∧
      m.result p.secondInput (p.secondEnd + d) = m'.result p.secondInput (p.secondEnd + d))
    (hend : k = none → ∃ m', PassesAt p k m' ∧
      m.result p.cut (p.front.length + 1) = m'.result p.cut (p.front.length + 1)) :
    PassesAt p k m where
  settled {i x} hi hk hcut hx text y := by
    obtain ⟨m', hm', heq⟩ := hfront i hi hk
    rw [heq]
    exact hm'.settled hi hk ((heq _ _).symm.trans hcut) hx text y
  bounded {i j a} hi hk hcut := by
    obtain ⟨m', hm', heq⟩ := hfront i hi hk
    exact hm'.bounded hi hk ((heq _ _).symm.trans hcut)
  resumed {i j e a} hi hk hcut he hwhole := by
    obtain ⟨m', hm', heq⟩ := hfront i hi hk
    rw [p.firstInput_eq, heq, ← p.firstInput_eq] at hwhole
    rw [p.secondInput_eq, heq, ← p.secondInput_eq]
    exact hm'.resumed hi hk ((heq _ _).symm.trans hcut) he hwhole
  rested {d j a} hk hwhole := by
    obtain ⟨m', hm', hfirst, hsecond⟩ := hrest d hk
    rw [hfirst] at hwhole
    rw [hsecond]
    exact hm'.rested hk hwhole
  ended {x} hk hcut := by
    obtain ⟨m', hm', heq⟩ := hend hk
    exact hm'.ended hk (heq.symm.trans hcut)

theorem result_peek_bind {f : Option TokenKind → TokenCursor α} {input : List Lexeme} {i : Nat}
    {l : Lexeme} (h : input[i]? = some l) :
    (TokenCursor.peek >>= f).result input i = (f l.kind).result input i := by
  have hcurrent : TokenCursor.current.result input i = some (.ok (l, i)) := by
    rw [result_current, h]
  rw [TokenCursor.peek, bind_assoc, result_step hcurrent]
  rfl

theorem result_peek_bind_none {f : Option TokenKind → TokenCursor α} {input : List Lexeme} {i : Nat}
    (h : input[i]? = none) :
    (TokenCursor.peek >>= f).result input i = some (.error .overrun) := by
  have hcurrent : TokenCursor.current.result input i = some (.error .overrun) := by
    rw [result_current, h]
  rw [TokenCursor.peek, bind_assoc, result_stop hcurrent]

theorem result_peekAt_bind (n : Nat) (f : Option TokenKind → TokenCursor α) (input : List Lexeme)
    (i : Nat) : (TokenCursor.peekAt n >>= f).result input i =
      (f (kindOf input (i + n))).result input i :=
  rfl

theorem kindOf_firstInput (p : Passage) (d : Nat) :
    kindOf p.firstInput (p.firstEnd + d) = kindAt p.rest d := by
  rw [← kindOf_lexemes p.firstText, kindOf, kindOf, ← getElem?_lexemes_append]
  rfl

theorem kindOf_secondInput (p : Passage) (d : Nat) :
    kindOf p.secondInput (p.secondEnd + d) = kindAt p.rest d := by
  rw [kindAt_rest, ← kindOf_lexemes p.secondText, kindOf, kindOf, ← getElem?_lexemes_append]
  rfl

theorem length_rest (p : Passage) : p.rest.length = p.rest'.length := by
  simpa using congrArg List.length p.alike

theorem length_lexemes (text : List Char) (ts : List Token) :
    (lexemes text ts).length = ts.length + 1 := by
  simp [lexemes]

/-- After the braces one sequence ends where the other does. -/
theorem getElem?_secondInput_eq_none_iff (p : Passage) (d : Nat) :
    p.secondInput[p.secondEnd + d]? = none ↔ p.firstInput[p.firstEnd + d]? = none := by
  have hrest := length_rest p
  rw [List.getElem?_eq_none_iff, List.getElem?_eq_none_iff, Passage.secondInput, Passage.firstInput,
    length_lexemes, length_lexemes, List.length_append, List.length_append, Passage.secondEnd,
    Passage.firstEnd]
  omega

theorem PassesAt.peek {f : Option TokenKind → TokenCursor α} (h : PassesAt p k (f k)) :
    PassesAt p k (TokenCursor.peek >>= f) := by
  refine .of_places ?_ ?_ ?_
  · intro i hi hk
    obtain ⟨t, ht⟩ := exists_getElem?_cut hi
    have hkind : (Token.lexeme t).kind = k := by rw [← hk, kindOf, ht]; rfl
    refine ⟨f k, h, fun text y => ?_⟩
    rw [← hkind]
    exact result_peek_bind ((getElem?_lexemes_upTo p hi text p.cutText y []).trans ht)
  · intro d hk
    have hfirst := kindOf_firstInput p d
    have hsecond := kindOf_secondInput p d
    rw [kindOf] at hfirst hsecond
    cases hl : p.firstInput[p.firstEnd + d]? with
    | none =>
      have hl' := (getElem?_secondInput_eq_none_iff p d).2 hl
      exact ⟨MonadExcept.throw .overrun, Passes.overrun k, result_peek_bind_none hl,
        result_peek_bind_none hl'⟩
    | some l =>
      cases hl' : p.secondInput[p.secondEnd + d]? with
      | none => cases hl.symm.trans ((getElem?_secondInput_eq_none_iff p d).1 hl')
      | some l' =>
        rw [hl, hk] at hfirst
        rw [hl', hk] at hsecond
        refine ⟨f k, h, (result_peek_bind hl).trans ?_, (result_peek_bind hl').trans ?_⟩
        · exact congrArg (fun k => (f k).result _ _) hfirst
        · exact congrArg (fun k => (f k).result _ _) hsecond
  · rintro rfl
    obtain ⟨l, hkind, hl⟩ := getElem?_cut_end (p := p)
    refine ⟨f none, h, (result_peek_bind hl).trans ?_⟩
    rw [hkind]

/-- To look at the lexeme again gives nothing new. -/
theorem PassesAt.peekAt_zero {f : Option TokenKind → TokenCursor α} (h : PassesAt p k (f k)) :
    PassesAt p k (TokenCursor.peekAt 0 >>= f) := by
  refine .of_places ?_ ?_ ?_
  · intro i hi hk
    refine ⟨f k, h, fun text y => ?_⟩
    have hkind : kindOf (lexemes text (p.front ++ p.opening :: y)) i = k :=
      (congrArg (fun l => l.bind Lexeme.kind) (getElem?_lexemes_upTo p hi text _ y [])).trans hk
    rw [result_peekAt_bind, Nat.add_zero, hkind]
  · intro d hk
    refine ⟨f k, h, ?_, ?_⟩
    · rw [result_peekAt_bind, Nat.add_zero, kindOf_firstInput, hk]
    · rw [result_peekAt_bind, Nat.add_zero, kindOf_secondInput, hk]
  · rintro rfl
    obtain ⟨l, hkind, hl⟩ := getElem?_cut_end (p := p)
    refine ⟨f none, h, ?_⟩
    rw [result_peekAt_bind, Nat.add_zero, kindOf, hl]
    show (f l.kind).result _ _ = _
    rw [hkind]

theorem kindOf_lexemes_upTo (p : Passage) {i : Nat} (hi : i ≤ p.front.length) (text : List Char)
    (y : List Token) : kindOf (lexemes text (p.front ++ p.opening :: y)) i = kindOf p.cut i :=
  congrArg (fun l => l.bind Lexeme.kind) (getElem?_lexemes_upTo p hi text p.cutText y [])

/-- In front of anything but the opening brace the next lexeme is not behind that. -/
theorem lt_of_kindOf {i : Nat} {x : TokenKind} (hi : i ≤ p.front.length)
    (hk : kindOf p.cut i = some x) (hx : x ≠ .symbol '\x7b') : i < p.front.length := by
  refine Nat.lt_of_le_of_ne hi ?_
  rintro rfl
  exact hx (Option.some.inj (hk.symm.trans (kindOf_opening p.cutText [])))

/-- A test of two lexemes in a row never looks behind the opening brace. -/
theorem PassesAt.test_next {x : TokenKind} (hx : x ≠ .symbol '\x7b')
    {c : Option TokenKind → Prop} [DecidablePred c] (h : k = some x → PassesAt p k m)
    (h' : PassesAt p k m') :
    PassesAt p k (TokenCursor.peekAt 1 >>= fun next => if k = some x ∧ c next then m else m') := by
  by_cases hkx : k = some x
  · refine .of_places ?_ ?_ ?_
    -- With this token at the index, the opening brace is the next one at the earliest.
    · intro i hi hk
      have hlt := lt_of_kindOf hi (hk.trans hkx) hx
      refine ⟨_, .ite (c := c (kindOf p.cut (i + 1))) (fun _ => h hkx) fun _ => h',
        fun text y => ?_⟩
      rw [result_peekAt_bind, kindOf_lexemes_upTo p hlt]
      simp only [hkx, true_and]
    · intro d hk
      refine ⟨_, .ite (c := c (kindAt p.rest (d + 1))) (fun _ => h hkx) fun _ => h', ?_, ?_⟩
      · rw [result_peekAt_bind, Nat.add_assoc, kindOf_firstInput]
        simp only [hkx, true_and]
      · rw [result_peekAt_bind, Nat.add_assoc, kindOf_secondInput]
        simp only [hkx, true_and]
    · intro hk
      cases hkx.symm.trans hk
  · simp only [hkx, false_and, if_false]
    exact .of_places (fun i _ _ => ⟨m', h', fun _ _ => rfl⟩) (fun d _ => ⟨m', h', rfl, rfl⟩)
      fun _ => ⟨m', h', rfl⟩

/-- A test of three lexemes in a row does not do so either, if the second is not the brace. -/
theorem PassesAt.test_next_two {x : TokenKind} (hx : x ≠ .symbol '\x7b')
    {c c' : Option TokenKind → Prop} [DecidablePred c] [DecidablePred c']
    (hc : ¬ c (some (.symbol '\x7b'))) (h : k = some x → PassesAt p k m) (h' : PassesAt p k m') :
    PassesAt p k (TokenCursor.peekAt 1 >>= fun next => TokenCursor.peekAt 2 >>= fun last =>
      if k = some x ∧ c next ∧ c' last then m else m') := by
  by_cases hkx : k = some x
  · refine .of_places ?_ ?_ ?_
    · intro i hi hk
      have hlt := lt_of_kindOf hi (hk.trans hkx) hx
      by_cases hnext : c (kindOf p.cut (i + 1))
      · have hne : i + 1 ≠ p.front.length := by
          intro heq
          rw [heq] at hnext
          exact hc ((kindOf_opening (p := p) p.cutText []) ▸ hnext)
        refine ⟨_, .ite (c := c' (kindOf p.cut (i + 2))) (fun _ => h hkx) fun _ => h',
          fun text y => ?_⟩
        rw [result_peekAt_bind, result_peekAt_bind, kindOf_lexemes_upTo p hlt,
          kindOf_lexemes_upTo p (Nat.lt_of_le_of_ne hlt hne)]
        simp only [hkx, hnext, true_and]
      · refine ⟨m', h', fun text y => ?_⟩
        rw [result_peekAt_bind, result_peekAt_bind, kindOf_lexemes_upTo p hlt]
        simp only [hnext, false_and, and_false, if_false]
    · intro d hk
      refine ⟨_, .ite (c := c (kindAt p.rest (d + 1)) ∧ c' (kindAt p.rest (d + 2)))
        (fun _ => h hkx) fun _ => h', ?_, ?_⟩
      · rw [result_peekAt_bind, result_peekAt_bind, Nat.add_assoc, Nat.add_assoc,
          kindOf_firstInput, kindOf_firstInput]
        simp only [hkx, true_and]
      · rw [result_peekAt_bind, result_peekAt_bind, Nat.add_assoc, Nat.add_assoc,
          kindOf_secondInput, kindOf_secondInput]
        simp only [hkx, true_and]
    · intro hk
      cases hkx.symm.trans hk
  · simp only [hkx, false_and, if_false]
    exact .of_places (fun i _ _ => ⟨m', h', fun _ _ => rfl⟩) (fun d _ => ⟨m', h', rfl, rfl⟩)
      fun _ => ⟨m', h', rfl⟩

/-- Before the end of the text a step goes one lexeme on, and at the end it stays. -/
theorem result_advance_lexemes (text : List Char) (ts : List Token) (i : Nat) :
    TokenCursor.advance.result (lexemes text ts) i =
      some (.ok ((), if i < ts.length then i + 1 else i)) := by
  rw [TokenCursor.advance, result_step (result_read _ _), length_lexemes]
  rfl

theorem Passes.advance : Passes p TokenCursor.advance := by
  intro k
  refine ⟨?_, ?_, ?_, ?_, ?_⟩
  · rintro i x hi - hcut hx text y
    rw [Passage.cut, result_advance_lexemes, if_pos (by simp; omega)] at hcut
    rw [result_advance_lexemes, if_pos (by simp; omega)]
    exact hcut
  · rintro i j a hi - hcut
    rw [Passage.cut, result_advance_lexemes, if_pos (by simp; omega)] at hcut
    cases hcut
    omega
  · rintro i j e a hi - hcut
    rw [Passage.cut, result_advance_lexemes] at hcut
    cases hcut
  · rintro d j a - hwhole
    have hrest := length_rest p
    rw [Passage.firstInput, result_advance_lexemes] at hwhole
    cases hwhole
    refine ⟨if d < p.rest.length then d + 1 else d, ?_, ?_⟩
    · rw [List.length_append, ← Passage.firstEnd]
      split <;> split <;> omega
    · rw [Passage.secondInput, result_advance_lexemes, List.length_append, ← Passage.secondEnd]
      congr 3
      split <;> split <;> omega
  · rintro x - hcut
    rw [Passage.cut, result_advance_lexemes, if_neg (by simp)] at hcut
    cases hcut
    exact .inl ⟨(), rfl⟩

theorem result_refuse {wanted : Wanted} {input : List Lexeme} {i : Nat} {l : Lexeme}
    (h : input[i]? = some l) : (TokenCursor.refuse wanted : TokenCursor α).result input i =
      some (.error (.refused ⟨l.position, .unexpected wanted l.kind⟩)) := by
  have hcurrent : TokenCursor.current.result input i = some (.ok (l, i)) := by
    rw [result_current, h]
  rw [TokenCursor.refuse, result_step hcurrent]
  rfl

theorem not_result_refuse_eq_ok {wanted : Wanted} {input : List Lexeme} {i j : Nat} {a : α} :
    (TokenCursor.refuse wanted : TokenCursor α).result input i ≠ some (.ok (a, j)) := by
  intro h
  obtain ⟨l, i', -, hthrow⟩ := result_bind_eq_ok h
  cases hthrow

/-- A text is refused for something else than an open bracket. -/
theorem Passes.refuse {wanted : Wanted} (hwanted : wanted ≠ .closing p.bracket) :
    Passes p (TokenCursor.refuse wanted : TokenCursor α) := by
  intro k
  refine ⟨?_, ?_, ?_, ?_, ?_⟩
  · rintro i x hi - hcut hx text y
    obtain ⟨t, ht⟩ := exists_getElem?_cut hi
    rw [result_refuse ht] at hcut
    rw [result_refuse ((getElem?_lexemes_upTo p hi text p.cutText y []).trans ht)]
    exact hcut
  · rintro i j a hi - hcut
    exact absurd hcut not_result_refuse_eq_ok
  · rintro i j e a hi - hcut ⟨position, rfl⟩
    obtain ⟨t, ht⟩ := exists_getElem?_cut hi
    rw [result_refuse ht] at hcut
    cases hcut
  · rintro d j a - hwhole
    exact absurd hwhole not_result_refuse_eq_ok
  · rintro x - hcut
    obtain ⟨l, hkind, hl⟩ := getElem?_cut_end (p := p)
    rw [result_refuse hl, hkind] at hcut
    cases hcut
    refine .inr ⟨_, rfl, ?_, ?_⟩
    · rintro ⟨_, _, _, h⟩
      cases h
    · rintro ⟨_, h⟩
      cases h
      exact hwanted rfl

theorem Passes.accepts (c : Char) : Passes p (TokenCursor.accepts c) := by
  intro k
  refine .peek (.ite (fun _ => ?_) fun _ => Passes.pure false k)
  exact (Passes.advance k).bind fun _ => .pure true

theorem Passes.expectIdent : Passes p TokenCursor.expectIdent := by
  intro k
  refine .peek ?_
  rcases k with _ | w | _ | c
  · exact Passes.refuse (by simp) none
  · exact (Passes.advance _).bind fun _ => .pure w
  · exact Passes.refuse (by simp) _
  · exact Passes.refuse (by simp) _

theorem Passes.expectSymbol (c : Char) : Passes p (TokenCursor.expectSymbol c) := by
  intro k
  refine (Passes.accepts c k).bind fun found => ?_
  cases found with
  | true => exact .pure ()
  | false => exact .refuse (by simp)

end rules

end TypeCatalog.Source
