import TypeCatalog.Proofs.Source.Loops

/-! # Cursors that follow readers

    A cursor over the tokens of a text follows a reader if, from the place of any suffix of the
    tokens on, it ends, looks up nothing outside them, and gives what the reader gives for that
    suffix: the same result with the index at what is left, or a refusal for what the reader halts
    at. This passes through sequences of readers, so each loop of a cursor is compared with one
    recursion of a reader, and each comparison is an induction along that recursion. -/

set_option autoImplicit false

namespace TypeCatalog.Source

/-! ## Section 1: What it means to follow -/

/-- The lexemes of a text: its tokens, and the end. -/
def lexemes (text : List Char) (ts : List Token) : List Lexeme :=
  ts.map Token.lexeme ++ [⟨none, Text.Utf8.size text, none⟩]

section follows

variable {α β τ υ : Type}

/-- The outcome of a reader as a cursor gives it, with the index of what is left. -/
def placed (text : List Char) (ts : List Token) (left : τ → List Token)
    (x : Except Halt (α × τ)) : Except Stop (α × Nat) :=
  match x with
  | .ok (a, t) => .ok (a, ts.length - (left t).length)
  | .error h => .error (.refused (h.inText text))

/-- A cursor at the place of `s` comes to the outcome of a reader of `s`, and that leaves or halts
    at a suffix of the tokens. -/
structure Agrees (text : List Char) (ts : List Token) (left : τ → List Token) (m : TokenCursor α)
    (s : List Token) (x : Except Halt (α × τ)) : Prop where
  /-- The cursor ends with the outcome of the reader. -/
  result_eq : m.result (lexemes text ts) (ts.length - s.length) = some (placed text ts left x)
  /-- What is left are tokens of the text. -/
  leaves : ∀ a t, x = .ok (a, t) → left t <:+ ts
  /-- What a halt is at are tokens of the text. -/
  halts : ∀ h, x = .error h → h.left <:+ ts

/-- A cursor follows a reader of `s`, if `s` is a suffix of the tokens. -/
def Follows (text : List Char) (ts : List Token) (left : τ → List Token) (m : TokenCursor α)
    (s : List Token) (x : Except Halt (α × τ)) : Prop :=
  s <:+ ts → Agrees text ts left m s x

variable {text : List Char} {ts : List Token} {left : τ → List Token} {left' : υ → List Token}
  {m : TokenCursor α} {s r : List Token} {x : Except Halt (α × τ)}

/-- One cursor after another follows one reader after another. -/
theorem Follows.bind {f : α → TokenCursor β} {g : α × τ → Except Halt (β × υ)}
    (h : Follows text ts left m s x)
    (hf : ∀ a t, Follows text ts left' (f a) (left t) (g (a, t))) :
    Follows text ts left' (m >>= f) s (x >>= g) := by
  intro hs
  have hm := h hs
  cases x with
  | error e =>
    refine ⟨?_, ?_, ?_⟩
    · rw [result_bind, hm.result_eq]
      rfl
    · intro b u hu
      cases hu
    · intro e' he
      cases he
      exact hm.halts e rfl
  | ok p =>
    obtain ⟨a, t⟩ := p
    have hfa := hf a t (hm.leaves a t rfl)
    refine ⟨?_, hfa.leaves, hfa.halts⟩
    rw [result_bind, hm.result_eq]
    exact hfa.result_eq

/-- A cursor that is done where it stands. -/
theorem Follows.done {a : α} {t : τ} (ht : left t = s) :
    Follows text ts left (pure a) s (.ok (a, t)) := by
  intro hs
  refine ⟨?_, ?_, ?_⟩
  · rw [result_pure, placed, ht]
  · intro b u hu
    cases hu
    rwa [ht]
  · intro h hh
    cases hh

/-- What counts is what is given and what is left. -/
theorem Follows.congr {y : Except Halt (α × υ)} (h : Follows text ts left m s x)
    (hxy : x.map (fun p => (p.1, left p.2)) = y.map (fun p => (p.1, left' p.2))) :
    Follows text ts left' m s y := by
  intro hs
  have hm := h hs
  rcases x with e | ⟨a, t⟩ <;> rcases y with e' | ⟨b, u⟩ <;> simp only [Except.map] at hxy
  · cases hxy
    refine ⟨hm.result_eq, nofun, ?_⟩
    intro h hh
    cases hh
    exact hm.halts e rfl
  · cases hxy
  · cases hxy
  · obtain ⟨rfl, hleft⟩ := Prod.mk.inj (Except.ok.inj hxy)
    refine ⟨?_, ?_, ?_⟩
    · rw [hm.result_eq, placed, placed, hleft]
    · intro c v hv
      cases hv
      rw [← hleft]
      exact hm.leaves a t rfl
    · intro e he
      cases he

/-- The same reading with its outcome wrapped for a longer text. -/
theorem Follows.wrap {g : α × τ → Except Halt (α × υ)} (h : Follows text ts left m s x)
    (hg : ∀ a t, ∃ u, g (a, t) = .ok (a, u) ∧ left' u = left t) :
    Follows text ts left' m s (x >>= g) := by
  refine h.congr ?_
  rcases x with e | ⟨a, t⟩
  · rfl
  · obtain ⟨u, hu, hleft⟩ := hg a t
    show _ = (g (a, t)).map _
    rw [hu]
    simp only [Except.map, hleft]

/-- What a reader gives, changed by a function. -/
def given (f : α → β) (x : Except Halt (α × τ)) : Except Halt (β × τ) :=
  x.map fun p => (f p.1, p.2)

theorem given_id (x : Except Halt (α × τ)) : given (fun a => a) x = x := by
  cases x <;> rfl

/-- A loop that adds to what it has found gives the same as a reader that adds what it takes to what
    comes after. -/
theorem Follows.wrapGiven {γ : Type} {k : TokenCursor γ} {f : α → γ} {f' : β → γ}
    {g : α × τ → Except Halt (β × υ)} (h : Follows text ts left k s (given f x))
    (hg : ∀ a t, ∃ b u, g (a, t) = .ok (b, u) ∧ left' u = left t ∧ f' b = f a) :
    Follows text ts left' k s (given f' (x >>= g)) := by
  refine h.congr ?_
  rcases x with e | ⟨a, t⟩
  · rfl
  · obtain ⟨b, u, hu, hleft, hf⟩ := hg a t
    show _ = ((g (a, t)).map _).map _
    rw [hu]
    simp only [given, Except.map, hleft, hf]

/-- A loop gives what it has found together with what the reader gives. -/
theorem Follows.ofGiven {k : TokenCursor β} {f : α → β} {g : α × τ → Except Halt (β × υ)}
    (h : Follows text ts left k s (given f x))
    (hg : ∀ a t, ∃ u, g (a, t) = .ok (f a, u) ∧ left' u = left t) :
    Follows text ts left' k s (x >>= g) := by
  rw [← given_id (x >>= g)]
  refine h.wrapGiven fun a t => ?_
  obtain ⟨u, hu, hleft⟩ := hg a t
  exact ⟨f a, u, hu, hleft, rfl⟩

/-- One cursor after another, where the outcome of the readers is changed by a function. -/
theorem Follows.bindMap {γ δ : Type} {f : α → TokenCursor γ} {g : α × τ → Except Halt δ}
    {k : δ → γ × υ} (h : Follows text ts left m s x)
    (hf : ∀ a t, Follows text ts left' (f a) (left t) ((g (a, t)).map k)) :
    Follows text ts left' (m >>= f) s ((x >>= g).map k) := by
  have hbind : Follows text ts left' (m >>= f) s (x >>= fun p => (g p).map k) := h.bind hf
  cases x with
  | error e => exact hbind
  | ok p => exact hbind

end follows

/-! ## Section 2: Looking and stepping -/

/-- What the token at a distance is. -/
def kindAt (s : List Token) (k : Nat) : Option TokenKind := s[k]?.map Token.kind

@[simp]
theorem kindAt_nil (k : Nat) : kindAt [] k = none := rfl

@[simp]
theorem kindAt_zero (t : Token) (r : List Token) : kindAt (t :: r) 0 = some t.kind := rfl

@[simp]
theorem kindAt_succ (t : Token) (r : List Token) (k : Nat) :
    kindAt (t :: r) (k + 1) = kindAt r k := by
  simp [kindAt]

/-- The lexeme in front of tokens. -/
def frontLexeme (text : List Char) : List Token → Lexeme
  | [] => ⟨none, Text.Utf8.size text, none⟩
  | t :: _ => t.lexeme

theorem kind_frontLexeme (text : List Char) (s : List Token) :
    (frontLexeme text s).kind = kindAt s 0 := by
  cases s <;> rfl

section steps

variable {α β τ υ : Type} {text : List Char} {ts : List Token} {left : τ → List Token}
  {left' : υ → List Token} {m : TokenCursor α} {s r : List Token} {x : Except Halt (α × τ)}

theorem getElem?_lexemes (text : List Char) (hs : s <:+ ts) (k : Nat) :
    (lexemes text ts)[ts.length - s.length + k]? =
      if k = s.length then some ⟨none, Text.Utf8.size text, none⟩ else s[k]?.map Token.lexeme := by
  obtain ⟨taken, rfl⟩ := hs
  -- What was taken is skipped, so `k` counts from the first token of `s` on.
  have hindex : (taken ++ s).length - s.length + k = (taken.map Token.lexeme).length + k := by simp
  have hskip : (taken.map Token.lexeme).length ≤ (taken.map Token.lexeme).length + k := by omega
  rw [lexemes, List.map_append, List.append_assoc, hindex, List.getElem?_append_right hskip,
    Nat.add_sub_cancel_left]
  by_cases hk : k = s.length
  · rw [if_pos hk, hk]
    simp
  · rw [if_neg hk]
    by_cases hlt : k < s.length
    · rw [List.getElem?_append_left (by simpa using hlt), List.getElem?_map]
    · rw [List.getElem?_eq_none (by simp; omega), List.getElem?_eq_none (by omega)]
      rfl

theorem getElem?_lexemes_front (hs : s <:+ ts) :
    (lexemes text ts)[ts.length - s.length]? = some (frontLexeme text s) := by
  have h := getElem?_lexemes text hs 0
  cases s with
  | nil => simpa [frontLexeme] using h
  | cons t r => simpa [frontLexeme] using h

theorem bind_kind_getElem?_lexemes (hs : s <:+ ts) (k : Nat) :
    (lexemes text ts)[ts.length - s.length + k]?.bind Lexeme.kind = kindAt s k := by
  rw [getElem?_lexemes text hs, kindAt]
  by_cases hk : k = s.length
  · rw [if_pos hk, hk]
    simp
  · rw [if_neg hk]
    cases s[k]? <;> rfl

theorem result_current (input : List Lexeme) (i : Nat) :
    TokenCursor.current.result input i = some (match input[i]? with
      | some l => .ok (l, i)
      | none => .error .overrun) := by
  show (match input[i]? with
    | some l => (pure l : TokenCursor Lexeme)
    | none => throw Stop.overrun).result input i = _
  cases input[i]? <;> rfl

theorem result_peek (hs : s <:+ ts) :
    TokenCursor.peek.result (lexemes text ts) (ts.length - s.length) =
      some (.ok (kindAt s 0, ts.length - s.length)) := by
  rw [TokenCursor.peek, result_bind, result_current, getElem?_lexemes_front hs]
  show some (Except.ok ((frontLexeme text s).kind, _)) = _
  rw [kind_frontLexeme]

theorem result_peekAt (hs : s <:+ ts) (k : Nat) :
    (TokenCursor.peekAt k).result (lexemes text ts) (ts.length - s.length) =
      some (.ok (kindAt s k, ts.length - s.length)) := by
  show some (Except.ok ((lexemes text ts)[ts.length - s.length + k]?.bind Lexeme.kind, _)) = _
  rw [bind_kind_getElem?_lexemes hs]

/-- In front of a token a step forward is one token on: the last lexeme is the end of the text. -/
theorem result_advance {t : Token} (hs : t :: s <:+ ts) :
    TokenCursor.advance.result (lexemes text ts) (ts.length - (t :: s).length) =
      some (.ok ((), ts.length - s.length)) := by
  have hlength : (lexemes text ts).length = ts.length + 1 := by simp [lexemes]
  have hle := hs.length_le
  rw [List.length_cons] at hle ⊢
  have hlast : ts.length - (s.length + 1) < ts.length := by omega
  have hnext : ts.length - (s.length + 1) + 1 = ts.length - s.length := by omega
  rw [TokenCursor.advance, result_step (result_read _ _), hlength]
  show some (Except.ok ((), if ts.length - (s.length + 1) < ts.length then _ else _)) = _
  rw [if_pos hlast, hnext]

theorem agrees_of_result_eq {f : β → TokenCursor α} {k : TokenCursor β} {b : β}
    (hk : k.result (lexemes text ts) (ts.length - s.length) = some (.ok (b, ts.length - r.length)))
    (h : Agrees text ts left (f b) r x) : Agrees text ts left (k >>= f) s x := by
  refine ⟨?_, h.leaves, h.halts⟩
  rw [result_bind, hk]
  exact h.result_eq

theorem Follows.peek {f : Option TokenKind → TokenCursor α}
    (h : Follows text ts left (f (kindAt s 0)) s x) :
    Follows text ts left (TokenCursor.peek >>= f) s x := by
  intro hs
  exact agrees_of_result_eq (result_peek hs) (h hs)

theorem Follows.peekAt {k : Nat} {f : Option TokenKind → TokenCursor α}
    (h : Follows text ts left (f (kindAt s k)) s x) :
    Follows text ts left (TokenCursor.peekAt k >>= f) s x := by
  intro hs
  exact agrees_of_result_eq (result_peekAt hs k) (h hs)

theorem Follows.advance {t : Token} {f : Unit → TokenCursor α}
    (h : Follows text ts left (f ()) s x) :
    Follows text ts left (TokenCursor.advance >>= f) (t :: s) x := by
  intro hs
  exact agrees_of_result_eq (result_advance hs) (h ((List.suffix_cons t s).trans hs))

theorem Follows.get {f : Nat → TokenCursor α}
    (h : Follows text ts left (f (ts.length - s.length)) s x) :
    Follows text ts left (MonadState.get >>= f) s x := by
  intro hs
  exact agrees_of_result_eq rfl (h hs)

theorem Follows.pos {p : Prop} [Decidable p] {m' : TokenCursor α} (hp : p)
    (h : Follows text ts left m s x) : Follows text ts left (if p then m else m') s x := by
  rwa [if_pos hp]

theorem Follows.neg {p : Prop} [Decidable p] {m' : TokenCursor α} (hp : ¬p)
    (h : Follows text ts left m s x) : Follows text ts left (if p then m' else m) s x := by
  rwa [if_neg hp]

theorem Follows.refuse {wanted : Wanted} :
    Follows text ts left (TokenCursor.refuse wanted : TokenCursor α) s (.error ⟨wanted, s⟩) := by
  intro hs
  refine ⟨?_, ?_, ?_⟩
  · rw [TokenCursor.refuse, result_bind, result_current, getElem?_lexemes_front hs]
    cases s <;> rfl
  · intro a t h
    cases h
  · intro h hh
    cases hh
    exact hs

/-- A symbol is taken where it stands. -/
theorem Follows.accepts {t : Token} {c : Char} (ht : t.kind = .symbol c) {f : Bool → TokenCursor α}
    (h : Follows text ts left (f true) s x) :
    Follows text ts left (TokenCursor.accepts c >>= f) (t :: s) x := by
  rw [TokenCursor.accepts, bind_assoc]
  refine .peek ?_
  rw [kindAt_zero, ht, if_pos rfl, bind_assoc]
  exact .advance h

theorem Follows.rejects {c : Char} (hs : kindAt s 0 ≠ some (.symbol c)) {f : Bool → TokenCursor α}
    (h : Follows text ts left (f false) s x) :
    Follows text ts left (TokenCursor.accepts c >>= f) s x := by
  rw [TokenCursor.accepts, bind_assoc]
  refine .peek ?_
  rw [if_neg hs]
  exact h

/-- A word is taken where it stands. -/
theorem Follows.word {t : Token} {w : String} (ht : t.kind = .word w) {f : String → TokenCursor α}
    (h : Follows text ts left (f w) s x) :
    Follows text ts left (TokenCursor.expectIdent >>= f) (t :: s) x := by
  rw [TokenCursor.expectIdent, bind_assoc]
  refine .peek ?_
  rw [kindAt_zero, ht]
  simp only [bind_assoc, pure_bind]
  exact .advance h

/-- A symbol is taken where it is wanted. -/
theorem Follows.symbol {t : Token} {c : Char} (ht : t.kind = .symbol c) {f : Unit → TokenCursor α}
    (h : Follows text ts left (f ()) s x) :
    Follows text ts left (TokenCursor.expectSymbol c >>= f) (t :: s) x := by
  rw [TokenCursor.expectSymbol, bind_assoc]
  exact .accepts ht h

/-! ## Section 3: Rounds of a loop -/

variable {σ γ δ : Type} {k : σ → TokenCursor α} {round : TokenCursor (σ ⊕ α)}

/-- A round of a loop, with what comes after it, follows a reader. -/
def RoundFollows (text : List Char) (ts : List Token) (left : τ → List Token)
    (k : σ → TokenCursor α) (round : TokenCursor (σ ⊕ α)) (s : List Token)
    (x : Except Halt (α × τ)) : Prop :=
  Follows text ts left (round >>= Cursor.after k) s x

/-- A loop follows what its next round follows. -/
theorem Follows.loop {a : σ} {body : σ → TokenCursor (σ ⊕ α)}
    (h : RoundFollows text ts left (fun a => Cursor.loop a body) (body a) s x) :
    Follows text ts left (Cursor.loop a body) s x := by
  rw [Cursor.loop_eq]
  exact h

theorem RoundFollows.again {a : σ} (h : Follows text ts left (k a) s x) :
    RoundFollows text ts left k (Cursor.again a) s x := by
  rw [RoundFollows, Cursor.again, pure_bind]
  exact h

theorem RoundFollows.done {a : α} {t : τ} (ht : left t = s) :
    RoundFollows text ts left k (Cursor.done a) s (.ok (a, t)) := by
  rw [RoundFollows, Cursor.done, pure_bind]
  exact .done ht

theorem RoundFollows.peek {f : Option TokenKind → TokenCursor (σ ⊕ α)}
    (h : RoundFollows text ts left k (f (kindAt s 0)) s x) :
    RoundFollows text ts left k (TokenCursor.peek >>= f) s x := by
  rw [RoundFollows, bind_assoc]
  exact .peek h

theorem RoundFollows.peekAt {n : Nat} {f : Option TokenKind → TokenCursor (σ ⊕ α)}
    (h : RoundFollows text ts left k (f (kindAt s n)) s x) :
    RoundFollows text ts left k (TokenCursor.peekAt n >>= f) s x := by
  rw [RoundFollows, bind_assoc]
  exact .peekAt h

theorem RoundFollows.advance {t : Token} {f : Unit → TokenCursor (σ ⊕ α)}
    (h : RoundFollows text ts left k (f ()) s x) :
    RoundFollows text ts left k (TokenCursor.advance >>= f) (t :: s) x := by
  rw [RoundFollows, bind_assoc]
  exact .advance h

theorem RoundFollows.pos {p : Prop} [Decidable p] {round' : TokenCursor (σ ⊕ α)} (hp : p)
    (h : RoundFollows text ts left k round s x) :
    RoundFollows text ts left k (if p then round else round') s x := by
  rwa [if_pos hp]

theorem RoundFollows.neg {p : Prop} [Decidable p] {round' : TokenCursor (σ ⊕ α)} (hp : ¬p)
    (h : RoundFollows text ts left k round s x) :
    RoundFollows text ts left k (if p then round' else round) s x := by
  rwa [if_neg hp]

theorem RoundFollows.refuse {wanted : Wanted} :
    RoundFollows text ts left k (TokenCursor.refuse wanted) s (.error ⟨wanted, s⟩) := by
  rw [RoundFollows, TokenCursor.refuse, bind_assoc]
  exact Follows.refuse

theorem RoundFollows.accepts {t : Token} {c : Char} (ht : t.kind = .symbol c)
    {f : Bool → TokenCursor (σ ⊕ α)} (h : RoundFollows text ts left k (f true) s x) :
    RoundFollows text ts left k (TokenCursor.accepts c >>= f) (t :: s) x := by
  rw [RoundFollows, bind_assoc]
  exact .accepts ht h

theorem RoundFollows.rejects {c : Char} (hs : kindAt s 0 ≠ some (.symbol c))
    {f : Bool → TokenCursor (σ ⊕ α)} (h : RoundFollows text ts left k (f false) s x) :
    RoundFollows text ts left k (TokenCursor.accepts c >>= f) s x := by
  rw [RoundFollows, bind_assoc]
  exact .rejects hs h

theorem RoundFollows.word {t : Token} {w : String} (ht : t.kind = .word w)
    {f : String → TokenCursor (σ ⊕ α)} (h : RoundFollows text ts left k (f w) s x) :
    RoundFollows text ts left k (TokenCursor.expectIdent >>= f) (t :: s) x := by
  rw [RoundFollows, bind_assoc]
  exact .word ht h

/-- What follows a reader in front of the rest of a round. -/
theorem Follows.bindRound {m : TokenCursor γ} {x : Except Halt (γ × τ)} {k : σ → TokenCursor α}
    {f : γ → TokenCursor (σ ⊕ α)} {g : γ × τ → Except Halt (α × υ)}
    (h : Follows text ts left m s x)
    (hf : ∀ a t, RoundFollows text ts left' k (f a) (left t) (g (a, t))) :
    RoundFollows text ts left' k (m >>= f) s (x >>= g) := by
  rw [RoundFollows, bind_assoc]
  exact h.bind hf

theorem Follows.bindRoundMap {m : TokenCursor γ} {x : Except Halt (γ × τ)} {k : σ → TokenCursor α}
    {f : γ → TokenCursor (σ ⊕ α)} {g : γ × τ → Except Halt δ} {e : δ → α × υ}
    (h : Follows text ts left m s x)
    (hf : ∀ a t, RoundFollows text ts left' k (f a) (left t) ((g (a, t)).map e)) :
    RoundFollows text ts left' k (m >>= f) s ((x >>= g).map e) := by
  rw [RoundFollows, bind_assoc]
  exact h.bindMap hf

theorem Follows.bindRoundGiven {m : TokenCursor γ} {x : Except Halt (γ × τ)}
    {k : σ → TokenCursor α} {f : γ → TokenCursor (σ ⊕ α)} {e : δ → α}
    {g : γ × τ → Except Halt (δ × υ)} (h : Follows text ts left m s x)
    (hf : ∀ a t, RoundFollows text ts left' k (f a) (left t) (given e (g (a, t)))) :
    RoundFollows text ts left' k (m >>= f) s (given e (x >>= g)) :=
  h.bindRoundMap hf

end steps

/-! ## Section 4: Names, groups and annotations -/

section readers

variable (text : List Char) (ts : List Token) {α : Type}

/-- A cursor follows a reader that takes at least one token. -/
abbrev TailFollows {s : List Token} (m : TokenCursor α) (x : Reading α s) : Prop :=
  Follows text ts (fun t : Tail s => t.left) m s x

/-- A cursor follows a reader that may take nothing. -/
abbrev LoopFollows {s : List Token} (m : TokenCursor α) (x : LoopReading α s) : Prop :=
  Follows text ts (fun t : Rest s => t.left) m s x

theorem follows_identifier (s : List Token) :
    TailFollows text ts TokenCursor.expectIdent (identifier s) := by
  unfold TokenCursor.expectIdent
  refine .peek ?_
  rcases s with _ | ⟨⟨k, p, d⟩, r⟩
  · exact .refuse
  · cases k with
    | word w => exact .advance (.done rfl)
    | literal => exact .refuse
    | symbol c => exact .refuse

theorem follows_symbol (c : Char) (s : List Token) :
    TailFollows text ts (TokenCursor.expectSymbol c) (symbol c s) := by
  unfold TokenCursor.expectSymbol
  cases s with
  | nil => exact .rejects (by simp) .refuse
  | cons t r =>
    rw [symbol]
    by_cases h : t.kind = .symbol c
    · rw [if_pos h]
      exact .accepts h (.done rfl)
    · rw [if_neg h]
      exact .rejects (by simpa using h) .refuse

theorem follows_throughSymbol (c : Char) (s : List Token) :
    TailFollows text ts (TokenCursor.skipPast c) (throughSymbol c s) := by
  induction s with
  | nil =>
    refine .loop ?_
    exact .rejects (by simp) (.peek .refuse)
  | cons t r ih =>
    rw [throughSymbol]
    refine .loop ?_
    by_cases h : t.kind = .symbol c
    · rw [if_pos h]
      exact .accepts h (.done rfl)
    · rw [if_neg h]
      refine .rejects (by simpa using h) (.peek ?_)
      exact .advance (.again (ih.wrap fun _ _ => ⟨_, rfl, rfl⟩))

/-- A token that is not the wanted symbol is passed over before the reader is called. -/
theorem follows_throughSymbol_cons {t : Token} {c : Char} (ht : t.kind ≠ .symbol c)
    (r : List Token) :
    Follows text ts (fun l : Tail r => l.left) (TokenCursor.skipPast c) (t :: r)
      (throughSymbol c r) := by
  refine .loop ?_
  refine .rejects (by simpa using ht) (.peek (.neg (by simp) ?_))
  exact .advance (.again (follows_throughSymbol text ts c r))

/-- Inside a group the cursor counts one level more than the reader. -/
theorem follows_afterGroup (o c : Char) (depth : Nat) (s : List Token) :
    Follows text ts id (TokenCursor.skipBalanced o c (depth + 1)) s
      (match afterGroup o c depth s with
      | none => .error ⟨.closing o, []⟩
      | some left => .ok ((), left)) := by
  induction s generalizing depth with
  | nil =>
    refine .loop ?_
    exact .peek .refuse
  | cons t r ih =>
    refine .loop ?_
    refine .peek ?_
    unfold afterGroup
    rw [kindAt_zero]
    simp only [Option.some.injEq, reduceCtorEq, if_false]
    by_cases ho : t.kind = .symbol o
    · rw [if_pos ho, if_pos ho]
      exact .advance (.again (ih (depth + 1)))
    · rw [if_neg ho, if_neg ho]
      by_cases hc : t.kind = .symbol c
      · rw [if_pos hc, if_pos hc]
        cases depth with
        | zero => exact .advance (.pos rfl (.done rfl))
        | succ depth => exact .advance (.neg (by omega) (.again (ih depth)))
      · rw [if_neg hc, if_neg hc]
        exact .advance (.again (ih depth))

theorem map_group (o c : Char) (s : List Token) :
    (group o c s).map (fun p => (p.1, p.2.left)) =
      Except.map (fun p => (p.1, id p.2)) (match afterGroup o c 0 s with
      | none => .error ⟨.closing o, []⟩
      | some left => .ok ((), left)) := by
  unfold group
  split
  · next h =>
    rw [h]
    rfl
  · next left h =>
    simp only [h]
    rfl

theorem follows_group {o : Char} (c : Char) {t : Token} (ht : t.kind = .symbol o)
    (r : List Token) :
    Follows text ts (fun l : Tail r => l.left) (TokenCursor.skipBalanced o c 0) (t :: r)
      (group o c r) := by
  refine .loop ?_
  refine .peek ?_
  rw [kindAt_zero, ht, if_pos rfl]
  exact .advance (.again ((follows_afterGroup text ts o c 0 r).congr (map_group o c r).symm))

theorem follows_optionalGroup (o c : Char) (s : List Token) :
    LoopFollows text ts (TokenCursor.skipOptional o c) (optionalGroup o c s) := by
  unfold TokenCursor.skipOptional optionalGroup
  refine .peek ?_
  cases s with
  | nil => exact .done rfl
  | cons t r =>
    by_cases h : t.kind = .symbol o
    · simp only [kindAt_zero, h, if_true]
      exact (follows_group text ts c h r).wrap fun _ _ => ⟨_, rfl, rfl⟩
    · simp only [kindAt_zero, Option.some.injEq, h, if_false]
      exact .done rfl

theorem eq_cons_of_kindAt {s : List Token} {k : TokenKind} (h : kindAt s 0 = some k) :
    ∃ p d r, s = ⟨k, p, d⟩ :: r := by
  rcases s with _ | ⟨⟨k', p, d⟩, r⟩
  · cases h
  · cases h
    exact ⟨p, d, r, rfl⟩

/-- Two kinds in a row are two tokens in a row. -/
theorem eq_cons_cons_of_kindAt {s : List Token} {k k' : TokenKind} (h : kindAt s 0 = some k)
    (h' : kindAt s 1 = some k') : ∃ p d p' d' r, s = ⟨k, p, d⟩ :: ⟨k', p', d'⟩ :: r := by
  obtain ⟨p, d, r, rfl⟩ := eq_cons_of_kindAt h
  rw [kindAt_succ] at h'
  obtain ⟨p', d', r', rfl⟩ := eq_cons_of_kindAt h'
  exact ⟨p, d, p', d', r', rfl⟩

/-- No token in front of `s` is of a kind that `s` does not start with. -/
theorem kindAt_ne {s : List Token} {k : TokenKind} (h : ∀ p d r, s = ⟨k, p, d⟩ :: r → False) :
    kindAt s 0 ≠ some k := by
  intro hk
  obtain ⟨p, d, r, rfl⟩ := eq_cons_of_kindAt hk
  exact h p d r rfl

theorem kindAt_cons_ne {t : Token} {k : TokenKind} (h : ∀ p d, t = ⟨k, p, d⟩ → False)
    (r : List Token) : kindAt (t :: r) 0 ≠ some k := by
  refine kindAt_ne fun p d r' heq => ?_
  exact h p d (List.cons.inj heq).1

theorem kindAt_ne_none {s : List Token} (h : s = [] → False) : kindAt s 0 ≠ none := by
  cases s with
  | nil => exact (h rfl).elim
  | cons t r => simp

theorem eq_word_of_isWord {k : Option TokenKind} (h : TokenCursor.isWord k = true) :
    ∃ w, k = some (.word w) := by
  rcases k with _ | w | _ | c
  · cases h
  · exact ⟨w, rfl⟩
  · cases h
  · cases h

theorem follows_furtherNames (name : String) (s : List Token) :
    LoopFollows text ts (TokenCursor.namesFrom name) (s := s)
      (.ok (name ++ (furtherNames s).1, (furtherNames s).2)) := by
  fun_induction furtherNames s generalizing name with
  | case1 p d w p' d' r names left hrest ih =>
    refine .loop ?_
    refine .peek (.peekAt (.pos ⟨rfl, rfl⟩ ?_))
    have hih := ih (name ++ "." ++ w)
    rw [hrest] at hih
    refine .advance (.word rfl (.again (hih.congr ?_)))
    simp only [Except.map, String.append_assoc]
    rfl
  | case2 s h =>
    refine .loop ?_
    refine .peek (.peekAt (.neg ?_ ?_))
    · intro ⟨hdot, hword⟩
      obtain ⟨w, hw⟩ := eq_word_of_isWord hword
      obtain ⟨p, d, p', d', r, rfl⟩ := eq_cons_cons_of_kindAt hdot hw
      exact h p d w p' d' r rfl
    · rw [String.append_empty]
      exact .done rfl

theorem follows_qualifiedName (s : List Token) :
    TailFollows text ts TokenCursor.qualifiedName (qualifiedName s) := by
  unfold TokenCursor.qualifiedName qualifiedName
  refine (follows_identifier text ts s).bind fun first left => ?_
  exact (follows_furtherNames text ts first left.left).congr rfl

/-- The sign of an annotation is known when its reader is called. -/
theorem follows_annotated {t : Token} (ht : t.kind = .symbol '@') (r : List Token) :
    Follows text ts (fun l : Tail r => l.left) TokenCursor.skipAnnotation (t :: r)
      ( annotation r) := by
  unfold TokenCursor.skipAnnotation annotation
  refine .symbol ht ((follows_qualifiedName text ts r).bind fun _ left => ?_)
  exact (follows_optionalGroup text ts '(' ')' left.left).wrap fun _ _ => ⟨_, rfl, rfl⟩

theorem eq_word_of_isModifier {k : Option TokenKind} (h : TokenCursor.isModifier k = true) :
    ∃ w ∈ modifierWords, k = some (.word w) := by
  rcases k with _ | w | _ | c
  · cases h
  · exact ⟨w, by simpa [TokenCursor.isModifier] using h, rfl⟩
  · cases h
  · cases h

theorem follows_modifiers (s : List Token) :
    LoopFollows text ts TokenCursor.skipModifiers (modifiers s) := by
  -- The cases are those of the reader; in each the tests of the cursor are gone through in order.
  fun_induction modifiers s with
  | case1 p d p' d' p'' d'' r ih =>
    refine .loop ?_
    refine .peek (.neg (by simp [TokenCursor.isModifier, modifierWords]) ?_)
    refine .peekAt (.peekAt (.pos ⟨rfl, rfl, rfl⟩ ?_))
    exact .advance (.advance (.advance (.again (ih.wrap fun _ _ => ⟨_, rfl, rfl⟩))))
  | case2 p d p' d' r =>
    refine .loop ?_
    refine .peek (.neg (by simp [TokenCursor.isModifier]) ?_)
    refine .peekAt (.peekAt (.neg (by simp) ?_))
    exact .peekAt (.neg (by simp) (.done rfl))
  | case3 p d r h ih =>
    have hother : kindAt (⟨.symbol '@', p, d⟩ :: r) 1 ≠ some (.word "interface") := by
      rw [kindAt_succ]
      exact kindAt_ne h
    refine .loop ?_
    refine .peek (.neg (by simp [TokenCursor.isModifier]) ?_)
    refine .peekAt (.peekAt (.neg (by simp) ?_))
    refine .peekAt (.pos ⟨rfl, hother⟩ ?_)
    refine (follows_annotated text ts rfl r).bindRound fun _ left => ?_
    exact .again ((ih left).wrap fun _ _ => ⟨_, rfl, rfl⟩)
  | case4 w p d r _ h ih =>
    refine .loop ?_
    refine .peek (.pos (by simpa [TokenCursor.isModifier] using h) ?_)
    exact .advance (.again (ih.wrap fun _ _ => ⟨_, rfl, rfl⟩))
  | case5 w p d r hsealed h =>
    refine .loop ?_
    refine .peek (.neg (by simpa [TokenCursor.isModifier] using h) ?_)
    refine .peekAt (.peekAt (.neg ?_ ?_))
    · intro ⟨h0, h1, h2⟩
      rw [kindAt_succ] at h1 h2
      obtain ⟨p', d', p'', d'', r, rfl⟩ := eq_cons_cons_of_kindAt h1 h2
      exact hsealed p' d' p'' d'' r rfl (by simpa using h0)
    · exact .peekAt (.neg (by simp) (.done rfl))
  | case6 s _ _ hsign hword =>
    have hother : ∀ w, kindAt s 0 ≠ some (.word w) := fun w => kindAt_ne (hword w)
    refine .loop ?_
    refine .peek (.neg ?_ ?_)
    · intro h
      obtain ⟨w, -, hw⟩ := eq_word_of_isModifier h
      exact hother w hw
    · refine .peekAt (.peekAt (.neg (fun h => hother _ h.1) ?_))
      exact .peekAt (.neg (fun h => kindAt_ne hsign h.1) (.done rfl))

end readers

end TypeCatalog.Source
