import TypeCatalog.Proofs.Outcome
import TypeCatalog.Toml.Reader

/-! # What the readers of TOML give

    The readers carry a proof that they leave a suffix, and tell what was left where they fail. Here
    only what they give matters, and what they leave as a plain list. Each reader has an equation
    for that, or one for each form of text that it tells apart. -/

set_option autoImplicit false

namespace TypeCatalog.Toml

/-! ## Section 1: Outcomes -/

section given

variable {α β τ τ' : Type} {s : List Char}

/-- What is given, with what is left as a plain list. Why nothing is given is not kept. -/
def given (left : τ → List Char) (r : Except (List Char) (α × τ)) :
    Except Unit (α × List Char) :=
  match r with
  | .ok (a, t) => .ok (a, left t)
  | .error _ => .error ()

theorem given_bind {left : τ → List Char} {left' : τ' → List Char}
    {r : Except (List Char) (α × τ)} {k : α × τ → Except (List Char) (β × τ')}
    {g : α × List Char → Except Unit (β × List Char)}
    (h : ∀ a t, given left' (k (a, t)) = g (a, left t)) :
    given left' (r >>= k) = (given left r).bind g := by
  cases r with
  | error e => rfl
  | ok p => exact h p.1 p.2

theorem given_map {left : τ → List Char} {left' : τ' → List Char}
    {r : Except (List Char) (α × τ)} {k : α × τ → Except (List Char) (β × τ')}
    {f : α → β} (h : ∀ a t, given left' (k (a, t)) = .ok (f a, left t)) :
    given left' (r >>= k) = (given left r).map fun (a, left) => (f a, left) := by
  cases r with
  | error e => rfl
  | ok p => exact h p.1 p.2

/-- What is given is passed on as it is. -/
theorem given_bind_self {left : τ → List Char} {left' : τ' → List Char}
    {r : Except (List Char) (α × τ)} {k : α × τ → Except (List Char) (α × τ')}
    (h : ∀ a t, given left' (k (a, t)) = .ok (a, left t)) :
    given left' (r >>= k) = given left r := by
  cases r with
  | error e => rfl
  | ok p => exact h p.1 p.2

/-- What a reader gives that takes at least one character. -/
def Reading.outcome (r : Reading α s) : Except Unit (α × List Char) := given (·.left) r

/-- What a reader gives that may take nothing. -/
def LoopReading.outcome (r : LoopReading α s) : Except Unit (α × List Char) := given (·.left) r

theorem Reading.length_lt {r : Reading α s} {a : α} {left : List Char}
    (h : r.outcome = .ok (a, left)) : left.length < s.length := by
  cases r with
  | error e => cases h
  | ok p =>
    obtain ⟨b, t⟩ := p
    cases h
    exact t.lt

theorem LoopReading.outcome_eq_ok_iff {r : LoopReading α s} {a : α} {left : List Char} :
    r.outcome = .ok (a, left) ↔ ∃ t, r = .ok (a, t) ∧ t.left = left := by
  cases r with
  | error e => simp [outcome, given]
  | ok p =>
    obtain ⟨b, t⟩ := p
    simp [outcome, given, and_assoc]

end given

/-! ## Section 2: Blanks and single characters -/

theorem outcome_lineBreak_feed (r : List Char) : (lineBreak ('\n' :: r)).outcome = .ok ((), r) :=
  rfl

theorem outcome_lineBreak_return (r : List Char) :
    (lineBreak ('\r' :: '\n' :: r)).outcome = .ok ((), r) := rfl

/-- Nothing else is a line break. -/
theorem outcome_lineBreak {s : List Char} (hfeed : s.head? ≠ some '\n')
    (hreturn : ∀ r, s ≠ '\r' :: '\n' :: r) : (lineBreak s).outcome = .error () := by
  unfold lineBreak
  split
  · exact absurd rfl hfeed
  · exact absurd rfl (hreturn _)
  · rfl

theorem left_comment_of_ne {s : List Char} (h : s.head? ≠ some '#') : (comment s).left = s := by
  unfold comment
  split
  · exact absurd rfl h
  · rfl

/-- The text after blanks and a comment. -/
def afterComment (s : List Char) : List Char := (comment (s.dropWhile isSpace)).left

theorem left_skipLines (s : List Char) :
    (skipLines s).left =
      match (lineBreak (afterComment s)).outcome with
      | .ok (_, left) => (skipLines left).left
      | .error _ => afterComment s := by
  rw [skipLines]
  have hfound : ((skipSpace s).append (comment (skipSpace s).left)).left = afterComment s := rfl
  generalize (skipSpace s).append (comment (skipSpace s).left) = found at hfound
  rw [← hfound]
  cases lineBreak found.left with
  | ok p => rfl
  | error e => rfl

theorem outcome_expect (c : Char) (r : List Char) : (expect c (c :: r)).outcome = .ok ((), r) := by
  simp [expect, Reading.outcome, given]

theorem eq_cons_of_expect {c : Char} {s left : List Char} {u : Unit}
    (h : (expect c s).outcome = .ok (u, left)) : s = c :: left := by
  cases s with
  | nil => cases h
  | cons d r =>
    by_cases hd : d = c
    · subst hd
      rw [outcome_expect] at h
      cases h
      rfl
    · simp [expect, hd, Reading.outcome, given] at h

/-! ## Section 3: Texts -/

/-- A letter after a reverse solidus. -/
theorem outcome_escape_letter {c found : Char} (h : escaped? c = some found) (r : List Char) :
    (escape (c :: r)).outcome = .ok (found, r) := by
  have hne : ∀ d, escaped? d = none → c ≠ d := by
    rintro d hd rfl
    rw [hd] at h
    cases h
  rw [escape]
  · rw [h]
    rfl
  · rintro a b r' rfl rfl
    exact hne 'x' (by decide) rfl
  · rintro a b c' d r' rfl rfl
    exact hne 'u' (by decide) rfl
  · rintro a b c' d e f g i r' rfl rfl
    exact hne 'U' (by decide) rfl

/-- The characters of an escape are all that is seen of the text. -/
theorem exists_taken_of_escape {s left : List Char} {c : Char}
    (h : (escape s).outcome = .ok (c, left)) :
    ∃ taken, s = taken ++ left ∧ ∀ left', (escape (taken ++ left')).outcome = .ok (c, left') := by
  unfold escape at h
  split at h
  · next a b r =>
    split at h
    · next found hcode =>
      cases h
      exact ⟨['x', a, b], rfl, fun left' => by simp [escape, hcode]; rfl⟩
    · cases h
  · next a b c' d r =>
    split at h
    · next found hcode =>
      cases h
      exact ⟨['u', a, b, c', d], rfl, fun left' => by simp [escape, hcode]; rfl⟩
    · cases h
  · next a b c' d e f g i r =>
    split at h
    · next found hcode =>
      cases h
      exact ⟨['U', a, b, c', d, e, f, g, i], rfl, fun left' => by simp [escape, hcode]; rfl⟩
    · cases h
  · next c' r _ _ _ =>
    split at h
    · next found hletter =>
      cases h
      exact ⟨[c'], rfl, outcome_escape_letter hletter⟩
    · cases h
  · cases h

theorem outcome_quotedTail_nil : (quotedTail []).outcome = .error () := by
  rw [quotedTail]
  rfl

theorem outcome_quotedTail_quote (r : List Char) :
    (quotedTail ('"' :: r)).outcome = .ok ([], r) := by
  rw [quotedTail]
  rfl

theorem outcome_quotedTail_escape (r : List Char) :
    (quotedTail ('\\' :: r)).outcome =
      (escape r).outcome.bind fun (c, left) =>
        (quotedTail left).outcome.map fun (cs, left) => (c :: cs, left) := by
  rw [quotedTail]
  apply given_bind
  intro c left
  apply given_map
  intro cs left₂
  rfl

theorem outcome_quotedTail_char {c : Char} (r : List Char) (hquote : c ≠ '"') (hescape : c ≠ '\\') :
    (quotedTail (c :: r)).outcome =
      if isPrintable c then (quotedTail r).outcome.map fun (cs, left) => (c :: cs, left)
      else .error () := by
  rw [quotedTail]
  · split
    · apply given_map
      intro cs left
      rfl
    · rfl
  · exact hquote
  · exact hescape

theorem outcome_literalTail_nil : (literalTail []).outcome = .error () := by
  rw [literalTail]
  rfl

theorem outcome_literalTail_quote (r : List Char) :
    (literalTail ('\'' :: r)).outcome = .ok ([], r) := by
  rw [literalTail]
  rfl

theorem outcome_literalTail_char {c : Char} (r : List Char) (hquote : c ≠ '\'') :
    (literalTail (c :: r)).outcome =
      if isPrintable c then (literalTail r).outcome.map fun (cs, left) => (c :: cs, left)
      else .error () := by
  rw [literalTail]
  · split
    · apply given_map
      intro cs left
      rfl
    · rfl
  · exact hquote

theorem left_skipBreak {s left : List Char} (h : (lineBreak s).outcome = .ok ((), left)) :
    (skipBreak s).left = left := by
  unfold skipBreak
  cases hbreak : lineBreak s with
  | ok p =>
    rw [hbreak] at h
    cases h
    rfl
  | error e =>
    rw [hbreak] at h
    cases h

theorem left_skipBreak_of_error {s : List Char} (h : (lineBreak s).outcome = .error ()) :
    (skipBreak s).left = s := by
  unfold skipBreak
  cases hbreak : lineBreak s with
  | ok p =>
    rw [hbreak] at h
    cases h
  | error e => rfl

theorem left_skipSpaceAndBreaks_space {c : Char} (hc : isSpace c = true) (r : List Char) :
    (skipSpaceAndBreaks (c :: r)).left = (skipSpaceAndBreaks r).left := by
  rw [skipSpaceAndBreaks]
  · rw [if_pos hc]
    rfl
  · rintro rfl
    cases hc
  · rintro r' rfl
    cases hc

/-- Nothing else is skipped. -/
theorem left_skipSpaceAndBreaks {s : List Char} (hbreak : (lineBreak s).outcome = .error ())
    (hspace : ∀ c, s.head? = some c → isSpace c = false) : (skipSpaceAndBreaks s).left = s := by
  unfold skipSpaceAndBreaks
  split
  · cases hbreak
  · cases hbreak
  · rw [if_neg (by simp [hspace _ rfl])]
    rfl
  · rfl

/-- Whether a text goes on in the next line, apart from blanks. -/
def endsLine (s : List Char) : Bool := (lineBreak (skipSpace s).left).toBool

theorem endsLine_eq_false_iff {s : List Char} :
    endsLine s = false ↔ (lineBreak (s.dropWhile isSpace)).outcome = .error () := by
  show (lineBreak (s.dropWhile isSpace)).toBool = false ↔ _
  cases lineBreak (s.dropWhile isSpace) with
  | ok p => exact ⟨nofun, nofun⟩
  | error e => exact ⟨fun _ => rfl, fun _ => rfl⟩

/-- Three quotes, and up to two more before the last three, end a text between triple quotes. -/
theorem tripleEnd_replicate {quote : Char} {left : List Char} {k : Nat} (hk : k ≤ 2)
    (hleft : k < 2 → left.head? ≠ some quote) :
    (tripleEnd quote (List.replicate (3 + k) quote ++ left)).map (fun (cs, t) => (cs, t.left)) =
      some (List.replicate k quote, left) := by
  obtain rfl | rfl | rfl : k = 0 ∨ k = 1 ∨ k = 2 := by omega
  · have hhead := hleft (by decide)
    cases left with
    | nil => simp [tripleEnd, List.replicate]
    | cons d left =>
      have hd : d ≠ quote := by simpa using hhead
      cases left with
      | nil => simp [tripleEnd, List.replicate, hd]
      | cons e left => simp [tripleEnd, List.replicate, hd]
  · have hhead := hleft (by decide)
    cases left with
    | nil => simp [tripleEnd, List.replicate]
    | cons e left =>
      have he : e ≠ quote := by simpa using hhead
      simp [tripleEnd, List.replicate, he]
  · simp [tripleEnd, List.replicate]

theorem exists_tripleEnd_eq {quote : Char} {left : List Char} {k : Nat} (hk : k ≤ 2)
    (hleft : k < 2 → left.head? ≠ some quote) :
    ∃ t : Tail (List.replicate (3 + k) quote ++ left), t.left = left ∧
      tripleEnd quote (List.replicate (3 + k) quote ++ left) =
        some (List.replicate k quote, t) := by
  have h := tripleEnd_replicate hk hleft
  obtain ⟨⟨cs, t⟩, hend, heq⟩ := Option.map_eq_some_iff.1 h
  obtain ⟨rfl, hleft⟩ := Prod.mk.inj heq
  exact ⟨t, hleft, hend⟩

theorem exists_replicate_of_tripleEnd {quote : Char} {s cs : List Char} {t : Tail s}
    (h : tripleEnd quote s = some (cs, t)) :
    ∃ k ≤ 2, s = List.replicate (3 + k) quote ++ t.left ∧ cs = List.replicate k quote ∧
      (k < 2 → t.left.head? ≠ some quote) := by
  unfold tripleEnd at h
  split at h
  · next a b c r =>
    split at h
    · next hquotes =>
      obtain ⟨rfl, rfl, rfl⟩ := hquotes
      split at h
      · next d e r' =>
        split at h
        · next hd =>
          subst hd
          split at h
          · next he =>
            subst he
            cases h
            exact ⟨2, by decide, rfl, rfl, by simp⟩
          · next he =>
            cases h
            exact ⟨1, by decide, rfl, rfl, by simpa using he⟩
        · next hd =>
          cases h
          exact ⟨0, by decide, rfl, rfl, by simpa using hd⟩
      · next d =>
        split at h
        · next hd =>
          subst hd
          cases h
          exact ⟨1, by decide, rfl, rfl, by simp⟩
        · next hd =>
          cases h
          exact ⟨0, by decide, rfl, rfl, by simpa using hd⟩
      · cases h
        exact ⟨0, by decide, rfl, rfl, by simp⟩
    · cases h
  · cases h

theorem tripleEnd_eq_none_iff {quote : Char} {s : List Char} :
    tripleEnd quote s = none ↔ ¬ List.replicate 3 quote <+: s := by
  constructor
  · intro h hquotes
    obtain ⟨r, rfl⟩ := hquotes
    -- One more quote is taken, or two, if they are there.
    obtain ⟨k, left, hk, hr, hleft⟩ : ∃ k left, k ≤ 2 ∧ r = List.replicate k quote ++ left ∧
        (k < 2 → left.head? ≠ some quote) := by
      by_cases hfirst : r.head? = some quote
      · obtain ⟨r', rfl⟩ := List.head?_eq_some_iff.1 hfirst
        by_cases hsecond : r'.head? = some quote
        · obtain ⟨r'', rfl⟩ := List.head?_eq_some_iff.1 hsecond
          exact ⟨2, r'', by decide, rfl, by simp⟩
        · exact ⟨1, r', by decide, rfl, fun _ => hsecond⟩
      · exact ⟨0, r, by decide, rfl, fun _ => hfirst⟩
    have hend := tripleEnd_replicate hk hleft
    have hsplit : List.replicate (3 + k) quote ++ left = List.replicate 3 quote ++ r := by
      rw [← List.replicate_append_replicate, List.append_assoc, hr]
    rw [Option.map_eq_some_iff] at hend
    obtain ⟨found, hfound, -⟩ := hend
    have hnone : tripleEnd quote (List.replicate (3 + k) quote ++ left) = none := hsplit ▸ h
    rw [hnone] at hfound
    cases hfound
  · intro h
    cases hend : tripleEnd quote s with
    | none => rfl
    | some found =>
      obtain ⟨k, -, hs, -⟩ := exists_replicate_of_tripleEnd hend
      rw [← List.replicate_append_replicate, List.append_assoc] at hs
      exact absurd ⟨_, hs.symm⟩ h

theorem tripleEnd_eq_none_of_ne {quote c : Char} (r : List Char) (h : c ≠ quote) :
    tripleEnd quote (c :: r) = none := by
  rw [tripleEnd_eq_none_iff]
  rintro ⟨r', hr⟩
  exact h (List.cons.inj hr).1.symm

theorem outcome_tripleTail_end {s cs : List Char} {left : Tail s}
    (h : tripleEnd '"' s = some (cs, left)) : (tripleTail s).outcome = .ok (cs, left.left) := by
  rw [tripleTail.eq_def, h]
  rfl

theorem outcome_tripleTail_nil : (tripleTail []).outcome = .error () := by
  rw [tripleTail]
  rfl

/-- A line that goes on in the next one. -/
theorem outcome_tripleTail_continued {r : List Char} (h : endsLine r = true) :
    (tripleTail ('\\' :: r)).outcome = (tripleTail (skipSpaceAndBreaks r).left).outcome := by
  rw [tripleTail, tripleEnd_eq_none_of_ne r (by decide)]
  unfold endsLine at h
  cases hbreak : lineBreak (skipSpace r).left with
  | ok found =>
    show Reading.outcome (tripleTail (skipSpaceAndBreaks r).left >>= _) = (tripleTail _).outcome
    apply given_bind_self
    intro cs left
    rfl
  | error left =>
    rw [hbreak] at h
    cases h

theorem outcome_tripleTail_escape {r : List Char} (h : endsLine r = false) :
    (tripleTail ('\\' :: r)).outcome =
      (escape r).outcome.bind fun (c, left) =>
        (tripleTail left).outcome.map fun (cs, left) => (c :: cs, left) := by
  rw [tripleTail, tripleEnd_eq_none_of_ne r (by decide)]
  unfold endsLine at h
  cases hbreak : lineBreak (skipSpace r).left with
  | ok found =>
    rw [hbreak] at h
    cases h
  | error left =>
    show Reading.outcome (escape r >>= _) = (escape r).outcome.bind _
    apply given_bind
    intro c left
    apply given_map
    intro cs left₂
    rfl

theorem outcome_tripleTail_return (r : List Char) :
    (tripleTail ('\r' :: '\n' :: r)).outcome =
      (tripleTail r).outcome.map fun (cs, left) => ('\r' :: '\n' :: cs, left) := by
  rw [tripleTail, tripleEnd_eq_none_of_ne _ (by decide)]
  exact given_map (f := fun cs => '\r' :: '\n' :: cs) fun _ _ => rfl

theorem outcome_tripleTail_char {c : Char} {r : List Char} (hend : tripleEnd '"' (c :: r) = none)
    (hescape : c ≠ '\\') (hreturn : ¬(c = '\r' ∧ r.head? = some '\n')) :
    (tripleTail (c :: r)).outcome =
      if isPrintable c ∨ c = '\n' then (tripleTail r).outcome.map fun (cs, left) => (c :: cs, left)
      else .error () := by
  rw [tripleTail, hend]
  · dsimp only
    split
    · apply given_map
      intro cs left
      rfl
    · rfl
  · exact hescape
  · rintro r' rfl rfl
    exact hreturn ⟨rfl, rfl⟩

theorem outcome_tripleLiteralTail_end {s cs : List Char} {left : Tail s}
    (h : tripleEnd '\'' s = some (cs, left)) :
    (tripleLiteralTail s).outcome = .ok (cs, left.left) := by
  rw [tripleLiteralTail.eq_def, h]
  rfl

theorem outcome_tripleLiteralTail_nil : (tripleLiteralTail []).outcome = .error () := by
  rw [tripleLiteralTail]
  rfl

theorem outcome_tripleLiteralTail_return (r : List Char) :
    (tripleLiteralTail ('\r' :: '\n' :: r)).outcome =
      (tripleLiteralTail r).outcome.map fun (cs, left) => ('\r' :: '\n' :: cs, left) := by
  rw [tripleLiteralTail, tripleEnd_eq_none_of_ne _ (by decide)]
  exact given_map (f := fun cs => '\r' :: '\n' :: cs) fun _ _ => rfl

theorem outcome_tripleLiteralTail_char {c : Char} {r : List Char}
    (hend : tripleEnd '\'' (c :: r) = none) (hreturn : ¬(c = '\r' ∧ r.head? = some '\n')) :
    (tripleLiteralTail (c :: r)).outcome =
      if isPrintable c ∨ c = '\n' then
        (tripleLiteralTail r).outcome.map fun (cs, left) => (c :: cs, left)
      else .error () := by
  rw [tripleLiteralTail, hend]
  · dsimp only
    split
    · apply given_map
      intro cs left
      rfl
    · rfl
  · rintro r' rfl rfl
    exact hreturn ⟨rfl, rfl⟩

/-! ## Section 4: Keys -/

theorem outcome_keyPart_quoted (r : List Char) :
    (keyPart ('"' :: r)).outcome =
      (quotedTail r).outcome.map fun (cs, left) => (String.ofList cs, left) :=
  given_map (f := String.ofList) fun _ _ => rfl

theorem outcome_keyPart_literal (r : List Char) :
    (keyPart ('\'' :: r)).outcome =
      (literalTail r).outcome.map fun (cs, left) => (String.ofList cs, left) :=
  given_map (f := String.ofList) fun _ _ => rfl

theorem outcome_keyPart_bare {c : Char} (r : List Char) (h : isBareKey c = true) :
    (keyPart (c :: r)).outcome =
      .ok (String.ofList (c :: r.takeWhile isBareKey), r.dropWhile isBareKey) := by
  have hquote : c ≠ '"' := by
    rintro rfl
    cases h
  have hliteral : c ≠ '\'' := by
    rintro rfl
    cases h
  rw [keyPart]
  · rw [if_pos h]
    rfl
  · exact hquote
  · exact hliteral

theorem outcome_keyPart_error {s : List Char}
    (h : ∀ c r, s = c :: r → c ≠ '"' ∧ c ≠ '\'' ∧ isBareKey c = false) :
    (keyPart s).outcome = .error () := by
  unfold keyPart
  split
  · exact absurd rfl (h _ _ rfl).1
  · exact absurd rfl (h _ _ rfl).2.1
  · rw [if_neg (by rw [(h _ _ rfl).2.2]; exact Bool.false_ne_true)]
    rfl
  · rfl

theorem outcome_keyTail_dot {s : List Char} (h : (s.dropWhile isSpace).head? = some '.') :
    (keyTail s).outcome =
      (expect '.' (s.dropWhile isSpace)).outcome.bind fun (_, left) =>
        (keyPart (left.dropWhile isSpace)).outcome.bind fun (part, left) =>
          (keyTail left).outcome.map fun (parts, left) => (part :: parts, left) := by
  obtain ⟨r, hr⟩ := List.head?_eq_some_iff.1 h
  rw [hr, outcome_expect, keyTail]
  split
  · next r' h' =>
    obtain rfl : r' = r := (List.cons.inj (h'.symm.trans hr)).2
    apply given_bind
    intro part left
    apply given_map
    intro parts left₂
    rfl
  · next hne => exact absurd hr (hne r)

theorem outcome_keyTail_end {s : List Char} (h : (s.dropWhile isSpace).head? ≠ some '.') :
    (keyTail s).outcome = .ok ([], s) := by
  rw [keyTail]
  split
  · next r h' =>
    have h' : s.dropWhile isSpace = '.' :: r := h'
    rw [h'] at h
    exact absurd rfl h
  · rfl

theorem outcome_key (s : List Char) :
    (key s).outcome =
      (keyPart s).outcome.bind fun (first, left) =>
        (keyTail left).outcome.bind fun (others, left) =>
          if depthLimit ≤ others.length then .error () else .ok ((first, others), left) := by
  unfold key
  apply given_bind
  intro first left
  apply given_bind
  intro others left₂
  dsimp only
  split
  · rfl
  · rfl

/-! ## Section 5: Values -/

theorem outcome_value_triple (room : Nat) (r : List Char) :
    (value room ('"' :: '"' :: '"' :: r)).outcome =
      (tripleTail (skipBreak r).left).outcome.map fun (cs, left) => (.text (String.ofList cs), left)
    := by
  rw [value]
  exact given_map (f := fun cs => Toml.text (String.ofList cs)) fun _ _ => rfl

theorem outcome_value_quoted (room : Nat) {r : List Char} (h : ∀ r', r ≠ '"' :: '"' :: r') :
    (value room ('"' :: r)).outcome =
      (quotedTail r).outcome.map fun (cs, left) => (.text (String.ofList cs), left) := by
  rw [value]
  · exact given_map (f := fun cs => Toml.text (String.ofList cs)) fun _ _ => rfl
  · exact h

theorem outcome_value_tripleLiteral (room : Nat) (r : List Char) :
    (value room ('\'' :: '\'' :: '\'' :: r)).outcome =
      (tripleLiteralTail (skipBreak r).left).outcome.map fun (cs, left) =>
        (.text (String.ofList cs), left) := by
  rw [value]
  exact given_map (f := fun cs => Toml.text (String.ofList cs)) fun _ _ => rfl

theorem outcome_value_literal (room : Nat) {r : List Char} (h : ∀ r', r ≠ '\'' :: '\'' :: r') :
    (value room ('\'' :: r)).outcome =
      (literalTail r).outcome.map fun (cs, left) => (.text (String.ofList cs), left) := by
  rw [value]
  · exact given_map (f := fun cs => Toml.text (String.ofList cs)) fun _ _ => rfl
  · exact h

theorem outcome_value_array (room : Nat) (r : List Char) :
    (value (room + 1) ('[' :: r)).outcome =
      (arrayItems room (skipLines r).left).outcome.map
        fun (items, left) => (.array items, left) := by
  rw [value]
  exact given_map (f := Toml.array) fun _ _ => rfl

theorem outcome_value_braces (room : Nat) (r : List Char) :
    (value (room + 1) ('\x7b' :: r)).outcome =
      (bracesMembers room [] (skipLines r).left).outcome.map fun (members, left) =>
        (.table .braces members, left) := by
  rw [value]
  exact given_map (f := Toml.table .braces) fun _ _ => rfl

/-- A day with a time after it. -/
theorem bareText_joined {found r : List Char} {c : Char}
    (hfound : ∀ c ∈ found, isBareValue c = true)
    (hjoined : (isDate found && c.isDigit) = true) :
    bareText (found ++ ' ' :: c :: r) = found ++ ' ' :: (c :: r).takeWhile isBareValue := by
  have hspace : ¬isBareValue ' ' = true := by decide
  unfold bareText
  dsimp only
  rw [List.takeWhile_append_of_pos hfound, List.dropWhile_append_of_pos hfound,
    List.takeWhile_cons_of_neg hspace, List.dropWhile_cons_of_neg hspace, List.append_nil]
  exact if_pos hjoined

theorem bareText_single {s : List Char} (h : ∀ c r, s.dropWhile isBareValue = ' ' :: c :: r →
    (isDate (s.takeWhile isBareValue) && c.isDigit) = false) :
    bareText s = s.takeWhile isBareValue := by
  unfold bareText
  dsimp only
  split
  · next c r hr => exact if_neg (by simp [h c r hr])
  · rfl

theorem outcome_bareValue (s : List Char) :
    (bareValue s).outcome =
      (Except.ok (bareText s, s.drop (bareText s).length)).bind fun (found, left) =>
        match scalar? found with
        | some t => if found = [] then .error () else .ok (t, left)
        | none => .error () := by
  unfold bareValue
  dsimp only [Except.bind]
  cases scalar? (bareText s) with
  | none => rfl
  | some t =>
    dsimp only
    by_cases hnil : bareText s = []
    · rw [dif_neg (by simp [hnil]), if_pos hnil]
      rfl
    · have hs : s ≠ [] := by
        rintro rfl
        exact hnil rfl
      rw [dif_pos ⟨List.length_pos_iff.2 hnil, List.length_pos_iff.2 hs⟩, if_neg hnil]
      rfl

theorem value_eq_bareValue {room : Nat} {s : List Char} (hquote : s.head? ≠ some '"')
    (hliteral : s.head? ≠ some '\'') (harray : ¬(room ≠ 0 ∧ s.head? = some '['))
    (hbraces : ¬(room ≠ 0 ∧ s.head? = some '\x7b')) : value room s = bareValue s := by
  rw [value]
  · rintro r rfl
    exact hquote rfl
  · rintro r rfl
    exact hquote rfl
  · rintro r rfl
    exact hliteral rfl
  · rintro r rfl
    exact hliteral rfl
  · rintro r room' rfl rfl
    exact harray ⟨Nat.succ_ne_zero room', rfl⟩
  · rintro r room' rfl rfl
    exact hbraces ⟨Nat.succ_ne_zero room', rfl⟩

theorem outcome_arrayItems_close (room : Nat) (r : List Char) :
    (arrayItems room (']' :: r)).outcome = .ok ([], r) := by
  rw [arrayItems]
  rfl

theorem outcome_arrayItems (room : Nat) {s : List Char} (h : s.head? ≠ some ']') :
    (arrayItems room s).outcome =
      (value room s).outcome.bind fun (item, left) =>
        (arrayTail room (skipLines left).left).outcome.map fun (items, left) =>
          (item :: items, left) := by
  rw [arrayItems]
  · apply given_bind
    intro item left
    apply given_map
    intro items left₂
    rfl
  · rintro r rfl
    exact h rfl

theorem outcome_arrayTail_close (room : Nat) (r : List Char) :
    (arrayTail room (']' :: r)).outcome = .ok ([], r) := by
  rw [arrayTail]
  rfl

theorem outcome_arrayTail_comma (room : Nat) (r : List Char) :
    (arrayTail room (',' :: r)).outcome = (arrayItems room (skipLines r).left).outcome := by
  rw [arrayTail]
  exact given_bind_self fun _ _ => rfl

theorem outcome_arrayTail_error (room : Nat) {s : List Char} (hclose : s.head? ≠ some ']')
    (hcomma : s.head? ≠ some ',') : (arrayTail room s).outcome = .error () := by
  rw [arrayTail]
  · rfl
  · rintro r rfl
    exact hclose rfl
  · rintro r rfl
    exact hcomma rfl

theorem outcome_bracesMembers_close (room : Nat) (members : Members) (r : List Char) :
    (bracesMembers room members ('\x7d' :: r)).outcome = .ok (members, r) := by
  rw [bracesMembers]
  rfl

theorem outcome_bracesMembers (room : Nat) (members : Members) {s : List Char}
    (h : s.head? ≠ some '\x7d') :
    (bracesMembers room members s).outcome =
      (key s).outcome.bind fun (name, left) =>
        (expect '=' (skipLines left).left).outcome.bind fun (_, left) =>
          (value room (skipLines left).left).outcome.bind fun (found, left) =>
            match assign name.1 name.2 found members with
            | none => .error ()
            | some members => (bracesTail room members (skipLines left).left).outcome := by
  rw [bracesMembers]
  · apply given_bind
    intro name left
    apply given_bind
    intro u left₂
    apply given_bind
    intro found left₃
    dsimp only
    cases assign name.1 name.2 found members with
    | none => rfl
    | some members =>
      show Reading.outcome (bracesTail room members _ >>= _) = (bracesTail room members _).outcome
      exact given_bind_self fun _ _ => rfl
  · rintro r rfl
    exact h rfl

theorem outcome_bracesTail_close (room : Nat) (members : Members) (r : List Char) :
    (bracesTail room members ('\x7d' :: r)).outcome = .ok (members, r) := by
  rw [bracesTail]
  rfl

theorem outcome_bracesTail_comma (room : Nat) (members : Members) (r : List Char) :
    (bracesTail room members (',' :: r)).outcome =
      (bracesMembers room members (skipLines r).left).outcome := by
  rw [bracesTail]
  exact given_bind_self fun _ _ => rfl

theorem outcome_bracesTail_error (room : Nat) (members : Members) {s : List Char}
    (hclose : s.head? ≠ some '\x7d') (hcomma : s.head? ≠ some ',') :
    (bracesTail room members s).outcome = .error () := by
  rw [bracesTail]
  · rfl
  · rintro r rfl
    exact hclose rfl
  · rintro r rfl
    exact hcomma rfl

/-! ## Section 6: Lines -/

theorem outcome_headerKey (s : List Char) :
    (headerKey s).outcome =
      (key (s.dropWhile isSpace)).outcome.bind fun (name, left) =>
        (expect ']' (left.dropWhile isSpace)).outcome.map fun (_, left) =>
          (splitKey name.1 name.2, left) := by
  unfold headerKey
  apply given_bind
  intro name left
  exact given_map (f := fun _ => splitKey name.1 name.2) fun _ _ => rfl

theorem outcome_line_item (r : List Char) :
    (line ('[' :: '[' :: r)).outcome =
      (headerKey r).outcome.bind fun (name, left) =>
        (expect ']' left).outcome.map fun (_, left) => (.item name.1 name.2, left) := by
  unfold line
  apply given_bind
  intro name left
  exact given_map (f := fun _ => Line.item name.1 name.2) fun _ _ => rfl

theorem outcome_line_header {r : List Char} (h : r.head? ≠ some '[') :
    (line ('[' :: r)).outcome =
      (headerKey r).outcome.map fun (name, left) => (.header name.1 name.2, left) := by
  rw [line]
  · exact given_map (f := fun name : List String × String => Line.header name.1 name.2)
      fun _ _ => rfl
  · rintro r' rfl
    exact h rfl

theorem outcome_line_blank {s : List Char} {c : Char} (hs : s.head? = some c)
    (h : c = '#' ∨ c = '\n' ∨ c = '\r') : (line s).outcome = .ok (.blank, s) := by
  obtain ⟨r, rfl⟩ := List.head?_eq_some_iff.1 hs
  have hc : c ≠ '[' := by
    rintro rfl
    revert h
    decide
  rw [line]
  · rw [if_pos h]
    rfl
  · rintro r' rfl
    exact absurd rfl hc
  · exact hc

theorem outcome_line_entry {s : List Char} {c : Char} (hs : s.head? = some c) (hc : c ≠ '[')
    (h : ¬(c = '#' ∨ c = '\n' ∨ c = '\r')) :
    (line s).outcome =
      (key s).outcome.bind fun (name, left) =>
        (expect '=' (left.dropWhile isSpace)).outcome.bind fun (_, left) =>
          (value depthLimit (left.dropWhile isSpace)).outcome.map fun (found, left) =>
            (.entry name.1 name.2 found, left) := by
  obtain ⟨r, rfl⟩ := List.head?_eq_some_iff.1 hs
  rw [line]
  · rw [if_neg h]
    apply given_bind
    intro name left
    apply given_bind
    intro u left₂
    exact given_map (f := fun found => Line.entry name.1 name.2 found) fun _ _ => rfl
  · rintro r' rfl
    exact absurd rfl hc
  · exact hc

/-- The end of a line is the end of the file, or a line break with the next line after it. -/
theorem lineEnd_cases (s : List Char) :
    (lineEnd s = .ok none ∧ afterComment s = []) ∨
    (∃ next, lineEnd s = .ok (some next) ∧
      (lineBreak (afterComment s)).outcome = .ok ((), next.left)) ∨
    ((∃ left, lineEnd s = .error left) ∧ afterComment s ≠ [] ∧
      (lineBreak (afterComment s)).outcome = .error ()) := by
  have hfound : ((skipSpace s).append (comment (skipSpace s).left)).left = afterComment s := rfl
  unfold lineEnd
  dsimp only
  generalize (skipSpace s).append (comment (skipSpace s).left) = found at hfound
  rw [← hfound]
  split
  · next hnil => exact .inl ⟨rfl, hnil⟩
  · next hne =>
    cases lineBreak found.left with
    | ok p => exact .inr (.inl ⟨_, rfl, rfl⟩)
    | error left => exact .inr (.inr ⟨⟨left, rfl⟩, hne, rfl⟩)

/-- What comes after a line: the file ends, or there is a line break and the next line. -/
theorem bind_lineEnd_eq_ok_iff {α : Type} {s : List Char} {a : α}
    {k : Option (Tail s) → Except (List Char) α} {f : List Char → Except (List Char) α}
    (hk : ∀ next, k (some next) = f next.left) :
    (lineEnd s).bind k = .ok a ↔ (afterComment s = [] ∧ k none = .ok a) ∨
      ∃ next, (lineBreak (afterComment s)).outcome = .ok ((), next) ∧ f next = .ok a := by
  obtain ⟨hend, hnil⟩ | ⟨next, hend, hbreak⟩ | ⟨⟨left, hend⟩, hne, hbreak⟩ := lineEnd_cases s
  · have hbreak : (lineBreak []).outcome = .error () := rfl
    rw [hend, hnil, hbreak]
    simp [Except.bind]
  · have hne : afterComment s ≠ [] := by
      intro hnil
      rw [hnil] at hbreak
      cases hbreak
    rw [hend, hbreak]
    simp [Except.bind, hne, hk]
  · rw [hend, hbreak]
    simp [Except.bind, hne]

/-- What the lines of a file give: the next line is added to the draft, and then the file ends or
    the lines after it are read. -/
theorem lines_eq_ok_iff {d : Draft} {s : List Char} {members : Members} :
    lines d s = .ok members ↔ ∃ found left d',
      (line (s.dropWhile isSpace)).outcome = .ok (found, left) ∧ d.add found = some d' ∧
      ((afterComment left = [] ∧ d'.members = members) ∨ ∃ next,
        (lineBreak (afterComment left)).outcome = .ok ((), next) ∧
          lines d' next = .ok members) := by
  rw [lines]
  constructor
  · intro h
    obtain ⟨⟨found, left⟩, hline, h⟩ := bind_eq_ok.1 h
    cases hadd : d.add found with
    | none =>
      simp only [hadd] at h
      cases h
    | some d' =>
      simp only [hadd] at h
      have hend := (bind_lineEnd_eq_ok_iff fun _ => rfl).1 h
      exact ⟨found, left.left, d', LoopReading.outcome_eq_ok_iff.2 ⟨left, hline, rfl⟩, hadd,
        hend.imp_left fun h => ⟨h.1, Except.ok.inj h.2⟩⟩
  · rintro ⟨found, left, d', hline, hadd, hend⟩
    obtain ⟨t, ht, rfl⟩ := LoopReading.outcome_eq_ok_iff.1 hline
    refine bind_eq_ok.2 ⟨(found, t), ht, ?_⟩
    simp only [hadd]
    apply (bind_lineEnd_eq_ok_iff fun _ => rfl).2
    exact hend.imp_left fun h => ⟨h.1, congrArg Except.ok h.2⟩

end TypeCatalog.Toml
