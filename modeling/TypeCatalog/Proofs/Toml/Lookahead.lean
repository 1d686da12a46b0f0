import TypeCatalog.Proofs.Lookahead
import TypeCatalog.Proofs.Toml.Reading

/-! # TOML up to a quotation mark

    Where a reader of TOML stops in front of a quotation mark, or before, it has not seen what is
    behind that mark. So it takes the same and gives the same if the text goes on in another way
    behind the mark. -/

set_option autoImplicit false

namespace TypeCatalog.Toml

/-! ## Section 1: Texts that are alike up to a quotation mark -/

/-- Two texts are the same, or the same up to a quotation mark that both have. -/
inductive AlikeToQuote : List Char → List Char → Prop
  | same (s : List Char) : AlikeToQuote s s
  | quote (r r' : List Char) : AlikeToQuote ('"' :: r) ('"' :: r')
  | cons (c : Char) {s s' : List Char} : AlikeToQuote s s' → AlikeToQuote (c :: s) (c :: s')

namespace AlikeToQuote

variable {s s' u u' : List Char} {c : Char}

theorem head?_eq (h : AlikeToQuote s s') : s'.head? = s.head? := by
  cases h with
  | same => rfl
  | quote => rfl
  | cons => rfl

theorem symm (h : AlikeToQuote s s') : AlikeToQuote s' s := by
  induction h with
  | same s => exact .same s
  | quote r r' => exact .quote r' r
  | cons c _ ih => exact .cons c ih

theorem append (h : AlikeToQuote u u') (before : List Char) :
    AlikeToQuote (before ++ u) (before ++ u') := by
  induction before with
  | nil => exact h
  | cons c before ih => exact .cons c ih

/-- A character that is no quotation mark comes before the mark. -/
theorem exists_cons (h : AlikeToQuote (c :: s) s') (hc : c ≠ '"') :
    ∃ r, s' = c :: r ∧ AlikeToQuote s r := by
  cases h with
  | same => exact ⟨s, rfl, .same s⟩
  | quote => exact absurd rfl hc
  | cons c h => exact ⟨_, rfl, h⟩

theorem dropWhile (h : AlikeToQuote s s') {p : Char → Bool} (hp : p '"' = false) :
    AlikeToQuote (s.dropWhile p) (s'.dropWhile p) := by
  induction h with
  | same s => exact .same _
  | quote r r' =>
    rw [List.dropWhile_cons_of_neg (by simp [hp]), List.dropWhile_cons_of_neg (by simp [hp])]
    exact .quote r r'
  | @cons c s s' h ih =>
    by_cases hc : p c = true
    · rw [List.dropWhile_cons_of_pos hc, List.dropWhile_cons_of_pos hc]
      exact ih
    · rw [List.dropWhile_cons_of_neg hc, List.dropWhile_cons_of_neg hc]
      exact .cons c h

/-- The character at the mark is the same one too. -/
theorem take_append (h : AlikeToQuote u u') (before : List Char) {n : Nat}
    (hn : n ≤ before.length + 1) : (before ++ u').take n = (before ++ u).take n := by
  induction before generalizing n with
  | nil =>
    have hhead := h.head?_eq
    obtain rfl | rfl : n = 0 ∨ n = 1 := by
      simp only [List.length_nil] at hn
      omega
    · rfl
    · show u'.take 1 = u.take 1
      rw [List.take_one, List.take_one, hhead]
  | cons c before ih =>
    cases n with
    | zero => rfl
    | succ n =>
      simp only [List.cons_append, List.take_succ_cons]
      rw [ih (by simpa using hn)]

end AlikeToQuote

/-- What `f` gives for `s` is decided by what it takes and by what follows up to a quotation mark.
    -/
abbrev ToQuote {α : Type} (f : List Char → Except Unit (α × List Char)) (s : List Char) : Prop :=
  GivesByFront AlikeToQuote f s

namespace ToQuote

variable {α β : Type} {f g : List Char → Except Unit (α × List Char)} {s : List Char}

/-- Some characters are taken first. -/
theorem append {taken r : List Char} (hg : ToQuote g r)
    (hfg : ∀ r', AlikeToQuote r r' → f (taken ++ r') = g r') : ToQuote f (taken ++ r) where
  suffix h := by
    rw [hfg r (.same r)] at h
    exact (hg.suffix h).trans (List.suffix_append taken r)
  gives {before after u u' a} hu hs h := by
    rw [hfg r (.same r)] at h
    -- The characters stand before `u`, since as much is left of `r` as `u` is long.
    have hlength := (hg.suffix h).length_le
    have hwithin : taken <+: before := by
      apply List.prefix_of_prefix_length_le (List.prefix_append taken r)
        (hs ▸ List.prefix_append before u)
      have hlengths := congrArg List.length hs
      simp only [List.length_append] at hlengths hlength
      omega
    obtain ⟨before, rfl⟩ := hwithin
    rw [List.append_assoc] at hs
    obtain rfl := List.append_cancel_left hs
    rw [List.append_assoc, hfg _ (hu.append before)]
    exact hg.gives hu rfl h

/-- Nothing is taken, or given characters are. -/
theorem of_taken {taken left : List Char} {a : α}
    (h : ∀ left', AlikeToQuote left left' → f (taken ++ left') = .ok (a, left')) :
    ToQuote f (taken ++ left) :=
  append (.give a left) h

/-- Another reader that gives the same, and that goes on giving the same if what is left changes
    behind a quotation mark. -/
theorem congr (hg : ToQuote g s) (hs : f s = g s)
    (hfg : ∀ s' a left left', AlikeToQuote s s' → AlikeToQuote left left' → g s = .ok (a, left) →
      g s' = .ok (a, left') → f s' = .ok (a, left')) :
    ToQuote f s :=
  GivesByFront.congr hg hs fun before after _ _ _ hu hsplit h h' =>
    hfg _ _ _ _ (hsplit ▸ hu.append before) (hu.append after) h h'

/-- Another reader that gives the same on all texts that are alike. -/
theorem of_alike (hg : ToQuote g s) (hfg : ∀ s', AlikeToQuote s s' → f s' = g s') : ToQuote f s :=
  hg.congr (hfg s (.same s)) fun s' _ _ _ hs' _ _ h => by rwa [hfg s' hs']

/-- Another reader that gives the same under a condition, which holds wherever this one gives
    something. -/
theorem of_gives {P : List Char → Prop} (hg : ToQuote g s) (hfg : ∀ s', P s' → f s' = g s')
    (hs : P s) (hP : ∀ s' p, g s' = .ok p → P s') : ToQuote f s :=
  hg.congr (hfg s hs) fun s' _ _ _ _ _ _ h => (hfg s' (hP s' _ h)).trans h

/-- Another reader that looks at no more than three characters, if this one takes two at least. -/
theorem of_take_three (hg : ToQuote g s) (hs : f s = g s)
    (htwo : ∀ a left, g s = .ok (a, left) → left.length + 2 ≤ s.length)
    (hfg : ∀ s' p, s'.take 3 = s.take 3 → g s' = .ok p → f s' = .ok p) : ToQuote f s := by
  apply GivesByFront.congr hg hs
  intro before after u u' a hu hsplit h h'
  have hlength := htwo a _ h
  rw [hsplit] at hlength
  simp only [List.length_append] at hlength
  apply hfg _ _ _ h'
  rw [hsplit]
  exact hu.take_append before (by omega)

/-- A reader of what another one leaves. -/
theorem after {skip : List Char → List Char}
    (hskip : ToQuote (fun s => .ok ((), skip s)) s) (hf : ToQuote f (skip s)) :
    ToQuote (fun s => f (skip s)) s :=
  hskip.bind (k := fun p => f p.2) fun _ _ h => by
    cases h
    exact hf

end ToQuote

/-! ## Section 2: Blanks and single characters -/

/-- The characters that a predicate holds on, and those after them. -/
theorem span_toQuote (p : Char → Bool) (s : List Char) :
    ToQuote (fun s => .ok (s.takeWhile p, s.dropWhile p)) s := by
  have h : ToQuote (fun s => .ok (s.takeWhile p, s.dropWhile p))
      (s.takeWhile p ++ s.dropWhile p) := by
    apply ToQuote.of_taken
    intro left hleft
    have htaken : ∀ c ∈ s.takeWhile p, p c = true := List.all_eq_true.1 List.all_takeWhile
    have hstop : left.takeWhile p = [] ∧ left.dropWhile p = left := by
      cases left with
      | nil => exact ⟨rfl, rfl⟩
      | cons c r =>
        have hhead : (s.dropWhile p).head? = some c := hleft.head?_eq.symm
        have hc : ¬p c = true := by
          have hnot := List.head?_dropWhile_not p s
          rw [hhead] at hnot
          simpa using hnot
        exact ⟨List.takeWhile_cons_of_neg hc, List.dropWhile_cons_of_neg hc⟩
    show Except.ok ((s.takeWhile p ++ left).takeWhile p, (s.takeWhile p ++ left).dropWhile p) = _
    rw [List.takeWhile_append_of_pos htaken, List.dropWhile_append_of_pos htaken, hstop.1, hstop.2,
      List.append_nil]
  rwa [List.takeWhile_append_dropWhile] at h

theorem dropWhile_toQuote (p : Char → Bool) (s : List Char) :
    ToQuote (fun s => .ok ((), s.dropWhile p)) s :=
  (span_toQuote p s).map fun _ => ()

theorem lineBreak_toQuote (s : List Char) : ToQuote (fun s => (lineBreak s).outcome) s := by
  by_cases hfeed : s.head? = some '\n'
  · obtain ⟨r, rfl⟩ := List.head?_eq_some_iff.1 hfeed
    exact (GivesByFront.give () r).cons outcome_lineBreak_feed
  · by_cases hreturn : ∃ r, s = '\r' :: '\n' :: r
    · obtain ⟨r, rfl⟩ := hreturn
      show ToQuote _ (['\r', '\n'] ++ r)
      exact ToQuote.of_taken fun left _ => outcome_lineBreak_return left
    · exact .of_error (outcome_lineBreak hfeed (not_exists.1 hreturn))

/-- Whether there is a line break is told by the text up to a quotation mark. -/
theorem AlikeToQuote.lineBreak_eq_error {s s' : List Char} (h : AlikeToQuote s s')
    (hs : (lineBreak s).outcome = .error ()) : (lineBreak s').outcome = .error () := by
  apply outcome_lineBreak
  · intro hfeed
    rw [h.head?_eq] at hfeed
    obtain ⟨r, rfl⟩ := List.head?_eq_some_iff.1 hfeed
    cases hs
  · rintro r rfl
    cases h with
    | same => cases hs
    | cons c h =>
      obtain ⟨r', rfl⟩ := List.head?_eq_some_iff.1 h.head?_eq.symm
      cases hs

theorem comment_toQuote (s : List Char) : ToQuote (fun s => .ok ((), (comment s).left)) s := by
  by_cases h : s.head? = some '#'
  · obtain ⟨r, rfl⟩ := List.head?_eq_some_iff.1 h
    exact (dropWhile_toQuote isPrintable r).cons fun r => rfl
  · apply ToQuote.of_alike (.give () s)
    intro s' hs'
    rw [left_comment_of_ne (by rwa [hs'.head?_eq])]

theorem afterComment_toQuote (s : List Char) :
    ToQuote (fun s => .ok ((), afterComment s)) s :=
  ToQuote.after (f := fun s => .ok ((), (comment s).left)) (dropWhile_toQuote isSpace s)
    (comment_toQuote _)

theorem length_afterComment_le (s : List Char) : (afterComment s).length ≤ s.length :=
  ((afterComment_toQuote s).suffix rfl).length_le

theorem skipLines_toQuote (s : List Char) :
    ToQuote (fun s => .ok ((), (skipLines s).left)) s := by
  cases hbreak : (lineBreak (afterComment s)).outcome with
  | ok p =>
    -- The next lines are skipped in the same way.
    have hnext : ToQuote (fun s => (lineBreak (afterComment s)).outcome.bind fun p =>
        .ok ((), (skipLines p.2).left)) s :=
      (ToQuote.after (afterComment_toQuote s) (lineBreak_toQuote _)).bind fun _ left hleft =>
        have : left.length < s.length :=
          Nat.lt_of_lt_of_le (Reading.length_lt hleft) (length_afterComment_le s)
        skipLines_toQuote left
    refine hnext.of_gives (P := fun s' => ∃ p', (lineBreak (afterComment s')).outcome = .ok p')
      ?_ ⟨p, hbreak⟩ ?_
    · rintro s' ⟨p', hp'⟩
      rw [left_skipLines s', hp']
      rfl
    · intro s' q h
      obtain ⟨p', hp', -⟩ := bind_eq_ok.1 h
      exact ⟨p', hp'⟩
  | error e =>
    have hskip : ∀ s', (lineBreak (afterComment s')).outcome = .error () →
        (skipLines s').left = afterComment s' := by
      intro s' h
      rw [left_skipLines s', h]
    apply (afterComment_toQuote s).congr
    · show Except.ok ((), (skipLines s).left) = _
      rw [hskip s hbreak]
    · intro s' a left left' _ hleft h h'
      cases h
      obtain rfl : afterComment s' = left' := (Prod.mk.inj (Except.ok.inj h')).2
      show Except.ok ((), (skipLines s').left) = _
      rw [hskip s' (hleft.lineBreak_eq_error hbreak)]
termination_by s.length

theorem expect_toQuote (c : Char) (s : List Char) : ToQuote (fun s => (expect c s).outcome) s := by
  cases h : (expect c s).outcome with
  | ok p =>
    obtain rfl := eq_cons_of_expect h
    exact (GivesByFront.give () p.2).cons (outcome_expect c)
  | error e => exact .of_error h

/-! ## Section 3: Texts -/

theorem escape_toQuote (s : List Char) : ToQuote (fun s => (escape s).outcome) s := by
  cases h : (escape s).outcome with
  | ok p =>
    obtain ⟨taken, hs, htaken⟩ := exists_taken_of_escape h
    rw [hs]
    exact .of_taken fun left _ => htaken left
  | error e => exact .of_error h

theorem quotedTail_toQuote (s : List Char) : ToQuote (fun s => (quotedTail s).outcome) s := by
  cases s with
  | nil => exact .of_error outcome_quotedTail_nil
  | cons c r =>
    by_cases hquote : c = '"'
    · subst hquote
      exact (GivesByFront.give [] r).cons outcome_quotedTail_quote
    · by_cases hescape : c = '\\'
      · subst hescape
        apply GivesByFront.cons _ outcome_quotedTail_escape
        apply (escape_toQuote r).bind
        intro c left hleft
        have := Reading.length_lt hleft
        exact (quotedTail_toQuote left).map _
      · by_cases hc : isPrintable c = true
        · apply GivesByFront.cons ((quotedTail_toQuote r).map _)
          intro r
          rw [outcome_quotedTail_char r hquote hescape, if_pos hc]
        · exact .of_error (by rw [outcome_quotedTail_char r hquote hescape, if_neg hc])
termination_by s.length

theorem literalTail_toQuote (s : List Char) : ToQuote (fun s => (literalTail s).outcome) s := by
  induction s with
  | nil => exact .of_error outcome_literalTail_nil
  | cons c r ih =>
    by_cases hquote : c = '\''
    · subst hquote
      exact (GivesByFront.give [] r).cons outcome_literalTail_quote
    · by_cases hc : isPrintable c = true
      · apply GivesByFront.cons (ih.map _)
        intro r
        rw [outcome_literalTail_char r hquote, if_pos hc]
      · exact .of_error (by rw [outcome_literalTail_char r hquote, if_neg hc])

theorem skipBreak_toQuote (s : List Char) : ToQuote (fun s => .ok ((), (skipBreak s).left)) s := by
  cases h : (lineBreak s).outcome with
  | ok p =>
    refine (lineBreak_toQuote s).of_gives (P := fun s' => ∃ p', (lineBreak s').outcome = .ok p')
      ?_ ⟨p, h⟩ fun s' p' h' => ⟨p', h'⟩
    rintro s' ⟨p', h'⟩
    rw [left_skipBreak h', h']
  | error e =>
    apply ToQuote.of_alike (.give () s)
    intro s' hs'
    rw [left_skipBreak_of_error (hs'.lineBreak_eq_error h)]

theorem skipSpaceAndBreaks_toQuote (s : List Char) :
    ToQuote (fun s => .ok ((), (skipSpaceAndBreaks s).left)) s := by
  fun_induction skipSpaceAndBreaks s with
  | case1 r ih => exact ih.cons fun r => rfl
  | case2 r ih =>
    show ToQuote _ (['\r', '\n'] ++ r)
    exact ih.append fun r _ => rfl
  | case3 c r hfeed hreturn hc ih =>
    apply ih.cons
    intro r
    rw [left_skipSpaceAndBreaks_space hc]
  | case4 c r hfeed hreturn hc =>
    have hbreak : (lineBreak (c :: r)).outcome = .error () := by
      apply outcome_lineBreak
      · intro h
        cases h
        exact hfeed rfl
      · rintro r' h
        cases h
        exact hreturn _ rfl rfl
    apply ToQuote.of_alike (.give () _)
    intro s' hs'
    rw [left_skipSpaceAndBreaks (hs'.lineBreak_eq_error hbreak)]
    intro d hd
    rw [hs'.head?_eq] at hd
    cases hd
    simpa using hc
  | case5 =>
    apply ToQuote.of_alike (.give () _)
    rintro s' ⟨⟩
    rfl

theorem AlikeToQuote.endsLine_eq {s s' : List Char} (h : AlikeToQuote s s') :
    endsLine s' = endsLine s := by
  have hspace : isSpace '"' = false := by decide
  have hfalse : ∀ {s s' : List Char}, AlikeToQuote s s' → endsLine s = false →
      endsLine s' = false := by
    intro s s' h hs
    rw [endsLine_eq_false_iff] at hs ⊢
    exact (h.dropWhile hspace).lineBreak_eq_error hs
  cases hs : endsLine s with
  | false => exact hfalse h hs
  | true =>
    cases hs' : endsLine s' with
    | false =>
      rw [hfalse h.symm hs'] at hs
      cases hs
    | true => rfl

/-- Three quotes that end a text, in front of texts that are alike. -/
theorem toQuote_of_tripleEnd {quote : Char} {s cs : List Char} {t : Tail s}
    {f : List Char → Except Unit (List Char × List Char)} (h : tripleEnd quote s = some (cs, t))
    (hf : ∀ (s' : List Char) (t' : Tail s'), tripleEnd quote s' = some (cs, t') →
      f s' = .ok (cs, t'.left)) : ToQuote f s := by
  obtain ⟨k, hk, hs, rfl, hleft⟩ := exists_replicate_of_tripleEnd h
  rw [hs]
  apply ToQuote.of_taken
  intro left hleft'
  obtain ⟨t', ht', hend⟩ := exists_tripleEnd_eq hk fun hk' => by
    rw [hleft'.head?_eq]
    exact hleft hk'
  rw [hf _ t' hend, ht']

theorem tripleEnd_eq_none_of_take {quote : Char} {s s' : List Char}
    (h : tripleEnd quote s = none) (htake : s'.take 3 = s.take 3) : tripleEnd quote s' = none := by
  rw [tripleEnd_eq_none_iff, List.prefix_iff_eq_take] at h ⊢
  rw [List.length_replicate] at h ⊢
  rwa [htake]

/-- A character in front of what takes one more at least, so that the two characters after it are
    there up to the mark. -/
theorem ToQuote.cons_of_take {α β : Type} {c : Char} {r : List Char}
    {f : List Char → Except Unit (β × List Char)} {tail : (s : List Char) → Reading α s} {k : α → β}
    (hg : ToQuote (fun s => (tail s).outcome) r)
    (hf : ∀ r', r'.take 2 = r.take 2 →
      f (c :: r') = (tail r').outcome.map fun (a, left) => (k a, left)) :
    ToQuote f (c :: r) := by
  have hcons : ToQuote (fun s => (tail s.tail).outcome.map fun (a, left) => (k a, left))
      (c :: r) :=
    (hg.map k).cons fun r => rfl
  apply hcons.of_take_three
  · exact hf r rfl
  · intro b left h
    obtain ⟨⟨a, left'⟩, htail, heq⟩ := map_eq_ok.1 h
    cases heq
    have := Reading.length_lt htail
    simp only [List.tail_cons, List.length_cons] at this ⊢
    omega
  · intro s' p htake h
    cases s' with
    | nil => cases htake
    | cons d r' =>
      obtain ⟨rfl, htwo⟩ := List.cons.inj htake
      rw [hf r' htwo]
      exact h

theorem head?_eq_of_take {r r' : List Char} (h : r'.take 2 = r.take 2) : r'.head? = r.head? := by
  have hhead := congrArg List.head? h
  simpa only [List.head?_take, if_neg (Nat.succ_ne_zero 1)] using hhead

theorem tripleTail_toQuote (s : List Char) : ToQuote (fun s => (tripleTail s).outcome) s := by
  cases hend : tripleEnd '"' s with
  | some found =>
    exact toQuote_of_tripleEnd hend fun s' t' h => outcome_tripleTail_end h
  | none =>
    cases s with
    | nil => exact .of_error outcome_tripleTail_nil
    | cons c r =>
      by_cases hescape : c = '\\'
      · subst hescape
        show ToQuote _ (['\\'] ++ r)
        cases hline : endsLine r with
        | true =>
          have hlength := (skipSpaceAndBreaks r).length_le
          refine ToQuote.append (ToQuote.after (skipSpaceAndBreaks_toQuote r)
            (tripleTail_toQuote (skipSpaceAndBreaks r).left)) fun r' hr' => ?_
          exact outcome_tripleTail_continued (hr'.endsLine_eq.trans hline)
        | false =>
          refine ToQuote.append ?_ fun r' hr' =>
            outcome_tripleTail_escape (hr'.endsLine_eq.trans hline)
          apply (escape_toQuote r).bind
          intro c left hleft
          have := Reading.length_lt hleft
          exact (tripleTail_toQuote left).map _
      · by_cases hreturn : c = '\r' ∧ r.head? = some '\n'
        · obtain ⟨rfl, hfeed⟩ := hreturn
          obtain ⟨r, rfl⟩ := List.head?_eq_some_iff.1 hfeed
          show ToQuote _ (['\r', '\n'] ++ r)
          exact ToQuote.append ((tripleTail_toQuote r).map fun cs => '\r' :: '\n' :: cs)
            fun r' _ => outcome_tripleTail_return r'
        · by_cases hc : isPrintable c = true ∨ c = '\n'
          · apply ToQuote.cons_of_take (tripleTail_toQuote r)
            intro r' htake
            have hend' : tripleEnd '"' (c :: r') = none :=
              tripleEnd_eq_none_of_take hend (congrArg (c :: ·) htake)
            rw [outcome_tripleTail_char hend' hescape (head?_eq_of_take htake ▸ hreturn), if_pos hc]
          · exact .of_error (by rw [outcome_tripleTail_char hend hescape hreturn, if_neg hc])
termination_by s.length

theorem tripleLiteralTail_toQuote (s : List Char) :
    ToQuote (fun s => (tripleLiteralTail s).outcome) s := by
  cases hend : tripleEnd '\'' s with
  | some found =>
    exact toQuote_of_tripleEnd hend fun s' t' h => outcome_tripleLiteralTail_end h
  | none =>
    cases s with
    | nil => exact .of_error outcome_tripleLiteralTail_nil
    | cons c r =>
      by_cases hreturn : c = '\r' ∧ r.head? = some '\n'
      · obtain ⟨rfl, hfeed⟩ := hreturn
        obtain ⟨r, rfl⟩ := List.head?_eq_some_iff.1 hfeed
        show ToQuote _ (['\r', '\n'] ++ r)
        exact ToQuote.append ((tripleLiteralTail_toQuote r).map fun cs => '\r' :: '\n' :: cs)
          fun r' _ => outcome_tripleLiteralTail_return r'
      · by_cases hc : isPrintable c = true ∨ c = '\n'
        · apply ToQuote.cons_of_take (tripleLiteralTail_toQuote r)
          intro r' htake
          have hend' : tripleEnd '\'' (c :: r') = none :=
            tripleEnd_eq_none_of_take hend (congrArg (c :: ·) htake)
          rw [outcome_tripleLiteralTail_char hend' (head?_eq_of_take htake ▸ hreturn), if_pos hc]
        · exact .of_error (by rw [outcome_tripleLiteralTail_char hend hreturn, if_neg hc])
termination_by s.length

/-! ## Section 4: Keys -/

theorem keyPart_toQuote (s : List Char) : ToQuote (fun s => (keyPart s).outcome) s := by
  by_cases h : ∀ c r, s = c :: r → c ≠ '"' ∧ c ≠ '\'' ∧ isBareKey c = false
  · exact .of_error (outcome_keyPart_error h)
  · cases s with
    | nil => exact absurd nofun h
    | cons c r =>
      by_cases hquote : c = '"'
      · subst hquote
        exact ((quotedTail_toQuote r).map _).cons outcome_keyPart_quoted
      · by_cases hliteral : c = '\''
        · subst hliteral
          exact ((literalTail_toQuote r).map _).cons outcome_keyPart_literal
        · have hc : isBareKey c = true := by
            cases hc : isBareKey c with
            | true => rfl
            | false =>
              refine absurd (fun d r' heq => ?_) h
              cases heq
              exact ⟨hquote, hliteral, hc⟩
          exact ((span_toQuote isBareKey r).map fun cs => String.ofList (c :: cs)).cons
            fun r => outcome_keyPart_bare r hc

theorem keyTail_toQuote (s : List Char) : ToQuote (fun s => (keyTail s).outcome) s := by
  by_cases h : (s.dropWhile isSpace).head? = some '.'
  · refine ToQuote.of_gives ?_ (fun _ hdot => outcome_keyTail_dot hdot) h fun s' p hp => ?_
    · apply (ToQuote.after (dropWhile_toQuote isSpace s) (expect_toQuote '.' _)).bind
      intro _ r hr
      apply (ToQuote.after (dropWhile_toQuote isSpace r) (keyPart_toQuote _)).bind
      intro part left hleft
      have hshorter : left.length < s.length := by
        have h₁ := Reading.length_lt hr
        have h₂ := Reading.length_lt hleft
        have h₃ := (List.dropWhile_suffix isSpace : s.dropWhile isSpace <:+ s).length_le
        have h₄ := (List.dropWhile_suffix isSpace : r.dropWhile isSpace <:+ r).length_le
        omega
      exact (keyTail_toQuote left).map _
    · obtain ⟨⟨_, r⟩, hr, -⟩ := bind_eq_ok.1 hp
      rw [eq_cons_of_expect hr]
      rfl
  · apply ToQuote.of_alike (.give [] s)
    intro s' hs'
    apply outcome_keyTail_end
    rwa [(hs'.dropWhile (by decide)).head?_eq]
termination_by s.length

theorem key_toQuote (s : List Char) : ToQuote (fun s => (key s).outcome) s := by
  refine ToQuote.of_alike ?_ fun s' _ => outcome_key s'
  apply (keyPart_toQuote s).bind
  intro first left _
  apply (keyTail_toQuote left).bind
  intro others left _
  by_cases hlimit : depthLimit ≤ others.length
  · exact .of_error (if_pos hlimit)
  · simp only [if_neg hlimit]
    exact .give _ left

/-! ## Section 5: Values -/

theorem drop_length_takeWhile (p : Char → Bool) (s : List Char) :
    s.drop (s.takeWhile p).length = s.dropWhile p := by
  have h : (s.takeWhile p ++ s.dropWhile p).drop (s.takeWhile p).length = s.dropWhile p :=
    List.drop_left
  rwa [List.takeWhile_append_dropWhile] at h

theorem bareText_toQuote (s : List Char) :
    ToQuote (fun s => .ok (bareText s, s.drop (bareText s).length)) s := by
  by_cases h : ∃ c r, s.dropWhile isBareValue = ' ' :: c :: r ∧
      (isDate (s.takeWhile isBareValue) && c.isDigit) = true
  · obtain ⟨c, r, hr, hjoined⟩ := h
    have hs : s = (s.takeWhile isBareValue ++ [' ']) ++ c :: r := by
      rw [List.append_assoc, List.singleton_append, ← hr, List.takeWhile_append_dropWhile]
    -- After the day and the blank, the time is taken as far as it goes.
    have htime := (span_toQuote isBareValue (c :: r)).map
      fun more => s.takeWhile isBareValue ++ ' ' :: more
    rw [hs]
    apply ToQuote.append htime
    intro left hleft
    obtain ⟨r', rfl⟩ := List.head?_eq_some_iff.1 hleft.head?_eq
    have htext := bareText_joined (r := r') (List.all_eq_true.1 List.all_takeWhile) hjoined
    have hdrop : (s.takeWhile isBareValue ++ ' ' :: c :: r').drop
        (s.takeWhile isBareValue ++ ' ' :: (c :: r').takeWhile isBareValue).length =
        (c :: r').dropWhile isBareValue := by
      rw [List.length_append, List.drop_length_add_append, List.length_cons, List.drop_succ_cons,
        drop_length_takeWhile]
    rw [List.append_assoc, List.singleton_append, htext, hdrop]
    rfl
  · have hsingle : ∀ s', s'.takeWhile isBareValue = s.takeWhile isBareValue →
        AlikeToQuote (s.dropWhile isBareValue) (s'.dropWhile isBareValue) →
        bareText s' = s'.takeWhile isBareValue := by
      intro s' htake hdrop
      apply bareText_single
      intro c r hr
      rw [hr] at hdrop
      -- The blank and the character after it are the same ones, up to the mark.
      obtain ⟨r₁, hr₁, hrest⟩ := hdrop.symm.exists_cons (by decide)
      obtain ⟨r₂, hr₂⟩ := List.head?_eq_some_iff.1 hrest.head?_eq
      rw [hr₂] at hr₁
      rw [htake]
      cases hjoined : isDate (s.takeWhile isBareValue) && c.isDigit with
      | false => rfl
      | true => exact absurd ⟨c, r₂, hr₁, hjoined⟩ h
    apply (span_toQuote isBareValue s).congr
    · rw [hsingle s rfl (.same _), drop_length_takeWhile]
    · intro s' cs left left' _ hleft h h'
      cases h
      obtain ⟨htake, rfl⟩ := Prod.mk.inj (Except.ok.inj h')
      show Except.ok (bareText s', s'.drop (bareText s').length) = _
      rw [hsingle s' htake hleft, drop_length_takeWhile, htake]

theorem bareValue_toQuote (s : List Char) : ToQuote (fun s => (bareValue s).outcome) s := by
  refine ToQuote.of_alike ?_ fun s' _ => outcome_bareValue s'
  apply (bareText_toQuote s).bind
  intro found left _
  dsimp only
  cases scalar? found with
  | none => exact .of_error rfl
  | some t =>
    by_cases hnil : found = []
    · exact .of_error (if_pos hnil)
    · simp only [if_neg hnil]
      exact .give t left

/-- The two quotes that would make a text one between triple quotes are not there. -/
theorem ne_of_take {q : Char} {r r' : List Char} (h : ¬∃ t, r = q :: q :: t)
    (htake : r'.take 2 = r.take 2) (t : List Char) : r' ≠ q :: q :: t := by
  rintro rfl
  apply h
  refine ⟨r.drop 2, ?_⟩
  rw [← List.take_append_drop 2 r, ← htake]
  simp

mutual
theorem value_toQuote (room : Nat) (s : List Char) :
    ToQuote (fun s => (value room s).outcome) s := by
  by_cases hquote : s.head? = some '"'
  · obtain ⟨r, rfl⟩ := List.head?_eq_some_iff.1 hquote
    by_cases htriple : ∃ r', r = '"' :: '"' :: r'
    · obtain ⟨r', rfl⟩ := htriple
      show ToQuote _ (['"', '"', '"'] ++ r')
      exact ToQuote.append ((ToQuote.after (skipBreak_toQuote r') (tripleTail_toQuote _)).map
        fun cs => Toml.text (String.ofList cs)) fun r _ => outcome_value_triple room r
    · exact ToQuote.cons_of_take (k := fun cs => Toml.text (String.ofList cs))
        (quotedTail_toQuote r) fun r' htake => outcome_value_quoted room (ne_of_take htriple htake)
  · by_cases hliteral : s.head? = some '\''
    · obtain ⟨r, rfl⟩ := List.head?_eq_some_iff.1 hliteral
      by_cases htriple : ∃ r', r = '\'' :: '\'' :: r'
      · obtain ⟨r', rfl⟩ := htriple
        show ToQuote _ (['\'', '\'', '\''] ++ r')
        exact ToQuote.append
          ((ToQuote.after (skipBreak_toQuote r') (tripleLiteralTail_toQuote _)).map
            fun cs => Toml.text (String.ofList cs)) fun r _ => outcome_value_tripleLiteral room r
      · exact ToQuote.cons_of_take (k := fun cs => Toml.text (String.ofList cs))
          (literalTail_toQuote r)
          fun r' htake => outcome_value_literal room (ne_of_take htriple htake)
    · by_cases harray : room ≠ 0 ∧ s.head? = some '['
      · obtain ⟨hroom, hhead⟩ := harray
        obtain ⟨room, rfl⟩ := Nat.exists_eq_succ_of_ne_zero hroom
        obtain ⟨r, hr⟩ := List.head?_eq_some_iff.1 hhead
        have hlength : s.length = r.length + 1 := congrArg List.length hr
        have := (skipLines r).length_le
        rw [hr]
        have hitems := ToQuote.after (skipLines_toQuote r) (arrayItems_toQuote room _)
        exact (hitems.map Toml.array).cons (outcome_value_array room)
      · by_cases hbraces : room ≠ 0 ∧ s.head? = some '\x7b'
        · obtain ⟨hroom, hhead⟩ := hbraces
          obtain ⟨room, rfl⟩ := Nat.exists_eq_succ_of_ne_zero hroom
          obtain ⟨r, hr⟩ := List.head?_eq_some_iff.1 hhead
          have hlength : s.length = r.length + 1 := congrArg List.length hr
          have := (skipLines r).length_le
          rw [hr]
          exact ((ToQuote.after (skipLines_toQuote r) (bracesMembers_toQuote room [] _)).map
            (Toml.table .braces)).cons (outcome_value_braces room)
        · apply (bareValue_toQuote s).of_alike
          intro s' hs'
          rw [← hs'.head?_eq] at hquote hliteral harray hbraces
          rw [value_eq_bareValue hquote hliteral harray hbraces]
termination_by 3 * s.length
theorem arrayItems_toQuote (room : Nat) (s : List Char) :
    ToQuote (fun s => (arrayItems room s).outcome) s := by
  by_cases hclose : s.head? = some ']'
  · obtain ⟨r, rfl⟩ := List.head?_eq_some_iff.1 hclose
    exact (GivesByFront.give [] r).cons (outcome_arrayItems_close room)
  · refine ToQuote.of_alike ?_ fun s' hs' => outcome_arrayItems room (hs'.head?_eq ▸ hclose)
    apply (value_toQuote room s).bind
    intro item left hleft
    have := Reading.length_lt hleft
    have := (skipLines left).length_le
    exact (ToQuote.after (skipLines_toQuote left) (arrayTail_toQuote room _)).map _
termination_by 3 * s.length + 1
theorem arrayTail_toQuote (room : Nat) (s : List Char) :
    ToQuote (fun s => (arrayTail room s).outcome) s := by
  by_cases hclose : s.head? = some ']'
  · obtain ⟨r, rfl⟩ := List.head?_eq_some_iff.1 hclose
    exact (GivesByFront.give [] r).cons (outcome_arrayTail_close room)
  · by_cases hcomma : s.head? = some ','
    · obtain ⟨r, hr⟩ := List.head?_eq_some_iff.1 hcomma
      have hlength : s.length = r.length + 1 := congrArg List.length hr
      have := (skipLines r).length_le
      rw [hr]
      exact (ToQuote.after (skipLines_toQuote r) (arrayItems_toQuote room _)).cons
        (outcome_arrayTail_comma room)
    · exact .of_error (outcome_arrayTail_error room hclose hcomma)
termination_by 3 * s.length + 2
theorem bracesMembers_toQuote (room : Nat) (members : Members) (s : List Char) :
    ToQuote (fun s => (bracesMembers room members s).outcome) s := by
  by_cases hclose : s.head? = some '\x7d'
  · obtain ⟨r, rfl⟩ := List.head?_eq_some_iff.1 hclose
    exact (GivesByFront.give members r).cons (outcome_bracesMembers_close room members)
  · refine ToQuote.of_alike ?_ fun s' hs' =>
      outcome_bracesMembers room members (hs'.head?_eq ▸ hclose)
    apply (key_toQuote s).bind
    intro name left hname
    apply (ToQuote.after (skipLines_toQuote left) (expect_toQuote '=' _)).bind
    intro _ left₂ hequals
    have h₁ := Reading.length_lt hname
    have h₂ := Reading.length_lt hequals
    have h₃ := (skipLines left).length_le
    have h₄ := (skipLines left₂).length_le
    apply (ToQuote.after (skipLines_toQuote left₂) (value_toQuote room _)).bind
    intro found left₃ hfound
    have h₅ := Reading.length_lt hfound
    have h₆ := (skipLines left₃).length_le
    dsimp only
    cases assign name.1 name.2 found members with
    | none => exact .of_error rfl
    | some members =>
      exact ToQuote.after (skipLines_toQuote left₃) (bracesTail_toQuote room members _)
termination_by 3 * s.length + 1
theorem bracesTail_toQuote (room : Nat) (members : Members) (s : List Char) :
    ToQuote (fun s => (bracesTail room members s).outcome) s := by
  by_cases hclose : s.head? = some '\x7d'
  · obtain ⟨r, rfl⟩ := List.head?_eq_some_iff.1 hclose
    exact (GivesByFront.give members r).cons (outcome_bracesTail_close room members)
  · by_cases hcomma : s.head? = some ','
    · obtain ⟨r, hr⟩ := List.head?_eq_some_iff.1 hcomma
      have hlength : s.length = r.length + 1 := congrArg List.length hr
      have := (skipLines r).length_le
      rw [hr]
      exact (ToQuote.after (skipLines_toQuote r) (bracesMembers_toQuote room members _)).cons
        (outcome_bracesTail_comma room members)
    · exact .of_error (outcome_bracesTail_error room members hclose hcomma)
termination_by 3 * s.length + 2
end

/-! ## Section 6: Lines -/

theorem headerKey_toQuote (s : List Char) : ToQuote (fun s => (headerKey s).outcome) s := by
  refine ToQuote.of_alike ?_ fun s' _ => outcome_headerKey s'
  apply (ToQuote.after (dropWhile_toQuote isSpace s) (key_toQuote _)).bind
  intro name left _
  exact (ToQuote.after (dropWhile_toQuote isSpace left) (expect_toQuote ']' _)).map
    fun _ => splitKey name.1 name.2

theorem line_toQuote (s : List Char) : ToQuote (fun s => (line s).outcome) s := by
  cases s with
  | nil =>
    apply ToQuote.of_alike (.give Line.blank [])
    rintro s' ⟨⟩
    rfl
  | cons c r =>
    by_cases hc : c = '['
    · subst hc
      by_cases hitem : r.head? = some '['
      · obtain ⟨r, rfl⟩ := List.head?_eq_some_iff.1 hitem
        show ToQuote _ (['[', '['] ++ r)
        refine ToQuote.append ?_ fun r' _ => outcome_line_item r'
        exact (headerKey_toQuote r).bind fun name left _ =>
          (expect_toQuote ']' left).map fun _ => Line.item name.1 name.2
      · show ToQuote _ (['['] ++ r)
        refine ToQuote.append ?_ fun r' hr' => outcome_line_header (hr'.head?_eq ▸ hitem)
        exact (headerKey_toQuote r).map fun name => Line.header name.1 name.2
    · by_cases hblank : c = '#' ∨ c = '\n' ∨ c = '\r'
      · exact ToQuote.of_alike (.give Line.blank (c :: r)) fun s' hs' =>
          outcome_line_blank hs'.head?_eq hblank
      · refine ToQuote.of_alike ?_ fun s' hs' => outcome_line_entry hs'.head?_eq hc hblank
        apply (key_toQuote _).bind
        intro name left _
        apply (ToQuote.after (dropWhile_toQuote isSpace left) (expect_toQuote '=' _)).bind
        intro _ left _
        exact (ToQuote.after (dropWhile_toQuote isSpace left) (value_toQuote depthLimit _)).map
          fun found => Line.entry name.1 name.2 found

end TypeCatalog.Toml
