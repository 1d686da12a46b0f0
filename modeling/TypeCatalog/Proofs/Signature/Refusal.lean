import TypeCatalog.Proofs.Lookahead
import TypeCatalog.Proofs.Signature.Parts
import TypeCatalog.Proofs.Text.Offsets

/-! # Where and why a text is refused

    A reader that fails tells what was left. What it tells is a suffix of the text it was given, so
    the offset of the fault is the size of a front of the text: it lies within the text and never
    inside a character. And the fault is found without looking past the byte at that offset: every
    text with the same bytes up to there is refused for the same reason.

    `FrontHalts` says both of a reader at one text, and `FrontDecides` that what it gives is found
    in the same way. They pass through the sequence of two readers and through lists, so every
    reader of signatures has them by its equation. -/

set_option autoImplicit false

namespace TypeCatalog.Signature

open Text.Utf8 (StartAlike)

/-! ## Section 1: Readers that see one byte of what follows -/

section rules

variable {α β γ δ : Type} {s : List Char}

/-- Why `f` fails on `s` is decided by what it takes and by the byte after that. -/
structure FrontHalts (f : List Char → Except Halt γ) (s : List Char) : Prop where
  /-- A failure leaves a suffix. -/
  within {h : Halt} : f s = .error h → h.left <:+ s
  /-- A failure does not depend on what is left but for its first byte. -/
  halts {before after u u' : List Char} {fault : SignatureFault} : StartAlike u u' →
    s = before ++ u → f s = .error ⟨fault, after ++ u⟩ →
    f (before ++ u') = .error ⟨fault, after ++ u'⟩

/-- What `f` gives for `s`, and why it fails on it, is decided by what it takes and by the byte
    after that. -/
structure FrontDecides (f : List Char → Except Halt (α × List Char)) (s : List Char) : Prop
    extends GivesByFront StartAlike f s, FrontHalts f s

namespace FrontHalts

variable {f g : List Char → Except Halt γ}

/-- A reader that fails where it stands. -/
theorem halt (fault : SignatureFault) (s : List Char) :
    FrontHalts (fun s => (.error ⟨fault, s⟩ : Except Halt γ)) s where
  within h := by
    cases h
    exact List.suffix_refl s
  halts _ hs h := by
    obtain ⟨rfl, hleft⟩ := Halt.mk.inj (Except.error.inj h)
    rw [hs] at hleft
    rw [List.append_cancel_right hleft]

theorem of_ok {c : γ} (h : f s = .ok c) : FrontHalts f s where
  within herror := by
    rw [h] at herror
    cases herror
  halts _ _ herror := by
    rw [h] at herror
    cases herror

theorem bind {f : List Char → Except Halt (α × List Char)} {k : α × List Char → Except Halt γ}
    (hf : FrontDecides f s)
    (hk : ∀ a left, f s = .ok (a, left) → FrontHalts (fun left => k (a, left)) left) :
    FrontHalts (fun s => (f s).bind k) s where
  within h := by
    obtain hfirst | ⟨⟨a, mid⟩, ha, hsecond⟩ := bind_eq_error.1 h
    · exact hf.within hfirst
    · exact ((hk a mid ha).within hsecond).trans (hf.suffix ha)
  halts {before after u u' fault} hu hs h := by
    obtain hfirst | ⟨⟨a, mid⟩, ha, hsecond⟩ := bind_eq_error.1 h
    · exact bind_eq_error.2 (.inl (hf.halts hu hs hfirst))
    · -- The first reader did not get past `u`, since the second one stopped there.
      obtain ⟨taken, rfl⟩ := (hk a mid ha).within hsecond
      rw [← List.append_assoc] at ha hsecond
      have hsame := (hk a _ ha).halts hu rfl hsecond
      exact bind_eq_error.2 (.inr ⟨(a, taken ++ after ++ u'), hf.gives hu hs ha, hsame⟩)

theorem map (k : List Char → γ → δ) (hf : FrontHalts f s) :
    FrontHalts (fun s => (f s).map (k s)) s where
  within h := hf.within (map_eq_error.1 h)
  halts hu hs h := map_eq_error.2 (hf.halts hu hs (map_eq_error.1 h))

/-- A character is taken first. -/
theorem cons {c : Char} {r : List Char} (hg : FrontHalts g r) (hfg : ∀ r, f (c :: r) = g r) :
    FrontHalts f (c :: r) where
  within h := by
    rw [hfg] at h
    exact (hg.within h).trans (List.suffix_cons c r)
  halts {before after u u' fault} hu hs h := by
    rw [hfg] at h
    cases before with
    | nil =>
      -- There is not as much left as `u` is long.
      have hlength := (hg.within h).length_le
      rw [List.nil_append] at hs
      rw [← hs] at hlength
      simp only [List.length_append, List.length_cons] at hlength
      omega
    | cons b before =>
      obtain ⟨rfl, rfl⟩ := List.cons.inj hs
      rw [List.cons_append, hfg]
      exact hg.halts hu rfl h

/-- Another reader that does the same on every text with the same first byte. -/
theorem congr (hg : FrontHalts g s) (hfg : ∀ s', StartAlike s s' → f s' = g s') :
    FrontHalts f s where
  within h := hg.within (hfg s (.refl s) ▸ h)
  halts {before after u u' fault} hu hs h := by
    rw [hfg _ (hs ▸ hu.append_left before)]
    exact hg.halts hu hs (hfg s (.refl s) ▸ h)

end FrontHalts

namespace FrontDecides

variable {f g : List Char → Except Halt (α × List Char)}

/-- A reader that takes nothing. -/
theorem give (a : α) (s : List Char) : FrontDecides (fun s => .ok (a, s)) s :=
  ⟨.give a s, .of_ok rfl⟩

theorem halt (fault : SignatureFault) (s : List Char) :
    FrontDecides (fun s => (.error ⟨fault, s⟩ : Except Halt (α × List Char))) s :=
  ⟨.of_error rfl, .halt fault s⟩

theorem bind {k : α × List Char → Except Halt (β × List Char)} (hf : FrontDecides f s)
    (hk : ∀ a left, f s = .ok (a, left) → FrontDecides (fun left => k (a, left)) left) :
    FrontDecides (fun s => (f s).bind k) s :=
  ⟨hf.toGivesByFront.bind fun a left ha => (hk a left ha).toGivesByFront,
    .bind hf fun a left ha => (hk a left ha).toFrontHalts⟩

theorem map (k : α → β) (hf : FrontDecides f s) :
    FrontDecides (fun s => (f s).map fun (a, left) => (k a, left)) s :=
  ⟨hf.toGivesByFront.map k, hf.toFrontHalts.map _⟩

/-- The text that is taken. -/
theorem taken (hf : FrontDecides f s) :
    FrontDecides (fun s => (f s).map fun (_, left) => (String.ofList (takenBefore s left), left))
      s :=
  ⟨hf.toGivesByFront.taken, hf.toFrontHalts.map _⟩

/-- A character is taken first. -/
theorem cons {c : Char} {r : List Char} (hg : FrontDecides g r) (hfg : ∀ r, f (c :: r) = g r) :
    FrontDecides f (c :: r) :=
  ⟨hg.toGivesByFront.cons hfg, hg.toFrontHalts.cons hfg⟩

/-- Another reader that does the same on every text with the same first byte. -/
theorem congr (hg : FrontDecides g s) (hfg : ∀ s', StartAlike s s' → f s' = g s') :
    FrontDecides f s where
  toGivesByFront := hg.toGivesByFront.congr (hfg s (.refl s))
    fun before _ _ _ _ hu hs _ h => by rwa [hfg _ (hs ▸ hu.append_left before)]
  toFrontHalts := hg.toFrontHalts.congr hfg

end FrontDecides

end rules

/-! ## Section 2: Readers of types -/

theorem expect_frontDecides {wanted : Char} (hwanted : wanted.toNat < 0x80) (s : List Char) :
    FrontDecides (fun s => (expect wanted s).outcome) s := by
  cases s with
  | nil =>
    apply (FrontDecides.halt (.expectedBeforeEnd wanted) []).congr
    intro s' hs'
    rw [hs'.eq_nil]
    rfl
  | cons c r =>
    by_cases hc : c = wanted
    · subst hc
      exact (FrontDecides.give () r).cons fun r => outcome_expect c r
    · apply (FrontDecides.halt (.expected wanted (Text.Utf8.leadByte c)) (c :: r)).congr
      intro s' hs'
      obtain ⟨c', r', rfl, hlead, hsame⟩ := hs'.exists_cons
      have hc' : c' ≠ wanted := fun h => hc ((hsame wanted hwanted).1 h)
      simp only [expect, if_neg hc', hlead]
      rfl

/-- What ends a name is one of the first 128 characters. -/
def EndsEarly (ends : Char → Bool) : Prop := ∀ c, ends c = true → c.toNat < 0x80

theorem EndsAt.endsEarly {ends : Char → Bool} {delimiters : List Char}
    (h : EndsAt ends delimiters) (hlow : ∀ d ∈ delimiters, d.toNat < 0x80) : EndsEarly ends :=
  fun c hc => hlow c ((h c).1 hc)

theorem EndsEarly.eq {ends : Char → Bool} (h : EndsEarly ends) {c c' : Char}
    (hsame : ∀ k : Char, k.toNat < 0x80 → (c' = k ↔ c = k)) : ends c' = ends c := by
  by_cases hc : ends c
  · rw [(hsame c (h c hc)).2 rfl]
  by_cases hc' : ends c'
  · rw [(hsame c' (h c' hc')).1 rfl]
  · rw [Bool.eq_false_iff.2 hc, Bool.eq_false_iff.2 hc']

/-- The characters of a name after the first one. -/
theorem takeWhile_frontDecides {ends : Char → Bool} (hends : EndsEarly ends) (s : List Char) :
    FrontDecides (fun s => .ok (s.takeWhile (!ends ·), s.dropWhile (!ends ·))) s := by
  induction s with
  | nil =>
    apply (FrontDecides.give [] []).congr
    intro s' hs'
    rw [hs'.eq_nil]
    rfl
  | cons c r ih =>
    by_cases hc : ends c
    · apply (FrontDecides.give [] (c :: r)).congr
      intro s' hs'
      obtain ⟨c', r', rfl, -, hsame⟩ := hs'.exists_cons
      simp [hends.eq hsame, hc]
    · apply (ih.map (c :: ·)).cons
      intro r'
      simp [hc, Except.map]

theorem name_frontDecides {ends : Char → Bool} (hends : EndsEarly ends) (s : List Char) :
    FrontDecides (fun s => (name ends s).outcome) s := by
  cases s with
  | nil =>
    apply (FrontDecides.halt .nameMissing []).congr
    intro s' hs'
    rw [hs'.eq_nil]
    rfl
  | cons c r =>
    by_cases hc : ends c
    · apply (FrontDecides.halt .nameMissing (c :: r)).congr
      intro s' hs'
      obtain ⟨c', r', rfl, -, hsame⟩ := hs'.exists_cons
      have hc' : ends c' = true := by rw [hends.eq hsame, hc]
      simp only [name, if_pos hc']
      rfl
    · apply ((takeWhile_frontDecides hends r).map fun cs => String.ofList (c :: cs)).cons
      intro r'
      simp only [name, if_neg hc]
      rfl

theorem endsEarly_segment : EndsEarly endsSegment := endsAt_segment.endsEarly (by simp)

theorem endsEarly_variable : EndsEarly endsVariable := endsAt_variable.endsEarly (by simp)

theorem endsEarly_declared : EndsEarly endsDeclared := endsAt_declared.endsEarly (by simp)

theorem toNat_letter_lt (p : Primitive) : p.letter.toNat < 0x80 := by
  cases p <;> decide

mutual
/-- The measure is that of `type_sound`. -/
theorem type_frontDecides (s : List Char) : FrontDecides (fun s => (type s).outcome) s := by
  rcases s with _ | ⟨c, r⟩
  · apply (FrontDecides.halt .typeMissing []).congr
    intro s' hs'
    rw [hs'.eq_nil]
    exact outcome_type_nil
  by_cases hb : c = '['
  · subst hb
    exact ((type_frontDecides r).map TypeSignature.array).cons outcome_type_array
  by_cases hl : c = 'L'
  · subst hl
    apply FrontDecides.cons _ outcome_type_class
    apply (name_frontDecides endsEarly_segment r).bind
    intro segment mid hn
    have hlt := Reading.length_lt hn
    exact classTail_frontDecides segment mid
  by_cases hv : c = 'T'
  · subst hv
    apply FrontDecides.cons _ outcome_type_variable
    apply (name_frontDecides endsEarly_variable r).bind
    intro word mid hn
    exact (expect_frontDecides (by decide) mid).map fun _ => TypeSignature.typeVariable word
  -- A letter is taken, and any other character is shown by its first byte.
  cases hp : Primitive.ofLetter? c with
  | some p =>
    apply (FrontDecides.give (TypeSignature.primitive p) r).cons
    intro r'
    rw [outcome_type_letter r' hb hl hv, hp]
  | none =>
    apply (FrontDecides.halt (.notAType (Text.Utf8.leadByte c)) (c :: r)).congr
    intro s' hs'
    obtain ⟨c', r', rfl, hlead, hsame⟩ := hs'.exists_cons
    have hp' : Primitive.ofLetter? c' = none := by
      rw [Option.eq_none_iff_forall_not_mem]
      intro p hp'
      have hc' := Primitive.ofLetter?_eq_some_iff.1 hp'
      rw [(hsame p.letter (toNat_letter_lt p)).1 hc', Primitive.ofLetter?_letter] at hp
      cases hp
    rw [outcome_type_letter r' (fun h => hb ((hsame '[' (by decide)).1 h))
      (fun h => hl ((hsame 'L' (by decide)).1 h)) (fun h => hv ((hsame 'T' (by decide)).1 h)), hp',
      hlead]
termination_by 4 * s.length
decreasing_by
  all_goals
    simp only [List.length_cons]
    omega
theorem classTail_frontDecides (segments : String) (s : List Char) :
    FrontDecides (fun s => (classTail segments s).outcome) s := by
  by_cases hb : s.head? = some '<'
  · obtain ⟨r, hs⟩ := List.head?_eq_some_iff.1 hb
    have hlen : r.length < s.length := by simp [hs]
    rw [hs]
    apply FrontDecides.cons _ (outcome_classTail_bracket segments)
    apply (argumentList_frontDecides r).bind
    intro as mid ha
    have hmid : mid.length < s.length := Nat.lt_trans (Reading.length_lt ha) hlen
    exact classEnd_frontDecides segments as mid
  · apply (classEnd_frontDecides segments [] s).congr
    intro s' hs'
    exact outcome_classTail segments fun h => hb ((hs'.head?_eq (by decide)).1 h)
termination_by 4 * s.length + 1
theorem classEnd_frontDecides (segments : String) (as : List TypeArgument) (s : List Char) :
    FrontDecides (fun s => (classEnd segments as s).outcome) s := by
  rcases s with _ | ⟨c, r⟩
  · apply (FrontDecides.halt .classUnfinished []).congr
    intro s' hs'
    rw [hs'.eq_nil]
    exact outcome_classEnd_nil segments as
  by_cases hc : c = ';'
  · subst hc
    exact (FrontDecides.give _ r).cons (outcome_classEnd_close segments as)
  by_cases hi : c = '.'
  · subst hi
    apply FrontDecides.cons _ (outcome_classEnd_inner segments as)
    apply (name_frontDecides endsEarly_segment r).bind
    intro segment mid hn
    have hlt := Reading.length_lt hn
    exact classTail_frontDecides (nest segments segment) mid
  · apply (FrontDecides.halt (.notInClass (Text.Utf8.leadByte c)) (c :: r)).congr
    intro s' hs'
    obtain ⟨c', r', rfl, hlead, hsame⟩ := hs'.exists_cons
    rw [outcome_classEnd_other segments as r' (fun h => hc ((hsame ';' (by decide)).1 h))
      (fun h => hi ((hsame '.' (by decide)).1 h)), hlead]
termination_by 4 * s.length
decreasing_by
  all_goals
    simp only [List.length_cons]
    omega
theorem argumentList_frontDecides (s : List Char) :
    FrontDecides (fun s => (argumentList s).outcome) s := by
  by_cases hb : s.head? = some '>'
  -- Empty brackets are refused after the closing one.
  · obtain ⟨r, rfl⟩ := List.head?_eq_some_iff.1 hb
    exact (FrontDecides.halt .argumentsEmpty r).cons outcome_argumentList_close
  · apply (arguments_frontDecides s).congr
    intro s' hs'
    exact outcome_argumentList fun h => hb ((hs'.head?_eq (by decide)).1 h)
termination_by 4 * s.length + 3
theorem arguments_frontDecides (s : List Char) :
    FrontDecides (fun s => (arguments s).outcome) s := by
  apply FrontDecides.congr _ fun s' _ => outcome_arguments s'
  apply (argument_frontDecides s).bind
  intro a mid ha
  have hlt := Reading.length_lt ha
  by_cases hb : mid.head? = some '>'
  · obtain ⟨r, rfl⟩ := List.head?_eq_some_iff.1 hb
    exact (FrontDecides.give [a] r).cons fun _ => rfl
  · apply ((arguments_frontDecides mid).map (a :: ·)).congr
    intro s' hs'
    have hb' : s'.head? ≠ some '>' := fun h => hb ((hs'.head?_eq (by decide)).1 h)
    dsimp only
    split
    · exact absurd List.head?_cons hb'
    · rfl
termination_by 4 * s.length + 2
theorem argument_frontDecides (s : List Char) :
    FrontDecides (fun s => (argument s).outcome) s := by
  rcases s with _ | ⟨c, r⟩
  · apply (FrontDecides.halt .argumentsUnfinished []).congr
    intro s' hs'
    rw [hs'.eq_nil]
    exact outcome_argument_nil
  by_cases ha : c = '*'
  · subst ha
    exact (FrontDecides.give .any r).cons outcome_argument_any
  by_cases hu : c = '+'
  · subst hu
    exact ((type_frontDecides r).map TypeArgument.upper).cons outcome_argument_upper
  by_cases hl : c = '-'
  · subst hl
    exact ((type_frontDecides r).map TypeArgument.lower).cons outcome_argument_lower
  · apply ((type_frontDecides (c :: r)).map TypeArgument.exactly).congr
    intro s' hs'
    obtain ⟨c', r', rfl, -, hsame⟩ := hs'.exists_cons
    exact outcome_argument_exactly r' (fun h => ha ((hsame '*' (by decide)).1 h))
      (fun h => hu ((hsame '+' (by decide)).1 h)) fun h => hl ((hsame '-' (by decide)).1 h)
termination_by 4 * s.length + 1
decreasing_by
  all_goals
    simp only [List.length_cons]
    omega
end

/-! ## Section 3: Lists -/

theorem typeText_frontDecides (s : List Char) :
    FrontDecides (fun s => (typeText s).outcome) s :=
  (type_frontDecides s).taken.congr fun s' _ => outcome_typeText s'

section lists

variable {α : Type}

theorem ReadsMarked.frontDecides {mark : Char} {item : String → α}
    {f : List Char → Except Halt (List α × List Char)} (hf : ReadsMarked mark item f)
    (hmark : mark.toNat < 0x80) (s : List Char) : FrontDecides f s := by
  by_cases hhead : s.head? = some mark
  · obtain ⟨r, hs⟩ := List.head?_eq_some_iff.1 hhead
    rw [hs]
    apply FrontDecides.cons _ hf.more
    apply (typeText_frontDecides r).bind
    intro text mid htext
    have hlength : mid.length < s.length := by
      have := Reading.length_lt htext
      rw [hs, List.length_cons]
      omega
    exact (hf.frontDecides hmark mid).map (item text :: ·)
  · apply (FrontDecides.give [] s).congr
    intro s' hs'
    exact hf.stop s' fun h => hhead ((hs'.head?_eq hmark).1 h)
termination_by s.length

theorem ReadsUntil.frontDecides {closing : Char} {item : List Char → Except Halt (α × List Char)}
    {f : List Char → Except Halt (List α × List Char)} {text : α → List Char} {valid : α → Prop}
    {stops : List Char → Prop} (hf : ReadsUntil closing item f)
    (hitem : ItemTexts closing item text valid stops) (hclosing : closing.toNat < 0x80)
    (hnil : FrontDecides f []) (hitems : ∀ s, FrontDecides item s) (s : List Char) :
    FrontDecides f s := by
  rcases hs : s with _ | ⟨c, r⟩
  · exact hnil
  by_cases hc : c = closing
  · subst hc
    exact (FrontDecides.give [] r).cons hf.close
  · apply ((hitems (c :: r)).bind _).congr
    · intro s' hs'
      obtain ⟨c', r', rfl, -, hsame⟩ := hs'.exists_cons
      exact hf.more c' r' fun h => hc ((hsame closing hclosing).1 h)
    · intro x mid hx
      obtain ⟨hvalid, hsplit, -⟩ := (hitem.reads _ _ _).1 hx
      obtain ⟨d, r', hstart, -⟩ := hitem.starts x hvalid
      have hlength : mid.length < s.length := by
        rw [hs, hsplit, hstart, List.cons_append, List.length_cons, List.length_append]
        omega
      exact (hf.frontDecides hitem hclosing hnil hitems mid).map (x :: ·)
termination_by s.length
decreasing_by exact hs ▸ hlength

end lists

theorem bounds_frontDecides (s : List Char) : FrontDecides (fun s => (bounds s).outcome) s := by
  have hinterfaces := readsMarked_interfaceBounds.frontDecides (by decide)
  by_cases hb : s.head? = some ':'
  · apply (hinterfaces s).congr
    intro s' hs'
    obtain ⟨r', rfl⟩ := List.head?_eq_some_iff.1 ((hs'.head?_eq (by decide)).2 hb)
    exact outcome_bounds_interface r'
  · apply ((typeText_frontDecides s).bind _).congr
    · intro s' hs'
      exact outcome_bounds_class fun h => hb ((hs'.head?_eq (by decide)).1 h)
    · intro text mid _
      exact (hinterfaces mid).map fun others => ⟨.classBound, text⟩ :: others

theorem declaredVariable_frontDecides (s : List Char) : FrontDecides declaredVariable s := by
  apply (name_frontDecides endsEarly_declared s).bind
  intro word mid _
  apply (expect_frontDecides (by decide) mid).bind
  intro _ mid' _
  exact (bounds_frontDecides mid').map (TypeVariable.mk word)

theorem typeVariables_frontDecides (s : List Char) :
    FrontDecides (fun s => (typeVariables s).outcome) s := by
  apply readsUntil_typeVariables.frontDecides itemTexts_declaredVariable (by decide) _
    declaredVariable_frontDecides
  apply (FrontDecides.halt .variablesUnfinished []).congr
  intro s' hs'
  rw [hs'.eq_nil, typeVariables]
  rfl

theorem variableList_frontDecides (s : List Char) :
    FrontDecides (fun s => (variableList s).outcome) s := by
  apply FrontDecides.congr _ fun s' _ => outcome_variableList s'
  apply (expect_frontDecides (by decide) s).bind
  intro _ mid _
  apply (typeVariables_frontDecides mid).bind
  intro found mid' _
  -- An empty list is refused after its closing bracket.
  cases found with
  | nil => exact .halt .variablesEmpty mid'
  | cons v vs => exact .give (v :: vs) mid'

theorem optionalVariableList_frontDecides (s : List Char) :
    FrontDecides (fun s => (optionalVariableList s).outcome) s := by
  by_cases hb : s.head? = some '<'
  · apply (variableList_frontDecides s).congr
    intro s' hs'
    obtain ⟨r', rfl⟩ := List.head?_eq_some_iff.1 ((hs'.head?_eq (by decide)).2 hb)
    exact outcome_optionalVariableList_bracket r'
  · apply (FrontDecides.give [] s).congr
    intro s' hs'
    exact outcome_optionalVariableList fun h => hb ((hs'.head?_eq (by decide)).1 h)

theorem parameters_frontDecides (s : List Char) :
    FrontDecides (fun s => (parameters s).outcome) s := by
  apply readsUntil_parameters.frontDecides itemTexts_typeText (by decide) _ typeText_frontDecides
  apply (FrontDecides.halt .parametersUnfinished []).congr
  intro s' hs'
  rw [hs'.eq_nil, parameters]
  rfl

/-! ## Section 4: Readers to the end of a text -/

theorem finish_frontHalts (s : List Char) : FrontHalts finish s := by
  cases s with
  | nil => exact .of_ok rfl
  | cons c r =>
    apply (FrontHalts.halt .trailing (c :: r)).congr
    intro s' hs'
    obtain ⟨c', r', rfl, -⟩ := hs'.exists_cons
    rfl

theorem typeTexts_frontHalts (s : List Char) : FrontHalts typeTexts s := by
  rcases hs : s with _ | ⟨c, r⟩
  · apply FrontHalts.of_ok
    rw [typeTexts]
  · apply (FrontHalts.bind (typeText_frontDecides (c :: r)) _).congr
    · intro s' hs'
      obtain ⟨c', r', rfl, -⟩ := hs'.exists_cons
      exact typeTexts_cons c' r'
    · intro t mid ht
      have hlength : mid.length < s.length := hs ▸ Reading.length_lt ht
      exact (typeTexts_frontHalts mid).map fun _ ts => t :: ts
termination_by s.length
decreasing_by exact hs ▸ hlength

theorem part_frontDecides (c : Char) (r : List Char) :
    FrontDecides (fun s => (part s).outcome) (c :: r) := by
  apply ((argument_frontDecides (c :: r)).map fun _ => ()).congr
  intro s' hs'
  obtain ⟨c', r', rfl, -⟩ := hs'.exists_cons
  exact outcome_part c' r'

theorem parts_frontHalts (s : List Char) : FrontHalts parts s := by
  rcases hs : s with _ | ⟨c, r⟩
  · apply FrontHalts.of_ok
    rw [parts]
  · apply (FrontHalts.bind (k := fun p => (parts p.2).map (p.1 :: ·))
      (part_frontDecides c r).taken _).congr
    · intro s' hs'
      obtain ⟨c', r', rfl, -⟩ := hs'.exists_cons
      rw [parts_cons, bind_map]
    · intro text mid htext
      obtain ⟨⟨_, mid'⟩, hpart, heq⟩ := map_eq_ok.1 htext
      obtain rfl := (Prod.mk.inj heq).2
      have hlength : mid'.length < s.length := hs ▸ Reading.length_lt hpart
      exact (parts_frontHalts mid').map fun _ texts => text :: texts
termination_by s.length
decreasing_by exact hs ▸ hlength

theorem wholeType_eq (s : List Char) :
    wholeType s = (type s).outcome.bind fun (t, left) => (finish left).map fun _ => t := by
  refine Reading.bind_congr fun t left => ?_
  cases finish left.left <;> rfl

theorem wholeType_frontHalts (s : List Char) : FrontHalts wholeType s := by
  apply (FrontHalts.bind (type_frontDecides s) _).congr fun s' _ => wholeType_eq s'
  intro t mid _
  exact (finish_frontHalts mid).map fun _ _ => t

theorem wholeVariableList_frontHalts (s : List Char) : FrontHalts wholeVariableList s := by
  apply (FrontHalts.bind (variableList_frontDecides s) _).congr fun s' _ => wholeVariableList_eq s'
  intro found mid _
  exact (finish_frontHalts mid).map fun _ _ => found

theorem classSignature_frontHalts (s : List Char) : FrontHalts ClassSignature.read s := by
  apply (FrontHalts.bind (optionalVariableList_frontDecides s) _).congr fun s' _ =>
    ClassSignature.read_eq s'
  intro vs mid _
  exact (typeTexts_frontHalts mid).map fun _ => ClassSignature.mk vs

theorem methodSignature_frontHalts (s : List Char) : FrontHalts MethodSignature.read s := by
  apply (FrontHalts.bind (optionalVariableList_frontDecides s) _).congr fun s' _ =>
    MethodSignature.read_eq s'
  intro vs left₁ _
  apply FrontHalts.bind (expect_frontDecides (by decide) left₁)
  intro _ left₂ _
  apply FrontHalts.bind (parameters_frontDecides left₂)
  intro ps left₃ _
  apply FrontHalts.bind (typeText_frontDecides left₃)
  intro result left₄ _
  apply FrontHalts.bind (readsMarked_exceptions.frontDecides (by decide) left₄)
  intro es left₅ _
  exact (finish_frontHalts left₅).map fun _ _ => MethodSignature.mk vs ps result es

/-! ## Section 5: Texts -/

/-- The count of bytes of a text is the size of its string. -/
theorem size_eq_utf8ByteSize (s : List Char) :
    Text.Utf8.size s = (String.ofList s).utf8ByteSize := by
  induction s with
  | nil => rfl
  | cons c s ih =>
    rw [Text.Utf8.size_cons, ih, ← List.singleton_append, String.ofList_append,
      String.utf8ByteSize_append]
    simp

section run

variable {α : Type} {f : List Char → Except Halt α} {text : String} {e : SignatureError}

/-- A text is refused at the end of one of its fronts, where the reader halts. -/
theorem exists_halt_of_run_eq_error (hf : FrontHalts f text.toList) (h : run f text = .error e) :
    e.signature = text ∧ ∃ before left : List Char, text.toList = before ++ left ∧
      e.offset = Text.Utf8.size before ∧ f text.toList = .error ⟨e.fault, left⟩ := by
  cases hread : f text.toList with
  | ok a =>
    unfold run at h
    rw [hread] at h
    cases h
  | error halt =>
    unfold run at h
    rw [hread] at h
    cases h
    obtain ⟨before, hbefore⟩ := hf.within hread
    refine ⟨rfl, before, halt.left, hbefore.symm, ?_, rfl⟩
    simp only [Halt.inText, ← hbefore, Text.Utf8.size_append]
    omega

theorem run_eq_error {before left : List Char} {fault : SignatureFault}
    (hsplit : text.toList = before ++ left) (h : f text.toList = .error ⟨fault, left⟩) :
    run f text = .error ⟨text, Text.Utf8.size before, fault⟩ := by
  unfold run
  rw [h]
  show Except.error (Halt.inText text ⟨fault, left⟩) = _
  simp [Halt.inText, hsplit]

/-- What `p` refuses it refuses within the text, and for a reason that no byte after the offset of
    the fault can change. -/
def RefusesByFront (p : String → Except SignatureError α) : Prop :=
  ∀ (text : String) (e : SignatureError), p text = .error e →
    e.signature = text ∧ e.offset ≤ text.utf8ByteSize ∧
    (e.offset < text.utf8ByteSize → ∀ other : String,
      (Text.Utf8.encode text.toList).take (e.offset + 1) <+: Text.Utf8.encode other.toList →
      p other = .error ⟨other, e.offset, e.fault⟩)

theorem run_refusesByFront (hf : ∀ s, FrontHalts f s) : RefusesByFront (run f) := by
  intro text e h
  obtain ⟨hsignature, before, left, hsplit, hoffset, hhalt⟩ :=
    exists_halt_of_run_eq_error (hf text.toList) h
  have hsize : text.utf8ByteSize = Text.Utf8.size before + Text.Utf8.size left := by
    rw [← Text.Utf8.size_append, ← hsplit, size_eq_utf8ByteSize, String.ofList_toList]
  refine ⟨hsignature, by omega, ?_⟩
  intro hinside other hsame
  have hleft : left ≠ [] := by
    rintro rfl
    simp only [Text.Utf8.size_nil] at hsize
    omega
  -- The other text has the front too, and goes on with the byte that the fault was found at.
  rw [hsplit, hoffset] at hsame
  obtain ⟨left', hsplit', hstart⟩ := Text.Utf8.exists_startAlike hleft hsame
  rw [hoffset]
  apply run_eq_error hsplit'
  rw [hsplit']
  exact (hf text.toList).halts hstart hsplit
    (show f text.toList = .error ⟨e.fault, [] ++ left⟩ from hhalt)

end run

/-- A text that is not a type is refused at the end of one of its fronts, and the refusal carries
    the text. -/
theorem of_parse_eq_error {text : String} {e : SignatureError}
    (h : TypeSignature.parse text = .error e) :
    e.signature = text ∧
      ∃ before after : String, text = before ++ after ∧ e.offset = before.utf8ByteSize := by
  obtain ⟨hsignature, before, left, hsplit, hoffset, -⟩ :=
    exists_halt_of_run_eq_error (wholeType_frontHalts text.toList) h
  refine ⟨hsignature, String.ofList before, String.ofList left, ?_, ?_⟩
  · rw [← String.ofList_append, ← hsplit, String.ofList_toList]
  · rw [hoffset, size_eq_utf8ByteSize]

/-- All five kinds of text are refused for what stands in front of the fault and for the one byte
    there. -/
theorem refused_by_front :
    RefusesByFront TypeSignature.parse ∧ RefusesByFront TypeVariable.parseList ∧
    RefusesByFront ClassSignature.parse ∧ RefusesByFront splitSignatures ∧
    RefusesByFront MethodSignature.parse :=
  ⟨run_refusesByFront wholeType_frontHalts, run_refusesByFront wholeVariableList_frontHalts,
    run_refusesByFront classSignature_frontHalts, run_refusesByFront parts_frontHalts,
    run_refusesByFront methodSignature_frontHalts⟩

/-- Empty brackets are refused at the byte after them, whatever comes after that byte. -/
theorem refused_by_front_brackets :
    TypeSignature.parse "LList<>;" = .error ⟨"LList<>;", 7, .argumentsEmpty⟩ ∧
    TypeSignature.parse "LList<>;é<" = .error ⟨"LList<>;é<", 7, .argumentsEmpty⟩ := by
  have hhalt : wholeType "LList<>;".toList = .error ⟨.argumentsEmpty, [';']⟩ := by cbv
  have hsplit : "LList<>;".toList = "LList<>".toList ++ [';'] := by decide
  have hrefused : TypeSignature.parse "LList<>;" = .error ⟨"LList<>;", 7, .argumentsEmpty⟩ :=
    run_eq_error hsplit hhalt
  obtain ⟨-, -, hother⟩ := refused_by_front.1 "LList<>;" _ hrefused
  exact ⟨hrefused, hother (by decide) "LList<>;é<" (by decide)⟩

end TypeCatalog.Signature
