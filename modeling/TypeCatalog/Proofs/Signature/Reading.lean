import TypeCatalog.Proofs.Outcome
import TypeCatalog.Proofs.Signature.Grammar
import TypeCatalog.Signature.Parse
import TypeCatalog.Text.Segment

/-! # The reader of types and the grammar

    The reader and the grammar agree in both directions, whatever text follows a type:

    * `type_complete`: a text that derives a type is read as that type, and what follows is left.
    * `type_sound`: what the reader takes off a text to give a type derives that type.

    The readers carry a proof that they leave a suffix. Here only the suffix matters, so each reader
    is first given an equation for its outcome, in which what is left is a plain list. -/

set_option autoImplicit false

namespace TypeCatalog.Signature

/-! ## Section 1: Outcomes -/

section outcome

variable {α : Type} {s : List Char}

/-- What a reading gives, with the text it leaves as a plain list. -/
def Reading.outcome (r : Reading α s) : Except Halt (α × List Char) :=
  r.map fun (a, t) => (a, t.left)

theorem Reading.outcome_ok (a : α) (t : Tail s) :
    Reading.outcome (.ok (a, t) : Reading α s) = .ok (a, t.left) := rfl

/-- A reading that gives something leaves less than there was. -/
theorem Reading.length_lt {r : Reading α s} {a : α} {left : List Char}
    (h : r.outcome = .ok (a, left)) : left.length < s.length := by
  cases r with
  | error e => cases h
  | ok p =>
    obtain ⟨b, t⟩ := p
    cases h
    exact t.lt

end outcome

/-! ## Section 2: Names and single characters -/

theorem outcome_expect (wanted : Char) (r : List Char) :
    (expect wanted (wanted :: r)).outcome = .ok ((), r) := by
  simp [expect, Reading.outcome, Except.map]

theorem eq_cons_of_expect {wanted : Char} {s left : List Char} {u : Unit}
    (h : (expect wanted s).outcome = .ok (u, left)) : s = wanted :: left := by
  cases s with
  | nil => cases h
  | cons c r =>
    by_cases hc : c = wanted
    · simp [expect, hc, Reading.outcome, Except.map] at h
      rw [hc, h]
    · simp [expect, hc, Reading.outcome, Except.map] at h

/-- A predicate that holds on the given delimiters and on nothing else. -/
def EndsAt (ends : Char → Bool) (delimiters : List Char) : Prop :=
  ∀ c, ends c = true ↔ c ∈ delimiters

theorem endsAt_variable : EndsAt endsVariable [';', '<', '>'] := by
  intro c
  simp [endsVariable, or_assoc]

theorem endsAt_segment : EndsAt endsSegment ['<', ';', '.'] := by
  intro c
  simp [endsSegment, or_assoc]

section names

variable {ends : Char → Bool} {delimiters : List Char}

/-- A name in front of a delimiter is read as that name. -/
theorem outcome_name (hends : EndsAt ends delimiters) {word : String}
    (hword : IsName delimiters word) {d : Char} (hd : d ∈ delimiters) (rest : List Char) :
    (name ends (word.toList ++ d :: rest)).outcome = .ok (word, d :: rest) := by
  obtain ⟨hne, havoid⟩ := hword
  have hgo : ∀ c ∈ word.toList, (!ends c) = true := by
    intro c hc
    have : ¬ends c = true := fun h => havoid c ((hends c).1 h) hc
    simpa using this
  cases hw : word.toList with
  | nil => exact absurd (String.toList_eq_nil_iff.1 hw) hne
  | cons c cs =>
    rw [hw] at hgo
    have hc : ends c = false := by simpa using hgo c (by simp)
    have hcs : ∀ a ∈ cs, (!ends a) = true := fun a ha => hgo a (by simp [ha])
    have hstop : (!ends d) = false := by simp [(hends d).2 hd]
    have htake : (cs ++ d :: rest).takeWhile (!ends ·) = cs := by
      rw [List.takeWhile_append_of_pos hcs, List.takeWhile_cons, hstop]
      simp
    have hdrop : (cs ++ d :: rest).dropWhile (!ends ·) = d :: rest := by
      rw [List.dropWhile_append_of_pos hcs, List.dropWhile_cons, hstop]
      simp
    simp [name, hc, Reading.outcome, Except.map, htake, Rest.dropWhile, hdrop, ← hw]

/-- What is read as a name is a name and stands in front of what is left. -/
theorem of_outcome_name (hends : EndsAt ends delimiters) {s left : List Char} {word : String}
    (h : (name ends s).outcome = .ok (word, left)) :
    IsName delimiters word ∧ s = word.toList ++ left := by
  cases s with
  | nil => cases h
  | cons c r =>
    by_cases hc : ends c
    · simp [name, hc, Reading.outcome, Except.map] at h
    · simp [name, hc, Reading.outcome, Except.map, Rest.dropWhile] at h
      obtain ⟨rfl, rfl⟩ := h
      refine ⟨⟨?_, ?_⟩, by simp⟩
      · intro hnil
        have := congrArg String.toList hnil
        simp at this
      · intro d hd hmem
        have hend := (hends d).2 hd
        have hmem : d = c ∨ d ∈ r.takeWhile (!ends ·) := by simpa using hmem
        rcases hmem with rfl | hmem
        · exact hc hend
        · have := Text.of_mem_takeWhile hmem
          simp [hend] at this

end names

/-! ## Section 3: One equation for each reader

    The equations are used in place of the definitions from here on. -/

theorem outcome_type_nil : (type []).outcome = .error ⟨.typeMissing, []⟩ := by
  rw [type]
  rfl

theorem outcome_type_array (r : List Char) :
    (type ('[' :: r)).outcome =
      (type r).outcome.map fun (element, left) => (.array element, left) := by
  rw [type]
  cases type r <;> rfl

theorem outcome_type_class (r : List Char) :
    (type ('L' :: r)).outcome =
      (name endsSegment r).outcome.bind fun (segment, left) =>
        (classTail segment left).outcome := by
  rw [type]
  cases name endsSegment r with
  | error h => rfl
  | ok p =>
    obtain ⟨segment, left⟩ := p
    simp only [bind, Except.bind, Reading.outcome_ok]
    cases classTail segment left.left <;> rfl

theorem outcome_type_variable (r : List Char) :
    (type ('T' :: r)).outcome =
      (name endsVariable r).outcome.bind fun (word, left) =>
        (expect ';' left).outcome.map fun (_, left') => (.typeVariable word, left') := by
  rw [type]
  cases name endsVariable r with
  | error h => rfl
  | ok p =>
    obtain ⟨word, left⟩ := p
    simp only [bind, Except.bind, Reading.outcome_ok]
    cases expect ';' left.left <;> rfl

theorem outcome_type_letter {c : Char} (r : List Char) (hb : c ≠ '[') (hl : c ≠ 'L')
    (ht : c ≠ 'T') :
    (type (c :: r)).outcome =
      match Primitive.ofLetter? c with
      | some p => .ok (.primitive p, r)
      | none => .error ⟨.notAType (Text.Utf8.leadByte c), c :: r⟩ := by
  rw [type]
  · cases Primitive.ofLetter? c <;> rfl
  · exact hb
  · exact hl
  · exact ht

theorem outcome_classTail_bracket (segments : String) (r : List Char) :
    (classTail segments ('<' :: r)).outcome =
      (argumentList r).outcome.bind fun (as, left) => (classEnd segments as left).outcome := by
  rw [classTail]
  cases argumentList r with
  | error h => rfl
  | ok p =>
    obtain ⟨as, left⟩ := p
    simp only [bind, Except.bind, Reading.outcome_ok]
    cases classEnd segments as left.left <;> rfl

theorem outcome_classTail {s : List Char} (segments : String) (h : s.head? ≠ some '<') :
    (classTail segments s).outcome = (classEnd segments [] s).outcome := by
  rw [classTail]
  rintro r rfl
  simp at h

theorem outcome_classEnd_close (segments : String) (as : List TypeArgument) (r : List Char) :
    (classEnd segments as (';' :: r)).outcome = .ok (.classType segments as, r) := by
  rw [classEnd]
  rfl

theorem outcome_classEnd_inner (segments : String) (as : List TypeArgument) (r : List Char) :
    (classEnd segments as ('.' :: r)).outcome =
      (name endsSegment r).outcome.bind fun (segment, left) =>
        (classTail (nest segments segment) left).outcome := by
  rw [classEnd]
  cases name endsSegment r with
  | error h => rfl
  | ok p =>
    obtain ⟨segment, left⟩ := p
    simp only [bind, Except.bind, Reading.outcome_ok, nest]
    cases classTail (segments ++ "$" ++ segment) left.left <;> rfl

theorem outcome_classEnd_nil (segments : String) (as : List TypeArgument) :
    (classEnd segments as []).outcome = .error ⟨.classUnfinished, []⟩ := by
  rw [classEnd]
  rfl

theorem outcome_classEnd_other (segments : String) (as : List TypeArgument) {c : Char}
    (r : List Char) (hc : c ≠ ';') (hi : c ≠ '.') :
    (classEnd segments as (c :: r)).outcome =
      .error ⟨.notInClass (Text.Utf8.leadByte c), c :: r⟩ := by
  rw [classEnd]
  · rfl
  · exact hc
  · exact hi

theorem outcome_argumentList_close (r : List Char) :
    (argumentList ('>' :: r)).outcome = .error ⟨.argumentsEmpty, r⟩ := by
  rw [argumentList]
  rfl

theorem outcome_argumentList {s : List Char} (h : s.head? ≠ some '>') :
    (argumentList s).outcome = (arguments s).outcome := by
  rw [argumentList]
  rintro r rfl
  simp at h

theorem outcome_arguments (s : List Char) :
    (arguments s).outcome = (argument s).outcome.bind fun (a, left) =>
      match left with
      | '>' :: r => .ok ([a], r)
      | r => (arguments r).outcome.map fun (as, left') => (a :: as, left') := by
  rw [arguments]
  cases argument s with
  | error h => rfl
  | ok p =>
    obtain ⟨a, left⟩ := p
    obtain ⟨⟨mid, hmid⟩, hlt⟩ := left
    simp only [bind, Except.bind]
    split
    · rfl
    · next hne =>
      cases hmore : arguments mid with
      | error h =>
        show Except.error h = match mid with | '>' :: _ => _ | r => _
        split
        · exact (hne _ rfl).elim
        · simp [hmore, Reading.outcome, Except.map]
      | ok p =>
        show Except.ok (a :: p.1, p.2.left) = match mid with | '>' :: _ => _ | r => _
        split
        · exact (hne _ rfl).elim
        · simp [hmore, Reading.outcome, Except.map]

theorem outcome_argument_nil : (argument []).outcome = .error ⟨.argumentsUnfinished, []⟩ := by
  rw [argument]
  rfl

theorem outcome_argument_upper (r : List Char) :
    (argument ('+' :: r)).outcome = (type r).outcome.map fun (t, left) => (.upper t, left) := by
  rw [argument]
  cases type r <;> rfl

theorem outcome_argument_lower (r : List Char) :
    (argument ('-' :: r)).outcome = (type r).outcome.map fun (t, left) => (.lower t, left) := by
  rw [argument]
  cases type r <;> rfl

theorem outcome_argument_any (r : List Char) :
    (argument ('*' :: r)).outcome = .ok (.any, r) := by
  rw [argument]
  rfl

theorem outcome_argument_exactly {c : Char} (r : List Char) (ha : c ≠ '*') (hu : c ≠ '+')
    (hl : c ≠ '-') :
    (argument (c :: r)).outcome =
      (type (c :: r)).outcome.map fun (t, left) => (.exactly t, left) := by
  rw [argument]
  · cases type (c :: r) <;> rfl
  · simp
  · simpa using ha
  · simpa using hu
  · simpa using hl

/-! ## Section 4: How derived texts start -/

theorem IsOptionalArguments.append_cons {s r : List Char} {as : List TypeArgument} {c : Char}
    (h : IsOptionalArguments s as) (hc : c = ';' ∨ c = '.') :
    ∃ d r', s ++ c :: r = d :: r' ∧ d ∈ ['<', ';', '.'] := by
  cases h with
  | none => exact ⟨c, r, rfl, by rcases hc with rfl | rfl <;> simp⟩
  | some h => exact ⟨'<', _, rfl, by simp⟩

/-- A name in a class type stops where the part after it starts. -/
theorem IsClassTail.eq_cons {segments : String} {s : List Char} {t : TypeSignature}
    (h : IsClassTail segments s t) : ∃ d r, s = d :: r ∧ d ∈ ['<', ';', '.'] := by
  cases h with
  | close hs => exact hs.append_cons (.inl rfl)
  | inner hs hn ht =>
    rw [List.append_assoc, List.cons_append]
    exact hs.append_cons (.inr rfl)

/-- No type starts with a wildcard mark or with a mark that opens, goes on with or closes a list. -/
theorem IsType.eq_cons {s : List Char} {t : TypeSignature} (h : IsType s t) :
    ∃ c r, s = c :: r ∧ c ∉ ['*', '+', '-', '>', '<', ':', ')'] := by
  cases h with
  | primitive p => exact ⟨p.letter, [], rfl, by cases p <;> decide⟩
  | array h => exact ⟨'[', _, rfl, by decide⟩
  | typeVariable hn => exact ⟨'T', _, rfl, by decide⟩
  | classType hn ht => exact ⟨'L', _, rfl, by decide⟩

theorem IsArgument.eq_cons {s : List Char} {a : TypeArgument} (h : IsArgument s a) :
    ∃ c r, s = c :: r ∧ c ≠ '>' := by
  cases h with
  | any => exact ⟨'*', [], rfl, by decide⟩
  | upper h => exact ⟨'+', _, rfl, by decide⟩
  | lower h => exact ⟨'-', _, rfl, by decide⟩
  | exactly h =>
    obtain ⟨c, r, rfl, hc⟩ := h.eq_cons
    exact ⟨c, r, rfl, fun h => hc (by simp [h])⟩

theorem IsArguments.eq_cons {s : List Char} {as : List TypeArgument} (h : IsArguments s as) :
    ∃ c r, s = c :: r ∧ c ≠ '>' := by
  cases h with
  | last ha => exact ha.eq_cons
  | more ha hs =>
    obtain ⟨c, r, rfl, hc⟩ := ha.eq_cons
    exact ⟨c, _, rfl, hc⟩

/-! ## Section 5: Completeness -/

mutual
/-- A text that derives a type is read as that type. -/
theorem type_complete {s : List Char} {t : TypeSignature} (h : IsType s t) (rest : List Char) :
    (type (s ++ rest)).outcome = .ok (t, rest) :=
  match h with
  | .primitive p => by
    rw [List.singleton_append, outcome_type_letter, Primitive.ofLetter?_letter]
    all_goals cases p <;> decide
  | .array h => by
    rw [List.cons_append, outcome_type_array, type_complete h rest]
    rfl
  | .typeVariable hn => by
    rw [List.append_assoc, List.cons_append, List.singleton_append, outcome_type_variable,
      outcome_name endsAt_variable hn (by simp)]
    simp only [Except.bind, outcome_expect]
    rfl
  | .classType hn ht => by
    -- The reader of the name needs to see the delimiter that the tail starts with.
    obtain ⟨d, r, hs, hd⟩ := ht.eq_cons
    have htail := classTail_complete ht rest
    rw [hs, List.cons_append] at htail
    rw [hs, List.append_assoc, List.cons_append, List.cons_append, outcome_type_class,
      outcome_name endsAt_segment hn hd]
    exact htail
termination_by structural h
/-- A text that ends a class type is read as its end. -/
theorem classTail_complete {segments : String} {s : List Char} {t : TypeSignature}
    (h : IsClassTail segments s t) (rest : List Char) :
    (classTail segments (s ++ rest)).outcome = .ok (t, rest) :=
  match h with
  | .close hs => by
    rw [List.append_assoc, List.singleton_append,
      optionalArguments_complete hs segments (by simp), outcome_classEnd_close]
  | .inner hs hn ht => by
    obtain ⟨d, r, hs', hd⟩ := ht.eq_cons
    have htail := classTail_complete ht rest
    rw [hs', List.cons_append] at htail
    rw [hs', List.append_assoc, List.append_assoc, List.cons_append, List.cons_append,
      optionalArguments_complete hs segments (by simp), outcome_classEnd_inner,
      outcome_name endsAt_segment hn hd]
    exact htail
termination_by structural h
/-- Type arguments that may be left out are read in front of what follows them. -/
theorem optionalArguments_complete {s : List Char} {as : List TypeArgument}
    (h : IsOptionalArguments s as) (segments : String) {rest : List Char}
    (hrest : rest.head? ≠ some '<') :
    (classTail segments (s ++ rest)).outcome = (classEnd segments as rest).outcome :=
  match h with
  | .none => outcome_classTail segments hrest
  | .some h => by
    obtain ⟨c, r, hs, hc⟩ := h.eq_cons
    rw [List.append_assoc, List.cons_append, List.singleton_append, outcome_classTail_bracket,
      outcome_argumentList (by simp [hs, hc]), arguments_complete h rest]
    rfl
termination_by structural h
/-- One type argument or more are read up to the closing bracket. -/
theorem arguments_complete {s : List Char} {as : List TypeArgument} (h : IsArguments s as)
    (rest : List Char) : (arguments (s ++ '>' :: rest)).outcome = .ok (as, rest) :=
  match h with
  | .last ha => by
    rw [outcome_arguments, argument_complete ha]
    rfl
  | .more ha hs => by
    -- No argument starts with the closing bracket, so the list is not taken to end here.
    obtain ⟨c, r, hs', hc⟩ := hs.eq_cons
    have hmore := arguments_complete hs rest
    rw [List.append_assoc, outcome_arguments, argument_complete ha]
    simp only [Except.bind]
    split
    · next r' h =>
      rw [hs', List.cons_append] at h
      exact (hc (List.cons.inj h).1).elim
    · rw [hmore]
      rfl
termination_by structural h
/-- A text that derives a type argument is read as that argument. -/
theorem argument_complete {s : List Char} {a : TypeArgument} (h : IsArgument s a)
    (rest : List Char) : (argument (s ++ rest)).outcome = .ok (a, rest) :=
  match h with
  | .any => outcome_argument_any rest
  | .upper h => by
    rw [List.cons_append, outcome_argument_upper, type_complete h rest]
    rfl
  | .lower h => by
    rw [List.cons_append, outcome_argument_lower, type_complete h rest]
    rfl
  | .exactly h => by
    obtain ⟨c, r, hs, hc⟩ := h.eq_cons
    have ht := type_complete h rest
    rw [hs, List.cons_append] at ht
    simp only [List.mem_cons, not_or] at hc
    rw [hs, List.cons_append, outcome_argument_exactly _ hc.1 hc.2.1 hc.2.2.1, ht]
    rfl
termination_by structural h
end

/-! ## Section 6: Soundness

    There is no derivation to follow here. The measure is the length of the text, and among readers
    of one text a rank: a reader that hands on the text it was given ranks above the one it hands it
    to. -/

mutual
/-- What is read as a type derives that type. -/
theorem type_sound {s left : List Char} {t : TypeSignature}
    (h : (type s).outcome = .ok (t, left)) : ∃ w, s = w ++ left ∧ IsType w t := by
  rcases hs : s with _ | ⟨c, r⟩
  · rw [hs, outcome_type_nil] at h
    cases h
  rw [hs] at h
  have hr : r.length < s.length := by simp [hs]
  by_cases hb : c = '['
  · subst hb
    obtain ⟨⟨element, mid⟩, he, heq⟩ := map_eq_ok.1 (outcome_type_array r ▸ h)
    cases heq
    obtain ⟨w, rfl, hw⟩ := type_sound he
    exact ⟨_, rfl, .array hw⟩
  by_cases hl : c = 'L'
  · subst hl
    obtain ⟨⟨segment, mid⟩, hn, ht⟩ := bind_eq_ok.1 (outcome_type_class r ▸ h)
    have hmid : mid.length < s.length := Nat.lt_trans (Reading.length_lt hn) hr
    obtain ⟨hname, rfl⟩ := of_outcome_name endsAt_segment hn
    obtain ⟨w, rfl, hw⟩ := classTail_sound ht
    exact ⟨_, by simp, .classType hname hw⟩
  by_cases hv : c = 'T'
  -- The name is followed by the semicolon that closes the variable, which no name contains.
  · subst hv
    obtain ⟨⟨word, mid⟩, hn, he⟩ := bind_eq_ok.1 (outcome_type_variable r ▸ h)
    obtain ⟨⟨u, left'⟩, he, heq⟩ := map_eq_ok.1 he
    cases heq
    obtain ⟨hname, rfl⟩ := of_outcome_name endsAt_variable hn
    obtain rfl := eq_cons_of_expect he
    exact ⟨_, by simp, .typeVariable hname⟩
  · rw [outcome_type_letter r hb hl hv] at h
    split at h
    · next p hp =>
      cases h
      obtain rfl := Primitive.ofLetter?_eq_some_iff.1 hp
      exact ⟨_, by simp, .primitive p⟩
    · cases h
termination_by 4 * s.length
/-- What is read as the end of a class type is one. -/
theorem classTail_sound {segments : String} {s left : List Char} {t : TypeSignature}
    (h : (classTail segments s).outcome = .ok (t, left)) :
    ∃ w, s = w ++ left ∧ IsClassTail segments w t := by
  by_cases hb : s.head? = some '<'
  · obtain ⟨r, hs⟩ := List.head?_eq_some_iff.1 hb
    rw [hs] at h
    have hr : r.length < s.length := by simp [hs]
    obtain ⟨⟨as, mid⟩, ha, ht⟩ := bind_eq_ok.1 (outcome_classTail_bracket segments r ▸ h)
    have hmid : mid.length < s.length := Nat.lt_trans (Reading.length_lt ha) hr
    obtain ⟨w, rfl, hw⟩ := argumentList_sound ha
    obtain ⟨w', rfl, hw'⟩ := classEnd_sound (.some hw) ht
    exact ⟨_, by simp [hs], hw'⟩
  · rw [outcome_classTail segments hb] at h
    exact classEnd_sound .none h
termination_by 4 * s.length + 1
/-- What is read after type arguments ends the class type they belong to. -/
theorem classEnd_sound {segments : String} {before s left : List Char} {as : List TypeArgument}
    {t : TypeSignature} (hbefore : IsOptionalArguments before as)
    (h : (classEnd segments as s).outcome = .ok (t, left)) :
    ∃ w, s = w ++ left ∧ IsClassTail segments (before ++ w) t := by
  rcases hs : s with _ | ⟨c, r⟩
  · rw [hs, outcome_classEnd_nil] at h
    cases h
  rw [hs] at h
  have hr : r.length < s.length := by simp [hs]
  by_cases hc : c = ';'
  · subst hc
    rw [outcome_classEnd_close] at h
    cases h
    exact ⟨_, rfl, .close hbefore⟩
  by_cases hi : c = '.'
  · subst hi
    obtain ⟨⟨segment, mid⟩, hn, ht⟩ := bind_eq_ok.1 (outcome_classEnd_inner segments as r ▸ h)
    have hmid : mid.length + 1 < s.length := by
      have := Reading.length_lt hn
      simp only [hs, List.length_cons]
      omega
    obtain ⟨hname, rfl⟩ := of_outcome_name endsAt_segment hn
    obtain ⟨w, rfl, hw⟩ := classTail_sound ht
    exact ⟨'.' :: segment.toList ++ w, by simp, by simpa using IsClassTail.inner hbefore hname hw⟩
  · rw [outcome_classEnd_other segments as r hc hi] at h
    cases h
termination_by 4 * s.length
/-- What is read as a list of type arguments is one. -/
theorem argumentList_sound {s left : List Char} {as : List TypeArgument}
    (h : (argumentList s).outcome = .ok (as, left)) :
    ∃ w, s = w ++ '>' :: left ∧ IsArguments w as := by
  by_cases hb : s.head? = some '>'
  · obtain ⟨r, rfl⟩ := List.head?_eq_some_iff.1 hb
    rw [outcome_argumentList_close] at h
    cases h
  · rw [outcome_argumentList hb] at h
    exact arguments_sound h
termination_by 4 * s.length + 3
/-- What is read as one type argument or more is that. -/
theorem arguments_sound {s left : List Char} {as : List TypeArgument}
    (h : (arguments s).outcome = .ok (as, left)) :
    ∃ w, s = w ++ '>' :: left ∧ IsArguments w as := by
  obtain ⟨⟨a, mid⟩, ha, hmore⟩ := bind_eq_ok.1 (outcome_arguments s ▸ h)
  have hmid : mid.length < s.length := Reading.length_lt ha
  obtain ⟨w, hs, hw⟩ := argument_sound ha
  simp only at hmore
  split at hmore
  · next r =>
    cases hmore
    exact ⟨w, hs, .last hw⟩
  · obtain ⟨⟨others, left'⟩, ho, heq⟩ := map_eq_ok.1 hmore
    cases heq
    obtain ⟨w', rfl, hw'⟩ := arguments_sound ho
    exact ⟨w ++ w', by simp [hs], .more hw hw'⟩
termination_by 4 * s.length + 2
/-- What is read as a type argument is one. -/
theorem argument_sound {s left : List Char} {a : TypeArgument}
    (h : (argument s).outcome = .ok (a, left)) : ∃ w, s = w ++ left ∧ IsArgument w a := by
  rcases hs : s with _ | ⟨c, r⟩
  · rw [hs, outcome_argument_nil] at h
    cases h
  rw [hs] at h
  have hr : r.length < s.length := by simp [hs]
  by_cases ha : c = '*'
  · subst ha
    rw [outcome_argument_any] at h
    cases h
    exact ⟨_, rfl, .any⟩
  by_cases hu : c = '+'
  · subst hu
    obtain ⟨⟨bound, mid⟩, hb, heq⟩ := map_eq_ok.1 (outcome_argument_upper r ▸ h)
    cases heq
    obtain ⟨w, rfl, hw⟩ := type_sound hb
    exact ⟨_, rfl, .upper hw⟩
  by_cases hl : c = '-'
  · subst hl
    obtain ⟨⟨bound, mid⟩, hb, heq⟩ := map_eq_ok.1 (outcome_argument_lower r ▸ h)
    cases heq
    obtain ⟨w, rfl, hw⟩ := type_sound hb
    exact ⟨_, rfl, .lower hw⟩
  · obtain ⟨⟨t, mid⟩, ht, heq⟩ := map_eq_ok.1 (outcome_argument_exactly r ha hu hl ▸ h)
    cases heq
    have hlen : (c :: r).length ≤ s.length := by simp [hs]
    obtain ⟨w, hw, hw'⟩ := type_sound ht
    exact ⟨w, hw, .exactly hw'⟩
termination_by 4 * s.length + 1
end

/-! ## Section 7: Whole texts -/

theorem wholeType_eq_ok_iff {s : List Char} {t : TypeSignature} :
    wholeType s = .ok t ↔ (type s).outcome = .ok (t, []) := by
  unfold wholeType
  cases type s with
  | error e => simp [Reading.outcome, bind, Except.bind, Except.map]
  | ok p =>
    obtain ⟨u, ⟨left, hsuffix⟩, hlt⟩ := p
    cases left with
    | nil => simp [Reading.outcome, bind, Except.bind, Except.map, finish, pure, Except.pure]
    | cons c r => simp [Reading.outcome, bind, Except.bind, Except.map, finish]

theorem parse_eq_ok_iff_wholeType {text : String} {t : TypeSignature} :
    TypeSignature.parse text = .ok t ↔ wholeType text.toList = .ok t := by
  unfold TypeSignature.parse run
  exact mapError_eq_ok

/-- The texts that are types are those that derive one. -/
theorem parse_eq_ok_iff {text : String} {t : TypeSignature} :
    TypeSignature.parse text = .ok t ↔ IsType text.toList t := by
  rw [parse_eq_ok_iff_wholeType, wholeType_eq_ok_iff]
  constructor
  · intro h
    obtain ⟨w, hs, hw⟩ := type_sound h
    rwa [hs, List.append_nil]
  · intro h
    have := type_complete h []
    rwa [List.append_nil] at this

end TypeCatalog.Signature
