import TypeCatalog.Proofs.Source.Grammar

/-! # What readers take

    A reader takes exactly the tokens that the grammar derives, whatever comes after them, as long
    as that does not go on with them. It is stated of each reader what that means: an annotation
    ends where neither a further part of its name nor arguments follow, and modifiers end where no
    further modifier does.

    What is left is known only up to an equation, since readers carry the proof that it is a suffix.
    So the lemmas speak of tokens `s` with `s = taken ++ rest`. -/

set_option autoImplicit false

namespace TypeCatalog.Source

/-! ## Section 1: Outcomes -/

section outcomes

variable {α β τ υ : Type}

/-- A reader gives `a`, and leaves `rest`. -/
def Gives (left : τ → List Token) (x : Except Halt (α × τ)) (a : α) (rest : List Token) : Prop :=
  ∃ t, x = .ok (a, t) ∧ left t = rest

/-- One reader after another. -/
theorem Gives.bind {left : τ → List Token} {left' : υ → List Token} {x : Except Halt (α × τ)}
    {f : α × τ → Except Halt (β × υ)} {a : α} {b : β} {mid rest : List Token}
    (hx : Gives left x a mid) (hf : ∀ t, left t = mid → Gives left' (f (a, t)) b rest) :
    Gives left' (x >>= f) b rest := by
  obtain ⟨t, rfl, ht⟩ := hx
  exact hf t ht

/-- What is computed from what a reader gives. -/
theorem Gives.bind_eq {left : τ → List Token} {x : Except Halt (α × τ)} {f : α × τ → Except Halt β}
    {a : α} {y : Except Halt β} {rest : List Token} (hx : Gives left x a rest)
    (hf : ∀ t, left t = rest → f (a, t) = y) : x >>= f = y := by
  obtain ⟨t, rfl, ht⟩ := hx
  exact hf t ht

/-- A reader that takes at least one token gives `a`, and leaves `rest`. -/
abbrev Reads {s : List Token} (x : Reading α s) (a : α) (rest : List Token) : Prop :=
  Gives (fun t : Tail s => t.left) x a rest

/-- A reader that may take nothing gives `a`, and leaves `rest`. -/
abbrev LoopReads {s : List Token} (x : LoopReading α s) (a : α) (rest : List Token) : Prop :=
  Gives (fun t : Rest s => t.left) x a rest

end outcomes

section tokens

variable {t : Token} {s rest : List Token} {w : String} {c : Char}

theorem reads_identifier (h : t.kind = .word w) (hs : s = t :: rest) :
    Reads (identifier s) w rest := by
  obtain ⟨_, p, d⟩ := t
  cases h
  subst hs
  exact ⟨_, rfl, rfl⟩

theorem reads_symbol (h : t.kind = .symbol c) (hs : s = t :: rest) :
    Reads (symbol c s) () rest := by
  subst hs
  rw [symbol, if_pos h]
  exact ⟨_, rfl, rfl⟩

theorem reads_throughSymbol {ts : List Token} (hts : ∀ u ∈ ts, u.kind ≠ .symbol c)
    (h : t.kind = .symbol c) (hs : s = ts ++ t :: rest) : Reads (throughSymbol c s) () rest := by
  subst hs
  induction ts with
  | nil =>
    rw [List.nil_append, throughSymbol, if_pos h]
    exact ⟨_, rfl, rfl⟩
  | cons u ts ih =>
    have ih := ih fun v hv => hts v (List.mem_cons_of_mem u hv)
    rw [List.cons_append, throughSymbol, if_neg (hts u List.mem_cons_self)]
    exact ih.bind fun _ hleft => ⟨_, rfl, hleft⟩

end tokens

/-! ## Section 2: Groups -/

section groups

variable {o c : Char} {s g rest : List Token}

theorem afterGroup_append {depth depth' : Nat} {ts : List Token}
    (h : depthAfter o c depth ts = some depth') (rest : List Token) :
    afterGroup o c depth (ts ++ rest) = afterGroup o c depth' rest := by
  induction ts generalizing depth with
  | nil =>
    cases h
    rfl
  | cons t ts ih =>
    unfold depthAfter at h
    rw [List.cons_append]
    conv => lhs; unfold afterGroup
    split at h
    · next hopen => rw [if_pos hopen, ih h]
    · next hopen =>
      rw [if_neg hopen]
      split at h
      · next hclose =>
        rw [if_pos hclose]
        cases depth with
        | zero => cases h
        | succ depth => exact ih h
      · next hclose => rw [if_neg hclose, ih h]

/-- The rest of a group after its opening bracket. -/
theorem reads_group {t : Token} {inside : List Token} (hne : o ≠ c)
    (h : WellNested o c inside) (ht : t.kind = .symbol c) (hs : s = inside ++ t :: rest) :
    Reads (group o c s) () rest := by
  have hother : t.kind ≠ .symbol o := by
    rw [ht]
    simpa using hne.symm
  have hafter : afterGroup o c 0 s = some rest := by
    rw [hs, afterGroup_append h]
    unfold afterGroup
    rw [if_neg hother, if_pos ht]
  unfold group
  split
  · next hnone => cases hafter.symm.trans hnone
  · next left hsome =>
    cases hafter.symm.trans hsome
    exact ⟨_, rfl, rfl⟩

/-- A group starts with its opening bracket, and the rest of it is read after that. -/
theorem IsGroup.exists_cons (h : IsGroup o c g) (hne : o ≠ c) :
    ∃ t r, g = t :: r ∧ t.kind = .symbol o ∧
      ∀ {s rest : List Token}, s = r ++ rest → Reads (group o c s) () rest := by
  obtain ⟨hfirst, hinside, hlast⟩ := h
  refine ⟨_, _, rfl, hfirst, ?_⟩
  rintro s rest rfl
  exact reads_group hne hinside hlast (List.append_assoc ..)

theorem loopReads_optionalGroup (hne : o ≠ c) (h : IsOptionalGroup o c g)
    (hrest : startsWith (.symbol o) rest = false) (hs : s = g ++ rest) :
    LoopReads (optionalGroup o c s) () rest := by
  subst hs
  cases h with
  | none =>
    cases rest with
    | nil => exact ⟨_, rfl, rfl⟩
    | cons t r =>
      rw [List.nil_append, optionalGroup, if_neg (of_decide_eq_false hrest)]
      exact ⟨_, rfl, rfl⟩
  | some h =>
    obtain ⟨t, r, rfl, ht, hgroup⟩ := h.exists_cons hne
    rw [List.cons_append, optionalGroup, if_pos ht]
    exact (hgroup rfl).bind fun _ hleft => ⟨_, rfl, hleft⟩

end groups

/-! ## Section 3: First tokens -/

section first

variable {t : Token} {w : String} {c : Char}

theorem startsWith_cons {k : TokenKind} {r : List Token} :
    startsWith k (t :: r) = false ↔ t.kind ≠ k :=
  decide_eq_false_iff_not

theorem startsWith_word (h : t.kind = .word w) (c : Char) (r : List Token) :
    startsWith (.symbol c) (t :: r) = false := by
  rw [startsWith_cons, h]
  nofun

theorem startsWith_symbol {c' : Char} (h : t.kind = .symbol c') (hne : c' ≠ c) (r : List Token) :
    startsWith (.symbol c) (t :: r) = false := by
  rw [startsWith_cons, h]
  simpa using hne

theorem startsPart_cons (h : t.kind ≠ .symbol '.') (r : List Token) :
    startsPart (t :: r) = false := by
  unfold startsPart
  split
  · next heq =>
    cases heq
    exact absurd rfl h
  · rfl

theorem startsPart_cons_cons (t u : Token) (r : List Token) :
    startsPart (t :: u :: r) = startsPart [t, u] := by
  obtain ⟨k, p, d⟩ := t
  obtain ⟨k', p', d'⟩ := u
  unfold startsPart
  split
  · next heq =>
    cases heq
    rfl
  · next hne =>
    split
    · next heq =>
      cases heq
      exact absurd rfl (hne _ _ _ _ _ _)
    · rfl

theorem endsAnnotation_word (h : t.kind = .word w) (r : List Token) : EndsAnnotation (t :: r) :=
  ⟨startsPart_cons (by rw [h]; nofun) r, startsWith_word h '(' r⟩

theorem endsAnnotation_symbol (h : t.kind = .symbol c) (hc : c ∉ ['.', '(']) (r : List Token) :
    EndsAnnotation (t :: r) := by
  simp only [List.mem_cons, List.not_mem_nil, or_false, not_or] at hc
  exact ⟨startsPart_cons (by rw [h]; simpa using hc.1) r, startsWith_symbol h hc.2 r⟩

theorem endsAnnotation_dots {dot dot' : Token} (hdot : dot.kind = .symbol '.')
    (hdot' : dot'.kind = .symbol '.') (r : List Token) : EndsAnnotation (dot :: dot' :: r) := by
  obtain ⟨_, p, d⟩ := dot
  obtain ⟨_, p', d'⟩ := dot'
  cases hdot
  cases hdot'
  exact ⟨rfl, rfl⟩

theorem EndsAnnotation.append {s : List Token} (h : EndsAnnotation s) (ht : t.kind = .symbol c)
    (hc : c ∉ ['.', '(']) (r : List Token) : EndsAnnotation (s ++ t :: r) := by
  match s with
  | [] => exact endsAnnotation_symbol ht hc r
  | [u] =>
    obtain ⟨_, p, d⟩ := t
    cases ht
    refine ⟨?_, h.2⟩
    unfold startsPart
    split
    · next heq => cases heq
    · rfl
  | u :: v :: s =>
    refine ⟨?_, h.2⟩
    rw [List.cons_append, List.cons_append, startsPart_cons_cons, ← startsPart_cons_cons u v s]
    exact h.1

end first

/-! ## Section 4: Names and annotations -/

section names

variable {s a rest : List Token} {name : String}

theorem furtherNames_eq (h : startsPart rest = false) : furtherNames rest = ("", .all rest) := by
  rw [furtherNames]
  rintro p d w p' d' r rfl
  cases h

theorem furtherNames_more {dot t : Token} {w : String} (hdot : dot.kind = .symbol '.')
    (ht : t.kind = .word w) (r : List Token) :
    (furtherNames (dot :: t :: r)).1 = "." ++ w ++ (furtherNames r).1 ∧
      (furtherNames (dot :: t :: r)).2.left = (furtherNames r).2.left := by
  obtain ⟨_, p, d⟩ := dot
  obtain ⟨_, p', d'⟩ := t
  cases hdot
  cases ht
  rw [furtherNames]
  exact ⟨rfl, rfl⟩

/-- A dotted name is its first part and what is found after that. -/
theorem IsQualifiedName.exists_cons (h : IsQualifiedName s name) :
    ∃ t w r, s = t :: r ∧ t.kind = .word w ∧ IsIdentifier w ∧
      ∀ {rest : List Token}, startsPart rest = false →
        w ++ (furtherNames (r ++ rest)).1 = name ∧ (furtherNames (r ++ rest)).2.left = rest := by
  induction h with
  | @last t w ht hw =>
    refine ⟨t, w, [], rfl, ht, hw, ?_⟩
    intro rest hrest
    rw [List.nil_append, furtherNames_eq hrest]
    exact ⟨String.append_empty, rfl⟩
  | @more t dot w name s ht hw hdot _ ih =>
    obtain ⟨t', w', r, rfl, ht', -, hfurther⟩ := ih
    refine ⟨t, w, dot :: t' :: r, rfl, ht, hw, ?_⟩
    intro rest hrest
    obtain ⟨hname, hleft⟩ := hfurther hrest
    obtain ⟨hnames, hleft'⟩ := furtherNames_more hdot ht' (r ++ rest)
    refine ⟨?_, hleft'.trans hleft⟩
    rw [List.cons_append, List.cons_append, hnames, ← hname]
    simp only [String.append_assoc]

theorem reads_qualifiedName {q : List Token} (h : IsQualifiedName q name)
    (hrest : startsPart rest = false) (hs : s = q ++ rest) : Reads (qualifiedName s) name rest := by
  obtain ⟨t, w, r, rfl, ht, -, hfurther⟩ := h.exists_cons
  obtain ⟨rfl, hleft⟩ := hfurther hrest
  have hs : s = t :: (r ++ rest) := hs
  -- The further parts are read from what the first one leaves, whose type depends on it.
  unfold qualifiedName
  refine (reads_identifier ht hs).bind fun u hu => ?_
  rw [← hu] at hleft ⊢
  exact ⟨_, rfl, hleft⟩

/-- An annotation starts with its sign and its name, and it is read from its name on. -/
theorem IsAnnotation.exists_cons (h : IsAnnotation a) :
    ∃ sign t w r, a = sign :: t :: r ∧ sign.kind = .symbol '@' ∧ t.kind = .word w ∧
      IsIdentifier w ∧ ∀ {s rest : List Token}, EndsAnnotation rest → s = t :: r ++ rest →
        Reads ( annotation s) () rest := by
  cases h with
  | @intro sign name q args hsign hname hargs =>
  obtain ⟨t, w, r, rfl, ht, hw, -⟩ := hname.exists_cons
  refine ⟨sign, t, w, r ++ args, rfl, hsign, ht, hw, ?_⟩
  rintro s rest ⟨hpart, hparen⟩ hs
  -- Neither the arguments nor what follows them go on with the name.
  have hends : startsPart (args ++ rest) = false := by
    cases hargs with
    | none => exact hpart
    | some hgroup =>
      obtain ⟨first, inside, rfl, hfirst, -⟩ := hgroup.exists_cons (by decide)
      exact startsPart_cons (by rw [hfirst]; decide) _
  rw [List.cons_append, List.append_assoc, ← List.cons_append] at hs
  unfold annotation
  refine (reads_qualifiedName hname hends hs).bind fun u hu => ?_
  exact (loopReads_optionalGroup (by decide) hargs hparen hu).bind fun _ hleft => ⟨_, rfl, hleft⟩

theorem IsAnnotation.endsAnnotation_append (ha : IsAnnotation a) (rest : List Token) :
    EndsAnnotation (a ++ rest) := by
  obtain ⟨sign, t, w, r, rfl, hsign, -⟩ := ha.exists_cons
  exact endsAnnotation_symbol hsign (by decide) _

end names

/-! ## Section 5: Modifiers -/

section modifiers

variable {s m rest : List Token}

/-- Tokens that do not go on with modifiers that stand before them. -/
inductive EndsModifiers : List Token → Prop
  | annotationType {sign t : Token} {s : List Token} :
      sign.kind = .symbol '@' → t.kind = .word "interface" → EndsModifiers (sign :: t :: s)
  | word {t : Token} {w : String} {s : List Token} :
      t.kind = .word w → w ∉ modifierWords → startsWith (.symbol '-') s = false →
      EndsModifiers (t :: s)
  | symbol {t : Token} {c : Char} {s : List Token} :
      t.kind = .symbol c → c ∉ ['@', '.', '('] → EndsModifiers (t :: s)

theorem EndsModifiers.annotation_ends (h : EndsModifiers s) : EndsAnnotation s := by
  cases h with
  | annotationType hsign _ => exact endsAnnotation_symbol hsign (by decide) _
  | word ht _ _ => exact endsAnnotation_word ht _
  | symbol ht hc =>
    refine endsAnnotation_symbol ht ?_ _
    exact fun hmem => hc (List.mem_cons_of_mem _ hmem)

theorem modifiers_eq (h : EndsModifiers rest) : modifiers rest = .ok ((), .all rest) := by
  cases h with
  | @annotationType sign t s hsign ht =>
    obtain ⟨_, p, d⟩ := sign
    obtain ⟨_, p', d'⟩ := t
    cases hsign
    cases ht
    rw [modifiers]
  | @word t w s ht hw hdash =>
    obtain ⟨_, p, d⟩ := t
    cases ht
    rw [modifiers, if_neg hw]
    · rfl
    · rintro p' d' p'' d'' r rfl -
      exact startsWith_cons.1 hdash rfl
  | @symbol t c s ht hc =>
    obtain ⟨_, p, d⟩ := t
    cases ht
    rw [modifiers]
    · rintro _ _ _ _ _ _ _ ⟨⟩
    · rintro _ _ _ _ _ heq
      cases heq
      exact hc (by decide)
    · rintro _ _ _ heq
      cases heq
      exact hc (by decide)
    · rintro _ _ _ _ ⟨⟩

theorem IsModifiers.endsAnnotation_append (hm : IsModifiers m) (hrest : EndsAnnotation rest) :
    EndsAnnotation (m ++ rest) := by
  cases hm with
  | nil => exact hrest
  | word ht _ _ => exact endsAnnotation_word ht _
  | nonSealed ht _ _ _ => exact endsAnnotation_word ht _
  | annotated ha _ =>
    rw [List.append_assoc]
    exact ha.endsAnnotation_append _

theorem loopReads_modifiers (hm : IsModifiers m) (hrest : EndsModifiers rest)
    (hs : s = m ++ rest) : LoopReads (modifiers s) () rest := by
  induction hm generalizing s with
  | nil =>
    have hs : s = rest := hs
    subst hs
    rw [modifiers_eq hrest]
    exact ⟨_, rfl, rfl⟩
  | @word t w m ht hw _ ih =>
    obtain ⟨_, p, d⟩ := t
    cases ht
    subst hs
    rw [List.cons_append, modifiers, if_pos hw]
    · exact (ih rfl).bind fun _ hleft => ⟨_, rfl, hleft⟩
    -- The word is not the one that starts the modifier of three tokens.
    · intro p' d' p'' d'' r _ hnon
      rw [hnon] at hw
      exact absurd hw (by decide)
  | @nonSealed t dash t' m ht hdash ht' _ ih =>
    obtain ⟨_, p, d⟩ := t
    obtain ⟨_, p', d'⟩ := dash
    obtain ⟨_, p'', d''⟩ := t'
    cases ht
    cases hdash
    cases ht'
    subst hs
    rw [List.cons_append, List.cons_append, List.cons_append, modifiers]
    exact (ih rfl).bind fun _ hleft => ⟨_, rfl, hleft⟩
  | @annotated a m ha hm ih =>
    have hends := hm.endsAnnotation_append hrest.annotation_ends
    obtain ⟨sign, t, w, r, rfl, hsign, ht, hw, hread⟩ := ha.exists_cons
    obtain ⟨_, p, d⟩ := sign
    obtain ⟨_, p', d'⟩ := t
    cases hsign
    cases ht
    rw [List.append_assoc, List.cons_append] at hs
    subst hs
    rw [modifiers]
    · exact (hread hends rfl).bind fun u hu => (ih hu).bind fun _ hleft => ⟨_, rfl, hleft⟩
    -- No annotation has the name that makes its sign the start of an annotation type.
    · rintro p'' d'' s' heq
      cases heq
      exact hw.2 (by decide)

/-- A declaration with modifiers starts with one of them, or as it does without them. -/
theorem IsModifiers.startsWith_append {k : TokenKind} (hm : IsModifiers m)
    (hsign : k ≠ .symbol '@') (hword : ∀ w ∈ "non" :: modifierWords, k ≠ .word w)
    (hrest : startsWith k rest = false) : startsWith k (m ++ rest) = false := by
  cases hm with
  | nil => exact hrest
  | word ht hw _ =>
    rw [List.cons_append, startsWith_cons, ht]
    exact (hword _ (List.mem_cons_of_mem _ hw)).symm
  | nonSealed ht _ _ _ =>
    rw [List.cons_append, startsWith_cons, ht]
    exact (hword _ List.mem_cons_self).symm
  | annotated ha _ =>
    obtain ⟨sign, _, _, _, rfl, hsign', -⟩ := ha.exists_cons
    rw [List.append_assoc, List.cons_append, startsWith_cons, hsign']
    exact hsign.symm

end modifiers

end TypeCatalog.Source
