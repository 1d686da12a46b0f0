import TypeCatalog.Proofs.Source.Reading

/-! # Types, parameters and type variables are read

    A type is read up to the name of what has it, so every lemma about a type has that name after
    it. The readers of parameters and of type variables stop at the bracket that closes their
    list. -/

set_option autoImplicit false

namespace TypeCatalog.Source

/-! ## Section 1: Types -/

/-- Tokens that do not go on with a type of which the name stands before them. -/
inductive EndsTail : List Token → Prop
  | other {t : Token} {s : List Token} :
      t.kind ≠ .symbol '<' → t.kind ≠ .symbol '.' → EndsTail (t :: s)
  | dots {dot dot' : Token} {s : List Token} :
      dot.kind = .symbol '.' → dot'.kind = .symbol '.' → EndsTail (dot :: dot' :: s)

section types

variable {s ts rest : List Token} {name last : String}

theorem furtherParts_eq (h : EndsTail rest) (name : String) :
    furtherParts name rest = .ok (name, .all rest) := by
  cases h with
  | @other t s hangle hdot =>
    obtain ⟨k, p, d⟩ := t
    rw [furtherParts]
    · rintro _ _ _ heq
      cases heq
      exact hangle rfl
    · rintro _ _ _ _ _ _ heq
      cases heq
      exact hdot rfl
    · rintro _ _ _ _ _ heq
      cases heq
      exact hdot rfl
  | @dots dot dot' s hdot hdot' =>
    obtain ⟨_, p, d⟩ := dot
    obtain ⟨_, p', d'⟩ := dot'
    cases hdot
    cases hdot'
    rw [furtherParts]
    · rintro _ _ _ ⟨⟩
    · rintro _ _ _ _ _ _ ⟨⟩
    · rintro _ _ _ _ _ ⟨⟩

theorem loopReads_furtherParts (h : IsTypeTail name ts last) (hrest : EndsTail rest)
    (hs : s = ts ++ rest) : LoopReads (furtherParts name s) last rest := by
  induction h generalizing s with
  | nil name =>
    have hs : s = rest := hs
    subst hs
    rw [furtherParts_eq hrest]
    exact ⟨_, rfl, rfl⟩
  | @arguments name last g ts hg _ ih =>
    obtain ⟨t, r, rfl, ht, hread⟩ := hg.exists_cons (by decide)
    obtain ⟨_, p, d⟩ := t
    cases ht
    rw [List.append_assoc, List.cons_append] at hs
    subst hs
    rw [furtherParts]
    exact (hread rfl).bind fun u hu => (ih hu).bind fun _ hleft => ⟨_, rfl, hleft⟩
  | @part dot t name w last ts hdot ht _ _ ih =>
    obtain ⟨_, p, d⟩ := dot
    obtain ⟨_, p', d'⟩ := t
    cases hdot
    cases ht
    subst hs
    rw [List.cons_append, List.cons_append, furtherParts]
    exact (ih rfl).bind fun _ hleft => ⟨_, rfl, hleft⟩

/-- What dimensions start with before the name that they end at. -/
theorem IsDimensions.startsWith_append {n : Nat} {t : Token} {c : Char} (h : IsDimensions ts n)
    (ht : t.kind = .word name) (hc : c ∉ ['.', '[', '@']) (rest : List Token) :
    startsWith (.symbol c) (ts ++ t :: rest) = false := by
  have hsymbol {t' : Token} {c' : Char} (h : t'.kind = .symbol c') (hc' : c' ∈ ['.', '[', '@'])
      (r : List Token) : startsWith (.symbol c) (t' :: r) = false :=
    startsWith_symbol h (fun heq => hc (by rw [← heq]; exact hc')) r
  cases h with
  | nil => exact startsWith_word ht c _
  | brackets hopening _ _ => exact hsymbol hopening (by decide) _
  | dots hdot _ _ _ => exact hsymbol hdot (by decide) _
  | annotated ha _ =>
    obtain ⟨sign, _, _, _, rfl, hsign, -⟩ := ha.exists_cons
    exact hsymbol hsign (by decide) _

theorem IsDimensions.endsAnnotation_append {n : Nat} {t : Token} (h : IsDimensions ts n)
    (ht : t.kind = .word name) (rest : List Token) : EndsAnnotation (ts ++ t :: rest) := by
  cases h with
  | nil => exact endsAnnotation_word ht _
  | brackets hopening _ _ => exact endsAnnotation_symbol hopening (by decide) _
  | dots hdot hdot' _ _ => exact endsAnnotation_dots hdot hdot' _
  | annotated ha _ =>
    rw [List.append_assoc]
    exact ha.endsAnnotation_append _

theorem IsDimensions.endsTail_append {n : Nat} {t : Token} (h : IsDimensions ts n)
    (ht : t.kind = .word name) (rest : List Token) : EndsTail (ts ++ t :: rest) := by
  cases h with
  | nil => exact .other (by rw [ht]; nofun) (by rw [ht]; nofun)
  | brackets hopening _ _ =>
    exact .other (by rw [hopening]; decide) (by rw [hopening]; decide)
  | dots hdot hdot' _ _ => exact .dots hdot hdot'
  | annotated ha _ =>
    obtain ⟨sign, _, _, _, rfl, hsign, -⟩ := ha.exists_cons
    exact .other (by rw [hsign]; decide) (by rw [hsign]; decide)

theorem loopReads_dimensions {n : Nat} {t : Token} (h : IsDimensions ts n)
    (ht : t.kind = .word name) (hs : s = ts ++ t :: rest) :
    LoopReads (dimensions s) n (t :: rest) := by
  induction h generalizing s with
  | nil =>
    obtain ⟨_, p, d⟩ := t
    cases ht
    subst hs
    rw [List.nil_append, dimensions]
    · exact ⟨_, rfl, rfl⟩
    · rintro _ _ _ _ _ ⟨⟩
    · rintro _ _ _ _ _ _ _ ⟨⟩
    · rintro _ _ _ ⟨⟩
  | @brackets opening closing n ts hopening hclosing _ ih =>
    obtain ⟨_, p, d⟩ := opening
    obtain ⟨_, p', d'⟩ := closing
    cases hopening
    cases hclosing
    subst hs
    rw [List.cons_append, List.cons_append, dimensions]
    exact (ih rfl).bind fun _ hleft => ⟨_, rfl, hleft⟩
  | @dots dot dot' dot'' n ts hdot hdot' hdot'' _ ih =>
    obtain ⟨_, p, d⟩ := dot
    obtain ⟨_, p', d'⟩ := dot'
    obtain ⟨_, p'', d''⟩ := dot''
    cases hdot
    cases hdot'
    cases hdot''
    subst hs
    rw [List.cons_append, List.cons_append, List.cons_append, dimensions]
    exact (ih rfl).bind fun _ hleft => ⟨_, rfl, hleft⟩
  | @annotated n a ts ha hts ih =>
    have hends : EndsAnnotation (ts ++ t :: rest) := hts.endsAnnotation_append ht rest
    obtain ⟨sign, t', w, r, rfl, hsign, ht', hw, hread⟩ := ha.exists_cons
    obtain ⟨_, p, d⟩ := sign
    cases hsign
    rw [List.append_assoc, List.cons_append] at hs
    subst hs
    rw [dimensions]
    exact (hread hends rfl).bind fun u hu => (ih hu).bind fun _ hleft => ⟨_, rfl, hleft⟩

/-- A type starts with a word that is no modifier. What comes after it, up to the name that the type
    is of, starts with no symbol but those that go on with a type. -/
theorem IsWritten.exists_cons {type : WrittenType} {t : Token} (h : IsWritten ts type)
    (ht : t.kind = .word name) :
    ∃ t' w r, ts = t' :: r ∧ t'.kind = .word w ∧ IsIdentifier w ∧
      ∀ (c : Char) (rest : List Token), c ∉ ['<', '.', '[', '@'] →
        startsWith (.symbol c) (r ++ t :: rest) = false := by
  cases h with
  | @intro first w last n tail dims hfirst hw htail hdims =>
  refine ⟨first, w, tail ++ dims, rfl, hfirst, hw, ?_⟩
  intro c rest hc
  rw [List.append_assoc]
  cases htail with
  | nil => exact hdims.startsWith_append ht (fun hmem => hc (List.mem_cons_of_mem _ hmem)) rest
  | arguments hg _ =>
    obtain ⟨opening, r, rfl, hopening, -⟩ := hg.exists_cons (by decide)
    exact startsWith_symbol hopening (fun heq => hc (by rw [← heq]; decide)) _
  | part hdot _ _ _ => exact startsWith_symbol hdot (fun heq => hc (by rw [← heq]; decide)) _

theorem IsWritten.endsModifiers_append {type : WrittenType} {t : Token} (h : IsWritten ts type)
    (ht : t.kind = .word name) (rest : List Token) : EndsModifiers (ts ++ t :: rest) := by
  obtain ⟨t', w, r, rfl, ht', hw, hnext⟩ := h.exists_cons ht
  exact .word ht' hw.1 (hnext '-' rest (by decide))

theorem reads_writtenType {m : List Token} {type : WrittenType} {t : Token} (hm : IsModifiers m)
    (h : IsWritten ts type) (ht : t.kind = .word name) (hs : s = m ++ (ts ++ t :: rest)) :
    Reads (writtenType s) type (t :: rest) := by
  -- The reader takes the modifiers of a type, those of a parameter among them.
  refine (loopReads_modifiers hm (h.endsModifiers_append ht rest) hs).bind fun u₁ h₁ => ?_
  cases h with
  | @intro first w last n tail dims hfirst hw htail hdims =>
  rw [List.cons_append, List.append_assoc] at h₁
  refine (reads_identifier hfirst h₁).bind fun u₂ h₂ => ?_
  refine (loopReads_furtherParts htail (hdims.endsTail_append ht rest) h₂).bind fun u₃ h₃ => ?_
  exact (loopReads_dimensions hdims ht h₃).bind fun _ hleft => ⟨_, rfl, hleft⟩

end types

/-! ## Section 2: Parameters -/

section parameters

variable {s ts rest : List Token}

theorem nameDimensions_eq {n : Nat} (h : IsPairs ts n)
    (hrest : startsWith (.symbol '[') rest = false) :
    (nameDimensions (ts ++ rest)).1 = n ∧ (nameDimensions (ts ++ rest)).2.left = rest := by
  induction h with
  | nil =>
    rw [List.nil_append, nameDimensions]
    · exact ⟨rfl, rfl⟩
    · rintro _ _ _ _ _ rfl
      exact startsWith_cons.1 hrest rfl
  | @more opening closing n ts hopening hclosing _ ih =>
    obtain ⟨_, p, d⟩ := opening
    obtain ⟨_, p', d'⟩ := closing
    cases hopening
    cases hclosing
    rw [List.cons_append, List.cons_append, nameDimensions]
    exact ⟨congrArg (· + 1) ih.1, ih.2⟩

theorem reads_parameter {x : Parameter} (h : IsParameter ts x)
    (hrest : startsWith (.symbol '[') rest = false) (hs : s = ts ++ rest) :
    Reads (parameter s) x rest := by
  cases h with
  | @intro t name type n m ts pairs hm htype ht _ hpairs =>
  rw [List.append_assoc, List.append_assoc, List.cons_append] at hs
  obtain ⟨hn, hleft⟩ := nameDimensions_eq hpairs hrest
  refine (reads_writtenType hm htype ht hs).bind fun u hu => ?_
  refine (reads_identifier ht hu).bind fun v hv => ?_
  rw [← hv] at hn hleft
  subst hn
  exact ⟨_, rfl, hleft⟩

/-- A parameter is not taken for the end of its list. -/
theorem IsParameter.startsWith_append {x : Parameter} (h : IsParameter ts x) (rest : List Token) :
    startsWith (.symbol ')') (ts ++ rest) = false := by
  cases h with
  | intro hm htype ht _ _ =>
  obtain ⟨t', w, r, rfl, ht', -⟩ := htype.exists_cons ht
  rw [List.append_assoc]
  exact hm.startsWith_append (by decide) nofun (startsWith_word ht' ')' _)

theorem IsParameter.name_ne_this {x : Parameter} (h : IsParameter ts x) : x.name ≠ "this" := by
  cases h with
  | intro _ _ _ hname _ =>
  rintro rfl
  exact hname.2 (by decide)

theorem reads_parameters_close {t : Token} (ht : t.kind = .symbol ')') (hs : s = t :: rest) :
    Reads (parameters s) [] rest := by
  obtain ⟨_, p, d⟩ := t
  cases ht
  subst hs
  rw [parameters]
  exact ⟨_, rfl, rfl⟩

/-- A parameter, what separates it from the others, and the others. -/
theorem reads_parameters_cons {x : Parameter} {xs : List Parameter} {mid left : List Token}
    (hx : IsParameter ts x) (hmid : startsWith (.symbol '[') mid = false)
    (hseparator : ∀ {s : List Token}, s = mid → LoopReads (separator s) () left)
    (hmore : ∀ {s : List Token}, s = left → Reads (parameters s) xs rest)
    (hs : s = ts ++ mid) : Reads (parameters s) (x :: xs) rest := by
  have hclose : startsWith (.symbol ')') s = false := hs ▸ hx.startsWith_append mid
  rw [parameters]
  · refine (reads_parameter hx hmid hs).bind fun u₁ h₁ => ?_
    refine (hseparator h₁).bind fun u₂ h₂ => ?_
    refine (hmore h₂).bind fun u₃ h₃ => ⟨u₁.append (u₂.append u₃.toRest), ?_, h₃⟩
    simp only [hx.name_ne_this, if_false]
    rfl
  · rintro p d r' rfl
    exact startsWith_cons.1 hclose rfl

/-- The parameters after their opening parenthesis. -/
theorem reads_parameterList {xs : List Parameter} {closing : Token} (h : IsParameterList ts xs)
    (hclosing : closing.kind = .symbol ')') (hs : s = ts ++ closing :: rest) :
    Reads (parameters s) xs rest := by
  induction h generalizing s with
  | @last x ts hx =>
    refine reads_parameters_cons hx (startsWith_symbol hclosing (by decide) rest) ?_
      (reads_parameters_close hclosing) hs
    rintro _ rfl
    obtain ⟨_, p, d⟩ := closing
    cases hclosing
    exact ⟨_, rfl, rfl⟩
  | @more comma x xs ts ts' hx hcomma _ ih =>
    rw [List.append_assoc, List.cons_append] at hs
    refine reads_parameters_cons hx (startsWith_symbol hcomma (by decide) _) ?_ ih hs
    rintro _ rfl
    obtain ⟨_, p, d⟩ := comma
    cases hcomma
    exact ⟨_, rfl, rfl⟩

/-- The parameters of a member start with a parenthesis, and they are read after it. -/
theorem IsParameters.exists_cons {xs : List Parameter} (h : IsParameters ts xs) :
    ∃ t r, ts = t :: r ∧ t.kind = .symbol '(' ∧
      ∀ {s rest : List Token}, s = r ++ rest → Reads (parameters s) xs rest := by
  cases h with
  | none hopening hclosing =>
    exact ⟨_, _, rfl, hopening, fun hs => reads_parameters_close hclosing hs⟩
  | some hopening hlist hclosing =>
    refine ⟨_, _, rfl, hopening, ?_⟩
    intro s rest hs
    rw [List.append_assoc] at hs
    exact reads_parameterList hlist hclosing hs

end parameters

/-! ## Section 3: Type variables -/

section bindings

variable {t : Token} {s ts r rest : List Token} {depth : Nat} {names : List String}

/-- Tokens that are neither brackets nor commas are passed over, words too once a name was found. -/
theorem reads_variableNames_token (ht : t.kind ∉ ['<', '>', ',', '@'].map TokenKind.symbol)
    (h : Reads (variableNames depth false r) names rest) :
    Reads (variableNames depth false (t :: r)) names rest := by
  -- The reader treats words apart, since the first one is the name of the variable.
  by_cases hword : ∃ w, t.kind = .word w
  · obtain ⟨w, hw⟩ := hword
    obtain ⟨_, p, d⟩ := t
    cases hw
    rw [variableNames]
    exact h.bind fun _ hleft => ⟨_, rfl, hleft⟩
  · rw [variableNames]
    · exact h.bind fun _ hleft => ⟨_, rfl, hleft⟩
    · rintro _ _ rfl
      exact ht (List.mem_map_of_mem (by decide))
    · rintro _ _ rfl
      exact ht (List.mem_map_of_mem (by decide))
    · rintro _ _ rfl
      exact ht (List.mem_map_of_mem (by decide))
    · rintro _ _ rfl
      exact ht (List.mem_map_of_mem (by decide))
    · rintro w _ _ rfl
      exact hword ⟨w, rfl⟩

theorem reads_variableNames_name {name : String} (ht : t.kind = .word name)
    (h : Reads (variableNames depth false r) names rest) :
    Reads (variableNames depth true (t :: r)) (name :: names) rest := by
  obtain ⟨_, p, d⟩ := t
  cases ht
  rw [variableNames]
  exact h.bind fun _ hleft => ⟨_, rfl, hleft⟩

theorem reads_variableNames_open (ht : t.kind = .symbol '<')
    (h : Reads (variableNames (depth + 1) false r) names rest) :
    Reads (variableNames depth false (t :: r)) names rest := by
  obtain ⟨_, p, d⟩ := t
  cases ht
  rw [variableNames]
  exact h.bind fun _ hleft => ⟨_, rfl, hleft⟩

theorem reads_variableNames_close (ht : t.kind = .symbol '>')
    (h : Reads (variableNames depth false r) names rest) :
    Reads (variableNames (depth + 1) false (t :: r)) names rest := by
  obtain ⟨_, p, d⟩ := t
  cases ht
  rw [variableNames]
  exact h.bind fun _ hleft => ⟨_, rfl, hleft⟩

theorem reads_variableNames_end (ht : t.kind = .symbol '>') (first : Bool) (r : List Token) :
    Reads (variableNames 0 first (t :: r)) [] r := by
  obtain ⟨_, p, d⟩ := t
  cases ht
  rw [variableNames]
  exact ⟨_, rfl, rfl⟩

/-- A comma starts the next variable where no brackets are open inside the list. -/
theorem reads_variableNames_comma {first : Bool} (ht : t.kind = .symbol ',')
    (h : Reads (variableNames depth (first || depth == 0) r) names rest) :
    Reads (variableNames depth first (t :: r)) names rest := by
  obtain ⟨_, p, d⟩ := t
  cases ht
  rw [variableNames]
  exact h.bind fun _ hleft => ⟨_, rfl, hleft⟩

theorem reads_variableNames_annotated {a : List Token} {first : Bool} (ha : IsAnnotation a)
    (hr : EndsAnnotation r)
    (h : ∀ {s : List Token}, s = r → Reads (variableNames depth first s) names rest)
    (hs : s = a ++ r) : Reads (variableNames depth first s) names rest := by
  obtain ⟨sign, t, w, a, rfl, hsign, -, -, hread⟩ := ha.exists_cons
  obtain ⟨_, p, d⟩ := sign
  cases hsign
  rw [List.cons_append] at hs
  subst hs
  rw [variableNames]
  exact (hread hr rfl).bind fun u hu => (h hu).bind fun _ hleft => ⟨_, rfl, hleft⟩

/-- The bounds of a variable are passed over, up to what ends the variable. -/
theorem reads_bound {inside : Bool} {c : Char} (h : IsBound inside ts)
    (ht : t.kind = .symbol c) (hc : c ∉ ['.', '(']) (hdepth : inside = true → 0 < depth)
    (hafter : Reads (variableNames depth false (t :: r)) names rest) (hs : s = ts ++ t :: r) :
    Reads (variableNames depth false s) names rest := by
  induction h generalizing s t r depth c with
  | nil =>
    subst hs
    exact hafter
  | @token inside u ts hu _ ih =>
    subst hs
    exact reads_variableNames_token hu (ih ht hc hdepth hafter rfl)
  | @comma u ts hu _ ih =>
    subst hs
    -- Inside brackets a comma does not start a variable.
    have hfirst : (false || depth == 0) = false := by
      have := hdepth rfl
      simp
      omega
    refine reads_variableNames_comma hu ?_
    rw [hfirst]
    exact ih ht hc hdepth hafter rfl
  | @nested opening closing inside ts ts' hopening _ hclosing _ ih ih' =>
    rw [List.cons_append, List.append_assoc] at hs
    subst hs
    -- What follows the inner brackets is read at the depth before them.
    have hclose := reads_variableNames_close hclosing (ih' ht hc hdepth hafter rfl)
    exact reads_variableNames_open hopening
      (ih hclosing (by decide) (fun _ => Nat.succ_pos depth) hclose rfl)
  | @annotated inside a ts ha hends _ ih =>
    rw [List.append_assoc] at hs
    exact reads_variableNames_annotated ha (hends.append ht hc r)
      (ih ht hc hdepth hafter) hs

theorem reads_variable {name : String} {c : Char} (h : IsVariable ts name)
    (ht : t.kind = .symbol c) (hc : c ∉ ['.', '('])
    (hafter : Reads (variableNames 0 false (t :: r)) names rest) (hs : s = ts ++ t :: r) :
    Reads (variableNames 0 true s) (name :: names) rest := by
  induction h generalizing s with
  | @intro u name ts hu _ hbound =>
    subst hs
    exact reads_variableNames_name hu (reads_bound hbound ht hc nofun hafter rfl)
  | @annotated name a ts ha hvariable ih =>
    have hends : EndsAnnotation (ts ++ t :: r) := by
      cases hvariable with
      | intro hu _ _ => exact endsAnnotation_word hu _
      | annotated ha _ =>
        rw [List.append_assoc]
        exact ha.endsAnnotation_append _
    rw [List.append_assoc] at hs
    exact reads_variableNames_annotated ha hends ih hs

theorem reads_variableList {closing : Token} (h : IsVariableList ts names)
    (hclosing : closing.kind = .symbol '>') (hs : s = ts ++ closing :: rest) :
    Reads (variableNames 0 true s) names rest := by
  induction h generalizing s with
  | last hvariable =>
    exact reads_variable hvariable hclosing (by decide)
      (reads_variableNames_end hclosing false rest) hs
  | more hvariable hcomma _ ih =>
    rw [List.append_assoc] at hs
    exact reads_variable hvariable hcomma (by decide) (reads_variableNames_comma hcomma (ih rfl)) hs

/-- A list of type variables starts with its bracket, and it is read after it. -/
theorem IsVariables.exists_cons (h : IsVariables ts names) :
    ∃ t r, ts = t :: r ∧ t.kind = .symbol '<' ∧
      ∀ {s rest : List Token}, s = r ++ rest → Reads (variableNames 0 true s) names rest := by
  cases h with
  | intro hopening hlist hclosing =>
    refine ⟨_, _, rfl, hopening, ?_⟩
    intro s rest hs
    rw [List.append_assoc] at hs
    exact reads_variableList hlist hclosing hs

end bindings

end TypeCatalog.Source
