import TypeCatalog.Proofs.Source.Types

/-! # Members are read

    Fields, methods, constructors and enum constants, with the documentation that waits before
    them. A clause is passed over by two readers, which differ in what ends it; what they have in
    common is stated once. -/

set_option autoImplicit false

namespace TypeCatalog.Source

/-! ## Section 1: Clauses -/

/-- How a reader passes over a clause: over parentheses at once, over other tokens one by one. -/
structure PassesClause (ends : List Char) (f : (s : List Token) → Reading Unit s) : Prop where
  token {t : Token} {r rest : List Token} (ht : t.kind ∉ ('(' :: ends).map TokenKind.symbol)
    (h : Reads (f r) () rest) : Reads (f (t :: r)) () rest
  group {t : Token} {r left rest : List Token} (ht : t.kind = .symbol '(')
    (hgroup : Reads (group '(' ')' r) () left)
    (h : ∀ {s : List Token}, s = left → Reads (f s) () rest) : Reads (f (t :: r)) () rest

/-- What is read after a clause is read with the clause before it. -/
theorem PassesClause.reads {ends : List Char} {f : (s : List Token) → Reading Unit s}
    (hf : PassesClause ends f) {s ts left rest : List Token} (h : IsClause ends ts)
    (hleft : ∀ {s : List Token}, s = left → Reads (f s) () rest) (hs : s = ts ++ left) :
    Reads (f s) () rest := by
  induction h generalizing s with
  | nil => exact hleft hs
  | token ht _ ih =>
    subst hs
    exact hf.token ht (ih rfl)
  | group hg _ ih =>
    obtain ⟨t, r, rfl, ht, hread⟩ := hg.exists_cons (by decide)
    rw [List.append_assoc, List.cons_append] at hs
    subst hs
    exact hf.group ht (hread rfl) ih

theorem passesClause_methodTail : PassesClause [';', '\x7b'] methodTail where
  token {t r rest} ht h := by
    rw [methodTail]
    · exact h.bind fun _ hleft => ⟨_, rfl, hleft⟩
    · rintro _ _ rfl
      exact ht (List.mem_map_of_mem (by decide))
    · rintro _ _ rfl
      exact ht (List.mem_map_of_mem (by decide))
    · rintro _ _ rfl
      exact ht (List.mem_map_of_mem (by decide))
  group {t r left rest} ht hgroup h := by
    obtain ⟨_, p, d⟩ := t
    cases ht
    rw [methodTail]
    exact hgroup.bind fun u hu => (h hu).bind fun _ hleft => ⟨_, rfl, hleft⟩

theorem passesClause_typeHeader : PassesClause ['\x7b'] typeHeader where
  token {t r rest} ht h := by
    rw [typeHeader]
    · exact h.bind fun _ hleft => ⟨_, rfl, hleft⟩
    · rintro _ _ rfl
      exact ht (List.mem_map_of_mem (by decide))
    · rintro _ _ rfl
      exact ht (List.mem_map_of_mem (by decide))
  group {t r left rest} ht hgroup h := by
    obtain ⟨_, p, d⟩ := t
    cases ht
    rw [typeHeader]
    exact hgroup.bind fun u hu => (h hu).bind fun _ hleft => ⟨_, rfl, hleft⟩

theorem reads_methodTail {s ts rest : List Token} (h : IsMemberEnd ts) (hs : s = ts ++ rest) :
    Reads (methodTail s) () rest := by
  cases h with
  | @semicolon t ts hclause ht =>
    rw [List.append_assoc] at hs
    refine passesClause_methodTail.reads hclause ?_ hs
    rintro _ rfl
    obtain ⟨_, p, d⟩ := t
    cases ht
    rw [List.singleton_append, methodTail]
    exact ⟨_, rfl, rfl⟩
  | @body ts g hclause hg =>
    rw [List.append_assoc] at hs
    refine passesClause_methodTail.reads hclause ?_ hs
    rintro _ rfl
    obtain ⟨t, r, rfl, ht, hread⟩ := hg.exists_cons (by decide)
    obtain ⟨_, p, d⟩ := t
    cases ht
    rw [List.cons_append, methodTail]
    exact (hread rfl).bind fun _ hleft => ⟨_, rfl, hleft⟩

/-! ## Section 2: Fields -/

section fields

variable {s ts rest : List Token} {names : List String}

theorem reads_furtherFields_pairs {n : Nat} {left : List Token} (h : IsPairs ts n)
    (hleft : ∀ {s : List Token}, s = left → Reads (furtherFields s) names rest)
    (hs : s = ts ++ left) : Reads (furtherFields s) names rest := by
  induction h generalizing s with
  | nil => exact hleft hs
  | @more opening closing n ts hopening hclosing _ ih =>
    have hgroup : Reads (group '[' ']' (closing :: (ts ++ left))) () (ts ++ left) :=
      reads_group (by decide) (show WellNested '[' ']' [] from rfl) hclosing rfl
    obtain ⟨_, p, d⟩ := opening
    cases hopening
    subst hs
    rw [List.cons_append, List.cons_append, furtherFields]
    exact hgroup.bind fun u hu => (ih hu).bind fun _ hleft => ⟨_, rfl, hleft⟩

/-- The name of a field with its dimensions is not taken for the name of a method. -/
theorem IsPairs.startsWith_append {n : Nat} {t : Token} {c : Char} (h : IsPairs ts n)
    (ht : t.kind = .symbol c) (hc : c ≠ '(') (rest : List Token) :
    startsWith (.symbol '(') (ts ++ t :: rest) = false := by
  cases h with
  | nil => exact startsWith_symbol ht hc rest
  | more hopening _ _ => exact startsWith_symbol hopening (by decide) _

/-- Fields start with the name of the first of them, and the others are read after it. -/
theorem IsFieldNames.exists_cons (h : IsFieldNames ts names) :
    ∃ t name names' r, ts = t :: r ∧ names = name :: names' ∧ t.kind = .word name ∧
      (∀ rest, startsWith (.symbol '(') (r ++ rest) = false) ∧
      ∀ {s rest : List Token}, s = r ++ rest → Reads (furtherFields s) names' rest := by
  induction h with
  | @last t semicolon name n pairs ht _ hpairs hsemicolon =>
    refine ⟨t, name, [], _, rfl, rfl, ht, ?_, ?_⟩
    · intro rest
      rw [List.append_assoc]
      exact hpairs.startsWith_append hsemicolon (by decide) rest
    · intro s rest hs
      rw [List.append_assoc] at hs
      refine reads_furtherFields_pairs hpairs ?_ hs
      rintro _ rfl
      obtain ⟨_, p, d⟩ := semicolon
      cases hsemicolon
      rw [List.singleton_append, furtherFields]
      exact ⟨_, rfl, rfl⟩
  | @more t comma name names n pairs ts ht _ hpairs hcomma _ ih =>
    obtain ⟨t', name', names', r, rfl, rfl, ht', -, hread⟩ := ih
    refine ⟨t, name, _, _, rfl, rfl, ht, ?_, ?_⟩
    · intro rest
      rw [List.append_assoc]
      exact hpairs.startsWith_append hcomma (by decide) _
    · intro s rest hs
      rw [List.append_assoc] at hs
      refine reads_furtherFields_pairs hpairs ?_ hs
      rintro _ rfl
      obtain ⟨_, p, d⟩ := comma
      cases hcomma
      rw [List.cons_append, List.cons_append, furtherFields]
      refine (reads_identifier ht' rfl).bind fun u hu => ?_
      exact (hread hu).bind fun _ hleft => ⟨_, rfl, hleft⟩

end fields

/-! ## Section 3: Members -/

section members

variable {s ts rest : List Token} {owner docs name : String} {names : List String}

/-- The parameters of a member and its end, after its name and the opening parenthesis. -/
theorem reads_callable {kind : MemberKind} {xs : List Parameter} {e : List Token} {t : Token}
    {r : List Token} (h : IsParameters (t :: r) xs) (hend : IsMemberEnd e)
    (hs : s = r ++ (e ++ rest)) :
    Reads (callable kind docs name names s) [⟨kind, name, docs, names, xs⟩] rest := by
  obtain ⟨_, _, heq, -, hread⟩ := h.exists_cons
  obtain ⟨-, rfl⟩ := List.cons.inj heq
  refine (hread hs).bind fun u hu => ?_
  exact (reads_methodTail hend hu).bind fun _ hleft => ⟨_, rfl, hleft⟩

theorem reads_afterMemberName_fields {names' : List String}
    (hs : startsWith (.symbol '(') s = false) (hread : Reads (furtherFields s) names' rest) :
    Reads (afterMemberName docs name names s) ((name :: names').map (Member.ofField docs))
      rest := by
  rw [afterMemberName]
  · exact hread.bind fun _ hleft => ⟨_, rfl, hleft⟩
  · rintro p d r rfl
    exact startsWith_cons.1 hs rfl

theorem reads_afterMemberName_method {xs : List Parameter} {ps e : List Token}
    (h : IsParameters ps xs) (hend : IsMemberEnd e) (hs : s = ps ++ (e ++ rest)) :
    Reads (afterMemberName docs name names s) [⟨.method, name, docs, names, xs⟩] rest := by
  obtain ⟨t, r, rfl, ht, -⟩ := h.exists_cons
  obtain ⟨_, p, d⟩ := t
  cases ht
  subst hs
  rw [List.cons_append, afterMemberName]
  exact (reads_callable h hend rfl).bind fun _ hleft => ⟨_, rfl, hleft⟩

/-- A field or a method from its type on. -/
theorem reads_typedMembers {type : WrittenType} {t : Token} {found : List Member} {r : List Token}
    (htype : IsWritten ts type) (ht : t.kind = .word name)
    (hread : ∀ {s : List Token}, s = r → Reads (afterMemberName docs name names s) found rest)
    (hs : s = ts ++ t :: r) : Reads (typedMembers docs names s) found rest := by
  refine (reads_writtenType .nil htype ht hs).bind fun u hu => ?_
  refine (reads_identifier ht hu).bind fun v hv => ?_
  exact (hread hv).bind fun _ hleft => ⟨_, rfl, hleft⟩

/-- A type with the name of the member after it is not taken for a constructor. -/
theorem membersAfterVariables_eq {type : WrittenType} {t : Token} (htype : IsWritten ts type)
    (ht : t.kind = .word name) (r : List Token) :
    membersAfterVariables owner docs names (ts ++ t :: r) =
      typedMembers docs names (ts ++ t :: r) := by
  obtain ⟨t', w, r', rfl, -, -, hnext⟩ := htype.exists_cons ht
  rw [membersAfterVariables]
  rintro w p d p' d' r'' heq
  have hparen := hnext '(' r (by decide)
  have htail : r' ++ t :: r = ⟨.symbol '(', p', d'⟩ :: r'' := (List.cons.inj heq).2
  rw [htail] at hparen
  exact startsWith_cons.1 hparen rfl

theorem reads_membersAfterVariables_constructor {t : Token} {xs : List Parameter}
    {ps e : List Token} (ht : t.kind = .word owner) (h : IsParameters ps xs)
    (hend : IsMemberEnd e) (hs : s = t :: (ps ++ (e ++ rest))) :
    Reads (membersAfterVariables owner docs names s)
      [⟨.constructor, owner, docs, names, xs⟩] rest := by
  obtain ⟨t', r, rfl, ht', -⟩ := h.exists_cons
  obtain ⟨_, p, d⟩ := t
  obtain ⟨_, p', d'⟩ := t'
  cases ht
  cases ht'
  subst hs
  rw [List.cons_append, membersAfterVariables, if_pos rfl]
  exact (reads_callable h hend rfl).bind fun _ hleft => ⟨_, rfl, hleft⟩

theorem loopReads_memberVariables (h : IsMemberVariables ts names) (hends : EndsModifiers rest)
    (hrest : startsWith (.symbol '<') rest = false) (hs : s = ts ++ rest) :
    LoopReads (memberVariables s) names rest := by
  cases h with
  | none =>
    have hs : s = rest := hs
    subst hs
    rw [memberVariables]
    · exact ⟨_, rfl, rfl⟩
    · rintro p d r rfl
      exact startsWith_cons.1 hrest rfl
  | @some names vs m hvariables hm =>
    obtain ⟨t, r, rfl, ht, hread⟩ := hvariables.exists_cons
    obtain ⟨_, p, d⟩ := t
    cases ht
    rw [List.append_assoc, List.cons_append] at hs
    subst hs
    rw [memberVariables]
    refine (hread rfl).bind fun u hu => ?_
    exact (loopReads_modifiers hm hends hu).bind fun _ hleft => ⟨_, rfl, hleft⟩

/-- What follows the type variables of a member starts with a word that is no modifier. -/
theorem reads_members_variables {t : Token} {w : String} {r : List Token} {found : List Member}
    (h : IsMemberVariables ts names) (ht : t.kind = .word w) (hw : w ∉ modifierWords)
    (hr : startsWith (.symbol '-') r = false)
    (hread : ∀ {s : List Token}, s = t :: r →
      Reads (membersAfterVariables owner docs names s) found rest)
    (hs : s = ts ++ t :: r) : Reads (members owner docs s) found rest := by
  have hends : EndsModifiers (t :: r) := .word ht hw hr
  refine (loopReads_memberVariables h hends (startsWith_word ht '<' r) hs).bind fun u hu => ?_
  exact (hread hu).bind fun _ hleft => ⟨_, rfl, hleft⟩

/-- A member that has a type: its type variables, its type, its name and what follows the name. -/
theorem reads_members_typed {type : WrittenType} {v : List Token} {t : Token} {r : List Token}
    {found : List Member} (h : IsMemberVariables v names) (htype : IsWritten ts type)
    (ht : t.kind = .word name)
    (hread : ∀ {s : List Token}, s = r → Reads (afterMemberName docs name names s) found rest)
    (hs : s = v ++ (ts ++ t :: r)) : Reads (members owner docs s) found rest := by
  obtain ⟨t', w, r', rfl, ht', hw, hnext⟩ := htype.exists_cons ht
  refine reads_members_variables h ht' hw.1 (hnext '-' r (by decide)) ?_ hs
  rintro _ rfl
  rw [← List.cons_append, membersAfterVariables_eq htype ht]
  exact reads_typedMembers htype ht hread rfl

/-- The members of one declaration are read from it. -/
theorem reads_members {ms : List Member} (howner : IsIdentifier owner)
    (h : IsMember owner docs ts ms) (hs : s = ts ++ rest) :
    Reads (members owner docs s) ms rest := by
  cases h with
  | @fields type names ts ts' htype hnames =>
    obtain ⟨t, name, names', r, rfl, rfl, ht, hcall, hread⟩ := hnames.exists_cons
    rw [List.append_assoc, List.cons_append] at hs
    refine reads_members_typed .none htype ht ?_ hs
    rintro _ rfl
    exact reads_afterMemberName_fields (hcall rest) (hread rfl)
  | @method t name names xs type vs ts ps e hvariables htype ht _ hps hend =>
    rw [List.append_assoc, List.append_assoc, List.cons_append, List.append_assoc] at hs
    exact reads_members_typed hvariables htype ht (reads_afterMemberName_method hps hend) hs
  | @constructor t names xs vs ps e hvariables ht hps hend =>
    -- The name of a constructor may be a word that starts a modifier when a dash follows.
    have hdash : startsWith (.symbol '-') (ps ++ (e ++ rest)) = false := by
      obtain ⟨opening, r, rfl, hopening, -⟩ := hps.exists_cons
      exact startsWith_symbol hopening (by decide) _
    rw [List.append_assoc, List.cons_append, List.append_assoc] at hs
    exact reads_members_variables hvariables ht howner.1 hdash
      (reads_membersAfterVariables_constructor ht hps hend) hs

/-- Tokens that start like a member does, with type variables or with a type or a name. -/
structure StartsMember (s : List Token) : Prop where
  first : ∃ t r, s = t :: r ∧ (t.kind = .symbol '<' ∨ ∃ w, t.kind = .word w ∧ IsIdentifier w)
  ends (rest : List Token) : EndsModifiers (s ++ rest)

theorem StartsMember.ne_nil (h : StartsMember s) : s ≠ [] := by
  obtain ⟨t, r, rfl, -⟩ := h.first
  exact List.cons_ne_nil t r

theorem StartsMember.startsWith_append (h : StartsMember s) {c : Char} (hc : c ≠ '<')
    (rest : List Token) : startsWith (.symbol c) (s ++ rest) = false := by
  obtain ⟨t, r, rfl, ht | ⟨w, ht, -⟩⟩ := h.first
  · exact startsWith_symbol ht hc.symm _
  · exact startsWith_word ht c _

theorem IsMemberVariables.startsMember (h : IsMemberVariables ts names) (hs : StartsMember s) :
    StartsMember (ts ++ s) := by
  cases h with
  | none => exact hs
  | some hvariables _ =>
    obtain ⟨t, r, rfl, ht, -⟩ := hvariables.exists_cons
    exact ⟨⟨t, _, rfl, .inl ht⟩, fun rest => .symbol ht (by decide)⟩

theorem IsWritten.startsMember {type : WrittenType} {t : Token} (h : IsWritten ts type)
    (ht : t.kind = .word name) (r : List Token) : StartsMember (ts ++ t :: r) := by
  constructor
  · obtain ⟨t', w, r', rfl, ht', hw, -⟩ := h.exists_cons ht
    exact ⟨t', _, rfl, .inr ⟨w, ht', hw⟩⟩
  · intro rest
    rw [List.append_assoc]
    exact h.endsModifiers_append ht _

theorem IsMember.startsMember {ms : List Member} (howner : IsIdentifier owner)
    (h : IsMember owner docs ts ms) : StartsMember ts := by
  cases h with
  | fields htype hnames =>
    obtain ⟨t, name, names', r, rfl, -, ht, -⟩ := hnames.exists_cons
    exact htype.startsMember ht r
  | method hvariables htype ht _ _ _ => exact hvariables.startsMember (htype.startsMember ht _)
  | @constructor t names xs v ps e hvariables ht hps _ =>
    refine hvariables.startsMember ⟨⟨t, _, rfl, .inr ⟨owner, ht, howner⟩⟩, ?_⟩
    intro rest
    obtain ⟨opening, r, rfl, hopening, -⟩ := hps.exists_cons
    exact .word ht howner.1 (startsWith_symbol hopening (by decide) _)

end members

/-! ## Section 4: Documentation -/

theorem Documented.docs_eq {s : List Token} {docs : String} (h : Documented s docs) :
    (match s.findSome? Token.docs with
      | some comment => docsText comment
      | none => "") = docs := by
  cases h with
  | undocumented hnone =>
    have hfind : s.findSome? Token.docs = none := List.findSome?_eq_none_iff.2 hnone
    rw [hfind]
  | @documented t comment s ht => rw [List.findSome?_cons_of_isSome (by rw [ht]; rfl), ht]

/-- The documentation of a declaration is found at its first token. -/
theorem Documented.docsBetween_eq {m b : List Token} {docs : String}
    (h : Documented (m ++ b.take 1) docs) (hb : b ≠ []) (rest : List Token) :
    docsBetween (m ++ (b ++ rest)) (b ++ rest) = docs := by
  have hfront : takenBefore (m ++ (b ++ rest)) (b ++ rest) ++ (b ++ rest).take 1 =
      m ++ b.take 1 := by
    obtain ⟨t, b, rfl⟩ := List.exists_cons_of_ne_nil hb
    simp [takenBefore]
  rw [docsBetween, hfront]
  exact h.docs_eq

/-! ## Section 5: Enum constants -/

section constants

variable {s ts r rest left : List Token} {c : Member}

/-- A constant is not taken for the end of the constants. -/
theorem IsConstant.startsWith_append {a : Char} (h : IsConstant ts c) (ha : a ≠ '@')
    (rest : List Token) : startsWith (.symbol a) (ts ++ rest) = false := by
  cases h with
  | intro hm ht _ _ _ _ =>
  rw [List.append_assoc]
  exact hm.startsWith_append (by simpa using ha) nofun (startsWith_word ht a _)

/-- An optional group before other tokens starts with no other bracket. -/
theorem IsOptionalGroup.startsWith_append {o c a : Char} {g : List Token}
    (h : IsOptionalGroup o c g) (hne : o ≠ c) (ha : a ≠ o)
    (hrest : startsWith (.symbol a) rest = false) : startsWith (.symbol a) (g ++ rest) = false := by
  cases h with
  | none => exact hrest
  | some hg =>
    obtain ⟨t, r, rfl, ht, -⟩ := hg.exists_cons hne
    exact startsWith_symbol ht ha.symm _

theorem reads_enumConstant {t : Token} {a : Char} (h : IsConstant ts c)
    (ht : t.kind = .symbol a) (ha : a ∈ [';', '\x7d', ',']) (hs : s = ts ++ t :: r) :
    Reads (enumConstant s) c (t :: r) := by
  have hr {o : Char} (ho : o ∉ [';', '\x7d', ',']) : startsWith (.symbol o) (t :: r) = false :=
    startsWith_symbol ht (fun heq => ho (by rw [← heq]; exact ha)) r
  cases h with
  | @intro name w docs m args b hm hname hw hdocs hargs hb =>
  have hparen := hb.startsWith_append (a := '(') (by decide) (by decide) (hr (by decide))
  have hdash := hargs.startsWith_append (a := '-') (by decide) (by decide)
    (hb.startsWith_append (a := '-') (by decide) (by decide) (hr (by decide)))
  rw [List.append_assoc, List.cons_append, List.append_assoc] at hs
  refine (loopReads_modifiers hm (.word hname hw.1 hdash) hs).bind fun u₁ h₁ => ?_
  -- What the modifiers leave starts with the name, which the documentation may wait at.
  have hfound : docsBetween s u₁.left = docs := by
    rw [h₁, hs]
    exact Documented.docsBetween_eq (b := [name]) hdocs (List.cons_ne_nil _ _) _
  subst hfound
  refine (reads_identifier hname h₁).bind fun u₂ h₂ => ?_
  refine (loopReads_optionalGroup (by decide) hargs hparen h₂).bind fun u₃ h₃ => ?_
  refine (loopReads_optionalGroup (by decide) hb (hr (by decide)) h₃).bind fun u₄ h₄ => ?_
  exact ⟨_, rfl, h₄⟩

theorem loopReads_enumConstants_comma {t : Token} {cs : List Member} (ht : t.kind = .symbol ',')
    (h : LoopReads (enumConstants r) cs left) (hs : s = t :: r) :
    LoopReads (enumConstants s) cs left := by
  obtain ⟨_, p, d⟩ := t
  cases ht
  subst hs
  rw [enumConstants]
  exact h.bind fun _ hleft => ⟨_, rfl, hleft⟩

theorem loopReads_enumConstants_cons {t : Token} {a : Char} {cs : List Member}
    (h : IsConstant ts c) (ht : t.kind = .symbol a) (ha : a ∈ [';', '\x7d', ','])
    (hmore : ∀ {s : List Token}, s = t :: r → LoopReads (enumConstants s) cs left)
    (hs : s = ts ++ t :: r) : LoopReads (enumConstants s) (c :: cs) left := by
  have hstart {b : Char} (hb : b ≠ '@') : startsWith (.symbol b) s = false :=
    hs ▸ h.startsWith_append hb (t :: r)
  rw [enumConstants]
  · refine (reads_enumConstant h ht ha hs).bind fun u hu => ?_
    exact (hmore hu).bind fun _ hleft => ⟨_, rfl, hleft⟩
  · rintro rfl
    exact List.append_ne_nil_of_right_ne_nil ts (List.cons_ne_nil t r) hs.symm
  · rintro p d q rfl
    exact startsWith_cons.1 (hstart (by decide)) rfl
  · rintro p d q rfl
    exact startsWith_cons.1 (hstart (by decide)) rfl
  · rintro p d q rfl
    exact startsWith_cons.1 (hstart (by decide)) rfl

/-- The constants of an enum, before the semicolon or the brace that ends them. -/
theorem loopReads_enumConstants {cs : List Member} {t : Token} {a : Char}
    (h : IsConstants ts cs) (ht : t.kind = .symbol a) (ha : a ∈ [';', '\x7d', ','])
    (hafter : ∀ {s : List Token}, s = t :: r → LoopReads (enumConstants s) [] left)
    (hs : s = ts ++ t :: r) : LoopReads (enumConstants s) cs left := by
  induction h generalizing s with
  | nil => exact hafter hs
  | last hc => exact loopReads_enumConstants_cons hc ht ha hafter hs
  | more hc hcomma _ ih =>
    rw [List.append_assoc] at hs
    exact loopReads_enumConstants_cons hc hcomma (by decide)
      (loopReads_enumConstants_comma hcomma (ih rfl)) hs

theorem loopReads_enumConstants_semicolon {t : Token} (ht : t.kind = .symbol ';')
    (hs : s = t :: r) : LoopReads (enumConstants s) [] r := by
  obtain ⟨_, p, d⟩ := t
  cases ht
  subst hs
  rw [enumConstants]
  exact ⟨_, rfl, rfl⟩

theorem loopReads_enumConstants_close {t : Token} (ht : t.kind = .symbol '\x7d')
    (hs : s = t :: r) : LoopReads (enumConstants s) [] (t :: r) := by
  obtain ⟨_, p, d⟩ := t
  cases ht
  subst hs
  rw [enumConstants]
  exact ⟨_, rfl, rfl⟩

end constants

end TypeCatalog.Source
