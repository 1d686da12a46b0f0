import TypeCatalog.Proofs.Outcome
import TypeCatalog.Proofs.Source.Places

/-! # Compact constructors

    In a record the constructor that is given all components can be written without parameters: the
    name of the record, and a body. No reader knows that form. It is taken for a member of which
    the name of the record is the type, and refused at the brace where the name of the member should
    be. With its parameters written out the same constructor is read, at any place between two
    declarations of any type, and it changes nothing else in the file. -/

set_option autoImplicit false

namespace TypeCatalog.Source

/-! ## Section 1: One member more -/

/-- A type with one member more, which bears its name, or a type in which an inner one is such a
    type. Nothing else differs. -/
inductive TypeUnit.Gains (m : Member) : TypeUnit → TypeUnit → Prop
  | here {t : TypeUnit} {before after : List Member} : t.name = m.name →
      t.members = before ++ after → Gains m t { t with members := before ++ m :: after }
  | inside {t inner inner' : TypeUnit} {before after : List TypeUnit} :
      t.types = before ++ inner :: after → Gains m inner inner' →
      Gains m t { t with types := before ++ inner' :: after }

/-- One of some types is with one member more. -/
def OneGains (m : Member) (ts ts' : List TypeUnit) : Prop :=
  ∃ before t t' after, ts = before ++ t :: after ∧ ts' = before ++ t' :: after ∧ t.Gains m t'

/-- A file in which one type is with one member more. -/
def SourceUnit.Gains (m : Member) (u u' : SourceUnit) : Prop :=
  u'.package = u.package ∧ OneGains m u.types u'.types

/-- A file that is read in part, in which one type is with one member more. -/
inductive OpenFile.Gains (m : Member) : OpenFile → OpenFile → Prop
  | complete {package : String} {types types' opened : List TypeUnit} :
      OneGains m types types' → Gains m ⟨package, types, opened⟩ ⟨package, types', opened⟩
  | opened {package : String} {types opened opened' : List TypeUnit} :
      OneGains m opened opened' → Gains m ⟨package, types, opened⟩ ⟨package, types, opened'⟩

section gains

variable {m : Member} {t t' : TypeUnit} {ts ts' : List TypeUnit} {f f' : OpenFile}

theorem TypeUnit.Gains.same_scope (h : t.Gains m t') :
    t'.name = t.name ∧ t'.typeVariables = t.typeVariables := by
  cases h with
  | here _ _ => exact ⟨rfl, rfl⟩
  | inside _ _ => exact ⟨rfl, rfl⟩

/-- What is read later is added to both. -/
theorem TypeUnit.Gains.with (h : t.Gains m t') (found : List Declared) :
    (t.with found).Gains m (t'.with found) := by
  cases h with
  | @here _ before after hname hmembers =>
    have hadded : (t.with found).members =
        before ++ (after ++ found.flatMap Declared.memberList) := by
      simp [TypeUnit.with, hmembers]
    have hgains := TypeUnit.Gains.here (t := t.with found) hname hadded
    simpa [TypeUnit.with] using hgains
  | @inside _ inner inner' before after htypes hinner =>
    have hadded : (t.with found).types =
        before ++ inner :: (after ++ found.filterMap Declared.type?) := by
      simp [TypeUnit.with, htypes]
    have hgains := TypeUnit.Gains.inside (t := t.with found) hadded hinner
    simpa [TypeUnit.with] using hgains

theorem OneGains.append (h : OneGains m ts ts') (more : List TypeUnit) :
    OneGains m (ts ++ more) (ts' ++ more) := by
  obtain ⟨before, t, t', after, rfl, rfl, ht⟩ := h
  exact ⟨before, t, t', after ++ more, by simp, by simp, ht⟩

theorem OneGains.cons (h : OneGains m ts ts') (t : TypeUnit) : OneGains m (t :: ts) (t :: ts') := by
  obtain ⟨before, u, u', after, rfl, rfl, hu⟩ := h
  exact ⟨t :: before, u, u', after, rfl, rfl, hu⟩

theorem TypeUnit.Gains.head (h : t.Gains m t') (ts : List TypeUnit) :
    OneGains m (t :: ts) (t' :: ts) :=
  ⟨[], t, t', ts, rfl, rfl, h⟩

/-- It is the first type or a later one. -/
theorem OneGains.cons_cases (h : OneGains m (t :: ts) ts') :
    (∃ t', t.Gains m t' ∧ ts' = t' :: ts) ∨ ∃ ts'', OneGains m ts ts'' ∧ ts' = t :: ts'' := by
  obtain ⟨_ | ⟨u, before⟩, u', u'', after, heq, rfl, hu⟩ := h
  · cases heq
    exact .inl ⟨u'', hu, rfl⟩
  · cases heq
    exact .inr ⟨_, ⟨before, u', u'', after, rfl, rfl, hu⟩, rfl⟩

theorem not_oneGains_nil : ¬ OneGains m [] ts' := by
  rintro ⟨before, t, t', after, heq, -, -⟩
  simp at heq

/-- A type that is declared has the one more member itself, or it is declared beside the one that
    has it. -/
theorem OpenFile.Gains.declare (h : f.Gains m f') (d : Declared) :
    (f.declare d).Gains m (f'.declare d) := by
  cases h with
  | @complete package types types' opened hgains =>
    cases opened with
    | nil => exact .complete (hgains.append _)
    | cons t outer => exact .complete hgains
  | @opened package types opened opened' hgains =>
    cases opened with
    | nil => exact absurd hgains not_oneGains_nil
    | cons t outer =>
      rcases hgains.cons_cases with ⟨t', ht, rfl⟩ | ⟨outer', houter, rfl⟩
      · exact .opened ((ht.with [d]).head outer)
      · exact .opened (houter.cons (t.with [d]))

theorem OneGains.declared_type (h : t.Gains m t') (f : OpenFile) :
    (f.declare (.type t)).Gains m (f.declare (.type t')) := by
  obtain ⟨package, types, opened⟩ := f
  cases opened with
  | nil =>
    refine .complete ⟨types, t, t', [], rfl, rfl, h⟩
  | cons outer opened =>
    have hinside : (outer.with [.type t]).Gains m (outer.with [.type t']) := by
      have htypes : (outer.with [.type t]).types = outer.types ++ t :: [] := rfl
      exact .inside htypes h
    exact .opened (hinside.head opened)

theorem OpenFile.Gains.leave (h : f.Gains m f') : f.leave.Gains m f'.leave := by
  cases h with
  | @complete package types types' opened hgains =>
    cases opened with
    | nil => exact .complete hgains
    | cons t outer =>
      have houter : (⟨package, types, outer⟩ : OpenFile).Gains m ⟨package, types', outer⟩ :=
        .complete hgains
      exact houter.declare (.type t)
  | @opened package types opened opened' hgains =>
    cases opened with
    | nil => exact absurd hgains not_oneGains_nil
    | cons t outer =>
      rcases hgains.cons_cases with ⟨t', ht, rfl⟩ | ⟨outer', houter, rfl⟩
      · exact OneGains.declared_type ht ⟨package, types, outer⟩
      · have houter : (⟨package, types, outer⟩ : OpenFile).Gains m ⟨package, types, outer'⟩ :=
          .opened houter
        exact houter.declare (.type t)

/-- Whatever is read next, the one member more stays the only difference. -/
theorem OpenFile.Gains.apply (h : f.Gains m f') (e : Event) : (f.apply e).Gains m (f'.apply e) := by
  cases e with
  | skip => exact h
  | package name =>
    cases h with
    | complete hgains => exact .complete hgains
    | opened hgains => exact .opened hgains
  | declared d => exact h.declare d
  | entered t =>
    cases h with
    | complete hgains => exact .complete hgains
    | opened hgains => exact .opened (hgains.cons t)
  | left => exact h.leave

/-- What is read next is the same. -/
theorem OpenFile.Gains.next_eq (h : f.Gains m f') (s : List Token) : f.next s = f'.next s := by
  cases h with
  | complete _ => rfl
  | @opened package types opened opened' hgains =>
    cases opened with
    | nil => exact absurd hgains not_oneGains_nil
    | cons t outer =>
      rcases hgains.cons_cases with ⟨t', ht, rfl⟩ | ⟨outer', -, rfl⟩
      · obtain ⟨hname, hvariables⟩ := ht.same_scope
        show bodyEvent t.name t.typeVariables s = bodyEvent t'.name t'.typeVariables s
        rw [hname, hvariables]
      · rfl

/-- So both files are read to the end, if one is, and there it is still the only difference. -/
theorem OpenFile.Gains.result (h : f.Gains m f') {s : List Token} {u : SourceUnit}
    (hu : f.result s = .ok u) : ∃ u', f'.result s = .ok u' ∧ u.Gains m u' := by
  induction hn : s.length using Nat.strongRecOn generalizing f f' s with
  | ind n ih =>
  subst hn
  match s with
  | [] =>
    rw [OpenFile.result_nil] at hu ⊢
    cases h with
    | @complete package types types' opened hgains =>
      cases opened with
      | nil =>
        cases hu
        exact ⟨⟨package, types'⟩, rfl, rfl, hgains⟩
      | cons t outer => cases hu
    | @opened package types opened opened' hgains =>
      cases opened with
      | nil => exact absurd hgains not_oneGains_nil
      | cons t outer => cases hu
  | t :: r =>
    -- The two files differ in what is declared, not in what is open, so both read the same next.
    rw [OpenFile.result_cons] at hu ⊢
    rw [← h.next_eq]
    cases hnext : f.next (t :: r) with
    | error e =>
      rw [hnext] at hu
      cases hu
    | ok x =>
      rw [hnext] at hu
      exact ih x.2.left.length x.2.lt (h.apply x.1) hu rfl

end gains

/-! ## Section 2: The same tokens at other places -/

/-- What a file declares is told by the kinds of its tokens and their documentation. -/
theorem sourceUnit_eq_of_look {s s' : List Token} (hlook : s.map Token.look = s'.map Token.look)
    {u : SourceUnit} (h : sourceUnit "" s = .ok u) : sourceUnit "" s' = .ok u := by
  let closing : Token := ⟨.symbol '\x7d', 0, none⟩
  let empty : Filling '\x7b' := ⟨[], closing, rfl, rfl, absurd rfl⟩
  -- Behind a closing brace reading goes on in the same way, and a file is read there as it is from
  -- the start.
  let p : Passage :=
    ⟨'\x7b', [], ⟨.symbol '\x7b', 0, none⟩, rfl, empty, empty, s, s', hlook, [], [], []⟩
  let room := s.length + s'.length + 1
  have hfirst := result_sourceUnit_append [] (p.through empty) (show s.length < room by omega)
  have hsecond := result_sourceUnit_append [] (p.through empty) (show s'.length < room by omega)
  rw [h] at hfirst
  have hpasses := passes_sourceUnit (p := p) room (kindAt s 0)
  obtain ⟨d, -, hrested⟩ := hpasses.rested (d := 0) rfl hfirst
  have hsame := hsecond.symm.trans hrested
  cases hu : sourceUnit "" s' with
  | error e =>
    rw [hu] at hsame
    cases hsame
  | ok u' =>
    rw [hu] at hsame
    have hpair := Except.ok.inj (Option.some.inj hsame)
    rw [(Prod.mk.inj hpair).1]

theorem parse_eq_ok_iff {text : String} {s : List Token} (hlex : lex text.toList = .ok s)
    {u : SourceUnit} : SourceUnit.parse text = .ok u ↔ sourceUnit "" s = .ok u := by
  rw [SourceUnit.parse, hlex]
  exact mapError_eq_ok

/-! ## Section 3: Constructors -/

section constructors

variable {s m after rest : List Token} {name brace : Token} {owner docs w : String}
  {vars : List String}

section compact

/-- A type ends at a brace. -/
theorem reads_writtenType_brace (hname : name.kind = .word w) (hw : w ∉ modifierWords)
    (hbrace : brace.kind = .symbol '\x7b') (hs : s = name :: brace :: after) :
    Reads (writtenType s) ⟨w, 0⟩ (brace :: after) := by
  have hends : EndsModifiers (name :: brace :: after) :=
    .word hname hw (startsWith_symbol hbrace (by decide) after)
  refine (loopReads_modifiers .nil hends hs).bind fun u₁ h₁ => ?_
  refine (reads_identifier hname h₁).bind fun u₂ h₂ => ?_
  have hparts : EndsTail (brace :: after) := by
    apply EndsTail.other
    · rw [hbrace]
      decide
    · rw [hbrace]
      decide
  refine (loopReads_furtherParts (.nil w) hparts h₂).bind fun u₃ h₃ => ?_
  have hdimensions : LoopReads (dimensions u₃.left) 0 (brace :: after) := by
    obtain ⟨_, p, d⟩ := brace
    cases hbrace
    rw [h₃, dimensions]
    · exact ⟨_, rfl, rfl⟩
    · intro p' d' p'' d'' r heq
      cases heq
    · intro p' d' p'' d'' p₃ d₃ r heq
      cases heq
    · intro p' d' r heq
      cases heq
  exact hdimensions.bind fun _ hleft => ⟨_, rfl, hleft⟩

/-- A name before a brace is taken for a type, and after it a name is missing. -/
theorem members_compact (hname : name.kind = .word w) (hw : w ∉ modifierWords)
    (hbrace : brace.kind = .symbol '\x7b') :
    members owner docs (name :: brace :: after) = .error ⟨.identifier, brace :: after⟩ := by
  have hidentifier : ∀ s, s = brace :: after →
      identifier s = .error ⟨.identifier, brace :: after⟩ := by
    intro s hs
    obtain ⟨_, p, d⟩ := brace
    cases hbrace
    rw [hs]
    rfl
  have htyped : ∀ s, s = name :: brace :: after →
      membersAfterVariables owner docs [] s = .error ⟨.identifier, brace :: after⟩ := by
    intro s hs
    rw [membersAfterVariables]
    · refine (reads_writtenType_brace hname hw hbrace hs).bind_eq fun u hu => ?_
      dsimp only
      rw [hidentifier u.left hu]
      rfl
    · rintro w' p d p' d' r rfl
      cases hs
      cases hbrace
  have hends : EndsModifiers (name :: brace :: after) :=
    .word hname hw (startsWith_symbol hbrace (by decide) after)
  refine (loopReads_memberVariables .none hends (startsWith_word hname '<' _) rfl).bind_eq ?_
  intro u hu
  dsimp only
  rw [htyped u.left hu]
  rfl

theorem startsMember_compact (hname : name.kind = .word w) (hw : IsIdentifier w)
    (hbrace : brace.kind = .symbol '\x7b') : StartsMember [name, brace] where
  first := ⟨name, [brace], rfl, .inr ⟨w, hname, hw⟩⟩
  ends rest := .word hname hw.1 (startsWith_symbol hbrace (by decide) rest)

theorem declarationEvent_compact (hm : IsModifiers m) (hname : name.kind = .word w)
    (hw : IsIdentifier w) (hbrace : brace.kind = .symbol '\x7b') :
    declarationEvent owner vars (m ++ name :: brace :: after) =
      .error ⟨.identifier, brace :: after⟩ := by
  have hstart := startsMember_compact hname hw hbrace
  have hbare : ∀ docs s, s = [name, brace] ++ after → bareEvent owner docs vars s =
      .error ⟨.identifier, brace :: after⟩ := by
    intro docs s hs
    have hmembers : members owner docs (name :: brace :: after) = .error ⟨.identifier, _⟩ :=
      members_compact hname hw.1 hbrace
    rw [hstart.bareEvent_eq hs, hs]
    obtain ⟨_, p, d⟩ := name
    cases hname
    rw [List.cons_append, bareDeclaration, if_neg hw.not_mem_typeWords]
    show (members owner docs (_ :: brace :: after) >>= _) >>= _ = _
    rw [hmembers]
    rfl
  refine (loopReads_modifiers hm (hstart.ends after) rfl).bind_eq fun u hu => ?_
  dsimp only
  rw [hbare _ u.left hu]
  rfl

/-- Wherever a compact constructor stands, the file is refused at its brace. -/
theorem BodyPlace.result_compact (p : BodyPlace) (hm : IsModifiers m) (hname : name.kind = .word w)
    (hw : IsIdentifier w) (hbrace : brace.kind = .symbol '\x7b') :
    p.file.result (m ++ name :: brace :: after) = .error ⟨.identifier, brace :: after⟩ := by
  have hlone := (startsMember_compact hname hw hbrace).startsWith_loneKinds after
  have hne : m ++ name :: brace :: after ≠ [] := by simp
  rw [OpenFile.result_of_ne_nil _ hne]
  have hnext := p.file.next_modifiers hm hlone
  rw [List.cons_append, List.singleton_append, declarationEvent_compact hm hname hw hbrace] at hnext
  rw [hnext]
  rfl

end compact

section canonical

variable {ps e : List Token} {xs : List Parameter}

/-- A file with a constructor more is read as before, with one member more. -/
theorem BodyPlace.result_constructor (p : BodyPlace) (hm : IsModifiers m)
    (hname : name.kind = .word p.type.name) (howner : IsIdentifier p.type.name)
    (hps : IsParameters ps xs) (he : IsMemberEnd e) (hdocs : Documented (m ++ [name]) docs)
    {u : SourceUnit} (hu : p.file.result rest = .ok u) :
    ∃ u', p.file.result (m ++ (name :: (ps ++ e) ++ rest)) = .ok u' ∧
      u.Gains ⟨.constructor, p.type.name, docs, [], xs⟩ u' := by
  -- The constructor is a declaration like any other: the file gains it where it is read, and keeps
  -- it to the end.
  let found : Member := ⟨.constructor, p.type.name, docs, [], xs⟩
  have hgains : p.file.Gains found (p.file.declare (.members [found])) := by
    have htype : p.type.Gains found (p.type.with [.members [found]]) := by
      have hmembers : p.type.members = p.type.members ++ [] := (List.append_nil _).symm
      have hwith : p.type.with [.members [found]] =
          { p.type with members := p.type.members ++ found :: [] } := by
        simp [TypeUnit.with, Declared.memberList, Declared.type?]
      rw [hwith]
      exact .here rfl hmembers
    exact .opened (htype.head p.outer)
  obtain ⟨u', hu', hmore⟩ := hgains.result hu
  refine ⟨u', ?_, hmore⟩
  have hmember : IsMember p.type.name docs (name :: (ps ++ e)) [found] :=
    .constructor .none hname hps he
  have hlone := (hmember.startsMember howner).startsWith_loneKinds rest
  have hread : Reads (declarationEvent p.type.name p.type.typeVariables _)
      (.declared (.members [found])) rest :=
    reads_declarationEvent_member howner hm (b := name :: (ps ++ e)) hdocs hmember rfl
  have hne : m ++ (name :: (ps ++ e) ++ rest) ≠ [] := by simp
  rw [OpenFile.result_of_ne_nil _ hne, p.file.next_modifiers hm hlone]
  refine hread.bind_eq fun left hleft => ?_
  show (p.file.declare (.members [found])).result left.left = .ok u'
  rw [hleft, hu']

end canonical

end constructors

/-- The two forms of a constructor. Wherever the compact form stands in a body, with any modifiers
    and whatever comes before and after it, the file is refused: at its brace the name of a member
    is missing. The form with parameters is read there in every file that is read without it, and
    changes nothing but that the type has one member more. -/
theorem parse_constructor_forms (p : BodyPlace) {m : List Token} {name : Token}
    (hm : IsModifiers m) (hname : name.kind = .word p.type.name)
    (howner : IsIdentifier p.type.name) :
    (∀ (text : String) (brace : Token) (after : List Token), brace.kind = .symbol '\x7b' →
      lex text.toList = .ok (p.front ++ (m ++ name :: brace :: after)) →
      SourceUnit.parse text =
        .error ⟨brace.position, .unexpected .identifier (some (.symbol '\x7b'))⟩) ∧
    (∀ (text text' docs : String) (ps e rest rest' : List Token) (xs : List Parameter)
      (u : SourceUnit), IsParameters ps xs → IsMemberEnd e → Documented (m ++ [name]) docs →
      rest.map Token.look = rest'.map Token.look → lex text.toList = .ok (p.front ++ rest) →
      lex text'.toList = .ok (p.front ++ (m ++ (name :: (ps ++ e) ++ rest'))) →
      SourceUnit.parse text = .ok u →
      ∃ u', SourceUnit.parse text' = .ok u' ∧
        u.Gains ⟨.constructor, p.type.name, docs, [], xs⟩ u') := by
  constructor
  · intro text brace after hbrace hlex
    rw [SourceUnit.parse, hlex]
    show (sourceUnit "" _).mapError _ = _
    rw [p.sourceUnit_eq, p.result_compact hm hname howner hbrace]
    show (.error ⟨brace.position, .unexpected .identifier (some brace.kind)⟩ : Except Error _) = _
    rw [hbrace]
  · intro text text' docs ps e rest rest' xs u hps he hdocs hlook hlex hlex' hu
    have hlooks : (p.front ++ rest).map Token.look = (p.front ++ rest').map Token.look := by
      rw [List.map_append, hlook, ← List.map_append]
    have hread := sourceUnit_eq_of_look hlooks ((parse_eq_ok_iff hlex).1 hu)
    rw [p.sourceUnit_eq] at hread
    obtain ⟨u', hu', hgains⟩ := p.result_constructor hm hname howner hps he hdocs hread
    rw [← p.sourceUnit_eq] at hu'
    exact ⟨u', (parse_eq_ok_iff hlex').2 hu', hgains⟩

/-- The tokens of `record P(int x){record Q(){}int y;`. -/
def recordFront : List Token := [
  ⟨.word "record", 0, none⟩, ⟨.word "P", 7, none⟩, ⟨.symbol '(', 8, none⟩,
  ⟨.word "int", 9, none⟩, ⟨.word "x", 13, none⟩, ⟨.symbol ')', 14, none⟩,
  ⟨.symbol '\x7b', 15, none⟩, ⟨.word "record", 16, none⟩, ⟨.word "Q", 23, none⟩,
  ⟨.symbol '(', 24, none⟩, ⟨.symbol ')', 25, none⟩, ⟨.symbol '\x7b', 26, none⟩,
  ⟨.symbol '\x7d', 27, none⟩, ⟨.word "int", 28, none⟩, ⟨.word "y", 32, none⟩,
  ⟨.symbol ';', 33, none⟩]

/-- They lead into the record, into the inner one and out of it, and past the field. -/
theorem run_recordFront :
    OpenFile.start.run recordFront =
      .ok ⟨"", [], [⟨"P", "", [], [.ofField "" "y"], [⟨"Q", "", [], [], []⟩]⟩]⟩ := by
  have hrecord : "record" ∈ typeWords := by decide
  have hnoEnum : "record" ≠ "enum" := by decide
  have hcomponents : IsTypeHeader [⟨.symbol '(', 8, none⟩, ⟨.word "int", 9, none⟩,
      ⟨.word "x", 13, none⟩, ⟨.symbol ')', 14, none⟩] [] :=
    .bare (.group (.intro (s := [_, _]) rfl (by decide) rfl) .nil) rfl
  have hnone : IsTypeHeader [⟨.symbol '(', 24, none⟩, ⟨.symbol ')', 25, none⟩] [] :=
    .bare (.group (.intro (s := []) rfl (by decide) rfl) .nil) rfl
  have hfield : IsMember "P" "" [⟨.word "int", 28, none⟩, ⟨.word "y", 32, none⟩,
      ⟨.symbol ';', 33, none⟩] [.ofField "" "y"] :=
    .fields (s := [_]) (.intro (s := []) rfl (by decide) (.nil "int") .nil)
      (.last (s := []) rfl (by decide) .nil rfl)
  have hstart : OpenFile.start.run [] = .ok OpenFile.start := by rw [OpenFile.run]
  have houter : OpenFile.start.run (recordFront.take 7) =
      .ok ⟨"", [], [⟨"P", "", [], [], []⟩]⟩ :=
    OpenFile.run_opening hstart .nil (.undocumented (by simp)) rfl hrecord hnoEnum rfl hcomponents
      rfl
  have hinner : OpenFile.start.run (recordFront.take 12) =
      .ok ⟨"", [], [⟨"Q", "", [], [], []⟩, ⟨"P", "", [], [], []⟩]⟩ :=
    OpenFile.run_opening houter .nil (.undocumented (by simp)) rfl hrecord hnoEnum rfl hnone rfl
  have hclosed : OpenFile.start.run (recordFront.take 13) =
      .ok ⟨"", [], [⟨"P", "", [], [], [⟨"Q", "", [], [], []⟩]⟩]⟩ :=
    OpenFile.run_closing hinner (List.cons_ne_nil _ _) rfl
  exact OpenFile.run_member hclosed (by decide) .nil (.undocumented (by simp)) hfield

/-- The place behind them. -/
def recordPlace : BodyPlace where
  front := recordFront
  package := ""
  types := []
  type := ⟨"P", "", [], [.ofField "" "y"], [⟨"Q", "", [], [], []⟩]⟩
  outer := []
  reached := run_recordFront

theorem parse_constructor_forms_record :
    SourceUnit.parse "record P(int x)\x7brecord Q()\x7b\x7dint y;public P\x7b\x7dint z;\x7d" =
      .error ⟨42, .unexpected .identifier (some (.symbol '\x7b'))⟩ ∧
    ∃ u, SourceUnit.parse
        "record P(int x)\x7brecord Q()\x7b\x7dint y;public P(int a)\x7b\x7dint z;\x7d" = .ok u ∧
      SourceUnit.Gains ⟨.constructor, "P", "", [], [⟨"a", ⟨"int", 0⟩⟩]⟩
        ⟨"", [⟨"P", "", [], [.ofField "" "y", .ofField "" "z"], [⟨"Q", "", [], [], []⟩]⟩]⟩ u := by
  have hm : IsModifiers [⟨.word "public", 34, none⟩] := .word rfl (by decide) .nil
  have hname : (⟨.word "P", 41, none⟩ : Token).kind = .word recordPlace.type.name := rfl
  have hforms := parse_constructor_forms recordPlace hm hname (by decide)
  have hps : IsParameters [⟨.symbol '(', 42, none⟩, ⟨.word "int", 43, none⟩, ⟨.word "a", 47, none⟩,
      ⟨.symbol ')', 48, none⟩] [⟨"a", ⟨"int", 0⟩⟩] := by
    have hwritten : IsWritten [⟨.word "int", 43, none⟩] ⟨"int", 0⟩ :=
      .intro rfl (by decide) (.nil _) .nil
    have hparameter : IsParameter [⟨.word "int", 43, none⟩, ⟨.word "a", 47, none⟩]
        ⟨"a", ⟨"int", 0⟩⟩ := .intro .nil hwritten rfl (by decide) .nil
    exact .some rfl (.last hparameter) rfl
  have he : IsMemberEnd [⟨.symbol '\x7b', 49, none⟩, ⟨.symbol '\x7d', 50, none⟩] :=
    .body .nil (.intro rfl (s := []) rfl rfl)
  have hdocs : Documented ([⟨.word "public", 34, none⟩] ++ [⟨.word "P", 41, none⟩]) "" :=
    .undocumented (by simp)
  refine ⟨?_, ?_⟩
  · exact hforms.1 _ ⟨.symbol '\x7b', 42, none⟩ [⟨.symbol '\x7d', 43, none⟩,
      ⟨.word "int", 44, none⟩, ⟨.word "z", 48, none⟩, ⟨.symbol ';', 49, none⟩,
      ⟨.symbol '\x7d', 50, none⟩] rfl (by with_unfolding_all rfl)
  · exact hforms.2 "record P(int x)\x7brecord Q()\x7b\x7dint y;int z;\x7d" _ "" _ _
      [⟨.word "int", 34, none⟩, ⟨.word "z", 38, none⟩, ⟨.symbol ';', 39, none⟩,
        ⟨.symbol '\x7d', 40, none⟩]
      [⟨.word "int", 51, none⟩, ⟨.word "z", 55, none⟩, ⟨.symbol ';', 56, none⟩,
        ⟨.symbol '\x7d', 57, none⟩] _ _ hps he hdocs rfl (by with_unfolding_all rfl)
      (by with_unfolding_all rfl) (by with_unfolding_all rfl)

-- The name of the record is taken for the type of a member, of which the name is missing.
theorem parse_compact_constructor :
    SourceUnit.parse "record P(int x)\x7bint y;int z;\x7d" =
      .ok ⟨"", [⟨"P", "", [], [.ofField "" "y", .ofField "" "z"], []⟩]⟩ ∧
    SourceUnit.parse "record P(int x)\x7bint y;P\x7b\x7dint z;\x7d" =
      .error ⟨23, .unexpected .identifier (some (.symbol '\x7b'))⟩ :=
  ⟨by with_unfolding_all rfl, by with_unfolding_all rfl⟩

end TypeCatalog.Source
