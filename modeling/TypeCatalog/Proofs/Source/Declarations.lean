import TypeCatalog.Proofs.Source.Members

/-! # Source files are read

    Types and their bodies are read by induction on their derivation, and a source file is read as
    exactly what it declares: `sourceUnit_eq_of_isSource`. A body is read through its closing brace,
    so what is shown of its declarations speaks of that brace and of all that comes after it. -/

set_option autoImplicit false

namespace TypeCatalog.Source

/-! ## Section 1: Headers -/

section headers

variable {s ts rest : List Token} {own : List String}

theorem loopReads_optionalVariables (h : IsVariables ts own) (hs : s = ts ++ rest) :
    LoopReads (optionalVariables s) own rest := by
  obtain ⟨t, r, rfl, ht, hread⟩ := h.exists_cons
  obtain ⟨_, p, d⟩ := t
  cases ht
  subst hs
  rw [List.cons_append, optionalVariables]
  exact (hread rfl).bind fun _ hleft => ⟨_, rfl, hleft⟩

theorem loopReads_optionalVariables_none (hrest : startsWith (.symbol '<') rest = false)
    (hs : s = rest) : LoopReads (optionalVariables s) [] rest := by
  subst hs
  rw [optionalVariables]
  · exact ⟨_, rfl, rfl⟩
  · rintro p d r rfl
    exact startsWith_cons.1 hrest rfl

theorem reads_typeHeader {t : Token} (h : IsClause ['\x7b'] ts) (ht : t.kind = .symbol '\x7b')
    (hs : s = ts ++ t :: rest) : Reads (typeHeader s) () rest := by
  refine passesClause_typeHeader.reads h ?_ hs
  rintro _ rfl
  obtain ⟨_, p, d⟩ := t
  cases ht
  rw [typeHeader]
  exact ⟨_, rfl, rfl⟩

/-- Type variables, if there are some, then what a type extends and its opening brace. -/
theorem IsTypeHeader.exists_left {t : Token} (h : IsTypeHeader ts own)
    (ht : t.kind = .symbol '\x7b') (hs : s = ts ++ t :: rest) :
    ∃ left, LoopReads (optionalVariables s) own left ∧
      ∀ {s : List Token}, s = left → Reads (typeHeader s) () rest := by
  cases h with
  | @bare ts hclause hangle =>
    refine ⟨ts ++ t :: rest, loopReads_optionalVariables_none ?_ hs, reads_typeHeader hclause ht⟩
    cases ts with
    | nil => exact startsWith_symbol ht (by decide) rest
    | cons u ts => exact hangle
  | @generic names vs ts hvariables hclause =>
    rw [List.append_assoc] at hs
    exact ⟨ts ++ t :: rest, loopReads_optionalVariables hvariables hs, reads_typeHeader hclause ht⟩

end headers

/-! ## Section 2: Single declarations -/

section declarations

variable {s ts r rest left : List Token} {owner docs name : String} {vars own : List String}

/-- A declaration after its modifiers, with the documentation that waits before it. -/
theorem reads_declaration {m b : List Token} {found : Declared} (hm : IsModifiers m)
    (hdocs : docsBetween (m ++ (b ++ rest)) (b ++ rest) = docs) (hends : EndsModifiers (b ++ rest))
    (hread : ∀ {s : List Token}, s = b ++ rest →
      Reads (bareDeclaration owner docs vars s) found rest)
    (hs : s = m ++ (b ++ rest)) : Reads (declaration owner vars s) found rest := by
  rw [declaration]
  refine (loopReads_modifiers hm hends hs).bind fun u hu => ?_
  have hfound : docsBetween s u.left = docs := by
    rw [hu, hs]
    exact hdocs
  subst hfound
  exact (hread hu).bind fun _ hleft => ⟨_, rfl, hleft⟩

theorem reads_bareDeclaration_semicolon {t : Token} (ht : t.kind = .symbol ';')
    (hs : s = t :: rest) : Reads (bareDeclaration owner docs vars s) .nothing rest := by
  obtain ⟨_, p, d⟩ := t
  cases ht
  subst hs
  rw [bareDeclaration]
  exact ⟨_, rfl, rfl⟩

theorem reads_bareDeclaration_block (h : IsGroup '\x7b' '\x7d' ts) (hs : s = ts ++ rest) :
    Reads (bareDeclaration owner docs vars s) .nothing rest := by
  obtain ⟨t, r, rfl, ht, hread⟩ := h.exists_cons (by decide)
  obtain ⟨_, p, d⟩ := t
  cases ht
  subst hs
  rw [List.cons_append, bareDeclaration]
  exact (hread rfl).bind fun _ hleft => ⟨_, rfl, hleft⟩

theorem IsIdentifier.not_mem_typeWords {w : String} (hw : IsIdentifier w) : w ∉ typeWords := by
  intro hmem
  have hall : ∀ x ∈ typeWords, x ∈ reservedWords := by decide
  exact hw.2 (hall w hmem)

theorem reads_bareDeclaration_members {ms : List Member} (howner : IsIdentifier owner)
    (h : IsMember owner docs ts ms) (hs : s = ts ++ rest) :
    Reads (bareDeclaration owner docs vars s) (.members ms) rest := by
  have hread := reads_members howner h hs
  obtain ⟨⟨k, p, d⟩, r, rfl, hangle | ⟨w, hword, hw⟩⟩ := (h.startsMember howner).first
  · cases hangle
    subst hs
    rw [List.cons_append, bareDeclaration]
    · exact hread.bind fun _ hleft => ⟨_, rfl, hleft⟩
    · rintro _ _ _ ⟨⟩
    · rintro _ _ _ ⟨⟩
    · rintro _ _ _ ⟨⟩
    · rintro _ _ _ _ ⟨⟩
  -- A member that starts with a word is told from a type by that word.
  · cases hword
    subst hs
    rw [List.cons_append, bareDeclaration, if_neg hw.not_mem_typeWords]
    exact hread.bind fun _ hleft => ⟨_, rfl, hleft⟩

/-- A type, given that its constants and its declarations are read. -/
theorem reads_typeUnit {t t' opening : Token} {w : String} {h b : List Token}
    {constants : List Member} {found : List Declared} (ht : t.kind = .word w)
    (ht' : t'.kind = .word name) (hheader : IsTypeHeader h own)
    (hopening : opening.kind = .symbol '\x7b')
    (hconstants : ∀ {s : List Token}, s = b → LoopReads (constantsOf w s) constants left)
    (hbody : ∀ {s : List Token}, s = left → Reads (body name (vars ++ own) s) found rest)
    (hs : s = t :: t' :: (h ++ opening :: b)) :
    Reads (typeUnit docs vars s)
      ⟨name, docs, vars ++ own, constants ++ found.flatMap Declared.memberList,
        found.filterMap Declared.type?⟩ rest := by
  rw [typeUnit]
  refine (reads_identifier ht hs).bind fun u₁ h₁ => ?_
  refine (reads_identifier ht' h₁).bind fun u₂ h₂ => ?_
  obtain ⟨mid, hown, hheader⟩ := hheader.exists_left hopening h₂
  refine hown.bind fun u₃ h₃ => ?_
  refine (hheader h₃).bind fun u₄ h₄ => ?_
  refine (hconstants h₄).bind fun u₅ h₅ => ?_
  exact (hbody h₅).bind fun _ hleft => ⟨_, rfl, hleft⟩

/-- The declaration of a type starts with a word or with the sign of an annotation type. -/
theorem IsTypeKeyword.exists_word {isEnum : Bool} (h : IsTypeKeyword ts isEnum) :
    ∃ t w, t.kind = .word w ∧ (w = "enum" ↔ isEnum = true) ∧ w ∈ typeWords ∧
      (ts = [t] ∨ ∃ sign, ts = [sign, t] ∧ sign.kind = .symbol '@' ∧ w = "interface") := by
  cases h with
  | «class» ht => exact ⟨_, _, ht, by decide, by decide, .inl rfl⟩
  | interface ht => exact ⟨_, _, ht, by decide, by decide, .inl rfl⟩
  | enum ht => exact ⟨_, _, ht, by decide, by decide, .inl rfl⟩
  | annotationType hsign ht =>
    exact ⟨_, _, ht, by decide, by decide, .inr ⟨_, rfl, hsign, rfl⟩⟩

theorem reads_bareDeclaration_type {isEnum : Bool} {t : TypeUnit} (hk : IsTypeKeyword ts isEnum)
    (h : ∀ {t' : Token} {w : String}, t'.kind = .word w → (w = "enum" ↔ isEnum = true) →
      Reads (typeUnit docs vars (t' :: r)) t rest)
    (hs : s = ts ++ r) : Reads (bareDeclaration owner docs vars s) (.type t) rest := by
  obtain ⟨t', w, ht', henum, hw, rfl | ⟨sign, rfl, hsign, -⟩⟩ := hk.exists_word
  · have hread := h ht' henum
    obtain ⟨_, p, d⟩ := t'
    cases ht'
    subst hs
    rw [List.singleton_append, bareDeclaration, if_pos hw]
    exact hread.bind fun _ hleft => ⟨_, rfl, hleft⟩
  · obtain ⟨_, p, d⟩ := sign
    cases hsign
    subst hs
    rw [List.cons_append, List.singleton_append, bareDeclaration]
    exact (h ht' henum).bind fun _ hleft => ⟨_, rfl, hleft⟩

/-- Tokens that start like a type does. They are taken for nothing else that can stand where a
    type stands. -/
structure StartsType (s : List Token) : Prop where
  ne_nil : s ≠ []
  ends (rest : List Token) : EndsModifiers (s ++ rest)
  first {k : TokenKind} (rest : List Token) :
    k ∈ [.symbol '\x7d', .symbol ';', .word "package", .word "import"] →
      startsWith k (s ++ rest) = false

theorem apart_of_mem_typeWords {w : String} (hw : w ∈ typeWords) :
    w ∉ modifierWords ∧ w ≠ "package" ∧ w ≠ "import" := by
  have hall : ∀ x ∈ typeWords, x ∉ modifierWords ∧ x ≠ "package" ∧ x ≠ "import" := by decide
  exact hall w hw

theorem IsType.startsType {outer : List String} {t : TypeUnit} (h : IsType outer docs ts t) :
    StartsType ts := by
  cases h with
  | @intro t opening closing outer own docs name isEnum k hd b ms types hk ht =>
  obtain ⟨t', w, ht', -, hw, rfl | ⟨sign, rfl, hsign, rfl⟩⟩ := hk.exists_word
  · obtain ⟨hmodifier, hpackage, himport⟩ := apart_of_mem_typeWords hw
    refine ⟨by simp, fun rest => .word ht' hmodifier (startsWith_word ht '-' _), ?_⟩
    intro k rest hk
    rw [List.append_assoc, List.singleton_append, startsWith_cons, ht']
    rintro rfl
    simp [hpackage, himport] at hk
  · refine ⟨by simp, fun rest => .annotationType hsign ht', ?_⟩
    intro k rest hk
    rw [List.append_assoc, List.cons_append, startsWith_cons, hsign]
    rintro rfl
    exact absurd hk (by decide)

end declarations

/-! ## Section 3: Bodies -/

section bodies

variable {s rest left : List Token} {owner docs : String} {vars : List String}

theorem reads_body_close {t : Token} (ht : t.kind = .symbol '\x7d') (hs : s = t :: rest) :
    Reads (body owner vars s) [] rest := by
  obtain ⟨_, p, d⟩ := t
  cases ht
  subst hs
  rw [body]
  exact ⟨_, rfl, rfl⟩

theorem reads_body_cons {first : Declared} {others : List Declared} (hne : s ≠ [])
    (hs : startsWith (.symbol '\x7d') s = false)
    (hfirst : Reads (declaration owner vars s) first left)
    (hmore : ∀ {s : List Token}, s = left → Reads (body owner vars s) others rest) :
    Reads (body owner vars s) (first :: others) rest := by
  rw [body]
  · exact hfirst.bind fun u hu => (hmore hu).bind fun _ hleft => ⟨_, rfl, hleft⟩
  · exact hne
  · rintro p d r rfl
    exact startsWith_cons.1 hs rfl

/-- The declarations of a body are read through its closing brace, and give these members and these
    types. -/
def ReadsItems (owner : String) (vars : List String) (s rest : List Token) (ms : List Member)
    (types : List TypeUnit) : Prop :=
  ∃ found, (∀ {s' : List Token}, s' = s → Reads (body owner vars s') found rest) ∧
    found.flatMap Declared.memberList = ms ∧ found.filterMap Declared.type? = types

theorem ReadsItems.close {t : Token} (ht : t.kind = .symbol '\x7d') :
    ReadsItems owner vars (t :: rest) rest [] [] :=
  ⟨[], fun hs => reads_body_close ht hs, rfl, rfl⟩

theorem ReadsItems.cons {first : Declared} {m b : List Token} {ms : List Member}
    {types : List TypeUnit} (h : ReadsItems owner vars left rest ms types) (hm : IsModifiers m)
    (hb : b ≠ []) (hdocs : docsBetween (m ++ (b ++ left)) (b ++ left) = docs)
    (hends : EndsModifiers (b ++ left))
    (hclose : startsWith (.symbol '\x7d') (b ++ left) = false)
    (hread : ∀ {s : List Token}, s = b ++ left →
      Reads (bareDeclaration owner docs vars s) first left) :
    ReadsItems owner vars (m ++ (b ++ left)) rest (first.memberList ++ ms)
      (first.type?.toList ++ types) := by
  obtain ⟨found, hfound, rfl, rfl⟩ := h
  refine ⟨first :: found, ?_, rfl, ?_⟩
  · rintro _ rfl
    exact reads_body_cons (by simp [hb]) (hm.startsWith_append (by decide) nofun hclose)
      (reads_declaration hm hdocs hends hread rfl) hfound
  · cases hfirst : first.type? with
    | none => simp [hfirst]
    | some t => simp [hfirst]

end bodies

/-! ## Section 4: Types -/

-- The readers of types and bodies call each other, so the three lemmas are one induction on the
-- derivations. The owner of a type plays no part in reading it.
mutual
/-- A type is read from its tokens. -/
theorem IsType.reads {outer : List String} {docs : String} {ts : List Token} {t : TypeUnit}
    (h : IsType outer docs ts t) (owner : String) {s rest : List Token} (hs : s = ts ++ rest) :
    Reads (bareDeclaration owner docs outer s) (.type t) rest :=
  match h with
  | .intro hk ht hname hheader hopening hbody hclosing => by
    rw [List.append_assoc, List.cons_append, List.append_assoc, List.cons_append,
      List.append_assoc] at hs
    refine reads_bareDeclaration_type hk ?_ hs
    intro t' w ht' hw
    obtain ⟨constants, left, ms, hconstants, ⟨found, hfound, rfl, rfl⟩, rfl⟩ :=
      hbody.reads hname hw hclosing rest
    exact reads_typeUnit ht' ht hheader hopening hconstants hfound rfl
termination_by structural h
/-- The constants and the declarations of a body are read through its closing brace. -/
theorem IsBody.reads {isEnum : Bool} {owner : String} {vars : List String} {ts : List Token}
    {ms : List Member} {types : List TypeUnit} (h : IsBody isEnum owner vars ts ms types)
    (howner : IsIdentifier owner) {w : String} (hw : w = "enum" ↔ isEnum = true)
    {closing : Token} (hclosing : closing.kind = .symbol '\x7d') (rest : List Token) :
    ∃ constants left ms', (∀ {s : List Token}, s = ts ++ closing :: rest →
        LoopReads (constantsOf w s) constants left) ∧
      ReadsItems owner vars left rest ms' types ∧ constants ++ ms' = ms :=
  match h with
  | .items hitems => by
    refine ⟨[], _, _, ?_, hitems.reads howner hclosing rest, List.nil_append _⟩
    rintro _ rfl
    rw [constantsOf, if_neg (fun henum => nomatch hw.1 henum)]
    exact ⟨_, rfl, rfl⟩
  | .constants hconstants => by
    refine ⟨_, _, [], ?_, ReadsItems.close hclosing, List.append_nil _⟩
    rintro _ rfl
    rw [constantsOf, if_pos (hw.2 rfl)]
    exact loopReads_enumConstants hconstants hclosing (by decide)
      (loopReads_enumConstants_close hclosing) rfl
  | .constantsAndItems hconstants hsemicolon hitems => by
    refine ⟨_, _, _, ?_, hitems.reads howner hclosing rest, rfl⟩
    rintro _ rfl
    rw [constantsOf, if_pos (hw.2 rfl), List.append_assoc]
    exact loopReads_enumConstants hconstants hsemicolon (by decide)
      (loopReads_enumConstants_semicolon hsemicolon) rfl
termination_by structural h
/-- The declarations of a body are read through its closing brace. -/
theorem IsItems.reads {owner : String} {vars : List String} {ts : List Token} {ms : List Member}
    {types : List TypeUnit} (h : IsItems owner vars ts ms types) (howner : IsIdentifier owner)
    {closing : Token} (hclosing : closing.kind = .symbol '\x7d') (rest : List Token) :
    ReadsItems owner vars (ts ++ closing :: rest) rest ms types :=
  match h with
  | .nil _ _ => ReadsItems.close hclosing
  | .semicolon ht hitems => by
    have hitems := hitems.reads howner hclosing rest
    have hall := hitems.cons .nil (b := [_]) (List.cons_ne_nil _ _) rfl
      (.symbol ht (by decide)) (startsWith_symbol ht (by decide) _)
      (reads_bareDeclaration_semicolon ht)
    exact hall
  | .block hm hg hitems => by
    have hitems := hitems.reads howner hclosing rest
    obtain ⟨opening, r, rfl, hopening, -⟩ := hg.exists_cons (by decide)
    rw [List.append_assoc, List.append_assoc]
    exact hitems.cons hm (List.cons_ne_nil opening r) rfl (.symbol hopening (by decide))
      (startsWith_symbol hopening (by decide) _) (reads_bareDeclaration_block hg)
  | .member hm hdocs hmember hitems => by
    have hitems := hitems.reads howner hclosing rest
    have hstart := hmember.startsMember howner
    rw [List.append_assoc, List.append_assoc]
    exact hitems.cons hm hstart.ne_nil (hdocs.docsBetween_eq hstart.ne_nil _) (hstart.ends _)
      (hstart.startsWith_append (by decide) _) (reads_bareDeclaration_members howner hmember)
  | .type hm hdocs htype hitems => by
    have hitems := hitems.reads howner hclosing rest
    have hstart := htype.startsType
    rw [List.append_assoc, List.append_assoc]
    exact hitems.cons hm hstart.ne_nil (hdocs.docsBetween_eq hstart.ne_nil _) (hstart.ends _)
      (hstart.first _ (by decide)) (htype.reads owner)
termination_by structural h
end

/-! ## Section 5: Files -/

section files

variable {s ts rest : List Token} {package : String}

theorem sourceUnit_package {name : String} (h : IsPackage ts name) (rest : List Token) :
    sourceUnit "" (ts ++ rest) = sourceUnit name rest := by
  cases h with
  | none => rfl
  | @some t semicolon name q ht hname hsemicolon =>
    have hends : startsPart (semicolon :: rest) = false :=
      startsPart_cons (by rw [hsemicolon]; decide) rest
    obtain ⟨_, p, d⟩ := t
    cases ht
    rw [List.cons_append, List.append_assoc, List.singleton_append, sourceUnit]
    refine (reads_qualifiedName hname hends rfl).bind_eq fun u hu => ?_
    exact (reads_symbol hsemicolon hu).bind_eq fun _ hleft => congrArg (sourceUnit name) hleft

theorem sourceUnit_imports (h : IsImports ts) (rest : List Token) :
    sourceUnit package (ts ++ rest) = sourceUnit package rest := by
  induction h with
  | nil => rfl
  | @more t semicolon q ts ht hq hsemicolon _ ih =>
    obtain ⟨_, p, d⟩ := t
    cases ht
    rw [List.cons_append, List.append_assoc, List.cons_append, sourceUnit]
    refine (reads_throughSymbol hq hsemicolon rfl).bind_eq fun u hu => ?_
    exact (congrArg (sourceUnit package) hu).trans ih

theorem sourceUnit_type {m b : List Token} {docs : String} {t : TypeUnit} {types : List TypeUnit}
    (hm : IsModifiers m) (hdocs : Documented (m ++ b.take 1) docs) (h : IsType [] docs b t)
    (hrest : sourceUnit package rest = .ok ⟨package, types⟩) :
    sourceUnit package (m ++ (b ++ rest)) = .ok ⟨package, t :: types⟩ := by
  have hstart := h.startsType
  have hother (k : TokenKind) (hk : k ∈ [.symbol ';', .word "package", .word "import"]) :
      startsWith k (m ++ (b ++ rest)) = false := by
    have hall : ∀ k ∈ [TokenKind.symbol ';', .word "package", .word "import"],
        k ≠ .symbol '@' ∧ ∀ w ∈ "non" :: modifierWords, k ≠ .word w := by decide
    obtain ⟨hsign, hword⟩ := hall k hk
    exact hm.startsWith_append hsign hword (hstart.first rest (List.mem_cons_of_mem _ hk))
  rw [sourceUnit]
  · refine (reads_declaration hm (hdocs.docsBetween_eq hstart.ne_nil rest) (hstart.ends rest)
      (h.reads "") rfl).bind_eq fun u hu => ?_
    have hleft : sourceUnit package u.left = .ok ⟨package, types⟩ := by
      rw [hu]
      exact hrest
    simp only [hleft]
    rfl
  · intro hnil
    simp [hstart.ne_nil] at hnil
  · rintro p d r heq
    have hfirst := hother (.symbol ';') (by decide)
    rw [heq] at hfirst
    exact startsWith_cons.1 hfirst rfl
  · rintro p d r heq
    have hfirst := hother (.word "package") (by decide)
    rw [heq] at hfirst
    exact startsWith_cons.1 hfirst rfl
  · rintro p d r heq
    have hfirst := hother (.word "import") (by decide)
    rw [heq] at hfirst
    exact startsWith_cons.1 hfirst rfl

theorem sourceUnit_types {types : List TypeUnit} (h : IsTypes ts types) :
    sourceUnit package ts = .ok ⟨package, types⟩ := by
  induction h with
  | nil => rw [sourceUnit]
  | @semicolon t ts types ht _ ih =>
    obtain ⟨_, p, d⟩ := t
    cases ht
    rw [sourceUnit, ih]
  | more hm hdocs htype _ ih => exact sourceUnit_type hm hdocs htype ih

/-- A source file is read as what it declares. -/
theorem sourceUnit_eq_of_isSource {u : SourceUnit} (h : IsSource s u) :
    sourceUnit "" s = .ok u := by
  cases h with
  | intro hpackage himports htypes =>
  rw [sourceUnit_package hpackage, sourceUnit_imports himports, sourceUnit_types htypes]

-- A class with type variables, fields, a constructor of variable arity and an enum inside.
theorem sourceUnit_eq_of_isSource_box :
    let w (text : String) : Token := ⟨.word text, 0, none⟩
    let c (symbol : Char) : Token := ⟨.symbol symbol, 0, none⟩
    sourceUnit "" [w "package", w "geo", c '.', w "shape", c ';',
      ⟨.word "public", 0, some "/** A box. */"⟩, w "class", w "Box",
        c '<', w "T", w "extends", w "List", c '<', w "T", c '>', c '>', c '\x7b',
      w "T", w "left", c ',', w "right", c ';',
      w "Box", c '(', w "int", c '.', c '.', c '.', w "sides", c ')', c '\x7b', c '\x7d',
      w "enum", w "Side", c '\x7b', w "LOW", c ',', w "HIGH", c '\x7d', c '\x7d'] =
    .ok ⟨"geo.shape", [⟨"Box", "A box.", ["T"],
      [.ofField "" "left", .ofField "" "right",
        ⟨.constructor, "Box", "", [], [⟨"sides", ⟨"int", 1⟩⟩]⟩],
      [⟨"Side", "", ["T"], [.ofField "" "LOW", .ofField "" "HIGH"], []⟩]⟩]⟩ := by
  intro w c
  have hname : IsQualifiedName [w "geo", c '.', w "shape"] ("geo" ++ "." ++ "shape") :=
    .more rfl (by decide) rfl (.last rfl (by decide))
  have hpackage : IsPackage [w "package", w "geo", c '.', w "shape", c ';'] "geo.shape" :=
    .some (s := [_, _, _]) rfl hname rfl
  have hbound : IsBound false [w "extends", w "List", c '<', w "T", c '>'] :=
    .token (by decide) (.token (by decide)
      (.nested (s := [_]) rfl (.token (by decide) (.nil true)) rfl (.nil false)))
  have hvariables : IsVariables
      [c '<', w "T", w "extends", w "List", c '<', w "T", c '>', c '>'] ["T"] :=
    .intro (s := [_, _, _, _, _, _]) rfl (.last (.intro rfl (by decide) hbound)) rfl
  have hfields : IsMember "Box" "" [w "T", w "left", c ',', w "right", c ';']
      [.ofField "" "left", .ofField "" "right"] :=
    .fields (s := [_]) (.intro (s := []) rfl (by decide) (.nil "T") .nil)
      (.more (s := []) rfl (by decide) .nil rfl (.last (s := []) rfl (by decide) .nil rfl))
  have hsides : IsParameter [w "int", c '.', c '.', c '.', w "sides"] ⟨"sides", ⟨"int", 1⟩⟩ :=
    .intro (m := []) (s := [_, _, _, _]) .nil
      (.intro (s := []) rfl (by decide) (.nil "int") (.dots rfl rfl rfl .nil)) rfl (by decide) .nil
  have hconstructor : IsMember "Box" ""
      [w "Box", c '(', w "int", c '.', c '.', c '.', w "sides", c ')', c '\x7b', c '\x7d']
      [⟨.constructor, "Box", "", [], [⟨"sides", ⟨"int", 1⟩⟩]⟩] :=
    .constructor (v := []) (s := [_, _, _, _, _, _, _]) .none rfl
      (.some (s := [_, _, _, _, _]) rfl (.last hsides) rfl)
      (.body (s := []) .nil (.intro (s := []) rfl (by decide) rfl))
  have hconstant (name : String) (hname : IsIdentifier name) :
      IsConstant [w name] (.ofField "" name) :=
    .intro (m := []) (g := []) .nil rfl hname (.undocumented (by simp [w])) .none .none
  have henum : IsType ["T"] "" [w "enum", w "Side", c '\x7b', w "LOW", c ',', w "HIGH", c '\x7d']
      ⟨"Side", "", ["T"], [.ofField "" "LOW", .ofField "" "HIGH"], []⟩ :=
    .intro (k := [_]) (h := []) (b := [_, _, _]) (.enum rfl) rfl (by decide) (.bare .nil rfl) rfl
      (.constants (.more (s := [_]) (hconstant "LOW" (by decide)) rfl
        (.last (hconstant "HIGH" (by decide))))) rfl
  have hitems : IsItems "Box" ["T"] ([w "T", w "left", c ',', w "right", c ';'] ++
        ([w "Box", c '(', w "int", c '.', c '.', c '.', w "sides", c ')', c '\x7b', c '\x7d'] ++
        [w "enum", w "Side", c '\x7b', w "LOW", c ',', w "HIGH", c '\x7d']))
      [.ofField "" "left", .ofField "" "right",
        ⟨.constructor, "Box", "", [], [⟨"sides", ⟨"int", 1⟩⟩]⟩]
      [⟨"Side", "", ["T"], [.ofField "" "LOW", .ofField "" "HIGH"], []⟩] :=
    .member (m := []) .nil (.undocumented (by decide)) hfields
      (.member (m := []) .nil (.undocumented (by decide)) hconstructor
        (.type (m := []) (s := []) .nil (.undocumented (by decide)) henum (.nil "Box" ["T"])))
  have hbox : IsType [] "A box." (w "class" :: w "Box" ::
        ([c '<', w "T", w "extends", w "List", c '<', w "T", c '>', c '>'] ++
          c '\x7b' :: (_ ++ [c '\x7d'])))
      ⟨"Box", "A box.", ["T"], _, _⟩ :=
    .intro (k := [_]) (.class rfl) rfl (by decide) (.generic hvariables .nil) rfl
      (.items hitems) rfl
  have htypes : IsTypes _ [_] :=
    .more (m := [⟨.word "public", 0, some "/** A box. */"⟩]) (.word rfl (by decide) .nil)
      (.documented _ rfl) hbox .nil
  exact sourceUnit_eq_of_isSource (.intro hpackage .nil htypes)

end files

end TypeCatalog.Source
