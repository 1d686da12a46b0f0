import TypeCatalog.Proofs.Source.Declarations
import TypeCatalog.Proofs.Source.OpenFile

/-! # Places between declarations

    A place between two declarations of a body is known by the tokens up to there: all of them are
    read, and the type is open. What follows is then read with what is known at the place and with
    nothing else. There is a place behind the opening brace of each type, behind each member and
    behind the closing brace of each inner type. -/

set_option autoImplicit false

namespace TypeCatalog.Source

/-! ## Section 1: Places -/

/-- A place between two declarations in a body: the tokens up to there, and what is read of the file
    from them. -/
structure BodyPlace where
  front : List Token
  package : String
  types : List TypeUnit
  /-- The type that the body is of, with what is declared before the place. -/
  type : TypeUnit
  outer : List TypeUnit
  reached : OpenFile.start.run front = .ok ⟨package, types, type :: outer⟩

/-- The file as it is read up to the place. -/
def BodyPlace.file (p : BodyPlace) : OpenFile := ⟨p.package, p.types, p.type :: p.outer⟩

/-- A file with the tokens up to a place is what is known there with what follows. -/
theorem BodyPlace.sourceUnit_eq (p : BodyPlace) (s : List Token) :
    sourceUnit "" (p.front ++ s) = p.file.result s := by
  rw [sourceUnit_eq_result, OpenFile.result, OpenFile.run_append p.reached, OpenFile.result,
    BodyPlace.file]

namespace OpenFile

/-- The name and the type variables of the innermost type. -/
def scope (f : OpenFile) : String × List String :=
  match f.opened with
  | [] => ("", [])
  | t :: _ => (t.name, t.typeVariables)

theorem run_of_ne_nil (f : OpenFile) {s : List Token} (hne : s ≠ []) :
    f.run s = f.next s >>= fun x => (f.apply x.1).run x.2.left := by
  obtain ⟨t, r, rfl⟩ := List.exists_cons_of_ne_nil hne
  rw [run]

theorem result_of_ne_nil (f : OpenFile) {s : List Token} (hne : s ≠ []) :
    f.result s = f.next s >>= fun x => (f.apply x.1).result x.2.left := by
  obtain ⟨t, r, rfl⟩ := List.exists_cons_of_ne_nil hne
  exact f.result_cons t r

/-- Tokens of which one thing is read move the file on by that. -/
theorem run_of_reads {f : OpenFile} {s : List Token} {e : Event} (hne : s ≠ [])
    (h : Reads (f.next s) e []) : f.run s = .ok (f.apply e) := by
  rw [run_of_ne_nil f hne]
  refine h.bind_eq fun u hu => ?_
  dsimp only
  rw [hu, run]

end OpenFile

/-! ## Section 2: What is read at a place -/

/-- The kinds of tokens that start no declaration, but are read for themselves. -/
def loneKinds : List TokenKind := [.symbol '\x7d', .symbol ';', .word "package", .word "import"]

section events

variable {s m b h rest : List Token} {t t' opening : Token} {owner docs w name : String}
  {own vars : List String} {e : Event}

theorem startsWith_loneKinds_word (ht : t.kind = .word w) (hpackage : w ≠ "package")
    (himport : w ≠ "import") (r : List Token) : ∀ k ∈ loneKinds, startsWith k (t :: r) = false := by
  intro k hk
  rw [startsWith_cons, ht]
  rintro rfl
  simp [loneKinds, hpackage, himport] at hk

theorem StartsMember.startsWith_loneKinds (h : StartsMember s) (rest : List Token) :
    ∀ k ∈ loneKinds, startsWith k (s ++ rest) = false := by
  obtain ⟨t, r, rfl, ht | ⟨w, ht, hw⟩⟩ := h.first
  · intro k hk
    rw [List.cons_append, startsWith_cons, ht]
    rintro rfl
    exact absurd hk (by decide)
  · refine startsWith_loneKinds_word ht ?_ ?_ _
    · rintro rfl
      exact hw.2 (by decide)
    · rintro rfl
      exact hw.2 (by decide)

/-- With its modifiers a declaration is read as one, in a file and in a body. -/
theorem OpenFile.next_modifiers (f : OpenFile) (hm : IsModifiers m)
    (hs : ∀ k ∈ loneKinds, startsWith k s = false) :
    f.next (m ++ s) = declarationEvent f.scope.1 f.scope.2 (m ++ s) := by
  -- Modifiers start with none of these either.
  have hnone : ∀ k ∈ loneKinds, ∀ p d r, m ++ s = ⟨k, p, d⟩ :: r → False := by
    intro k hk p d r heq
    have hall : ∀ k ∈ loneKinds, k ≠ .symbol '@' ∧ ∀ w ∈ "non" :: modifierWords, k ≠ .word w := by
      decide
    obtain ⟨hsign, hword⟩ := hall k hk
    have hfirst := hm.startsWith_append hsign hword (hs k hk)
    rw [heq] at hfirst
    exact startsWith_cons.1 hfirst rfl
  obtain ⟨package, types, _ | ⟨t, outer⟩⟩ := f
  · show fileEvent (m ++ s) = _
    rw [fileEvent]
    · rfl
    · exact hnone _ (by decide)
    · exact hnone _ (by decide)
    · exact hnone _ (by decide)
  · show bodyEvent t.name t.typeVariables (m ++ s) = _
    rw [bodyEvent]
    · rfl
    · exact hnone _ (by decide)

theorem reads_declarationEvent (hm : IsModifiers m)
    (hdocs : docsBetween (m ++ (b ++ rest)) (b ++ rest) = docs) (hends : EndsModifiers (b ++ rest))
    (hread : ∀ {s : List Token}, s = b ++ rest → Reads (bareEvent owner docs vars s) e rest)
    (hs : s = m ++ (b ++ rest)) : Reads (declarationEvent owner vars s) e rest := by
  refine (loopReads_modifiers hm hends hs).bind fun u hu => ?_
  have hfound : docsBetween s u.left = docs := by
    rw [hu, hs]
    exact hdocs
  subst hfound
  exact (hread hu).bind fun _ hleft => ⟨_, rfl, hleft⟩

/-- What starts like a member is no type. -/
theorem StartsMember.bareEvent_eq (h : StartsMember b) (hs : s = b ++ rest) :
    bareEvent owner docs vars s =
      bareDeclaration owner docs vars s >>= fun x => .ok (.declared x.1, x.2) := by
  obtain ⟨⟨_, p, d⟩, r, rfl, ht | ⟨w, ht, hw⟩⟩ := h.first
  · cases ht
    rw [hs, List.cons_append, bareEvent]
    · rfl
    · intro p' d' r' heq
      cases heq
    · intro w' p' d' r' heq
      cases heq
  · cases ht
    rw [hs, List.cons_append, bareEvent, if_neg hw.not_mem_typeWords]
    rfl

/-- The declaration of a member is read as a whole. -/
theorem reads_declarationEvent_member {ms : List Member} (howner : IsIdentifier owner)
    (hm : IsModifiers m) (hdocs : Documented (m ++ b.take 1) docs) (h : IsMember owner docs b ms)
    (hs : s = m ++ (b ++ rest)) :
    Reads (declarationEvent owner vars s) (.declared (.members ms)) rest := by
  have hstart := h.startsMember howner
  have hfound := hdocs.docsBetween_eq hstart.ne_nil rest
  refine reads_declarationEvent hm hfound (hstart.ends rest) ?_ hs
  intro s hs
  rw [hstart.bareEvent_eq hs]
  exact (reads_bareDeclaration_members howner h hs).bind fun _ hleft => ⟨_, rfl, hleft⟩

/-- Of the declaration of a type, other than an enum, its start is read. -/
theorem reads_declarationEvent_type (hm : IsModifiers m) (hdocs : Documented (m ++ [t]) docs)
    (ht : t.kind = .word w) (hw : w ∈ typeWords) (henum : w ≠ "enum") (ht' : t'.kind = .word name)
    (hheader : IsTypeHeader h own) (hopening : opening.kind = .symbol '\x7b')
    (hs : s = m ++ (t :: t' :: (h ++ [opening]) ++ rest)) :
    Reads (declarationEvent owner vars s) (.entered ⟨name, docs, vars ++ own, [], []⟩) rest := by
  obtain ⟨hmodifier, -⟩ := apart_of_mem_typeWords hw
  have hdash : startsWith (.symbol '-') (t' :: (h ++ [opening]) ++ rest) = false :=
    startsWith_word ht' '-' _
  refine reads_declarationEvent hm (hdocs.docsBetween_eq (List.cons_ne_nil _ _) rest)
    (.word ht hmodifier hdash) ?_ hs
  intro s hs
  -- Only an enum has something after its opening brace that belongs to its start.
  have hopened : Reads (typeOpening docs vars s) ⟨name, docs, vars ++ own, [], []⟩ rest := by
    refine (reads_identifier ht hs).bind fun u₁ h₁ => ?_
    refine (reads_identifier ht' h₁).bind fun u₂ h₂ => ?_
    have h₂ : u₂.left = h ++ opening :: rest := by
      rw [h₂]
      exact List.append_assoc h [opening] rest
    obtain ⟨mid, hown, hheader⟩ := hheader.exists_left hopening h₂
    refine hown.bind fun u₃ h₃ => ?_
    refine (hheader h₃).bind fun u₄ h₄ => ?_
    have hconstants : LoopReads (constantsOf w u₄.left) [] rest := by
      rw [constantsOf, if_neg henum]
      exact ⟨_, rfl, h₄⟩
    exact hconstants.bind fun _ hleft => ⟨_, rfl, hleft⟩
  obtain ⟨_, p, d⟩ := t
  cases ht
  rw [hs] at hopened ⊢
  rw [List.cons_append] at hopened ⊢
  rw [bareEvent, if_pos hw]
  exact hopened.bind fun _ hleft => ⟨_, rfl, hleft⟩

end events

/-! ## Section 3: Where the places are -/

namespace OpenFile

variable {f : OpenFile} {front m b h : List Token} {t t' opening closing : Token}
  {docs w name : String} {own : List String} {e : Event}

/-- The front of a file that is read through a declaration. -/
theorem run_modifiers (hf : start.run front = .ok f) (hm : IsModifiers m)
    (hb : ∀ k ∈ loneKinds, startsWith k b = false) (hne : b ≠ [])
    (h : Reads (declarationEvent f.scope.1 f.scope.2 (m ++ b)) e []) :
    start.run (front ++ (m ++ b)) = .ok (f.apply e) := by
  rw [run_append hf]
  rw [← f.next_modifiers hm hb] at h
  exact run_of_reads (List.append_ne_nil_of_right_ne_nil m hne) h

/-- There is a place behind the opening brace of each type, other than an enum, wherever the type
    may stand. -/
theorem run_opening (hf : start.run front = .ok f) (hm : IsModifiers m)
    (hdocs : Documented (m ++ [t]) docs) (ht : t.kind = .word w) (hw : w ∈ typeWords)
    (henum : w ≠ "enum") (ht' : t'.kind = .word name) (hheader : IsTypeHeader h own)
    (hopening : opening.kind = .symbol '\x7b') :
    start.run (front ++ (m ++ t :: t' :: (h ++ [opening]))) =
      .ok (f.apply (.entered ⟨name, docs, f.scope.2 ++ own, [], []⟩)) := by
  obtain ⟨-, hpackage, himport⟩ := apart_of_mem_typeWords hw
  have hread : Reads (declarationEvent f.scope.1 f.scope.2 _)
      (.entered ⟨name, docs, f.scope.2 ++ own, [], []⟩) [] :=
    reads_declarationEvent_type hm hdocs ht hw henum ht' hheader hopening rfl
  rw [List.append_nil] at hread
  exact run_modifiers hf hm (startsWith_loneKinds_word ht hpackage himport _)
    (List.cons_ne_nil _ _) hread

/-- There is a place behind each member. -/
theorem run_member {ms : List Member} (hf : start.run front = .ok f)
    (howner : IsIdentifier f.scope.1) (hm : IsModifiers m) (hdocs : Documented (m ++ b.take 1) docs)
    (hb : IsMember f.scope.1 docs b ms) :
    start.run (front ++ (m ++ b)) = .ok (f.apply (.declared (.members ms))) := by
  have hstart := hb.startsMember howner
  have hlone := hstart.startsWith_loneKinds []
  have hread : Reads (declarationEvent f.scope.1 f.scope.2 (m ++ (b ++ [])))
      (.declared (.members ms)) [] :=
    reads_declarationEvent_member howner hm hdocs hb rfl
  rw [List.append_nil] at hlone hread
  exact run_modifiers hf hm hlone hstart.ne_nil hread

/-- There is a place behind the closing brace of each type inside another. -/
theorem run_closing (hf : start.run front = .ok f) (hopen : f.opened ≠ [])
    (hclosing : closing.kind = .symbol '\x7d') :
    start.run (front ++ [closing]) = .ok (f.apply .left) := by
  obtain ⟨package, types, _ | ⟨type, outer⟩⟩ := f
  · exact absurd rfl hopen
  · have hread : Reads (bodyEvent type.name type.typeVariables [closing]) .left [] := by
      obtain ⟨_, position, d⟩ := closing
      cases hclosing
      exact ⟨_, rfl, rfl⟩
    rw [run_append hf]
    exact run_of_reads (List.cons_ne_nil _ _) hread

end OpenFile

end TypeCatalog.Source
