import TypeCatalog.Proofs.Source.Extension

/-! # Files that are read in part

    Between two declarations all that a reader knows of a file is what it has read of it so far: the
    package, the types that are complete, and those that are open, each with its members up to here.
    So the recursive descent is the run of a machine whose states are such files. It takes one thing
    at a time: a declaration without a body of declarations, the start of a type, or its end.

    A run on the tokens up to some point is a part of the run on any that go on from there. -/

set_option autoImplicit false

namespace TypeCatalog.Source

/-! ## Section 1: Open files -/

/-- What is read of a file up to some point. -/
structure OpenFile where
  package : String
  /-- The types of the file that are complete. -/
  types : List TypeUnit
  /-- The types whose bodies are open, the innermost first, with what is read of them so far. -/
  opened : List TypeUnit

/-- What is read next. -/
inductive Event where
  /-- Something that declares nothing, outside of the types. -/
  | skip
  | package (name : String)
  /-- A declaration without a body of declarations. -/
  | declared (d : Declared)
  /-- The start of a type, through its opening brace and the constants of an enum. -/
  | entered (t : TypeUnit)
  /-- The closing brace of the innermost type. -/
  | left

/-- A file of which nothing is read. -/
def OpenFile.start : OpenFile := ⟨"", [], []⟩

/-- A declaration belongs to the innermost type, or to the file. -/
def OpenFile.declare (f : OpenFile) (d : Declared) : OpenFile :=
  match f.opened with
  | [] => { f with types := f.types ++ d.type?.toList }
  | t :: outer => { f with opened := t.with [d] :: outer }

/-- The innermost type becomes one that is declared around it. -/
def OpenFile.leave (f : OpenFile) : OpenFile :=
  match f.opened with
  | [] => f
  | t :: outer => OpenFile.declare { f with opened := outer } (.type t)

/-- The file after something is read. -/
def OpenFile.apply (f : OpenFile) : Event → OpenFile
  | .skip => f
  | .package name => { f with package := name }
  | .declared d => f.declare d
  | .entered t => { f with opened := t :: f.opened }
  | .left => f.leave

/-! ## Section 2: The machine -/

/-- A type from its keyword through its opening brace, with the constants of an enum. -/
def typeOpening (docs : String) (outer : List String) (s : List Token) : Reading TypeUnit s := do
  let (keyword, left) ← identifier s
  let (name, left₂) ← identifier left.left
  let (own, left₃) ← optionalVariables left₂.left
  let (_, left₄) ← typeHeader left₃.left
  let (constants, left₅) ← constantsOf keyword left₄.left
  return (⟨name, docs, outer ++ own, constants, []⟩,
    left.append (left₂.append (left₃.before (left₄.append left₅)).toRest).toRest)

/-- A declaration after its modifiers. Of a type only the start is read. -/
def bareEvent (owner docs : String) (typeVariables : List String) (s : List Token) :
    Reading Event s :=
  match s with
  | ⟨.symbol '@', _, _⟩ :: r => do
    let (t, left) ← typeOpening docs typeVariables r
    return (.entered t, .cons _ left.toRest)
  | ⟨.word w, p, d⟩ :: r => do
    if w ∈ typeWords then
      let (t, left) ← typeOpening docs typeVariables (⟨.word w, p, d⟩ :: r)
      return (.entered t, left)
    let (found, left) ← bareDeclaration owner docs typeVariables (⟨.word w, p, d⟩ :: r)
    return (.declared found, left)
  | s => do
    let (found, left) ← bareDeclaration owner docs typeVariables s
    return (.declared found, left)

/-- A declaration with its modifiers. -/
def declarationEvent (owner : String) (typeVariables : List String) (s : List Token) :
    Reading Event s := do
  let (_, left) ← modifiers s
  let (e, left') ← bareEvent owner (docsBetween s left.left) typeVariables left.left
  return (e, left.before left')

/-- What is read in a body. -/
def bodyEvent (owner : String) (typeVariables : List String) (s : List Token) : Reading Event s :=
  match s with
  | ⟨.symbol '\x7d', _, _⟩ :: r => .ok (.left, .one _ r)
  | s => declarationEvent owner typeVariables s

/-- What is read outside of all types. -/
def fileEvent (s : List Token) : Reading Event s :=
  match s with
  | ⟨.symbol ';', _, _⟩ :: r => .ok (.skip, .one _ r)
  | ⟨.word "package", _, _⟩ :: r => do
    let (name, left) ← qualifiedName r
    let (_, left') ← symbol ';' left.left
    return (.package name, .cons _ (left.append left'.toRest).toRest)
  | ⟨.word "import", _, _⟩ :: r => do
    let (_, left) ← throughSymbol ';' r
    return (.skip, .cons _ left.toRest)
  | s => declarationEvent "" [] s

namespace OpenFile

/-- What is read next depends on the innermost type alone. -/
def next (f : OpenFile) (s : List Token) : Reading Event s :=
  match f.opened with
  | [] => fileEvent s
  | t :: _ => bodyEvent t.name t.typeVariables s

/-- The file after all of some tokens are read. -/
def run (f : OpenFile) (s : List Token) : Except Halt OpenFile :=
  match s with
  | [] => .ok f
  | t :: r => do
    let (e, left) ← f.next (t :: r)
    (f.apply e).run left.left
termination_by s.length
decreasing_by exact left.lt

/-- The file if it ends here. -/
def finish (f : OpenFile) : Except Halt SourceUnit :=
  match f.opened with
  | [] => .ok ⟨f.package, f.types⟩
  | _ :: _ => .error ⟨.typeBodyEnd, []⟩

/-- What becomes of a file with some tokens after what is read of it. -/
def result (f : OpenFile) (s : List Token) : Except Halt SourceUnit := f.run s >>= finish

variable {f : OpenFile} {s : List Token}

theorem result_nil (f : OpenFile) : f.result [] = f.finish := by
  rw [result, run]
  rfl

theorem result_cons (f : OpenFile) (t : Token) (r : List Token) :
    f.result (t :: r) = f.next (t :: r) >>= fun x => (f.apply x.1).result x.2.left := by
  rw [result, run, bind_assoc]
  rfl

end OpenFile

/-! ## Section 3: The recursive descent is a run -/

/-- A type is read in two parts. -/
theorem typeUnit_eq (docs : String) (outer : List String) (s : List Token) :
    typeUnit docs outer s = typeOpening docs outer s >>= fun x =>
      body x.1.name x.1.typeVariables x.2.left >>= fun y =>
        .ok (x.1.with y.1, x.2.append y.2.toRest) := by
  rw [typeUnit]
  simp only [typeOpening, bind_assoc, pure_bind]
  rfl

theorem TypeUnit.with_cons (t : TypeUnit) (d : Declared) (found : List Declared) :
    (t.with [d]).with found = t.with (d :: found) := by
  cases h : d.type? <;> simp [TypeUnit.with, h]

/-- With a type open the rest of its body is read, and then what follows the type. -/
def ReadsBody (s : List Token) : Prop :=
  ∀ (package : String) (types : List TypeUnit) (t : TypeUnit) (outer : List TypeUnit),
    (⟨package, types, t :: outer⟩ : OpenFile).result s =
      body t.name t.typeVariables s >>= fun x =>
        (⟨package, types, t.with x.1 :: outer⟩ : OpenFile).leave.result x.2.left

section descent

variable (f : OpenFile) {s : List Token}

/-- To enter a type is to declare what it will be, if bodies of less tokens are read. -/
theorem typeOpening_result (hbody : ∀ s', s'.length < s.length → ReadsBody s') (docs : String)
    (outer : List String) :
    (typeOpening docs outer s >>= fun x => (f.apply (.entered x.1)).result x.2.left) =
      typeUnit docs outer s >>= fun x => (f.declare (.type x.1)).result x.2.left := by
  rw [typeUnit_eq, bind_assoc]
  rcases typeOpening docs outer s with e | ⟨t, left⟩
  · rfl
  · show (⟨f.package, f.types, t :: f.opened⟩ : OpenFile).result left.left =
      (body t.name t.typeVariables left.left >>= _) >>= _
    rw [hbody left.left left.lt, bind_assoc]
    rfl

theorem bareEvent_result (hbody : ∀ s', s'.length < s.length → ReadsBody s') (owner docs : String)
    (typeVariables : List String) :
    (bareEvent owner docs typeVariables s >>= fun x => (f.apply x.1).result x.2.left) =
      bareDeclaration owner docs typeVariables s >>= fun x =>
        (f.declare x.1).result x.2.left := by
  unfold bareEvent
  split
  · next p d r =>
    have hinside : ∀ s', s'.length < r.length → ReadsBody s' := by
      intro s' hlt
      exact hbody s' (Nat.lt_succ_of_lt hlt)
    rw [bareDeclaration]
    simp only [bind_assoc, pure_bind]
    exact typeOpening_result f hinside docs typeVariables
  · next w p d r =>
    by_cases hw : w ∈ typeWords
    · rw [bareDeclaration, if_pos hw, if_pos hw]
      simp only [bind_assoc, pure_bind]
      exact typeOpening_result f hbody docs typeVariables
    · rw [if_neg hw]
      simp only [bind_assoc, pure_bind]
      rfl
  · simp only [bind_assoc, pure_bind]
    rfl

/-- A declaration is read with its body. -/
theorem declarationEvent_result (hbody : ∀ s', s'.length < s.length → ReadsBody s')
    (owner : String) (typeVariables : List String) :
    (declarationEvent owner typeVariables s >>= fun x => (f.apply x.1).result x.2.left) =
      declaration owner typeVariables s >>= fun x => (f.declare x.1).result x.2.left := by
  rw [declarationEvent, declaration, bind_assoc, bind_assoc]
  rcases modifiers s with e | ⟨_, u⟩
  · rfl
  · have hinside : ∀ s', s'.length < u.left.length → ReadsBody s' := by
      intro s' hlt
      exact hbody s' (Nat.lt_of_lt_of_le hlt u.length_le)
    show (bareEvent owner _ typeVariables u.left >>= _) >>= _ =
      (bareDeclaration owner _ typeVariables u.left >>= _) >>= _
    rw [bind_assoc, bind_assoc]
    exact bareEvent_result f hinside owner _ typeVariables

end descent

/-- The rest of a body is read in the same way by the machine and by the recursive descent. -/
theorem readsBody (s : List Token) : ReadsBody s := by
  -- A declaration leaves fewer tokens, and a type in it leaves fewer for its own body.
  induction hn : s.length using Nat.strongRecOn generalizing s with
  | ind n ih =>
  subst hn
  have hshorter : ∀ s' : List Token, s'.length < s.length → ReadsBody s' := by
    intro s' hlt
    exact ih s'.length hlt s' rfl
  intro package types t outer
  match s with
  | [] =>
    rw [OpenFile.result_nil, body]
    rfl
  | x :: r =>
    rw [OpenFile.result_cons]
    by_cases hx : x.kind = .symbol '\x7d'
    -- The machine leaves the type where the body ends.
    · obtain ⟨_, p, d⟩ := x
      cases hx
      rw [body]
      show (⟨package, types, t :: outer⟩ : OpenFile).leave.result r =
        (⟨package, types, t.with [] :: outer⟩ : OpenFile).leave.result r
      rw [TypeUnit.with_nil]
    -- A declaration is added to the type, and the rest of the body is read with it.
    · have hclose : ∀ p d r', x :: r = ⟨.symbol '\x7d', p, d⟩ :: r' → False := by
        rintro p d r' heq
        cases heq
        exact hx rfl
      have hnext : (⟨package, types, t :: outer⟩ : OpenFile).next (x :: r) =
          declarationEvent t.name t.typeVariables (x :: r) := by
        show bodyEvent t.name t.typeVariables (x :: r) = _
        rw [bodyEvent]
        exact hclose
      rw [hnext, declarationEvent_result _ hshorter, body, bind_assoc]
      · rcases declaration t.name t.typeVariables (x :: r) with e | ⟨d, left⟩
        · rfl
        · show (⟨package, types, t.with [d] :: outer⟩ : OpenFile).result left.left =
            (body t.name t.typeVariables left.left >>= _) >>= _
          rw [hshorter left.left left.lt, bind_assoc]
          show (body t.name t.typeVariables left.left >>= _) = _
          congr 1
          funext y
          rw [TypeUnit.with_cons]
          rfl
      · simp
      · exact hclose

/-- What is read outside of all types. -/
theorem map_sourceUnit (package : String) (types : List TypeUnit) (s : List Token) :
    (sourceUnit package s).map (fun u => { u with types := types ++ u.types }) =
      (⟨package, types, []⟩ : OpenFile).result s := by
  fun_induction sourceUnit package s generalizing types with
  | case1 package =>
    rw [OpenFile.result_nil]
    show Except.ok (⟨package, types ++ []⟩ : SourceUnit) = .ok ⟨package, types⟩
    rw [List.append_nil]
  | case2 package p d r ih =>
    rw [ih, OpenFile.result_cons]
    rfl
  | case3 package p d r ih =>
    rw [OpenFile.result_cons]
    show (qualifiedName r >>= _).map _ = (qualifiedName r >>= _) >>= _
    rcases qualifiedName r with e | ⟨name, left⟩
    · rfl
    · show (symbol ';' left.left >>= _).map _ = (symbol ';' left.left >>= _) >>= _
      rcases symbol ';' left.left with e | ⟨_, left'⟩
      · rfl
      · exact ih name left left' types
  | case4 package p d r ih =>
    rw [OpenFile.result_cons]
    show (throughSymbol ';' r >>= _).map _ = (throughSymbol ';' r >>= _) >>= _
    rcases throughSymbol ';' r with e | ⟨_, left⟩
    · rfl
    · exact ih left types
  | case5 package s hnil hsemicolon hpackage himport ih =>
    obtain ⟨x, r, rfl⟩ := List.exists_cons_of_ne_nil hnil
    have hnext : (⟨package, types, []⟩ : OpenFile).next (x :: r) =
        declarationEvent "" [] (x :: r) := by
      show fileEvent (x :: r) = _
      rw [fileEvent]
      all_goals assumption
    rw [OpenFile.result_cons, hnext,
      declarationEvent_result _ fun s' _ => readsBody s']
    rcases declaration "" [] (x :: r) with e | ⟨d, left⟩
    · rfl
    · have hmore := ih left (types ++ d.type?.toList)
      show (sourceUnit package left.left >>= _).map _ =
        (⟨package, types ++ d.type?.toList, []⟩ : OpenFile).result left.left
      rw [← hmore]
      rcases sourceUnit package left.left with e | u
      · rfl
      · show Except.ok (⟨u.package, types ++ (d.type?.toList ++ u.types)⟩ : SourceUnit) =
          .ok ⟨u.package, types ++ d.type?.toList ++ u.types⟩
        rw [List.append_assoc]

/-- What a file comes to is the result of the run. -/
theorem sourceUnit_eq_result (s : List Token) : sourceUnit "" s = OpenFile.start.result s := by
  rw [OpenFile.start, ← map_sourceUnit]
  cases sourceUnit "" s <;> rfl

/-! ## Section 4: Runs on longer inputs -/

section longer

variable (owner docs : String) (typeVariables : List String)

theorem closing_typeOpening : Closing (typeOpening docs typeVariables) := by
  intro s left a h
  obtain ⟨keyword, u₁, h₁, h⟩ := h.of_bind
  obtain ⟨name, u₂, h₂, h⟩ := h.of_bind
  obtain ⟨own, u₃, h₃, h⟩ := h.of_bind
  obtain ⟨_, u₄, h₄, h⟩ := h.of_bind
  obtain ⟨constants, u₅, h₅, h⟩ := h.of_bind
  obtain ⟨rfl, rfl⟩ := h.of_ok
  obtain ⟨hstop₃, hheader⟩ := closing_typeHeader ⟨u₄, h₄, rfl⟩
  have hstop₂ : HasStop u₂.left := hstop₃.of_suffix u₃.isSuffix
  have hstop₁ : HasStop u₁.left := hstop₂.of_suffix u₂.isSuffix
  refine ⟨hstop₁.of_suffix u₁.isSuffix, ?_⟩
  intro c s' hs
  refine (steady_identifier ⟨u₁, h₁, rfl⟩ hstop₁ hs).bind fun _ hs₁ => ?_
  refine (steady_identifier ⟨u₂, h₂, rfl⟩ hstop₂ hs₁).bind fun _ hs₂ => ?_
  refine (steadyLoop_optionalVariables ⟨u₃, h₃, rfl⟩ hstop₃ hs₂).bind fun _ hs₃ => ?_
  refine (hheader hs₃).bind fun _ hs₄ => ?_
  exact (loopReads_constantsOf_append ⟨u₅, h₅, rfl⟩ hs₄).bind fun _ hleft => ⟨_, rfl, hleft⟩

/-- A declaration that is no type, after its modifiers. -/
theorem extends_bareDeclaration {s left : List Token} {d : Declared}
    (hsign : ∀ p d r, s = ⟨.symbol '@', p, d⟩ :: r → False)
    (hword : ∀ w p d r, s = ⟨.word w, p, d⟩ :: r → w ∉ typeWords)
    (h : Reads (bareDeclaration owner docs typeVariables s) d left) :
    Extends (bareDeclaration owner docs typeVariables) s d left := by
  unfold bareDeclaration at h
  split at h
  · next p d r =>
    obtain ⟨_, u, hu, h⟩ := h.of_bind
    obtain ⟨rfl, rfl⟩ := h.of_ok
    refine (closing_group (by decide) ⟨u, hu, rfl⟩).token fun hr => ?_
    rw [bareDeclaration]
    exact hr.bind fun _ hleft => ⟨_, rfl, hleft⟩
  · next p d r =>
    obtain ⟨rfl, rfl⟩ := h.of_ok
    refine .stop rfl (by decide) (fun r => ?_) r
    rw [bareDeclaration]
    exact ⟨_, rfl, rfl⟩
  · next p d r => exact absurd rfl (hsign p d r)
  · next w p d r =>
    have hw := hword w p d r rfl
    rw [if_neg hw] at h
    obtain ⟨_, u, hu, h⟩ := h.of_bind
    obtain ⟨rfl, rfl⟩ := h.of_ok
    refine (closing_members owner docs ⟨u, hu, rfl⟩).wrap fun _ c hr => ?_
    rw [List.cons_append, bareDeclaration, if_neg hw]
    exact hr.bind fun _ hleft => ⟨_, rfl, hleft⟩
  · next hblock hsemicolon _ hother =>
    obtain ⟨_, u, hu, h⟩ := h.of_bind
    obtain ⟨rfl, rfl⟩ := h.of_ok
    refine (closing_members owner docs ⟨u, hu, rfl⟩).wrap fun hstop c hr => ?_
    rw [bareDeclaration]
    · exact hr.bind fun _ hleft => ⟨_, rfl, hleft⟩
    · exact hstop.ne_append hblock
    · exact hstop.ne_append hsemicolon
    · exact hstop.ne_append hsign
    · exact fun w => hstop.ne_append (hother w)

theorem closing_bareEvent : Closing (bareEvent owner docs typeVariables) := by
  intro s left e h
  unfold bareEvent at h
  split at h
  · next p d r =>
    obtain ⟨_, u, hu, h⟩ := h.of_bind
    obtain ⟨rfl, rfl⟩ := h.of_ok
    exact (closing_typeOpening docs typeVariables ⟨u, hu, rfl⟩).token fun hr =>
      hr.bind fun _ hleft => ⟨_, rfl, hleft⟩
  · next w p d r =>
    split at h
    · next hw =>
      obtain ⟨_, u, hu, h⟩ := h.of_bind
      obtain ⟨rfl, rfl⟩ := h.of_ok
      refine (closing_typeOpening docs typeVariables ⟨u, hu, rfl⟩).wrap fun _ c hr => ?_
      rw [List.cons_append, bareEvent, if_pos hw]
      exact hr.bind fun _ hleft => ⟨_, rfl, hleft⟩
    · next hw =>
      obtain ⟨found, u, hu, h⟩ := h.of_bind
      obtain ⟨rfl, rfl⟩ := h.of_ok
      have hread : Extends (bareDeclaration owner docs typeVariables) (⟨.word w, p, d⟩ :: r) found
          u.left := by
        refine extends_bareDeclaration owner docs typeVariables (by simp) ?_ ⟨u, hu, rfl⟩
        intro w' p' d' r' heq
        cases heq
        exact hw
      refine hread.wrap fun _ c hr => ?_
      rw [List.cons_append, bareEvent, if_neg hw]
      exact hr.bind fun _ hleft => ⟨_, rfl, hleft⟩
  · next hsign hword =>
    obtain ⟨_, u, hu, h⟩ := h.of_bind
    obtain ⟨rfl, rfl⟩ := h.of_ok
    have hread := extends_bareDeclaration owner docs typeVariables hsign
      (fun w p d r heq => (hword w p d r heq).elim) ⟨u, hu, rfl⟩
    refine hread.wrap fun hstop c hr => ?_
    rw [bareEvent]
    · exact hr.bind fun _ hleft => ⟨_, rfl, hleft⟩
    · exact hstop.ne_append hsign
    · exact fun w => hstop.ne_append (hword w)

theorem closing_declarationEvent : Closing (declarationEvent owner typeVariables) := by
  intro s left e h
  obtain ⟨_, u, hu, h⟩ := h.of_bind
  obtain ⟨_, v, hv, h⟩ := h.of_bind
  obtain ⟨rfl, rfl⟩ := h.of_ok
  obtain ⟨hstop, hbare⟩ := closing_bareEvent owner _ typeVariables ⟨v, hv, rfl⟩
  refine ⟨hstop.of_suffix u.isSuffix, ?_⟩
  intro c s' hs
  have hdocs := docsBetween_append u.isSuffix hstop.ne_nil c
  refine (steadyLoop_modifiers ⟨u, hu, rfl⟩ hstop hs).bind fun u' hu' => ?_
  rw [← hdocs, ← hs, ← hu'] at hbare
  exact (hbare hu').bind fun _ hleft => ⟨_, rfl, hleft⟩

theorem closing_bodyEvent : Closing (bodyEvent owner typeVariables) := by
  intro s left e h
  unfold bodyEvent at h
  split at h
  · next p d r =>
    obtain ⟨rfl, rfl⟩ := h.of_ok
    exact .stop rfl (by decide) (fun r => ⟨_, rfl, rfl⟩) r
  · next hne =>
    refine (closing_declarationEvent owner typeVariables h).wrap fun hstop c hr => ?_
    rw [bodyEvent]
    · exact hr
    · exact hstop.ne_append hne

theorem closing_fileEvent : Closing fileEvent := by
  intro s left e h
  unfold fileEvent at h
  split at h
  · next p d r =>
    obtain ⟨rfl, rfl⟩ := h.of_ok
    exact .stop rfl (by decide) (fun r => ⟨_, rfl, rfl⟩) r
  · next p d r =>
    obtain ⟨_, u, hu, h⟩ := h.of_bind
    obtain ⟨_, v, hv, h⟩ := h.of_bind
    obtain ⟨rfl, rfl⟩ := h.of_ok
    refine (closing_symbol (by decide) ⟨v, hv, rfl⟩).after u.isSuffix fun hstop c hextend => ?_
    refine (steady_qualifiedName ⟨u, hu, rfl⟩ hstop rfl).bind fun _ hu' => ?_
    exact (hextend hu').bind fun _ hleft => ⟨_, rfl, hleft⟩
  · next p d r =>
    obtain ⟨_, u, hu, h⟩ := h.of_bind
    obtain ⟨rfl, rfl⟩ := h.of_ok
    exact (closing_throughSymbol (by decide) ⟨u, hu, rfl⟩).token fun hr =>
      hr.bind fun _ hleft => ⟨_, rfl, hleft⟩
  · next hsemicolon hpackage himport =>
    refine (closing_declarationEvent "" [] h).wrap fun hstop c hr => ?_
    rw [fileEvent]
    · exact hr
    · exact hstop.ne_append hsemicolon
    · exact hstop.ne_append hpackage
    · exact hstop.ne_append himport

end longer

namespace OpenFile

/-- What is read next does not depend on what follows it. -/
theorem closing_next (f : OpenFile) : Closing f.next := by
  intro s left e h
  obtain ⟨package, types, _ | ⟨t, outer⟩⟩ := f
  · exact closing_fileEvent h
  · exact closing_bodyEvent t.name t.typeVariables h

/-- A run goes on from the file that it comes to on the tokens up to some point. -/
theorem run_append {f f' : OpenFile} {front : List Token} (h : f.run front = .ok f')
    (rest : List Token) : f.run (front ++ rest) = f'.run rest := by
  induction hn : front.length using Nat.strongRecOn generalizing f front with
  | ind n ih =>
  subst hn
  match front with
  | [] =>
    rw [run] at h
    cases h
    rfl
  | t :: r =>
    rw [run] at h
    cases hnext : f.next (t :: r) with
    | error e =>
      rw [hnext] at h
      cases h
    | ok x =>
      obtain ⟨e, left⟩ := x
      rw [hnext] at h
      have h : (f.apply e).run left.left = .ok f' := h
      obtain ⟨-, hextend⟩ := closing_next f ⟨left, hnext, rfl⟩
      have hnext' : Reads (f.next (t :: (r ++ rest))) e (left.left ++ rest) := hextend rfl
      rw [List.cons_append, run]
      refine hnext'.bind_eq fun u hu => ?_
      dsimp only
      rw [hu]
      exact ih left.left.length left.lt h rfl

end OpenFile

end TypeCatalog.Source
