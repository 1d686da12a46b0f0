import TypeCatalog.Proofs.Toml.Lookahead
import TypeCatalog.Proofs.Toml.Places

/-! # Another text in the place of one

    A file of which a value is a text, written between quotation marks, is read in the same way if
    another text is written there, and what is read is the same but for that text. What comes before
    the value is read before anything of the value is seen, and what comes after it does not depend
    on the text. -/

set_option autoImplicit false

namespace TypeCatalog.Toml

/-! ## Section 1: What is read before a value -/

/-- An item of an array, and the comma after it. -/
def itemBefore (room : Nat) (s : List Char) : Except Unit (Toml × List Char) :=
  (value room s).outcome.bind fun (item, left) =>
    (expect ',' (skipLines left).left).outcome.bind fun (_, left) =>
      .ok (item, (skipLines left).left)

/-- The name of a member of a table between braces. -/
def memberName (s : List Char) : Except Unit ((String × List String) × List Char) :=
  (key s).outcome.bind fun (name, left) =>
    (expect '=' (skipLines left).left).outcome.bind fun (_, left) =>
      .ok (name, (skipLines left).left)

/-- A member of a table between braces, and the comma after it: the members with this one. -/
def memberBefore (room : Nat) (members : Members) (s : List Char) :
    Except Unit (Members × List Char) :=
  (memberName s).bind fun (name, left) =>
    (value room left).outcome.bind fun (found, left) =>
      match assign name.1 name.2 found members with
      | none => .error ()
      | some members =>
        (expect ',' (skipLines left).left).outcome.bind fun (_, left) =>
          .ok (members, (skipLines left).left)

/-- The name of the value that a line gives. -/
def entryName (s : List Char) : Except Unit ((String × List String) × List Char) :=
  (key s).outcome.bind fun (name, left) =>
    (expect '=' (left.dropWhile isSpace)).outcome.bind fun (_, left) =>
      .ok (name, left.dropWhile isSpace)

/-- A line and its break: the draft with this line. -/
def lineBefore (d : Draft) (s : List Char) : Except Unit (Draft × List Char) :=
  (line (s.dropWhile isSpace)).outcome.bind fun (found, left) =>
    match d.add found with
    | none => .error ()
    | some d => (lineBreak (afterComment left)).outcome.map fun (_, left) => (d, left)

/-- One character between lines that are skipped. -/
theorem skipLines_expect_toQuote {α : Type} (c : Char) (a : α) (s : List Char) :
    ToQuote (fun s => (expect c (skipLines s).left).outcome.bind fun (_, left) =>
      .ok (a, (skipLines left).left)) s :=
  (ToQuote.after (skipLines_toQuote s) (expect_toQuote c _)).bind
    fun _ left _ => (skipLines_toQuote left).map fun _ => a

theorem itemBefore_toQuote (room : Nat) (s : List Char) : ToQuote (itemBefore room) s :=
  (value_toQuote room s).bind fun item left _ => skipLines_expect_toQuote ',' item left

theorem memberName_toQuote (s : List Char) : ToQuote memberName s :=
  (key_toQuote s).bind fun name left _ => skipLines_expect_toQuote '=' name left

theorem memberBefore_toQuote (room : Nat) (members : Members) (s : List Char) :
    ToQuote (memberBefore room members) s := by
  apply (memberName_toQuote s).bind
  intro name left _
  apply (value_toQuote room left).bind
  intro found left _
  show ToQuote (fun left => match assign name.1 name.2 found members with
    | none => .error ()
    | some members => (expect ',' (skipLines left).left).outcome.bind fun (_, left) =>
        .ok (members, (skipLines left).left)) left
  cases assign name.1 name.2 found members with
  | none => exact .of_error rfl
  | some members => exact skipLines_expect_toQuote ',' members left

theorem entryName_toQuote (s : List Char) : ToQuote entryName s := by
  apply (key_toQuote s).bind
  intro name left _
  apply (ToQuote.after (dropWhile_toQuote isSpace left) (expect_toQuote '=' _)).bind
  intro _ left _
  exact (dropWhile_toQuote isSpace left).map fun _ => name

theorem lineBefore_toQuote (d : Draft) (s : List Char) : ToQuote (lineBefore d) s := by
  apply (ToQuote.after (dropWhile_toQuote isSpace s) (line_toQuote _)).bind
  intro found left _
  show ToQuote (fun left => match d.add found with
    | none => .error ()
    | some d => (lineBreak (afterComment left)).outcome.map fun (_, left) => (d, left)) left
  cases d.add found with
  | none => exact .of_error rfl
  | some d =>
    exact (ToQuote.after (afterComment_toQuote left) (lineBreak_toQuote _)).map fun _ => d

theorem itemBefore_length_lt {room : Nat} {s left : List Char} {item : Toml}
    (h : itemBefore room s = .ok (item, left)) : left.length < s.length := by
  obtain ⟨⟨_, left₁⟩, hitem, h⟩ := bind_eq_ok.1 h
  obtain ⟨⟨_, left₂⟩, hcomma, h⟩ := bind_eq_ok.1 h
  cases h
  have h₁ := Reading.length_lt hitem
  have h₂ := (skipLines left₁).length_le
  have h₃ := Reading.length_lt hcomma
  have h₄ := (skipLines left₂).length_le
  omega

theorem memberName_length_lt {s left : List Char} {name : String × List String}
    (h : memberName s = .ok (name, left)) : left.length < s.length := by
  obtain ⟨⟨_, left₁⟩, hname, h⟩ := bind_eq_ok.1 h
  obtain ⟨⟨_, left₂⟩, hequals, h⟩ := bind_eq_ok.1 h
  cases h
  have h₁ := Reading.length_lt hname
  have h₂ := (skipLines left₁).length_le
  have h₃ := Reading.length_lt hequals
  have h₄ := (skipLines left₂).length_le
  omega

theorem memberBefore_length_lt {room : Nat} {members members' : Members} {s left : List Char}
    (h : memberBefore room members s = .ok (members', left)) : left.length < s.length := by
  obtain ⟨⟨name, left₁⟩, hname, h⟩ := bind_eq_ok.1 h
  obtain ⟨⟨found, left₂⟩, hfound, h⟩ := bind_eq_ok.1 h
  cases hassign : assign name.1 name.2 found members with
  | none => simp [hassign] at h
  | some members₁ =>
    simp only [hassign] at h
    obtain ⟨⟨_, left₃⟩, hcomma, h⟩ := bind_eq_ok.1 h
    obtain ⟨-, rfl⟩ := Prod.mk.inj (Except.ok.inj h)
    dsimp only at hcomma ⊢
    have h₁ := memberName_length_lt hname
    have h₂ := Reading.length_lt hfound
    have h₃ := (skipLines left₂).length_le
    have h₄ := Reading.length_lt hcomma
    have h₅ := (skipLines left₃).length_le
    omega

/-! ## Section 2: Where a value stands -/

mutual
/-- In reading a value, the one in front of `u` is read. -/
inductive ValueAt (u : List Char) : Nat → List Char → Prop
  | here (room : Nat) : ValueAt u room u
  | array {room : Nat} {r : List Char} :
      ItemAt u room (skipLines r).left → ValueAt u (room + 1) ('[' :: r)
  | braces {room : Nat} {r : List Char} :
      MemberAt u room [] (skipLines r).left → ValueAt u (room + 1) ('\x7b' :: r)
/-- In reading the items of an array, the value in front of `u` is read. -/
inductive ItemAt (u : List Char) : Nat → List Char → Prop
  | first {room : Nat} {s : List Char} :
      s.head? ≠ some ']' → ValueAt u room s → ItemAt u room s
  | later {room : Nat} {s left : List Char} {item : Toml} :
      s.head? ≠ some ']' → itemBefore room s = .ok (item, left) → ItemAt u room left →
      ItemAt u room s
/-- In reading the members of a table between braces, the value in front of `u` is read. -/
inductive MemberAt (u : List Char) : Nat → Members → List Char → Prop
  | first {room : Nat} {members : Members} {s left : List Char} {name : String × List String} :
      s.head? ≠ some '\x7d' → memberName s = .ok (name, left) → ValueAt u room left →
      MemberAt u room members s
  | later {room : Nat} {members members' : Members} {s left : List Char} :
      s.head? ≠ some '\x7d' → memberBefore room members s = .ok (members', left) →
      MemberAt u room members' left → MemberAt u room members s
end

/-- In reading the lines of a file, the value in front of `u` is read. -/
inductive FileAt (u : List Char) : Draft → List Char → Prop
  | here {d : Draft} {s left : List Char} {name : String × List String} :
      entryName (s.dropWhile isSpace) = .ok (name, left) → ValueAt u depthLimit left → FileAt u d s
  | later {d d' : Draft} {s left : List Char} :
      lineBefore d s = .ok (d', left) → FileAt u d' left → FileAt u d s

/-- A text is written between quotation marks in front of `rest`. -/
structure Spells (u rest : List Char) (w : String) : Prop where
  quote : u.head? = some '"'
  /-- There is not one more mark after the last one. -/
  ends : rest.head? ≠ some '"'
  value (room : Nat) : (value room u).outcome = .ok (.text w, rest)

/-! ## Section 3: What a text that is written somewhere comes to -/

section carries

variable {α β γ : Type} {u rest left mid s : List Char}
variable {f g : List Char → Except Unit (α × List Char)} {result : String → α}

/-- What `f` reads is `u` with something before it, and with a text written instead of `u` it gives
    the result for that text. -/
def Carries (u rest : List Char) (f : List Char → Except Unit (α × List Char))
    (result : String → α) (left s : List Char) : Prop :=
  ∃ before, s = before ++ u ∧ ∀ u' w, Spells u' rest w → f (before ++ u') = .ok (result w, left)

namespace Carries

theorem alike {u' : List Char} {w : String} (hu : u.head? = some '"') (h : Spells u' rest w) :
    AlikeToQuote u u' := by
  obtain ⟨r, rfl⟩ := List.head?_eq_some_iff.1 hu
  obtain ⟨r', rfl⟩ := List.head?_eq_some_iff.1 h.quote
  exact .quote r r'

/-- Something is read before. -/
theorem before {c : γ} {first : List Char → Except Unit (γ × List Char)} (hu : u.head? = some '"')
    (h : Carries u rest f result left mid) (hfirst : ToQuote first s)
    (hmid : first s = .ok (c, mid))
    (hg : ∀ s' mid', AlikeToQuote s s' → first s' = .ok (c, mid') → g s' = f mid') :
    Carries u rest g result left s := by
  obtain ⟨front, rfl, hresult⟩ := h
  obtain ⟨taken, rfl⟩ := hfirst.suffix hmid
  rw [← List.append_assoc] at hfirst hmid hg ⊢
  refine ⟨taken ++ front, rfl, fun u' w hu' => ?_⟩
  have halike := alike hu hu'
  rw [hg _ _ (halike.append _) (hfirst.gives halike rfl hmid)]
  exact hresult u' w hu'

/-- Something is read after. -/
theorem after {h : List Char → Except Unit (β × List Char)} {result' : String → β}
    {left' : List Char} (hu : u.head? = some '"') (hf : Carries u rest f result left s)
    (hh : ∀ s' w, AlikeToQuote s s' → f s' = .ok (result w, left) → h s' = .ok (result' w, left')) :
    Carries u rest h result' left' s := by
  obtain ⟨front, rfl, hresult⟩ := hf
  exact ⟨front, rfl, fun u' w hu' =>
    hh _ w ((alike hu hu').append front) (hresult u' w hu')⟩

/-- A bracket and lines that are skipped are before. -/
theorem opened {h : List Char → Except Unit (β × List Char)} {k : α → β} {c : Char} {r : List Char}
    (hu : u.head? = some '"') (hf : Carries u rest f result left (skipLines r).left)
    (hh : ∀ r, h (c :: r) = (f (skipLines r).left).map fun (a, left) => (k a, left)) :
    Carries u rest h (fun w => k (result w)) left (c :: r) := by
  have hmap : Carries u rest (fun s => (f s).map fun (a, left) => (k a, left))
      (fun w => k (result w)) left (skipLines r).left :=
    hf.after hu fun s' w _ h => map_eq_ok.2 ⟨_, h, rfl⟩
  have hskip : Carries u rest (fun r => h (c :: r)) (fun w => k (result w)) left r :=
    hmap.before hu (skipLines_toQuote r) rfl fun r' mid' _ h => by
      cases h
      exact hh r'
  obtain ⟨front, rfl, hresult⟩ := hskip
  exact ⟨c :: front, rfl, hresult⟩

end Carries

end carries

/-! ## Section 4: Tables between braces -/

theorem arrayItems_of_itemBefore {room : Nat} {s left : List Char} {item : Toml}
    (hclose : s.head? ≠ some ']') (h : itemBefore room s = .ok (item, left)) :
    (arrayItems room s).outcome =
      (arrayItems room left).outcome.map fun (items, left) => (item :: items, left) := by
  obtain ⟨⟨item', left₁⟩, hitem, h⟩ := bind_eq_ok.1 h
  obtain ⟨⟨_, left₂⟩, hcomma, h⟩ := bind_eq_ok.1 h
  cases h
  rw [outcome_arrayItems room hclose, hitem]
  show (arrayTail room (skipLines left₁).left).outcome.map _ = _
  rw [eq_cons_of_expect hcomma, outcome_arrayTail_comma]

theorem bracesMembers_of_memberName {room : Nat} {members : Members} {s left : List Char}
    {name : String × List String} (hclose : s.head? ≠ some '\x7d')
    (h : memberName s = .ok (name, left)) :
    (bracesMembers room members s).outcome =
      (value room left).outcome.bind fun (found, left) =>
        match assign name.1 name.2 found members with
        | none => .error ()
        | some members => (bracesTail room members (skipLines left).left).outcome := by
  obtain ⟨⟨name', left₁⟩, hname, h⟩ := bind_eq_ok.1 h
  obtain ⟨⟨_, left₂⟩, hequals, h⟩ := bind_eq_ok.1 h
  cases h
  rw [outcome_bracesMembers room members hclose, hname]
  show (expect '=' (skipLines left₁).left).outcome.bind _ = _
  rw [hequals]
  rfl

theorem bracesMembers_of_memberBefore {room : Nat} {members members' : Members}
    {s left : List Char} (hclose : s.head? ≠ some '\x7d')
    (h : memberBefore room members s = .ok (members', left)) :
    (bracesMembers room members s).outcome = (bracesMembers room members' left).outcome := by
  obtain ⟨⟨name, left₁⟩, hname, h⟩ := bind_eq_ok.1 h
  obtain ⟨⟨found, left₂⟩, hfound, h⟩ := bind_eq_ok.1 h
  rw [bracesMembers_of_memberName hclose hname, hfound]
  cases hassign : assign name.1 name.2 found members with
  | none => simp [hassign] at h
  | some found' =>
    simp only [hassign] at h
    obtain ⟨⟨_, left₃⟩, hcomma, h⟩ := bind_eq_ok.1 h
    cases h
    simp only [Except.bind, hassign]
    rw [eq_cons_of_expect hcomma, outcome_bracesTail_comma]

mutual
/-- Members are read in the same way whatever text is in a place of those before. -/
theorem bracesMembers_keeps {room : Nat} {members members' : Members} {s left : List Char}
    {name : String} {p : List Step} (hplace : members.HoldsText name p)
    (h : (bracesMembers room members s).outcome = .ok (members', left)) :
    members'.HoldsText name p ∧ ∀ w, (bracesMembers room (members.put name p w) s).outcome =
      .ok (members'.put name p w, left) := by
  by_cases hclose : s.head? = some '\x7d'
  · obtain ⟨r, rfl⟩ := List.head?_eq_some_iff.1 hclose
    rw [outcome_bracesMembers_close] at h
    cases h
    exact ⟨hplace, fun w => outcome_bracesMembers_close room _ _⟩
  · rw [outcome_bracesMembers room members hclose] at h
    obtain ⟨⟨first, left₁⟩, hfirst, h⟩ := bind_eq_ok.1 h
    obtain ⟨⟨_, left₂⟩, hequals, h⟩ := bind_eq_ok.1 h
    obtain ⟨⟨found, left₃⟩, hfound, h⟩ := bind_eq_ok.1 h
    cases hassign : assign first.1 first.2 found members with
    | none => simp [hassign] at h
    | some members₁ =>
      simp only [hassign] at h
      obtain ⟨hplace₁, hput⟩ := assign_keeps _ _ _ name p members members₁ hplace hassign
      have h₁ := Reading.length_lt hfirst
      have h₂ := (skipLines left₁).length_le
      have h₃ := Reading.length_lt hequals
      have h₄ := (skipLines left₂).length_le
      have h₅ := Reading.length_lt hfound
      have h₆ := (skipLines left₃).length_le
      obtain ⟨hplace', htail⟩ := bracesTail_keeps hplace₁ h
      refine ⟨hplace', fun w => ?_⟩
      rw [outcome_bracesMembers room _ hclose]
      refine bind_eq_ok.2 ⟨_, hfirst, bind_eq_ok.2 ⟨_, hequals, bind_eq_ok.2 ⟨_, hfound, ?_⟩⟩⟩
      simp only [hput w]
      exact htail w
termination_by s.length
theorem bracesTail_keeps {room : Nat} {members members' : Members} {s left : List Char}
    {name : String} {p : List Step} (hplace : members.HoldsText name p)
    (h : (bracesTail room members s).outcome = .ok (members', left)) :
    members'.HoldsText name p ∧ ∀ w, (bracesTail room (members.put name p w) s).outcome =
      .ok (members'.put name p w, left) := by
  by_cases hclose : s.head? = some '\x7d'
  · obtain ⟨r, rfl⟩ := List.head?_eq_some_iff.1 hclose
    rw [outcome_bracesTail_close] at h
    cases h
    exact ⟨hplace, fun w => outcome_bracesTail_close room _ _⟩
  · by_cases hcomma : s.head? = some ','
    · obtain ⟨r, hr⟩ := List.head?_eq_some_iff.1 hcomma
      have h₁ : s.length = r.length + 1 := congrArg List.length hr
      have h₂ := (skipLines r).length_le
      rw [hr, outcome_bracesTail_comma] at h
      obtain ⟨hplace', hmembers⟩ := bracesMembers_keeps hplace h
      refine ⟨hplace', fun w => ?_⟩
      rw [hr, outcome_bracesTail_comma]
      exact hmembers w
    · rw [outcome_bracesTail_error room members hclose hcomma] at h
      cases h
termination_by s.length
end

/-! ## Section 5: A value in the place of another -/

section replay

variable {u rest : List Char} {w₀ : String}

mutual
/-- Another text instead of the one at `u` comes to the place of that text. -/
theorem ValueAt.carries (hu : Spells u rest w₀) {room : Nat} {s left : List Char} {t : Toml}
    (hat : ValueAt u room s) (h : (value room s).outcome = .ok (t, left)) :
    ∃ p, HoldsText p t ∧
      Carries u rest (fun s => (value room s).outcome) (fun w => put w p t) left s := by
  cases hat with
  | here =>
    rw [hu.value] at h
    cases h
    exact ⟨[], .here w₀, [], rfl, fun u' w hu' => hu'.value room⟩
  | @array room r hitem =>
    have hlength := (skipLines r).length_le
    rw [outcome_value_array] at h
    obtain ⟨⟨items, left'⟩, hitems, heq⟩ := map_eq_ok.1 h
    cases heq
    obtain ⟨i, p, hplace, hcarries⟩ := hitem.carries hu hitems
    exact ⟨.item i :: p, hplace, hcarries.opened hu.quote (outcome_value_array room)⟩
  | @braces room r hmember =>
    have hlength := (skipLines r).length_le
    rw [outcome_value_braces] at h
    obtain ⟨⟨members, left'⟩, hmembers, heq⟩ := map_eq_ok.1 h
    cases heq
    obtain ⟨name, p, ⟨t, hget, htext⟩, hcarries⟩ := hmember.carries hu hmembers
    exact ⟨.member name :: p, .member hget htext,
      hcarries.opened hu.quote (outcome_value_braces room)⟩
termination_by 3 * s.length
decreasing_by
  all_goals
    subst_vars
    simp only [List.length_cons]
    omega
theorem ItemAt.carries (hu : Spells u rest w₀) {room : Nat} {s left : List Char}
    {items : List Toml} (hat : ItemAt u room s)
    (h : (arrayItems room s).outcome = .ok (items, left)) :
    ∃ i p, HoldsText (.item i :: p) (.array items) ∧
      Carries u rest (fun s => (arrayItems room s).outcome) (fun w => items.modify i (put w p)) left
        s := by
  cases hat with
  | first hclose hvalue =>
    rw [outcome_arrayItems room hclose] at h
    obtain ⟨⟨item, mid⟩, hitem, h⟩ := bind_eq_ok.1 h
    obtain ⟨⟨others, left'⟩, hothers, heq⟩ := map_eq_ok.1 h
    cases heq
    obtain ⟨p, htext, hcarries⟩ := hvalue.carries hu hitem
    refine ⟨0, p, .item rfl htext, ?_⟩
    apply hcarries.after hu.quote
    intro s' w hs' hitem'
    rw [outcome_arrayItems room (hs'.head?_eq ▸ hclose), hitem']
    exact map_eq_ok.2 ⟨_, hothers, rfl⟩
  | @later _ _ mid item hclose hbefore hitem =>
    have hlength := itemBefore_length_lt hbefore
    rw [arrayItems_of_itemBefore hclose hbefore] at h
    obtain ⟨⟨others, left'⟩, hothers, heq⟩ := map_eq_ok.1 h
    cases heq
    obtain ⟨i, p, hplace, hcarries⟩ := hitem.carries hu hothers
    cases hplace with
    | item hget htext =>
      refine ⟨i + 1, p, .item hget htext, ?_⟩
      have hmap : Carries u rest
          (fun s => (arrayItems room s).outcome.map fun (items, left) => (item :: items, left))
          (fun w => item :: others.modify i (put w p)) left mid :=
        hcarries.after hu.quote fun s' w _ h => map_eq_ok.2 ⟨_, h, rfl⟩
      apply hmap.before hu.quote (itemBefore_toQuote room s) hbefore
      intro s' mid' hs' hbefore'
      exact arrayItems_of_itemBefore (hs'.head?_eq ▸ hclose) hbefore'
termination_by 3 * s.length + 1
theorem MemberAt.carries (hu : Spells u rest w₀) {room : Nat} {s left : List Char}
    {members members' : Members} (hat : MemberAt u room members s)
    (h : (bracesMembers room members s).outcome = .ok (members', left)) :
    ∃ name p, members'.HoldsText name p ∧
      Carries u rest (fun s => (bracesMembers room members s).outcome)
        (fun w => members'.put name p w) left s := by
  cases hat with
  | @first _ _ _ mid name hclose hname hvalue =>
    have hlength := memberName_length_lt hname
    rw [bracesMembers_of_memberName hclose hname] at h
    obtain ⟨⟨t, left₁⟩, hvalue', h⟩ := bind_eq_ok.1 h
    obtain ⟨p, htext, hcarries⟩ := hvalue.carries hu hvalue'
    cases hassign : assign name.1 name.2 t members with
    | none => simp [hassign] at h
    | some members₁ =>
      simp only [hassign] at h
      -- The text comes to a place of the members, and those after it leave it there.
      obtain ⟨place, q, hplace, hput⟩ := assign_brings htext _ _ members members₁ hassign
      obtain ⟨hplace', htail⟩ := bracesTail_keeps hplace h
      refine ⟨place, q, hplace', ?_⟩
      have htext : Carries u rest (fun s => (value room s).outcome.bind fun (found, left) =>
          match assign name.1 name.2 found members with
          | none => .error ()
          | some members => (bracesTail room members (skipLines left).left).outcome)
          (fun w => members'.put place q w) left mid := by
        apply hcarries.after hu.quote
        intro s' w _ hvalue
        refine bind_eq_ok.2 ⟨_, hvalue, ?_⟩
        simp only [hput w]
        exact htail w
      apply htext.before hu.quote (memberName_toQuote s) hname
      intro s' mid' hs' hname'
      exact bracesMembers_of_memberName (hs'.head?_eq ▸ hclose) hname'
  | @later _ _ members₁ _ mid hclose hbefore hmember =>
    have hlength := memberBefore_length_lt hbefore
    rw [bracesMembers_of_memberBefore hclose hbefore] at h
    obtain ⟨place, p, hplace, hcarries⟩ := hmember.carries hu h
    refine ⟨place, p, hplace, ?_⟩
    apply hcarries.before hu.quote (memberBefore_toQuote room members s) hbefore
    intro s' mid' hs' hbefore'
    exact bracesMembers_of_memberBefore (hs'.head?_eq ▸ hclose) hbefore'
termination_by 3 * s.length + 1
end

/-! ## Section 6: A line in the place of another -/

/-- No other line starts like a key. -/
theorem ne_of_key {c : Char} {r left : List Char} {name : String × List String}
    (h : (key (c :: r)).outcome = .ok (name, left)) : c ≠ '[' ∧ c ≠ '#' ∧ c ≠ '\n' ∧ c ≠ '\r' := by
  rw [outcome_key] at h
  obtain ⟨part, hpart, -⟩ := bind_eq_ok.1 h
  have hfails : ∀ d, d ≠ '"' ∧ d ≠ '\'' ∧ isBareKey d = false → c ≠ d := by
    rintro d hd rfl
    rw [outcome_keyPart_error fun c' r' heq => (List.cons.inj heq).1 ▸ hd] at hpart
    cases hpart
  exact ⟨hfails '[' (by decide), hfails '#' (by decide), hfails '\n' (by decide),
    hfails '\r' (by decide)⟩

theorem line_of_entryName {s left : List Char} {name : String × List String}
    (h : entryName s = .ok (name, left)) :
    (line s).outcome = (value depthLimit left).outcome.map fun (found, left) =>
      (.entry name.1 name.2 found, left) := by
  obtain ⟨⟨name', left₁⟩, hname, h⟩ := bind_eq_ok.1 h
  obtain ⟨⟨_, left₂⟩, hequals, h⟩ := bind_eq_ok.1 h
  cases h
  cases s with
  | nil => cases hname
  | cons c r =>
    obtain ⟨hc, hcomment, hfeed, hreturn⟩ := ne_of_key hname
    rw [outcome_line_entry rfl hc (not_or.2 ⟨hcomment, not_or.2 ⟨hfeed, hreturn⟩⟩), hname]
    show (expect '=' (left₁.dropWhile isSpace)).outcome.bind _ = _
    rw [hequals]
    rfl

/-- The lines after one that is read. -/
theorem lines_of_lineBefore {d d' : Draft} {s left : List Char} {members : Members}
    (h : lineBefore d s = .ok (d', left)) :
    lines d s = .ok members ↔ lines d' left = .ok members := by
  obtain ⟨⟨found, left₁⟩, hline, h⟩ := bind_eq_ok.1 h
  cases hadd : d.add found with
  | none => simp [hadd] at h
  | some d₁ =>
    simp only [hadd] at h
    obtain ⟨⟨_, left₂⟩, hbreak, heq⟩ := map_eq_ok.1 h
    cases heq
    rw [lines_eq_ok_iff]
    constructor
    · rintro ⟨found', left', d₂, hline', hadd', hend⟩
      cases hline.symm.trans hline'
      cases hadd.symm.trans hadd'
      rcases hend with ⟨hnil, -⟩ | ⟨next, hnext, hlines⟩
      · rw [hnil] at hbreak
        cases hbreak
      · cases hbreak.symm.trans hnext
        exact hlines
    · intro hlines
      exact ⟨found, left₁, _, hline, hadd, .inr ⟨left₂, hbreak, hlines⟩⟩

/-- Lines are read in the same way whatever text is in a place of those before. -/
theorem lines_keeps {d : Draft} {s : List Char} {members : Members} {name : String}
    {p : List Step} (hplace : d.members.HoldsText name p) (h : lines d s = .ok members) :
    members.HoldsText name p ∧ ∀ w, lines (d.put name p w) s = .ok (members.put name p w) := by
  rw [lines_eq_ok_iff] at h
  obtain ⟨found, left, d', hline, hadd, hend⟩ := h
  obtain ⟨hplace', hput⟩ := Draft.add_keeps hplace hadd
  rcases hend with ⟨hnil, rfl⟩ | ⟨next, hnext, hlines⟩
  · exact ⟨hplace', fun w => lines_eq_ok_iff.2 ⟨found, left, _, hline, hput w, .inl ⟨hnil, rfl⟩⟩⟩
  · have hlength : next.length < s.length := by
      have h₁ := (List.dropWhile_suffix isSpace : s.dropWhile isSpace <:+ s).length_le
      have h₂ := ((line_toQuote _).suffix hline).length_le
      have h₃ := length_afterComment_le left
      have h₄ := Reading.length_lt hnext
      omega
    obtain ⟨hmembers, hrest⟩ := lines_keeps hplace' hlines
    exact ⟨hmembers, fun w =>
      lines_eq_ok_iff.2 ⟨found, left, _, hline, hput w, .inr ⟨next, hnext, hrest w⟩⟩⟩
termination_by s.length

/-- Another text instead of the one at `u` comes to the place of that text, and all other values of
    the file are what they were. -/
theorem FileAt.carries (hu : Spells u rest w₀) {d : Draft} {s : List Char} {members : Members}
    (hat : FileAt u d s) (h : lines d s = .ok members) :
    ∃ before name p, s = before ++ u ∧ members.HoldsText name p ∧
      ∀ u' w, Spells u' rest w → lines d (before ++ u') = .ok (members.put name p w) := by
  induction hat with
  | @here d s mid name hname hvalue =>
    have hentry := line_of_entryName hname
    rw [lines_eq_ok_iff] at h
    obtain ⟨found, left, d', hline, hadd, hend⟩ := h
    rw [hentry] at hline
    obtain ⟨⟨t, left'⟩, ht, heq⟩ := map_eq_ok.1 hline
    cases heq
    obtain ⟨p, htext, hcarries⟩ := hvalue.carries hu ht
    obtain ⟨place, q, hplace, hput⟩ := Draft.add_brings htext hadd
    -- The line with another text is read to its end, and adds that text to the draft.
    have hline' : Carries u rest (fun s => (line (s.dropWhile isSpace)).outcome)
        (fun w => .entry name.1 name.2 (put w p t)) left s := by
      have hmap : Carries u rest (fun s => (value depthLimit s).outcome.map fun (found, left) =>
          (Line.entry name.1 name.2 found, left))
          (fun w => .entry name.1 name.2 (put w p t)) left mid :=
        hcarries.after hu.quote fun s' w _ h => map_eq_ok.2 ⟨_, h, rfl⟩
      exact hmap.before hu.quote (ToQuote.after (dropWhile_toQuote isSpace s) (entryName_toQuote _))
        hname fun s' mid' _ hname' => line_of_entryName hname'
    obtain ⟨before, rfl, hline'⟩ := hline'
    rcases hend with ⟨hnil, rfl⟩ | ⟨next, hnext, hlines⟩
    · exact ⟨before, place, q, rfl, hplace, fun u' w hu' =>
        lines_eq_ok_iff.2 ⟨_, _, _, hline' u' w hu', hput w, .inl ⟨hnil, rfl⟩⟩⟩
    · obtain ⟨hmembers, hrest⟩ := lines_keeps hplace hlines
      exact ⟨before, place, q, rfl, hmembers, fun u' w hu' =>
        lines_eq_ok_iff.2 ⟨_, _, _, hline' u' w hu', hput w, .inr ⟨next, hnext, hrest w⟩⟩⟩
  | @later d d' s mid hbefore hat ih =>
    rw [lines_of_lineBefore hbefore] at h
    obtain ⟨before, name, p, rfl, hplace, hlines⟩ := ih h
    have htoQuote := lineBefore_toQuote d s
    obtain ⟨taken, rfl⟩ := htoQuote.suffix hbefore
    refine ⟨taken ++ before, name, p, (List.append_assoc ..).symm, hplace, fun u' w hu' => ?_⟩
    have hgives := htoQuote.gives (Carries.alike hu.quote hu') (List.append_assoc ..).symm hbefore
    exact (lines_of_lineBefore hgives).2 (hlines u' w hu')

end replay

end TypeCatalog.Toml
