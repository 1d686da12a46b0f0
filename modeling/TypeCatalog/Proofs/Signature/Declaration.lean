import TypeCatalog.Proofs.Signature.Reading

/-! # Signatures of classes and of methods

    A declaration is kept as the texts of its parts, cut out of the signature where they stand. No
    part says where it ends except the reader of types, so the parts can be put together again only
    because no type is the beginning of another one and because no type starts with one of the marks
    that go on with a list. Each reader of a list is given one equivalence: what it reads, and what
    it leaves, are the ways to write the text as the parts of the list and a rest. -/

set_option autoImplicit false

namespace TypeCatalog

/-! ## Section 1: Well-formed declarations -/

namespace Signature

/-- A text that is read as a type. -/
def IsTypeText (text : String) : Prop := ∃ t, TypeSignature.parse text = .ok t

/-- A name that can stand before the colon of a declared type variable. -/
abbrev IsDeclaredName (name : String) : Prop := IsName [':', '>'] name

end Signature

/-- One bound or more, of which only the first may be a class. -/
structure Bound.ListWellFormed (bounds : List Bound) : Prop where
  bounded : bounds ≠ []
  types : ∀ b ∈ bounds, Signature.IsTypeText b.signature
  interfaces : ∀ b ∈ bounds.tail, b.kind = .interfaceBound

/-- A type variable with a name and bounds. -/
structure TypeVariable.WellFormed (v : TypeVariable) : Prop where
  name : Signature.IsDeclaredName v.name
  bounds : Bound.ListWellFormed v.bounds

/-- A class declaration whose supertypes are types. -/
structure ClassSignature.WellFormed (d : ClassSignature) : Prop where
  typeVariables : ∀ v ∈ d.typeVariables, v.WellFormed
  supertypes : ∀ t ∈ d.supertypes, Signature.IsTypeText t

/-- A method whose parameters, result and exceptions are types. -/
structure MethodSignature.WellFormed (m : MethodSignature) : Prop where
  typeVariables : ∀ v ∈ m.typeVariables, v.WellFormed
  parameters : ∀ t ∈ m.parameters, Signature.IsTypeText t
  result : Signature.IsTypeText m.result
  exceptions : ∀ t ∈ m.exceptions, Signature.IsTypeText t

/-! ## Section 2: Texts of types -/

theorem Bound.toList_text_interface (signature : String) :
    (Bound.mk .interfaceBound signature).text.toList = ':' :: signature.toList := by
  simp [Bound.text]

theorem Bound.toList_text_class (signature : String) :
    (Bound.mk .classBound signature).text.toList = signature.toList := rfl

theorem TypeVariable.toList_text (v : TypeVariable) :
    v.text.toList = v.name.toList ++ ':' :: v.bounds.flatMap fun b => b.text.toList := by
  simp [TypeVariable.text, List.flatMap_map]

namespace Signature

section loops

variable {α β : Type} {s : List Char}

/-- What a reading that may take nothing gives, with the text it leaves as a plain list. -/
def LoopReading.outcome (r : LoopReading α s) : Except Halt (α × List Char) :=
  r.map fun (a, t) => (a, t.left)

/-- What is done after a reader depends on what is left as a plain list only. -/
theorem Reading.bind_congr {r : Reading α s} {f : α × Tail s → Except Halt β}
    {g : α × List Char → Except Halt β} (h : ∀ a (t : Tail s), f (a, t) = g (a, t.left)) :
    r.bind f = r.outcome.bind g := by
  cases r with
  | error e => rfl
  | ok p => exact h p.1 p.2

theorem LoopReading.bind_congr {r : LoopReading α s} {f : α × Rest s → Except Halt β}
    {g : α × List Char → Except Halt β} (h : ∀ a (t : Rest s), f (a, t) = g (a, t.left)) :
    r.bind f = r.outcome.bind g := by
  cases r with
  | error e => rfl
  | ok p => exact h p.1 p.2

theorem Reading.map_congr {r : Reading α s} {f : α × Tail s → Except Halt β}
    {g : α × List Char → β} (h : ∀ a (t : Tail s), f (a, t) = .ok (g (a, t.left))) :
    r.bind f = r.outcome.map g := by
  cases r with
  | error e => rfl
  | ok p => exact h p.1 p.2

theorem LoopReading.map_congr {r : LoopReading α s} {f : α × Rest s → Except Halt β}
    {g : α × List Char → β} (h : ∀ a (t : Rest s), f (a, t) = .ok (g (a, t.left))) :
    r.bind f = r.outcome.map g := by
  cases r with
  | error e => rfl
  | ok p => exact h p.1 p.2

end loops

theorem takenBefore_append_right (w rest : List Char) : takenBefore (w ++ rest) rest = w :=
  List.append_cancel_right (takenBefore_append (List.suffix_append w rest))

theorem IsTypeText.eq_cons {text : String} (h : IsTypeText text) :
    ∃ c r, text.toList = c :: r ∧ c ∉ ['*', '+', '-', '>', '<', ':', ')'] := by
  obtain ⟨t, ht⟩ := h
  exact (parse_eq_ok_iff.1 ht).eq_cons

theorem outcome_typeText (s : List Char) :
    (typeText s).outcome =
      (type s).outcome.map fun (_, left) => (String.ofList (takenBefore s left), left) := by
  unfold typeText
  cases type s <;> rfl

/-- The reader takes the texts that are types, and all of them. -/
theorem outcome_typeText_eq_ok_iff {s left : List Char} {text : String} :
    (typeText s).outcome = .ok (text, left) ↔ IsTypeText text ∧ s = text.toList ++ left := by
  rw [outcome_typeText]
  constructor
  · intro h
    obtain ⟨⟨t, mid⟩, ht, heq⟩ := map_eq_ok.1 h
    obtain ⟨w, rfl, hw⟩ := type_sound ht
    obtain ⟨rfl, rfl⟩ := Prod.mk.inj heq
    rw [takenBefore_append_right, String.toList_ofList]
    refine ⟨⟨t, parse_eq_ok_iff.2 ?_⟩, rfl⟩
    rwa [String.toList_ofList]
  · rintro ⟨⟨t, ht⟩, rfl⟩
    rw [type_complete (parse_eq_ok_iff.1 ht) left]
    simp only [Except.map, takenBefore_append_right, String.ofList_toList]

theorem eq_nil_of_finish {s : List Char} {u : Unit} (h : finish s = .ok u) : s = [] := by
  cases s with
  | nil => rfl
  | cons c r => cases h

/-! ## Section 3: Lists

    A list goes on while a mark is there, or until a closing character is, or to the end of the
    text. In each case the length of the text is the measure in one direction, and the list itself
    in the other. -/

section lists

variable {α : Type}

/-- A reader of texts of types that each stand after a mark. -/
structure ReadsMarked (mark : Char) (item : String → α)
    (f : List Char → Except Halt (List α × List Char)) : Prop where
  more : ∀ r, f (mark :: r) = (typeText r).outcome.bind fun (text, left) =>
    (f left).map fun (xs, left') => (item text :: xs, left')
  stop : ∀ s, s.head? ≠ some mark → f s = .ok ([], s)

theorem ReadsMarked.sound {mark : Char} {item : String → α}
    {f : List Char → Except Halt (List α × List Char)} (hf : ReadsMarked mark item f)
    {s left : List Char} {xs : List α} (h : f s = .ok (xs, left)) :
    ∃ texts : List String, (∀ t ∈ texts, IsTypeText t) ∧ xs = texts.map item ∧
      s = texts.flatMap (fun t => mark :: t.toList) ++ left ∧ left.head? ≠ some mark := by
  by_cases hmark : s.head? = some mark
  · obtain ⟨r, rfl⟩ := List.head?_eq_some_iff.1 hmark
    rw [hf.more] at h
    obtain ⟨⟨text, mid⟩, htext, h⟩ := bind_eq_ok.1 h
    obtain ⟨⟨others, left'⟩, hmore, heq⟩ := map_eq_ok.1 h
    have hlength : mid.length < r.length := Reading.length_lt htext
    obtain ⟨htype, rfl⟩ := outcome_typeText_eq_ok_iff.1 htext
    obtain ⟨texts, htexts, rfl, rfl, hleft⟩ := hf.sound hmore
    obtain ⟨rfl, rfl⟩ := Prod.mk.inj heq
    refine ⟨text :: texts, ?_, rfl, by simp, hleft⟩
    rintro t (_ | ⟨_, ht⟩)
    · exact htype
    · exact htexts t ht
  · rw [hf.stop s hmark] at h
    obtain ⟨rfl, rfl⟩ := Prod.mk.inj (Except.ok.inj h)
    exact ⟨[], by simp, rfl, rfl, hmark⟩
termination_by s.length

theorem ReadsMarked.complete {mark : Char} {item : String → α}
    {f : List Char → Except Halt (List α × List Char)} (hf : ReadsMarked mark item f)
    {texts : List String} (htexts : ∀ t ∈ texts, IsTypeText t) {left : List Char}
    (hleft : left.head? ≠ some mark) :
    f (texts.flatMap (fun t => mark :: t.toList) ++ left) = .ok (texts.map item, left) := by
  induction texts with
  | nil => exact hf.stop left hleft
  | cons text texts ih =>
    have htext := htexts text (List.mem_cons_self ..)
    have hmore := ih fun t ht => htexts t (List.mem_cons_of_mem _ ht)
    rw [List.flatMap_cons, List.append_assoc, List.cons_append, hf.more,
      outcome_typeText_eq_ok_iff.2 ⟨htext, rfl⟩]
    simp only [Except.bind, hmore]
    rfl

/-- A reader of items up to a closing character. -/
structure ReadsUntil (closing : Char) (item : List Char → Except Halt (α × List Char))
    (f : List Char → Except Halt (List α × List Char)) : Prop where
  nil : ∀ x, f [] ≠ .ok x
  close : ∀ r, f (closing :: r) = .ok ([], r)
  more : ∀ c r, c ≠ closing → f (c :: r) = (item (c :: r)).bind fun (x, left) =>
    (f left).map fun (xs, left') => (x :: xs, left')

/-- The texts of items, and where the reader of an item stops. -/
structure ItemTexts (closing : Char) (item : List Char → Except Halt (α × List Char))
    (text : α → List Char) (valid : α → Prop) (stops : List Char → Prop) : Prop where
  reads : ∀ s x left, item s = .ok (x, left) ↔ valid x ∧ s = text x ++ left ∧ stops left
  starts : ∀ x, valid x → ∃ c r, text x = c :: r ∧ c ≠ closing ∧ ∀ r', stops (c :: r')
  closes : ∀ r, stops (closing :: r)

theorem ReadsUntil.sound {closing : Char} {item : List Char → Except Halt (α × List Char)}
    {f : List Char → Except Halt (List α × List Char)} {text : α → List Char} {valid : α → Prop}
    {stops : List Char → Prop} (hf : ReadsUntil closing item f)
    (hitem : ItemTexts closing item text valid stops) {s left : List Char} {xs : List α}
    (h : f s = .ok (xs, left)) :
    (∀ x ∈ xs, valid x) ∧ s = xs.flatMap text ++ closing :: left := by
  rcases hs : s with _ | ⟨c, r⟩
  · exact absurd (hs ▸ h) (hf.nil _)
  rw [hs] at h
  by_cases hc : c = closing
  · subst hc
    rw [hf.close] at h
    obtain ⟨rfl, rfl⟩ := Prod.mk.inj (Except.ok.inj h)
    exact ⟨by simp, rfl⟩
  · rw [hf.more c r hc] at h
    obtain ⟨⟨x, mid⟩, hx, h⟩ := bind_eq_ok.1 h
    obtain ⟨⟨others, left'⟩, hmore, heq⟩ := map_eq_ok.1 h
    obtain ⟨hvalid, htext, -⟩ := (hitem.reads _ _ _).1 hx
    obtain ⟨d, r', hstart, -⟩ := hitem.starts x hvalid
    have hlength : mid.length < s.length := by
      rw [hs, htext, hstart, List.cons_append, List.length_cons, List.length_append]
      omega
    obtain ⟨hothers, hmid⟩ := hf.sound hitem hmore
    obtain ⟨rfl, rfl⟩ := Prod.mk.inj heq
    refine ⟨?_, by rw [htext, hmid]; simp⟩
    rintro y (_ | ⟨_, hy⟩)
    · exact hvalid
    · exact hothers y hy
termination_by s.length

/-- Items in front of a text are read one by one, and then the text. -/
theorem ReadsUntil.append {closing : Char} {item : List Char → Except Halt (α × List Char)}
    {f : List Char → Except Halt (List α × List Char)} {text : α → List Char} {valid : α → Prop}
    {stops : List Char → Prop} (hf : ReadsUntil closing item f)
    (hitem : ItemTexts closing item text valid stops) {xs : List α} (hxs : ∀ x ∈ xs, valid x)
    {rest : List Char} (hrest : stops rest) :
    f (xs.flatMap text ++ rest) = (f rest).map fun (ys, left) => (xs ++ ys, left) := by
  induction xs with
  | nil =>
    rw [List.flatMap_nil, List.nil_append]
    cases f rest <;> rfl
  | cons x xs ih =>
    have hx := hxs x (List.mem_cons_self ..)
    have hothers : ∀ y ∈ xs, valid y := fun y hy => hxs y (List.mem_cons_of_mem _ hy)
    obtain ⟨c, r, htext, hc, -⟩ := hitem.starts x hx
    -- What follows the item is the next one or the text; it stops there either way.
    have hstops : stops (xs.flatMap text ++ rest) := by
      cases xs with
      | nil => exact hrest
      | cons y ys =>
        obtain ⟨d, r', hy, -, hstart⟩ := hitem.starts y (hothers y (List.mem_cons_self ..))
        rw [List.flatMap_cons, hy]
        exact hstart _
    have hread := (hitem.reads _ _ _).2 ⟨hx, rfl, hstops⟩
    rw [htext] at hread
    rw [List.flatMap_cons, List.append_assoc, htext, List.cons_append, hf.more c _ hc,
      ← List.cons_append, hread]
    simp only [Except.bind, ih hothers]
    cases f rest <;> rfl

theorem ReadsUntil.complete {closing : Char} {item : List Char → Except Halt (α × List Char)}
    {f : List Char → Except Halt (List α × List Char)} {text : α → List Char} {valid : α → Prop}
    {stops : List Char → Prop} (hf : ReadsUntil closing item f)
    (hitem : ItemTexts closing item text valid stops) {xs : List α} (hxs : ∀ x ∈ xs, valid x)
    (left : List Char) : f (xs.flatMap text ++ closing :: left) = .ok (xs, left) := by
  rw [hf.append hitem hxs (hitem.closes left), hf.close]
  simp only [Except.map, List.append_nil]

end lists

/-! ## Section 4: Type variables -/

theorem endsAt_declared : EndsAt endsDeclared [':', '>'] := by
  intro c
  simp [endsDeclared]

/-- Interface bounds are written after colons. -/
theorem readsMarked_interfaceBounds :
    ReadsMarked ':' (Bound.mk .interfaceBound) fun s => (interfaceBounds s).outcome := by
  constructor
  · intro r
    show (interfaceBounds _).outcome = _
    rw [interfaceBounds]
    refine map_bind.trans (Reading.bind_congr fun text left => ?_)
    exact map_bind.trans (LoopReading.map_congr fun _ _ => rfl)
  · intro s hs
    show (interfaceBounds _).outcome = _
    rw [interfaceBounds]
    · rfl
    · rintro r rfl
      simp at hs

theorem outcome_bounds_interface (r : List Char) :
    (bounds (':' :: r)).outcome = (interfaceBounds (':' :: r)).outcome := rfl

theorem outcome_bounds_class {s : List Char} (hs : s.head? ≠ some ':') :
    (bounds s).outcome = (typeText s).outcome.bind fun (text, left) =>
      (interfaceBounds left).outcome.map fun (others, left') =>
        (⟨.classBound, text⟩ :: others, left') := by
  rw [bounds]
  · refine map_bind.trans (Reading.bind_congr fun text left => ?_)
    exact map_bind.trans (LoopReading.map_congr fun _ _ => rfl)
  · rintro r rfl
    simp at hs

/-- The text of interface bounds. -/
theorem flatMap_text_interface (texts : List String) :
    (texts.map (Bound.mk .interfaceBound)).flatMap (fun b => b.text.toList) =
      texts.flatMap fun t => ':' :: t.toList := by
  rw [List.flatMap_map]
  exact congrArg (List.flatMap · texts) (funext Bound.toList_text_interface)

/-- Interface bounds are given by their texts. -/
theorem exists_eq_map_interface {bs : List Bound} (htypes : ∀ b ∈ bs, IsTypeText b.signature)
    (hkinds : ∀ b ∈ bs, b.kind = .interfaceBound) :
    ∃ texts : List String, (∀ t ∈ texts, IsTypeText t) ∧
      bs = texts.map (Bound.mk .interfaceBound) := by
  refine ⟨bs.map Bound.signature, by simpa using htypes, ?_⟩
  rw [List.map_map]
  refine (List.map_id' bs).symm.trans (List.map_congr_left fun b hb => ?_)
  obtain ⟨kind, signature⟩ := b
  obtain rfl : kind = .interfaceBound := hkinds _ hb
  rfl

theorem bounds_sound {s left : List Char} {bs : List Bound}
    (h : (bounds s).outcome = .ok (bs, left)) :
    Bound.ListWellFormed bs ∧ s = bs.flatMap (fun b => b.text.toList) ++ left ∧
      left.head? ≠ some ':' := by
  by_cases hmark : s.head? = some ':'
  · obtain ⟨r, rfl⟩ := List.head?_eq_some_iff.1 hmark
    rw [outcome_bounds_interface] at h
    obtain ⟨texts, htexts, rfl, hs, hleft⟩ := readsMarked_interfaceBounds.sound h
    refine ⟨⟨?_, by simpa using htexts, ?_⟩, by rw [flatMap_text_interface, hs], hleft⟩
    -- The colon that the text starts with belongs to a bound, since what is left has none.
    · rintro hnil
      obtain rfl := List.map_eq_nil_iff.1 hnil
      rw [List.flatMap_nil, List.nil_append] at hs
      exact hleft (hs ▸ rfl)
    · intro b hb
      obtain ⟨t, -, rfl⟩ := List.mem_map.1 (List.mem_of_mem_tail hb)
      rfl
  · rw [outcome_bounds_class hmark] at h
    obtain ⟨⟨text, mid⟩, htext, h⟩ := bind_eq_ok.1 h
    obtain ⟨⟨others, left'⟩, hothers, heq⟩ := map_eq_ok.1 h
    obtain ⟨htype, rfl⟩ := outcome_typeText_eq_ok_iff.1 htext
    obtain ⟨texts, htexts, rfl, rfl, hleft⟩ := readsMarked_interfaceBounds.sound hothers
    obtain ⟨rfl, rfl⟩ := Prod.mk.inj heq
    refine ⟨⟨List.cons_ne_nil _ _, ?_, ?_⟩, ?_, hleft⟩
    · simpa [htype] using htexts
    · simp
    · rw [List.flatMap_cons, flatMap_text_interface, Bound.toList_text_class, List.append_assoc]

theorem bounds_complete {bs : List Bound} (h : Bound.ListWellFormed bs) {left : List Char}
    (hleft : left.head? ≠ some ':') :
    (bounds (bs.flatMap (fun b => b.text.toList) ++ left)).outcome = .ok (bs, left) := by
  obtain ⟨hne, htypes, hkinds⟩ := h
  rcases bs with _ | ⟨⟨kind, signature⟩, others⟩
  · exact absurd rfl hne
  obtain ⟨texts, htexts, rfl⟩ :=
    exists_eq_map_interface (fun b hb => htypes b (List.mem_cons_of_mem _ hb)) hkinds
  have htype : IsTypeText signature := htypes _ (List.mem_cons_self ..)
  have hothers := readsMarked_interfaceBounds.complete htexts hleft
  cases kind with
  | interfaceBound =>
    have hall : ∀ t ∈ signature :: texts, IsTypeText t := by
      rintro t (_ | ⟨_, ht⟩)
      · exact htype
      · exact htexts t ht
    have hread := readsMarked_interfaceBounds.complete hall hleft
    rw [← List.map_cons (f := Bound.mk .interfaceBound), flatMap_text_interface]
    exact hread
  | classBound =>
    -- No type starts with a colon, so the first bound is taken for a class.
    obtain ⟨c, r, hstart, hc⟩ := htype.eq_cons
    have hcolon : c ≠ ':' := by
      rintro rfl
      simp at hc
    rw [List.flatMap_cons, Bound.toList_text_class, flatMap_text_interface, List.append_assoc,
      outcome_bounds_class (by simpa [hstart] using hcolon),
      outcome_typeText_eq_ok_iff.2 ⟨htype, rfl⟩]
    simp only [Except.bind, hothers]
    rfl

/-- One declared type variable, as the reader of a list of them goes about it. -/
def declaredVariable (s : List Char) : Except Halt (TypeVariable × List Char) :=
  (name endsDeclared s).outcome.bind fun (word, left) =>
    (expect ':' left).outcome.bind fun (_, left') =>
      (bounds left').outcome.map fun (found, left'') => (⟨word, found⟩, left'')

theorem readsUntil_typeVariables :
    ReadsUntil '>' declaredVariable fun s => (typeVariables s).outcome := by
  constructor
  · intro x h
    change (typeVariables []).outcome = _ at h
    rw [typeVariables] at h
    cases h
  · intro r
    show (typeVariables _).outcome = _
    rw [typeVariables]
    rfl
  · intro c r hc
    show (typeVariables _).outcome = _
    rw [typeVariables]
    · rw [declaredVariable, bind_bind]
      refine map_bind.trans (Reading.bind_congr fun word left => ?_)
      refine map_bind.trans ((Reading.bind_congr fun u left' => ?_).trans bind_bind.symm)
      refine map_bind.trans ((LoopReading.bind_congr fun found left'' => ?_).trans bind_map.symm)
      exact map_bind.trans (Reading.map_congr fun _ _ => rfl)
    · simp
    · simpa using hc

/-- The text of a type variable starts with its name, so with none of the marks around it. -/
theorem IsDeclaredName.toList_text_eq_cons {v : TypeVariable} (h : IsDeclaredName v.name) :
    ∃ c r, v.text.toList = c :: r ∧ c ≠ '>' ∧ c ≠ ':' := by
  obtain ⟨hne, havoid⟩ := h
  rw [TypeVariable.toList_text]
  cases hname : v.name.toList with
  | nil => exact absurd (String.toList_eq_nil_iff.1 hname) hne
  | cons c r =>
    refine ⟨c, _, rfl, ?_, ?_⟩
    · rintro rfl
      exact havoid '>' (by simp) (by simp [hname])
    · rintro rfl
      exact havoid ':' (by simp) (by simp [hname])

/-- A declared type variable is read in front of everything but a colon. -/
theorem itemTexts_declaredVariable :
    ItemTexts '>' declaredVariable (fun v => v.text.toList) TypeVariable.WellFormed
      fun left => left.head? ≠ some ':' := by
  constructor
  · intro s v left
    constructor
    · intro h
      obtain ⟨⟨word, mid⟩, hname, h⟩ := bind_eq_ok.1 h
      obtain ⟨⟨u, mid'⟩, hcolon, h⟩ := bind_eq_ok.1 h
      obtain ⟨⟨found, left'⟩, hbounds, heq⟩ := map_eq_ok.1 h
      obtain ⟨hword, rfl⟩ := of_outcome_name endsAt_declared hname
      obtain rfl := eq_cons_of_expect hcolon
      obtain ⟨hfound, rfl, hleft⟩ := bounds_sound hbounds
      obtain ⟨rfl, rfl⟩ := Prod.mk.inj heq
      refine ⟨⟨hword, hfound⟩, ?_, hleft⟩
      rw [TypeVariable.toList_text, List.append_assoc, List.cons_append]
    · rintro ⟨⟨hword, hbounds⟩, rfl, hleft⟩
      obtain ⟨word, found⟩ := v
      have hread := bounds_complete hbounds hleft
      rw [TypeVariable.toList_text, List.append_assoc, List.cons_append]
      unfold declaredVariable
      rw [outcome_name endsAt_declared hword (by simp)]
      simp only [Except.bind, outcome_expect]
      rw [hread]
      rfl
  · rintro v ⟨hname, -⟩
    obtain ⟨c, r, htext, hclose, hcolon⟩ := hname.toList_text_eq_cons
    exact ⟨c, r, htext, hclose, fun r' => by simpa using hcolon⟩
  · intro r
    simp

theorem outcome_variableList (s : List Char) :
    (variableList s).outcome = (expect '<' s).outcome.bind fun (_, left) =>
      (typeVariables left).outcome.bind fun (found, left') =>
        match found with
        | [] => .error ⟨.variablesEmpty, left'⟩
        | found => .ok (found, left') := by
  refine map_bind.trans (Reading.bind_congr fun u left => ?_)
  refine map_bind.trans (Reading.bind_congr fun found left' => ?_)
  cases found <;> rfl

/-- A list of type variables between angle brackets is read as those variables, and nothing else
    is. -/
theorem outcome_variableList_eq_ok_iff {s left : List Char} {found : List TypeVariable} :
    (variableList s).outcome = .ok (found, left) ↔
      found ≠ [] ∧ (∀ v ∈ found, v.WellFormed) ∧
        s = '<' :: found.flatMap (fun v => v.text.toList) ++ '>' :: left := by
  rw [outcome_variableList]
  constructor
  · intro h
    obtain ⟨⟨u, mid⟩, hopen, h'⟩ := bind_eq_ok.1 h
    obtain ⟨⟨found', left'⟩, hread, hgiven⟩ := bind_eq_ok.1 h'
    have hs := eq_cons_of_expect hopen
    obtain ⟨hvalid, hmid⟩ := readsUntil_typeVariables.sound itemTexts_declaredVariable hread
    cases found' with
    | nil => cases hgiven
    | cons v vs =>
      cases hgiven
      exact ⟨List.cons_ne_nil _ _, hvalid, by rw [hs, hmid, List.cons_append]⟩
  · rintro ⟨hne, hvalid, rfl⟩
    have hread := readsUntil_typeVariables.complete itemTexts_declaredVariable hvalid left
    rw [List.cons_append, outcome_expect]
    cases found with
    | nil => exact absurd rfl hne
    | cons v vs => simp only [Except.bind, hread]

theorem outcome_optionalVariableList_bracket (r : List Char) :
    (optionalVariableList ('<' :: r)).outcome = (variableList ('<' :: r)).outcome := by
  unfold optionalVariableList
  simp only
  cases variableList ('<' :: r) <;> rfl

theorem outcome_optionalVariableList {s : List Char} (h : s.head? ≠ some '<') :
    (optionalVariableList s).outcome = .ok ([], s) := by
  unfold optionalVariableList
  split
  · simp at h
  · rfl

end Signature

theorem TypeVariable.toList_listText {vs : List TypeVariable} (h : vs ≠ []) :
    (TypeVariable.listText vs).toList = '<' :: vs.flatMap (fun v => v.text.toList) ++ ['>'] := by
  have hempty : vs.isEmpty = false := by
    cases vs with
    | nil => exact absurd rfl h
    | cons v vs => rfl
  simp [TypeVariable.listText, hempty, List.flatMap_map]

namespace Signature

/-- Type variables that may be left out are read as those whose text stands there. -/
theorem outcome_optionalVariableList_eq_ok_iff {s left : List Char} {found : List TypeVariable} :
    (optionalVariableList s).outcome = .ok (found, left) ↔
      (∀ v ∈ found, v.WellFormed) ∧ s = (TypeVariable.listText found).toList ++ left ∧
        (found = [] → left.head? ≠ some '<') := by
  constructor
  · intro h
    by_cases hopen : s.head? = some '<'
    · obtain ⟨r, rfl⟩ := List.head?_eq_some_iff.1 hopen
      rw [outcome_optionalVariableList_bracket] at h
      obtain ⟨hne, hvalid, hs⟩ := outcome_variableList_eq_ok_iff.1 h
      refine ⟨hvalid, ?_, fun hnil => absurd hnil hne⟩
      rw [hs, TypeVariable.toList_listText hne, List.append_assoc, List.singleton_append]
    · rw [outcome_optionalVariableList hopen] at h
      obtain ⟨rfl, rfl⟩ := Prod.mk.inj (Except.ok.inj h)
      exact ⟨by simp, rfl, fun _ => hopen⟩
  · rintro ⟨hvalid, rfl, hleft⟩
    by_cases hne : found = []
    · subst hne
      exact outcome_optionalVariableList (hleft rfl)
    · have hread : (variableList ('<' :: found.flatMap (fun v => v.text.toList) ++ '>' :: left)
          ).outcome = .ok (found, left) :=
        outcome_variableList_eq_ok_iff.2 ⟨hne, hvalid, rfl⟩
      rw [TypeVariable.toList_listText hne, List.append_assoc, List.singleton_append]
      rw [List.cons_append] at hread ⊢
      rw [outcome_optionalVariableList_bracket, hread]

theorem wholeVariableList_eq (s : List Char) :
    wholeVariableList s = (variableList s).outcome.bind fun (found, left) =>
      (finish left).map fun _ => found := by
  refine Reading.bind_congr fun found left => ?_
  cases finish left.left <;> rfl

theorem wholeVariableList_eq_ok_iff {s : List Char} {found : List TypeVariable} :
    wholeVariableList s = .ok found ↔ found ≠ [] ∧ (∀ v ∈ found, v.WellFormed) ∧
      s = '<' :: found.flatMap (fun v => v.text.toList) ++ ['>'] := by
  rw [wholeVariableList_eq]
  constructor
  · intro h
    obtain ⟨⟨found', left⟩, hread, h⟩ := bind_eq_ok.1 h
    obtain ⟨u, hfinish, rfl⟩ := map_eq_ok.1 h
    obtain rfl := eq_nil_of_finish hfinish
    exact outcome_variableList_eq_ok_iff.1 hread
  · intro h
    simp only [outcome_variableList_eq_ok_iff.2 h, Except.bind]
    rfl

/-! ## Section 5: Supertypes, parameters and exceptions -/

theorem typeTexts_cons (c : Char) (r : List Char) :
    typeTexts (c :: r) = (typeText (c :: r)).outcome.bind fun (t, left) =>
      (typeTexts left).map fun ts => t :: ts := by
  rw [typeTexts]
  refine Reading.bind_congr fun t left => ?_
  cases typeTexts left.left <;> rfl

theorem typeTexts_sound {s : List Char} {ts : List String} (h : typeTexts s = .ok ts) :
    (∀ t ∈ ts, IsTypeText t) ∧ s = ts.flatMap String.toList := by
  rcases hs : s with _ | ⟨c, r⟩
  · rw [hs, typeTexts] at h
    cases h
    exact ⟨by simp, rfl⟩
  · rw [hs, typeTexts_cons] at h
    obtain ⟨⟨t, left⟩, htext, h⟩ := bind_eq_ok.1 h
    obtain ⟨others, hmore, rfl⟩ := map_eq_ok.1 h
    have hlength : left.length < s.length := hs ▸ Reading.length_lt htext
    obtain ⟨htype, htext⟩ := outcome_typeText_eq_ok_iff.1 htext
    obtain ⟨hothers, rfl⟩ := typeTexts_sound hmore
    refine ⟨?_, htext⟩
    rintro u (_ | ⟨_, hu⟩)
    · exact htype
    · exact hothers u hu
termination_by s.length

theorem typeTexts_complete {ts : List String} (h : ∀ t ∈ ts, IsTypeText t) :
    typeTexts (ts.flatMap String.toList) = .ok ts := by
  induction ts with
  | nil =>
    rw [List.flatMap_nil, typeTexts]
  | cons t ts ih =>
    have htype := h t (List.mem_cons_self ..)
    have hmore := ih fun u hu => h u (List.mem_cons_of_mem _ hu)
    obtain ⟨c, r, hstart, -⟩ := htype.eq_cons
    have hread : (typeText (t.toList ++ ts.flatMap String.toList)).outcome =
        .ok (t, ts.flatMap String.toList) :=
      outcome_typeText_eq_ok_iff.2 ⟨htype, rfl⟩
    rw [hstart, List.cons_append] at hread
    rw [List.flatMap_cons, hstart, List.cons_append, typeTexts_cons, hread]
    simp only [Except.bind, hmore]
    rfl

/-- Parameters stand up to the closing parenthesis. -/
theorem readsUntil_parameters :
    ReadsUntil ')' (fun s => (typeText s).outcome) fun s => (parameters s).outcome := by
  constructor
  · intro x h
    change (parameters []).outcome = _ at h
    rw [parameters] at h
    cases h
  · intro r
    show (parameters _).outcome = _
    rw [parameters]
    rfl
  · intro c r hc
    show (parameters _).outcome = _
    rw [parameters]
    · refine map_bind.trans (Reading.bind_congr fun t left => ?_)
      exact map_bind.trans (Reading.map_congr fun _ _ => rfl)
    · simp
    · simpa using hc

/-- The text of a type is read in front of everything. -/
theorem itemTexts_typeText :
    ItemTexts ')' (fun s => (typeText s).outcome) String.toList IsTypeText fun _ => True := by
  constructor
  · intro s t left
    rw [outcome_typeText_eq_ok_iff, and_true]
  · intro t ht
    obtain ⟨c, r, hstart, hc⟩ := ht.eq_cons
    refine ⟨c, r, hstart, ?_, fun _ => trivial⟩
    rintro rfl
    simp at hc
  · exact fun _ => trivial

/-- Exceptions are written after circumflexes. -/
theorem readsMarked_exceptions : ReadsMarked '^' id fun s => (exceptions s).outcome := by
  constructor
  · intro r
    show (exceptions _).outcome = _
    rw [exceptions]
    refine map_bind.trans (Reading.bind_congr fun text left => ?_)
    exact map_bind.trans (LoopReading.map_congr fun _ _ => rfl)
  · intro s hs
    show (exceptions _).outcome = _
    rw [exceptions]
    · rfl
    · rintro r rfl
      simp at hs

end Signature

/-! ## Section 6: Classes -/

namespace ClassSignature

theorem toList_text (d : ClassSignature) :
    d.text.toList =
      (TypeVariable.listText d.typeVariables).toList ++ d.supertypes.flatMap String.toList := by
  simp [ClassSignature.text]

theorem read_eq (s : List Char) :
    read s = (Signature.optionalVariableList s).outcome.bind fun (vs, left) =>
      (Signature.typeTexts left).map fun ts => ⟨vs, ts⟩ := by
  refine Signature.LoopReading.bind_congr fun vs left => ?_
  cases Signature.typeTexts left.left <;> rfl

theorem read_eq_ok_iff {s : List Char} {d : ClassSignature} :
    read s = .ok d ↔ d.WellFormed ∧ s = d.text.toList := by
  rw [read_eq]
  constructor
  · intro h
    obtain ⟨⟨vs, left⟩, hvariables, h⟩ := bind_eq_ok.1 h
    obtain ⟨ts, htexts, rfl⟩ := map_eq_ok.1 h
    obtain ⟨hvs, hs, -⟩ := Signature.outcome_optionalVariableList_eq_ok_iff.1 hvariables
    obtain ⟨hts, hleft⟩ := Signature.typeTexts_sound htexts
    exact ⟨⟨hvs, hts⟩, by rw [toList_text, hs, hleft]⟩
  · rintro ⟨⟨hvs, hts⟩, rfl⟩
    obtain ⟨vs, ts⟩ := d
    -- A supertype is a type, so it is not taken for a list of type variables.
    have hstart : vs = [] → (ts.flatMap String.toList).head? ≠ some '<' := by
      rintro -
      cases ts with
      | nil => simp
      | cons t ts =>
        obtain ⟨c, r, ht, hc⟩ := (hts t (List.mem_cons_self ..)).eq_cons
        rintro h
        rw [List.flatMap_cons, ht, List.cons_append, List.head?_cons, Option.some.injEq] at h
        simp [h] at hc
    have hvariables := Signature.outcome_optionalVariableList_eq_ok_iff.2 ⟨hvs, rfl, hstart⟩
    rw [toList_text, hvariables]
    simp only [Except.bind, Signature.typeTexts_complete hts]
    rfl

theorem parse_eq_ok_iff {text : String} {d : ClassSignature} :
    parse text = .ok d ↔ d.WellFormed ∧ d.text = text := by
  unfold parse Signature.run
  rw [mapError_eq_ok, read_eq_ok_iff, eq_comm (a := d.text), String.toList_inj]

end ClassSignature

/-! ## Section 7: Methods -/

namespace MethodSignature

theorem toList_text (m : MethodSignature) :
    m.text.toList = (TypeVariable.listText m.typeVariables).toList ++
      '(' :: (m.parameters.flatMap String.toList ++
        ')' :: (m.result.toList ++ (m.exceptions.flatMap fun t => '^' :: t.toList))) := by
  simp [MethodSignature.text, List.flatMap_map]

theorem read_eq (s : List Char) :
    read s = (Signature.optionalVariableList s).outcome.bind fun (vs, left) =>
      (Signature.expect '(' left).outcome.bind fun (_, left) =>
        (Signature.parameters left).outcome.bind fun (ps, left) =>
          (Signature.typeText left).outcome.bind fun (result, left) =>
            (Signature.exceptions left).outcome.bind fun (es, left) =>
              (Signature.finish left).map fun _ => ⟨vs, ps, result, es⟩ := by
  refine Signature.LoopReading.bind_congr fun vs left => ?_
  refine Signature.Reading.bind_congr fun u left => ?_
  refine Signature.Reading.bind_congr fun ps left => ?_
  refine Signature.Reading.bind_congr fun result left => ?_
  refine Signature.LoopReading.bind_congr fun es left => ?_
  cases Signature.finish left.left <;> rfl

theorem read_eq_ok_iff {s : List Char} {m : MethodSignature} :
    read s = .ok m ↔ m.WellFormed ∧ s = m.text.toList := by
  rw [read_eq]
  constructor
  · intro h
    obtain ⟨⟨vs, left₁⟩, hvariables, h⟩ := bind_eq_ok.1 h
    obtain ⟨⟨u, left₂⟩, hopen, h⟩ := bind_eq_ok.1 h
    obtain ⟨⟨ps, left₃⟩, hparameters, h⟩ := bind_eq_ok.1 h
    obtain ⟨⟨result, left₄⟩, hresult, h⟩ := bind_eq_ok.1 h
    obtain ⟨⟨es, left₅⟩, hexceptions, h⟩ := bind_eq_ok.1 h
    obtain ⟨u', hfinish, rfl⟩ := map_eq_ok.1 h
    obtain ⟨hvs, h₁, -⟩ := Signature.outcome_optionalVariableList_eq_ok_iff.1 hvariables
    have h₂ := Signature.eq_cons_of_expect hopen
    obtain ⟨hps, h₃⟩ :=
      Signature.readsUntil_parameters.sound Signature.itemTexts_typeText hparameters
    obtain ⟨hr, h₄⟩ := Signature.outcome_typeText_eq_ok_iff.1 hresult
    obtain ⟨texts, hes, htexts, h₅, -⟩ := Signature.readsMarked_exceptions.sound hexceptions
    rw [List.map_id] at htexts
    subst htexts
    have h₆ := Signature.eq_nil_of_finish hfinish
    refine ⟨⟨hvs, hps, hr, hes⟩, ?_⟩
    rw [toList_text, h₁, h₂, h₃, h₄, h₅, h₆, List.append_nil]
  · rintro ⟨⟨hvs, hps, hr, hes⟩, rfl⟩
    obtain ⟨vs, ps, result, es⟩ := m
    -- The parenthesis is not taken for a list of type variables.
    have hvariables (rest : List Char) : (Signature.optionalVariableList
        ((TypeVariable.listText vs).toList ++ '(' :: rest)).outcome = .ok (vs, '(' :: rest) :=
      Signature.outcome_optionalVariableList_eq_ok_iff.2 ⟨hvs, rfl, fun _ => by simp⟩
    have hparameters :=
      Signature.readsUntil_parameters.complete Signature.itemTexts_typeText hps
    have hexceptions :=
      Signature.readsMarked_exceptions.complete hes (show [].head? ≠ some '^' by simp)
    rw [List.append_nil, List.map_id] at hexceptions
    rw [toList_text, hvariables]
    simp only [Except.bind, Signature.outcome_expect, hparameters,
      Signature.outcome_typeText_eq_ok_iff.2 ⟨hr, rfl⟩, hexceptions]
    rfl

theorem parse_eq_ok_iff {text : String} {m : MethodSignature} :
    parse text = .ok m ↔ m.WellFormed ∧ m.text = text := by
  unfold parse Signature.run
  rw [mapError_eq_ok, read_eq_ok_iff, eq_comm (a := m.text), String.toList_inj]

end MethodSignature

/-! ## Section 8: Round trips -/

theorem TypeVariable.parseList_eq_ok_iff {text : String} {vs : List TypeVariable} :
    TypeVariable.parseList text = .ok vs ↔ vs ≠ [] ∧ (∀ v ∈ vs, v.WellFormed) ∧
      "<" ++ String.join (vs.map TypeVariable.text) ++ ">" = text := by
  have htext : ("<" ++ String.join (vs.map TypeVariable.text) ++ ">").toList =
      '<' :: vs.flatMap (fun v => v.text.toList) ++ ['>'] := by
    simp [List.flatMap_map]
  unfold TypeVariable.parseList Signature.run
  rw [mapError_eq_ok, Signature.wholeVariableList_eq_ok_iff, ← htext, String.toList_inj,
    eq_comm (a := text)]

/-- Reading the signature of a method, the declaration of a class or a list of type variables gives
    exactly the well-formed values whose text it is: what is read prints back as it stood, with
    parts that are types, and what is well-formed is read from its text. -/
theorem declaredSignature_parse_iff (text : String) :
    (∀ m, MethodSignature.parse text = .ok m ↔ m.WellFormed ∧ m.text = text) ∧
    (∀ d, ClassSignature.parse text = .ok d ↔ d.WellFormed ∧ d.text = text) ∧
    (∀ vs, TypeVariable.parseList text = .ok vs ↔ vs ≠ [] ∧ (∀ v ∈ vs, v.WellFormed) ∧
      "<" ++ String.join (vs.map TypeVariable.text) ++ ">" = text) :=
  ⟨fun _ => MethodSignature.parse_eq_ok_iff, fun _ => ClassSignature.parse_eq_ok_iff,
    fun _ => TypeVariable.parseList_eq_ok_iff⟩

end TypeCatalog
