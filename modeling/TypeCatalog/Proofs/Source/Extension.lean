import TypeCatalog.Proofs.Source.Initialisers
import TypeCatalog.Proofs.Source.PassageReaders

/-! # Readers on longer inputs

    What a reader does on the tokens up to some point, it does on all that go on from there, unless
    it has to look at what comes next. A reader that ends with a bracket or a semicolon never has
    to. The others look at up to three tokens to tell that they are at their end, and in each case
    a bracket or a semicolon among them settles it. So they do the same on longer inputs if there is
    such a token in what they leave, and there is one whenever a reader after them takes it.

    * `Closing`: the readers of the first kind, among them those of members and of the start of a
      type.
    * `Steady`, `SteadyLoop`: those of the second kind. -/

set_option autoImplicit false

namespace TypeCatalog.Source

/-! ## Section 1: Stops -/

/-- The symbols that no reader looks past to tell where it ends. -/
def stops : List Char := [';', ')', ']', '>', '\x7b', '\x7d']

/-- A token that no reader looks past to tell where it ends. -/
def Token.IsStop (t : Token) : Prop := t.kind ∈ stops.map TokenKind.symbol

/-- Some tokens have a stop among them. -/
def HasStop (s : List Token) : Prop := ∃ t ∈ s, t.IsStop

section stops

variable {s left c r : List Token} {t u v : Token}

theorem Token.not_isStop_word (w : String) (p : Nat) (d : Option String) :
    ¬ (⟨.word w, p, d⟩ : Token).IsStop := by
  simp [IsStop]

theorem Token.not_isStop_symbol {c : Char} (h : c ∉ stops) (p : Nat) (d : Option String) :
    ¬ (⟨.symbol c, p, d⟩ : Token).IsStop := by
  simpa [IsStop] using h

theorem Token.isStop_of_kind {k : Char} (ht : t.kind = .symbol k) (hk : k ∈ stops) : t.IsStop := by
  rw [IsStop, ht]
  exact List.mem_map_of_mem hk

theorem HasStop.of_suffix (h : HasStop left) (hs : left <:+ s) : HasStop s := by
  obtain ⟨t, ht, hstop⟩ := h
  exact ⟨t, hs.mem ht, hstop⟩

theorem HasStop.cons (h : HasStop s) (t : Token) : HasStop (t :: s) :=
  h.of_suffix (List.suffix_cons t s)

theorem HasStop.of_first {k : Char} (ht : t.kind = .symbol k) (hk : k ∈ stops) (r : List Token) :
    HasStop (t :: r) :=
  ⟨t, List.mem_cons_self, Token.isStop_of_kind ht hk⟩

theorem HasStop.tail (h : HasStop (t :: r)) (ht : ¬ t.IsStop) : HasStop r := by
  obtain ⟨u, hu, hstop⟩ := h
  rcases List.mem_cons.1 hu with rfl | hu
  · exact absurd hstop ht
  · exact ⟨u, hu, hstop⟩

theorem HasStop.ne_nil (h : HasStop s) : s ≠ [] := by
  rintro rfl
  obtain ⟨t, ht, -⟩ := h
  cases ht

/-- What is seen at the front of a longer input is at the front of the input itself. -/
theorem HasStop.eq_cons (h : HasStop s) (heq : s ++ c = t :: r) :
    ∃ s', s = t :: s' ∧ s' ++ c = r ∧ (¬ t.IsStop → HasStop s') := by
  cases s with
  | nil => exact absurd rfl h.ne_nil
  | cons t' s' =>
    cases heq
    exact ⟨s', rfl, rfl, h.tail⟩

theorem HasStop.ne_append {k : TokenKind} (h : HasStop s)
    (hne : ∀ p d r, s = ⟨k, p, d⟩ :: r → False) :
    ∀ p d r, s ++ c = ⟨k, p, d⟩ :: r → False := by
  intro p d r heq
  obtain ⟨s', rfl, -⟩ := h.eq_cons heq
  exact hne p d s' rfl

/-- So are two tokens of which the first is no stop. -/
theorem HasStop.eq_cons₂ (h : HasStop s) (ht : ¬ t.IsStop) (heq : s ++ c = t :: u :: r) :
    ∃ s', s = t :: u :: s' := by
  obtain ⟨s', rfl, heq, hstop⟩ := h.eq_cons heq
  obtain ⟨s'', rfl, -⟩ := (hstop ht).eq_cons heq
  exact ⟨s'', rfl⟩

/-- And three tokens of which the first two are none. -/
theorem HasStop.eq_cons₃ (h : HasStop s) (ht : ¬ t.IsStop) (hu : ¬ u.IsStop)
    (heq : s ++ c = t :: u :: v :: r) : ∃ s', s = t :: u :: v :: s' := by
  obtain ⟨s', rfl, heq, hstop⟩ := h.eq_cons heq
  obtain ⟨s'', rfl⟩ := (hstop ht).eq_cons₂ hu heq
  exact ⟨s'', rfl⟩

end stops

/-! ## Section 2: Readers on longer inputs -/

section outcomes

variable {α β τ υ : Type} {b : β} {rest : List Token}

theorem Gives.of_bind {left : υ → List Token} {x : Except Halt (α × τ)}
    {f : α × τ → Except Halt (β × υ)} (h : Gives left (x >>= f) b rest) :
    ∃ a t, x = .ok (a, t) ∧ Gives left (f (a, t)) b rest := by
  obtain ⟨u, hu, hleft⟩ := h
  rcases x with e | ⟨a, t⟩
  · cases hu
  · exact ⟨a, t, rfl, u, hu, hleft⟩

theorem Gives.of_ok {left : υ → List Token} {a : β} {t : υ}
    (h : Gives left (.ok (a, t) : Except Halt (β × υ)) b rest) : a = b ∧ left t = rest := by
  obtain ⟨u, hu, hleft⟩ := h
  cases hu
  exact ⟨rfl, hleft⟩

end outcomes

/-- A reader that may look ahead does the same on longer inputs, if it leaves a stop. -/
def Steady {α : Type} (f : (s : List Token) → Reading α s) : Prop :=
  ∀ {s left c s' : List Token} {a : α}, Reads (f s) a left → HasStop left → s' = s ++ c →
    Reads (f s') a (left ++ c)

/-- The same for a reader that may take nothing. -/
def SteadyLoop {α : Type} (f : (s : List Token) → LoopReading α s) : Prop :=
  ∀ {s left c s' : List Token} {a : α}, LoopReads (f s) a left → HasStop left → s' = s ++ c →
    LoopReads (f s') a (left ++ c)

/-- A run of a reader that takes a stop is the same on every longer input. -/
def Extends {α : Type} (f : (s : List Token) → Reading α s) (s : List Token) (a : α)
    (left : List Token) : Prop :=
  HasStop s ∧ ∀ {c s' : List Token}, s' = s ++ c → Reads (f s') a (left ++ c)

/-- A reader that takes a stop does the same on longer inputs, whatever it leaves. -/
def Closing {α : Type} (f : (s : List Token) → Reading α s) : Prop :=
  ∀ {s left : List Token} {a : α}, Reads (f s) a left → Extends f s a left

/-- One token is taken before. -/
theorem Extends.token {α β : Type} {f : (s : List Token) → Reading α s}
    {g : (s : List Token) → Reading β s} {t : Token} {r left : List Token} {a : α} {b : β}
    (h : Extends f r a left)
    (hg : ∀ {r' left' : List Token}, Reads (f r') a left' → Reads (g (t :: r')) b left') :
    Extends g (t :: r) b left := by
  refine ⟨h.1.cons t, ?_⟩
  intro c s' hs
  rw [hs, List.cons_append]
  exact hg (h.2 rfl)

/-- One token and what another reader takes are taken before. -/
theorem Extends.after {α β : Type} {f : (s : List Token) → Reading α s}
    {g : (s : List Token) → Reading β s} {t : Token} {r mid left : List Token} {a : α} {b : β}
    (h : Extends f mid a left) (hmid : mid <:+ r)
    (hg : HasStop mid → ∀ c, (∀ {s'}, s' = mid ++ c → Reads (f s') a (left ++ c)) →
      Reads (g (t :: (r ++ c))) b (left ++ c)) : Extends g (t :: r) b left := by
  refine ⟨(h.1.of_suffix hmid).cons t, ?_⟩
  intro c s' hs
  rw [hs, List.cons_append]
  exact hg h.1 c h.2

/-- What another reader gives is passed on. -/
theorem Extends.wrap {α β : Type} {f : (s : List Token) → Reading α s}
    {g : (s : List Token) → Reading β s} {s left : List Token} {a : α} {b : β}
    (h : Extends f s a left)
    (hg : HasStop s → ∀ c, Reads (f (s ++ c)) a (left ++ c) → Reads (g (s ++ c)) b (left ++ c)) :
    Extends g s b left := by
  refine ⟨h.1, ?_⟩
  intro c s' hs
  rw [hs]
  exact hg h.1 c (h.2 rfl)

/-- A stop is all that is taken. -/
theorem Extends.stop {α : Type} {f : (s : List Token) → Reading α s} {t : Token} {a : α} {k : Char}
    (ht : t.kind = .symbol k) (hk : k ∈ stops) (hf : ∀ r : List Token, Reads (f (t :: r)) a r)
    (r : List Token) : Extends f (t :: r) a r := by
  refine ⟨.of_first ht hk r, ?_⟩
  intro c s' hs
  rw [hs, List.cons_append]
  exact hf (r ++ c)

section tokens

theorem steady_identifier : Steady identifier := by
  intro s left c s' a h hstop hs
  subst hs
  unfold identifier at h
  split at h
  · obtain ⟨rfl, hleft⟩ := h.of_ok
    subst hleft
    exact ⟨_, rfl, rfl⟩
  · obtain ⟨_, hu, -⟩ := h
    cases hu

theorem closing_symbol {c : Char} (hc : c ∈ stops) : Closing (symbol c) := by
  have htaken : ∀ {s left : List Token}, Reads (symbol c s) () left →
      ∃ t, t.kind = .symbol c ∧ s = t :: left := by
    intro s left h
    cases s with
    | nil =>
      obtain ⟨_, hu, -⟩ := h
      cases hu
    | cons t r =>
      rw [symbol] at h
      split at h
      · next ht =>
        obtain ⟨-, rfl⟩ := h.of_ok
        exact ⟨t, ht, rfl⟩
      · obtain ⟨_, hu, -⟩ := h
        cases hu
  intro s left a h
  obtain ⟨t, ht, rfl⟩ := htaken h
  exact ⟨.of_first ht hc left, fun hs => reads_symbol ht hs⟩

theorem closing_throughSymbol {c : Char} (hc : c ∈ stops) : Closing (throughSymbol c) := by
  intro s left a h
  induction s with
  | nil =>
    obtain ⟨_, hu, -⟩ := h
    cases hu
  | cons t r ih =>
    rw [throughSymbol] at h
    split at h
    · next ht =>
      obtain ⟨-, rfl⟩ := h.of_ok
      refine ⟨.of_first ht hc r, ?_⟩
      rintro y _ rfl
      rw [List.cons_append, throughSymbol, if_pos ht]
      exact ⟨_, rfl, rfl⟩
    · next ht =>
      obtain ⟨_, u, hu, h⟩ := h.of_bind
      obtain ⟨hstop, hextend⟩ := ih ⟨u, hu, h.of_ok.2⟩
      refine ⟨hstop.cons t, ?_⟩
      rintro y _ rfl
      rw [List.cons_append, throughSymbol, if_neg ht]
      exact (hextend rfl).bind fun _ hleft => ⟨_, rfl, hleft⟩

end tokens

section groups

variable {o c : Char}

theorem hasStop_of_afterGroup (hc : c ∈ stops) {depth : Nat} {s left : List Token}
    (h : afterGroup o c depth s = some left) : HasStop s := by
  fun_induction afterGroup o c depth s with
  | case1 => cases h
  | case2 depth t r ho ih => exact (ih h).cons t
  | case3 t r ho ht => exact .of_first ht hc _
  | case4 t r ho ht depth ih => exact (ih h).cons t
  | case5 depth t r ho ht ih => exact (ih h).cons t

theorem reads_group_iff {s left : List Token} :
    Reads (group o c s) () left ↔ afterGroup o c 0 s = some left := by
  unfold group
  split
  · next hnone =>
    constructor
    · rintro ⟨_, hu, -⟩
      cases hu
    · intro h
      cases hnone.symm.trans h
  · next left' hsome =>
    constructor
    · intro h
      exact hsome.trans (congrArg some h.of_ok.2)
    · intro h
      exact ⟨_, rfl, Option.some.inj (hsome.symm.trans h)⟩

theorem closing_group (hc : c ∈ stops) : Closing (group o c) := by
  intro s left a h
  have hafter := reads_group_iff.1 h
  refine ⟨hasStop_of_afterGroup hc hafter, ?_⟩
  rintro y _ rfl
  exact reads_group_iff.2 (afterGroup_append_right hafter y)

theorem steadyLoop_optionalGroup (hc : c ∈ stops) : SteadyLoop (optionalGroup o c) := by
  intro s left y s' a h hstop hs
  subst hs
  cases s with
  | nil =>
    obtain ⟨-, rfl⟩ := h.of_ok
    exact absurd rfl hstop.ne_nil
  | cons t r =>
    rw [optionalGroup] at h
    rw [List.cons_append, optionalGroup]
    split at h
    · next ht =>
      obtain ⟨_, u, hu, h⟩ := h.of_bind
      obtain ⟨-, rfl⟩ := h.of_ok
      rw [if_pos ht]
      exact ((closing_group hc ⟨u, hu, rfl⟩).2 rfl).bind fun _ hleft => ⟨_, rfl, hleft⟩
    · next ht =>
      obtain ⟨-, rfl⟩ := h.of_ok
      rw [if_neg ht]
      exact ⟨_, rfl, rfl⟩

end groups

/-! ## Section 3: Names, annotations and modifiers -/

theorem furtherNames_append {s : List Token} (hstop : HasStop (furtherNames s).2.left)
    (c : List Token) : (furtherNames (s ++ c)).1 = (furtherNames s).1 ∧
      (furtherNames (s ++ c)).2.left = (furtherNames s).2.left ++ c := by
  fun_induction furtherNames s with
  | case1 p d w p' d' r names left hr ih =>
    rw [hr] at ih
    obtain ⟨hname, hrest⟩ := ih hstop
    rw [List.cons_append, List.cons_append, furtherNames]
    exact ⟨congrArg ("." ++ w ++ ·) hname, hrest⟩
  | case2 s hne =>
    rw [furtherNames]
    · exact ⟨rfl, rfl⟩
    -- What would go on with the name in the longer input stands before the stop, and so it would
    -- have gone on with it already.
    · intro p d w p' d' r heq
      obtain ⟨s', rfl⟩ := HasStop.eq_cons₂ hstop (Token.not_isStop_symbol (by decide) p d) heq
      exact hne p d w p' d' s' rfl

theorem steady_qualifiedName : Steady qualifiedName := by
  intro s left c s' a h hstop hs
  obtain ⟨first, u, hu, h⟩ := h.of_bind
  obtain ⟨rfl, hleft⟩ := h.of_ok
  have hleft : (furtherNames u.left).2.left = left := hleft
  rw [← hleft] at hstop ⊢
  obtain ⟨hname, hrest⟩ := furtherNames_append hstop c
  have hstop' := hstop.of_suffix (furtherNames u.left).2.isSuffix
  refine (steady_identifier ⟨u, hu, rfl⟩ hstop' hs).bind fun u' hu' => ?_
  rw [← hu'] at hname hrest
  rw [← hname]
  exact ⟨_, rfl, hrest⟩

theorem steady_annotated : Steady annotation := by
  intro s left c s' a h hstop hs
  obtain ⟨_, u, hu, h⟩ := h.of_bind
  obtain ⟨_, v, hv, h⟩ := h.of_bind
  obtain ⟨-, rfl⟩ := h.of_ok
  have hstop' := hstop.of_suffix v.isSuffix
  refine (steady_qualifiedName ⟨u, hu, rfl⟩ hstop' hs).bind fun _ hu' => ?_
  have hgroup := steadyLoop_optionalGroup (by decide) ⟨v, hv, rfl⟩ hstop hu'
  exact hgroup.bind fun _ hleft => ⟨_, rfl, hleft⟩

theorem steadyLoop_modifiers : SteadyLoop modifiers := by
  intro s left c s' a h hstop hs
  fun_induction modifiers s generalizing s' with
  | case1 p d p' d' p'' d'' r ih =>
    obtain ⟨_, u, hu, h⟩ := h.of_bind
    rw [hs, List.cons_append, List.cons_append, List.cons_append, modifiers]
    exact (ih ⟨u, hu, h.of_ok.2⟩ rfl).bind fun _ hleft => ⟨_, rfl, hleft⟩
  | case2 p d p' d' r =>
    obtain ⟨-, rfl⟩ := h.of_ok
    rw [hs, List.cons_append, List.cons_append, modifiers]
    exact ⟨_, rfl, rfl⟩
  | case3 p d r hne ih =>
    obtain ⟨_, u, hu, h⟩ := h.of_bind
    obtain ⟨_, v, hv, h⟩ := h.of_bind
    obtain ⟨-, rfl⟩ := h.of_ok
    have hstop' : HasStop u.left := hstop.of_suffix v.isSuffix
    rw [hs, List.cons_append, modifiers]
    · refine (steady_annotated ⟨u, hu, rfl⟩ hstop' rfl).bind fun u' hu' => ?_
      exact (ih u ⟨v, hv, rfl⟩ hu').bind fun _ hleft => ⟨_, rfl, hleft⟩
    · exact (hstop'.of_suffix u.isSuffix).ne_append hne
  | case4 w p d r hne hw ih =>
    obtain ⟨_, u, hu, h⟩ := h.of_bind
    obtain ⟨-, rfl⟩ := h.of_ok
    rw [hs, List.cons_append, modifiers, if_pos hw]
    · exact (ih ⟨u, hu, rfl⟩ rfl).bind fun _ hleft => ⟨_, rfl, hleft⟩
    · intro p' d' p'' d'' r' heq
      obtain ⟨s', rfl⟩ := (hstop.of_suffix u.isSuffix).eq_cons₂
        (Token.not_isStop_symbol (by decide) p' d') heq
      exact hne p' d' p'' d'' s' rfl
  | case5 w p d r hne hw =>
    obtain ⟨-, rfl⟩ := h.of_ok
    rw [hs, List.cons_append, modifiers, if_neg hw]
    · exact ⟨_, rfl, rfl⟩
    · intro p' d' p'' d'' r' heq
      obtain ⟨s', rfl⟩ := (HasStop.tail hstop (Token.not_isStop_word w p d)).eq_cons₂
        (Token.not_isStop_symbol (by decide) p' d') heq
      exact hne p' d' p'' d'' s' rfl
  | case6 s hnon hinterface hsign hword =>
    obtain ⟨-, rfl⟩ := h.of_ok
    have hstop : HasStop s := hstop
    rw [hs, modifiers]
    · exact ⟨_, rfl, rfl⟩
    · intro p d p' d' p'' d'' r heq
      obtain ⟨s', rfl⟩ := hstop.eq_cons₃ (Token.not_isStop_word _ p d)
        (Token.not_isStop_symbol (by decide) p' d') heq
      exact hnon p d p' d' p'' d'' s' rfl
    · intro p d p' d' r heq
      obtain ⟨s', rfl⟩ := hstop.eq_cons₂ (Token.not_isStop_symbol (by decide) p d) heq
      exact hinterface p d p' d' s' rfl
    · exact hstop.ne_append hsign
    · exact fun w => hstop.ne_append (hword w)

/-! ## Section 4: Types and parameters -/

theorem steadyLoop_furtherParts (name : String) : SteadyLoop (furtherParts name) := by
  intro s left c s' a h hstop hs
  fun_induction furtherParts name s generalizing s' with
  | case1 name p d r ih =>
    obtain ⟨_, u, hu, h⟩ := h.of_bind
    obtain ⟨_, v, hv, h⟩ := h.of_bind
    obtain ⟨rfl, rfl⟩ := h.of_ok
    rw [hs, List.cons_append, furtherParts]
    refine ((closing_group (by decide) ⟨u, hu, rfl⟩).2 rfl).bind fun u' hu' => ?_
    exact (ih u ⟨v, hv, rfl⟩ hu').bind fun _ hleft => ⟨_, rfl, hleft⟩
  | case2 name p d w p' d' r ih =>
    obtain ⟨_, u, hu, h⟩ := h.of_bind
    obtain ⟨rfl, rfl⟩ := h.of_ok
    rw [hs, List.cons_append, List.cons_append, furtherParts]
    exact (ih ⟨u, hu, rfl⟩ rfl).bind fun _ hleft => ⟨_, rfl, hleft⟩
  | case3 name p d p' d' r ih =>
    obtain ⟨_, u, hu, h⟩ := h.of_bind
    obtain ⟨_, v, hv, h⟩ := h.of_bind
    obtain ⟨rfl, rfl⟩ := h.of_ok
    have hstop' : HasStop u.left := hstop.of_suffix v.isSuffix
    rw [hs, List.cons_append, List.cons_append, furtherParts]
    refine (steady_annotated ⟨u, hu, rfl⟩ hstop' rfl).bind fun u' hu' => ?_
    exact (ih u ⟨v, hv, rfl⟩ hu').bind fun _ hleft => ⟨_, rfl, hleft⟩
  | case4 name s harguments hpart hannotated =>
    obtain ⟨rfl, rfl⟩ := h.of_ok
    have hstop : HasStop s := hstop
    rw [hs, furtherParts]
    · exact ⟨_, rfl, rfl⟩
    · exact hstop.ne_append harguments
    · intro p d w p' d' r heq
      obtain ⟨s', rfl⟩ := hstop.eq_cons₂ (Token.not_isStop_symbol (by decide) p d) heq
      exact hpart p d w p' d' s' rfl
    · intro p d p' d' r heq
      obtain ⟨s', rfl⟩ := hstop.eq_cons₂ (Token.not_isStop_symbol (by decide) p d) heq
      exact hannotated p d p' d' s' rfl

theorem steadyLoop_dimensions : SteadyLoop dimensions := by
  intro s left c s' a h hstop hs
  fun_induction dimensions s generalizing s' a with
  | case1 p d p' d' r ih =>
    obtain ⟨_, u, hu, h⟩ := h.of_bind
    obtain ⟨rfl, rfl⟩ := h.of_ok
    rw [hs, List.cons_append, List.cons_append, dimensions]
    exact (ih ⟨u, hu, rfl⟩ rfl).bind fun _ hleft => ⟨_, rfl, hleft⟩
  | case2 p d p' d' p'' d'' r ih =>
    obtain ⟨_, u, hu, h⟩ := h.of_bind
    obtain ⟨rfl, rfl⟩ := h.of_ok
    rw [hs, List.cons_append, List.cons_append, List.cons_append, dimensions]
    exact (ih ⟨u, hu, rfl⟩ rfl).bind fun _ hleft => ⟨_, rfl, hleft⟩
  | case3 p d r ih =>
    obtain ⟨_, u, hu, h⟩ := h.of_bind
    obtain ⟨_, v, hv, h⟩ := h.of_bind
    obtain ⟨rfl, rfl⟩ := h.of_ok
    have hstop' : HasStop u.left := hstop.of_suffix v.isSuffix
    rw [hs, List.cons_append, dimensions]
    refine (steady_annotated ⟨u, hu, rfl⟩ hstop' rfl).bind fun u' hu' => ?_
    exact (ih u ⟨v, hv, rfl⟩ hu').bind fun _ hleft => ⟨_, rfl, hleft⟩
  | case4 s hbrackets hdots hannotated =>
    obtain ⟨rfl, rfl⟩ := h.of_ok
    have hstop : HasStop s := hstop
    rw [hs, dimensions]
    · exact ⟨_, rfl, rfl⟩
    · intro p d p' d' r heq
      obtain ⟨s', rfl⟩ := hstop.eq_cons₂ (Token.not_isStop_symbol (by decide) p d) heq
      exact hbrackets p d p' d' s' rfl
    · intro p d p' d' p'' d'' r heq
      obtain ⟨s', rfl⟩ := hstop.eq_cons₃ (Token.not_isStop_symbol (by decide) p d)
        (Token.not_isStop_symbol (by decide) p' d') heq
      exact hdots p d p' d' p'' d'' s' rfl
    · exact hstop.ne_append hannotated

theorem steady_writtenType : Steady writtenType := by
  intro s left c s' a h hstop hs
  obtain ⟨_, u₁, h₁, h⟩ := h.of_bind
  obtain ⟨_, u₂, h₂, h⟩ := h.of_bind
  obtain ⟨_, u₃, h₃, h⟩ := h.of_bind
  obtain ⟨_, u₄, h₄, h⟩ := h.of_bind
  obtain ⟨rfl, rfl⟩ := h.of_ok
  have hstop₃ : HasStop u₃.left := hstop.of_suffix u₄.isSuffix
  have hstop₂ : HasStop u₂.left := hstop₃.of_suffix u₃.isSuffix
  have hstop₁ : HasStop u₁.left := hstop₂.of_suffix u₂.isSuffix
  refine (steadyLoop_modifiers ⟨u₁, h₁, rfl⟩ hstop₁ hs).bind fun _ hs₁ => ?_
  refine (steady_identifier ⟨u₂, h₂, rfl⟩ hstop₂ hs₁).bind fun _ hs₂ => ?_
  refine (steadyLoop_furtherParts _ ⟨u₃, h₃, rfl⟩ hstop₃ hs₂).bind fun _ hs₃ => ?_
  exact (steadyLoop_dimensions ⟨u₄, h₄, rfl⟩ hstop hs₃).bind fun _ hleft => ⟨_, rfl, hleft⟩

theorem nameDimensions_append {s : List Token} (hstop : HasStop (nameDimensions s).2.left)
    (c : List Token) : (nameDimensions (s ++ c)).1 = (nameDimensions s).1 ∧
      (nameDimensions (s ++ c)).2.left = (nameDimensions s).2.left ++ c := by
  fun_induction nameDimensions s with
  | case1 p d p' d' r n left hr ih =>
    rw [hr] at ih
    obtain ⟨hn, hrest⟩ := ih hstop
    rw [List.cons_append, List.cons_append, nameDimensions]
    exact ⟨congrArg (· + 1) hn, hrest⟩
  | case2 s hne =>
    rw [nameDimensions]
    · exact ⟨rfl, rfl⟩
    · intro p d p' d' r heq
      obtain ⟨s', rfl⟩ := HasStop.eq_cons₂ hstop (Token.not_isStop_symbol (by decide) p d) heq
      exact hne p d p' d' s' rfl

theorem steady_parameter : Steady parameter := by
  intro s left c s' a h hstop hs
  obtain ⟨_, u₁, h₁, h⟩ := h.of_bind
  obtain ⟨_, u₂, h₂, h⟩ := h.of_bind
  obtain ⟨rfl, rfl⟩ := h.of_ok
  have hstop : HasStop (nameDimensions u₂.left).2.left := hstop
  have hstop₂ : HasStop u₂.left := hstop.of_suffix (nameDimensions u₂.left).2.isSuffix
  have hstop₁ : HasStop u₁.left := hstop₂.of_suffix u₂.isSuffix
  obtain ⟨hn, hleft⟩ := nameDimensions_append hstop c
  refine (steady_writtenType ⟨u₁, h₁, rfl⟩ hstop₁ hs).bind fun _ hs₁ => ?_
  refine (steady_identifier ⟨u₂, h₂, rfl⟩ hstop₂ hs₁).bind fun u' hs₂ => ?_
  rw [← hs₂] at hn hleft
  rw [← hn]
  exact ⟨_, rfl, hleft⟩

theorem steadyLoop_separator : SteadyLoop separator := by
  intro s left c s' a h hstop hs
  subst hs
  unfold separator at h
  split at h
  · obtain ⟨-, rfl⟩ := h.of_ok
    exact ⟨_, rfl, rfl⟩
  · obtain ⟨-, rfl⟩ := h.of_ok
    exact ⟨_, rfl, rfl⟩
  · obtain ⟨_, hu, -⟩ := h
    cases hu

theorem closing_parameters : Closing parameters := by
  intro s left a h
  fun_induction parameters s generalizing a with
  | case1 p d r =>
    obtain ⟨rfl, rfl⟩ := h.of_ok
    refine ⟨.of_first rfl (by decide) r, ?_⟩
    intro c s' hs
    rw [hs, List.cons_append, parameters]
    exact ⟨_, rfl, rfl⟩
  | case2 s hne ih =>
    obtain ⟨x, u₁, h₁, h⟩ := h.of_bind
    obtain ⟨_, u₂, h₂, h⟩ := h.of_bind
    obtain ⟨xs, u₃, h₃, h⟩ := h.of_bind
    obtain ⟨rfl, rfl⟩ := h.of_ok
    obtain ⟨hstop₂, hextend⟩ := ih u₁ u₂ ⟨u₃, h₃, rfl⟩
    have hstop₁ : HasStop u₁.left := hstop₂.of_suffix u₂.isSuffix
    have hstop : HasStop s := hstop₁.of_suffix u₁.isSuffix
    refine ⟨hstop, ?_⟩
    intro c s' hs
    rw [hs, parameters]
    · refine (steady_parameter ⟨u₁, h₁, rfl⟩ hstop₁ rfl).bind fun _ hs₁ => ?_
      refine (steadyLoop_separator ⟨u₂, h₂, rfl⟩ hstop₂ hs₁).bind fun _ hs₂ => ?_
      exact (hextend hs₂).bind fun _ hleft => ⟨_, rfl, hleft⟩
    · exact hstop.ne_append hne

theorem closing_variableNames (depth : Nat) (first : Bool) :
    Closing (variableNames depth first) := by
  intro s left a h
  fun_induction variableNames depth first s generalizing a with
  | case1 =>
    obtain ⟨_, hu, -⟩ := h
    cases hu
  | case2 depth first p d r ih =>
    obtain ⟨_, u, hu, h⟩ := h.of_bind
    obtain ⟨rfl, rfl⟩ := h.of_ok
    refine (ih ⟨u, hu, rfl⟩).token fun hr => ?_
    rw [variableNames]
    exact hr.bind fun _ hleft => ⟨_, rfl, hleft⟩
  | case3 first p d r =>
    obtain ⟨rfl, rfl⟩ := h.of_ok
    exact .stop rfl (by decide) (reads_variableNames_end rfl first) r
  | case4 first p d r depth ih =>
    obtain ⟨_, u, hu, h⟩ := h.of_bind
    obtain ⟨rfl, rfl⟩ := h.of_ok
    refine (ih ⟨u, hu, rfl⟩).token fun hr => ?_
    rw [variableNames]
    exact hr.bind fun _ hleft => ⟨_, rfl, hleft⟩
  | case5 depth first p d r ih =>
    obtain ⟨_, u, hu, h⟩ := h.of_bind
    obtain ⟨rfl, rfl⟩ := h.of_ok
    exact (ih ⟨u, hu, rfl⟩).token (reads_variableNames_comma rfl)
  | case6 depth first p d r ih =>
    obtain ⟨_, u, hu, h⟩ := h.of_bind
    obtain ⟨_, v, hv, h⟩ := h.of_bind
    obtain ⟨rfl, rfl⟩ := h.of_ok
    refine (ih u ⟨v, hv, rfl⟩).after u.isSuffix fun hstop c hextend => ?_
    rw [variableNames]
    refine (steady_annotated ⟨u, hu, rfl⟩ hstop rfl).bind fun _ hu' => ?_
    exact (hextend hu').bind fun _ hleft => ⟨_, rfl, hleft⟩
  | case7 depth first w p d r ih =>
    obtain ⟨names, u, hu, h⟩ := h.of_bind
    obtain ⟨rfl, rfl⟩ := h.of_ok
    refine (ih ⟨u, hu, rfl⟩).token fun hr => ?_
    rw [variableNames]
    exact hr.bind fun _ hleft => ⟨_, rfl, hleft⟩
  | case8 depth first t r _ _ _ _ _ ih =>
    obtain ⟨_, u, hu, h⟩ := h.of_bind
    obtain ⟨rfl, rfl⟩ := h.of_ok
    refine (ih ⟨u, hu, rfl⟩).token fun hr => ?_
    rw [variableNames]
    · exact hr.bind fun _ hleft => ⟨_, rfl, hleft⟩
    all_goals assumption

theorem steadyLoop_optionalVariables : SteadyLoop optionalVariables := by
  intro s left c s' a h hstop hs
  unfold optionalVariables at h
  split at h
  · obtain ⟨_, u, hu, h⟩ := h.of_bind
    obtain ⟨rfl, rfl⟩ := h.of_ok
    rw [hs, List.cons_append, optionalVariables]
    exact ((closing_variableNames 0 true ⟨u, hu, rfl⟩).2 rfl).bind fun _ hleft => ⟨_, rfl, hleft⟩
  · next hne =>
    obtain ⟨rfl, rfl⟩ := h.of_ok
    rw [hs, optionalVariables]
    · exact ⟨_, rfl, rfl⟩
    · exact HasStop.ne_append hstop hne

/-! ## Section 5: Members -/

theorem closing_methodTail : Closing methodTail := by
  intro s left a h
  fun_induction methodTail s with
  | case1 =>
    obtain ⟨_, hu, -⟩ := h
    cases hu
  | case2 p d r =>
    obtain ⟨-, rfl⟩ := h.of_ok
    refine .stop rfl (by decide) (fun r => ?_) r
    rw [methodTail]
    exact ⟨_, rfl, rfl⟩
  | case3 p d r =>
    obtain ⟨_, u, hu, h⟩ := h.of_bind
    obtain ⟨-, rfl⟩ := h.of_ok
    refine (closing_group (by decide) ⟨u, hu, rfl⟩).token fun hr => ?_
    rw [methodTail]
    exact hr.bind fun _ hleft => ⟨_, rfl, hleft⟩
  | case4 p d r ih =>
    obtain ⟨_, u, hu, h⟩ := h.of_bind
    obtain ⟨_, v, hv, h⟩ := h.of_bind
    obtain ⟨-, rfl⟩ := h.of_ok
    obtain ⟨-, hgroup⟩ := closing_group (by decide) ⟨u, hu, rfl⟩
    refine (ih u ⟨v, hv, rfl⟩).after u.isSuffix fun hstop c hextend => ?_
    exact passesClause_methodTail.group rfl (hgroup rfl) hextend
  | case5 t r _ _ _ ih =>
    obtain ⟨_, u, hu, h⟩ := h.of_bind
    obtain ⟨-, rfl⟩ := h.of_ok
    refine (ih ⟨u, hu, rfl⟩).token fun hr => ?_
    rw [methodTail]
    · exact hr.bind fun _ hleft => ⟨_, rfl, hleft⟩
    all_goals assumption

/-- Whether a field starts here is told in front of a stop. -/
theorem startsField_append {s : List Token} (hstop : HasStop s) (c : List Token) :
    startsField (s ++ c) = startsField s := by
  rw [Bool.eq_iff_iff]
  match s with
  | [] => exact absurd rfl hstop.ne_nil
  | [t] =>
    -- The only token is a stop, so no name.
    obtain ⟨u, hu, hkind⟩ := hstop
    obtain rfl := List.mem_singleton.1 hu
    obtain ⟨k, -, hk⟩ := List.mem_map.1 hkind
    refine iff_of_false ?_ (by simp [startsField])
    cases c with
    | nil => simp [startsField]
    | cons v c =>
      rw [List.singleton_append, startsField_cons_cons, ← hk]
      rintro ⟨⟨w, hw⟩, -⟩
      cases hw
  | t :: u :: s => rw [List.cons_append, List.cons_append, startsField_cons_cons,
      startsField_cons_cons]

theorem steadyLoop_initialiser : SteadyLoop initialiser := by
  intro s left c s' a h hstop hs
  fun_induction initialiser s generalizing s' with
  | case1 =>
    obtain ⟨_, hu, -⟩ := h
    cases hu
  | case2 p d r =>
    obtain ⟨-, rfl⟩ := h.of_ok
    rw [hs, Rest.left_all, List.cons_append, initialiser]
    exact ⟨_, rfl, rfl⟩
  -- The three kinds of brackets.
  | case3 p d r ih | case4 p d r ih | case5 p d r ih =>
    obtain ⟨_, u, hu, h⟩ := h.of_bind
    obtain ⟨_, v, hv, h⟩ := h.of_bind
    obtain ⟨-, rfl⟩ := h.of_ok
    rw [hs, List.cons_append, initialiser]
    refine ((closing_group (by decide) ⟨u, hu, rfl⟩).2 rfl).bind fun u' hu' => ?_
    exact (ih u ⟨v, hv, rfl⟩ hu').bind fun _ hleft => ⟨_, rfl, hleft⟩
  | case6 t r _ _ _ _ hfield =>
    obtain ⟨-, rfl⟩ := h.of_ok
    obtain ⟨_, p, d⟩ := t
    cases hfield.1
    have hr : HasStop r := HasStop.tail hstop (Token.not_isStop_symbol (by decide) p d)
    rw [hs, Rest.left_all, List.cons_append, initialiser,
      if_pos ⟨rfl, (startsField_append hr c).trans hfield.2⟩]
    · exact ⟨_, rfl, rfl⟩
    all_goals assumption
  | case7 t r _ _ _ _ hfield ih =>
    obtain ⟨_, u, hu, h⟩ := h.of_bind
    obtain ⟨-, rfl⟩ := h.of_ok
    have hr : HasStop r := hstop.of_suffix u.isSuffix
    rw [hs, List.cons_append, initialiser, if_neg]
    · exact (ih ⟨u, hu, rfl⟩ rfl).bind fun _ hleft => ⟨_, rfl, hleft⟩
    · rw [startsField_append hr]
      exact hfield
    all_goals assumption

theorem closing_furtherFields : Closing furtherFields := by
  intro s left a h
  fun_induction furtherFields s generalizing a with
  | case1 p d r =>
    obtain ⟨rfl, rfl⟩ := h.of_ok
    refine .stop rfl (by decide) (fun r => ?_) r
    rw [furtherFields]
    exact ⟨_, rfl, rfl⟩
  | case2 p d r ih =>
    obtain ⟨_, u, hu, h⟩ := h.of_bind
    obtain ⟨_, v, hv, h⟩ := h.of_bind
    obtain ⟨rfl, rfl⟩ := h.of_ok
    refine (ih u ⟨v, hv, rfl⟩).after u.isSuffix fun hstop c hextend => ?_
    rw [furtherFields]
    refine (steady_identifier ⟨u, hu, rfl⟩ hstop rfl).bind fun _ hu' => ?_
    exact (hextend hu').bind fun _ hleft => ⟨_, rfl, hleft⟩
  | case3 p d r ih =>
    obtain ⟨_, u, hu, h⟩ := h.of_bind
    obtain ⟨_, v, hv, h⟩ := h.of_bind
    obtain ⟨rfl, rfl⟩ := h.of_ok
    refine (ih u ⟨v, hv, rfl⟩).after u.isSuffix fun hstop c hextend => ?_
    rw [furtherFields]
    refine (steadyLoop_initialiser ⟨u, hu, rfl⟩ hstop rfl).bind fun _ hu' => ?_
    exact (hextend hu').bind fun _ hleft => ⟨_, rfl, hleft⟩
  | case4 p d r ih =>
    obtain ⟨_, u, hu, h⟩ := h.of_bind
    obtain ⟨_, v, hv, h⟩ := h.of_bind
    obtain ⟨rfl, rfl⟩ := h.of_ok
    refine (ih u ⟨v, hv, rfl⟩).after u.isSuffix fun hstop c hextend => ?_
    rw [furtherFields]
    refine ((closing_group (by decide) ⟨u, hu, rfl⟩).2 rfl).bind fun _ hu' => ?_
    exact (hextend hu').bind fun _ hleft => ⟨_, rfl, hleft⟩
  | case5 =>
    obtain ⟨_, hu, -⟩ := h
    cases hu

section members

variable (kind : MemberKind) (owner docs name : String) (names : List String)

theorem closing_callable : Closing (callable kind docs name names) := by
  intro s left a h
  obtain ⟨xs, u, hu, h⟩ := h.of_bind
  obtain ⟨_, v, hv, h⟩ := h.of_bind
  obtain ⟨rfl, rfl⟩ := h.of_ok
  obtain ⟨hstop, hparameters⟩ := closing_parameters ⟨u, hu, rfl⟩
  obtain ⟨-, htail⟩ := closing_methodTail ⟨v, hv, rfl⟩
  refine ⟨hstop, ?_⟩
  intro c s' hs
  exact (hparameters hs).bind fun _ hu' => (htail hu').bind fun _ hleft => ⟨_, rfl, hleft⟩

theorem closing_afterMemberName : Closing (afterMemberName docs name names) := by
  intro s left a h
  unfold afterMemberName at h
  split at h
  · obtain ⟨_, u, hu, h⟩ := h.of_bind
    obtain ⟨rfl, rfl⟩ := h.of_ok
    refine (closing_callable .method docs name names ⟨u, hu, rfl⟩).token fun hr => ?_
    rw [afterMemberName]
    exact hr.bind fun _ hleft => ⟨_, rfl, hleft⟩
  · next hne =>
    obtain ⟨found, u, hu, h⟩ := h.of_bind
    obtain ⟨rfl, rfl⟩ := h.of_ok
    refine (closing_furtherFields ⟨u, hu, rfl⟩).wrap fun hstop c hr => ?_
    rw [afterMemberName]
    · exact hr.bind fun _ hleft => ⟨_, rfl, hleft⟩
    · exact hstop.ne_append hne

theorem closing_typedMembers : Closing (typedMembers docs names) := by
  intro s left a h
  obtain ⟨_, u, hu, h⟩ := h.of_bind
  obtain ⟨name, v, hv, h⟩ := h.of_bind
  obtain ⟨_, w, hw, h⟩ := h.of_bind
  obtain ⟨rfl, rfl⟩ := h.of_ok
  obtain ⟨hstop, hafter⟩ := closing_afterMemberName docs name names ⟨w, hw, rfl⟩
  have hstop' : HasStop u.left := hstop.of_suffix v.isSuffix
  refine ⟨hstop'.of_suffix u.isSuffix, ?_⟩
  intro c s' hs
  refine (steady_writtenType ⟨u, hu, rfl⟩ hstop' hs).bind fun _ hu' => ?_
  refine (steady_identifier ⟨v, hv, rfl⟩ hstop hu').bind fun _ hv' => ?_
  exact (hafter hv').bind fun _ hleft => ⟨_, rfl, hleft⟩

theorem closing_membersAfterVariables : Closing (membersAfterVariables owner docs names) := by
  intro s left a h
  unfold membersAfterVariables at h
  split at h
  · next w p d p' d' r =>
    split at h
    · next hw =>
      obtain ⟨_, u, hu, h⟩ := h.of_bind
      obtain ⟨rfl, rfl⟩ := h.of_ok
      obtain ⟨hstop, hcallable⟩ := closing_callable .constructor docs owner names ⟨u, hu, rfl⟩
      refine ⟨(hstop.cons _).cons _, ?_⟩
      intro c s' hs
      rw [hs, List.cons_append, List.cons_append, membersAfterVariables, if_pos hw]
      exact (hcallable rfl).bind fun _ hleft => ⟨_, rfl, hleft⟩
    · next hw =>
      refine (closing_typedMembers docs names h).wrap fun _ c hr => ?_
      rw [List.cons_append, List.cons_append, membersAfterVariables, if_neg hw]
      exact hr
  · next hne =>
    refine (closing_typedMembers docs names h).wrap fun hstop c hr => ?_
    rw [membersAfterVariables]
    · exact hr
    · intro w p d p' d' r heq
      obtain ⟨s', rfl⟩ := hstop.eq_cons₂ (Token.not_isStop_word w p d) heq
      exact hne w p d p' d' s' rfl

theorem steadyLoop_memberVariables : SteadyLoop memberVariables := by
  intro s left c s' a h hstop hs
  unfold memberVariables at h
  split at h
  · obtain ⟨_, u, hu, h⟩ := h.of_bind
    obtain ⟨_, v, hv, h⟩ := h.of_bind
    obtain ⟨rfl, rfl⟩ := h.of_ok
    rw [hs, List.cons_append, memberVariables]
    refine ((closing_variableNames 0 true ⟨u, hu, rfl⟩).2 rfl).bind fun _ hu' => ?_
    exact (steadyLoop_modifiers ⟨v, hv, rfl⟩ hstop hu').bind fun _ hleft => ⟨_, rfl, hleft⟩
  · next hne =>
    obtain ⟨rfl, rfl⟩ := h.of_ok
    rw [hs, memberVariables]
    · exact ⟨_, rfl, rfl⟩
    · exact HasStop.ne_append hstop hne

theorem closing_members : Closing (members owner docs) := by
  intro s left a h
  obtain ⟨names, u, hu, h⟩ := h.of_bind
  obtain ⟨_, v, hv, h⟩ := h.of_bind
  obtain ⟨rfl, rfl⟩ := h.of_ok
  obtain ⟨hstop, hafter⟩ := closing_membersAfterVariables owner docs names ⟨v, hv, rfl⟩
  refine ⟨hstop.of_suffix u.isSuffix, ?_⟩
  intro c s' hs
  refine (steadyLoop_memberVariables ⟨u, hu, rfl⟩ hstop hs).bind fun _ hu' => ?_
  exact (hafter hu').bind fun _ hleft => ⟨_, rfl, hleft⟩

end members

/-! ## Section 6: Declarations -/

theorem docsBetween_append {s left : List Token} (hsuffix : left <:+ s) (hne : left ≠ [])
    (c : List Token) : docsBetween (s ++ c) (left ++ c) = docsBetween s left := by
  obtain ⟨taken, rfl⟩ := hsuffix
  have hbefore : ∀ rest : List Token, takenBefore (taken ++ rest) rest = taken := by
    intro rest
    simp [takenBefore]
  rw [docsBetween, docsBetween, List.append_assoc, hbefore, hbefore,
    List.take_append_of_le_length (List.length_pos_iff.2 hne)]

theorem steady_enumConstant : Steady enumConstant := by
  intro s left c s' a h hstop hs
  obtain ⟨_, u₁, h₁, h⟩ := h.of_bind
  obtain ⟨name, u₂, h₂, h⟩ := h.of_bind
  obtain ⟨_, u₃, h₃, h⟩ := h.of_bind
  obtain ⟨_, u₄, h₄, h⟩ := h.of_bind
  obtain ⟨rfl, rfl⟩ := h.of_ok
  have hstop₃ : HasStop u₃.left := hstop.of_suffix u₄.isSuffix
  have hstop₂ : HasStop u₂.left := hstop₃.of_suffix u₃.isSuffix
  have hstop₁ : HasStop u₁.left := hstop₂.of_suffix u₂.isSuffix
  have hdocs := docsBetween_append u₁.isSuffix hstop₁.ne_nil c
  refine (steadyLoop_modifiers ⟨u₁, h₁, rfl⟩ hstop₁ hs).bind fun u' hs₁ => ?_
  rw [← hs, ← hs₁] at hdocs
  refine (steady_identifier ⟨u₂, h₂, rfl⟩ hstop₂ hs₁).bind fun _ hs₂ => ?_
  refine (steadyLoop_optionalGroup (by decide) ⟨u₃, h₃, rfl⟩ hstop₃ hs₂).bind fun _ hs₃ => ?_
  refine (steadyLoop_optionalGroup (by decide) ⟨u₄, h₄, rfl⟩ hstop hs₃).bind fun _ hs₄ => ?_
  rw [← hdocs]
  exact ⟨_, rfl, hs₄⟩

/-- The constants of an enum end with a semicolon or in front of a brace. -/
theorem extends_enumConstants {s left : List Token} {cs : List Member}
    (h : LoopReads (enumConstants s) cs left) : HasStop s ∧ ∀ {c s' : List Token}, s' = s ++ c →
      LoopReads (enumConstants s') cs (left ++ c) := by
  fun_induction enumConstants s generalizing cs with
  | case1 =>
    obtain ⟨_, hu, -⟩ := h
    cases hu
  | case2 p d r =>
    obtain ⟨rfl, rfl⟩ := h.of_ok
    refine ⟨.of_first rfl (by decide) r, ?_⟩
    intro c s' hs
    rw [hs, List.cons_append, enumConstants]
    exact ⟨_, rfl, rfl⟩
  | case3 p d r =>
    obtain ⟨rfl, rfl⟩ := h.of_ok
    refine ⟨.of_first rfl (by decide) r, ?_⟩
    intro c s' hs
    rw [hs, List.cons_append, enumConstants]
    exact ⟨_, rfl, rfl⟩
  | case4 p d r ih =>
    obtain ⟨_, u, hu, h⟩ := h.of_bind
    obtain ⟨rfl, rfl⟩ := h.of_ok
    obtain ⟨hstop, hextend⟩ := ih ⟨u, hu, rfl⟩
    refine ⟨hstop.cons _, ?_⟩
    intro c s' hs
    rw [hs, List.cons_append, enumConstants]
    exact (hextend rfl).bind fun _ hleft => ⟨_, rfl, hleft⟩
  | case5 s hnil hsemicolon hclosing hcomma ih =>
    obtain ⟨_, u, hu, h⟩ := h.of_bind
    obtain ⟨_, v, hv, h⟩ := h.of_bind
    obtain ⟨rfl, rfl⟩ := h.of_ok
    obtain ⟨hstop, hextend⟩ := ih u ⟨v, hv, rfl⟩
    have hstop' : HasStop s := hstop.of_suffix u.isSuffix
    refine ⟨hstop', ?_⟩
    intro c s' hs
    rw [hs, enumConstants]
    · refine (steady_enumConstant ⟨u, hu, rfl⟩ hstop rfl).bind fun _ hu' => ?_
      exact (hextend hu').bind fun _ hleft => ⟨_, rfl, hleft⟩
    · intro hnil'
      exact hnil (List.append_eq_nil_iff.1 hnil').1
    · exact hstop'.ne_append hsemicolon
    · exact hstop'.ne_append hclosing
    · exact hstop'.ne_append hcomma

theorem loopReads_constantsOf_append {keyword : String} {s left c s' : List Token}
    {cs : List Member} (h : LoopReads (constantsOf keyword s) cs left) (hs : s' = s ++ c) :
    LoopReads (constantsOf keyword s') cs (left ++ c) := by
  unfold constantsOf at h ⊢
  split at h
  · next hkeyword =>
    rw [if_pos hkeyword]
    exact (extends_enumConstants h).2 hs
  · next hkeyword =>
    obtain ⟨rfl, rfl⟩ := h.of_ok
    rw [if_neg hkeyword]
    exact ⟨_, rfl, hs⟩

theorem closing_typeHeader : Closing typeHeader := by
  intro s left a h
  fun_induction typeHeader s with
  | case1 =>
    obtain ⟨_, hu, -⟩ := h
    cases hu
  | case2 p d r =>
    obtain ⟨-, rfl⟩ := h.of_ok
    refine .stop rfl (by decide) (fun r => ?_) r
    rw [typeHeader]
    exact ⟨_, rfl, rfl⟩
  | case3 p d r ih =>
    obtain ⟨_, u, hu, h⟩ := h.of_bind
    obtain ⟨_, v, hv, h⟩ := h.of_bind
    obtain ⟨-, rfl⟩ := h.of_ok
    obtain ⟨-, hgroup⟩ := closing_group (by decide) ⟨u, hu, rfl⟩
    refine (ih u ⟨v, hv, rfl⟩).after u.isSuffix fun _ c hextend => ?_
    exact passesClause_typeHeader.group rfl (hgroup rfl) hextend
  | case4 t r _ _ ih =>
    obtain ⟨_, u, hu, h⟩ := h.of_bind
    obtain ⟨-, rfl⟩ := h.of_ok
    refine (ih ⟨u, hu, rfl⟩).token fun hr => ?_
    rw [typeHeader]
    · exact hr.bind fun _ hleft => ⟨_, rfl, hleft⟩
    all_goals assumption

end TypeCatalog.Source
