import TypeCatalog.Proofs.Outcome
import TypeCatalog.Rest

/-! # Readers that do not look far ahead

    A reader takes something off the front of a text. It has seen what it took, and perhaps a little
    of what follows. If the text goes on in another way from a place that the reader did not get
    past, but in a way that is alike as far as it looks, then it takes the same and gives the same.

    `GivesByFront` is this property of a reader at one text, where `alike` says how far it looks. It
    passes through the sequence of two readers, so every reader has it by its equation. -/

set_option autoImplicit false

namespace TypeCatalog

section

variable {ε α β : Type} {alike : List Char → List Char → Prop}
variable {f g : List Char → Except ε (α × List Char)} {s : List Char}

/-- What `f` gives for `s` is decided by what it takes, and by what is alike after that. -/
structure GivesByFront (alike : List Char → List Char → Prop)
    (f : List Char → Except ε (α × List Char)) (s : List Char) : Prop where
  /-- A suffix is left. -/
  suffix {a : α} {left : List Char} : f s = .ok (a, left) → left <:+ s
  /-- What is given does not depend on `u`, if `u` is left. -/
  gives {before after u u' : List Char} {a : α} : alike u u' → s = before ++ u →
    f s = .ok (a, after ++ u) → f (before ++ u') = .ok (a, after ++ u')

namespace GivesByFront

/-- Nothing is taken. -/
theorem give (a : α) (s : List Char) :
    GivesByFront alike (fun s => (.ok (a, s) : Except ε (α × List Char))) s where
  suffix h := by
    cases h
    exact List.suffix_refl s
  gives _ hs h := by
    obtain ⟨rfl, htake⟩ := Prod.mk.inj (Except.ok.inj h)
    rw [hs] at htake
    rw [List.append_cancel_right htake]

/-- Where a reader fails, nothing is given. -/
theorem of_error {e : ε} (h : f s = .error e) : GivesByFront alike f s where
  suffix hgive := by
    rw [h] at hgive
    cases hgive
  gives _ _ hgive := by
    rw [h] at hgive
    cases hgive

theorem bind {k : α × List Char → Except ε (β × List Char)} (hf : GivesByFront alike f s)
    (hk : ∀ a left, f s = .ok (a, left) → GivesByFront alike (fun left => k (a, left)) left) :
    GivesByFront alike (fun s => (f s).bind k) s where
  suffix h := by
    obtain ⟨⟨a, mid⟩, ha, hb⟩ := bind_eq_ok.1 h
    exact ((hk a mid ha).suffix hb).trans (hf.suffix ha)
  gives {before after u u' b} hu hs h := by
    obtain ⟨⟨a, mid⟩, ha, hb⟩ := bind_eq_ok.1 h
    -- The first reader did not get past `u` either, since the second one leaves it.
    obtain ⟨taken, rfl⟩ := (hk a mid ha).suffix hb
    rw [← List.append_assoc] at ha hb
    have hsecond := (hk a _ ha).gives hu rfl hb
    exact bind_eq_ok.2 ⟨(a, taken ++ after ++ u'), hf.gives hu hs ha, hsecond⟩

theorem map (k : α → β) (hf : GivesByFront alike f s) :
    GivesByFront alike (fun s => (f s).map fun (a, left) => (k a, left)) s where
  suffix h := by
    obtain ⟨⟨a, left⟩, ha, heq⟩ := map_eq_ok.1 h
    cases heq
    exact hf.suffix ha
  gives hu hs h := by
    obtain ⟨⟨a, left⟩, ha, heq⟩ := map_eq_ok.1 h
    cases heq
    exact map_eq_ok.2 ⟨_, hf.gives hu hs ha, rfl⟩

/-- The text that is taken. -/
theorem taken (hf : GivesByFront alike f s) :
    GivesByFront alike
      (fun s => (f s).map fun (_, left) => (String.ofList (takenBefore s left), left)) s where
  suffix h := by
    obtain ⟨⟨a, left⟩, ha, heq⟩ := map_eq_ok.1 h
    cases heq
    exact hf.suffix ha
  gives {before after u u' text} hu hs h := by
    obtain ⟨⟨a, left⟩, ha, heq⟩ := map_eq_ok.1 h
    cases heq
    have hsuffix : after <:+ before := by
      have h := hf.suffix ha
      rw [hs] at h
      obtain ⟨t, ht⟩ := h
      rw [← List.append_assoc] at ht
      exact ⟨t, List.append_cancel_right ht⟩
    -- What is taken stands in front of `u` and of `u'`.
    have htaken : ∀ v : List Char,
        takenBefore (before ++ v) (after ++ v) = takenBefore before after := by
      intro v
      obtain ⟨t, rfl⟩ := hsuffix
      simp [takenBefore]
    refine map_eq_ok.2 ⟨_, hf.gives hu hs ha, ?_⟩
    show (String.ofList (takenBefore (before ++ u') (after ++ u')), after ++ u') = _
    rw [hs, htaken, htaken]

/-- A character is taken first. -/
theorem cons {c : Char} {r : List Char} (hg : GivesByFront alike g r)
    (hfg : ∀ r, f (c :: r) = g r) : GivesByFront alike f (c :: r) where
  suffix h := by
    rw [hfg] at h
    exact (hg.suffix h).trans (List.suffix_cons c r)
  gives {before after u u' a} hu hs h := by
    rw [hfg] at h
    cases before with
    | nil =>
      -- There is not as much left as `u` is long.
      have hlength := (hg.suffix h).length_le
      rw [List.nil_append] at hs
      rw [← hs] at hlength
      simp only [List.length_append, List.length_cons] at hlength
      omega
    | cons b before =>
      obtain ⟨rfl, rfl⟩ := List.cons.inj hs
      rw [List.cons_append, hfg]
      exact hg.gives hu rfl h

/-- Another reader that gives the same, and that goes on giving the same where this one does. -/
theorem congr (hg : GivesByFront alike g s) (hs : f s = g s)
    (hfg : ∀ before after u u' a, alike u u' → s = before ++ u → g s = .ok (a, after ++ u) →
      g (before ++ u') = .ok (a, after ++ u') → f (before ++ u') = .ok (a, after ++ u')) :
    GivesByFront alike f s where
  suffix h := hg.suffix (hs ▸ h)
  gives hu hsplit h :=
    hfg _ _ _ _ _ hu hsplit (hs ▸ h) (hg.gives hu hsplit (hs ▸ h))

end GivesByFront

end

end TypeCatalog
