import TypeCatalog.Source.Annotate

/-! # Updates of the first item that is found

    Updates are worked off one after another, and each one changes the first item that it is for.
    Where they change nothing that they are looked up by, each comes to the same place whenever it
    is its turn. So at every place the last one that comes there counts, and to work them off once
    more changes nothing. -/

set_option autoImplicit false

namespace TypeCatalog.Source

/-! ## Section 1: One update -/

section one

variable {α : Type} {p : α → Bool} {f : α → α}

theorem updateFirst_eq_modify (p : α → Bool) (f : α → α) (s : List α) :
    updateFirst p f s = s.modify (s.findIdx p) f := by
  induction s with
  | nil => rfl
  | cons a rest ih =>
    rw [updateFirst, List.findIdx_cons]
    cases p a with
    | true => rfl
    | false =>
      simp only [cond_false, List.modify_succ_cons, Bool.false_eq_true, if_false]
      rw [ih]

/-- A change that a predicate does not see moves none of the places that it finds. -/
theorem findIdx_modify (h : ∀ a, p (f a) = p a) (s : List α) (i : Nat) :
    (s.modify i f).findIdx p = s.findIdx p := by
  induction s generalizing i with
  | nil => cases i <;> rfl
  | cons a rest ih =>
    cases i with
    | zero => rw [List.modify_zero_cons, List.findIdx_cons, List.findIdx_cons, h]
    | succ i => rw [List.modify_succ_cons, List.findIdx_cons, List.findIdx_cons, ih]

/-- One update changes the item that it comes to, and no other. -/
theorem getElem?_updateFirst (p : α → Bool) (f : α → α) (s : List α) (i : Nat) :
    (updateFirst p f s)[i]? = s[i]?.map (if s.findIdx p == i then f else id) := by
  rw [updateFirst_eq_modify, List.getElem?_modify]
  by_cases hplace : s.findIdx p = i
  · simp [hplace]
  · simp [hplace]

theorem findIdx_updateFirst {q : α → Bool} (h : ∀ a, q (f a) = q a) (s : List α) :
    (updateFirst p f s).findIdx q = s.findIdx q := by
  rw [updateFirst_eq_modify, findIdx_modify h]

/-- What an update does not change is as it was, in the same places. -/
theorem map_updateFirst {γ : Type} {view : α → γ} (h : ∀ a, view (f a) = view a) (s : List α) :
    (updateFirst p f s).map view = s.map view := by
  induction s with
  | nil => rfl
  | cons a rest ih =>
    rw [updateFirst]
    by_cases ha : p a = true
    · rw [if_pos ha, List.map_cons, List.map_cons, h]
    · rw [if_neg ha, List.map_cons, List.map_cons, ih]

end one

/-! ## Section 2: Several updates -/

section several

variable {α β γ : Type}

/-- A list after some updates, each of the first item that it is for. -/
def updateEach (p : β → α → Bool) (f : β → α → α) (bs : List β) (s : List α) : List α :=
  bs.foldl (fun s b => updateFirst (p b) (f b) s) s

/-- The last one of some updates that come to the item with the given index. -/
def lastAt (p : β → α → Bool) (s : List α) (i : Nat) (bs : List β) : Option β :=
  (bs.filter fun b => s.findIdx (p b) == i).getLast?

/-- No update changes what another one is looked up by, and each writes over what others wrote. -/
structure IsOverwriting (p : β → α → Bool) (f : β → α → α) : Prop where
  unseen : ∀ b b' a, p b (f b' a) = p b a
  covers : ∀ b b' a, f b (f b' a) = f b a

variable {p : β → α → Bool} {f : β → α → α} {bs : List β} {s : List α} {i : Nat} {a : α}

theorem updateEach_cons (b : β) (bs : List β) (s : List α) :
    updateEach p f (b :: bs) s = updateEach p f bs (updateFirst (p b) (f b) s) :=
  List.foldl_cons ..

theorem map_updateEach {view : α → γ} (h : ∀ b a, view (f b a) = view a) (bs : List β)
    (s : List α) : (updateEach p f bs s).map view = s.map view := by
  induction bs generalizing s with
  | nil => rfl
  | cons b bs ih => rw [updateEach_cons, ih, map_updateFirst (h b)]

namespace IsOverwriting

theorem findIdx_updateEach (h : IsOverwriting p f) (b : β) (bs : List β) (s : List α) :
    (updateEach p f bs s).findIdx (p b) = s.findIdx (p b) := by
  induction bs generalizing s with
  | nil => rfl
  | cons b' bs ih => rw [updateEach_cons, ih, findIdx_updateFirst (h.unseen b b')]

theorem lastAt_updateEach (h : IsOverwriting p f) (bs' : List β) :
    lastAt p (updateEach p f bs' s) i bs = lastAt p s i bs := by
  unfold lastAt
  simp only [h.findIdx_updateEach]

/-- An item is changed by the last one of the updates that come to it. -/
theorem getElem?_updateEach (h : IsOverwriting p f) :
    (updateEach p f bs s)[i]? = s[i]?.map ((lastAt p s i bs).elim id f) := by
  -- Along the updates from the front: the others come to the places where they would come without
  -- the first one, so the first one counts only if none of them comes to the same place.
  induction bs generalizing s with
  | nil => simp [updateEach, lastAt]
  | cons b bs ih =>
    have hlast : lastAt p (updateFirst (p b) (f b) s) i bs = lastAt p s i bs :=
      h.lastAt_updateEach [b]
    rw [updateEach_cons, ih, hlast, getElem?_updateFirst, Option.map_map]
    congr 1
    unfold lastAt
    rw [List.filter_cons]
    by_cases hplace : (s.findIdx (p b) == i) = true
    · rw [if_pos hplace, if_pos hplace, List.getLast?_cons]
      cases (bs.filter fun b => s.findIdx (p b) == i).getLast? with
      | none => rfl
      | some other => exact funext (h.covers other b)
    · rw [if_neg hplace, if_neg hplace, Function.comp_id]

/-- An item is as it was where no update comes to it, or else changed by one that it is for. -/
theorem getElem?_updateEach_cases (h : IsOverwriting p f) (bs : List β) (ha : s[i]? = some a) :
    ((∀ b ∈ bs, s.findIdx (p b) ≠ i) ∧ (updateEach p f bs s)[i]? = some a) ∨
      ∃ b ∈ bs, s.findIdx (p b) = i ∧ p b a = true ∧ (updateEach p f bs s)[i]? = some (f b a) := by
  rw [h.getElem?_updateEach, ha]
  cases hlast : lastAt p s i bs with
  | none =>
    refine .inl ⟨fun b hb hplace => ?_, rfl⟩
    have hnone := List.getLast?_eq_none_iff.1 hlast
    exact List.filter_eq_nil_iff.1 hnone b hb (beq_iff_eq.2 hplace)
  | some b =>
    obtain ⟨hb, hplace⟩ := List.mem_filter.1 (List.mem_of_getLast? hlast)
    have hplace : s.findIdx (p b) = i := beq_iff_eq.1 hplace
    obtain ⟨hi, rfl⟩ := List.getElem?_eq_some_iff.1 ha
    exact .inr ⟨b, hb, hplace, ((List.findIdx_eq hi).1 hplace).1, rfl⟩

/-- To work off the updates once more changes nothing. -/
theorem updateEach_updateEach (h : IsOverwriting p f) :
    updateEach p f bs (updateEach p f bs s) = updateEach p f bs s := by
  -- The last one that comes to a place is the same in both rounds, and has done its work already.
  apply List.ext_getElem?
  intro i
  rw [h.getElem?_updateEach, h.lastAt_updateEach, h.getElem?_updateEach, Option.map_map]
  congr 1
  cases lastAt p s i bs with
  | none => rfl
  | some b => exact funext (h.covers b b)

end IsOverwriting

end several

end TypeCatalog.Source
