import TypeCatalog.Proofs.Signature.Declaration

/-! # Lists of types

    In a list of types nothing stands between the parts: a part ends where its type does. No text
    that is a type is the beginning of another one, so a list can be cut into its parts in one way
    only.

    * `outcome_part_eq_ok_iff`: the reader of a part takes the texts that are parts, and all of
      them, whatever follows.
    * `parts_sound` and `parts_complete`: the reader of a list gives the parts that it is joined
      from. -/

set_option autoImplicit false

namespace TypeCatalog

namespace Signature

/-! ## Section 1: Parts -/

/-- A text that can stand in a list of types. -/
inductive IsPartText : String → Prop
  /-- The wildcard that stands for any type. -/
  | any : IsPartText "*"
  /-- A type that is an upper bound. -/
  | upper {text : String} : IsTypeText text → IsPartText ("+" ++ text)
  /-- A type that is a lower bound. -/
  | lower {text : String} : IsTypeText text → IsPartText ("-" ++ text)
  /-- A type by itself. -/
  | exactly {text : String} : IsTypeText text → IsPartText text

/-- The parts are the texts of type arguments. -/
theorem isPartText_iff {text : String} : IsPartText text ↔ ∃ a, IsArgument text.toList a := by
  constructor
  · intro h
    cases h with
    | any => exact ⟨.any, .any⟩
    | upper h =>
      obtain ⟨t, ht⟩ := h
      rw [String.toList_append]
      exact ⟨.upper t, .upper (parse_eq_ok_iff.1 ht)⟩
    | lower h =>
      obtain ⟨t, ht⟩ := h
      rw [String.toList_append]
      exact ⟨.lower t, .lower (parse_eq_ok_iff.1 ht)⟩
    | exactly h =>
      obtain ⟨t, ht⟩ := h
      exact ⟨.exactly t, .exactly (parse_eq_ok_iff.1 ht)⟩
  · intro ⟨a, ha⟩
    have htype : ∀ {s : List Char} {t : TypeSignature}, IsType s t → IsTypeText (String.ofList s) :=
      fun h => ⟨_, parse_eq_ok_iff.2 (by rwa [String.toList_ofList])⟩
    have htext : text = String.ofList text.toList := String.ofList_toList.symm
    generalize text.toList = s at ha htext
    subst htext
    cases ha with
    | any => exact .any
    | @upper s _ h =>
      have hmark : String.ofList ('+' :: s) = "+" ++ String.ofList s := by
        simp
      rw [hmark]
      exact .upper (htype h)
    | @lower s _ h =>
      have hmark : String.ofList ('-' :: s) = "-" ++ String.ofList s := by
        simp
      rw [hmark]
      exact .lower (htype h)
    | exactly h => exact .exactly (htype h)

/-- No part is empty. -/
theorem IsPartText.eq_cons {text : String} (h : IsPartText text) :
    ∃ c r, text.toList = c :: r := by
  obtain ⟨a, ha⟩ := isPartText_iff.1 h
  obtain ⟨c, r, hs, -⟩ := ha.eq_cons
  exact ⟨c, r, hs⟩

/-! ## Section 2: The reader of a part -/

/-- Where something is left, a part is read as a type argument is. -/
theorem outcome_part (c : Char) (r : List Char) :
    (part (c :: r)).outcome = (argument (c :: r)).outcome.map fun (_, left) => ((), left) := by
  by_cases ha : c = '*'
  · subst ha
    rw [part, argument]
    rfl
  by_cases hu : c = '+'
  · subst hu
    rw [part, outcome_argument_upper]
    cases type r <;> rfl
  by_cases hl : c = '-'
  · subst hl
    rw [part, outcome_argument_lower]
    cases type r <;> rfl
  · rw [part, outcome_argument_exactly r ha hu hl]
    · cases type (c :: r) <;> rfl
    · simpa using ha
    · simpa using hu
    · simpa using hl

/-- The reader takes the texts that are parts, and all of them. -/
theorem outcome_part_eq_ok_iff {c : Char} {r left : List Char} :
    (part (c :: r)).outcome = .ok ((), left) ↔
      ∃ text, IsPartText text ∧ c :: r = text.toList ++ left := by
  rw [outcome_part]
  constructor
  · intro h
    obtain ⟨⟨a, mid⟩, ha, heq⟩ := map_eq_ok.1 h
    cases heq
    obtain ⟨w, hs, hw⟩ := argument_sound ha
    refine ⟨String.ofList w, isPartText_iff.2 ⟨a, ?_⟩, ?_⟩
    · rwa [String.toList_ofList]
    · rw [hs, String.toList_ofList]
  · intro ⟨text, htext, hs⟩
    obtain ⟨a, ha⟩ := isPartText_iff.1 htext
    rw [hs, argument_complete ha left]
    rfl

/-! ## Section 3: The reader of a list -/

theorem parts_cons (c : Char) (r : List Char) :
    parts (c :: r) = (part (c :: r)).outcome.bind fun (_, left) =>
      (parts left).map fun texts => String.ofList (takenBefore (c :: r) left) :: texts := by
  rw [parts]
  refine Reading.bind_congr fun _ left => ?_
  cases parts left.left <;> rfl

/-- The measure is the length of the list, of which every part takes some. -/
theorem parts_sound {s : List Char} {texts : List String} (h : parts s = .ok texts) :
    (∀ t ∈ texts, IsPartText t) ∧ s = texts.flatMap String.toList := by
  rcases hs : s with _ | ⟨c, r⟩
  · rw [hs, parts] at h
    cases h
    simp
  · rw [hs, parts_cons] at h
    obtain ⟨⟨u, left⟩, hpart, h⟩ := bind_eq_ok.1 h
    obtain ⟨others, hmore, rfl⟩ := map_eq_ok.1 h
    have hlength : left.length < s.length := hs ▸ Reading.length_lt hpart
    obtain ⟨text, htext, hsplit⟩ := outcome_part_eq_ok_iff.1 hpart
    obtain ⟨hothers, hleft⟩ := parts_sound hmore
    -- What the reader cuts out is the part that it has read.
    have hcut : String.ofList (takenBefore (c :: r) left) = text := by
      rw [hsplit, takenBefore_append_right, String.ofList_toList]
    simp only [hcut]
    constructor
    · intro t ht
      rcases List.mem_cons.1 ht with rfl | ht
      · exact htext
      · exact hothers t ht
    · rw [hsplit, List.flatMap_cons, ← hleft]
termination_by s.length

theorem parts_complete {texts : List String} (h : ∀ t ∈ texts, IsPartText t) :
    parts (texts.flatMap String.toList) = .ok texts := by
  induction texts with
  | nil => rw [List.flatMap_nil, parts]
  | cons text texts ih =>
    have htext := h text List.mem_cons_self
    have hmore := ih fun t ht => h t (List.mem_cons_of_mem text ht)
    obtain ⟨c, r, hstart⟩ := htext.eq_cons
    have hread : (part (c :: r ++ texts.flatMap String.toList)).outcome =
        .ok ((), texts.flatMap String.toList) :=
      outcome_part_eq_ok_iff.2 ⟨text, htext, by rw [hstart]; rfl⟩
    rw [List.flatMap_cons, hstart, List.cons_append, parts_cons]
    rw [List.cons_append] at hread
    simp only [hread, Except.bind, hmore, Except.map]
    rw [← List.cons_append, ← hstart, takenBefore_append_right, String.ofList_toList]

/-- No text that is a type goes on to another one. -/
theorem IsTypeText.eq_empty_of_append {text rest : String} (h : IsTypeText text)
    (hlonger : IsTypeText (text ++ rest)) : rest = "" := by
  obtain ⟨t, ht⟩ := h
  obtain ⟨u, hu⟩ := hlonger
  have hread := type_complete (parse_eq_ok_iff.1 ht) rest.toList
  have hwhole := type_complete (parse_eq_ok_iff.1 hu) []
  rw [List.append_nil, String.toList_append, hread] at hwhole
  have hrest : rest.toList = [] := (Prod.mk.inj (Except.ok.inj hwhole)).2
  exact String.toList_eq_nil_iff.1 hrest

end Signature

open Signature

/-! ## Section 4: Whole texts -/

theorem splitSignatures_eq_ok_iff {text : String} {texts : List String} :
    splitSignatures text = .ok texts ↔ (∀ t ∈ texts, IsPartText t) ∧ String.join texts = text := by
  have hjoin : String.join texts = text ↔ text.toList = texts.flatMap String.toList := by
    rw [← String.toList_inj, eq_comm]
    simp
  rw [splitSignatures, run, mapError_eq_ok, hjoin]
  constructor
  · intro h
    exact parts_sound h
  · intro ⟨hparts, htext⟩
    rw [htext]
    exact parts_complete hparts

/-- Parts that are put together are split into the same parts again, and a text that is split is the
    parts put together, each of them the mark `*`, a type after the mark of a bound, or a type. No
    type is the beginning of a longer one. -/
theorem splitSignatures_join :
    (∀ texts : List String, (∀ t ∈ texts, IsPartText t) →
      splitSignatures (String.join texts) = .ok texts) ∧
    (∀ (text : String) (texts : List String), splitSignatures text = .ok texts →
      String.join texts = text ∧ ∀ t ∈ texts, IsPartText t) ∧
    (∀ text rest : String, IsTypeText text → IsTypeText (text ++ rest) → rest = "") := by
  refine ⟨?_, ?_, ?_⟩
  · intro texts hparts
    exact splitSignatures_eq_ok_iff.2 ⟨hparts, rfl⟩
  · intro text texts h
    obtain ⟨hparts, hjoin⟩ := splitSignatures_eq_ok_iff.1 h
    exact ⟨hjoin, hparts⟩
  · intro text rest h hlonger
    exact h.eq_empty_of_append hlonger

example : splitSignatures "I[[JLMap<TK;+LNumber;>;TT;*" =
    .ok ["I", "[[J", "LMap<TK;+LNumber;>;", "TT;", "*"] := by cbv

end TypeCatalog
