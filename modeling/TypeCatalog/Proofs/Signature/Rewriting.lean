import Mathlib.Data.List.Forall2
import TypeCatalog.Proofs.Signature.Declaration
import TypeCatalog.Proofs.Signature.Search

/-! # Rewritten signatures of methods

    The signature of a method is rewritten part by part: in each of its types texts stand in place
    of some of the variables, and the variables it declares may get other names. If the texts are
    types, what comes out is the signature of a method again. The search over the whole text
    rewrites the parts, as long as it stays aligned with them. -/

set_option autoImplicit false

namespace TypeCatalog

open Signature

/-! ## Section 1: Rewriting -/

section rewritten

variable (naming : String → String) (lookup : String → Option String)

/-- The text of a type, and the same with texts in place of the variables that `lookup` knows. -/
def Signature.IsReplacement (text text' : String) : Prop :=
  ∃ x : TypeSpelling, x.WellFormed ∧ x.text = text ∧ x.replacedText lookup = text'

/-- A bound with its type rewritten. -/
structure Bound.Rewritten (b b' : Bound) : Prop where
  kind : b'.kind = b.kind
  signature : IsReplacement lookup b.signature b'.signature

/-- A declared type variable under its new name, with its bounds rewritten. -/
structure TypeVariable.Rewritten (v v' : TypeVariable) : Prop where
  name : v'.name = naming v.name
  bounds : List.Forall₂ (Bound.Rewritten lookup) v.bounds v'.bounds

/-- A signature with all its parts rewritten and nothing else changed. -/
structure MethodSignature.Rewritten (m m' : MethodSignature) : Prop where
  typeVariables :
    List.Forall₂ (TypeVariable.Rewritten naming lookup) m.typeVariables m'.typeVariables
  parameters : List.Forall₂ (IsReplacement lookup) m.parameters m'.parameters
  result : IsReplacement lookup m.result m'.result
  exceptions : List.Forall₂ (IsReplacement lookup) m.exceptions m'.exceptions

end rewritten

variable {naming : String → String} {lookup : String → Option String}

/-- Texts that are types are read as types. -/
theorem ReadsAs.of_isTypeText (h : ∀ name text, lookup name = some text → IsTypeText text) :
    ReadsAs lookup fun name =>
      (lookup name).bind fun text => (TypeSignature.parse text).toOption := by
  intro name
  cases htext : lookup name with
  | none =>
    simp only [htext]
    exact .none
  | some text =>
    obtain ⟨t, ht⟩ := h name text htext
    simp only [htext, Option.bind_some, ht]
    exact .some ht

namespace Signature

/-- A rewritten type is read as the type with the variables replaced. -/
theorem IsReplacement.parse_eq {f : String → Option TypeSignature} (hlookup : ReadsAs lookup f)
    {text text' : String} (h : IsReplacement lookup text text') {t : TypeSignature}
    (ht : TypeSignature.parse text = .ok t) : TypeSignature.parse text' = .ok (t.graft f) := by
  obtain ⟨x, hx, rfl, rfl⟩ := h
  obtain ⟨y, hy, hchars, htype⟩ := hx.exists_replaced hlookup
  have hread : TypeSignature.parse x.text = .ok x.type :=
    TypeSignature.parse_eq_ok_iff_spelled.2 ⟨x, hx, rfl, rfl⟩
  rw [hread] at ht
  cases ht
  exact TypeSignature.parse_eq_ok_iff_spelled.2
    ⟨y, hy, by rw [TypeSpelling.text, hchars, TypeSpelling.replacedText], htype⟩

variable (htexts : ∀ name text, lookup name = some text → IsTypeText text)

include htexts in
theorem IsReplacement.isTypeText {text text' : String} (h : IsReplacement lookup text text') :
    IsTypeText text' := by
  have hread := h
  obtain ⟨x, hx, rfl, -⟩ := hread
  exact ⟨_, h.parse_eq (ReadsAs.of_isTypeText htexts)
    (TypeSignature.parse_eq_ok_iff_spelled.2 ⟨x, hx, rfl, rfl⟩)⟩

end Signature

/-- What the items of a list are related to has a property if each item sees to it. -/
theorem forall_mem_of_forall₂ {α β : Type} {R : α → β → Prop} {P : β → Prop} {as : List α}
    {bs : List β} (h : List.Forall₂ R as bs) (hR : ∀ a ∈ as, ∀ b, R a b → P b) :
    ∀ b ∈ bs, P b := by
  induction h with
  | nil => simp
  | cons hab _ ih =>
    intro b hb
    rcases List.mem_cons.1 hb with rfl | hb
    · exact hR _ List.mem_cons_self _ hab
    · exact ih (fun a ha => hR a (List.mem_cons_of_mem _ ha)) b hb

section wellFormed

variable (htexts : ∀ name text, lookup name = some text → IsTypeText text)

include htexts

theorem TypeVariable.Rewritten.wellFormed {v v' : TypeVariable}
    (h : v.Rewritten naming lookup v') (hv : v.WellFormed)
    (hname : IsDeclaredName (naming v.name)) : v'.WellFormed := by
  refine ⟨h.name ▸ hname, ?_, ?_, ?_⟩
  · intro hnil
    have hbounds := h.bounds
    rw [hnil] at hbounds
    exact hv.bounds.bounded (List.forall₂_nil_right_iff.1 hbounds)
  · exact forall_mem_of_forall₂ h.bounds fun _ _ _ hb => hb.signature.isTypeText htexts
  · have htail := List.forall₂_drop 1 h.bounds
    rw [List.drop_one, List.drop_one] at htail
    exact forall_mem_of_forall₂ htail fun b hb _ hb' =>
      hb'.kind.trans (hv.bounds.interfaces b hb)

/-- A rewritten signature is one. -/
theorem MethodSignature.Rewritten.wellFormed {m m' : MethodSignature}
    (h : m.Rewritten naming lookup m') (hm : m.WellFormed)
    (hnames : ∀ v ∈ m.typeVariables, IsDeclaredName (naming v.name)) : m'.WellFormed where
  typeVariables := forall_mem_of_forall₂ h.typeVariables fun v hv _ hv' =>
    hv'.wellFormed htexts (hm.typeVariables v hv) (hnames v hv)
  parameters := forall_mem_of_forall₂ h.parameters fun _ _ _ ht => ht.isTypeText htexts
  result := h.result.isTypeText htexts
  exceptions := forall_mem_of_forall₂ h.exceptions fun _ _ _ ht => ht.isTypeText htexts

end wellFormed

/-! ## Section 2: The search over a whole signature -/

section searchable

variable (lookup : String → Option String)

/-- A text that is searched as the type it is. -/
def Signature.IsSearchable (text : String) : Prop :=
  ∃ x : TypeSpelling, x.WellFormed ∧ x.text = text ∧ x.Searchable lookup

/-- A declared variable that is searched with its bounds. The search takes an `L` in the name for
    the start of a class, which the first bound has to end. -/
structure TypeVariable.Searchable (v : TypeVariable) : Prop where
  word : ∀ ch ∈ v.name.toList, Text.isWord ch = true
  bounds : ∀ b ∈ v.bounds, IsSearchable lookup b.signature
  closes : 'L' ∈ v.name.toList → ∀ b, v.bounds.head? = some b →
    ∃ x : TypeSpelling, x.WellFormed ∧ x.text = b.signature ∧ x.Closes lookup

/-- A signature whose text is searched part by part. -/
structure MethodSignature.Searchable (m : MethodSignature) : Prop where
  typeVariables : ∀ v ∈ m.typeVariables, v.Searchable lookup
  parameters : ∀ t ∈ m.parameters, IsSearchable lookup t
  result : IsSearchable lookup m.result
  exceptions : ∀ t ∈ m.exceptions, IsSearchable lookup t

/-- In front of any text the search takes `s` to `s'`. -/
def Signature.SearchedTo (s s' : List Char) : Prop :=
  ∀ rest, substituteChars lookup (s ++ rest) = s' ++ substituteChars lookup rest

end searchable

namespace Signature

theorem SearchedTo.nil : SearchedTo lookup [] [] := fun _ => rfl

theorem SearchedTo.append {s s' r r' : List Char} (h : SearchedTo lookup s s')
    (h' : SearchedTo lookup r r') : SearchedTo lookup (s ++ r) (s' ++ r') := by
  intro rest
  rw [List.append_assoc, h, h', List.append_assoc]

theorem SearchedTo.cons {s s' : List Char} (h : SearchedTo lookup s s') (ch : Char)
    (hclass : ch ≠ 'L') (hvariable : ch ≠ 'T') : SearchedTo lookup (ch :: s) (ch :: s') := by
  intro rest
  rw [List.cons_append, substituteChars_cons hclass hvariable, h, List.cons_append]

/-- A list is searched item by item. -/
theorem exists_forall₂_searchedTo {α : Type} {R : α → α → Prop} {text : α → List Char} {as : List α}
    (h : ∀ a ∈ as, ∃ a', R a a' ∧ SearchedTo lookup (text a) (text a')) :
    ∃ as', List.Forall₂ R as as' ∧ SearchedTo lookup (as.flatMap text) (as'.flatMap text) := by
  induction as with
  | nil => exact ⟨[], .nil, .nil⟩
  | cons a as ih =>
    obtain ⟨a', ha, htext⟩ := h a List.mem_cons_self
    obtain ⟨as', has, htexts⟩ := ih fun b hb => h b (List.mem_cons_of_mem a hb)
    exact ⟨a' :: as', .cons ha has, htext.append htexts⟩

theorem IsSearchable.exists_searchedTo {text : String} (h : IsSearchable lookup text) :
    ∃ text', IsReplacement lookup text text' ∧ SearchedTo lookup text.toList text'.toList := by
  obtain ⟨x, hx, rfl, hsearch⟩ := h
  refine ⟨x.replacedText lookup, ⟨x, hx, rfl, rfl⟩, ?_⟩
  rw [TypeSpelling.text, TypeSpelling.replacedText, String.toList_ofList, String.toList_ofList]
  exact hx.substituteChars_append hsearch

end Signature

/-- What marks a bound of a kind. -/
def BoundKind.marks : BoundKind → List Char
  | .classBound => []
  | .interfaceBound => [':']

theorem Bound.toList_text (b : Bound) : b.text.toList = b.kind.marks ++ b.signature.toList := by
  obtain ⟨kind, signature⟩ := b
  cases kind with
  | classBound => rfl
  | interfaceBound => exact Bound.toList_text_interface signature

/-- A bound is searched in the open, and if its type closes a name, inside the name of a class. -/
theorem Bound.exists_searchedTo {b : Bound} (h : IsSearchable lookup b.signature) :
    ∃ b', b.Rewritten lookup b' ∧ SearchedTo lookup b.text.toList b'.text.toList ∧
      ((∃ x : TypeSpelling, x.WellFormed ∧ x.text = b.signature ∧ x.Closes lookup) →
        ∀ run, IsClassRun run →
          SearchedTo lookup ('L' :: run ++ b.text.toList) ('L' :: run ++ b'.text.toList)) := by
  obtain ⟨text', hreplaced, htext⟩ := h.exists_searchedTo
  refine ⟨⟨b.kind, text'⟩, ⟨rfl, hreplaced⟩, ?_, ?_⟩
  · rw [Bound.toList_text, Bound.toList_text]
    cases b.kind with
    | classBound => exact htext
    | interfaceBound => exact htext.cons ':' (by decide) (by decide)
  · rintro ⟨y, hy, hytext, hcloses⟩ run hrun rest
    obtain ⟨x, hx, hxtext, hsearch⟩ := h
    obtain ⟨z, hz, hztext, rfl⟩ := hreplaced
    -- All three spell the same bound.
    obtain rfl := hx.eq_of_text_eq hy (hxtext.trans hytext.symm)
    obtain rfl := hx.eq_of_text_eq hz (hxtext.trans hztext.symm)
    have hmarks : IsClassRun (run ++ b.kind.marks) := hrun.append (by
      cases b.kind <;> simp [BoundKind.marks, IsClassRun])
    have hclass := hx.substituteChars_inside hsearch hcloses hmarks rest
    simpa [Bound.toList_text, ← hxtext, TypeSpelling.text, TypeSpelling.replacedText] using hclass

theorem TypeVariable.exists_searchedTo {v : TypeVariable} (hv : v.WellFormed)
    (h : v.Searchable lookup) :
    ∃ v', v.Rewritten id lookup v' ∧ SearchedTo lookup v.text.toList v'.text.toList := by
  obtain ⟨name, bounds⟩ := v
  cases bounds with
  | nil => exact absurd rfl hv.bounds.bounded
  | cons b others =>
    obtain ⟨b', hb, hopen, hinside⟩ := Bound.exists_searchedTo (h.bounds b List.mem_cons_self)
    obtain ⟨others', hothers, hrest⟩ : ∃ bs, List.Forall₂ (Bound.Rewritten lookup) others bs ∧
        SearchedTo lookup (others.flatMap fun b => b.text.toList)
          (bs.flatMap fun b => b.text.toList) := by
      apply exists_forall₂_searchedTo
      intro c hc
      obtain ⟨c', hc', htext, -⟩ :=
        Bound.exists_searchedTo (h.bounds c (List.mem_cons_of_mem b hc))
      exact ⟨c', hc', htext⟩
    have hrun : IsClassRun name.toList := .of_isWord h.word
    refine ⟨⟨name, b' :: others'⟩, ⟨rfl, .cons hb hothers⟩, ?_⟩
    intro rest
    simp only [TypeVariable.toList_text, List.flatMap_cons, List.append_assoc]
    apply substituteChars_word
    · exact ((hopen.append hrest).cons ':' (by decide) (by decide)) rest
    · -- What starts at an `L` in the name goes on over the colon and is ended by the first bound.
      intro before after hname _
      have hmem : 'L' ∈ name.toList := by simp [hname]
      have hword : IsClassRun after := fun x hx => hrun x (by simp [hname, hx])
      have hafter := (hinside (h.closes hmem b rfl) (after ++ [':'])
        (hword.append (by simp [IsClassRun]))).append hrest rest
      simpa using hafter
    · -- No reference ends in a colon.
      intro after hafter
      left
      apply referenceName?_eq_none
      · intro hmem
        exact hrun ';' (hafter.subset (List.mem_cons_of_mem 'T' hmem)) (by decide)
      · decide +kernel
      · intro hcolon
        exact absurd hcolon (by decide)

/-- The search over the text of a signature gives the text of the rewritten signature. -/
theorem MethodSignature.exists_rewritten {m : MethodSignature} (hm : m.WellFormed)
    (h : m.Searchable lookup) :
    ∃ m', m.Rewritten id lookup m' ∧ substitute lookup m.text = m'.text := by
  obtain ⟨vs, hvs, hvstext⟩ := exists_forall₂_searchedTo fun v hv =>
    TypeVariable.exists_searchedTo (hm.typeVariables v hv) (h.typeVariables v hv)
  obtain ⟨ps, hps, hpstext⟩ :=
    exists_forall₂_searchedTo fun t ht => (h.parameters t ht).exists_searchedTo
  obtain ⟨r, hr, hrtext⟩ := h.result.exists_searchedTo
  obtain ⟨es, hes, hestext⟩ : ∃ es, List.Forall₂ (IsReplacement lookup) m.exceptions es ∧
      SearchedTo lookup (m.exceptions.flatMap fun t => '^' :: t.toList)
        (es.flatMap fun t => '^' :: t.toList) := by
    apply exists_forall₂_searchedTo
    intro t ht
    obtain ⟨t', hreplaced, htext⟩ := (h.exceptions t ht).exists_searchedTo
    exact ⟨t', hreplaced, htext.cons '^' (by decide) (by decide)⟩
  refine ⟨⟨vs, ps, r, es⟩, ⟨hvs, hps, hr, hes⟩, ?_⟩
  have hlist : SearchedTo lookup (TypeVariable.listText m.typeVariables).toList
      (TypeVariable.listText vs).toList := by
    by_cases hne : m.typeVariables = []
    · rw [hne, List.forall₂_nil_left_iff] at hvs
      rw [hne, hvs]
      exact .nil
    · have hne' : vs ≠ [] := by
        rintro rfl
        exact hne (List.forall₂_nil_right_iff.1 hvs)
      rw [TypeVariable.toList_listText hne, TypeVariable.toList_listText hne']
      exact (hvstext.append (SearchedTo.nil.cons '>' (by decide) (by decide))).cons '<' (by decide)
        (by decide)
  have hdescriptor := (hrtext.append hestext).cons ')' (by decide) (by decide)
  have hwhole := hlist.append ((hpstext.append hdescriptor).cons '(' (by decide) (by decide)) []
  rw [← String.toList_inj, toList_substitute, MethodSignature.toList_text,
    MethodSignature.toList_text]
  simpa [substituteChars_nil] using hwhole

end TypeCatalog
