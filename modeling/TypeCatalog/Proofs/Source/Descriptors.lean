import TypeCatalog.Proofs.Catalog.Signature
import TypeCatalog.Proofs.Path
import TypeCatalog.Proofs.Source.Annotation

/-! # Descriptors that a member admits

    The descriptor of a method is one text, in which the erased types of the parameters stand one
    right after the other. It is cut into these types wherever they end, and each is compared with
    the type of the parameter at its place. So a member admits a descriptor exactly if there are as
    many types as parameters and each type fits its parameter: the same dimensions, and the keyword
    of a primitive type, the name of a type variable, or the last part of the name of a class. -/

set_option autoImplicit false

namespace TypeCatalog

/-! ## Section 1: The text of a descriptor -/

/-- The characters of an erased type without dimensions. -/
def ErasedElement.chars : ErasedElement → List Char
  | primitive p => [p.letter]
  | classType name _ => 'L' :: name.toList ++ [';']

namespace ErasedType

/-- The characters of an erased type: one bracket for each dimension before its element. -/
def chars (e : ErasedType) : List Char := List.replicate e.dimensions '[' ++ e.element.chars

/-- The text of a descriptor with the given parameters, in front of the text of its result. -/
def descriptorText (parameters : List ErasedType) (result : String) : String :=
  String.ofList ('(' :: (parameters.flatMap chars ++ ')' :: result.toList))

theorem toList_descriptor (e : ErasedType) : e.descriptor.toList = e.chars := by
  obtain ⟨element, n⟩ := e
  rw [descriptor, signature, TypeSignature.text, String.toList_ofList, chars_ofDimensions]
  cases element <;> rfl

theorem text_mk_descriptors (parameters : List ErasedType) (result : String) :
    (MethodSignature.mk [] (parameters.map descriptor) result []).text =
      descriptorText parameters result := by
  rw [← String.toList_inj, MethodSignature.toList_text, descriptorText, String.toList_ofList,
    List.flatMap_map]
  simp [toList_descriptor, TypeVariable.listText]

/-- The types are found in the text again, whatever the result is. -/
theorem parse_descriptorText (parameters : List ErasedType) {result : String}
    (hresult : ∃ t, TypeSignature.parse result = .ok t) :
    MethodSignature.parse (descriptorText parameters result) =
      .ok ⟨[], parameters.map descriptor, result, []⟩ := by
  rw [MethodSignature.parse_eq_ok_iff]
  refine ⟨⟨by simp, ?_, hresult, by simp⟩, text_mk_descriptors parameters result⟩
  intro text htext
  obtain ⟨e, -, rfl⟩ := List.mem_map.1 htext
  exact ⟨_, e.parse_descriptor⟩

end ErasedType

namespace Source

/-! ## Section 2: The last part of a name -/

/-- What stands after the last slash or dollar sign of a name. -/
def IsLastPart (name part : List Char) : Prop :=
  ∃ front, name = front ++ part ∧ '/' ∉ part ∧ '$' ∉ part ∧
    (front = [] ∨ front.getLast? = some '/' ∨ front.getLast? = some '$')

section lists

variable {separator : Char} {s s' : List Char}

/-- What has no separator is all after the last one. -/
theorem afterLast_append (h : separator ∉ s') :
    Text.afterLast separator (s ++ s') = Text.afterLast separator s ++ s' := by
  have hall : ∀ c ∈ s'.reverse, (c != separator) = true := by
    intro c hc
    rw [bne_iff_ne]
    rintro rfl
    exact h (List.mem_reverse.1 hc)
  rw [Text.afterLast, Text.afterLast, List.reverse_append, List.takeWhile_append_of_pos hall,
    List.reverse_append, List.reverse_reverse]

theorem afterLast_of_notMem (h : separator ∉ s) : Text.afterLast separator s = s :=
  afterLast_append (s := []) h

/-- A text is cut at its last separator, or has none. -/
theorem afterLast_cases (separator : Char) (s : List Char) :
    separator ∉ Text.afterLast separator s ∧
      (Text.afterLast separator s = s ∨
        ∃ front, s = front ++ separator :: Text.afterLast separator s) := by
  refine ⟨?_, ?_⟩
  · intro hmem
    rw [Text.afterLast, List.mem_reverse] at hmem
    exact absurd (Text.of_mem_takeWhile hmem) (by simp)
  · by_cases h : separator ∈ s
    · exact .inr ⟨_, (Text.beforeLast_append_afterLast h).symm⟩
    · exact .inl (afterLast_of_notMem h)

end lists

theorem isLastPart_lastPart (name : String) : IsLastPart name.toList (lastPart name).toList := by
  have hpart : (lastPart name).toList = Text.afterLast '$' (Text.afterLast '/' name.toList) :=
    String.toList_ofList
  obtain ⟨hslash, hcut⟩ := afterLast_cases '/' name.toList
  obtain ⟨hdollar, hcut'⟩ := afterLast_cases '$' (Text.afterLast '/' name.toList)
  rw [hpart]
  generalize Text.afterLast '/' name.toList = tail at *
  generalize Text.afterLast '$' tail = part at *
  rcases hcut' with rfl | ⟨front', htail⟩
  · -- No dollar sign follows the last slash, if there is one.
    rcases hcut with h | ⟨front, hname⟩
    · exact ⟨[], h.symm, hslash, hdollar, .inl rfl⟩
    · exact ⟨front ++ ['/'], by simp [hname], hslash, hdollar, .inr (.inl (by simp))⟩
  · have hslash' : '/' ∉ part := fun hmem => hslash (by simp [htail, hmem])
    rcases hcut with h | ⟨front, hname⟩
    · exact ⟨front' ++ ['$'], by simp [← h, htail], hslash', hdollar, .inr (.inr (by simp))⟩
    · refine ⟨front ++ '/' :: front' ++ ['$'], ?_, hslash', hdollar,
        .inr (.inr List.getLast?_concat)⟩
      rw [hname, htail]
      simp

/-- A name has one last part. -/
theorem lastPart_eq_iff (name part : String) :
    lastPart name = part ↔ IsLastPart name.toList part.toList := by
  constructor
  · rintro rfl
    exact isLastPart_lastPart name
  · rintro ⟨front, hname, hslash, hdollar, hfront⟩
    rw [← String.toList_inj, lastPart, String.toList_ofList, hname]
    rcases hfront with rfl | hfront | hfront
    · rw [List.nil_append, afterLast_of_notMem hslash, afterLast_of_notMem hdollar]
    · obtain ⟨f, rfl⟩ := List.getLast?_eq_some_iff.1 hfront
      rw [List.append_assoc, List.singleton_append, Text.afterLast_append_cons f hslash,
        afterLast_of_notMem hdollar]
    · obtain ⟨f, rfl⟩ := List.getLast?_eq_some_iff.1 hfront
      have hcons : '/' ∉ '$' :: part.toList := by simp [hslash]
      rw [List.append_assoc, List.singleton_append, afterLast_append hcons,
        Text.afterLast_append_cons _ hdollar]

/-! ## Section 3: Parameters and their descriptors -/

/-- An erased type fits a type as it is written, where the scope has the names of the type variables
    of the member and of the type around it. -/
def WrittenType.Fits (scope : List String) (t : WrittenType) (e : ErasedType) : Prop :=
  e.dimensions = t.dimensions ∧
    match e.element with
    | .primitive p => t.name = p.keyword
    | .classType name _ => t.name ∈ scope ∨ IsLastPart name.toList t.name.toList

theorem WrittenType.erasesTo_iff_fits (scope : List String) (t : WrittenType) (e : ErasedType) :
    t.ErasesTo scope e ↔ t.Fits scope e := by
  unfold ErasesTo Fits
  refine and_congr_right fun _ => ?_
  cases e.element with
  | primitive p => exact eq_comm
  | classType name legal => exact or_congr_right (lastPart_eq_iff name t.name)

/-- A member admits a descriptor exactly if its parameters are as many as the types in it, and each
    of these fits the parameter at its place. -/
theorem Member.admits_descriptorText_iff (m : Member) (outer : List String)
    (es : List ErasedType) {result : String} (hresult : ∃ t, TypeSignature.parse result = .ok t) :
    m.admits outer (ErasedType.descriptorText es result) = true ↔
      es.length = m.parameters.length ∧
        ∀ i (hp : i < m.parameters.length) (he : i < es.length),
          m.parameters[i].type.Fits (m.typeVariables ++ outer) es[i] := by
  unfold admits
  rw [ErasedType.parse_descriptorText es hresult]
  have hlist := admitParameters_descriptors_iff (m.typeVariables ++ outer) m.parameters es
  refine hlist.trans ?_
  rw [List.forall₂_iff_get, eq_comm (a := m.parameters.length)]
  simp only [WrittenType.erasesTo_iff_fits]
  rfl

/-- The member `<T> void f(T[] xs, int n, Entry e)` admits a descriptor with any class for `T` and
    an entry of any package. -/
theorem admits_descriptorText_entry :
    let m : Member := ⟨.method, "f", "", ["T"],
      [⟨"xs", ⟨"T", 1⟩⟩, ⟨"n", ⟨"int", 0⟩⟩, ⟨"e", ⟨"Entry", 0⟩⟩]⟩
    m.admits [] "([Ljava/lang/Number;ILjava/util/Map$Entry;)V" = true := by
  intro m
  have hresult : ∃ t, TypeSignature.parse "V" = .ok t :=
    ⟨_, (⟨.primitive .void, 0⟩ : ErasedType).parse_descriptor⟩
  have hnumber : Signature.IsClassName "java/lang/Number" := by simp [Signature.IsName]
  have hentry : Signature.IsClassName "java/util/Map$Entry" := by simp [Signature.IsName]
  have hiff := Member.admits_descriptorText_iff m []
    [⟨.classType _ hnumber, 1⟩, ⟨.primitive .int, 0⟩, ⟨.classType _ hentry, 0⟩] hresult
  refine hiff.2 ⟨rfl, ?_⟩
  intro i hp he
  match i with
  | 0 => exact ⟨rfl, .inl List.mem_cons_self⟩
  | 1 => exact ⟨rfl, rfl⟩
  | 2 =>
    have hlast : IsLastPart "java/util/Map$Entry".toList "Entry".toList :=
      ⟨"java/util/Map$".toList, by decide +kernel, by decide, by decide,
        .inr (.inr (by decide +kernel))⟩
    exact ⟨rfl, .inr hlast⟩

end Source

end TypeCatalog
