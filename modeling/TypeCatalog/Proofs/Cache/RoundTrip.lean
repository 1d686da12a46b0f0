import TypeCatalog.Library.Classes
import TypeCatalog.Proofs.Json.RoundTrip

/-! # Cache entries are read back

    An object holds its members under distinct names, so what is looked up is what was written under
    the name, or nothing where an empty text, an empty list or a missing signature was left out.
    There the reader fills in what the writer left out. Each record is read back by itself, the
    lists and records around it follow, and at the end the document of a cache. -/

set_option autoImplicit false

namespace TypeCatalog.Cache

/-! ## Section 1: Writing and reading back -/

/-- What is written nests at most that many levels deep, and it is read back. -/
structure Codes {α : Type} (levels : Nat) (write : α → Json) (read : Json → Option α) : Prop where
  /-- The text of what is written can be read. -/
  plain (a : α) {depth : Nat} (h : levels ≤ depth) : (write a).Plain depth
  /-- The value is read back. -/
  back (a : α) : read (write a) = some a

section lists

variable {α : Type} {levels : Nat} {write : α → Json} {read : Json → Option α}

theorem Codes.allPlain (hc : Codes levels write read) (xs : List α) {depth : Nat}
    (h : levels ≤ depth) : Json.AllPlain (xs.map write) depth := by
  induction xs with
  | nil => trivial
  | cons x xs ih => exact ⟨hc.plain x h, ih⟩

theorem Codes.mapM_map (hc : Codes levels write read) (xs : List α) :
    (xs.map write).mapM read = some xs := by
  induction xs with
  | nil => rfl
  | cons x xs ih =>
    rw [List.map_cons, List.mapM_cons, hc.back, ih]
    rfl

/-- A list is written as an array, one level around its items. -/
theorem Codes.list (hc : Codes levels write read) :
    Codes (levels + 1) (fun xs : List α => .array (xs.map write)) (items read) where
  plain xs depth h := by
    obtain ⟨below, rfl⟩ := Nat.exists_eq_add_of_le' (Nat.le_of_add_left_le h)
    exact ⟨below, rfl, hc.allPlain xs (by omega)⟩
  back xs := hc.mapM_map xs

end lists

theorem codes_string : Codes 0 Json.string Json.string? where
  plain _ _ _ := trivial
  back _ := rfl

theorem codes_strings : Codes 1 ofStrings (items Json.string?) :=
  codes_string.list

theorem codes_u16 : Codes 0 (fun n : UInt16 => .integer n.toNat) u16? where
  plain n _ _ := by
    have hlt := n.toNat_lt
    constructor <;> omega
  back n := by
    have hlt : n.toNat < 0x10000 := n.toNat_lt
    show (if n.toNat < 0x10000 then some n.toNat else none).map UInt16.ofNat = some n
    rw [if_pos hlt, Option.map_some, UInt16.ofNat_toNat]

theorem codes_u8 : Codes 0 (fun n : UInt8 => .integer n.toNat) u8? where
  plain n _ _ := by
    have hlt := n.toNat_lt
    constructor <;> omega
  back n := by
    have hlt : n.toNat < 0x100 := n.toNat_lt
    show (if n.toNat < 0x100 then some n.toNat else none).map UInt8.ofNat = some n
    rw [if_pos hlt, Option.map_some, UInt8.ofNat_toNat]

theorem codes_optional : Codes 0 ofOptional optional? where
  plain name _ _ := by
    cases name with
    | none => trivial
    | some text => trivial
  back name := by
    cases name with
    | none => rfl
    | some text => rfl

/-! ## Section 2: Members of objects -/

section members

variable {α : Type} {levels depth position : Nat} {write : α → Json} {read : Json → Option α}
  {name other : String} {members before after : List (String × Json)}

/-- What is written last under a name is found. -/
@[simp]
theorem lookup?_append : Json.lookup? name (before ++ after) =
    (Json.lookup? name after).or (Json.lookup? name before) := by
  simp only [Json.lookup?, List.reverse_append, List.find?_append]
  cases after.reverse.find? fun m => m.1 == name with
  | none => rfl
  | some m => rfl

@[simp]
theorem lookup?_nil : Json.lookup? name [] = none := rfl

@[simp]
theorem lookup?_member (value : Json) :
    Json.lookup? name (member other value) = if other = name then some value else none := by
  by_cases h : other = name
  · simp [Json.lookup?, member, h]
  · simp [Json.lookup?, member, h]

@[simp]
theorem lookup?_textMember (text : String) : Json.lookup? name (textMember other text) =
    if other = name ∧ text ≠ "" then some (.string text) else none := by
  unfold textMember
  by_cases htext : text = ""
  · simp [htext, lookup?_nil]
  · simp [htext, lookup?_member]

@[simp]
theorem membersPlain_append : Json.MembersPlain (before ++ after) depth ↔
    Json.MembersPlain before depth ∧ Json.MembersPlain after depth := by
  induction before with
  | nil => simp [Json.MembersPlain]
  | cons m before ih =>
    obtain ⟨name, item⟩ := m
    simp only [List.cons_append, Json.MembersPlain, ih, and_assoc]

@[simp]
theorem membersPlain_member {value : Json} :
    Json.MembersPlain (member name value) depth ↔ value.Plain depth := by
  simp [member, Json.MembersPlain]

@[simp]
theorem membersPlain_textMember (text : String) :
    Json.MembersPlain (textMember name text) depth := by
  unfold textMember
  split
  · trivial
  · exact membersPlain_member.2 trivial

/-- An object nests one level more than its members. -/
theorem plain_object (h : ∀ depth, levels ≤ depth → Json.MembersPlain members depth)
    (hdepth : levels + 1 ≤ depth) : (Json.object members).Plain depth := by
  obtain ⟨below, rfl⟩ := Nat.exists_eq_add_of_le' (Nat.le_of_add_left_le hdepth)
  exact ⟨below, rfl, h below (by omega)⟩

/-! ## Section 3: Fields of records -/

theorem required_eq (hc : Codes levels write read) {a : α}
    (h : Json.lookup? name members = some (write a)) :
    required position name read (.object members) = some a := by
  rw [required, slot?, h]
  exact hc.back a

theorem defaulted_eq (hc : Codes levels write read) {a default : α}
    (h : Json.lookup? name members = some (write a) ∨
      Json.lookup? name members = none ∧ a = default) :
    defaulted position name default read (.object members) = some a := by
  obtain h | ⟨h, rfl⟩ := h
  · rw [defaulted, slot?, h]
    exact hc.back a
  · rw [defaulted, slot?, h]

theorem nullable_eq {text : Option String}
    (h : Json.lookup? name members = some (ofOptional text)) :
    nullable position name (.object members) = some text := by
  have hslot : slot? position name (.object members) = some (ofOptional text) := h
  unfold nullable
  rw [hslot]
  exact codes_optional.back text

end members

/-! ## Section 4: Records -/

theorem codes_flags : Codes 1 ofFlags toFlags? where
  plain flags depth h := by
    refine plain_object ?_ h
    intro depth h
    rw [membersPlain_append, membersPlain_member, membersPlain_member]
    exact ⟨codes_u16.plain flags h, trivial⟩
  back flags := by
    have hbits : required 0 "bits" u16? (ofFlags flags) = some flags :=
      required_eq codes_u16 (by simp)
    have htext : defaulted 1 "value" "" Json.string? (ofFlags flags) = some (hexWord flags) :=
      defaulted_eq codes_string (by simp)
    have hrecord : isRecord 2 (ofFlags flags) = true := rfl
    rw [toFlags?, if_pos hrecord, hbits, htext]
    rfl

theorem codes_version : Codes 1 ofVersion toVersion? where
  plain v depth h := by
    refine plain_object ?_ h
    intro depth h
    rw [membersPlain_append, membersPlain_member, membersPlain_member]
    exact ⟨codes_u16.plain v.minor h, codes_u16.plain v.major h⟩
  back v := by
    have hminor : required 0 "minor" u16? (ofVersion v) = some v.minor :=
      required_eq codes_u16 (by simp)
    have hmajor : required 1 "major" u16? (ofVersion v) = some v.major :=
      required_eq codes_u16 (by simp)
    have hrecord : isRecord 2 (ofVersion v) = true := rfl
    rw [toVersion?, if_pos hrecord, hminor, hmajor]
    rfl

/-- A string is never taken for the bytes of a body, nor the bytes for a string. -/
theorem codes_body : Codes 1 ofBody toBody? where
  plain body depth h := by
    cases body with
    | encoded text => trivial
    | raw bytes => exact codes_u8.list.plain bytes h
  back body := by
    cases body with
    | encoded text => rfl
    | raw bytes => exact congrArg (Option.map AttributeBody.raw) (codes_u8.list.back bytes)

theorem codes_attribute : Codes 2 ofAttribute toAttribute? where
  plain a depth h := by
    refine plain_object ?_ h
    intro depth h
    rw [membersPlain_append, membersPlain_append, membersPlain_member, membersPlain_member]
    refine ⟨⟨trivial, codes_body.plain a.body h⟩, ?_⟩
    cases a.signature with
    | none => trivial
    | some signature => exact membersPlain_member.2 trivial
  back a := by
    have hname : required 0 "name" Json.string? (ofAttribute a) = some a.name :=
      required_eq codes_string (by cases a.signature <;> simp)
    have hbody : required 1 "info" toBody? (ofAttribute a) = some a.body :=
      required_eq codes_body (by cases a.signature <;> simp)
    have hsignature : defaulted 2 "Signature" none optional? (ofAttribute a) = some a.signature :=
      defaulted_eq codes_optional (by cases a.signature <;> simp [ofOptional])
    have hrecord : isRecord 3 (ofAttribute a) = true := rfl
    rw [toAttribute?, if_pos hrecord, hname, hbody, hsignature]
    rfl

theorem codes_attributes : Codes 3 ofAttributes (items toAttribute?) :=
  codes_attribute.list

theorem codes_field : Codes 4 ofField toField? where
  plain f depth h := by
    refine plain_object ?_ h
    intro depth h
    have hflags := codes_flags.plain f.flags (show 1 ≤ depth by omega)
    have hattributes := codes_attributes.plain f.attributes h
    simp only [membersPlain_append, membersPlain_member, membersPlain_textMember]
    exact ⟨⟨⟨⟨hflags, trivial⟩, trivial⟩, hattributes⟩, trivial⟩
  back f := by
    have hflags : required 0 "mods" toFlags? (ofField f) = some f.flags :=
      required_eq codes_flags (by simp)
    have hname : required 1 "name" Json.string? (ofField f) = some f.name :=
      required_eq codes_string (by simp)
    have hdescriptor : required 2 "type" Json.string? (ofField f) = some f.descriptor :=
      required_eq codes_string (by simp)
    have hattributes : defaulted 3 "attributes" [] (items toAttribute?) (ofField f) =
        some f.attributes := defaulted_eq codes_attributes (by simp)
    have hdocs : defaulted 4 "docs" "" Json.string? (ofField f) = some f.docs :=
      defaulted_eq codes_string (by by_cases h : f.docs = "" <;> simp [h])
    have hrecord : isRecord 5 (ofField f) = true := rfl
    rw [toField?, if_pos hrecord, hflags, hname, hdescriptor, hattributes, hdocs]
    rfl

theorem codes_method : Codes 4 ofMethod toMethod? where
  plain m depth h := by
    refine plain_object ?_ h
    intro depth h
    have hflags := codes_flags.plain m.flags (show 1 ≤ depth by omega)
    have hattributes := codes_attributes.plain m.attributes h
    have hnames : Json.MembersPlain (if m.parameterNames.isEmpty then [] else
        member "pnames" (ofStrings m.parameterNames)) depth := by
      split
      · trivial
      · exact membersPlain_member.2 (codes_strings.plain m.parameterNames (by omega))
    simp only [membersPlain_append, membersPlain_member, membersPlain_textMember]
    exact ⟨⟨⟨⟨⟨hflags, trivial⟩, trivial⟩, hattributes⟩, trivial⟩, hnames⟩
  back m := by
    have hflags : required 0 "mods" toFlags? (ofMethod m) = some m.flags :=
      required_eq codes_flags (by cases m.parameterNames <;> simp)
    have hname : required 1 "name" Json.string? (ofMethod m) = some m.name :=
      required_eq codes_string (by cases m.parameterNames <;> simp)
    have hdescriptor : required 2 "sig" Json.string? (ofMethod m) = some m.descriptor :=
      required_eq codes_string (by cases m.parameterNames <;> simp)
    have hattributes : defaulted 3 "attributes" [] (items toAttribute?) (ofMethod m) =
        some m.attributes := defaulted_eq codes_attributes (by cases m.parameterNames <;> simp)
    have hdocs : defaulted 4 "docs" "" Json.string? (ofMethod m) = some m.docs :=
      defaulted_eq codes_string (by
        cases m.parameterNames <;> by_cases h : m.docs = "" <;> simp [h])
    have hnames : defaulted 5 "pnames" [] (items Json.string?) (ofMethod m) =
        some m.parameterNames := defaulted_eq codes_strings (by cases m.parameterNames <;> simp)
    have hrecord : isRecord 6 (ofMethod m) = true := rfl
    rw [toMethod?, if_pos hrecord, hflags, hname, hdescriptor, hattributes, hdocs,
      hnames]
    rfl

theorem codes_class : Codes 6 ofClass toClass? where
  plain c depth h := by
    refine plain_object ?_ h
    intro depth h
    have hversion := codes_version.plain c.version (show 1 ≤ depth by omega)
    have hflags := codes_flags.plain c.flags (show 1 ≤ depth by omega)
    have hsuperclass := codes_optional.plain c.superclass (Nat.zero_le depth)
    have hinterfaces := codes_strings.plain c.interfaces (show 1 ≤ depth by omega)
    have hfields := codes_field.list.plain c.fields h
    have hmethods := codes_method.list.plain c.methods h
    have hattributes := codes_attributes.plain c.attributes (show 3 ≤ depth by omega)
    simp only [membersPlain_append, membersPlain_member, membersPlain_textMember]
    exact ⟨⟨⟨⟨⟨⟨⟨⟨hversion, hflags⟩, trivial⟩, hsuperclass⟩, hinterfaces⟩, hfields⟩, hmethods⟩,
      hattributes⟩, trivial⟩
  back c := by
    have hversion : required 0 "version" toVersion? (ofClass c) = some c.version :=
      required_eq codes_version (by simp)
    have hflags : required 1 "mods" toFlags? (ofClass c) = some c.flags :=
      required_eq codes_flags (by simp)
    have hname : required 2 "thisclass" Json.string? (ofClass c) = some c.name :=
      required_eq codes_string (by simp)
    have hsuperclass : nullable 3 "superclass" (ofClass c) = some c.superclass :=
      nullable_eq (by simp)
    have hinterfaces : defaulted 4 "interfaces" [] (items Json.string?) (ofClass c) =
        some c.interfaces := defaulted_eq codes_strings (by simp)
    have hfields : defaulted 5 "fields" [] (items toField?) (ofClass c) = some c.fields :=
      defaulted_eq codes_field.list (by simp)
    have hmethods : defaulted 6 "methods" [] (items toMethod?) (ofClass c) = some c.methods :=
      defaulted_eq codes_method.list (by simp)
    have hattributes : defaulted 7 "attributes" [] (items toAttribute?) (ofClass c) =
        some c.attributes := defaulted_eq codes_attributes (by simp)
    have hdocs : defaulted 8 "docs" "" Json.string? (ofClass c) = some c.docs :=
      defaulted_eq codes_string (by by_cases h : c.docs = "" <;> simp [h])
    have hrecord : isRecord 9 (ofClass c) = true := rfl
    rw [toClass?, if_pos hrecord, hversion, hflags, hname, hsuperclass, hinterfaces,
      hfields, hmethods, hattributes, hdocs]
    rfl

end TypeCatalog.Cache

namespace TypeCatalog.Library

/-- The classes that a document was written for are read from it, each with all that it holds and in
    their order. -/
theorem classesOfDocument_documentOf (classes : List CompiledClass) :
    classesOfDocument (documentOf classes) = .ok classes := by
  have hplain : (Json.array (classes.map Cache.ofClass)).Plain Json.depthLimit :=
    Cache.codes_class.list.plain classes (by decide)
  have hback : (classes.map Cache.ofClass).mapM Cache.toClass? = some classes :=
    Cache.codes_class.mapM_map classes
  rw [classesOfDocument, documentOf, Json.ofBytes?_compact hplain]
  simp only [hback]

end TypeCatalog.Library
