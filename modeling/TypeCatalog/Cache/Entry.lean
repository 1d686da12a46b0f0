import TypeCatalog.CompiledClass
import TypeCatalog.Json.Basic

/-! # Cache entries

    A compiled class as a JSON value and back. Each record is written as an object with its fields
    in a fixed order; documentation and parameter names are left out while they are empty, and so is
    the generic signature of an attribute that gives none. A record is read from an object, whose
    other members do not matter, or from an array of its fields in the same order.
-/

set_option autoImplicit false

namespace TypeCatalog.Cache

/-! ## Section 1: Writing -/

/-- A number of two bytes as four hexadecimal digits. -/
def hexWord (n : UInt16) : String :=
  String.ofList (['0', 'x'] ++
    [12, 8, 4, 0].map fun shift => Nat.digitChar ((n.toNat >>> shift) % 16))

/-- A member of an object. -/
def member (name : String) (value : Json) : List (String × Json) := [(name, value)]

/-- A member that is left out while its value is empty. -/
def textMember (name : String) (text : String) : List (String × Json) :=
  if text = "" then [] else member name (.string text)

/-- Access flags as JSON. -/
def ofFlags (flags : UInt16) : Json :=
  .object (member "bits" (.integer flags.toNat) ++ member "value" (.string (hexWord flags)))

/-- A version as JSON. -/
def ofVersion (v : ClassVersion) : Json :=
  .object (member "minor" (.integer v.minor.toNat) ++ member "major" (.integer v.major.toNat))

/-- The body of an attribute as JSON. -/
def ofBody : AttributeBody → Json
  | .encoded text => .string text
  | .raw bytes => .array (bytes.map fun b => .integer b.toNat)

/-- An attribute as JSON. -/
def ofAttribute (a : Attribute) : Json :=
  .object (member "name" (.string a.name) ++ member "info" (ofBody a.body) ++
    match a.signature with
    | some signature => member "Signature" (.string signature)
    | none => [])

/-- Attributes as JSON. -/
def ofAttributes (attributes : List Attribute) : Json := .array (attributes.map ofAttribute)

/-- A field as JSON. -/
def ofField (f : CompiledField) : Json :=
  .object (member "mods" (ofFlags f.flags) ++ member "name" (.string f.name) ++
    member "type" (.string f.descriptor) ++ member "attributes" (ofAttributes f.attributes) ++
    textMember "docs" f.docs)

/-- Strings as JSON. -/
def ofStrings (texts : List String) : Json := .array (texts.map .string)

/-- A method as JSON. -/
def ofMethod (m : CompiledMethod) : Json :=
  .object (member "mods" (ofFlags m.flags) ++ member "name" (.string m.name) ++
    member "sig" (.string m.descriptor) ++ member "attributes" (ofAttributes m.attributes) ++
    textMember "docs" m.docs ++
    if m.parameterNames.isEmpty then [] else member "pnames" (ofStrings m.parameterNames))

/-- A name that may be missing as JSON. -/
def ofOptional : Option String → Json
  | some text => .string text
  | none => .null

/-- A compiled class as JSON. -/
def ofClass (c : CompiledClass) : Json :=
  .object (member "version" (ofVersion c.version) ++ member "mods" (ofFlags c.flags) ++
    member "thisclass" (.string c.name) ++ member "superclass" (ofOptional c.superclass) ++
    member "interfaces" (ofStrings c.interfaces) ++
    member "fields" (.array (c.fields.map ofField)) ++
    member "methods" (.array (c.methods.map ofMethod)) ++
    member "attributes" (ofAttributes c.attributes) ++ textMember "docs" c.docs)

/-! ## Section 2: Records -/

/-- Whether a value can be a record of that many fields. -/
def isRecord (width : Nat) : Json → Bool
  | .object _ => true
  | .array items => items.length ≤ width
  | _ => false

/-- The field of a record: the member of that name, or the item of that position. -/
def slot? (position : Nat) (name : String) : Json → Option Json
  | .object members => Json.lookup? name members
  | .array items => items[position]?
  | _ => none

/-- A field that has to be there. -/
def required {α : Type} (position : Nat) (name : String) (read : Json → Option α) (record : Json) :
    Option α :=
  (slot? position name record).bind read

/-- A field that has the given value when it is not there. -/
def defaulted {α : Type} (position : Nat) (name : String) (default : α) (read : Json → Option α)
    (record : Json) : Option α :=
  match slot? position name record with
  | some value => read value
  | none => some default

/-- A string or the word `null`. -/
def optional? : Json → Option (Option String)
  | .null => some none
  | .string text => some (some text)
  | _ => none

/-- A field that is null when it is not there; an array has to have it. -/
def nullable (position : Nat) (name : String) (record : Json) : Option (Option String) :=
  match slot? position name record, record with
  | some value, _ => optional? value
  | none, .object _ => some none
  | none, _ => none

/-- The values of an array, each read in the same way. -/
def items {α : Type} (read : Json → Option α) (value : Json) : Option (List α) :=
  value.array?.bind fun found => found.mapM read

/-! ## Section 3: Reading -/

/-- A number of two bytes. -/
def u16? (value : Json) : Option UInt16 := (value.natBelow? 0x10000).map UInt16.ofNat

/-- A number of one byte. -/
def u8? (value : Json) : Option UInt8 := (value.natBelow? 0x100).map UInt8.ofNat

/-- Access flags; the hexadecimal text beside them is not looked at. -/
def toFlags? (record : Json) : Option UInt16 :=
  if isRecord 2 record then do
    let bits ← required 0 "bits" u16? record
    let _ ← defaulted 1 "value" "" Json.string? record
    return bits
  else none

/-- A version. -/
def toVersion? (record : Json) : Option ClassVersion :=
  if isRecord 2 record then do
    let minor ← required 0 "minor" u16? record
    let major ← required 1 "major" u16? record
    return ⟨minor, major⟩
  else none

/-- The body of an attribute: a string, or an array of bytes. -/
def toBody? : Json → Option AttributeBody
  | .string text => some (.encoded text)
  | value => (items u8? value).map .raw

/-- An attribute. -/
def toAttribute? (record : Json) : Option Attribute :=
  if isRecord 3 record then do
    let name ← required 0 "name" Json.string? record
    let body ← required 1 "info" toBody? record
    let signature ← defaulted 2 "Signature" none optional? record
    return ⟨name, body, signature⟩
  else none

/-- A field. -/
def toField? (record : Json) : Option CompiledField :=
  if isRecord 5 record then do
    let flags ← required 0 "mods" toFlags? record
    let name ← required 1 "name" Json.string? record
    let descriptor ← required 2 "type" Json.string? record
    let attributes ← defaulted 3 "attributes" [] (items toAttribute?) record
    let docs ← defaulted 4 "docs" "" Json.string? record
    return ⟨flags, name, descriptor, attributes, docs⟩
  else none

/-- A method. -/
def toMethod? (record : Json) : Option CompiledMethod :=
  if isRecord 6 record then do
    let flags ← required 0 "mods" toFlags? record
    let name ← required 1 "name" Json.string? record
    let descriptor ← required 2 "sig" Json.string? record
    let attributes ← defaulted 3 "attributes" [] (items toAttribute?) record
    let docs ← defaulted 4 "docs" "" Json.string? record
    let parameterNames ← defaulted 5 "pnames" [] (items Json.string?) record
    return ⟨flags, name, descriptor, attributes, docs, parameterNames⟩
  else none

/-- A compiled class. -/
def toClass? (record : Json) : Option CompiledClass :=
  if isRecord 9 record then do
    let version ← required 0 "version" toVersion? record
    let flags ← required 1 "mods" toFlags? record
    let name ← required 2 "thisclass" Json.string? record
    let superclass ← nullable 3 "superclass" record
    let interfaces ← defaulted 4 "interfaces" [] (items Json.string?) record
    let fields ← defaulted 5 "fields" [] (items toField?) record
    let methods ← defaulted 6 "methods" [] (items toMethod?) record
    let attributes ← defaulted 7 "attributes" [] (items toAttribute?) record
    let docs ← defaulted 8 "docs" "" Json.string? record
    return ⟨version, flags, name, superclass, interfaces, fields, methods, attributes, docs⟩
  else none

end TypeCatalog.Cache
