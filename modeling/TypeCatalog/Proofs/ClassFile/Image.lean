import TypeCatalog.ClassFile.Reader
import TypeCatalog.Proofs.Text.Utf16

/-! # Images of class files

    What a class file is made of, before its indices are resolved: a list of constants, and a class
    whose names, members and attributes refer to them by index. A reference carries the proof that
    its index has the constant it is used as, and a count the proof that it fits its field, so every
    image has bytes and a content.

    The bytes are those of the format: big-endian numbers, counted tables, and texts in modified
    UTF-8. The constants are placed from index one on; a long or a double takes two indices, of
    which the second is not usable. -/

set_option autoImplicit false

namespace TypeCatalog.ClassFile

/-! ## Section 1: Numbers and tables -/

/-- A number as that many bytes, the most significant one first. What does not fit is dropped. -/
def bigEndian : Nat → Nat → List UInt8
  | 0, _ => []
  | width + 1, n => bigEndian width (n / 256) ++ [UInt8.ofNat n]

/-- A table: a count of two bytes and the items. -/
def tableBytes {α : Type} (item : α → List UInt8) (items : List α) : List UInt8 :=
  bigEndian 2 items.length ++ items.flatMap item

/-! ## Section 2: Constants -/

namespace Constant

/-- The bytes of a text. -/
def textBytes (text : String) : List UInt8 :=
  ModifiedUtf8.encode (Text.Utf16.encode text.toList)

/-- The tag of a constant and what follows it. -/
def bytes : Constant → List UInt8
  | utf8 text => 1 :: (bigEndian 2 (textBytes text).length ++ textBytes text)
  | integer bits => 3 :: bigEndian 4 bits.toNat
  | float bits => 4 :: bigEndian 4 bits.toNat
  | long bits => 5 :: bigEndian 8 bits.toNat
  | double bits => 6 :: bigEndian 8 bits.toNat
  | classRef name => 7 :: bigEndian 2 name.toNat
  | string text => 8 :: bigEndian 2 text.toNat
  | fieldRef owner member => 9 :: (bigEndian 2 owner.toNat ++ bigEndian 2 member.toNat)
  | methodRef owner member => 10 :: (bigEndian 2 owner.toNat ++ bigEndian 2 member.toNat)
  | interfaceMethodRef owner member => 11 :: (bigEndian 2 owner.toNat ++ bigEndian 2 member.toNat)
  | nameAndType name descriptor => 12 :: (bigEndian 2 name.toNat ++ bigEndian 2 descriptor.toNat)
  | methodHandle kind reference => 15 :: kind :: bigEndian 2 reference.toNat
  | methodType descriptor => 16 :: bigEndian 2 descriptor.toNat
  | dynamic bootstrap member => 17 :: (bigEndian 2 bootstrap.toNat ++ bigEndian 2 member.toNat)
  | invokeDynamic bootstrap member =>
    18 :: (bigEndian 2 bootstrap.toNat ++ bigEndian 2 member.toNat)
  | moduleRef name => 19 :: bigEndian 2 name.toNat
  | packageRef name => 20 :: bigEndian 2 name.toNat

/-- The number of bytes of the text a constant is, if it is one. -/
def textSize : Constant → Nat
  | utf8 text => (textBytes text).length
  | _ => 0

/-- Whether the size of a text fits its two bytes. -/
def Fits (c : Constant) : Prop := c.textSize ≤ 65535

instance (c : Constant) : Decidable c.Fits := inferInstanceAs (Decidable (c.textSize ≤ 65535))

/-- The slots a constant takes: its own and, if it is wide, one that is not usable. -/
def slots (c : Constant) : List (Option Constant) :=
  if c.isWide then [some c, none] else [some c]

/-- The slots from index one on. -/
def slotsOf (constants : List Constant) : List (Option Constant) :=
  constants.flatMap slots

/-- The constant of an index. -/
def at? (constants : List Constant) (index : UInt16) : Option Constant :=
  ((none :: slotsOf constants)[index.toNat]?).join

end Constant

/-! ## Section 3: The class -/

namespace Image

/-- A reference to a text. -/
structure TextRef (constants : List Constant) where
  index : UInt16
  text : String
  found : Constant.at? constants index = some (.utf8 text)

/-- A reference to a class, whose name is a text. -/
structure ClassRef (constants : List Constant) where
  index : UInt16
  name : TextRef constants
  found : Constant.at? constants index = some (.classRef name.index)

/-- An attribute: one that gives a generic signature, or any other with any body. -/
inductive Entry (constants : List Constant) where
  | signature (name : TextRef constants) (isSignature : name.text = Attribute.signatureName)
    (target : TextRef constants)
  | other (name : TextRef constants) (notSignature : name.text ≠ Attribute.signatureName)
    (body : List UInt8) (fits : body.length < 4294967296)

/-- A field or a method. -/
structure Member (constants : List Constant) where
  flags : UInt16
  name : TextRef constants
  descriptor : TextRef constants
  attributes : List (Entry constants)
  attributesFit : attributes.length ≤ 65535

section parts

variable {constants : List Constant}

/-- The index of a superclass; zero if there is none. -/
def superIndex : Option (ClassRef constants) → UInt16
  | none => 0
  | some ref => ref.index

/-- An attribute: the index of its name, the length of its body, and the body. -/
def Entry.bytes : Entry constants → List UInt8
  | .signature name _ target =>
    bigEndian 2 name.index.toNat ++ (bigEndian 4 2 ++ bigEndian 2 target.index.toNat)
  | .other name _ body _ =>
    bigEndian 2 name.index.toNat ++ (bigEndian 4 body.length ++ body)

/-- What an attribute says. The body of a signature attribute is kept as it is; the body of an
    attribute that holds code is kept as base64. -/
def Entry.content : Entry constants → Attribute
  | .signature name _ target =>
    ⟨name.text, .raw (bigEndian 2 target.index.toNat), some target.text⟩
  | .other name _ body _ =>
    if name.text = Attribute.codeName then
      ⟨name.text, .encoded (String.ofList (Text.Base64.encode body)), none⟩
    else ⟨name.text, .raw body, none⟩

def Member.bytes (m : Member constants) : List UInt8 :=
  bigEndian 2 m.flags.toNat ++ (bigEndian 2 m.name.index.toNat ++
    (bigEndian 2 m.descriptor.index.toNat ++ tableBytes Entry.bytes m.attributes))

def Member.field (m : Member constants) : CompiledField :=
  ⟨m.flags, m.name.text, m.descriptor.text, m.attributes.map Entry.content, ""⟩

def Member.method (m : Member constants) : CompiledMethod :=
  ⟨m.flags, m.name.text, m.descriptor.text, m.attributes.map Entry.content, "", []⟩

end parts

end Image

/-- Everything a class file says, by index. -/
structure Image where
  version : ClassVersion
  constants : List Constant
  textsFit : ∀ c ∈ constants, c.Fits
  /-- The count of the pool is one greater than that of its slots. -/
  slotsFit : 1 + (Constant.slotsOf constants).length ≤ 65535
  flags : UInt16
  name : Image.ClassRef constants
  superclass : Option (Image.ClassRef constants)
  interfaces : List (Image.ClassRef constants)
  interfacesFit : interfaces.length ≤ 65535
  fields : List (Image.Member constants)
  fieldsFit : fields.length ≤ 65535
  methods : List (Image.Member constants)
  methodsFit : methods.length ≤ 65535
  attributes : List (Image.Entry constants)
  attributesFit : attributes.length ≤ 65535

namespace Image

/-- The bytes of the constant pool. -/
def poolBytes (constants : List Constant) : List UInt8 :=
  bigEndian 2 (1 + (Constant.slotsOf constants).length) ++ constants.flatMap Constant.bytes

/-- The bytes of a class file. -/
def bytes (image : Image) : List UInt8 :=
  magic ++ (bigEndian 2 image.version.minor.toNat ++ (bigEndian 2 image.version.major.toNat ++
    (poolBytes image.constants ++ (bigEndian 2 image.flags.toNat ++
    (bigEndian 2 image.name.index.toNat ++ (bigEndian 2 (superIndex image.superclass).toNat ++
    (tableBytes (fun ref => bigEndian 2 ref.index.toNat) image.interfaces ++
    (tableBytes Member.bytes image.fields ++ (tableBytes Member.bytes image.methods ++
    tableBytes Entry.bytes image.attributes)))))))))

/-- What a class file says, with every index resolved. -/
def content (image : Image) : CompiledClass where
  version := image.version
  flags := image.flags
  name := image.name.name.text
  superclass := image.superclass.map fun ref => ref.name.text
  interfaces := image.interfaces.map fun ref => ref.name.text
  fields := image.fields.map Member.field
  methods := image.methods.map Member.method
  attributes := image.attributes.map Entry.content
  docs := ""

/-- A class without a superclass, behind a wide constant. -/
instance : Inhabited Image where
  default :=
    { version := ⟨0, 52⟩
      constants := [.long 7, .utf8 "A", .classRef 3]
      textsFit := by decide
      slotsFit := by decide
      flags := 0x21
      name := ⟨4, ⟨3, "A", rfl⟩, rfl⟩
      superclass := none
      interfaces := []
      interfacesFit := by decide
      fields := []
      fieldsFit := by decide
      methods := []
      methodsFit := by decide
      attributes := []
      attributesFit := by decide }

end Image

end TypeCatalog.ClassFile
