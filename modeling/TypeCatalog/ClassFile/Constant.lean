import TypeCatalog.Decimal.Shortest
import TypeCatalog.Text.Quoted

/-! # Constants of a class file

    The entries of a constant pool, seventeen kinds. Messages about an entry of the wrong kind show
    it with its kind and its parts.
-/

set_option autoImplicit false

namespace TypeCatalog.ClassFile

/-- An entry of a constant pool. Indices are those of other entries. -/
inductive Constant where
  | utf8 (text : String)
  | integer (bits : UInt32)
  | float (bits : UInt32)
  | long (bits : UInt64)
  | double (bits : UInt64)
  | classRef (name : UInt16)
  | string (text : UInt16)
  | fieldRef (owner member : UInt16)
  | methodRef (owner member : UInt16)
  | interfaceMethodRef (owner member : UInt16)
  | nameAndType (name descriptor : UInt16)
  | methodHandle (kind : UInt8) (reference : UInt16)
  | methodType (descriptor : UInt16)
  | dynamic (bootstrap member : UInt16)
  | invokeDynamic (bootstrap member : UInt16)
  | moduleRef (name : UInt16)
  | packageRef (name : UInt16)
  deriving DecidableEq, Repr

namespace Constant

/-- Whether an entry takes two indices of the pool, of which the second is not usable. -/
def isWide : Constant → Bool
  | long _ | double _ => true
  | _ => false

/-- A constant of named parts, for messages. -/
def showParts (kind : String) (parts : List (String × Nat)) : String :=
  kind ++ " \x7b " ++ ", ".intercalate (parts.map fun (n, v) => n ++ ": " ++ toString v) ++ " \x7d"

/-- A constant of one value, for messages. -/
def showValue (kind : String) (value : String) : String :=
  kind ++ "(" ++ value ++ ")"

/-- How messages show a constant. -/
def describe : Constant → String
  | utf8 text => showValue "Utf8" (String.ofList (Text.quoted text.toList))
  | integer bits => showValue "Integer" (toString bits.toInt32.toInt)
  | float bits => showValue "Float" (String.ofList (Decimal.single.text bits.toNat))
  | long bits => showValue "Long" (toString bits.toInt64.toInt)
  | double bits => showValue "Double" (String.ofList (Decimal.double.text bits.toNat))
  | classRef name => showParts "Class" [("name_index", name.toNat)]
  | string text => showParts "String" [("string_index", text.toNat)]
  | fieldRef owner member =>
    showParts "FieldRef"
      [("class_index", owner.toNat), ("name_and_type_index", member.toNat)]
  | methodRef owner member =>
    showParts "MethodRef"
      [("class_index", owner.toNat), ("name_and_type_index", member.toNat)]
  | interfaceMethodRef owner member =>
    showParts "InterfaceMethodRef"
      [("class_index", owner.toNat), ("name_and_type_index", member.toNat)]
  | nameAndType name descriptor =>
    showParts "NameAndType" [("name_index", name.toNat), ("descriptor_index", descriptor.toNat)]
  | methodHandle kind reference =>
    showParts "MethodHandle" [("kind", kind.toNat), ("reference_index", reference.toNat)]
  | methodType descriptor => showParts "MethodType" [("descriptor_index", descriptor.toNat)]
  | dynamic bootstrap member =>
    showParts "Dynamic"
      [("bootstrap_index", bootstrap.toNat), ("name_and_type_index", member.toNat)]
  | invokeDynamic bootstrap member =>
    showParts "InvokeDynamic"
      [("bootstrap_index", bootstrap.toNat), ("name_and_type_index", member.toNat)]
  | moduleRef name => showParts "Module" [("name_index", name.toNat)]
  | packageRef name => showParts "Package" [("name_index", name.toNat)]

end Constant

/-! ## Faults -/

/-- Why a byte sequence is not a class file. -/
inductive Fault where
  /-- The bytes end: that many were needed at that offset. -/
  | truncated (needed offset : Nat)
  /-- The first four bytes are not those of a class file. -/
  | notAClassFile
  /-- No constant has the tag. -/
  | unknownTag (tag : UInt8) (index : Nat)
  /-- No usable entry of the constant pool has the index. -/
  | unusable (index : UInt16)
  /-- The entry is not a text. -/
  | notText (index : UInt16) (found : Constant)
  /-- The entry is not a class. -/
  | notClass (index : UInt16) (found : Constant)
  /-- The body of a signature attribute does not have two bytes. -/
  | signatureLength (length : Nat)
  /-- A byte of a text does not continue a character where one has to. -/
  | textContinuation (position : Nat)
  /-- A byte of a text starts no character. -/
  | textByte (byte : UInt8)
  deriving DecidableEq, Repr

/-- A byte as two hexadecimal digits. -/
def hexByte (b : UInt8) : String :=
  String.ofList [Nat.digitChar (b.toNat / 16), Nat.digitChar (b.toNat % 16)]

/-- The wording of a fault. -/
def Fault.message : Fault → String
  | truncated needed offset =>
    "Invalid class file: truncated class file: needed " ++ toString needed ++ " bytes at offset "
      ++ toString offset
  | notAClassFile => "Invalid class file: invalid class file signature"
  | unknownTag tag index =>
    "Unsupported constant pool tag " ++ toString tag.toNat ++ " at entry " ++ toString index
  | unusable index =>
    "Invalid class file: constant pool index " ++ toString index.toNat ++ " is not usable"
  | notText index found =>
    "Invalid class file: constant pool index " ++ toString index.toNat ++ " is " ++ found.describe
      ++ ", expected a UTF-8 entry"
  | notClass index found =>
    "Invalid class file: constant pool index " ++ toString index.toNat ++ " is " ++ found.describe
      ++ ", expected a class entry"
  | signatureLength length =>
    "Invalid class file: Signature attribute has length " ++ toString length ++ ", expected 2"
  | textContinuation position =>
    "Invalid class file: invalid modified UTF-8 continuation at byte " ++ toString position
  | textByte byte => "Invalid class file: invalid modified UTF-8 byte 0x" ++ hexByte byte

end TypeCatalog.ClassFile
