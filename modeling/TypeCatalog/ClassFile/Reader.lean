import TypeCatalog.ClassFile.ModifiedUtf8
import TypeCatalog.CompiledClass
import TypeCatalog.Text.Base64

/-! # Reading class files

    A class file is a run of big-endian numbers and counted tables: a version, the constant pool,
    the class itself, its interfaces, fields, methods and attributes. Every index is looked up while
    reading and the pool is dropped afterwards. Bytes after the class are not looked at.
-/

set_option autoImplicit false

namespace TypeCatalog.ClassFile

/-! ## Section 1: Numbers and tables -/

/-- Why a reader stopped, before the offset of a truncation is known. -/
inductive Halt where
  /-- The bytes end: that many were needed where that many were left. -/
  | short (needed left : Nat)
  /-- Anything else. -/
  | fault (fault : Fault)
  deriving DecidableEq

/-- A reader of the front of a byte sequence; it gives back the bytes it left. -/
abbrev Reader := StateT (List UInt8) (Except Halt)

/-- Split off that many items, unless there are fewer. -/
def splitExactly {α : Type} : Nat → List α → Option (List α × List α)
  | 0, rest => some ([], rest)
  | _ + 1, [] => none
  | n + 1, a :: rest => (splitExactly n rest).map fun (front, left) => (a :: front, left)

/-- The next bytes, that many. -/
def bytes (count : Nat) : Reader (List UInt8) := fun s =>
  match splitExactly count s with
  | some (front, left) => .ok (front, left)
  | none => .error (.short count s.length)

/-- The number that big-endian bytes are. -/
def natOfBytes (front : List UInt8) : Nat :=
  front.foldl (fun n b => n * 256 + b.toNat) 0

/-- A number of one byte. -/
def u1 : Reader UInt8 := do return UInt8.ofNat (natOfBytes (← bytes 1))

/-- A number of two bytes. -/
def u2 : Reader UInt16 := do return UInt16.ofNat (natOfBytes (← bytes 2))

/-- A number of four bytes. -/
def u4 : Reader UInt32 := do return UInt32.ofNat (natOfBytes (← bytes 4))

/-- A number of eight bytes. -/
def u8 : Reader UInt64 := do return UInt64.ofNat (natOfBytes (← bytes 8))

/-- Stop with a fault. -/
def fail {α : Type} (f : Fault) : Reader α := fun _ => .error (.fault f)

/-- Stop if a look-up does. -/
def orFail {α : Type} : Except Fault α → Reader α
  | .ok a => pure a
  | .error f => fail f

/-- That many items, one after the other. -/
def times {α : Type} : Nat → Reader α → Reader (List α)
  | 0, _ => pure []
  | n + 1, item => do
    let a ← item
    let others ← times n item
    return a :: others

/-- A table: a count of two bytes and that many items. -/
def table {α : Type} (item : Reader α) : Reader (List α) := do
  let count ← u2
  times count.toNat item

/-! ## Section 2: The constant pool -/

/-- The rest of a constant after its tag. The index is that of the constant, for a fault. -/
def constantBody (index : Nat) (tag : UInt8) : Reader Constant := do
  match tag with
  | 1 =>
    let length ← u2
    let text ← orFail (ModifiedUtf8.decode (← bytes length.toNat))
    return .utf8 (String.ofList text)
  | 3 => return .integer (← u4)
  | 4 => return .float (← u4)
  | 5 => return .long (← u8)
  | 6 => return .double (← u8)
  | 7 => return .classRef (← u2)
  | 8 => return .string (← u2)
  | 9 => return .fieldRef (← u2) (← u2)
  | 10 => return .methodRef (← u2) (← u2)
  | 11 => return .interfaceMethodRef (← u2) (← u2)
  | 12 => return .nameAndType (← u2) (← u2)
  | 15 => return .methodHandle (← u1) (← u2)
  | 16 => return .methodType (← u2)
  | 17 => return .dynamic (← u2) (← u2)
  | 18 => return .invokeDynamic (← u2) (← u2)
  | 19 => return .moduleRef (← u2)
  | 20 => return .packageRef (← u2)
  | _ => fail (.unknownTag tag index)

/-- A constant. -/
def constant (index : Nat) : Reader Constant := do
  let tag ← u1
  constantBody index tag

/-- The slots of the pool from the given index on, that many. A wide constant takes two slots, the
    second of which is empty; `pending` tells that the next slot is such a one. -/
def slots (index : Nat) (pending : Bool) : Nat → Reader (List (Option Constant))
  | 0 => pure []
  | n + 1 =>
    if pending then do
      let others ← slots (index + 1) false n
      return none :: others
    else do
      let found ← constant index
      let others ← slots (index + 1) found.isWide n
      return some found :: others

/-- The constants of a class file by index. Slot zero is empty. -/
structure Pool where
  /-- The slots, from index zero on. -/
  slots : Array (Option Constant)
  deriving DecidableEq

namespace Pool

/-- The pool: a count one greater than the number of its slots, and the slots. -/
def read : Reader Pool := do
  let count ← u2
  let found ← ClassFile.slots 1 false (count.toNat - 1)
  return ⟨(none :: found).toArray⟩

/-- The constant of an index. -/
def get (pool : Pool) (index : UInt16) : Except Fault Constant :=
  match pool.slots[index.toNat]? with
  | some (some found) => .ok found
  | _ => .error (.unusable index)

/-- The text of an index. -/
def text (pool : Pool) (index : UInt16) : Except Fault String :=
  match pool.get index with
  | .ok (.utf8 found) => .ok found
  | .ok found => .error (.notText index found)
  | .error f => .error f

/-- The name of the class of an index. -/
def className (pool : Pool) (index : UInt16) : Except Fault String :=
  match pool.get index with
  | .ok (.classRef name) => pool.text name
  | .ok found => .error (.notClass index found)
  | .error f => .error f

end Pool

/-! ## Section 3: The class -/

/-- A text by the next index. -/
def textRef (pool : Pool) : Reader String := do orFail (pool.text (← u2))

/-- A class name by the next index. -/
def classNameRef (pool : Pool) : Reader String := do orFail (pool.className (← u2))

/-- The text that the body of a signature attribute refers to. -/
def signatureBody (pool : Pool) : List UInt8 → Except Fault String
  | [a, b] => pool.text (UInt16.ofNat (natOfBytes [a, b]))
  | body => .error (.signatureLength body.length)

/-- An attribute: its name, the length of its body, and the body. -/
def attributeEntry (pool : Pool) : Reader Attribute := do
  let name ← textRef pool
  let length ← u4
  let body ← bytes length.toNat
  let signature ←
    if name = Attribute.signatureName then some <$> orFail (signatureBody pool body)
    else pure none
  let kept : AttributeBody :=
    if name = Attribute.codeName then .encoded (String.ofList (Text.Base64.encode body))
    else .raw body
  return ⟨name, kept, signature⟩

/-- A field. -/
def fieldEntry (pool : Pool) : Reader CompiledField := do
  let flags ← u2
  let name ← textRef pool
  let descriptor ← textRef pool
  let attributes ← table (attributeEntry pool)
  return ⟨flags, name, descriptor, attributes, ""⟩

/-- A method. -/
def methodEntry (pool : Pool) : Reader CompiledMethod := do
  let flags ← u2
  let name ← textRef pool
  let descriptor ← textRef pool
  let attributes ← table (attributeEntry pool)
  return ⟨flags, name, descriptor, attributes, "", []⟩

/-- The superclass by the next index; index zero means that there is none. -/
def superclass (pool : Pool) : Reader (Option String) := do
  let index ← u2
  if index = 0 then return none
  else some <$> orFail (pool.className index)

/-- The bytes every class file starts with. -/
def magic : List UInt8 := [0xCA, 0xFE, 0xBA, 0xBE]

/-- A class file. -/
def classFile : Reader CompiledClass := do
  let start ← bytes 4
  if start ≠ magic then fail .notAClassFile
  let minor ← u2
  let major ← u2
  let pool ← Pool.read
  let flags ← u2
  let name ← classNameRef pool
  let super ← superclass pool
  let interfaces ← table (classNameRef pool)
  let fields ← table (fieldEntry pool)
  let methods ← table (methodEntry pool)
  let attributes ← table (attributeEntry pool)
  return ⟨⟨minor, major⟩, flags, name, super, interfaces, fields, methods, attributes, ""⟩

/-- A halt in a sequence of that many bytes as a fault. -/
def Halt.inBytes (total : Nat) : Halt → Fault
  | .short needed left => .truncated needed (total - left)
  | .fault f => f

/-- The class that a byte sequence starts with. -/
def decode (file : List UInt8) : Except Fault CompiledClass :=
  match classFile file with
  | .ok (found, _) => .ok found
  | .error h => .error (h.inBytes file.length)

end TypeCatalog.ClassFile
