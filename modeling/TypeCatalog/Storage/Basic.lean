/-! # Storage

    Where files are read from and written to. The same programs run on the files of a machine and on
    a directory that is only a value.
-/

set_option autoImplicit false

namespace TypeCatalog

/-- Why a file cannot be read or written. -/
inductive FileFault where
  | notFound
  | alreadyThere
  | notDirectory
  | isDirectory
  | nameTooLong
  /-- A path holds the character with code zero. -/
  | zeroInPath
  /-- The file is no text. -/
  | notText
  /-- The file holds an archive entry that is not what its checksum says. -/
  | checksum
  /-- Any other reason, in the words of the system. -/
  | other (text : String)
  deriving DecidableEq, Repr

/-- The wording of a fault of the system, with its number. -/
def osMessage (text : String) (number : Nat) : String :=
  text ++ " (os error " ++ toString number ++ ")"

/-- The wording of a fault. -/
def FileFault.message : FileFault → String
  | notFound => osMessage "No such file or directory" 2
  | alreadyThere => osMessage "File exists" 17
  | notDirectory => osMessage "Not a directory" 20
  | isDirectory => osMessage "Is a directory" 21
  | nameTooLong => osMessage "File name too long" 36
  | zeroInPath => "file name contained an unexpected NUL byte"
  | notText => "stream did not contain valid UTF-8"
  | checksum => "Invalid checksum"
  | other text => text

/-- Files by their paths, in some monad. -/
structure Storage (m : Type → Type) where
  /-- The bytes of a file. -/
  read : String → m (Except FileFault (List UInt8))
  /-- Put bytes into a file; missing directories are made. -/
  write : String → List UInt8 → m (Except FileFault Unit)

end TypeCatalog
