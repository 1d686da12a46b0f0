import TypeCatalog.ClassFile.Constant
import TypeCatalog.Settings.Fault
import TypeCatalog.Signature.Parse
import TypeCatalog.Source.Token
import TypeCatalog.Storage.Basic

/-! # Failures

    Everything that can go wrong, with the sentence that tells a user what happened and the one that
    tells what to do.
-/

set_option autoImplicit false

namespace TypeCatalog

/-- What can be wrong with the layout of caches and libraries. -/
inductive LayoutFault where
  /-- A cache is JSON, but no array. -/
  | notAnArray
  /-- A bundle holds no classes. -/
  | noClasses
  deriving DecidableEq, Repr

/-- The wording of a layout fault. -/
def LayoutFault.message : LayoutFault → String
  | notAnArray => "Cache data is not a JSON array"
  | noClasses => "AAR archive has no classes.jar"

/-- What can go wrong. -/
inductive Failure where
  /-- Bytes are no archive, or an entry is missing. -/
  | archive
  /-- A file cannot be read or written. -/
  | file (fault : FileFault)
  /-- A JSON text is malformed, or holds something else than the records wanted. -/
  | record
  | classFile (fault : ClassFile.Fault)
  | signature (error : SignatureError)
  | layout (fault : LayoutFault)
  | source (error : Source.Error)
  | settings (fault : Settings.Fault)
  deriving DecidableEq, Repr

namespace Failure

/-- The wording of a failure. -/
def message : Failure → String
  | archive => "Zip operation failed"
  | file fault => "IO error: " ++ fault.message
  | record => "Serialization error"
  | classFile fault => fault.message
  | signature error => error.message
  | layout fault => "Cache format error: " ++ fault.message
  | source error => error.message
  | settings fault => fault.message

/-- The sentence for a user. -/
def friendly : Failure → String
  | archive => "The archive could not be read"
  | file fault => "File access failed: " ++ fault.message
  | classFile fault => "A class file could not be decoded (" ++ fault.message ++ ")"
  | signature error => "The generic signature '" ++ error.signature ++ "' is malformed"
  | record => "The type cache is not in the expected format"
  | layout _ => "The type cache is not in the expected format"
  | source error => "A Java source file could not be read (" ++ error.message ++ ")"
  | settings fault => "Configuration problem: " ++ fault.message

/-- What a user can do about it. -/
def suggestion : Failure → String
  | archive => "Check that the jar, aar or cache zip is complete and not corrupted"
  | file _ => "Check that the path exists and is readable"
  | classFile _ => "Make sure the input is a compiled .class file"
  | signature _ => "Check the signature against the JVM signature grammar"
  | record => "Rebuild the cache with the build-cache command"
  | layout _ => "Rebuild the cache with the build-cache command"
  | source _ => "Check the sources folder matches the library version"
  | settings _ => "Review the command line options and the TOML config file"

end Failure

end TypeCatalog
