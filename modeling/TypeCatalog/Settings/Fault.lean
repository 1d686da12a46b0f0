/-! # Faults of settings

    A setting that is missing, a value that does not do, and a settings file that cannot be read.
-/

set_option autoImplicit false

namespace TypeCatalog.Settings

/-- Why a value does not do. -/
inductive Reason where
  | emptyPath
  | zeroInPath
  | extension (found : String) (allowed : List String)
  | noExtension
  | platformName
  | blank
  | level (levels : List String)
  deriving DecidableEq, Repr

/-- The wording of a reason. -/
def Reason.message : Reason → String
  | emptyPath => "Path cannot be empty"
  | zeroInPath => "Path contains null bytes"
  | extension found allowed =>
    "Unsupported file extension: " ++ found ++ ". Allowed extensions: "
      ++ ", ".intercalate allowed
  | noExtension => "File has no extension or invalid filename"
  | platformName => "Expected a platform name such as android-25"
  | blank => "Value cannot be empty or whitespace-only"
  | level levels => "Valid levels: " ++ ", ".intercalate levels

/-- What is wrong with settings. -/
inductive Fault where
  /-- The settings file is not in its format; the place is told in words. -/
  | malformed (text : String)
  /-- The value of a field does not do. -/
  | invalid (field value : String) (reason : Reason)
  /-- A field that is needed has no value. -/
  | missing (field : String)
  deriving DecidableEq, Repr

/-- The wording of a fault. -/
def Fault.message : Fault → String
  | malformed text =>
    "Configuration validation failed for 'toml_parsing': TOML parsing error: " ++ text
  | invalid field value reason =>
    "Invalid value '" ++ value ++ "' for '" ++ field ++ "': " ++ reason.message
  | missing field => "Missing required configuration: " ++ field

end TypeCatalog.Settings
