import TypeCatalog.Path
import TypeCatalog.Settings.Fault
import TypeCatalog.Text.Blank

/-! # Rules for settings

    Each rule takes the name of a field and its value, and tells what is wrong with the value, if
    anything is.
-/

set_option autoImplicit false

namespace TypeCatalog.Settings

/-- What a rule gives. -/
abbrev Verdict := Except Fault Unit

/-- A value is accepted if there is no reason against it. -/
def verdict (field value : String) (reason : Option Reason) : Verdict :=
  match reason with
  | none => .ok ()
  | some reason => .error (.invalid field value reason)

/-- A path has characters, and none of them is the one with code zero. -/
def checkPath (field value : String) : Verdict :=
  verdict field value <|
    if value = "" then some .emptyPath
    else if value.toList.contains '\x00' then some .zeroInPath
    else none

/-- Whether an extension is among some, where the case of ASCII letters does not matter. -/
def allowsExtension (allowed : List String) (extension : String) : Bool :=
  (allowed.map String.toLower).contains extension.toLower

/-- A file name has one of the allowed extensions. -/
def checkExtension (field value : String) (allowed : List String) : Verdict :=
  verdict field value <|
    match Path.extension? value with
    | none => some .noExtension
    | some found =>
      if allowsExtension allowed found then none else some (.extension found allowed)

/-- Whether a text is the name of a platform. -/
def isPlatformName (s : List Char) : Bool :=
  let start := "android-".toList
  start.isPrefixOf s &&
    match s.drop start.length with
    | [] => false
    | rest => rest.all fun c => c.isAlphanum || c = '.'

/-- A platform is named like `android-25`. -/
def checkPlatform (field value : String) : Verdict :=
  verdict field value <| if isPlatformName value.toList then none else some .platformName

/-- A text has a character that is not blank. -/
def checkNotBlank (field value : String) : Verdict :=
  verdict field value <| if Text.isAllBlank value.toList then some .blank else none

/-- The levels of messages. -/
def levels : List String := ["trace", "debug", "info", "warn", "error"]

/-- A level is one of the known ones. -/
def checkLevel (field value : String) : Verdict :=
  verdict field value <| if levels.contains value.toLower then none else some (.level levels)

/-- A value that is needed. -/
def required {α : Type} (field : String) (value : Option α) : Except Fault α :=
  match value with
  | some a => .ok a
  | none => .error (.missing field)

/-- A rule for a value that may be missing. -/
def optionally (check : String → Verdict) (value : Option String) : Verdict :=
  match value with
  | some a => check a
  | none => .ok ()

/-- The extensions of cache files. -/
def cacheExtensions : List String := ["json", "zip"]

/-- The path of a cache. -/
def checkCache (field value : String) : Verdict := do
  checkPath field value
  checkExtension field value cacheExtensions

end TypeCatalog.Settings
