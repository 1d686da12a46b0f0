import TypeCatalog.Settings.Rules
import TypeCatalog.Settings.Variables
import TypeCatalog.Toml.Reader

/-! # Settings

    What a command works with: the folder of the development kit, the platform, the cache and its
    libraries. They come from the command line, and whatever it leaves open from a settings file. A
    settings file also tells how to write messages.
-/

set_option autoImplicit false

namespace TypeCatalog

/-- What a command works with. -/
structure Settings where
  /-- The folder of the development kit. -/
  root : Option String
  platform : Option String
  cache : Option String
  libraries : List String
  deriving DecidableEq, Repr, Inhabited

/-- What a settings file says. -/
structure SettingsFile extends Settings where
  /-- The least level of messages that are written. -/
  level : Option String
  /-- Whether messages are written as JSON, if the file says so. -/
  jsonMessages : Option Bool
  deriving DecidableEq, Repr, Inhabited

namespace Settings

/-- No settings at all. -/
def empty : Settings := ⟨none, none, none, []⟩

/-- The settings with what is open filled in from others. -/
def orFrom (s other : Settings) : Settings where
  root := s.root.or other.root
  platform := s.platform.or other.platform
  cache := s.cache.or other.cache
  libraries := if s.libraries.isEmpty then other.libraries else s.libraries

/-- Check the settings of a command. -/
def check (s : Settings) : Verdict := do
  optionally (checkPlatform "api") s.platform
  optionally (checkCache "cache") s.cache

end Settings

namespace SettingsFile

/-- Check a settings file. -/
def check (f : SettingsFile) : Settings.Verdict := do
  Settings.optionally (Settings.checkPlatform "android.api") f.platform
  Settings.optionally (Settings.checkPath "android.sdk_root") f.root
  Settings.optionally (Settings.checkCache "cache.path") f.cache
  f.libraries.forM (Settings.checkNotBlank "cache.libraries")
  Settings.optionally (Settings.checkLevel "logging.level") f.level

/-! ## Section 1: Reading -/

/-- The text that a value is. -/
def text? : Toml → Option String
  | .text value => some value
  | _ => none

/-- The truth value that a value is. -/
def truth? : Toml → Option Bool
  | .truth value => some value
  | _ => none

/-- The texts that a value is a list of. -/
def texts? : Toml → Option (List String)
  | .array items => items.mapM text?
  | .tables items => items.reverse.mapM text?
  | _ => none

/-- A section of a settings file: fields by name, or in order. -/
inductive Section where
  | named (members : Toml.Members)
  | ordered (items : List Toml)

/-- The section that a value is. A moment is a section that has none of the fields. -/
def Section.ofValue? : Toml → Option Section
  | .moment => some (.named [])
  | .table _ members => some (.named members)
  | .array items => some (.ordered items)
  | .tables items => some (.ordered items.reverse)
  | _ => none

/-- A field that may be missing. In order every field has to be there. -/
def Section.optional {α : Type} (read : Toml → Option α) (position : Nat) (name : String) :
    Section → Option (Option α)
  | named members =>
    match members.get? name with
    | none => some none
    | some value => (read value).map some
  | ordered items => (items[position]?.bind read).map some

/-- A list that is empty when it is missing. -/
def Section.texts (position : Nat) (name : String) : Section → Option (List String)
  | named members =>
    match members.get? name with
    | none => some []
    | some value => texts? value
  | ordered items =>
    match items[position]? with
    | none => some []
    | some value => texts? value

/-- A section by its name; one that is missing has no fields. -/
def section? (members : Toml.Members) (name : String) : Option Section :=
  match members.get? name with
  | none => some (.named [])
  | some value => Section.ofValue? value

/-- What the members of a settings file say, unless a field has a value of another kind. -/
def ofMembers? (members : Toml.Members) : Option SettingsFile := do
  let android ← section? members "android"
  let cache ← section? members "cache"
  let logging ← section? members "logging"
  return {
    platform := ← android.optional text? 0 "api"
    root := ← android.optional text? 1 "sdk_root"
    cache := ← cache.optional text? 0 "path"
    libraries := ← cache.texts 1 "libraries"
    level := ← logging.optional text? 0 "level"
    jsonMessages := ← logging.optional truth? 1 "json" }

/-- What a settings file says whose references to variables have been replaced. -/
def ofText (text : String) : Except Settings.Fault SettingsFile :=
  match Toml.parse text with
  | .error line => .error (.malformed ("malformed line " ++ toString line))
  | .ok members =>
    match ofMembers? members with
    | some file => .ok file
    | none => .error (.malformed "a field has a value of another kind")

/-- What a settings file says. -/
def parse (value : String → Option String) (text : String) : Except Settings.Fault SettingsFile :=
  ofText (Settings.expandVariables value text)

end SettingsFile

end TypeCatalog
