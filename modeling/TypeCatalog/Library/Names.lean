import TypeCatalog.Path
import TypeCatalog.Text.Word

/-! # Names in libraries

    Which entries of a library are classes that a source text can name, where the source of a class
    is, and where a platform has its library and its sources.
-/

set_option autoImplicit false

namespace TypeCatalog.Library

/-! ## Section 1: Entries -/

/-- Whether a text is an identifier that starts with an ASCII letter or an underscore. -/
def isIdentifier (s : List Char) : Bool :=
  match s with
  | [] => false
  | c :: rest => (c.isAlpha || c = '_') && rest.all Text.isWord

/-- What the names of class entries end with. -/
def classSuffix : List Char := ".class".toList

/-- Whether a name without its suffix is that of a class in a package, where the names of anonymous
    and local classes do not count. -/
def isClassPath (s : List Char) : Bool :=
  let folder := Text.beforeLast '/' s
  !folder.isEmpty && !folder.contains '\n' &&
    (Text.segments '$' (Text.afterLast '/' s)).all isIdentifier

/-- Whether an entry of a library is a class that is kept. -/
def isClassEntry (name : String) : Bool :=
  classSuffix.isSuffixOf name.toList &&
    isClassPath (name.toList.take (name.length - classSuffix.length))

/-! ## Section 2: Sources -/

/-- The class around all others of a nested class. -/
def topLevelName (name : String) : String :=
  String.ofList (Text.beforeFirst '$' name.toList)

/-- A class that is not nested is the one around itself. -/
theorem topLevelName_of_notMem {name : String} (h : '$' ∉ name.toList) :
    topLevelName name = name := by
  rw [topLevelName, Text.beforeFirst_of_notMem h, String.ofList_toList]

/-- Around a nested class, however deep it is, is the one before the first dollar sign. -/
theorem topLevelName_nested {top : String} (h : '$' ∉ top.toList) (nested : String) :
    topLevelName (top ++ "$" ++ nested) = top := by
  have hname : (top ++ "$" ++ nested).toList = top.toList ++ '$' :: nested.toList := by
    simp only [String.toList_append, List.append_assoc]
    rfl
  rw [topLevelName, hname, Text.beforeFirst_append h, String.ofList_toList]

/-- The path of the source of a top-level class below a folder. -/
def sourcePath (base name : String) : String :=
  Path.trimSeparators base ++ "/" ++ name ++ ".java"

/-! ## Section 3: Platforms -/

/-- The library of a platform. -/
def platformLibrary (root platform : String) : String :=
  Path.join (Path.join (Path.join root "platforms") platform) "android.jar"

/-- The folder with the sources of a platform. -/
def platformSources (root platform : String) : String :=
  Path.join (Path.join root "sources") platform

/-- The variable that names the folder of platforms. -/
def rootVariable : String := "ANDROID_SDK"

end TypeCatalog.Library
