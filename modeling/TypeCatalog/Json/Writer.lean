import TypeCatalog.Json.Basic

/-! # Writing JSON

    Two layouts of one value: the compact one, without any blank, and the indented one, two spaces a
    level. A string escapes the quote, the reverse solidus and the controls below U+0020, and
    nothing else.
-/

set_option autoImplicit false

namespace TypeCatalog.Json

/-- One character inside a JSON string. -/
def escapeChar (c : Char) : List Char :=
  if c = '"' then ['\\', '"']
  else if c = '\\' then ['\\', '\\']
  else if c = '\x08' then ['\\', 'b']
  else if c = '\x0c' then ['\\', 'f']
  else if c = '\n' then ['\\', 'n']
  else if c = '\r' then ['\\', 'r']
  else if c = '\t' then ['\\', 't']
  else if c.toNat < 0x20 then
    ['\\', 'u', '0', '0', Nat.digitChar (c.toNat / 16), Nat.digitChar (c.toNat % 16)]
  else [c]

/-- A JSON string with its quotes. -/
def quote (text : String) : List Char :=
  '"' :: text.toList.flatMap escapeChar ++ ['"']

/-- The text of a value that holds no other values. -/
def word : Json → List Char
  | bool true => ['t', 'r', 'u', 'e']
  | bool false => ['f', 'a', 'l', 's', 'e']
  | integer value => (toString value).toList
  | decimal text => text.toList
  | string value => quote value
  | _ => ['n', 'u', 'l', 'l']

mutual
/-- The compact text of a value. -/
def compact : Json → List Char
  | array items => '[' :: compactItems items ++ [']']
  | object members => '{' :: compactMembers members ++ ['}']
  | value => value.word
/-- The items of an array, with commas between them. -/
def compactItems : List Json → List Char
  | [] => []
  | [item] => compact item
  | item :: items => compact item ++ ',' :: compactItems items
/-- The members of an object, with commas between them. -/
def compactMembers : List (String × Json) → List Char
  | [] => []
  | [(name, value)] => quote name ++ ':' :: compact value
  | (name, value) :: members => quote name ++ ':' :: compact value ++ ',' :: compactMembers members
end

/-- A line break and the indentation of a level. -/
def newline (level : Nat) : List Char :=
  '\n' :: List.replicate (2 * level) ' '

mutual
/-- The indented text of a value that starts on the given level. -/
def indented (level : Nat) : Json → List Char
  | array [] => ['[', ']']
  | array items => '[' :: indentedItems (level + 1) items ++ newline level ++ [']']
  | object [] => ['{', '}']
  | object members => '{' :: indentedMembers (level + 1) members ++ newline level ++ ['}']
  | value => value.word
/-- The items of an array, each on lines of its own. -/
def indentedItems (level : Nat) : List Json → List Char
  | [] => []
  | [item] => newline level ++ indented level item
  | item :: items => newline level ++ indented level item ++ ',' :: indentedItems level items
/-- The members of an object, each on lines of its own. -/
def indentedMembers (level : Nat) : List (String × Json) → List Char
  | [] => []
  | [(name, value)] => newline level ++ quote name ++ ':' :: ' ' :: indented level value
  | (name, value) :: members =>
    newline level ++ quote name ++ ':' :: ' ' :: indented level value
      ++ ',' :: indentedMembers level members
end

/-- The compact text of a value. -/
def toCompact (value : Json) : String := String.ofList (compact value)

/-- The indented text of a value. -/
def toIndented (value : Json) : String := String.ofList (indented 0 value)

end TypeCatalog.Json
