/-! # JSON values

    The data format of caches and manifests. A number is kept as an integer where it is one that
    fits sixty-four bits, and as its text otherwise, so that `1`, `1.0` and `-0` stay apart.
-/

set_option autoImplicit false

namespace TypeCatalog

/-- A JSON value. -/
inductive Json where
  /-- The word `null`. -/
  | null
  /-- A truth value. -/
  | bool (value : Bool)
  /-- A number without fraction and exponent, from `-2^63` to `2^64 - 1`, and not `-0`. -/
  | integer (value : Int)
  /-- Any other number, as it is written. -/
  | decimal (text : String)
  /-- A string. -/
  | string (value : String)
  /-- A list of values. -/
  | array (items : List Json)
  /-- Values by name, in the order they are written. -/
  | object (members : List (String × Json))
  deriving Inhabited

namespace Json

/-- The value of a member; of several members of one name the last counts. -/
def lookup? (name : String) (members : List (String × Json)) : Option Json :=
  (members.reverse.find? fun m => m.1 == name).map Prod.snd

/-- The member of a value, if the value is an object that has it. -/
def member? (name : String) : Json → Option Json
  | object members => lookup? name members
  | _ => none

/-- The string a value is. -/
def string? : Json → Option String
  | string value => some value
  | _ => none

/-- The items of an array. -/
def array? : Json → Option (List Json)
  | array items => some items
  | _ => none

/-- The natural number below `bound` that a value is. -/
def natBelow? (bound : Nat) : Json → Option Nat
  | integer (Int.ofNat n) => if n < bound then some n else none
  | _ => none

/-- The strings of an array of strings. -/
def strings? (value : Json) : Option (List String) :=
  value.array?.bind fun items => items.mapM string?

end Json

end TypeCatalog
