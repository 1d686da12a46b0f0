import TypeCatalog.Text.Segment

/-! # Command line arguments

    The arguments of a program with commands: options before the command are those of the program,
    and after it those of the command and of the program alike. An option with a value takes it from
    behind an equals sign, from the rest of its argument, or from the next argument. What is wrong
    with arguments is found in their order, so a wrong argument before a plea for help counts and
    one after it does not.
-/

set_option autoImplicit false

namespace TypeCatalog.Command

/-! ## Section 1: What a program takes -/

/-- The values of an option. -/
inductive Form where
  /-- None: the option stands for itself. -/
  | flag
  /-- Any text. -/
  | text
  /-- A text that is not empty. -/
  | path
  /-- Texts with commas between them; the option may come more than once. -/
  | list
  deriving DecidableEq, Repr

/-- An option of a program or of a command. -/
structure OptionForm where
  /-- The name after two dashes. -/
  name : String
  /-- The letter after one dash, if there is one. -/
  letter : Option Char
  form : Form
  deriving DecidableEq, Repr

/-- An argument that is no option. -/
structure PlainForm where
  name : String
  form : Form
  isRequired : Bool
  deriving DecidableEq, Repr

/-- What a command takes. -/
structure Shape where
  options : List OptionForm
  plain : List PlainForm
  deriving Repr

/-- How arguments can fail to be a command. -/
inductive Usage where
  /-- They ask for help. -/
  | help
  /-- They are wrong. -/
  | wrong
  deriving DecidableEq, Repr

/-- Values by the names of their options, in order. -/
abbrev Found := List (String × String)

namespace Found

/-- The values of an option. -/
def all (f : Found) (name : String) : List String :=
  (List.filter (fun entry => entry.1 == name) f).map Prod.snd

/-- The value of an option that comes at most once. -/
def get? (f : Found) (name : String) : Option String := (f.all name).head?

/-- Whether an option is there. -/
def has (f : Found) (name : String) : Bool := (f.get? name).isSome

end Found

/-! ## Section 2: Options -/

/-- The texts of a value of the given form, unless it does not do. -/
def valuesOf (form : Form) (value : String) : Option (List String) :=
  match form with
  | .flag => some [value]
  | .text => some [value]
  | .path => if value = "" then none else some [value]
  | .list => some ((Text.segments ',' value.toList).map String.ofList)

/-- Add a value. Only lists may come more than once. -/
def addValue (found : Found) (name : String) (form : Form) (value : String) :
    Except Usage Found :=
  if form ≠ .list ∧ found.has name then .error .wrong
  else
    match valuesOf form value with
    | some values => .ok (found ++ values.map fun v => (name, v))
    | none => .error .wrong

/-- What one argument with options gives. -/
inductive OptionStep where
  /-- All options have their values. -/
  | complete (found : Found)
  /-- The last option takes the next argument as its value. -/
  | pending (found : Found) (option : OptionForm)

/-- An argument after its two dashes. -/
def longOption (shape : Shape) (found : Found) (s : List Char) : Except Usage OptionStep :=
  let name := String.ofList (Text.beforeFirst '=' s)
  let value := (s.drop name.length).tail?.map String.ofList
  match shape.options.find? fun o => o.name == name, value with
  | none, none => .error (if name = "help" then .help else .wrong)
  | none, some _ => .error .wrong
  | some o, none =>
    if o.form = .flag then (addValue found name .flag "").map .complete
    else .ok (.pending found o)
  | some o, some value =>
    if o.form = .flag then .error .wrong else (addValue found name o.form value).map .complete

/-- A value that follows the letter of its option in the same argument. -/
def attachedValue (s : List Char) : String :=
  String.ofList (if s.head? = some '=' then s.tail else s)

/-- An argument after its one dash: letters of options without values, and possibly one with a value
    at the end. -/
def shortOptions (shape : Shape) (found : Found) (s : List Char) : Except Usage OptionStep :=
  match s with
  | [] => .ok (.complete found)
  | c :: rest =>
    match shape.options.find? fun o => o.letter == some c with
    | none => .error (if c = 'h' then .help else .wrong)
    | some o =>
      if o.form = .flag then
        match addValue found o.name .flag "" with
        | .ok found => shortOptions shape found rest
        | .error e => .error e
      else if rest.isEmpty then .ok (.pending found o)
      else (addValue found o.name o.form (attachedValue rest)).map .complete

/-! ## Section 3: Commands -/

/-- What kind of argument a text is. -/
inductive Kind where
  /-- The mark after which no options come. -/
  | mark
  | long (s : List Char)
  | short (s : List Char)
  | plain
  deriving DecidableEq, Repr

/-- The kind of an argument. One dash alone is plain. -/
def kindOf (argument : String) : Kind :=
  match argument.toList with
  | ['-', '-'] => .mark
  | '-' :: '-' :: rest => .long rest
  | '-' :: c :: rest => .short (c :: rest)
  | _ => .plain

/-- Add an argument that is no option: the first of those that are still missing. -/
def addPlain (shape : Shape) (found : Found) (value : String) : Except Usage Found :=
  match shape.plain.find? fun p => !found.has p.name with
  | some p => addValue found p.name p.form value
  | none => .error .wrong

/-- Add a value that is an argument of its own, which must not look like an option. -/
def takeValue (found : Found) (o : OptionForm) (value : String) : Except Usage Found :=
  if kindOf value = .plain then addValue found o.name o.form value else .error .wrong

/-- Add arguments none of which is an option. -/
def addAllPlain (shape : Shape) (found : Found) : List String → Except Usage Found
  | [] => .ok found
  | value :: rest => do
    let found ← addPlain shape found value
    addAllPlain shape found rest

/-- Read arguments: up to the first that is no option, which is left with all after it, if a command
    is to come; otherwise all. -/
def readArguments (shape : Shape) (commandComes : Bool) (found : Found) (arguments : List String) :
    Except Usage (Found × List String) :=
  match arguments with
  | [] => .ok (found, [])
  | a :: rest =>
    match kindOf a with
    | .mark =>
      if commandComes then .error .wrong
      else (addAllPlain shape found rest).map fun found => (found, [])
    | .plain => do
      if commandComes then return (found, a :: rest)
      let found ← addPlain shape found a
      readArguments shape commandComes found rest
    | .long s => do
      match ← longOption shape found s, rest with
      | .complete found, rest => readArguments shape commandComes found rest
      | .pending _ _, [] => throw .wrong
      | .pending found o, value :: rest =>
        let found ← takeValue found o value
        readArguments shape commandComes found rest
    | .short s => do
      match ← shortOptions shape found s, rest with
      | .complete found, rest => readArguments shape commandComes found rest
      | .pending _ _, [] => throw .wrong
      | .pending found o, value :: rest =>
        let found ← takeValue found o value
        readArguments shape commandComes found rest

end TypeCatalog.Command
