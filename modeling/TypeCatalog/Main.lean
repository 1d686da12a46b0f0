import TypeCatalog.Command.Run

/-! # The program

    The program on the files, the environment and the clock of a machine.
-/

set_option autoImplicit false

namespace TypeCatalog

/-- The fault that an error of the system is. -/
def faultOf (e : IO.Error) : FileFault :=
  match e with
  | .noFileOrDirectory _ _ _ => .notFound
  | .noSuchThing _ _ _ => .notFound
  | .alreadyExists _ _ _ => .alreadyThere
  | .invalidArgument _ 36 _ => .nameTooLong
  | .inappropriateType _ code _ => if code = 20 then .notDirectory else .isDirectory
  | e => .other (toString e)

/-- Run a step on files. A path with the character with code zero names no file. -/
def onFiles {α : Type} (path : String) (step : IO α) : BaseIO (Except FileFault α) := do
  if path.toList.contains '\x00' then
    return .error .zeroInPath
  match ← step.toBaseIO with
  | .ok a => return .ok a
  | .error e => return .error (faultOf e)

/-- The directory that a file stands in. -/
def folderOf (path : String) : String := String.ofList (Text.beforeLast '/' path.toList)

/-- The files of the machine. -/
def machineStorage : Storage BaseIO where
  read path := onFiles path do
    return (← IO.FS.readBinFile (Path.join "." path)).toList
  write path bytes := onFiles path do
    let file := Path.join "." path
    unless (folderOf file).isEmpty do
      IO.FS.createDirAll (folderOf file)
    IO.FS.writeBinFile file ⟨bytes.toArray⟩

/-- The machine. -/
def machine : Host BaseIO where
  storage := machineStorage
  environment := IO.getEnv
  clock := IO.monoMsNow

end TypeCatalog

/-- Run the program with the given arguments, and print its report. -/
def main (arguments : List String) : IO UInt32 := do
  let report : TypeCatalog.Report ←
    (TypeCatalog.Command.execute TypeCatalog.machine arguments : BaseIO TypeCatalog.Report)
  (← IO.getStdout).putStr report.output
  (← IO.getStderr).putStr report.errors
  return UInt32.ofNat report.status
