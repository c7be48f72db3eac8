/-
NativeTypes.Main — the program: the commands on the files of this machine.
-/
import NativeTypes.CommandLine.Run

namespace NativeTypes.CommandLine

/-- The kind of a fault that the system reports. -/
def FileFaultKind.ofError : IO.Error → FileFaultKind
  | .noFileOrDirectory .. | .noSuchThing .. => .missing
  | .alreadyExists .. => .alreadyThere
  | .inappropriateType _ code details | .permissionDenied _ code details
  | .resourceExhausted _ code details => ofCode code details
  | .invalidArgument _ code details | .otherError code details
  | .hardwareFault code details | .resourceBusy code details =>
    ofCode code details
  | e => .other 0 (toString e)
where
  /-- The kind with a number. -/
  ofCode (code : UInt32) (details : String) : FileFaultKind :=
    if code = 20 then .notDirectory
    else if code = 21 then .isDirectory
    else if code = 36 then .tooLong
    else .other code.toNat details

/-- An operation on a path, with the fault it may end in. -/
def attempt {α : Type} (p : Path) (operation : IO α) : IO (Except FileFault α) := do
  if isImpossible p then return .error ⟨.nullByte, p⟩
  try return .ok (← operation)
  catch e => return .error ⟨.ofError e, p⟩

/-- A path leads to a directory: the directory `.` is there in it already. -/
def leadsToDirectory (p : Path) : IO Bool := do
  match ← attempt p (IO.FS.createDir (p.text ++ "/.")) with
  | .error fault => return fault.kind = .alreadyThere
  | .ok _ => return false

/-- The files of this machine. -/
def machine : Host IO where
  read p := attempt p do
    let octets ← IO.FS.readBinFile p.text
    return octets.toList.map UInt8.toNat
  write p text := attempt p (IO.FS.writeFile p.text text)
  makeDirectory p := attempt p (IO.FS.createDir p.text)
  isDirectory := leadsToDirectory

end NativeTypes.CommandLine

open NativeTypes.CommandLine in
/-- Runs the command that the arguments name. -/
def main (arguments : List String) : IO UInt32 := do
  let outcome ← run machine arguments
  IO.print outcome.out
  for (level, text) in outcome.log do
    IO.eprintln ("[" ++ level.word ++ "] dbgcodegen: " ++ text)
  IO.eprint outcome.err
  return outcome.exit.toUInt32
