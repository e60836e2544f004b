import MarkupTemplate.CommandLine
import MarkupTemplate.Host.Run

/-!
# The program

Runs the command line on the files of the machine.

* `disk`: the files of the machine.
-/

namespace MarkupTemplate.CommandLine

/-- The fault that the machine reports. -/
def faultOf (e : IO.Error) : FileFault :=
  match e with
  | .noFileOrDirectory .. => .notFound
  | .permissionDenied .. => .denied
  | .inappropriateType _ 20 _ => .notADirectory
  | .inappropriateType _ 21 _ => .isADirectory
  | other => .other (toString other)

/-- The outcome of a step on the machine. -/
def attempt {α : Type} (x : IO α) : IO (Except FileFault α) := do
  try return .ok (← x)
  catch e => return .error (faultOf e)

/-- The files of the machine. -/
def disk : FileSystem IO where
  read path := attempt do return (← IO.FS.readBinFile path.text).toList
  write path text := attempt (IO.FS.writeFile path.text text)

/-- Prints a report and answers its exit status. -/
def print (r : Report) : IO UInt32 := do
  (← IO.getStdout).putStr r.output
  (← IO.getStderr).putStr (r.usage ++ r.messages)
  return r.status.toUInt32

/-- Runs the command line. -/
def start (arguments : List String) : IO UInt32 := do
  match ← run disk (Host.language Host.deepest) arguments with
  | .ok r => print r
  | .error e => print ⟨1, "", "", e.summary ++ "\n"⟩

end MarkupTemplate.CommandLine

/-- Runs the command line. -/
def main (arguments : List String) : IO UInt32 := MarkupTemplate.CommandLine.start arguments
