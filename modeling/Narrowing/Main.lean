import Narrowing.Command.Run

/-!
# The program

Runs the command with the files and the streams of the system.
-/

open Narrowing in
/-- Run the command on files of the system; a fault ends it with exit code 2. -/
def main (args : List String) : IO UInt32 := do
  let read (path : String) : IO (Except Command.FileFailure String) := do
    try
      return .ok (← IO.FS.readFile path)
    catch
      | .noFileOrDirectory .. => return .error .missing
      | e => return .error (.closed (toString e))
  let dir := Text.pathNames (← IO.currentDir).toString
  match ← Command.run (fun _ => true) read dir "wyec" .development args with
  | .error f =>
    (← IO.getStderr).putStr ("fault: " ++ f.message.getD "" ++ "\n")
    return 2
  | .ok outcome =>
    (← IO.getStdout).putStr outcome.stdout
    (← IO.getStderr).putStr outcome.stderr
    return outcome.exit.toUInt32
