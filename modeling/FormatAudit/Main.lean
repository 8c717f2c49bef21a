import FormatAudit.CommandLine.Run
import FormatAudit.Json.Reader
import FormatAudit.Snapshot.Reader

/-!
The program: it reads a snapshot of a workspace, a JSON text in one line, from standard input and
runs its arguments on it.
-/
namespace FormatAudit

def Snapshot.ofLine (line : Text) : Snapshot :=
  match Json.parse? line with
  | some (.table fs) => Snapshot.ofFields fs
  | _ => Snapshot.ofFields []

def CommandLine.finish : Except Failure CommandLine.Exit → Nat × Option Text
  | .ok exit => (exit.status, match exit with
    | .misused fault => some fault.message
    | _ => none)
  | .error f => (1, some f.message)

end FormatAudit

def main (args : List String) : IO UInt32 := do
  let line ← (← IO.getStdin).getLine
  let run := FormatAudit.CommandLine.run (args.map String.toList)
  let (result, session) := (FormatAudit.Snapshot.ofLine line.toList).run run
  let (status, complaint) := FormatAudit.CommandLine.finish result
  (← IO.getStdout).putStr (String.ofList session.log)
  if let some t := complaint then
    (← IO.getStderr).putStrLn (String.ofList t)
  return status.toUInt32
