import FormatAudit.Command.Environment
import FormatAudit.Command.Lookup
import FormatAudit.Command.Options
import FormatAudit.Value.Display

/-!
Running a command. A command that takes too long counts as one that exits with the status 124 and
says so on its error stream.
-/
namespace FormatAudit

structure Completed where
  args : List Text
  code : Int
  stdout : Option Stream
  stderr : Option Stream
  deriving DecidableEq, Repr

namespace Command

def timeoutCode : Int := 124

def streamText : Option Stream → Text
  | none => []
  | some (.text t) => t
  | some (.bytes b) => Utf8.decodeDropping b

def textOnly : Option Stream → Option Text
  | some (.text t) => some t
  | _ => none

def seconds : Value → Except TimeoutFault Binary64
  | .bool b => .ok (Binary64.ofInt (if b then 1 else 0))
  | .int n => if (Binary64.ofInt n).isFinite then .ok (Binary64.ofInt n) else .error .tooLarge
  | .float x => .ok x
  | .list _ => .error .list
  | .table _ => .error .table
  | _ => .error .text

def timeoutLine : Value → Except TimeoutFault Text
  | .null => .ok "Command timed out".toList
  | v => (seconds v).map fun x =>
    "Command timed out after ".toList ++ x.tenthsText ++ ['s']

def timedOut (args : List Text) (timeout : Value) (stdout stderr : Option Stream) :
    Except TimeoutFault Completed :=
  (timeoutLine timeout).map fun line =>
    let said := streamText stderr
    ⟨args, timeoutCode, some (.text (streamText stdout)),
      some (.text (if said = [] then line else said ++ '\n' :: line))⟩

def complete (args : List Text) (timeout : Value) : Outcome → Except Failure Completed
  | .exited code stdout stderr => .ok ⟨args, code, stdout, stderr⟩
  | .timedOut stdout stderr => (timedOut args timeout stdout stderr).mapError Failure.timeout
  | .failed failure => .error failure

def directoryText : Value → Option Text
  | .null => none
  | .text t => some t
  | v => some v.display

def toLaunch (args : List Text) (o : Options) : Except EnvironmentFault Launch :=
  (environment o.environment).map fun e =>
    ⟨args, directoryText o.directory, e, o.captureOutput, o.asText, o.timeout, o.discardInput.holds⟩

def checked (o : Options) (c : Completed) : Except Failure Completed :=
  if o.check.holds ∧ c.code ≠ 0 then
    .error (.exited c.args c.code (textOnly c.stdout) (textOnly c.stderr))
  else .ok c

def run (args : List Text) (options : Options) (overrides : Fields) : Run Completed := do
  let args ← resolve args
  let options ← Run.ofExcept id (options.override overrides)
  let outcome ← Run.launch (← Run.ofExcept .environment (toLaunch args options))
  let completed ← Run.ofExcept id (complete args options.timeout outcome)
  Run.ofExcept id (checked options completed)

end Command

end FormatAudit
