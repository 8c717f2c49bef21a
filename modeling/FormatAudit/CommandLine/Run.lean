import FormatAudit.CommandLine.Request
import FormatAudit.Config.Load
import FormatAudit.Console.Report
import FormatAudit.FileTree.Canonical

/-!
Runs of the whole program. The exit status is 0 if all is well, 1 if a linter found something or
could not be run, 2 if the command line or the configuration cannot be used, and 130 after an
interruption. A failure that asks the program to end does so. Any other failure passes, and it is up
to the caller what to do about it.
-/
namespace FormatAudit

namespace CommandLine

inductive Exit where
  | clean
  | findings
  | unusable
  | misused (fault : UsageFault)
  | aborted
  | interrupted
  deriving DecidableEq, Repr

def Exit.status : Exit → Nat
  | .clean => 0
  | .findings => 1
  | .unusable => 2
  | .misused _ => 2
  | .aborted => 1
  | .interrupted => 130

def helpText : Text :=
  ("Usage: lint [ROOT] [OPTIONS] | list\n\n" ++
    "  lint  Run linters over ROOT and report code style violations.\n" ++
    "  list  List registered linters.\n\n" ++
    "Options of lint:\n" ++
    "  -l, --linter NAME     Linter to run; may be repeated.\n" ++
    "  --extensions LIST     Comma separated file extensions.\n" ++
    "  --fix                 Apply fixes in place.\n" ++
    "  --args WORDS          Extra formatter arguments.\n" ++
    "  --prefix WORDS        Command before the formatter.\n" ++
    "  -j, --jobs N          Files checked at a time.\n" ++
    "  --timeout SECONDS     Time limit of one command.\n" ++
    "  --config FILE         Configuration file.\n" ++
    "  --no-emoji            No emoji in the output.\n" ++
    "  --no-color            No colours in the output.\n").toList

end CommandLine

namespace LintRequest

def rootIsFile (r : LintRequest) : Run Bool := do
  let host ← read
  return match (← get).tree.entry host.here (Path.ofText r.root) with
    | .ok (.file ..) => true
    | _ => false

def workspace (r : LintRequest) : Run Path := do
  let host ← read
  let tree := (← get).tree
  let p := tree.canonical host.here (Path.ofText r.root)
  match tree.entry host.here p with
  | .error .tooManyLinks => throw (.linkLoop p.text)
  | _ => return p

def names (r : LintRequest) (registry : Registry Linter) (c : Config) :
    Except Failure (List Text) :=
  if r.linters ≠ [] then .ok r.linters
  else if c.enabledLinters ≠ [] then .ok c.enabledLinters
  else match registry.names with
    | first :: _ => .ok [first]
    | [] => .error (.foreign .other "StopIteration".toList [])

def applyTo (r : LintRequest) (c : Config) : Config :=
  { c with
    execution :=
      { autoFix := r.fix || c.execution.autoFix
        jobs := r.jobs.getD c.execution.jobs
        timeout := r.timeout.or c.execution.timeout }
    output :=
      { emoji := c.output.emoji && !r.noEmoji
        color := c.output.color && !r.noColor } }

def reports (r : LintRequest) (registry : Registry Linter) (workspace : Path) :
    Run (List Report × Output) := do
  let loaded ← Config.load workspace r.configFile
  let names ← Run.ofExcept id (r.names registry loaded)
  let overridden ← Run.ofExcept id (loaded.override r.overrides names)
  let config := r.applyTo overridden
  return (← registry.runAll config workspace names, config.output)

def conclude (reports : List Report) (output : Output) : Run CommandLine.Exit := do
  Run.showReports reports output
  return if reports.all Report.isOk then .clean else .findings

/-- Ends the program before its time if a failure asks for that; a departure leaves a message. Any
other failure passes. -/
def giveUp : Failure → Run CommandLine.Exit
  | .foreign .endOfInput _ _ => return .aborted
  | .foreign .interruption _ _ => return .interrupted
  | .foreign .departure _ message => do
    Run.print (message ++ ['\n'])
    return .aborted
  | f => throw f

def run (r : LintRequest) (registry : Registry Linter) : Run CommandLine.Exit := do
  let workspace ← r.workspace
  match ← Run.attempt (r.reports registry workspace) with
  | .ok (reports, output) => conclude reports output
  | .error f =>
    if f.isOfUser then
      Run.say .fail f.message (!r.noEmoji) (some !r.noColor)
      return .unusable
    else giveUp f

end LintRequest

namespace Request

def check : Request → Run (Option CommandLine.UsageFault)
  | .lint r => do return if ← r.rootIsFile then some (.notDirectory r.root) else none
  | _ => return none

def run (registry : Registry Linter) : Request → Run CommandLine.Exit
  | .help => do
    Run.print CommandLine.helpText
    return .clean
  | .listLinters => do
    for name in registry.names do
      Run.print (name ++ ['\n'])
    return .clean
  | .lint r => r.run registry

end Request

namespace CommandLine

def runWith (registry : Registry Linter) (args : List Text) : Run Exit := do
  match Request.ofArguments (← read).numerals args with
  | .error fault => return .misused fault
  | .ok request => match ← request.check with
    | some fault => return .misused fault
    | none => request.run registry

def run (args : List Text) : Run Exit :=
  runWith Registry.standard args

end CommandLine

end FormatAudit
