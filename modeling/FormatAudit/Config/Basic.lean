import FormatAudit.Config.Settings

/-!
The configuration: how runs are executed, how they are shown, and the settings of each linter.
Keys that are not known are refused everywhere.
-/
namespace FormatAudit

def usedShare : Binary64 :=
  Binary64.ofDecimal false 75 (-2)

/-- Three quarters of the processors as floating-point numbers have it, and at least one job. There
is no answer for a number of processors that is beyond these numbers. -/
def defaultJobs? (processors : Option Int) : Option Nat :=
  ((Binary64.ofInt (processors.getD 1)).mul usedShare).floor?.map fun n => max 1 n.toNat

structure Execution where
  jobs : Nat
  timeout : Option Binary64
  autoFix : Bool
  deriving DecidableEq, Repr

namespace Execution

def recordName : Text := "ExecutionConfig".toList

def fieldNames : List Text :=
  ["jobs".toList, "timeout".toList, "auto_fix".toList]

def standard (jobs : Nat) : Execution := ⟨jobs, none, false⟩

def readJobs (v : Value) : Intake.Checked Nat :=
  Intake.int v >>= Intake.atLeast 1

def leavesJobsOpen : Value → Bool
  | .table fs => (Fields.get? fs "jobs".toList).isNone
  | _ => false

def readTimeout : Value → Intake.Checked (Option Binary64) :=
  Intake.nullable fun v => Intake.float v >>= Intake.positive

def read (jobs : Nat) : Value → Intake.Checked Execution :=
  Intake.record .values recordName fun fs =>
    Intake.plus (Intake.both (Intake.both
      ((Intake.optional "jobs".toList readJobs jobs fs).map mk)
      (Intake.optional "timeout".toList readTimeout none fs))
      (Intake.optional "auto_fix".toList Intake.bool false fs))
      (Intake.unknownFields fieldNames fs)

def assign (field : Text) (v : Value) (e : Execution) : Intake.Checked Execution :=
  let put {α : Type} (read : Value → Intake.Checked α) (set : α → Execution) :=
    (Intake.within (.field field) (read v)).map set
  if field = "jobs".toList then put readJobs fun x => { e with jobs := x }
  else if field = "timeout".toList then put readTimeout fun x => { e with timeout := x }
  else if field = "auto_fix".toList then put Intake.bool fun x => { e with autoFix := x }
  else Intake.noField field

def toValue (e : Execution) : Value :=
  .table [("jobs".toList, .int e.jobs),
    ("timeout".toList, (e.timeout.map Value.float).getD .null), ("auto_fix".toList, .bool e.autoFix)]

end Execution

structure Output where
  emoji : Bool
  color : Bool
  deriving DecidableEq, Repr

namespace Output

def recordName : Text := "OutputConfig".toList

def fieldNames : List Text :=
  ["emoji".toList, "color".toList]

def standard : Output := ⟨true, true⟩

def read : Value → Intake.Checked Output :=
  Intake.record .values recordName fun fs =>
    Intake.plus (Intake.both
      ((Intake.optional "emoji".toList Intake.bool true fs).map mk)
      (Intake.optional "color".toList Intake.bool true fs))
      (Intake.unknownFields fieldNames fs)

def assign (field : Text) (v : Value) (o : Output) : Intake.Checked Output :=
  let put (set : Bool → Output) := (Intake.within (.field field) (Intake.bool v)).map set
  if field = "emoji".toList then put fun x => { o with emoji := x }
  else if field = "color".toList then put fun x => { o with color := x }
  else Intake.noField field

def toValue (o : Output) : Value :=
  .table [("emoji".toList, .bool o.emoji), ("color".toList, .bool o.color)]

end Output

structure Config where
  execution : Execution
  output : Output
  linters : List (Text × Settings)
  deriving DecidableEq, Repr

namespace Config

def recordName : Text := "Config".toList

def fieldNames : List Text :=
  ["execution".toList, "output".toList, "linters".toList]

def standard (jobs : Nat) : Config := ⟨Execution.standard jobs, Output.standard, []⟩

def readLinters : Value → Intake.Checked (List (Text × Settings)) :=
  Intake.tableOf Settings.read

def read (jobs : Nat) : Value → Intake.Checked Config :=
  Intake.record .values recordName fun fs =>
    Intake.plus (Intake.both (Intake.both
      ((Intake.optional "execution".toList (Execution.read jobs) (Execution.standard jobs) fs).map
        mk)
      (Intake.optional "output".toList Output.read Output.standard fs))
      (Intake.optional "linters".toList readLinters [] fs))
      (Intake.unknownFields fieldNames fs)

def leavesJobsOpen : Value → Bool
  | .table fs => match Fields.get? fs "execution".toList with
    | some v => Execution.leavesJobsOpen v
    | none => true
  | _ => false

/-- The number of jobs to read with. It matters only where a number is left open, and only there it
may be that there is none. -/
def jobsToRead? (processors : Option Int) (isOpen : Bool) : Option Nat :=
  if isOpen then defaultJobs? processors else some 1

def readOn (processors : Option Int) (v : Value) : Option (Intake.Checked Config) :=
  (jobsToRead? processors (leavesJobsOpen v)).map fun jobs => read jobs v

def toValue (c : Config) : Value :=
  .table [("execution".toList, c.execution.toValue), ("output".toList, c.output.toValue),
    ("linters".toList, .table (c.linters.map fun l => (l.1, l.2.toValue)))]

def settings? (c : Config) (name : Text) : Option Settings :=
  (c.linters.find? fun l => l.1 = name).map (·.2)

def settingsFor (c : Config) (name : Text) (defaults : List Text) : Settings :=
  let s := (c.settings? name).getD Settings.standard
  if s.extensions = [] then { s with extensions := defaults } else s

def enabledLinters (c : Config) : List Text :=
  (c.linters.filter fun l => l.2.enabled).map (·.1)

def putLinter (name : Text) (s : Settings) : List (Text × Settings) → List (Text × Settings)
  | [] => [(name, s)]
  | (n, t) :: r => if n = name then (name, s) :: r else (n, t) :: putLinter name s r

inductive Part where
  | whole
  | execution
  | output
  | linter (name : Text)
  deriving DecidableEq, Repr

def assignWhole (jobs : Nat) (field : Text) (v : Value) (c : Config) : Intake.Checked Config :=
  let put {α : Type} (read : Value → Intake.Checked α) (set : α → Config) :=
    (Intake.within (.field field) (read v)).map set
  if field = "execution".toList then put (Execution.read jobs) fun x => { c with execution := x }
  else if field = "output".toList then put Output.read fun x => { c with output := x }
  else if field = "linters".toList then put readLinters fun x => { c with linters := x }
  else Intake.noField field

/-- Gives one field of a record a new value, which is checked like a value that is read. A private
name and a linter that is not configured are left out of account. -/
def assign (jobs : Nat) (part : Part) (field : Text) (v : Value) (c : Config) :
    Except Intake.Rejection Config :=
  if Intake.isPrivate field then .ok c
  else match part with
  | .whole => Intake.named recordName (c.assignWhole jobs field v)
  | .execution => Intake.named Execution.recordName <|
    (c.execution.assign field v).map fun x => { c with execution := x }
  | .output => Intake.named Output.recordName <|
    (c.output.assign field v).map fun x => { c with output := x }
  | .linter name => match c.settings? name with
    | none => .ok c
    | some s => Intake.named Settings.recordName <|
      (s.assign field v).map fun x => { c with linters := putLinter name x c.linters }

def assignOn (processors : Option Int) (part : Part) (field : Text) (v : Value) (c : Config) :
    Option (Except Intake.Rejection Config) :=
  let isOpen : Bool := part = .whole ∧ field = "execution".toList ∧ Execution.leavesJobsOpen v
  (jobsToRead? processors isOpen).map fun jobs => c.assign jobs part field v

def partValue (part : Part) (c : Config) : Value :=
  match part with
  | .whole => c.toValue
  | .execution => c.execution.toValue
  | .output => c.output.toValue
  | .linter name => ((c.settings? name).map Settings.toValue).getD .null

end Config

end FormatAudit
