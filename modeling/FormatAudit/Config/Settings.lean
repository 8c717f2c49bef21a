import FormatAudit.Intake.Scalar
import FormatAudit.ShellWords

/-!
The settings of one linter. Extensions may be given as a comma separated text and arguments as a
command line.
-/
namespace FormatAudit

/-- What to run a linter with. The launcher is a command line that comes before the program; the
directory is seen from the root of the workspace. -/
structure Settings where
  enabled : Bool
  extensions : List Text
  args : List Text
  launcher : Text
  directory : Path
  deriving DecidableEq, Repr

namespace Settings

def standard : Settings := ⟨true, [], [], [], Path.here⟩

def recordName : Text := "LinterSettings".toList

def fieldNames : List Text :=
  ["enabled".toList, "extensions".toList, "args".toList, "prefix".toList, "directory".toList]

def readExtensions : Value → Intake.Checked (List Text)
  | .text t => .ok (Text.commaItems t)
  | v => Intake.listOf Intake.text v

def readArgs : Value → Intake.Checked (List Text)
  | .text t => match ShellWords.split t with
    | .ok words => .ok words
    | .error fault => Intake.refuse (.invalid fault.message)
  | v => Intake.listOf Intake.text v

def readFields (fs : Fields) : Intake.Checked Settings :=
  Intake.plus (Intake.both (Intake.both (Intake.both (Intake.both
    ((Intake.optional "enabled".toList Intake.bool standard.enabled fs).map mk)
    (Intake.optional "extensions".toList readExtensions standard.extensions fs))
    (Intake.optional "args".toList readArgs standard.args fs))
    (Intake.optional "prefix".toList Intake.text standard.launcher fs))
    (Intake.optional "directory".toList Intake.path standard.directory fs))
    (Intake.unknownFields fieldNames fs)

def read : Value → Intake.Checked Settings :=
  Intake.record .values recordName readFields

def assign (field : Text) (v : Value) (s : Settings) : Intake.Checked Settings :=
  let put {α : Type} (read : Value → Intake.Checked α) (set : α → Settings) :=
    (Intake.within (.field field) (read v)).map set
  if field = "enabled".toList then put Intake.bool fun x => { s with enabled := x }
  else if field = "extensions".toList then put readExtensions fun x => { s with extensions := x }
  else if field = "args".toList then put readArgs fun x => { s with args := x }
  else if field = "prefix".toList then put Intake.text fun x => { s with launcher := x }
  else if field = "directory".toList then put Intake.path fun x => { s with directory := x }
  else Intake.noField field

def toValue (s : Settings) : Value :=
  .table [("enabled".toList, .bool s.enabled),
    ("extensions".toList, .list (s.extensions.map Value.text)),
    ("args".toList, .list (s.args.map Value.text)), ("prefix".toList, .text s.launcher),
    ("directory".toList, .text s.directory.text)]

end Settings

end FormatAudit
