import FormatAudit.Envelope
import FormatAudit.Violation.Recorder

/-!
Findings: the violations of a run by severity, and the sentence that sums them up.
-/
namespace FormatAudit

inductive Severity where
  | error
  | warning
  deriving DecidableEq, Repr

namespace Severity

def all : List Severity := [error, warning]

def name : Severity → Text
  | .error => "error".toList
  | .warning => "warning".toList

def ofName? (t : Text) : Option Severity :=
  all.find? fun s => s.name = t

end Severity

structure Findings where
  isSuccess : Bool
  warnings : List Violation
  errors : List Violation
  deriving DecidableEq, Repr

namespace Findings

def recordName : Text := "LintResult".toList

def read (form : Intake.Form) : Value → Intake.Checked Findings :=
  Intake.record form recordName fun fs =>
    Intake.both (Intake.both
      ((Intake.required "is_success".toList Intake.bool fs).map mk)
      (Intake.optional "warning".toList (Intake.sequenceOf form (Violation.read form)) [] fs))
      (Intake.optional "error".toList (Intake.sequenceOf form (Violation.read form)) [] fs)

def toValue (f : Findings) : Value :=
  .table [("is_success".toList, .bool f.isSuccess),
    ("warning".toList, .list (f.warnings.map Violation.toValue)),
    ("error".toList, .list (f.errors.map Violation.toValue))]

def ofSeverity (f : Findings) : Severity → List Violation
  | .error => f.errors
  | .warning => f.warnings

def violations (f : Findings) : List Violation :=
  f.errors ++ f.warnings

def summary (f : Findings) (linter : Text) : Text :=
  let errors := Text.ofNat f.errors.length ++ " errors".toList
  let warnings := Text.ofNat f.warnings.length ++ " warnings".toList
  let found := match f.errors, f.warnings with
    | [], [] => "No code style issues found".toList
    | _ :: _, [] => "Found ".toList ++ errors
    | [], _ :: _ => "Found ".toList ++ warnings
    | _ :: _, _ :: _ => "Found ".toList ++ errors ++ " and ".toList ++ warnings
  found ++ " with ".toList ++ linter

/-- The findings that an envelope amounts to. An envelope of status 0 is a success, whatever files
it lists. -/
def ofEnvelope (e : Envelope) : Except Intake.Rejection Findings :=
  if e.status = 0 then .ok ⟨true, [], []⟩
  else do
    let found ← e.payload.mapM fun c => Violation.ofHunks c.file c.changes
    return ⟨false, [], found.flatten⟩

end Findings

end FormatAudit
