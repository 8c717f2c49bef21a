import FormatAudit.Diff.Hunk
import FormatAudit.Json.Printer
import FormatAudit.Json.Reader

/-!
Envelopes: what a linter hands over after a run, either as a value or as a JSON text.
-/
namespace FormatAudit

structure FileChanges where
  file : Text
  changes : List Hunk
  deriving DecidableEq, Repr

namespace FileChanges

def recordName : Text := "FileChanges".toList

def read (form : Intake.Form) : Value → Intake.Checked FileChanges :=
  Intake.record form recordName fun fs =>
    Intake.both ((Intake.required "file".toList Intake.text fs).map mk)
      (Intake.optional "changes".toList (Intake.sequenceOf form (Hunk.read form)) [] fs)

def toValue (c : FileChanges) : Value :=
  .table [("file".toList, .text c.file), ("changes".toList, .list (c.changes.map Hunk.toValue))]

end FileChanges

structure Envelope where
  status : Int
  payload : List FileChanges
  stderr : Text
  deriving DecidableEq, Repr

namespace Envelope

def recordName : Text := "LintEnvelope".toList

def read (form : Intake.Form) : Value → Intake.Checked Envelope :=
  Intake.record form recordName fun fs =>
    Intake.both (Intake.both
      ((Intake.optional "status".toList Intake.int 0 fs).map mk)
      (Intake.optional "payload".toList (Intake.sequenceOf form (FileChanges.read form)) [] fs))
      (Intake.optional "stderr".toList Intake.text [] fs)

def toValue (e : Envelope) : Value :=
  .table [("status".toList, .int e.status),
    ("payload".toList, .list (e.payload.map FileChanges.toValue)),
    ("stderr".toList, .text e.stderr)]

def toJson (e : Envelope) : Text :=
  Json.print e.toValue

def ofJson (t : Text) : Except Intake.Rejection Envelope :=
  Intake.named recordName <| match Json.parseWithin? Json.Bounds.standard t with
    | none => Intake.refuse .notJson
    | some v => read .json v

end Envelope

end FormatAudit
