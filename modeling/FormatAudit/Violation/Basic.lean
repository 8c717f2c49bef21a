import FormatAudit.Intake.Scalar

/-!
Violations: findings that cover lines of a file. Lines are counted from one, and the range has at
least one line; both are checked whenever a violation is made or read.
-/
namespace FormatAudit

structure Violation where
  path : Text
  firstLine : Nat
  lastLine : Nat
  message : Text
  deriving DecidableEq, Repr

namespace Violation

def recordName : Text := "Violation".toList

def ordered (v : Violation) : Intake.Checked Violation :=
  if v.lastLine < v.firstLine then
    Intake.refuse (.invalid "last_line must not precede first_line".toList)
  else .ok v

/-- The range is looked at only if the fields are right by themselves. -/
def ofFields (path : Intake.Checked Text) (firstLine lastLine : Intake.Checked Nat)
    (message : Intake.Checked Text) : Intake.Checked Violation :=
  Intake.both (Intake.both (Intake.both (path.map mk) firstLine) lastLine) message >>= ordered

def make (path : Text) (firstLine lastLine : Nat) (message : Text) :
    Except Intake.Rejection Violation :=
  Intake.named recordName <| ofFields (.ok path)
    (Intake.within (.field "first_line".toList) (Intake.atLeast 1 firstLine))
    (Intake.within (.field "last_line".toList) (Intake.atLeast 1 lastLine)) (.ok message)

def readLine (v : Value) : Intake.Checked Nat :=
  Intake.int v >>= Intake.atLeast 1

def read (form : Intake.Form) : Value → Intake.Checked Violation :=
  Intake.record form recordName fun fs => ofFields
    (Intake.required "path".toList Intake.text fs)
    (Intake.required "first_line".toList readLine fs)
    (Intake.required "last_line".toList readLine fs)
    (Intake.required "message".toList Intake.text fs)

def toValue (v : Violation) : Value :=
  .table [("path".toList, .text v.path), ("first_line".toList, .int v.firstLine),
    ("last_line".toList, .int v.lastLine), ("message".toList, .text v.message)]

def range (v : Violation) : Text :=
  if v.firstLine = v.lastLine then Text.ofNat v.firstLine
  else Text.ofNat v.firstLine ++ '-' :: Text.ofNat v.lastLine

def location (v : Violation) : Text :=
  v.path ++ ':' :: v.range

end Violation

end FormatAudit
