import FormatAudit.Diff.Hunk
import FormatAudit.Text.Lines
import FormatAudit.Violation.Basic

/-!
Recording the hunks of a file as violations. Removed lines open a violation, added lines right
behind them continue it, and added lines elsewhere make one of their own; unchanged lines close
it. The line number moves past a violation by the line count of the hunk that opened it, so it
also counts lines that are only in the second text.
-/
namespace FormatAudit

inductive Phase where
  | idle
  | removal
  | replacement
  | insertion
  deriving DecidableEq, Repr

def Phase.name : Phase → Text
  | .idle => "idle".toList
  | .removal => "removal".toList
  | .replacement => "replacement".toList
  | .insertion => "insertion".toList

/-- The state of a recording: the line number of the next hunk, the number of lines and the message
of the violation being recorded, and the violations recorded. -/
structure Recorder where
  path : Text
  line : Nat
  span : Nat
  message : Text
  phase : Phase
  violations : List Violation
  deriving DecidableEq, Repr

namespace Recorder

def removedLead : Text := "- ".toList

def addedLead : Text := "+ ".toList

def separator : Text := "***\n".toList

def start (path : Text) : Recorder :=
  ⟨path, 1, 1, [], .idle, []⟩

def flush (r : Recorder) : Except Intake.Rejection Recorder :=
  if r.phase = .idle ∨ r.message = [] then .ok { r with phase := .idle }
  else do
    let v ← Violation.make r.path r.line (max r.line (r.line + r.span - 1)) r.message
    return { r with
      line := r.line + r.span, message := [], phase := .idle, violations := r.violations ++ [v] }

def openRemoval (r : Recorder) (h : Hunk) : Recorder :=
  { r with
    message := r.message ++ renderLines h.text removedLead ++ ['\n']
    span := h.lineCount
    phase := .removal }

def putAdded (r : Recorder) (h : Hunk) : Recorder :=
  if r.phase = .idle then
    { r with
      message := r.message ++ renderLines h.text addedLead
      span := h.lineCount
      phase := .insertion }
  else
    { r with
      message := r.message ++ separator ++ renderLines h.text addedLead
      phase := .replacement }

def feed (r : Recorder) (h : Hunk) : Except Intake.Rejection Recorder :=
  match h.kind with
  | .unchanged => r.flush.map fun r => { r with line := r.line + h.lineCount }
  | .removed => r.flush.map fun r => r.openRemoval h
  | .added => .ok (r.putAdded h)

def feedAll (r : Recorder) (hunks : List Hunk) : Except Intake.Rejection Recorder :=
  hunks.foldlM feed r >>= flush

end Recorder

def Violation.ofHunks (path : Text) (hunks : List Hunk) :
    Except Intake.Rejection (List Violation) :=
  ((Recorder.start path).feedAll hunks).map Recorder.violations

end FormatAudit
