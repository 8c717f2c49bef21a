import FormatAudit.Diff.Alignment
import FormatAudit.Intake.Scalar
import FormatAudit.Text.Lines

/-!
Hunks, and the comparison of two texts by lines that finds them. Lines are equal only if their ends
are, too. Where lines were replaced, those removed come before those added.
-/
namespace FormatAudit

inductive HunkKind where
  | unchanged
  | removed
  | added
  deriving DecidableEq, Repr

namespace HunkKind

def all : List HunkKind := [unchanged, removed, added]

def name : HunkKind → Text
  | .unchanged => "unchanged".toList
  | .removed => "removed".toList
  | .added => "added".toList

def read : Value → Intake.Checked HunkKind
  | .text t => match all.find? fun k => k.name = t with
    | some k => .ok k
    | none => Intake.refuse (.notOneOf (all.map name))
  | _ => Intake.refuse (.notOneOf (all.map name))

end HunkKind

/-- A run of lines. The line count is given with the text and need not agree with it. -/
structure Hunk where
  kind : HunkKind
  lineCount : Nat
  text : Text
  deriving DecidableEq, Repr

namespace Hunk

def isChange (h : Hunk) : Bool :=
  h.kind != .unchanged

def ofLines (kind : HunkKind) (lines : List Text) : Hunk :=
  ⟨kind, lines.length, lines.flatten⟩

def recordName : Text := "DiffHunk".toList

def read (form : Intake.Form) : Value → Intake.Checked Hunk :=
  Intake.record form recordName fun fs =>
    Intake.both (Intake.both
      ((Intake.required "kind".toList HunkKind.read fs).map Hunk.mk)
      (Intake.required "line_count".toList (fun v => Intake.int v >>= Intake.atLeast 0) fs))
      (Intake.required "text".toList Intake.text fs)

def toValue (h : Hunk) : Value :=
  .table [("kind".toList, .text h.kind.name), ("line_count".toList, .int h.lineCount),
    ("text".toList, .text h.text)]

end Hunk

def hasChanges (hunks : List Hunk) : Bool :=
  hunks.any Hunk.isChange

instance Text.hashable : Hashable Text where
  hash t := t.foldl (fun h c => mixHash h c.toNat.toUInt64) 7

def Hunk.ofSome (kind : HunkKind) (lines : List Text) : List Hunk :=
  if lines = [] then [] else [Hunk.ofLines kind lines]

def Segment.hunks : Segment Text → List Hunk
  | .kept lines => Hunk.ofSome .unchanged lines
  | .changed before after => Hunk.ofSome .removed before ++ Hunk.ofSome .added after

def diff (before after : Text) : List Hunk :=
  (align (splitLines before) (splitLines after)).flatMap Segment.hunks

end FormatAudit
