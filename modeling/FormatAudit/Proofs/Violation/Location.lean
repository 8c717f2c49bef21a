import FormatAudit.Proofs.Violation.Change

/-! Where violations point. Lines that are only in the second text move the line number on as well,
so a violation stands further down than the lines that it is about: by the lines of all insertions
before it, and by no more. Moved back by these, it points at the lines that its message shows. -/
namespace FormatAudit

namespace Violation

def HasRemoved (v : Violation) : Prop :=
  v.linesBehind Recorder.removedLead ≠ []

instance : DecidablePred HasRemoved :=
  fun v => inferInstanceAs (Decidable (v.linesBehind Recorder.removedLead ≠ []))

def size (v : Violation) : Nat :=
  v.lastLine - v.firstLine + 1

end Violation

section Change
variable {path : Text} {first last : Nat} {removed added : List Text}

theorem hasRemoved_iff (hr : IsLines removed) (ha : IsLines added) :
    (Violation.mk path first last (changeMessage removed added)).HasRemoved ↔ removed ≠ [] := by
  rw [Violation.HasRemoved, linesBehind_removedLead hr ha, ne_eq, List.map_eq_nil_iff]

theorem changeSpan_pos (h : (Segment.changed removed added).IsProper) :
    0 < changeSpan removed added := by
  rw [changeSpan]
  split
  · next hr =>
    have ha : added ≠ [] := h.resolve_left (not_not.2 hr)
    exact List.length_pos_of_ne_nil ha
  · next hr => exact List.length_pos_of_ne_nil hr

end Change

end FormatAudit
