import FormatAudit.Proofs.Text.Numeral
import FormatAudit.Proofs.Text.Pieces
import FormatAudit.Violation.Basic

/-! What a location names. Its lines stand behind the last colon, and a hyphen there can only be
the one between two numbers. So the path may hold colons, hyphens and digits of its own, and the
location still tells where it ends. -/
namespace FormatAudit.Violation

theorem not_mem_range {v : Violation} {c : Char} (hdigit : isDigit c = false) (hc : c ≠ '-') :
    c ∉ v.range := by
  have hnumber (n : Nat) : c ∉ Text.ofNat n := Text.not_mem_ofNat hdigit
  unfold range
  split
  · exact hnumber _
  · simp only [List.mem_append, List.mem_cons, not_or]
    exact ⟨hnumber _, hc, hnumber _⟩

/-- A range is read in one way, be it one number or two: the first line is what stands before the
first hyphen, and the last line what stands behind the last. -/
theorem pieces_range_ends (v : Violation) :
    (Text.pieces '-' v.range).head? = some (Text.ofNat v.firstLine) ∧
      (Text.pieces '-' v.range).getLast? = some (Text.ofNat v.lastLine) := by
  have hhyphen (n : Nat) : '-' ∉ Text.ofNat n := Text.not_mem_ofNat (by decide)
  unfold range
  split
  · next hline =>
    rw [Text.pieces_of_not_mem (hhyphen _), ← hline]
    exact ⟨rfl, rfl⟩
  · rw [Text.pieces_append_sep (hhyphen _), Text.pieces_of_not_mem (hhyphen _)]
    exact ⟨rfl, rfl⟩

theorem range_eq_iff {v w : Violation} :
    v.range = w.range ↔ v.firstLine = w.firstLine ∧ v.lastLine = w.lastLine := by
  constructor
  · intro h
    obtain ⟨hfirst, hlast⟩ := pieces_range_ends v
    rw [h, (pieces_range_ends w).1, Option.some.injEq] at hfirst
    rw [h, (pieces_range_ends w).2, Option.some.injEq] at hlast
    exact ⟨(Text.ofNat_injective hfirst).symm, (Text.ofNat_injective hlast).symm⟩
  · intro h
    rw [range, range, h.1, h.2]

/-- Two violations have the same location only if they are about the same lines of the same path.
The order of the first and the last line plays no part. -/
theorem location_eq_iff {v w : Violation} :
    v.location = w.location ↔
      v.path = w.path ∧ v.firstLine = w.firstLine ∧ v.lastLine = w.lastLine := by
  have hcolon (u : Violation) : ':' ∉ u.range := not_mem_range (by decide) (by decide)
  rw [location, location, Text.append_sep_inj (hcolon v) (hcolon w), range_eq_iff]

end FormatAudit.Violation
