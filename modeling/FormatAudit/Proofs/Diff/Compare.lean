import FormatAudit.Diff.Hunk
import FormatAudit.Proofs.Diff.Alignment
import FormatAudit.Proofs.Text.Lines

/-! The hunks of two texts. Without the added ones they hold the lines of the first text, without
the removed ones those of the second, and there is a change among them only if the texts differ. -/
namespace FormatAudit

def oldLines (hunks : List Hunk) : List Text :=
  (hunks.filter fun h => h.kind ≠ .added).flatMap fun h => splitLines h.text

def newLines (hunks : List Hunk) : List Text :=
  (hunks.filter fun h => h.kind ≠ .removed).flatMap fun h => splitLines h.text

theorem oldLines_append (hs ks : List Hunk) : oldLines (hs ++ ks) = oldLines hs ++ oldLines ks := by
  simp [oldLines]

theorem newLines_append (hs ks : List Hunk) : newLines (hs ++ ks) = newLines hs ++ newLines ks := by
  simp [newLines]

theorem splitLines_ofSome {ls : List Text} (h : IsLines ls) (kind : HunkKind) :
    (Hunk.ofSome kind ls).flatMap (fun h => splitLines h.text) = ls := by
  by_cases hne : ls = []
  · simp [Hunk.ofSome, hne]
  · simp [Hunk.ofSome, hne, Hunk.ofLines, splitLines_of_isLines h]

theorem filter_ofSome (p : Hunk → Bool) (kind : HunkKind) (ls : List Text)
    (b : Bool) (h : ∀ n t, p ⟨kind, n, t⟩ = b) :
    (Hunk.ofSome kind ls).filter p = if b then Hunk.ofSome kind ls else [] := by
  by_cases hne : ls = []
  · simp [Hunk.ofSome, hne]
  · simp [Hunk.ofSome, hne, Hunk.ofLines, h, List.filter_cons]

/-- A stretch of lines: both of its sides are lines of a text. -/
structure Segment.IsOfLines (s : Segment Text) : Prop where
  before : IsLines s.before
  after : IsLines s.after

theorem Segment.oldLines_hunks {s : Segment Text} (h : s.IsOfLines) :
    oldLines s.hunks = s.before := by
  cases s with
  | kept items =>
    rw [Segment.hunks, oldLines, filter_ofSome _ _ _ true (by simp)]
    exact splitLines_ofSome h.before .unchanged
  | changed before after =>
    rw [Segment.hunks, oldLines, List.filter_append, filter_ofSome _ _ _ true (by simp),
      filter_ofSome _ _ _ false (by simp), if_pos rfl, if_neg Bool.false_ne_true, List.append_nil]
    exact splitLines_ofSome h.before .removed

theorem Segment.newLines_hunks {s : Segment Text} (h : s.IsOfLines) :
    newLines s.hunks = s.after := by
  cases s with
  | kept items =>
    rw [Segment.hunks, newLines, filter_ofSome _ _ _ true (by simp)]
    exact splitLines_ofSome h.after .unchanged
  | changed before after =>
    rw [Segment.hunks, newLines, List.filter_append, filter_ofSome _ _ _ false (by simp),
      filter_ofSome _ _ _ true (by simp), if_neg Bool.false_ne_true, if_pos rfl, List.nil_append]
    exact splitLines_ofSome h.after .added

theorem oldLines_flatMap {segs : List (Segment Text)} (h : ∀ s ∈ segs, s.IsOfLines) :
    oldLines (segs.flatMap Segment.hunks) = segs.flatMap Segment.before := by
  induction segs with
  | nil => rfl
  | cons s segs ih =>
    obtain ⟨hs, hsegs⟩ := List.forall_mem_cons.1 h
    rw [List.flatMap_cons, oldLines_append, Segment.oldLines_hunks hs, ih hsegs, List.flatMap_cons]

theorem newLines_flatMap {segs : List (Segment Text)} (h : ∀ s ∈ segs, s.IsOfLines) :
    newLines (segs.flatMap Segment.hunks) = segs.flatMap Segment.after := by
  induction segs with
  | nil => rfl
  | cons s segs ih =>
    obtain ⟨hs, hsegs⟩ := List.forall_mem_cons.1 h
    rw [List.flatMap_cons, newLines_append, Segment.newLines_hunks hs, ih hsegs, List.flatMap_cons]

theorem isOfLines_of_flatMap {segs : List (Segment Text)}
    (hb : IsLines (segs.flatMap Segment.before)) (ha : IsLines (segs.flatMap Segment.after)) :
    ∀ s ∈ segs, s.IsOfLines := by
  induction segs with
  | nil => simp
  | cons s segs ih =>
    rw [List.flatMap_cons] at hb ha
    exact List.forall_mem_cons.2
      ⟨⟨hb.append_left, ha.append_left⟩, ih hb.append_right ha.append_right⟩

theorem align_isOfLines (before after : Text) :
    ∀ s ∈ align (splitLines before) (splitLines after), s.IsOfLines := by
  apply isOfLines_of_flatMap
  · rw [align_before]
    exact isLines_splitLines before
  · rw [align_after]
    exact isLines_splitLines after

theorem Segment.hasChanges_hunks {s : Segment Text} (h : s.IsProper) :
    hasChanges s.hunks = !s.isKept := by
  cases s with
  | kept items =>
    have hne : items ≠ [] := h
    simp [Segment.hunks, Hunk.ofSome, hne, hasChanges, Hunk.isChange, Hunk.ofLines, Segment.isKept]
  | changed before after =>
    obtain h | h := h <;>
      simp [Segment.hunks, Hunk.ofSome, h, hasChanges, Hunk.isChange, Hunk.ofLines, Segment.isKept]

theorem eq_of_align_isKept {before after : Text}
    (h : ∀ s ∈ align (splitLines before) (splitLines after), s.isKept = true) :
    before = after := by
  apply splitLines_injective
  calc splitLines before
      = (align (splitLines before) (splitLines after)).flatMap Segment.before :=
        (align_before _ _).symm
    _ = (align (splitLines before) (splitLines after)).flatMap Segment.after :=
        List.flatMap_congr fun s hs => Segment.before_eq_after (h s hs)
    _ = splitLines after := align_after _ _

theorem isKept_of_align_self (t : Text) :
    ∀ s ∈ align (splitLines t) (splitLines t), s.isKept = true := by
  rw [align_self]
  split
  · simp
  · simp [Segment.isKept]

theorem hasChanges_flatMap {segs : List (Segment Text)} (h : ∀ s ∈ segs, s.IsProper) :
    hasChanges (segs.flatMap Segment.hunks) = false ↔ ∀ s ∈ segs, s.isKept = true := by
  induction segs with
  | nil => simp [hasChanges]
  | cons s segs ih =>
    obtain ⟨hs, hsegs⟩ := List.forall_mem_cons.1 h
    have happend : hasChanges ((s :: segs).flatMap Segment.hunks) =
        (hasChanges s.hunks || hasChanges (segs.flatMap Segment.hunks)) := by
      simp [hasChanges]
    rw [happend, Segment.hasChanges_hunks hs, List.forall_mem_cons, ← ih hsegs]
    simp

theorem align_isKept_iff {before after : Text} :
    (∀ s ∈ align (splitLines before) (splitLines after), s.isKept = true) ↔ before = after := by
  constructor
  · exact eq_of_align_isKept
  · rintro rfl
    exact isKept_of_align_self before

theorem hasChanges_diff (before after : Text) :
    hasChanges (diff before after) = true ↔ before ≠ after := by
  have h := hasChanges_flatMap (align_isProper (splitLines before) (splitLines after))
  rw [diff, ← Bool.not_eq_false, h, align_isKept_iff]

end FormatAudit
