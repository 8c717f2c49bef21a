import FormatAudit.Proofs.Violation.Location

/-! The second text comes back from the first one and the violations. The line numbers are walked
along with the lines of the first text, and each message gives the lines to put in. Nothing else
is asked of the second text than that its last line is ended and that it has no marks of its own. -/
namespace FormatAudit

/-- A text whose lines can be told from what is shown of them. -/
structure IsPlain (t : Text) : Prop where
  ended : t = [] ∨ IsEnded t
  spaceMark_not_mem : spaceMark ∉ t
  tabMark_not_mem : tabMark ∉ t

def Violation.addedLines (v : Violation) : List Text :=
  (v.linesBehind Recorder.addedLead).map fun t =>
    unmark (t.drop Recorder.addedLead.length) ++ ['\n']

def Violation.removedSize (v : Violation) : Nat :=
  if v.HasRemoved then v.size else 0

/-- The lines of the second text, from those of the first one that `line` is the number of, and the
violations from there on. -/
def restore : Nat → List Text → List Violation → List Text
  | _, lines, [] => lines
  | line, lines, v :: vs =>
    lines.take (v.firstLine - line) ++ v.addedLines ++
      restore (v.lastLine + 1) (lines.drop (v.firstLine - line + v.removedSize)) vs

theorem isEnded_of_mem_splitLines {t l : Text} (h : t = [] ∨ IsEnded t) (hl : l ∈ splitLines t) :
    IsEnded l := by
  have hlines := isLines_splitLines t
  have hflat := splitLines_flatten t
  obtain ⟨front, last, hsplit⟩ := (List.eq_nil_or_concat (splitLines t)).resolve_left
    (List.ne_nil_of_mem hl)
  rw [hsplit, List.concat_eq_append] at hlines hflat
  rw [hsplit, List.concat_eq_append] at hl
  have hne : last ≠ [] := (hlines.isLine last (by simp)).ne_nil
  obtain hl | hl := List.mem_append.1 hl
  · exact hlines.isEnded_of_append (by simp) l hl
  · obtain rfl := List.mem_singleton.1 hl
    obtain rfl | h := h
    · simp [hne] at hflat
    · rw [← hflat, IsEnded, List.flatten_append, List.flatten_singleton,
        List.getLast?_append_of_ne_nil _ hne] at h
      exact h

theorem unmark_renderLines {l : Text} (hl : IsLine l) (he : IsEnded l) (hs : spaceMark ∉ l)
    (ht : tabMark ∉ l) :
    unmark ((renderLines l Recorder.addedLead).drop Recorder.addedLead.length) ++ ['\n'] = l := by
  have hsub : ∀ c, c ∈ lineBody l → c ∈ l := fun c hc => (List.takeWhile_sublist _).subset hc
  rw [renderLines_of_isLine hl, List.drop_left,
    unmark_shown (fun h => hs (hsub _ h)) (fun h => ht (hsub _ h)), ← hl.eq_of_isEnded he]

def ArePlain (ls : List Text) : Prop :=
  ∀ l ∈ ls, IsEnded l ∧ spaceMark ∉ l ∧ tabMark ∉ l

theorem IsPlain.arePlain {t : Text} (h : IsPlain t) : ArePlain (splitLines t) := by
  intro l hl
  have hsub : ∀ c, c ∈ l → c ∈ t := by
    intro c hc
    rw [← splitLines_flatten t]
    exact List.mem_flatten.2 ⟨l, hl, hc⟩
  exact ⟨isEnded_of_mem_splitLines h.ended hl, fun hm => h.spaceMark_not_mem (hsub _ hm),
    fun hm => h.tabMark_not_mem (hsub _ hm)⟩

theorem addedLines_changeMessage {path : Text} {first last : Nat} {removed added : List Text}
    (hr : IsLines removed) (ha : IsLines added) (hplain : ArePlain added) :
    (Violation.mk path first last (changeMessage removed added)).addedLines = added := by
  rw [Violation.addedLines, linesBehind_addedLead hr ha, List.map_map]
  refine (List.map_congr_left fun l hl => ?_).trans (List.map_id added)
  obtain ⟨he, hs, ht⟩ := hplain l hl
  exact unmark_renderLines (ha.isLine l hl) he hs ht

/-- The number of removed lines comes back from the range of a violation that shows some. -/
theorem removedSize_changeMessage (path : Text) (line : Nat) {removed added : List Text}
    (hr : IsLines removed) (ha : IsLines added) :
    (Violation.mk path line (line + changeSpan removed added - 1)
      (changeMessage removed added)).removedSize = removed.length := by
  rw [Violation.removedSize]
  by_cases hne : removed = []
  · rw [if_neg (by rw [hasRemoved_iff hr ha]; simp [hne]), hne, List.length_nil]
  · have hpos := List.length_pos_of_ne_nil hne
    rw [if_pos ((hasRemoved_iff hr ha).2 hne), changeSpan, if_neg hne, Violation.size]
    dsimp only
    omega

theorem restore_append {line : Nat} (items rest : List Text) {vs : List Violation}
    (h : ∀ v ∈ vs.head?, line + items.length ≤ v.firstLine) :
    restore line (items ++ rest) vs = items ++ restore (line + items.length) rest vs := by
  cases vs with
  | nil => rfl
  | cons v vs =>
    have hle : line + items.length ≤ v.firstLine := h v rfl
    obtain ⟨k, hk⟩ := Nat.exists_eq_add_of_le hle
    have h1 : v.firstLine - line = items.length + k := by omega
    have h2 : v.firstLine - (line + items.length) = k := by omega
    simp only [restore, h1, h2, List.append_assoc, List.take_length_add_append, Nat.add_assoc,
      List.drop_length_add_append]

theorem le_firstLine_segmentViolations (path : Text) (line : Nat) (segs : List (Segment Text)) :
    ∀ v ∈ (segmentViolations path line segs).head?, line ≤ v.firstLine := by
  induction segs generalizing line with
  | nil => simp [segmentViolations]
  | cons s segs ih =>
    cases s with
    | kept items =>
      intro v hv
      exact Nat.le_of_add_right_le (ih (line + items.length) v hv)
    | changed removed added => simp [segmentViolations]

theorem restore_segmentViolations (path : Text) {segs : List (Segment Text)} (h : IsAligned segs)
    (hplain : ArePlain (segs.flatMap Segment.after)) (line : Nat) :
    restore line (segs.flatMap Segment.before) (segmentViolations path line segs) =
      segs.flatMap Segment.after := by
  induction segs generalizing line with
  | nil => rfl
  | cons s segs ih =>
    rw [List.flatMap_cons] at hplain
    obtain ⟨hs, hsegs⟩ := List.forall_mem_append.1 hplain
    have hrest := ih h.tail hsegs
    cases s with
    | kept items =>
      rw [List.flatMap_cons, List.flatMap_cons, segmentViolations, Segment.before, Segment.after,
        restore_append items _ (le_firstLine_segmentViolations path _ segs), hrest]
    | changed removed added =>
      have hremoved : IsLines removed := (h.ofLines _ List.mem_cons_self).before
      have hadded : IsLines added := (h.ofLines _ List.mem_cons_self).after
      have hproper := h.proper _ List.mem_cons_self
      have hpos := changeSpan_pos hproper
      have hlast : line + changeSpan removed added - 1 + 1 = line + changeSpan removed added := by
        omega
      rw [List.flatMap_cons, List.flatMap_cons, segmentViolations, restore, Segment.before,
        Segment.after, removedSize_changeMessage path line hremoved hadded,
        addedLines_changeMessage hremoved hadded hs]
      dsimp only
      rw [hlast, Nat.sub_self, Nat.zero_add, List.drop_left, hrest, List.take_zero,
        List.nil_append]

/-- The violations of a file tell what it was changed to. -/
theorem violations_eq_iff (path original r₁ r₂ : Text) (h₁ : IsPlain r₁) (h₂ : IsPlain r₂) :
    Violation.ofHunks path (diff original r₁) = Violation.ofHunks path (diff original r₂) ↔
      r₁ = r₂ := by
  constructor
  · intro h
    have hback : ∀ r, IsPlain r → restore 1 (splitLines original)
        (segmentViolations path 1 (align (splitLines original) (splitLines r))) =
          splitLines r := by
      intro r hr
      have hrestore := restore_segmentViolations path (align_isAligned original r)
        (by rw [align_after]; exact hr.arePlain) 1
      rwa [align_before, align_after] at hrestore
    rw [ofHunks_diff, ofHunks_diff, Except.ok.injEq] at h
    apply splitLines_injective
    rw [← hback r₁ h₁, h, hback r₂ h₂]
  · rintro rfl
    rfl

/-- One space more or less at the front of a line is seen. -/
theorem violations_ne_of_spaces :
    IsPlain "  x\ny\n".toList ∧ IsPlain " x\ny\n".toList ∧
      Violation.ofHunks "a.c".toList (diff "\tx\ny".toList "  x\ny\n".toList) ≠
        Violation.ofHunks "a.c".toList (diff "\tx\ny".toList " x\ny\n".toList) := by
  have h₁ : IsPlain "  x\ny\n".toList := ⟨by decide, by decide, by decide⟩
  have h₂ : IsPlain " x\ny\n".toList := ⟨by decide, by decide, by decide⟩
  refine ⟨h₁, h₂, ?_⟩
  rw [ne_eq, violations_eq_iff "a.c".toList "\tx\ny".toList _ _ h₁ h₂]
  decide

end FormatAudit
