import FormatAudit.Proofs.Diff.Canonical
import FormatAudit.Proofs.Violation.Location
import Mathlib.Data.List.SplitBy

/-! How far apart the violations of a diff are. Each of them stands for one run of changes, and from
the end of one to the beginning of the next it is as far as the hunk between their runs has lines.
So no two of them touch, though the lines that are only in the second text move all of them down. -/
namespace FormatAudit

/-- The hunks in runs that are as long as possible, of changes and of unchanged hunks in turns. -/
def hunkRuns (hunks : List Hunk) : List (List Hunk) :=
  hunks.splitBy fun h k => h.isChange == k.isChange

def changeRuns (hunks : List Hunk) : List (List Hunk) :=
  (hunkRuns hunks).filter hasChanges

/-- The hunk is all that stands between two runs of changes, the first of which comes behind `n`
others. -/
def Hunk.Separates (h : Hunk) (n : Nat) (runs : List (List Hunk)) : Prop :=
  ∃ front run run' back, runs = front ++ run :: [h] :: run' :: back ∧
    (front.filter hasChanges).length = n ∧ hasChanges run ∧ hasChanges run' ∧ h.kind = .unchanged

/-! ### Runs of hunks -/

theorem Segment.isChange_of_mem_hunks {s : Segment Text} {k : Hunk} (hk : k ∈ s.hunks) :
    k.isChange = !s.isKept := by
  have hkind := kind_of_mem_hunks hk
  rw [Hunk.isChange]
  cases hs : s.isKept <;> simp_all

/-- Every stretch of an alignment is one run of hunks. -/
theorem hunkRuns_flatMap {segs : List (Segment Text)} (h : IsAligned segs) :
    hunkRuns (segs.flatMap Segment.hunks) = segs.map Segment.hunks := by
  have hne : ∀ s ∈ segs, s.hunks ≠ [] := fun s hs => Segment.hunks_ne_nil (h.proper s hs)
  rw [hunkRuns, List.splitBy_eq_iff]
  refine ⟨List.flatMap_def .., ?_, ?_, ?_⟩
  · intro hnil
    obtain ⟨s, hs, hempty⟩ := List.mem_map.1 hnil
    exact hne s hs hempty
  · intro run hrun
    obtain ⟨s, -, rfl⟩ := List.mem_map.1 hrun
    refine Segment.isChain_hunks fun removed added _ k hk l hl => ?_
    rw [Hunk.isChange, Hunk.isChange, Hunk.kind_of_mem_ofSome hk, Hunk.kind_of_mem_ofSome hl]
    rfl
  · rw [List.isChain_map]
    refine h.chain.imp_of_mem_imp fun s t hs ht hkept => ⟨hne s hs, hne t ht, ?_⟩
    rw [Segment.isChange_of_mem_hunks (List.getLast_mem _),
      Segment.isChange_of_mem_hunks (List.head_mem _)]
    simpa using hkept

theorem filter_hasChanges_map {segs : List (Segment Text)} (h : ∀ s ∈ segs, s.IsProper) :
    (segs.map Segment.hunks).filter hasChanges =
      (segs.filter fun s => !s.isKept).map Segment.hunks := by
  rw [List.filter_map]
  exact congrArg _ (List.filter_congr fun s hs => Segment.hasChanges_hunks (h s hs))

/-! ### Violations one after the other -/

theorem IsAligned.right_of_append {segs rest : List (Segment Text)} (h : IsAligned (segs ++ rest)) :
    IsAligned rest :=
  ⟨fun s hs => h.proper s (List.mem_append_right _ hs), h.chain.right_of_append,
    fun s hs => h.ofLines s (List.mem_append_right _ hs)⟩

theorem length_segmentViolations (path : Text) (line : Nat) (segs : List (Segment Text)) :
    (segmentViolations path line segs).length = (segs.filter fun s => !s.isKept).length := by
  induction segs generalizing line with
  | nil => rfl
  | cons s segs ih => cases s <;> simp [segmentViolations, Segment.isKept, ih]

section Consecutive
variable {path : Text} {line : Nat} {segs : List (Segment Text)} {v w : Violation}
  {earlier later : List Violation}

/-- The first violation belongs to the first change, and what is kept before that change is one
stretch at most. The violations behind it go on from the line behind its last one. -/
theorem segmentViolations_eq_cons (h : IsAligned segs)
    (hv : segmentViolations path line segs = v :: later) :
    ∃ pre removed added post, segs = pre ++ .changed removed added :: post ∧
      (pre = [] ∨ ∃ items, pre = [.kept items]) ∧
      v.firstLine = line + (pre.flatMap Segment.before).length ∧
      later = segmentViolations path (v.lastLine + 1) post := by
  have hchanged : ∀ {line removed added post}, IsAligned (.changed removed added :: post) →
      segmentViolations path line (.changed removed added :: post) = v :: later →
      v.firstLine = line ∧ later = segmentViolations path (v.lastLine + 1) post := by
    intro line removed added post haligned hv
    have hpos := changeSpan_pos (haligned.proper _ List.mem_cons_self)
    rw [segmentViolations, List.cons.injEq] at hv
    obtain ⟨rfl, rfl⟩ := hv
    refine ⟨rfl, ?_⟩
    rw [Nat.sub_add_cancel (by omega)]
  cases segs with
  | nil => cases hv
  | cons s post =>
    cases s with
    | changed removed added =>
      obtain ⟨hfirst, hlater⟩ := hchanged h hv
      exact ⟨[], removed, added, post, rfl, .inl rfl, hfirst, hlater⟩
    | kept items =>
      cases post with
      | nil => cases hv
      | cons t post =>
        cases t with
        | kept more => exact absurd rfl ((List.isChain_cons.1 h.chain).1 (.kept more) rfl)
        | changed removed added =>
          rw [segmentViolations] at hv
          obtain ⟨hfirst, hlater⟩ := hchanged h.tail hv
          refine ⟨[.kept items], removed, added, post, rfl, .inr ⟨items, rfl⟩, ?_, hlater⟩
          simpa [Segment.before] using hfirst

/-- Two violations that follow each other belong to two changes with one kept stretch in between. -/
theorem segmentViolations_eq_append_cons_cons (h : IsAligned segs)
    (hv : segmentViolations path line segs = earlier ++ v :: w :: later) :
    ∃ front removed added items removed' added' back,
      segs = front ++ .changed removed added :: .kept items :: .changed removed' added' :: back ∧
      (front.filter fun s => !s.isKept).length = earlier.length ∧
      w.firstLine = v.lastLine + 1 + items.length := by
  induction earlier generalizing line segs with
  | nil =>
    obtain ⟨pre, removed, added, post, rfl, hpre, -, hnext⟩ := segmentViolations_eq_cons h hv
    have hpost := h.right_of_append
    obtain ⟨between, removed', added', back, rfl, hbetween, hfirst, -⟩ :=
      segmentViolations_eq_cons hpost.tail hnext.symm
    obtain rfl | ⟨items, rfl⟩ := hbetween
    · exact absurd rfl ((List.isChain_cons.1 hpost.chain).1 (.changed removed' added') rfl)
    · refine ⟨pre, removed, added, items, removed', added', back, rfl, ?_, ?_⟩
      · obtain rfl | ⟨kept, rfl⟩ := hpre <;> rfl
      · simpa [Segment.before] using hfirst
  | cons e earlier ih =>
    obtain ⟨pre, removed, added, post, rfl, hpre, -, hnext⟩ := segmentViolations_eq_cons h hv
    obtain ⟨front, removed₁, added₁, items, removed₂, added₂, back, rfl, hcount, hfirst⟩ :=
      ih h.right_of_append.tail hnext.symm
    refine ⟨pre ++ .changed removed added :: front, removed₁, added₁, items, removed₂, added₂, back,
      by simp, ?_, hfirst⟩
    obtain rfl | ⟨kept, rfl⟩ := hpre <;> exact congrArg (· + 1) hcount

end Consecutive

/-! ### Violations and hunks -/

theorem Segment.hunks_kept {items : List Text} (hne : items ≠ []) :
    (Segment.kept items).hunks = [Hunk.ofLines .unchanged items] := by
  rw [Segment.hunks, Hunk.ofSome, if_neg hne]

theorem Hunk.separates_of_isAligned {segs front back : List (Segment Text)}
    {removed added items removed' added' : List Text} (h : IsAligned segs)
    (hsegs : segs = front ++ .changed removed added :: .kept items ::
      .changed removed' added' :: back) :
    (Hunk.ofLines .unchanged items).Separates (front.filter fun s => !s.isKept).length
      (hunkRuns (segs.flatMap Segment.hunks)) := by
  rw [hunkRuns_flatMap h]
  subst hsegs
  have hitems : items ≠ [] := h.proper (.kept items) (by simp)
  refine ⟨front.map Segment.hunks, (Segment.changed removed added).hunks,
    (Segment.changed removed' added').hunks, back.map Segment.hunks, ?_, ?_, ?_, ?_, rfl⟩
  · simp [Segment.hunks_kept hitems]
  · rw [filter_hasChanges_map fun s hs => h.proper s (by simp [hs]), List.length_map]
  · exact Segment.hasChanges_hunks (h.proper (.changed removed added) (by simp))
  · exact Segment.hasChanges_hunks (h.proper (.changed removed' added') (by simp))

/-- The lines that are kept before the first change, by the first hunk. -/
theorem exists_first_hunk {segs pre post : List (Segment Text)} {removed added : List Text}
    (h : IsAligned segs) (hsegs : segs = pre ++ .changed removed added :: post)
    (hpre : pre = [] ∨ ∃ items, pre = [.kept items]) :
    ∃ (k : Hunk) (rest : List Hunk), segs.flatMap Segment.hunks = k :: rest ∧
      (pre.flatMap Segment.before).length = if k.isChange then 0 else k.lineCount := by
  subst hsegs
  obtain rfl | ⟨items, rfl⟩ := hpre
  · have hne := Segment.hunks_ne_nil (h.proper (.changed removed added) (by simp))
    obtain ⟨k, rest, hhunks⟩ := List.exists_cons_of_ne_nil hne
    have hchange : k.isChange = true :=
      Segment.isChange_of_mem_hunks (s := .changed removed added) (by simp [hhunks])
    exact ⟨k, rest ++ post.flatMap Segment.hunks, by simp [hhunks], by simp [hchange]⟩
  · have hitems : items ≠ [] := h.proper (.kept items) (by simp)
    refine ⟨Hunk.ofLines .unchanged items,
      (Segment.changed removed added :: post).flatMap Segment.hunks, ?_, ?_⟩
    · simp [Segment.hunks_kept hitems]
    · simp [Hunk.ofLines, Hunk.isChange, Segment.before]

/-- The violations of a diff are as many as its runs of changes, each two that follow each other are
apart by the lines of the unchanged hunk between their runs, and the first one is behind the
unchanged hunk before its run, if there is one. -/
theorem violations_keep_distance (path original reformatted : Text) :
    ∃ vs, Violation.ofHunks path (diff original reformatted) = .ok vs ∧
      vs.length = (changeRuns (diff original reformatted)).length ∧
      (∀ earlier v w later, vs = earlier ++ v :: w :: later →
        ∃ h : Hunk, h.Separates earlier.length (hunkRuns (diff original reformatted)) ∧
          1 ≤ h.lineCount ∧ w.firstLine = v.lastLine + 1 + h.lineCount) ∧
      ∀ v later, vs = v :: later →
        ∃ (h : Hunk) (rest : List Hunk), diff original reformatted = h :: rest ∧
          v.firstLine = if h.isChange then 1 else 1 + h.lineCount := by
  have haligned := align_isAligned original reformatted
  refine ⟨_, ofHunks_diff path original reformatted, ?_, ?_, ?_⟩
  · rw [length_segmentViolations, changeRuns, diff, hunkRuns_flatMap haligned,
      filter_hasChanges_map haligned.proper, List.length_map]
  · intro earlier v w later hv
    obtain ⟨front, removed, added, items, removed', added', back, hsegs, hcount, hfirst⟩ :=
      segmentViolations_eq_append_cons_cons haligned hv
    have hproper := haligned.proper (.kept items) (by simp [hsegs])
    refine ⟨Hunk.ofLines .unchanged items, ?_, List.length_pos_of_ne_nil hproper, hfirst⟩
    rw [← hcount]
    exact Hunk.separates_of_isAligned haligned hsegs
  · intro v later hv
    obtain ⟨pre, removed, added, post, hsegs, hpre, hfirst, -⟩ :=
      segmentViolations_eq_cons haligned hv
    obtain ⟨h, rest, hdiff, hlines⟩ := exists_first_hunk haligned hsegs hpre
    refine ⟨h, rest, hdiff, ?_⟩
    rw [hfirst, hlines]
    split <;> rfl

end FormatAudit
