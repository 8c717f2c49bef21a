import FormatAudit.Proofs.Diff.Compare
import FormatAudit.Proofs.Text.Margin
import FormatAudit.Proofs.Text.Pieces
import FormatAudit.Proofs.Violation.Grouping

/-! The violations of a diff, one for each change. A violation can be made from the change and the
line number alone, and its message read back: the lines removed and added come out of it by the
leads that they stand behind. -/
namespace FormatAudit

def changeMessage (removed added : List Text) : Text :=
  (removed.map (renderLines · Recorder.removedLead)).flatMap (· ++ ['\n']) ++
    (if removed = [] ∨ added = [] then [] else Recorder.separator) ++
    ['\n'].intercalate (added.map (renderLines · Recorder.addedLead))

/-- How many lines the violation of a change covers: those removed, or where there are none, those
added. -/
def changeSpan (removed added : List Text) : Nat :=
  if removed = [] then added.length else removed.length

/-- The violations of an aligned file from a line number on. -/
def segmentViolations (path : Text) : Nat → List (Segment Text) → List Violation
  | _, [] => []
  | line, .kept items :: rest => segmentViolations path (line + items.length) rest
  | line, .changed removed added :: rest =>
    ⟨path, line, line + changeSpan removed added - 1, changeMessage removed added⟩ ::
      segmentViolations path (line + changeSpan removed added) rest

/-! ### From hunks to changes -/

theorem message_insertion {added : List Text} (h : IsLines added) (hne : added ≠ []) :
    Occurrence.message (Hunk.ofLines .added added) [] = changeMessage [] added := by
  rw [Occurrence.message, if_neg (by simp [Hunk.ofLines]), Hunk.ofLines,
    renderLines_flatten h hne]
  simp [changeMessage]

theorem message_removal {removed added : List Text} (hr : IsLines removed) (hne : removed ≠ [])
    (ha : IsLines added) :
    Occurrence.message (Hunk.ofLines .removed removed) (Hunk.ofSome .added added) =
      changeMessage removed added := by
  have hmap : removed.map (renderLines · Recorder.removedLead) ≠ [] := by simpa using hne
  rw [Occurrence.message, if_pos (by rfl), Hunk.ofLines, renderLines_flatten hr hne,
    Text.intercalate_append_sep hmap, changeMessage]
  by_cases hnil : added = []
  · simp [hnil, Hunk.ofSome]
  · rw [Hunk.ofSome, if_neg hnil, List.flatMap_singleton, Hunk.ofLines,
      renderLines_flatten ha hnil, if_neg (by simp [hne, hnil]), List.append_assoc]

theorem leadingAdded_of_head_isKept {segs : List (Segment Text)} (hproper : ∀ s ∈ segs, s.IsProper)
    (hhead : ∀ s ∈ segs.head?, s.isKept = true) :
    Event.leadingAdded ((segs.flatMap Segment.hunks).map Event.hunk) = [] := by
  cases segs with
  | nil => rfl
  | cons s segs =>
    cases s with
    | kept items =>
      have hne : items ≠ [] := hproper (.kept items) List.mem_cons_self
      simp [Segment.hunks, Hunk.ofSome, hne, Hunk.ofLines, Event.leadingAdded]
    | changed removed added => simp [Segment.isKept] at hhead

/-- What is asked of the stretches of an alignment from some place on. -/
structure IsAligned (segs : List (Segment Text)) : Prop where
  proper : ∀ s ∈ segs, s.IsProper
  chain : segs.IsChain fun s t => s.isKept ≠ t.isKept
  ofLines : ∀ s ∈ segs, s.IsOfLines

theorem align_isAligned (before after : Text) :
    IsAligned (align (splitLines before) (splitLines after)) :=
  ⟨align_isProper _ _, align_isChain _ _, align_isOfLines before after⟩

theorem IsAligned.tail {s : Segment Text} {segs : List (Segment Text)}
    (h : IsAligned (s :: segs)) : IsAligned segs :=
  ⟨fun t ht => h.proper t (by simp [ht]), (List.isChain_cons.1 h.chain).2,
    fun t ht => h.ofLines t (by simp [ht])⟩

theorem leadingAdded_ofSome (added : List Text) {rest : List Event}
    (h : Event.leadingAdded rest = []) :
    Event.leadingAdded ((Hunk.ofSome .added added).map Event.hunk ++ rest) =
      Hunk.ofSome .added added := by
  by_cases ha : added = [] <;>
    simp [Hunk.ofSome, ha, Hunk.ofLines, Event.leadingAdded, h]

/-- What the occurrences behind some events say, and how they are counted. -/
structure Resumes (path : Text) (before events : List Event) (found : List Violation) (n : Nat) :
    Prop where
  violations_eq : ∀ rest, Event.leadingAdded rest = [] →
    (occurrences before (events ++ rest)).filterMap (Occurrence.violation? path) =
      found ++ (occurrences (before ++ events) rest).filterMap (Occurrence.violation? path)
  passed_eq : Occurrence.passed (before ++ events) = Occurrence.passed before + n

/-- Added hunks that continue a group make no violation of their own. -/
theorem resumes_continuation (path : Text) (added : List Text) (before : List Event)
    (hopen : before.getLast?.any Event.leavesOpen = true) :
    Resumes path before ((Hunk.ofSome .added added).map Event.hunk) [] 0 := by
  by_cases ha : added = []
  · exact ⟨by simp [Hunk.ofSome, ha], by simp [Hunk.ofSome, ha]⟩
  · refine ⟨fun rest _ => ?_, ?_⟩
    · simp [Hunk.ofSome, ha, Hunk.ofLines, occurrences, Occurrence.violation?, Occurrence.opens,
        Event.opensAfter, hopen]
    · simp [Hunk.ofSome, ha, Hunk.ofLines, Occurrence.passed_append, Occurrence.advance,
        Occurrence.opens, Event.opensAfter, hopen, Event.isUnchanged]

theorem resumes_insertion (path : Text) {added : List Text} {before : List Event}
    (hlines : IsLines added) (hne : added ≠ [])
    (hclosed : before.getLast?.any Event.leavesOpen = false) :
    Resumes path before [.hunk (Hunk.ofLines .added added)]
      [⟨path, 1 + Occurrence.passed before, 1 + Occurrence.passed before + added.length - 1,
        changeMessage [] added⟩] added.length := by
  have hpos := List.length_pos_of_ne_nil hne
  have hopens : Event.opensAfter before.getLast? (.hunk (Hunk.ofLines .added added)) = true := by
    simp [Event.opensAfter, hclosed, Hunk.ofLines]
  refine ⟨fun rest hrest => ?_, Occurrence.passed_append_of_opens hopens⟩
  have hlast : max (1 + Occurrence.passed before)
      (Occurrence.passed before + (Hunk.ofLines .added added).lineCount) =
        1 + Occurrence.passed before + added.length - 1 := by
    simp only [Hunk.ofLines]
    omega
  rw [List.singleton_append, occurrences, List.filterMap_cons,
    Occurrence.violation?_of_opens path hopens, hrest, message_insertion hlines hne, hlast]
  rfl

theorem resumes_removal (path : Text) {removed added : List Text} {before : List Event}
    (hremoved : IsLines removed) (hne : removed ≠ []) (hadded : IsLines added) :
    Resumes path before
      (.hunk (Hunk.ofLines .removed removed) :: (Hunk.ofSome .added added).map Event.hunk)
      [⟨path, 1 + Occurrence.passed before, 1 + Occurrence.passed before + removed.length - 1,
        changeMessage removed added⟩] removed.length := by
  have hpos := List.length_pos_of_ne_nil hne
  have hopens :
      Event.opensAfter before.getLast? (.hunk (Hunk.ofLines .removed removed)) = true := by
    simp [Event.opensAfter, Hunk.ofLines]
  have hpassed := Occurrence.passed_append_of_opens hopens
  obtain ⟨hviolations, hcount⟩ := resumes_continuation path added
    (before ++ [.hunk (Hunk.ofLines .removed removed)])
    (by simp [Event.leavesOpen, Hunk.isChange, Hunk.ofLines])
  rw [List.append_assoc, List.singleton_append] at hcount
  refine ⟨fun rest hrest => ?_, by rw [hcount, hpassed, Nat.add_zero]; rfl⟩
  have hlast : max (1 + Occurrence.passed before)
      (Occurrence.passed before + (Hunk.ofLines .removed removed).lineCount) =
        1 + Occurrence.passed before + removed.length - 1 := by
    simp only [Hunk.ofLines]
    omega
  rw [List.cons_append, occurrences, List.filterMap_cons,
    Occurrence.violation?_of_opens path hopens, hviolations rest hrest,
    leadingAdded_ofSome added hrest, message_removal hremoved hne hadded, hlast, List.append_assoc]
  rfl

theorem resumes_changed (path : Text) {removed added : List Text} {before : List Event}
    (hproper : (Segment.changed removed added).IsProper)
    (hlines : (Segment.changed removed added).IsOfLines)
    (hclosed : before.getLast?.any Event.leavesOpen = false) :
    Resumes path before ((Segment.changed removed added).hunks.map Event.hunk)
      [⟨path, 1 + Occurrence.passed before,
        1 + Occurrence.passed before + changeSpan removed added - 1,
        changeMessage removed added⟩] (changeSpan removed added) := by
  have hremoved : IsLines removed := hlines.before
  have hadded : IsLines added := hlines.after
  by_cases hr : removed = []
  · subst hr
    have hne : added ≠ [] := hproper.resolve_left (by simp)
    rw [Segment.hunks, Hunk.ofSome, Hunk.ofSome, if_pos rfl, if_neg hne, changeSpan, if_pos rfl]
    exact resumes_insertion path hadded hne hclosed
  · rw [Segment.hunks, Hunk.ofSome, if_neg hr, changeSpan, if_neg hr]
    exact resumes_removal path hremoved hr hadded

theorem filterMap_segments (path : Text) {segs : List (Segment Text)} (h : IsAligned segs)
    (before : List Event)
    (hhead : before.getLast?.any Event.leavesOpen = true → ∀ s ∈ segs.head?, s.isKept = true) :
    (occurrences before ((segs.flatMap Segment.hunks).map Event.hunk)).filterMap
        (Occurrence.violation? path) =
      segmentViolations path (1 + Occurrence.passed before) segs := by
  induction segs generalizing before with
  | nil => rfl
  | cons s segs ih =>
    have hchain := (List.isChain_cons.1 h.chain).1
    rw [List.flatMap_cons, List.map_append]
    cases s with
    | kept items =>
      have hne : items ≠ [] := h.proper (.kept items) List.mem_cons_self
      have hhunks : (Segment.kept items).hunks = [Hunk.ofLines .unchanged items] := by
        simp [Segment.hunks, Hunk.ofSome, hne]
      have hnone : Occurrence.violation? path ⟨before, .hunk (Hunk.ofLines .unchanged items),
          (segs.flatMap Segment.hunks).map Event.hunk⟩ = none := by
        simp [Occurrence.violation?, Occurrence.opens, Event.opensAfter, Hunk.ofLines]
      have hpassed : Occurrence.passed (before ++ [.hunk (Hunk.ofLines .unchanged items)]) =
          Occurrence.passed before + items.length := by
        simp [Occurrence.passed_append, Occurrence.advance, Event.isUnchanged, Hunk.ofLines,
          Event.lineCount]
      rw [hhunks, List.map_singleton, List.singleton_append, occurrences, List.filterMap_cons,
        hnone, ih h.tail _ (by simp [Event.leavesOpen, Hunk.isChange, Hunk.ofLines]), hpassed,
        segmentViolations, Nat.add_assoc]
    | changed removed added =>
      have hkept : ∀ s ∈ segs.head?, s.isKept = true := by
        intro s hs
        have := hchain s hs
        cases hk : s.isKept <;> simp_all [Segment.isKept]
      have hclosed : before.getLast?.any Event.leavesOpen = false := by
        rw [← Bool.not_eq_true]
        intro ho
        simpa [Segment.isKept] using hhead ho
      obtain ⟨hviolations, hpassed⟩ := resumes_changed path (h.proper _ List.mem_cons_self)
        (h.ofLines _ List.mem_cons_self) hclosed
      rw [hviolations _ (leadingAdded_of_head_isKept h.tail.proper hkept),
        ih h.tail _ fun _ => hkept, hpassed, segmentViolations, List.singleton_append,
        Nat.add_assoc]

theorem groupViolations_diff (path before after : Text) :
    groupViolations path ((diff before after).map Event.hunk) =
      segmentViolations path 1 (align (splitLines before) (splitLines after)) := by
  rw [groupViolations, diff, filterMap_segments path (align_isAligned before after) [] (by simp)]
  rfl

theorem ofHunks_diff (path before after : Text) :
    Violation.ofHunks path (diff before after) =
      .ok (segmentViolations path 1 (align (splitLines before) (splitLines after))) := by
  rw [ofHunks_eq, groupViolations_diff]

theorem path_of_mem_segmentViolations {path : Text} {line : Nat} {segs : List (Segment Text)}
    {v : Violation} (hv : v ∈ segmentViolations path line segs) : v.path = path := by
  induction segs generalizing line with
  | nil => simp [segmentViolations] at hv
  | cons s segs ih =>
    cases s with
    | kept items => exact ih hv
    | changed removed added =>
      obtain rfl | hv := List.mem_cons.1 hv
      · rfl
      · exact ih hv

theorem segmentViolations_eq_nil (path : Text) (line : Nat) (segs : List (Segment Text)) :
    segmentViolations path line segs = [] ↔ ∀ s ∈ segs, s.isKept = true := by
  induction segs generalizing line with
  | nil => simp [segmentViolations]
  | cons s segs ih =>
    cases s with
    | kept items =>
      rw [segmentViolations, ih, List.forall_mem_cons]
      simp [Segment.isKept]
    | changed removed added => simp [segmentViolations, Segment.isKept]

/-! ### Reading messages -/

/-- The lines of a message that stand behind a lead. -/
def Violation.linesBehind (v : Violation) (lead : Text) : List Text :=
  (Text.pieces '\n' v.message).filter lead.isPrefixOf

theorem pieces_changeMessage {removed added : List Text} (hr : IsLines removed)
    (ha : IsLines added) :
    Text.pieces '\n' (changeMessage removed added) =
      removed.map (renderLines · Recorder.removedLead) ++
        if added = [] then [[]]
        else (if removed = [] then [] else ["***".toList]) ++
          added.map (renderLines · Recorder.addedLead) := by
  have hplain : ∀ lead : Text, '\n' ∉ lead → ∀ {ls : List Text}, IsLines ls →
      ∀ t ∈ ls.map (renderLines · lead), '\n' ∉ t := by
    intro lead hlead ls hls t ht
    obtain ⟨l, hl, rfl⟩ := List.mem_map.1 ht
    exact newline_not_mem_renderLines (hls.isLine l hl) hlead
  have hremoved := hplain Recorder.removedLead (by decide) hr
  have hadded := hplain Recorder.addedLead (by decide) ha
  rw [changeMessage, List.append_assoc, Text.pieces_flatMap_append hremoved]
  by_cases hna : added = []
  · simp [hna, Text.pieces]
  · have hne : added.map (renderLines · Recorder.addedLead) ≠ [] := by simpa using hna
    by_cases hnr : removed = []
    · simp [hna, hnr, Text.pieces_intercalate hadded hne]
    · have hsep : Recorder.separator = "***".toList ++ ['\n'] := rfl
      rw [if_neg (by simp [hna, hnr]), if_neg hna, if_neg hnr, hsep, List.append_assoc,
        List.singleton_append, Text.pieces_append_sep (by decide),
        Text.pieces_intercalate hadded hne, List.singleton_append]

theorem filter_map_renderLines {ls : List Text} (h : IsLines ls) (lead other : Text) (b : Bool)
    (hb : ∀ t, lead.isPrefixOf (other ++ t) = b) :
    (ls.map (renderLines · other)).filter lead.isPrefixOf =
      if b then ls.map (renderLines · other) else [] := by
  have hall : ∀ t ∈ ls.map (renderLines · other), lead.isPrefixOf t = b := by
    intro t ht
    obtain ⟨l, hl, rfl⟩ := List.mem_map.1 ht
    rw [renderLines_of_isLine (h.isLine l hl)]
    exact hb _
  cases b with
  | true => exact List.filter_eq_self.2 hall
  | false => exact List.filter_eq_nil_iff.2 fun t ht => by simp [hall t ht]

variable {path : Text} {first last : Nat} {removed added : List Text}

theorem linesBehind_removedLead (hr : IsLines removed) (ha : IsLines added) :
    (Violation.mk path first last (changeMessage removed added)).linesBehind
      Recorder.removedLead = removed.map (renderLines · Recorder.removedLead) := by
  have hown := filter_map_renderLines hr Recorder.removedLead Recorder.removedLead true
    fun t => by simp [Recorder.removedLead]
  have hother := filter_map_renderLines ha Recorder.removedLead Recorder.addedLead false
    fun t => rfl
  rw [Violation.linesBehind, pieces_changeMessage hr ha, List.filter_append, hown, if_pos rfl]
  refine List.append_right_eq_self.2 ?_
  split
  · rfl
  · rw [List.filter_append, hother, if_neg Bool.false_ne_true, List.append_nil]
    split <;> rfl

theorem linesBehind_addedLead (hr : IsLines removed) (ha : IsLines added) :
    (Violation.mk path first last (changeMessage removed added)).linesBehind
      Recorder.addedLead = added.map (renderLines · Recorder.addedLead) := by
  have hown := filter_map_renderLines ha Recorder.addedLead Recorder.addedLead true
    fun t => by simp [Recorder.addedLead]
  have hother := filter_map_renderLines hr Recorder.addedLead Recorder.removedLead false
    fun t => rfl
  rw [Violation.linesBehind, pieces_changeMessage hr ha, List.filter_append, hother,
    if_neg Bool.false_ne_true, List.nil_append]
  split
  · next hna => rw [hna]; rfl
  · rw [List.filter_append, hown, if_pos rfl]
    refine List.append_left_eq_self.2 ?_
    split <;> rfl

end FormatAudit
