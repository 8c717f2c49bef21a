import FormatAudit.Proofs.Text.Lines
import FormatAudit.Violation.Recorder
import Mathlib.Algebra.GroupWithZero.Nat

/-! Recording hunks against a description without a state. Each place in the order of steps is
looked at on its own: whether a group opens there follows from the event right before it, the
lines passed from all events before it, and the added hunks that belong to the group from the
events behind it. Hunks may come in any order, with any line counts and texts. -/
namespace FormatAudit

/-- What a recording sees: a hunk, or the end of the violation being recorded. -/
inductive Event where
  | hunk (h : Hunk)
  | flush
  deriving DecidableEq, Repr

namespace Event

/-- Whether a group is open right behind an event. -/
def leavesOpen : Event → Bool
  | .hunk h => h.isChange
  | .flush => false

/-- Whether an event opens a group, by the event before it. Removed lines always do, added lines
only where no group is open. -/
def opensAfter (previous : Option Event) : Event → Bool
  | .hunk h => h.kind = .removed ∨ h.kind = .added ∧ !previous.any leavesOpen
  | .flush => false

def lineCount : Event → Nat
  | .hunk h => h.lineCount
  | .flush => 0

def isUnchanged : Event → Bool
  | .hunk h => h.kind = .unchanged
  | .flush => false

def leadingAdded : List Event → List Hunk
  | .hunk h :: rest => if h.kind = .added then h :: leadingAdded rest else []
  | _ => []

end Event

structure Occurrence where
  before : List Event
  event : Event
  after : List Event

def occurrences (before : List Event) : List Event → List Occurrence
  | [] => []
  | e :: after => ⟨before, e, after⟩ :: occurrences (before ++ [e]) after

namespace Occurrence

def opens (o : Occurrence) : Bool :=
  o.event.opensAfter o.before.getLast?

/-- How far the line number moves because of an event. -/
def advance (o : Occurrence) : Nat :=
  if o.event.isUnchanged ∨ o.opens then o.event.lineCount else 0

/-- The lines of all unchanged hunks and of all hunks that open a group. -/
def passed (events : List Event) : Nat :=
  ((occurrences [] events).map advance).sum

/-- The message of a group: its opening hunk, and the added hunks that continue it. -/
def message (opener : Hunk) (more : List Hunk) : Text :=
  (if opener.kind = .removed then renderLines opener.text Recorder.removedLead ++ ['\n']
    else renderLines opener.text Recorder.addedLead) ++
  more.flatMap fun h => Recorder.separator ++ renderLines h.text Recorder.addedLead

/-- The violation of the group that opens at a place, if one does. -/
def violation? (path : Text) (o : Occurrence) : Option Violation :=
  match o.event with
  | .hunk h =>
    if o.opens then
      some ⟨path, 1 + passed o.before, max (1 + passed o.before) (passed o.before + h.lineCount),
        message h (Event.leadingAdded o.after)⟩
    else none
  | .flush => none

end Occurrence

def groupViolations (path : Text) (events : List Event) : List Violation :=
  (occurrences [] events).filterMap (Occurrence.violation? path)

namespace Recorder

inductive Step where
  | feed (h : Hunk)
  | flush
  | build (hunks : List Hunk)
  deriving DecidableEq, Repr

def Step.events : Step → List Event
  | .feed h => [.hunk h]
  | .flush => [.flush]
  | .build hunks => hunks.map Event.hunk ++ [.flush]

def perform (r : Recorder) : Step → Except Intake.Rejection Recorder
  | .feed h => r.feed h
  | .flush => r.flush
  | .build hunks => r.feedAll hunks

def take (r : Recorder) : Event → Except Intake.Rejection Recorder
  | .hunk h => r.feed h
  | .flush => r.flush

theorem foldlM_take_hunks (r : Recorder) (hunks : List Hunk) :
    (hunks.map Event.hunk).foldlM take r = hunks.foldlM feed r := by
  rw [List.foldlM_map]
  rfl

theorem perform_eq (r : Recorder) (s : Step) : r.perform s = s.events.foldlM take r := by
  cases s with
  | feed h => simp [perform, Step.events, take]
  | flush => simp [perform, Step.events, take]
  | build hunks => simp [perform, Step.events, feedAll, foldlM_take_hunks, take]

theorem foldlM_perform (r : Recorder) (steps : List Step) :
    steps.foldlM perform r = (steps.flatMap Step.events).foldlM take r := by
  induction steps generalizing r with
  | nil => rfl
  | cons s steps ih =>
    simp only [List.foldlM_cons, List.flatMap_cons, List.foldlM_append, perform_eq, ih]

/-! ### One step -/

theorem make_ok (path : Text) {first last : Nat} (message : Text) (hf : 1 ≤ first)
    (hl : first ≤ last) :
    Violation.make path first last message = .ok ⟨path, first, last, message⟩ := by
  have hf' : ((1 : Nat) : Int) ≤ (first : Int) := by omega
  have hl' : ((1 : Nat) : Int) ≤ (last : Int) := by omega
  have hn : ¬ last < first := by omega
  simp only [Violation.make, Intake.atLeast, if_pos hf', if_pos hl', Int.toNat_natCast]
  simp [Intake.within, Intake.named, Violation.ofFields, Intake.both, Violation.ordered, hn,
    Except.mapError, Except.map, bind, Except.bind]

def pending (r : Recorder) (more : List Hunk) : List Violation :=
  if r.phase = .idle then []
  else [⟨r.path, r.line, max r.line (r.line + r.span - 1),
    r.message ++ more.flatMap fun h => separator ++ renderLines h.text addedLead⟩]

/-- How far the line number is still to move for the violation being recorded. -/
def width (r : Recorder) : Nat :=
  if r.phase = .idle then 0 else r.span

def ended (r : Recorder) : Recorder :=
  { r with
    line := r.line + r.width
    message := []
    phase := .idle
    violations := r.violations ++ r.pending [] }

/-- What every reachable state keeps: a violation is being recorded exactly if it has a message. -/
structure IsSound (r : Recorder) : Prop where
  idle_iff : r.phase = .idle ↔ r.message = []
  line_pos : 1 ≤ r.line

theorem flush_eq {r : Recorder} (h : r.IsSound) : r.flush = .ok r.ended := by
  obtain ⟨path, line, span, message, phase, violations⟩ := r
  obtain ⟨hidle, hline⟩ := h
  by_cases hp : phase = .idle
  · have hm : message = [] := hidle.1 hp
    simp [flush, ended, width, pending, hp, hm]
  · have hm : message ≠ [] := fun hm => hp (hidle.2 hm)
    have hlast : line ≤ max line (line + span - 1) := Nat.le_max_left ..
    have hmake := make_ok path message hline hlast
    simp [flush, ended, width, pending, hp, hm, hmake, bind, Except.bind, pure, Except.pure]

structure Follows (r : Recorder) (before : List Event) : Prop where
  sound : r.IsSound
  line_eq : r.line + r.width = 1 + Occurrence.passed before
  idle_iff : r.phase = .idle ↔ before.getLast?.any Event.leavesOpen = false

theorem start_follows (path : Text) : (start path).Follows [] :=
  ⟨⟨by simp [start], by simp [start]⟩, rfl, by simp [start]⟩

end Recorder

namespace Occurrence

theorem sum_advance_append (before es fs : List Event) :
    ((occurrences before (es ++ fs)).map advance).sum =
      ((occurrences before es).map advance).sum +
        ((occurrences (before ++ es) fs).map advance).sum := by
  induction es generalizing before with
  | nil => simp [occurrences]
  | cons e es ih =>
    have hadv : advance ⟨before, e, es ++ fs⟩ = advance ⟨before, e, es⟩ := rfl
    simp only [List.cons_append, occurrences, List.map_cons, List.sum_cons, ih, hadv,
      List.append_assoc, List.nil_append, Nat.add_assoc]

theorem passed_append (before : List Event) (e : Event) :
    passed (before ++ [e]) = passed before + advance ⟨before, e, []⟩ := by
  simp [passed, sum_advance_append, occurrences]

theorem violation?_of_opens (path : Text) {before : List Event} {h : Hunk}
    (ho : Event.opensAfter before.getLast? (.hunk h) = true) (after : List Event) :
    violation? path ⟨before, .hunk h, after⟩ =
      some ⟨path, 1 + passed before, max (1 + passed before) (passed before + h.lineCount),
        message h (Event.leadingAdded after)⟩ := by
  simp [violation?, opens, ho]

theorem passed_append_of_opens {before : List Event} {h : Hunk}
    (ho : Event.opensAfter before.getLast? (.hunk h) = true) :
    passed (before ++ [.hunk h]) = passed before + h.lineCount := by
  simp [passed_append, advance, opens, ho, Event.lineCount]

end Occurrence

namespace Recorder

/-- A step from a state behind `before` to another one, over an event: the groups looked at one by
one tell what it adds, whatever comes after it. -/
structure Advances (r : Recorder) (before : List Event) (e : Event) (r' : Recorder) : Prop where
  path_eq : r'.path = r.path
  follows : r'.Follows (before ++ [e])
  violations_eq : ∀ after, r.violations ++ r.pending (Event.leadingAdded (e :: after)) ++
      (Occurrence.violation? r.path ⟨before, e, after⟩).toList =
    r'.violations ++ r'.pending (Event.leadingAdded after)

variable {r : Recorder} {before : List Event}

theorem ended_isSound (h : r.IsSound) : r.ended.IsSound := by
  refine ⟨by simp [ended], ?_⟩
  have := h.line_pos
  simp only [ended]
  omega

theorem advances_flush (h : r.Follows before) : r.Advances before .flush r.ended := by
  refine ⟨rfl, ⟨ended_isSound h.sound, ?_, by simp [ended, Event.leavesOpen]⟩, fun after => ?_⟩
  · have hline := h.line_eq
    simp [ended, width, Occurrence.passed_append, Occurrence.advance, Occurrence.opens,
      Event.opensAfter, Event.isUnchanged] at hline ⊢
    omega
  · simp [ended, pending, Event.leadingAdded, Occurrence.violation?]

theorem advances_unchanged (h : r.Follows before) (n : Nat) (t : Text) :
    r.Advances before (.hunk ⟨.unchanged, n, t⟩) { r.ended with line := r.ended.line + n } := by
  have hended := ended_isSound h.sound
  have hline := h.line_eq
  refine ⟨rfl, ⟨⟨hended.idle_iff, Nat.le_add_right_of_le hended.line_pos⟩, ?_, ?_⟩, fun after => ?_⟩
  · simp [ended, width, Occurrence.passed_append, Occurrence.advance, Event.isUnchanged,
      Event.lineCount] at hline ⊢
    omega
  · simp [ended, Event.leavesOpen, Hunk.isChange]
  · simp [ended, pending, Event.leadingAdded, Occurrence.violation?, Occurrence.opens,
      Event.opensAfter]

theorem advances_removed (h : r.Follows before) (n : Nat) (t : Text) :
    r.Advances before (.hunk ⟨.removed, n, t⟩) (r.ended.openRemoval ⟨.removed, n, t⟩) := by
  have hended := ended_isSound h.sound
  have hline := h.line_eq
  have hlast : 1 + Occurrence.passed before + n - 1 = Occurrence.passed before + n := by omega
  refine ⟨rfl, ⟨⟨by simp [openRemoval], hended.line_pos⟩, ?_, ?_⟩, fun after => ?_⟩
  · simp [openRemoval, ended, width, Occurrence.passed_append, Occurrence.advance,
      Occurrence.opens, Event.opensAfter, Event.lineCount] at hline ⊢
    omega
  · simp [openRemoval, Event.leavesOpen, Hunk.isChange]
  · simp [openRemoval, ended, pending, Event.leadingAdded, Occurrence.violation?, Occurrence.opens,
      Event.opensAfter, Occurrence.message, hlast, hline]

theorem advances_added_idle (h : r.Follows before) (hidle : r.phase = .idle) (n : Nat) (t : Text) :
    r.Advances before (.hunk ⟨.added, n, t⟩) (r.putAdded ⟨.added, n, t⟩) := by
  have hm : r.message = [] := h.sound.idle_iff.1 hidle
  have hclosed := h.idle_iff.1 hidle
  have hline : r.line = 1 + Occurrence.passed before := by
    simpa [width, hidle] using h.line_eq
  have hlast : 1 + Occurrence.passed before + n - 1 = Occurrence.passed before + n := by omega
  have hne : renderLines t addedLead ≠ [] := renderLines_ne_nil t (by simp [addedLead])
  refine ⟨?_, ⟨⟨?_, ?_⟩, ?_, ?_⟩, fun after => ?_⟩
  · simp [putAdded, hidle]
  · simp [putAdded, hidle, hm, hne]
  · simp only [putAdded, hidle, if_true]
    omega
  · simp [putAdded, hidle, width, Occurrence.passed_append, Occurrence.advance,
      Occurrence.opens, Event.opensAfter, hclosed, Event.lineCount, hline]
    omega
  · simp [putAdded, hidle, Event.leavesOpen, Hunk.isChange]
  · simp [putAdded, hidle, pending, Occurrence.violation?, Occurrence.opens,
      Event.opensAfter, hclosed, Occurrence.message, hm, hlast, hline]

theorem advances_added_open (h : r.Follows before) (hopen : r.phase ≠ .idle) (n : Nat) (t : Text) :
    r.Advances before (.hunk ⟨.added, n, t⟩) (r.putAdded ⟨.added, n, t⟩) := by
  have hm : r.message ≠ [] := fun hm => hopen (h.sound.idle_iff.2 hm)
  have hprevious : before.getLast?.any Event.leavesOpen = true := by
    cases hp : before.getLast?.any Event.leavesOpen with
    | true => rfl
    | false => exact absurd (h.idle_iff.2 hp) hopen
  have hline := h.line_eq
  refine ⟨?_, ⟨⟨?_, ?_⟩, ?_, ?_⟩, fun after => ?_⟩
  · simp [putAdded, hopen]
  · simp [putAdded, hopen, hm]
  · simpa [putAdded, hopen] using h.sound.line_pos
  · simp [putAdded, hopen, width, Occurrence.passed_append, Occurrence.advance,
      Occurrence.opens, Event.opensAfter, hprevious, Event.isUnchanged] at hline ⊢
    omega
  · simp [putAdded, hopen, Event.leavesOpen, Hunk.isChange]
  · simp [putAdded, hopen, pending, Event.leadingAdded, Occurrence.violation?, Occurrence.opens,
      Event.opensAfter, hprevious]

theorem take_advances (h : r.Follows before) (e : Event) :
    ∃ r', r.take e = .ok r' ∧ r.Advances before e r' := by
  have hflush := flush_eq h.sound
  cases e with
  | flush => exact ⟨_, hflush, advances_flush h⟩
  | hunk hunk =>
    obtain ⟨kind, n, t⟩ := hunk
    cases kind with
    | unchanged =>
      exact ⟨_, by simp [take, feed, hflush, Except.map], advances_unchanged h n t⟩
    | removed => exact ⟨_, by simp [take, feed, hflush, Except.map], advances_removed h n t⟩
    | added =>
      by_cases hidle : r.phase = .idle
      · exact ⟨_, rfl, advances_added_idle h hidle n t⟩
      · exact ⟨_, rfl, advances_added_open h hidle n t⟩

/-- What a run over events does, once its last violation is ended. -/
theorem run_violations (events : List Event) : ∀ (r : Recorder) (before : List Event),
    r.Follows before → ∃ final, events.foldlM take r >>= flush = .ok final ∧
      final.violations = r.violations ++ r.pending (Event.leadingAdded events) ++
        (occurrences before events).filterMap (Occurrence.violation? r.path) := by
  induction events with
  | nil =>
    intro r before h
    refine ⟨r.ended, by rw [List.foldlM_nil, pure_bind, flush_eq h.sound], ?_⟩
    simp [ended, occurrences, Event.leadingAdded]
  | cons e after ih =>
    intro r before h
    obtain ⟨r', htake, hpath, hfollows, hviolations⟩ := take_advances h e
    obtain ⟨final, hfinal, hv⟩ := ih r' (before ++ [e]) hfollows
    refine ⟨final, by simpa [List.foldlM_cons, htake, bind, Except.bind] using hfinal, ?_⟩
    rw [hv, ← hviolations after, hpath, occurrences, List.filterMap_cons]
    cases Occurrence.violation? r.path ⟨before, e, after⟩ <;> simp

/-- Any order of steps, ended at last, records one violation for each group. -/
theorem perform_violations_eq (path : Text) (steps : List Step) :
    ∃ final, steps.foldlM perform (start path) >>= flush = .ok final ∧
      final.violations = groupViolations path (steps.flatMap Step.events) := by
  obtain ⟨final, hfinal, hv⟩ := run_violations (steps.flatMap Step.events) (start path) []
    (start_follows path)
  refine ⟨final, by rw [foldlM_perform, hfinal], ?_⟩
  simpa [start, pending, groupViolations] using hv

end Recorder

theorem ofHunks_eq (path : Text) (hunks : List Hunk) :
    Violation.ofHunks path hunks = .ok (groupViolations path (hunks.map Event.hunk)) := by
  obtain ⟨final, hfinal, hv⟩ := Recorder.run_violations (hunks.map Event.hunk)
    (Recorder.start path) [] (Recorder.start_follows path)
  rw [Recorder.foldlM_take_hunks] at hfinal
  rw [Violation.ofHunks, Recorder.feedAll, hfinal, Except.map, hv]
  simp [Recorder.start, Recorder.pending, groupViolations]

end FormatAudit
