import FormatAudit.Findings
import FormatAudit.Proofs.Violation.Grouping

/-! Recording never fails and only goes forward: the line number never goes back, what is recorded
stays, and violations follow each other by their lines. Hunks may come in any order, with any line
counts, also such as no comparison of texts finds. -/
namespace FormatAudit

/-! ### The order of groups -/

namespace Occurrence

def opener? (o : Occurrence) : Option Hunk :=
  match o.event with
  | .hunk h => if o.opens then some h else none
  | .flush => none

def group? (path : Text) (o : Occurrence) : Option (Hunk × Violation) :=
  match o.event with
  | .hunk h => (o.violation? path).map fun v => (h, v)
  | .flush => none

variable {path : Text} {o : Occurrence} {h : Hunk} {v : Violation}

theorem map_fst_group? (path : Text) (o : Occurrence) :
    (o.group? path).map Prod.fst = o.opener? := by
  obtain ⟨before, e, after⟩ := o
  cases e with
  | flush => rfl
  | hunk h =>
    simp only [group?, violation?, opener?]
    split <;> rfl

theorem map_snd_group? (path : Text) (o : Occurrence) :
    (o.group? path).map Prod.snd = o.violation? path := by
  obtain ⟨before, e, after⟩ := o
  cases e with
  | flush => rfl
  | hunk h => exact (Option.map_map ..).trans Option.map_id'

/-- Where a group opens, the lines passed grow by the line count of its hunk. -/
theorem of_group? (hg : o.group? path = some (h, v)) :
    v.firstLine = 1 + passed o.before ∧
      v.lastLine = max (1 + passed o.before) (passed o.before + h.lineCount) ∧
      passed (o.before ++ [o.event]) = passed o.before + h.lineCount := by
  obtain ⟨before, e, after⟩ := o
  cases e with
  | flush => cases hg
  | hunk k =>
    obtain ⟨w, hw, heq⟩ := Option.map_eq_some_iff.1 hg
    obtain ⟨rfl, rfl⟩ := Prod.mk.inj heq
    simp only [violation?] at hw
    split at hw
    · next hopens =>
      obtain rfl := Option.some.inj hw
      exact ⟨rfl, rfl, passed_append_of_opens hopens⟩
    · cases hw

theorem passed_le_append (before : List Event) (e : Event) :
    passed before ≤ passed (before ++ [e]) := by
  rw [passed_append]
  exact Nat.le_add_right _ _

theorem passed_le_of_mem {before events : List Event} (ho : o ∈ occurrences before events) :
    passed before ≤ passed o.before := by
  induction events generalizing before with
  | nil => cases ho
  | cons e after ih =>
    obtain rfl | ho := List.mem_cons.1 ho
    · exact Nat.le_refl _
    · exact (passed_le_append before e).trans (ih ho)

theorem occurrences_pairwise (before events : List Event) :
    (occurrences before events).Pairwise fun o p =>
      passed (o.before ++ [o.event]) ≤ passed p.before := by
  induction events generalizing before with
  | nil => exact List.Pairwise.nil
  | cons e after ih => exact List.pairwise_cons.2 ⟨fun p hp => passed_le_of_mem hp, ih _⟩

end Occurrence

def groupOpeners (events : List Event) : List Hunk :=
  (occurrences [] events).filterMap Occurrence.opener?

/-- Of two violations with the hunks that opened them, the first ends before the second begins. They
meet in a line only if the hunk of the first counts no lines. -/
structure GroupPrecedes (a b : Hunk × Violation) : Prop where
  le : a.2.lastLine ≤ b.2.firstLine
  meet : a.2.lastLine = b.2.firstLine → a.1.lineCount = 0

def groups (path : Text) (events : List Event) : List (Hunk × Violation) :=
  (occurrences [] events).filterMap (Occurrence.group? path)

theorem map_fst_groups (path : Text) (events : List Event) :
    (groups path events).map Prod.fst = groupOpeners events := by
  simp only [groups, groupOpeners, List.map_filterMap, Occurrence.map_fst_group?]

theorem map_snd_groups (path : Text) (events : List Event) :
    (groups path events).map Prod.snd = groupViolations path events := by
  simp only [groups, groupViolations, List.map_filterMap, Occurrence.map_snd_group?]

theorem groups_pairwise (path : Text) (events : List Event) :
    (groups path events).Pairwise GroupPrecedes := by
  rw [groups, List.pairwise_filterMap]
  refine (Occurrence.occurrences_pairwise [] events).imp fun {o p} hpassed => ?_
  rintro ⟨h, v⟩ hv ⟨k, w⟩ hw
  obtain ⟨-, hlast, hopened⟩ := Occurrence.of_group? hv
  obtain ⟨hfirst, -, -⟩ := Occurrence.of_group? hw
  refine ⟨?_, fun hmeet => ?_⟩
  · dsimp only
    omega
  · dsimp only at hmeet ⊢
    omega

theorem range_of_mem_groupViolations {path : Text} {events : List Event} {v : Violation}
    (hv : v ∈ groupViolations path events) : 1 ≤ v.firstLine ∧ v.firstLine ≤ v.lastLine := by
  obtain ⟨o, -, ho⟩ := List.mem_filterMap.1 hv
  rw [← Occurrence.map_snd_group?] at ho
  obtain ⟨⟨h, w⟩, hg, rfl⟩ := Option.map_eq_some_iff.1 ho
  obtain ⟨hfirst, hlast, -⟩ := Occurrence.of_group? hg
  dsimp only
  omega

/-! ### Steps -/

namespace Recorder

variable {r r' : Recorder} {before : List Event}

/-- What every step does: it goes forward, and adds to what is recorded. -/
structure Extends (r r' : Recorder) : Prop where
  line_le : r.line ≤ r'.line
  recorded : r.violations <+: r'.violations

theorem Extends.refl (r : Recorder) : r.Extends r :=
  ⟨Nat.le_refl _, List.prefix_rfl⟩

theorem Extends.trans {r₁ r₂ r₃ : Recorder} (h : r₁.Extends r₂) (h' : r₂.Extends r₃) :
    r₁.Extends r₃ :=
  ⟨h.line_le.trans h'.line_le, h.recorded.trans h'.recorded⟩

theorem ended_extends (r : Recorder) : r.Extends r.ended :=
  ⟨Nat.le_add_right _ _, List.prefix_append _ _⟩

theorem putAdded_extends (r : Recorder) (h : Hunk) : r.Extends (r.putAdded h) := by
  rw [putAdded]
  split
  · exact ⟨Nat.le_refl _, List.prefix_rfl⟩
  · exact ⟨Nat.le_refl _, List.prefix_rfl⟩

theorem take_extends (h : r.IsSound) {e : Event} (htake : r.take e = .ok r') : r.Extends r' := by
  have hflush := flush_eq h
  cases e with
  | flush =>
    obtain rfl := Except.ok.inj (hflush.symm.trans htake)
    exact ended_extends r
  | hunk hunk =>
    obtain ⟨kind, n, t⟩ := hunk
    cases kind with
    | unchanged =>
      simp only [take, feed, hflush, Except.map, Except.ok.injEq] at htake
      subst htake
      exact (ended_extends r).trans ⟨Nat.le_add_right _ _, List.prefix_rfl⟩
    | removed =>
      simp only [take, feed, hflush, Except.map, Except.ok.injEq] at htake
      subst htake
      exact (ended_extends r).trans ⟨Nat.le_refl _, List.prefix_rfl⟩
    | added =>
      obtain rfl := Except.ok.inj htake
      exact putAdded_extends r _

/-- A run over events does not fail, and goes forward. -/
theorem run_extends (h : r.Follows before) (events : List Event) :
    ∃ r', events.foldlM take r = .ok r' ∧ r.Extends r' ∧ r'.Follows (before ++ events) := by
  induction events generalizing r before with
  | nil => exact ⟨r, rfl, .refl r, by rwa [List.append_nil]⟩
  | cons e events ih =>
    obtain ⟨next, htake, hadvances⟩ := take_advances h e
    obtain ⟨r', hrun, hextends, hfollows⟩ := ih hadvances.follows
    refine ⟨r', ?_, (take_extends h.sound htake).trans hextends, by simpa using hfollows⟩
    simpa [List.foldlM_cons, htake, bind, Except.bind] using hrun

theorem violations_of_run {path : Text} {events : List Event} (hsound : r.IsSound)
    (hrun : events.foldlM take (start path) = .ok r) :
    r.violations ++ r.pending [] = groupViolations path events := by
  obtain ⟨final, hfinal, hviolations⟩ := run_violations events (start path) []
    (start_follows path)
  rw [hrun] at hfinal
  obtain rfl := Except.ok.inj ((flush_eq hsound).symm.trans hfinal)
  simpa [ended, start, pending, groupViolations] using hviolations

/-- What holds of a recording behind every step, by the hunks that have opened a group so far. Each
of them has its violation in the list, apart from the last one while that is being recorded. -/
structure IsOrderly (r : Recorder) (openers : List Hunk) : Prop where
  line_pos : 1 ≤ r.line
  idle_iff : r.phase = .idle ↔ r.message = []
  range : ∀ v ∈ r.violations, 1 ≤ v.firstLine ∧ v.firstLine ≤ v.lastLine
  opened : openers.length = r.violations.length + if r.phase = .idle then 0 else 1
  inOrder : (openers.zip r.violations).Pairwise GroupPrecedes

theorem zip_isPrefix {α β : Type} (as : List α) {bs cs : List β} (h : bs <+: cs) :
    as.zip bs <+: as.zip cs := by
  obtain ⟨more, rfl⟩ := h
  induction as generalizing bs with
  | nil => simp
  | cons a as ih =>
    cases bs with
    | nil => simp
    | cons b bs => simpa using ih

theorem isOrderly_of_run {path : Text} {events : List Event} (h : r.Follows events)
    (hrun : events.foldlM take (start path) = .ok r) : r.IsOrderly (groupOpeners events) := by
  have hviolations := violations_of_run h.sound hrun
  have hrecorded : r.violations <+: groupViolations path events := ⟨_, hviolations⟩
  constructor
  case line_pos => exact h.sound.line_pos
  case idle_iff => exact h.sound.idle_iff
  case range =>
    intro v hv
    exact range_of_mem_groupViolations (hrecorded.subset hv)
  case opened =>
    calc (groupOpeners events).length
        = (groups path events).length := by rw [← map_fst_groups path, List.length_map]
      _ = (r.violations ++ r.pending []).length := by
          rw [hviolations, ← map_snd_groups, List.length_map]
      _ = r.violations.length + if r.phase = .idle then 0 else 1 := by
          rw [List.length_append, pending]
          split <;> rfl
  case inOrder =>
    have hzip : groups path events = (groupOpeners events).zip (groupViolations path events) :=
      List.zip_of_prod (map_fst_groups path events) (map_snd_groups path events)
    refine List.Pairwise.sublist (zip_isPrefix _ hrecorded).sublist ?_
    rw [← hzip]
    exact groups_pairwise path events

end Recorder

/-! ### Findings -/

theorem mapM_ofHunks (changes : List FileChanges) :
    changes.mapM (fun c => Violation.ofHunks c.file c.changes) =
      .ok (changes.map fun c => groupViolations c.file (c.changes.map Event.hunk)) := by
  simp only [ofHunks_eq]
  exact List.mapM_pure

theorem Findings.exists_ofEnvelope (e : Envelope) : ∃ f, Findings.ofEnvelope e = .ok f := by
  rw [Findings.ofEnvelope]
  split
  · exact ⟨_, rfl⟩
  · rw [mapM_ofHunks]
    exact ⟨_, rfl⟩

/-- No order of steps makes a recording fail, go back or lose a violation, and so there are findings
for any envelope. -/
theorem Recorder.perform_isOrderly (path : Text) :
    (∀ (steps : List Step) (step : Step), ∃ r r', steps.foldlM perform (start path) = .ok r ∧
      r.perform step = .ok r' ∧ r.Extends r' ∧
      r'.IsOrderly (groupOpeners ((steps ++ [step]).flatMap Step.events))) ∧
    ∀ e : Envelope, ∃ f, Findings.ofEnvelope e = .ok f := by
  refine ⟨fun steps step => ?_, Findings.exists_ofEnvelope⟩
  obtain ⟨r, hrun, -, hfollows⟩ := run_extends (start_follows path) (steps.flatMap Step.events)
  obtain ⟨r', hstep, hextends, hfollows'⟩ := run_extends hfollows step.events
  have hevents : (steps ++ [step]).flatMap Step.events =
      [] ++ steps.flatMap Step.events ++ step.events := by simp
  refine ⟨r, r', by rw [foldlM_perform, hrun], by rw [perform_eq, hstep], hextends, ?_⟩
  rw [hevents]
  have hboth : ([] ++ steps.flatMap Step.events ++ step.events).foldlM take (start path) =
      .ok r' := by
    rw [List.nil_append, List.foldlM_append, hrun]
    exact hstep
  exact isOrderly_of_run hfollows' hboth

end FormatAudit
