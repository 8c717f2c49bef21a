import FormatAudit.Proofs.Command.Stages
import FormatAudit.Proofs.Discovery.Failure
import FormatAudit.Proofs.Linter.Check
import FormatAudit.Proofs.Linter.Verdict
import FormatAudit.Proofs.Session.Bounds
import FormatAudit.Report

/-! What a run of the formatter launches, and which failures leave it. Commands that fail are
survived; what is left are a launcher that is no command line, a search that fails, and such
failures of a command as no linter survives. -/
namespace FormatAudit

namespace ClangFormat

open Run

/-- The commands that the formatter makes launch and fail within bounds, apart from failures that
are survived, and so does splitting its launcher. -/
structure Respects (a : ClangFormat) (h : Host) (P : List Launch → Prop) (Q : Failure → Prop)
    (root : Path) : Prop where
  quoting : ∀ fault, ShellWords.split a.launcher = .error fault → Q (.quoting fault)
  commands : ∀ words, ShellWords.split a.launcher = .ok words → ∀ more,
    IsBounded h P (fun f => f.isOfCommand ∨ Q f)
      (a.runner (words ++ program :: more) (a.options root))

section Lint

variable {a : ClangFormat} {h : Host} {P : List Launch → Prop} {Q : Failure → Prop} {root : Path}
  {files : List Text} {file : Text}

theorem survive_isBounded {words : List Text}
    (hrun : IsBounded h P (fun f => f.isOfCommand ∨ Q f) (a.runner words (a.options root))) :
    IsBounded h P Q (a.survive root words) := by
  refine Ensures.bind_ok hrun.attempt ?_
  rintro (f | c) hr
  · have hf := failsOnly_error.1 hr
    dsimp only
    split
    · exact isBounded_pure _
    · next hfatal => exact isBounded_throw (hf.resolve_left hfatal)
  · exact isBounded_pure _

/-- Commands are put together as the launcher has it, then survived. -/
theorem command_bind_isBounded {β : Type} (ha : a.Respects h P Q root) (more : List Text)
    {next : List Text → Run β}
    (hnext : ∀ words, ShellWords.split a.launcher = .ok words →
      IsBounded h P Q (next (words ++ program :: more))) :
    IsBounded h P Q (a.command more >>= next) := by
  intro s hs
  rw [exec_bind]
  cases hwords : ShellWords.split a.launcher with
  | error fault =>
    rw [exec_command_error hwords]
    exact ⟨failsOnly_error.2 (ha.quoting fault hwords), hs⟩
  | ok words =>
    rw [exec_command_ok hwords]
    exact hnext words hwords s hs

theorem failed_isBounded (reason : Text) : IsBounded h P Q (a.failed file reason) :=
  isBounded_of_exec (fun _ => ⟨_, rfl⟩) fun _ => rfl

/-- Whatever has become of the files, reading the file does not fail because of a null character in
its path. -/
def IsClean (h : Host) (root : Path) (file : Text) : Prop :=
  ∀ (t : FileTree) error, t.read h.here (Path.join root (Path.ofText file)) = .error error →
    error.fault ≠ .nullCharacter

theorem finish_isBounded (hfile : IsClean h root file) (words : List Text)
    (result : Except Text Completed) : IsBounded h P Q (a.finish root ⟨file, words, result⟩) := by
  unfold finish
  cases result with
  | error reason => exact failed_isBounded _
  | ok c =>
    dsimp only
    split
    · exact failed_isBounded _
    · -- the command may have changed the files, so nothing is known of the tree that is read
      refine Ensures.bind_ok (Q := fun content => ∃ t : FileTree,
        content = t.read h.here (Path.join root (Path.ofText file)))
        (ensures_readFile fun s _ => ⟨_, rfl, s.tree, rfl⟩) ?_
      rintro content ⟨t, rfl⟩
      split
      · next error herror =>
        rw [if_neg (hfile t error herror)]
        exact failed_isBounded _
      · exact isBounded_pure _

theorem start_continues (ha : a.Respects h P Q root) (hfile : IsClean h root file) :
    Ensures h (fun s => P s.launches) (a.start root file)
      (Pool.Continues h (fun s => P s.launches) (a.finish root) (FailsOnly Q)) := by
  intro s hs
  cases hwords : ShellWords.split a.launcher with
  | error fault =>
    rw [exec_start_error hwords]
    exact ⟨failsOnly_error.2 (ha.quoting fault hwords), hs⟩
  | ok words =>
    have hsurvive := survive_isBounded (ha.commands words hwords (a.args ++ [file]))
    have hstart : a.start root file = (fun result => ⟨file, a.fileWords words file, result⟩) <$>
        a.survive root (a.fileWords words file) := by
      rw [start, command, launcherWords, hwords]
      rfl
    rw [hstart]
    refine Ensures.map hsurvive ?_ s hs
    intro r hr
    cases r with
    | error f => exact failsOnly_error.2 (failsOnly_error.1 hr)
    | ok result => exact finish_isBounded hfile _ result

theorem checkFiles_isBounded (ha : a.Respects h P Q root)
    (hfiles : ∀ file ∈ files, IsClean h root file) :
    IsBounded h P Q (a.checkFiles root files) := by
  have hstart := fun file hfile => start_continues ha (hfiles file hfile)
  refine Ensures.map (Q := Collects (fun _ => FailsOnly Q) files) ?_
    fun r hr => hr.failsOnly.map envelopeOf
  split
  · exact Pool.run_ensures hstart
  · exact ensures_mapM fun file hfile => Pool.bind_ensures (hstart file hfile)

theorem fixFiles_isBounded (ha : a.Respects h P Q root) : IsBounded h P Q (a.fixFiles root files) := by
  unfold fixFiles
  split
  · exact isBounded_pure _
  · refine command_bind_isBounded ha _ fun words hwords => ?_
    refine (survive_isBounded (ha.commands words hwords _)).bind fun result => ?_
    cases result with
    | ok c => exact isBounded_pure _
    | error reason => exact IsBounded.bind (isBounded_say _ _ _ _) fun _ => isBounded_pure _

theorem exec_discover {s : Session} (extensions : List Text) :
    (discover root extensions).exec h s =
      ((Search.discover ⟨s.tree, h.here, root⟩ extensions h.lookup).mapError Failure.search, s) :=
  exec_ofExcept _ _

theorem lint_isBounded (ha : a.Respects h P Q root) {extensions : List Text}
    (hsearch : ∀ t fault, Search.discover ⟨t, h.here, root⟩ extensions h.lookup = .error fault →
      Q (.search fault)) (fix : Bool) : IsBounded h P Q (a.lint root extensions fix) := by
  have hdiscover : Ensures h (fun s => P s.launches) (discover root extensions) fun r =>
      FailsOnly Q r ∧ ∀ files, r = .ok files → ∀ file ∈ files, IsClean h root file := by
    intro s hs
    rw [exec_discover]
    cases hfound : Search.discover ⟨s.tree, h.here, root⟩ extensions h.lookup with
    | error fault => exact ⟨⟨failsOnly_error.2 (hsearch s.tree fault hfound), nofun⟩, hs⟩
    | ok files =>
      refine ⟨⟨failsOnly_ok files, ?_⟩, hs⟩
      rintro _ ⟨⟩ file hfile t error hread
      exact Search.ne_nullCharacter_of_read hfound hfile hread
  refine Ensures.bind hdiscover ?_ fun f hf => failsOnly_error.2 (failsOnly_error.1 hf.1)
  rintro files ⟨-, hfiles⟩
  split
  · exact fixFiles_isBounded ha
  · exact checkFiles_isBounded ha (hfiles files rfl)

end Lint

/-! ### Commands that the host launches -/

section HostRunner

variable {a : ClangFormat} {h : Host} {P : List Launch → Prop} {Q : Failure → Prop} {root : Path}
  {words : List Text}

theorem resolve_ensures {I : Session → Prop} (hcommand : ∀ f, f.isOfCommand → Q f) (hI : ∀ s ps,
    I s → I { s with lookups := ps }) :
    Ensures h I (Command.resolve words) fun r =>
      FailsOnly Q r ∧ ∀ args, r = .ok args → h.resolved? words = some args := by
  intro s hs
  obtain ⟨looked, hresolve⟩ := Command.exec_resolve h s words
  rw [hresolve]
  refine ⟨?_, hI s looked hs⟩
  cases h.resolved? words with
  | none =>
    refine ⟨failsOnly_error.2 (hcommand _ ?_), nofun⟩
    cases words <;> rfl
  | some args => exact ⟨failsOnly_ok args, fun _ heq => congrArg some (Except.ok.inj heq)⟩

theorem complete_failsOnly {args : List Text} {timeout : Value} {outcome : Outcome}
    (htimeout : ∀ fault, Command.timeoutLine timeout = .error fault → Q (.timeout fault))
    (houtcome : ∀ f, outcome = .failed f → Q f) :
    FailsOnly Q (Command.complete args timeout outcome) := by
  cases outcome with
  | exited code stdout stderr => exact failsOnly_ok _
  | failed f => exact failsOnly_error.2 (houtcome f rfl)
  | timedOut stdout stderr =>
    rw [Command.complete, Command.timedOut]
    cases hline : Command.timeoutLine timeout with
    | ok line => exact failsOnly_ok _
    | error fault => exact failsOnly_error.2 (htimeout fault hline)

theorem hostRunner_isBounded (hcommand : ∀ f, f.isOfCommand → Q f)
    (htimeout : ∀ fault, Command.timeoutLine a.timeout = .error fault → Q (.timeout fault))
    (hlaunch : ∀ l t f, (h.launch l t).1 = .failed f → Q f)
    (hP : ∀ ls l, P ls → h.resolved? words = some l.args → P (ls ++ [l])) :
    IsBounded h P Q (hostRunner words (a.options root)) := by
  refine Ensures.bind (resolve_ensures hcommand fun _ _ hs => hs) ?_ fun f hf =>
    failsOnly_error.2 (failsOnly_error.1 hf.1)
  rintro args ⟨-, hargs⟩
  have hoverride : (a.options root).override [] =
      if Command.Options.isNegative a.timeout then .error .negativeTimeout
      else .ok (a.options root) := rfl
  rw [hoverride]
  split
  · exact isBounded_throw (hcommand _ rfl)
  · have hmade : Command.toLaunch args (a.options root) =
        .ok ⟨args, some root.text, .null, .bool true, .bool false, a.timeout, true⟩ := rfl
    simp only [Run.ofExcept, pure_bind, hmade]
    refine Ensures.bind_ok (launch_ensures fun ls hls => hP ls _ hls (hargs args rfl)) ?_
    rintro _ ⟨t, rfl⟩
    refine (isBounded_ofExcept fun f hf => ?_).bind fun completed => isBounded_pure completed
    exact complete_failsOnly htimeout (hlaunch _ t) f hf

theorem respects_of_hostRunner (hrunner : a.runner = hostRunner)
    (hquoting : ∀ fault, ShellWords.split a.launcher = .error fault → Q (.quoting fault))
    (htimeout : ∀ fault, Command.timeoutLine a.timeout = .error fault → Q (.timeout fault))
    (hlaunch : ∀ l t f, (h.launch l t).1 = .failed f → f.isOfCommand ∨ Q f)
    (hP : ∀ words, ShellWords.split a.launcher = .ok words → ∀ more ls l, P ls →
      h.resolved? (words ++ program :: more) = some l.args → P (ls ++ [l])) :
    a.Respects h P Q root := by
  refine ⟨hquoting, fun words hwords more => ?_⟩
  rw [hrunner]
  exact hostRunner_isBounded (fun _ => .inl) (fun fault hfault => .inr (htimeout fault hfault))
    hlaunch (hP words hwords more)

end HostRunner

/-! ### Setup -/

def lookUp (programs : List Text) : Run Unit := do
  for p in programs do
    if (← Run.find p).isNone then throw (.notInstalled name p)

def FailsSetup (a : ClangFormat) (f : Failure) : Prop :=
  (∃ p, f = .notInstalled name p) ∨
    ∃ fault, ShellWords.split a.launcher = .error fault ∧ f = .quoting fault

section Setup

variable {a : ClangFormat} {h : Host} {P : List Launch → Prop} {Q : Failure → Prop}

theorem lookUp_isBounded (hmissing : ∀ p, Q (.notInstalled name p)) (programs : List Text) :
    IsBounded h P Q (lookUp programs) := by
  refine IsBounded.bind (isBounded_forIn _ fun p _ _ => ?_) fun _ => isBounded_pure _
  refine (isBounded_find p).bind fun found => ?_
  split
  · exact (isBounded_throw (hmissing p)).bind fun _ => isBounded_pure _
  · exact isBounded_pure _

theorem required_isBounded
    (hquoting : ∀ fault, ShellWords.split a.launcher = .error fault → Q (.quoting fault)) :
    IsBounded h P Q a.required := by
  unfold required
  split
  · exact isBounded_pure _
  · refine (isBounded_ofExcept hquoting).bind fun words => ?_
    cases words <;> exact isBounded_pure _

theorem verify_isBounded : IsBounded h P a.FailsSetup a.verify :=
  (required_isBounded fun fault hfault => .inr ⟨fault, hfault, rfl⟩).bind
    (lookUp_isBounded fun p => .inl ⟨p, rfl⟩)

end Setup

end ClangFormat

end FormatAudit
