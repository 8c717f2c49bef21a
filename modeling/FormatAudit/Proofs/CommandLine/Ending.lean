import FormatAudit.Proofs.CommandLine.Unasked
import FormatAudit.Proofs.Config.Outcome
import FormatAudit.Proofs.Config.Override
import FormatAudit.Proofs.Linter.Reporting

/-! How a run of the program ends once its configuration is loaded: with reports that are shown, with
a failure that the user is told about, or with a failure that passes. -/
namespace FormatAudit

open Run

variable {h : Host} {s : Session} {c : Config} {r : LintRequest} {P : List Launch → Prop}
  {Q : Failure → Prop}

namespace LintRequest

def reportsFor (r : LintRequest) (registry : Registry Linter) (root : Path) (c : Config) :
    Run (List Report × Output) := do
  let names ← Run.ofExcept id (r.names registry c)
  let overridden ← Run.ofExcept id (c.override r.overrides names)
  let config := r.applyTo overridden
  return (← registry.runAll config root names, config.output)

def settle (r : LintRequest) : Except Failure (List Report × Output) → Run CommandLine.Exit
  | .ok (reports, output) => conclude reports output
  | .error f =>
    if f.isOfUser then do
      Run.say .fail f.message (!r.noEmoji) (some !r.noColor)
      return .unusable
    else giveUp f

def launcherFor (r : LintRequest) (c : Config) (name : Text) : Text :=
  r.overrides.launcherOver (c.settingsFor name [])

def extensionsFor (r : LintRequest) (c : Config) (name : Text) : List Text :=
  let given := r.overrides.extensionsOver (c.settingsFor name [])
  if given = [] then ClangFormat.extensions else given

theorem extensionsFor_ne_nil (r : LintRequest) (c : Config) (name : Text) :
    r.extensionsFor c name ≠ [] := by
  rw [extensionsFor]
  split
  · decide
  · assumption

theorem exec_run {registry : Registry Linter} {root : Path}
    (hroot : (r.workspace.exec h s).1 = .ok root)
    (hload : ((Config.load root r.configFile).exec h s).1 = .ok c) :
    (r.run registry).exec h s =
      (Run.attempt (r.reportsFor registry root c) >>= r.settle).exec h s := by
  have hworkspace : r.workspace.exec h s = (.ok root, s) :=
    Prod.ext hroot r.exec_workspace
  have hloaded : (Config.load root r.configFile).exec h s = (.ok c, s) := by
    rw [Config.exec_load] at hload ⊢
    exact Prod.ext hload rfl
  have hreports : (r.reports registry root).exec h s = (r.reportsFor registry root c).exec h s := by
    rw [reports, exec_bind, hloaded]
    rfl
  rw [run, exec_bind, hworkspace]
  dsimp only
  rw [exec_bind, exec_bind, exec_attempt, exec_attempt, hreports]
  rcases (r.reportsFor registry root c).exec h s with ⟨f | reports, s'⟩ <;> rfl

theorem exists_names (r : LintRequest) (c : Config) :
    ∃ names, r.names Registry.standard c = .ok names ∧ names ≠ [] := by
  rw [names]
  split
  · next hasked => exact ⟨_, rfl, hasked⟩
  · split
    · next henabled => exact ⟨_, rfl, henabled⟩
    · exact ⟨_, rfl, by simp⟩

/-! ### What is shown -/

theorem isBounded_console (color emoji : Bool) : IsBounded h P Q (Run.console color emoji) :=
  isBounded_of_exec (fun _ => ⟨_, rfl⟩) fun _ => rfl

theorem isBounded_header (title : Text) (color : Bool) : IsBounded h P Q (Run.header title color) :=
  (isBounded_console _ _).bind fun _ => isBounded_print _

theorem isBounded_showReport (console : Console.Setup) (report : Report) :
    IsBounded h P Q (Run.showReport console report) := by
  unfold Run.showReport
  split
  · exact isBounded_pure _
  · refine (isBounded_header _ _).bind fun _ => ?_
    refine (isBounded_forIn _ fun severity _ _ => ?_).bind fun _ => isBounded_pure _
    refine (isBounded_forIn _ fun v _ _ => ?_).bind fun _ => isBounded_pure _
    exact (isBounded_print _).bind fun _ => isBounded_pure _

theorem isBounded_showReports (reports : List Report) (output : Output) :
    IsBounded h P Q (Run.showReports reports output) := by
  refine (isBounded_console _ _).bind fun _ => ?_
  refine (isBounded_forIn _ fun report _ _ => ?_).bind fun _ => (isBounded_header _ _).bind fun _ =>
    (isBounded_forIn _ fun report _ _ => ?_).bind fun _ => isBounded_pure _
  · exact (isBounded_showReport _ _).bind fun _ => isBounded_pure _
  · exact (isBounded_print _).bind fun _ => isBounded_pure _

theorem settle_ok (reports : List Report) (output : Output) :
    ((r.settle (.ok (reports, output))).exec h s).1 = .ok .clean ∨
      ((r.settle (.ok (reports, output))).exec h s).1 = .ok .findings := by
  have hshown : IsBounded h (fun _ => True) (fun _ => False) (Run.showReports reports output) :=
    isBounded_showReports reports output
  change ((Run.showReports reports output >>= _).exec h s).1 = _ ∨
    ((Run.showReports reports output >>= _).exec h s).1 = _
  rw [exec_bind]
  rcases hs : (Run.showReports reports output).exec h s with ⟨f | _, s'⟩
  · exact absurd (congrArg Prod.fst hs) fun hf => (hshown s trivial).1 f hf
  · dsimp only
    cases reports.all Report.isOk
    · exact .inr rfl
    · exact .inl rfl

theorem settle_user {f : Failure} (hf : f.isOfUser) :
    ((r.settle (.error f)).exec h s).1 = .ok .unusable := by
  rw [settle, if_pos hf]
  rfl

theorem settle_other {f : Failure} (hf : ¬ f.isOfUser) :
    (r.settle (.error f)).exec h s = (giveUp f).exec h s := by
  rw [settle, if_neg hf]

theorem settle_isBounded (result : Except Failure (List Report × Output)) :
    IsBounded h P (fun _ => True) (r.settle result) := by
  cases result with
  | ok x => exact (isBounded_showReports _ _).bind fun _ => isBounded_pure _
  | error f =>
    rw [settle]
    split
    · exact IsBounded.bind (isBounded_say _ _ _ _) fun _ => isBounded_pure _
    · unfold giveUp
      split
      · exact isBounded_pure _
      · exact isBounded_pure _
      · exact (isBounded_print _).bind fun _ => isBounded_pure _
      · exact isBounded_throw trivial

/-! ### What is run -/

/-- Runs of the chosen linters keep within the bounds that the search and the commands of each of
them keep. -/
theorem reportsFor_isBounded {root : Path} {names : List Text}
    (hnames : r.names Registry.standard c = .ok names)
    (hoverride : ∀ f, r.overrides.Fails f → Q f)
    (hunknown : ∀ name ∈ names, Registry.standard.get? name = none → Q (.unknownLinter name))
    (hquoting : ∀ name ∈ names, ∀ fault, ShellWords.split (r.launcherFor c name) = .error fault →
      Q (.quoting fault))
    (hlint : ∀ name ∈ names, ∀ config settings, settings.launcher = r.launcherFor c name →
      settings.extensions = r.extensionsFor c name →
        IsBounded h P Q ((Registry.formatterFor config settings).lint
          (Path.join root settings.directory) settings.extensions config.execution.autoFix)) :
    IsBounded h P Q (r.reportsFor Registry.standard root c) := by
  rw [reportsFor, hnames]
  obtain ⟨f, hf, hfails⟩ | ⟨d, hd, happlied⟩ := Config.override_cases r.overrides names c
  · simp only [Run.ofExcept, pure_bind, hf]
    exact fun s hs => ⟨failsOnly_error.2 (hoverride f hfails), hs⟩
  · simp only [Run.ofExcept, pure_bind, hd]
    refine IsBounded.bind (Registry.runAll_isBounded hunknown ?_) fun _ => isBounded_pure _
    intro name hname f hf
    obtain ⟨t, happlies, ht⟩ := happlied name hname
    rw [Registry.runOne_standard hf]
    have hsettings : (r.applyTo d).settingsFor name ClangFormat.extensions =
        { t with extensions := r.extensionsFor c name } := by
      have hsame : (r.applyTo d).settings? name = some t := ht
      rw [Config.settingsFor_of_settings? hsame, happlies.extensions]
      rfl
    rw [hsettings]
    have hlauncher : t.launcher = r.launcherFor c name := happlies.launcher
    refine ClangFormat.run_isBounded ?_ ?_ (hlint name hname _ _ hlauncher rfl)
    · exact extensionsFor_ne_nil r c name
    · intro fault hfault
      refine hquoting name hname fault ?_
      rw [← hlauncher]
      exact hfault

end LintRequest

theorem Registry.lint_formatterFor_isBounded {config : Config} {settings : Settings} {dir : Path}
    {extensions : List Text} {fix : Bool}
    (hquoting : ∀ fault, ShellWords.split settings.launcher = .error fault → Q (.quoting fault))
    (hlaunch : ∀ l t f, (h.launch l t).1 = .failed f → f.isOfCommand ∨ Q f)
    (hsearch : ∀ t fault, Search.discover ⟨t, h.here, dir⟩ extensions h.lookup = .error fault →
      Q (.search fault)) :
    IsBounded h (fun _ => True) Q ((formatterFor config settings).lint dir extensions fix) := by
  refine ClangFormat.lint_isBounded (ClangFormat.respects_of_hostRunner rfl hquoting ?_ hlaunch
    fun _ _ _ _ _ _ _ => trivial) hsearch fix
  intro fault hfault
  have htimeout : Command.timeoutLine (formatterFor config settings).timeout = .error fault := hfault
  rw [formatterFor] at htimeout
  dsimp only at htimeout
  cases hgiven : config.execution.timeout <;> rw [hgiven] at htimeout <;> cases htimeout

namespace CommandLine

/-- From the top of an empty tree, whatever programs are installed, the standard configuration is
loaded. -/
theorem loads_of_empty (find : Text → Option Text) (hroot : r.root = ['.'])
    (hfile : r.configFile = none) :
    r.Loads { bareHost with find := find } (.start (.dir [])) (.standard 1) := by
  have hload : ((Config.load ⟨1, []⟩ none).exec bareHost (.start (.dir []))).1 =
      .ok (.standard 1) := by
    decide +kernel
  refine ⟨⟨1, []⟩, congrArg Prod.fst (workspace_here hroot rfl), ?_⟩
  rw [Config.exec_load] at hload ⊢
  rw [hfile]
  exact hload

theorem exec_runWith {registry : Registry Linter} {args : List Text}
    (hargs : Request.ofArguments h.numerals args = .ok (.lint r)) :
    (∃ fault, (runWith registry args).exec h s = (.ok (.misused fault), s) ∧
        (r.rootIsFile.exec h s).1 = .ok true) ∨
      (runWith registry args).exec h s = (r.run registry).exec h s := by
  obtain ⟨isFile, hcheck⟩ : ∃ isFile, r.rootIsFile.exec h s = (.ok isFile, s) := ⟨_, rfl⟩
  have hrequest : (Request.check (.lint r)).exec h s =
      (.ok (if isFile then some (.notDirectory r.root) else none), s) := by
    rw [Request.check, exec_bind, hcheck]
    rfl
  rw [runWith, exec_read_bind, hargs]
  dsimp only
  rw [exec_bind, hrequest, hcheck]
  cases isFile with
  | true => exact .inl ⟨_, rfl, rfl⟩
  | false => exact .inr rfl

theorem rootIsFile_here (hroot : r.root = ['.'])
    (hhere : ∃ entries, s.tree.entry h.here Path.here = .ok (.dir entries)) :
    (r.rootIsFile.exec h s).1 = .ok false := by
  obtain ⟨entries, hdir⟩ := hhere
  have hpoint : Path.ofText r.root = Path.here := by
    rw [hroot]
    decide
  rw [LintRequest.rootIsFile, exec_read_bind, exec_get_bind, hpoint, hdir]
  rfl

/-- From the top of an empty tree, a run comes to what its reports come to. -/
theorem exec_runWith_of_empty (find : Text → Option Text) {registry : Registry Linter}
    {args : List Text} (hargs : Request.ofArguments bareHost.numerals args = .ok (.lint r))
    (hroot : r.root = ['.']) (hfile : r.configFile = none) :
    (runWith registry args).exec { bareHost with find := find } (.start (.dir [])) =
      (Run.attempt (r.reportsFor registry ⟨1, []⟩ (.standard 1)) >>= r.settle).exec
        { bareHost with find := find } (.start (.dir [])) := by
  obtain ⟨root, hworkspace, hload⟩ := loads_of_empty find hroot hfile
  have hhere := congrArg Prod.fst
    (workspace_here (h := { bareHost with find := find }) (s := .start (.dir [])) hroot rfl)
  obtain rfl := Except.ok.inj (hworkspace.symm.trans hhere)
  rcases exec_runWith (h := { bareHost with find := find }) hargs with ⟨fault, -, hisFile⟩ | hrun
  · have hnone : (r.rootIsFile.exec { bareHost with find := find } (.start (.dir []))).1 =
        .ok false := rootIsFile_here hroot ⟨[], rfl⟩
    cases hnone.symm.trans hisFile
  · rw [hrun, LintRequest.exec_run hworkspace hload]

end CommandLine

end FormatAudit
