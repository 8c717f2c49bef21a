import FormatAudit.Proofs.CommandLine.Ending

/-! Command lines that are given to the program, the arguments of the formatter and its launcher. As
long as they are well quoted, a run ends with an exit status. -/
namespace FormatAudit

open Run

variable {h : Host} {s : Session} {c : Config} {r : LintRequest}

/-- The failures that leave a run of linters. The user is told about none of them: arguments that
are no command line, a launcher that is none, and a path for which the system does not tell whether
it leads to a file. -/
inductive LintRequest.Escapes (r : LintRequest) (c : Config) : Failure → Prop
  | args {t : Text} {fault : ShellWords.Fault} (given : r.overrides.args = some t)
    (malformed : ShellWords.split t = .error fault) :
    Escapes r c (.rejected (Overrides.malformedArgs fault))
  | launcher {names : List Text} {name : Text} {fault : ShellWords.Fault}
    (chosen : r.names Registry.standard c = .ok names) (mem : name ∈ names)
    (malformed : ShellWords.split (r.launcherFor c name) = .error fault) :
    Escapes r c (.quoting fault)
  | path {b : Search.Base} {entry : List Text} {error : FileError}
    (untold : b.isFile entry = .error error) : Escapes r c (.search (.file error))

namespace LintRequest

theorem Escapes.exec_settle {f : Failure} (hf : r.Escapes c f) :
    (r.settle (.error f)).exec h s = (.error f, s) := by
  cases hf <;> rfl

/-- Runs of linters with words of letters for extensions fail because the user has to mend
something, or with one of the failures that escape. -/
theorem reportsFor_escapes {root : Path} {names : List Text}
    (hnames : r.names Registry.standard c = .ok names)
    (hletters : ∀ name ∈ names, ∀ e ∈ r.extensionsFor c name, Extension.isLetters e)
    (hlaunch : ∀ l t f, (h.launch l t).1 = .failed f → f.isOfCommand) :
    IsBounded h (fun _ => True) (fun f => f.isOfUser ∨ r.Escapes c f)
      (r.reportsFor Registry.standard root c) := by
  have hquoting : ∀ name ∈ names, ∀ fault,
      ShellWords.split (r.launcherFor c name) = .error fault →
        Failure.isOfUser (.quoting fault) ∨ r.Escapes c (.quoting fault) :=
    fun name hname fault hfault => .inr (.launcher hnames hname hfault)
  refine reportsFor_isBounded hnames ?_ (fun _ _ _ => .inl rfl) hquoting ?_
  · intro f hf
    cases hf with
    | extensions given empty => exact .inl rfl
    | args given malformed => exact .inr (.args given malformed)
  · intro name hname config settings hlauncher hextensions
    refine Registry.lint_formatterFor_isBounded ?_ (fun l t f hf => .inl (hlaunch l t f hf)) ?_
    · intro fault hfault
      rw [hlauncher] at hfault
      exact hquoting name hname fault hfault
    · intro t fault hfault
      rw [hextensions] at hfault
      obtain ⟨_, error, huntold, rfl⟩ :=
        Search.exists_isFile_of_discover (extensionsFor_ne_nil r c name) (hletters name hname)
          hfault
      exact .inr (.path huntold)

end LintRequest

namespace CommandLine

/-- With a configuration that loads and words of letters for extensions, a run ends with the status
0, 1 or 2, whatever arguments and launcher are given to it or configured. The exceptions are
malformed arguments, a malformed launcher of a linter that is run, and a path of which it cannot be
told whether it leads to a file. -/
theorem run_exits_or_escapes {args : List Text}
    (hargs : Request.ofArguments h.numerals args = .ok (.lint r)) (hloads : r.Loads h s c)
    (hletters : ∀ names, r.names Registry.standard c = .ok names →
      ∀ name ∈ names, ∀ e ∈ r.extensionsFor c name, Extension.isLetters e)
    (hlaunch : ∀ l t f, (h.launch l t).1 = .failed f → f.isOfCommand) :
    (∃ exit, ((run args).exec h s).1 = .ok exit ∧ exit.status ≤ 2) ∨
      ∃ f, ((run args).exec h s).1 = .error f ∧ r.Escapes c f := by
  obtain ⟨root, hroot, hload⟩ := hloads
  obtain ⟨names, hnames, -⟩ := r.exists_names c
  rw [run]
  obtain ⟨fault, hmisused, -⟩ | hrun := exec_runWith hargs
  · rw [hmisused]
    exact .inl ⟨_, rfl, Nat.le_refl 2⟩
  · have hescapes : IsBounded h (fun _ => True) (fun f => f.isOfUser ∨ r.Escapes c f)
        (r.reportsFor Registry.standard root c) :=
      LintRequest.reportsFor_escapes hnames (hletters names hnames) hlaunch
    rw [hrun, LintRequest.exec_run hroot hload, exec_bind, exec_attempt]
    have hfails := (hescapes s trivial).1
    rcases hr : (r.reportsFor Registry.standard root c).exec h s with
      ⟨f | ⟨reports, output⟩, s'⟩ <;> rw [hr] at hfails
    · obtain huser | hf := failsOnly_error.1 hfails
      · exact .inl ⟨.unusable, LintRequest.settle_user huser, Nat.le_refl 2⟩
      · exact .inr ⟨f, congrArg Prod.fst hf.exec_settle, hf⟩
    · obtain hclean | hfindings := LintRequest.settle_ok reports output
      · exact .inl ⟨.clean, hclean, Nat.zero_le 2⟩
      · exact .inl ⟨.findings, hfindings, Nat.le_succ 1⟩

def quotingRequest (args launcher : Option Text) : LintRequest :=
  { bareRequest with overrides := ⟨none, args, launcher⟩ }

theorem isLetters_quotingRequest (args launcher : Option Text) :
    ∀ names, (quotingRequest args launcher).names Registry.standard (.standard 1) = .ok names →
      ∀ name ∈ names, ∀ e ∈ (quotingRequest args launcher).extensionsFor (.standard 1) name,
        Extension.isLetters e := by
  intro names _ name _
  change ∀ e ∈ ClangFormat.extensions, Extension.isLetters e
  decide

theorem run_exits_or_escapes_xcrun :
    ∃ exit, ((run ["lint".toList, "--args".toList, "-a 'b c'".toList, "--prefix".toList,
        "xcrun --run".toList]).exec bareHost (.start (.dir []))).1 = .ok exit ∧
      exit.status ≤ 2 := by
  let given := some "-a 'b c'".toList
  let launcher := some "xcrun --run".toList
  have hargs : Request.ofArguments bareHost.numerals ["lint".toList, "--args".toList,
      "-a 'b c'".toList, "--prefix".toList, "xcrun --run".toList] =
        .ok (.lint (quotingRequest given launcher)) := by
    decide
  obtain hexits | ⟨f, hf, -⟩ := run_exits_or_escapes hargs (loads_of_empty _ rfl rfl)
    (isLetters_quotingRequest given launcher) fun _ _ _ hf => nomatch hf
  · exact hexits
  · have hends : ((run ["lint".toList, "--args".toList, "-a 'b c'".toList, "--prefix".toList,
        "xcrun --run".toList]).exec bareHost (.start (.dir []))).1 = .ok .findings := by
      rw [run, exec_runWith_of_empty _ hargs rfl rfl]
      decide +kernel
    cases hends.symm.trans hf

/-- A single quote in the place of the arguments, or of the launcher, is told to nobody. -/
theorem run_unclosed_quote :
    let s := Session.start (.dir [])
    let quote := "'".toList
    (Request.ofArguments bareHost.numerals ["lint".toList, "--args".toList, quote] =
        .ok (.lint (quotingRequest (some quote) none)) ∧
      (quotingRequest (some quote) none).Loads bareHost s (.standard 1) ∧
      ((run ["lint".toList, "--args".toList, quote]).exec bareHost s).1 =
        .error (.rejected (Overrides.malformedArgs .unclosedQuote))) ∧
    (Request.ofArguments bareHost.numerals ["lint".toList, "--prefix".toList, quote] =
        .ok (.lint (quotingRequest none (some quote))) ∧
      (quotingRequest none (some quote)).Loads bareHost s (.standard 1) ∧
      ((run ["lint".toList, "--prefix".toList, quote]).exec bareHost s).1 =
        .error (.quoting .unclosedQuote)) := by
  intro s quote
  have hloads : ∀ given launcher, (quotingRequest given launcher).Loads bareHost s (.standard 1) :=
    fun given launcher => loads_of_empty _ rfl rfl
  have hargs : Request.ofArguments bareHost.numerals ["lint".toList, "--args".toList, quote] =
      .ok (.lint (quotingRequest (some quote) none)) := by decide
  have hprefix : Request.ofArguments bareHost.numerals ["lint".toList, "--prefix".toList, quote] =
      .ok (.lint (quotingRequest none (some quote))) := by decide
  refine ⟨⟨hargs, hloads _ _, ?_⟩, hprefix, hloads _ _, ?_⟩
  · rw [run, exec_runWith_of_empty _ hargs rfl rfl]
    decide +kernel
  · rw [run, exec_runWith_of_empty _ hprefix rfl rfl]
    decide +kernel

end CommandLine

end FormatAudit
