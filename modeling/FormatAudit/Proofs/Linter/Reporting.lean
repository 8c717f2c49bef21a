import FormatAudit.Proofs.Linter.Survival
import FormatAudit.Proofs.Result

/-! Runs of linters within bounds: verifying a linter, running it and reading its findings. Programs
that are missing are reported; every other failure passes. -/
namespace FormatAudit

open Run

variable {h : Host} {P : List Launch → Prop} {Q : Failure → Prop}

namespace Linter

variable {l : Linter} {settings : Settings} {root dir : Path} {fix : Bool} {output : Output}

theorem missing?_isBounded
    (hverify : IsBounded h P (fun f => (∃ n p, f = .notInstalled n p) ∨ Q f) (l.verify dir)) :
    IsBounded h P Q (l.missing? dir) := by
  refine Ensures.bind_ok hverify.attempt ?_
  rintro (f | _) hr
  · obtain ⟨n, p, rfl⟩ | hf := failsOnly_error.1 hr
    · exact isBounded_pure _
    · dsimp only
      split
      · exact isBounded_pure _
      · exact isBounded_throw hf
  · exact isBounded_pure _

theorem runVerified_isBounded {extensions : List Text}
    (hlint : IsBounded h P Q (l.lint dir extensions fix))
    (hfindings : ∀ e, IsBounded h P Q (l.findings root e)) :
    IsBounded h P Q (l.runVerified extensions root dir fix output) := by
  refine IsBounded.bind (isBounded_say _ _ _ _) fun _ => hlint.bind fun e =>
    (hfindings e).bind fun f => ?_
  split
  · exact IsBounded.bind (isBounded_say _ _ _ _) fun _ => isBounded_pure _
  · exact IsBounded.bind (isBounded_say _ _ _ _) fun _ => isBounded_pure _

theorem run_isBounded
    (hverify : IsBounded h P (fun f => (∃ n p, f = .notInstalled n p) ∨ Q f)
      (l.verify (Path.join root settings.directory)))
    (hlint : IsBounded h P Q (l.lint (Path.join root settings.directory)
      (if settings.extensions = [] then l.defaultExtensions else settings.extensions) fix))
    (hfindings : ∀ e, IsBounded h P Q (l.findings root e)) :
    IsBounded h P Q (l.run settings root fix output) := by
  refine IsBounded.bind (isBounded_say _ _ _ _) fun _ =>
    (missing?_isBounded hverify).bind fun reason => ?_
  cases reason with
  | some reason => exact IsBounded.bind (isBounded_say _ _ _ _) fun _ => isBounded_pure _
  | none =>
    exact IsBounded.bind (isBounded_say _ _ _ _) fun _ => runVerified_isBounded hlint hfindings

end Linter

namespace ClangFormat

/-- A formatter fails as its search does, or as its launcher is split, apart from failures of its
commands that are not survived. -/
theorem run_isBounded {a : ClangFormat} {settings : Settings} {root : Path} {fix : Bool}
    {output : Output} (hextensions : settings.extensions ≠ [])
    (hquoting : ∀ fault, ShellWords.split a.launcher = .error fault → Q (.quoting fault))
    (hlint : IsBounded h P Q (a.lint (Path.join root settings.directory) settings.extensions fix)) :
    IsBounded h P Q (a.toLinter.run settings root fix output) := by
  refine Linter.run_isBounded ?_ ?_ fun e => ?_
  · refine verify_isBounded.mono ?_
    rintro f (⟨p, rfl⟩ | ⟨fault, hfault, rfl⟩)
    · exact .inl ⟨_, _, rfl⟩
    · exact .inr (hquoting fault hfault)
  · rw [if_neg hextensions]
    exact hlint
  · obtain ⟨f, hf⟩ := Findings.exists_ofEnvelope e
    refine isBounded_ofExcept fun rejection hrejection => ?_
    cases hf.symm.trans hrejection

end ClangFormat

namespace Registry

theorem get_eq_ok {α : Type} {registry : Registry α} {name : Text} {f : Factory α} :
    registry.get name = .ok f ↔ registry.get? name = some f := by
  rw [get]
  cases registry.get? name <;> simp

theorem get_eq_error {α : Type} {registry : Registry α} {name : Text} {e : Failure} :
    registry.get name = .error e ↔ registry.get? name = none ∧ .unknownLinter name = e := by
  rw [get]
  cases registry.get? name <;> simp

/-- A run of several linters fails as one of them does, or because a name is not registered. -/
theorem runAll_isBounded {registry : Registry Linter} {config : Config} {root : Path}
    {names : List Text}
    (hunknown : ∀ name ∈ names, registry.get? name = none → Q (.unknownLinter name))
    (hone : ∀ name ∈ names, ∀ f, registry.get? name = some f →
      IsBounded h P Q (registry.runOne config root name f)) :
    IsBounded h P Q (registry.runAll config root names) := by
  rw [runAll]
  cases hfactories : names.mapM fun name => (registry.get name).map fun f => (name, f) with
  | error e =>
    obtain ⟨before, name, after, rfl, -, hname⟩ := first_of_mapM_eq_error hfactories
    cases hget : registry.get name with
    | ok f =>
      rw [hget] at hname
      cases hname
    | error e' =>
      rw [hget] at hname
      obtain ⟨hnone, rfl⟩ := get_eq_error.1 hget
      cases hname
      exact isBounded_throw (hunknown name (by simp) hnone)
  | ok factories =>
    refine isBounded_mapM fun factory hfactory => ?_
    obtain ⟨name, hname, hmade⟩ := exists_mem_of_mapM hfactories factory hfactory
    obtain ⟨f, hget, rfl⟩ := exists_of_map hmade
    exact hone name hname f (get_eq_ok.1 hget)

def formatterFor (config : Config) (settings : Settings) : ClangFormat :=
  { args := settings.args
    launcher := settings.launcher
    jobs := config.execution.jobs
    timeout := (config.execution.timeout.map Value.float).getD .null
    output := config.output
    runner := ClangFormat.hostRunner }

theorem eq_of_get?_standard {name : Text} {f : Factory Linter}
    (h : Registry.standard.get? name = some f) :
    f = ⟨ClangFormat.extensions, fun o => return (ClangFormat.ofOptions o).toLinter⟩ := by
  rw [Registry.get?, Registry.standard] at h
  simp only [List.find?_cons] at h
  split at h
  · exact (Option.some.inj h).symm
  · cases h

theorem runOne_standard {config : Config} {root : Path} {name : Text} {f : Factory Linter}
    (hf : Registry.standard.get? name = some f) :
    let settings := config.settingsFor name ClangFormat.extensions
    Registry.standard.runOne config root name f = (formatterFor config settings).toLinter.run
      settings root config.execution.autoFix config.output := by
  obtain rfl := eq_of_get?_standard hf
  rw [runOne, create, get_eq_ok.2 hf]
  rfl

end Registry

end FormatAudit
