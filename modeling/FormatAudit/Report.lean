import FormatAudit.Linter.Registry

/-!
Runs of linters and the reports on them. A program that is not installed ends the run of one
linter only, and its report says so.
-/
namespace FormatAudit

structure Report where
  name : Text
  findings : Findings
  summary : Text
  envelope : Option Envelope
  setupError : Option Text
  deriving DecidableEq, Repr

namespace Report

def isOk (r : Report) : Bool :=
  r.setupError.isNone && r.findings.isSuccess

end Report

namespace Linter

def ellipsis : Text := ['\u2026']

def announcement (name : Text) (dir : Path) (extensions : List Text) (fix : Bool) : Text :=
  (if fix then "Linting and auto-fixing".toList else "Linting".toList) ++ " files in ".toList ++
    dir.text ++ " with ".toList ++ name ++ " (extensions: ".toList ++
    ", ".toList.intercalate extensions ++ [')'] ++ ellipsis

def missing? (l : Linter) (dir : Path) : Run (Option Text) := do
  match ← Run.attempt (l.verify dir) with
  | .ok () => return none
  | .error f => match f with
    | .notInstalled .. => return some f.message
    | _ => throw f

def failedSummary (l : Linter) (e : Envelope) (f : Findings) : Text :=
  if f.violations = [] then
    l.name ++ " failed with exit status ".toList ++ Text.ofInt e.status
  else f.summary l.name

def runVerified (l : Linter) (extensions : List Text) (root dir : Path) (fix : Bool)
    (output : Output) : Run Report := do
  let say := fun level t => Run.say level t output.emoji (some output.color)
  say .info (announcement l.name dir extensions fix)
  let envelope ← l.lint dir extensions fix
  let findings ← l.findings root envelope
  if findings.isSuccess then
    let summary := findings.summary l.name
    say .ok summary
    return ⟨l.name, findings, summary, some envelope, none⟩
  else
    let summary := l.failedSummary envelope findings
    say .warn summary
    return ⟨l.name, findings, summary, some envelope, none⟩

def run (l : Linter) (settings : Settings) (root : Path) (fix : Bool) (output : Output) :
    Run Report := do
  let say := fun level t => Run.say level t output.emoji (some output.color)
  let dir := Path.join root settings.directory
  let extensions :=
    if settings.extensions = [] then l.defaultExtensions else settings.extensions
  say .info ("Verifying setup for ".toList ++ l.name ++ ellipsis)
  match ← l.missing? dir with
  | some reason =>
    say .fail reason
    return ⟨l.name, ⟨false, [], []⟩, "Skipped ".toList ++ l.name ++ ": ".toList ++ reason, none,
      some reason⟩
  | none =>
    say .ok ("Verified ".toList ++ l.name ++ " setup".toList)
    l.runVerified extensions root dir fix output

end Linter

namespace Registry

def runOne (r : Registry Linter) (config : Config) (root : Path) (name : Text)
    (f : Factory Linter) : Run Report := do
  let settings := config.settingsFor name f.defaultExtensions
  let options : LinterOptions :=
    { LinterOptions.none with
      jobs := some config.execution.jobs
      timeout := some ((config.execution.timeout.map Value.float).getD .null)
      output := some config.output }
  let linter ← r.create name (some settings) options
  linter.run settings root config.execution.autoFix config.output

/-- Runs linters as they are configured, one after the other. All names are looked up before
anything is run. -/
def runAll (r : Registry Linter) (config : Config) (root : Path) (names : List Text) :
    Run (List Report) := do
  let factories ← Run.ofExcept id (names.mapM fun name => (r.get name).map fun f => (name, f))
  factories.mapM fun (name, f) => r.runOne config root name f

end Registry

end FormatAudit
