import FormatAudit.Config.Basic
import FormatAudit.Failure

/-!
Overriding the configuration of some linters: extensions as a comma separated text, arguments as a
command line, and the launcher.
-/
namespace FormatAudit

structure Overrides where
  extensions : Option Text
  args : Option Text
  launcher : Option Text
  deriving DecidableEq, Repr

namespace Settings

def override (o : Overrides) (s : Settings) : Except Failure Settings := do
  let extensions ← match o.extensions with
    | none => pure s.extensions
    | some t =>
      if Text.commaItems t = [] then throw (.config (.noExtensionNamed t))
      pure (Text.commaItems t)
  let args ← match o.args with
    | none => pure s.args
    | some t =>
      let words := Intake.within (.field "args".toList) (readArgs (.text t))
      (Intake.named recordName words).mapError Failure.rejected
  return { s with
    extensions := extensions, args := args, launcher := o.launcher.getD s.launcher }

end Settings

namespace Config

def override (o : Overrides) (names : List Text) (c : Config) : Except Failure Config := do
  let linters ← names.foldlM (fun linters name => do
    let s ← (c.settingsFor name []).override o
    return putLinter name s linters) c.linters
  return { c with linters := linters }

end Config

end FormatAudit
