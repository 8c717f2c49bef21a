import FormatAudit.Linter.ClangFormat

/-!
Linters in general, and the registry that makes them by name.
-/
namespace FormatAudit

/-- What a run asks of a linter: to fail if a program it needs is not installed, to check or
fix the files below a directory, and to turn what that gave into findings. -/
structure Linter where
  name : Text
  defaultExtensions : List Text
  verify : Path → Run Unit
  lint : Path → List Text → Bool → Run Envelope
  findings : Path → Envelope → Run Findings

structure LinterOptions where
  args : Option (List Text)
  launcher : Option Text
  jobs : Option Int
  timeout : Option Value
  output : Option Output

namespace LinterOptions

def none : LinterOptions := ⟨.none, .none, .none, .none, .none⟩

def filledFrom (o : LinterOptions) (s : Settings) : LinterOptions :=
  { o with args := some (o.args.getD s.args), launcher := some (o.launcher.getD s.launcher) }

end LinterOptions

namespace ClangFormat

def ofOptions (o : LinterOptions) : ClangFormat :=
  { args := o.args.getD []
    launcher := o.launcher.getD []
    jobs := o.jobs.getD 1
    timeout := o.timeout.getD .null
    output := o.output.getD Output.standard
    runner := hostRunner }

def toLinter (a : ClangFormat) : Linter :=
  { name := name
    defaultExtensions := extensions
    verify := fun _ => a.verify
    lint := a.lint
    findings := fun _ e => findings e }

end ClangFormat

/-- Makes linters, which is a computation of its own; the extensions are those that a linter gets if
none are configured. -/
structure Factory (α : Type) where
  defaultExtensions : List Text
  make : LinterOptions → Run α

structure Registry (α : Type) where
  factories : List (Text × Factory α)

namespace Registry

variable {α : Type}

def empty : Registry α := ⟨[]⟩

def names (r : Registry α) : List Text :=
  r.factories.map (·.1)

def get? (r : Registry α) (name : Text) : Option (Factory α) :=
  (r.factories.find? fun f => f.1 = name).map (·.2)

def get (r : Registry α) (name : Text) : Except Failure (Factory α) :=
  match r.get? name with
  | some f => .ok f
  | none => .error (.unknownLinter name)

def register (r : Registry α) (name : Text) (f : Factory α) : Except Failure (Registry α) :=
  match r.get? name with
  | some _ => .error (.alreadyRegistered name)
  | none => .ok ⟨r.factories ++ [(name, f)]⟩

def create (r : Registry α) (name : Text) (settings : Option Settings) (options : LinterOptions) :
    Run α := do
  let f ← Run.ofExcept id (r.get name)
  f.make (match settings with
    | some s => options.filledFrom s
    | none => options)

end Registry

def ClangFormat.factory : Factory ClangFormat :=
  ⟨ClangFormat.extensions, fun o => return ClangFormat.ofOptions o⟩

def Registry.standard : Registry Linter :=
  ⟨[(ClangFormat.name,
    ⟨ClangFormat.extensions, fun o => return (ClangFormat.ofOptions o).toLinter⟩)]⟩

end FormatAudit
