import FormatAudit.Config.Basic
import FormatAudit.Session
import FormatAudit.Toml.Reader

/-!
Loading the configuration of a workspace. A file of its own comes before the file that it shares
with other tools; in the shared one the configuration is a section.
-/
namespace FormatAudit

namespace Config

def ownFile : Text := ".stylecheck.toml".toList

def sharedFile : Text := "pyproject.toml".toList

def choose (root : Path) (asked : Option Path) : Run (Option Path) := do
  match asked with
  | some p =>
    let p := Path.join root p
    if ← Run.isFile p then return some p
    throw (.config (.absent p.text))
  | none =>
    for name in [ownFile, sharedFile] do
      let p := Path.join root (Path.ofText name)
      if ← Run.isFile p then return some p
    return none

def subtable (key : Text) (fs : Fields) : Fields :=
  match fs.get? key with
  | some (.table sub) => sub
  | _ => []

def section? (p : Path) (fs : Fields) : Fields :=
  if p.name = sharedFile then subtable "stylecheck".toList (subtable "tool".toList fs) else fs

def parseBytes (p : Path) (content : Bytes) : Except Failure Fields :=
  match Utf8.decode? content with
  | none => .error .notUtf8
  | some t => match Toml.parse t with
    | .ok fs => .ok fs
    | .error .malformed => .error (.config (.malformed p.text))
    | .error (.longInteger digits) => .error (.longInteger digits)

def ofValue (processors : Option Int) (wrap : List Intake.Issue → Failure) (v : Value) :
    Except Failure Config :=
  match readOn processors v with
  | some (.ok c) => .ok c
  | some (.error issues) => .error (wrap issues)
  | none => .error .tooManyProcessors

def ofBytes (processors : Option Int) (p : Path) (content : Bytes) : Except Failure Config := do
  let fs ← parseBytes p content
  ofValue processors (fun issues => .config (.invalid p.text issues)) (.table (section? p fs))

def ofNothing (processors : Option Int) : Except Failure Config :=
  match defaultJobs? processors with
  | some jobs => .ok (standard jobs)
  | none => .error .tooManyProcessors

def load (root : Path) (asked : Option Path) : Run Config := do
  let processors ← Run.processors
  match ← choose root asked with
  | none => Run.ofExcept id (ofNothing processors)
  | some p => match ← Run.readFile p with
    | .error e => throw (.config (.unreadable p.text e))
    | .ok content => Run.ofExcept id (ofBytes processors p content)

end Config

end FormatAudit
