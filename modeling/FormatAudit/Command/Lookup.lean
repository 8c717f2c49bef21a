import FormatAudit.Session

/-!
Looking for the executable of a program: in a list of directories, or, for a command that is to be
run, wherever the host has it.
-/
namespace FormatAudit

namespace Command

/-- A program with a slash in its name is not looked for: it is taken as the path of a file. A text
without a name in it finds nothing. -/
def lookup (t : FileTree) (here : FileTree.Place) (directories : List Path) (program : Text) :
    Option Text :=
  if program.contains '/' then
    if !Path.isOfDirectory program && t.isExecutable here (Path.ofText program) then some program
    else none
  else if (Path.ofText program).parts = [] then none
  else
    let candidates := directories.map fun d => Path.join d (Path.ofText program)
    (candidates.find? (t.isExecutable here)).map Path.text

def resolve : List Text → Run (List Text)
  | [] => throw .emptyCommand
  | program :: rest => do
    let path := Path.ofText program
    if path.isAbsolute then return path.text :: rest
    match ← Run.find program with
    | some found => return found :: rest
    | none => throw (.notOnPath program)

end Command

end FormatAudit
