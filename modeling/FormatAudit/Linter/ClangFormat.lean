import FormatAudit.Command.Run
import FormatAudit.Config.Basic
import FormatAudit.Console.Log
import FormatAudit.Diff.Hunk
import FormatAudit.Findings
import FormatAudit.Linter.Pool

/-!
The linter that compares each file with what the formatter prints for it, or has the formatter
fix all files with one command.
-/
namespace FormatAudit

/-- How the formatter is run. The launcher is a command line that comes before it; `jobs` is how
many files are checked at a time. -/
structure ClangFormat where
  args : List Text
  launcher : Text
  jobs : Int
  timeout : Value
  output : Output
  runner : List Text → Command.Options → Run Completed

namespace ClangFormat

def name : Text := "clang_format".toList

def program : Text := "clang-format".toList

def fixFlag : Text := "-i".toList

def extensions : List Text :=
  ["c".toList, "cc".toList, "cpp".toList, "h".toList, "hpp".toList, "m".toList, "mm".toList]

def hostRunner (args : List Text) (options : Command.Options) : Run Completed :=
  Command.run args options []

def decode : Option Stream → Text
  | none => []
  | some (.text t) => t
  | some (.bytes b) => Utf8.decodeReplacing b

def launcherWords (a : ClangFormat) : Run (List Text) :=
  Run.ofExcept Failure.quoting (ShellWords.split a.launcher)

def command (a : ClangFormat) (more : List Text) : Run (List Text) := do
  return (← a.launcherWords) ++ program :: more

def options (a : ClangFormat) (root : Path) : Command.Options :=
  { directory := .text root.text
    environment := .null
    check := .bool false
    captureOutput := .bool true
    asText := .bool false
    timeout := a.timeout
    discardInput := .bool true }

def warn (a : ClangFormat) (t : Text) : Run Unit :=
  Run.say .warn t a.output.emoji (some a.output.color)

def required (a : ClangFormat) : Run (List Text) := do
  if Text.strip a.launcher = [] then return [program]
  match ← a.launcherWords with
  | first :: _ => return [first, program]
  | [] => return [program]

def verify (a : ClangFormat) : Run Unit := do
  for p in ← a.required do
    if (← Run.find p).isNone then throw (.notInstalled name p)

structure FileCheck where
  file : Text
  changes : List Hunk
  error : Text
  stderr : Text
  deriving DecidableEq, Repr

def survive (a : ClangFormat) (root : Path) (words : List Text) :
    Run (Except Text Completed) := do
  match ← Run.attempt (a.runner words (a.options root)) with
  | .ok completed => return .ok completed
  | .error f => if f.isOfCommand then return .error f.message else throw f

structure Started where
  file : Text
  words : List Text
  result : Except Text Completed

def start (a : ClangFormat) (root : Path) (file : Text) : Run Started := do
  let words ← a.command (a.args ++ [file])
  return ⟨file, words, ← a.survive root words⟩

def failed (a : ClangFormat) (file reason : Text) : Run FileCheck := do
  let line := file ++ ": ".toList ++ reason
  a.warn line
  return ⟨file, [], line, []⟩

def changesOf (content formatted : Text) : List Hunk :=
  let hunks := diff content formatted
  if hasChanges hunks then hunks else []

/-- Compares a file with what the formatter printed for it. A path that no file can have is no
failure of that file. -/
def finish (a : ClangFormat) (root : Path) (s : Started) : Run FileCheck := do
  match s.result with
  | .error reason =>
    a.failed s.file ("unable to run ".toList ++ ShellWords.join s.words ++ ": ".toList ++ reason)
  | .ok completed =>
    let stderr := Text.strip (decode completed.stderr)
    if completed.code ≠ 0 then
      a.failed s.file (program ++ " exited with status ".toList ++ Text.ofInt completed.code ++
        ": ".toList ++ stderr)
    else
      match ← Run.readFile (Path.join root (Path.ofText s.file)) with
      | .error e =>
        if e.fault = .nullCharacter then throw (.file e)
        else a.failed s.file ("unable to read file: ".toList ++ e.message)
      | .ok content =>
        let changes := changesOf (Utf8.decodeReplacing content) (decode completed.stdout)
        return ⟨s.file, changes, [], stderr⟩

def FileCheck.remarks (c : FileCheck) : List Text :=
  [c.error, c.stderr].filter (· ≠ [])

def envelopeOf (checks : List FileCheck) : Envelope :=
  let changed := checks.filter fun c => c.changes ≠ []
  let failed := checks.any fun c => c.error ≠ []
  { status := if changed ≠ [] ∨ failed then 1 else 0
    payload := changed.map fun c => ⟨c.file, c.changes⟩
    stderr := ['\n'].intercalate (checks.flatMap FileCheck.remarks) }

def checkFiles (a : ClangFormat) (root : Path) (files : List Text) : Run Envelope :=
  envelopeOf <$> if 1 < a.jobs ∧ 1 < files.length
    then Pool.run (a.start root) (a.finish root) files
    else files.mapM fun file => a.start root file >>= a.finish root

def fixFiles (a : ClangFormat) (root : Path) (files : List Text) : Run Envelope := do
  if files = [] then return ⟨0, [], []⟩
  let words ← a.command (fixFlag :: a.args ++ files)
  match ← a.survive root words with
  | .ok completed => return ⟨completed.code, [], decode completed.stderr⟩
  | .error reason =>
    a.warn ("Unable to run ".toList ++ ShellWords.join words ++ ": ".toList ++ reason)
    return ⟨1, [], reason⟩

def discover (root : Path) (extensions : List Text) : Run (List Text) := do
  let host ← read
  Run.ofExcept Failure.search
    (Search.discover ⟨(← get).tree, host.here, root⟩ extensions host.lookup)

def lint (a : ClangFormat) (root : Path) (extensions : List Text) (fix : Bool) :
    Run Envelope := do
  let files ← discover root extensions
  if fix then a.fixFiles root files else a.checkFiles root files

def findings (e : Envelope) : Run Findings :=
  Run.ofExcept Failure.rejected (Findings.ofEnvelope e)

end ClangFormat

end FormatAudit
