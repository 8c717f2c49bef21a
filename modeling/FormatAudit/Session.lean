import FormatAudit.Console.Pool
import FormatAudit.Failure
import FormatAudit.Number.Reading
import FormatAudit.Value

/-!
Sessions. The host is what does not change while the program runs: which programs are installed,
how commands that are launched come out, the processors, the output and the current directory, and
how the libraries of the host look up names and read numbers. The session is what does: the files,
and what was looked up, launched and printed so far.
-/
namespace FormatAudit

inductive Stream where
  | text (t : Text)
  | bytes (b : Bytes)
  deriving DecidableEq, Repr

structure Launch where
  args : List Text
  directory : Option Text
  environment : Value
  captureOutput : Value
  asText : Value
  timeout : Value
  closedInput : Bool

inductive Outcome where
  | exited (code : Int) (stdout stderr : Option Stream)
  | timedOut (stdout stderr : Option Stream)
  | failed (failure : Failure)
  deriving DecidableEq, Repr

/-- The surroundings of a run. A command may change the files. The schedule tells which of a number
of concurrent tasks moves next; tasks that it leaves unfinished are finished in their order. -/
structure Host where
  find : Text → Option Text
  launch : Launch → FileTree → Outcome × FileTree
  processors : Option Int
  output : Console.Sink
  here : FileTree.Place
  lookup : Search.Lookup
  numerals : Numerals
  schedule : Nat → List Nat

def Host.isTerminal (h : Host) : Bool :=
  h.output.isTerminal

structure Session where
  tree : FileTree
  lookups : List Text
  launches : List Launch
  printed : List Text
  consoles : Console.Pool

def Session.start (tree : FileTree) : Session := ⟨tree, [], [], [], []⟩

def Session.log (s : Session) : Text :=
  s.printed.flatten

/-- A computation that runs on a host, changes the session and may fail. What was done before a
failure stays done. -/
abbrev Run := ReaderT Host (ExceptT Failure (StateM Session))

namespace Run

def exec {α : Type} (x : Run α) (h : Host) (s : Session) : Except Failure α × Session :=
  x h s

def ofExcept {ε α : Type} (wrap : ε → Failure) : Except ε α → Run α
  | .ok a => pure a
  | .error e => throw (wrap e)

def attempt {α : Type} (x : Run α) : Run (Except Failure α) :=
  tryCatch (Except.ok <$> x) fun f => pure (.error f)

def print (t : Text) : Run Unit :=
  modify fun s => { s with printed := s.printed ++ [t] }

def console (color emoji : Bool) : Run Console.Setup := do
  let setup : Console.Setup := ⟨color, emoji, (← read).isTerminal⟩
  modifyGet fun s =>
    let (n, consoles) := s.consoles.get setup
    (consoles[n]?.getD setup, { s with consoles := consoles })

def find (program : Text) : Run (Option Text) := do
  modify fun s => { s with lookups := s.lookups ++ [program] }
  return (← read).find program

def launch (l : Launch) : Run Outcome := do
  let host ← read
  modifyGet fun s =>
    let (outcome, tree) := host.launch l s.tree
    (outcome, { s with tree := tree, launches := s.launches ++ [l] })

def readFile (p : Path) : Run (Except FileError Bytes) := do
  let host ← read
  return (← get).tree.read host.here p

def isFile (p : Path) : Run Bool := do
  let host ← read
  ofExcept Failure.file ((← get).tree.isFile host.here p)

def processors : Run (Option Int) :=
  Host.processors <$> read

end Run

end FormatAudit
