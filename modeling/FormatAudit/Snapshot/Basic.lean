import FormatAudit.FileTree.Canonical
import FormatAudit.Intake.Scalar
import FormatAudit.Session

/-!
Snapshots of a workspace: its files, the programs that are installed, and what the commands that
are launched do. A snapshot makes a host on which the program can be run without touching anything.
A command for which nothing is recorded prints the file that its last argument names with all tabs
left out.
-/
namespace FormatAudit

namespace Snapshot

/-- What a command does in the end. A refusal is a failure with the resolved command in it. -/
inductive Ending where
  | exits (code : Int) (stdout stderr : Option Stream)
  | timesOut (stdout stderr : Option Stream)
  | refuses (code : Int) (stdout stderr : Option Text)
  | fails (kind : ForeignKind) (name message : Text)
  deriving DecidableEq, Repr

structure Script where
  removesFile : Bool
  ending : Ending
  deriving DecidableEq, Repr

def Ending.outcome (args : List Text) : Ending → Outcome
  | .exits code stdout stderr => .exited code stdout stderr
  | .timesOut stdout stderr => .timedOut stdout stderr
  | .refuses code stdout stderr => .failed (.exited args code stdout stderr)
  | .fails kind name message => .failed (.foreign kind name message)

def target (l : Launch) : Path :=
  let file := Path.ofText (l.args.getLast?.getD [])
  match l.directory with
  | some d => Path.join (Path.ofText d) file
  | none => file

def printed (content : Except FileError Bytes) : Outcome :=
  match content with
  | .ok bytes => .exited 0 (some (.bytes (bytes.filter (· != 9)))) (some (.bytes []))
  | .error e => .failed (.file e)

/-- The place that an entry is put at. A link at the end of the path stands for the file that is
written through it. -/
def placeOf (t : FileTree) (here : FileTree.Place) (p : Path) (e : FileTree) : FileTree.Place :=
  match e with
  | .link _ => (t.canonical here ⟨p.slashes, p.parts.dropLast⟩).parts ++ [p.name]
  | _ => (t.canonical here p).parts

def put (t : FileTree) (here : FileTree.Place) (p : Path) (e : FileTree) : FileTree :=
  let place := placeOf t here p e
  FileTree.modify (FileTree.setName (place.getLast?.getD []) e) place.dropLast t

end Snapshot

/-- A snapshot. There may be one script for every command, and one for each file that the last
argument of a command names. -/
structure Snapshot where
  tree : FileTree
  here : FileTree.Place
  programs : List Text
  processors : Option Int
  isTerminal : Bool
  everyCommand : Option Snapshot.Script
  scripts : List (Text × Snapshot.Script)

namespace Snapshot

def programDirectory : Text := "/usr/bin/".toList

def find (s : Snapshot) (program : Text) : Option Text :=
  if s.programs.contains program then some (programDirectory ++ program) else none

def scriptFor (s : Snapshot) (l : Launch) : Option Script :=
  s.everyCommand.or
    ((s.scripts.find? fun r => r.1 = l.args.getLast?.getD []).map (·.2))

def launch (s : Snapshot) (l : Launch) (t : FileTree) : Outcome × FileTree :=
  match s.scriptFor l with
  | none => (printed (t.read s.here (target l)), t)
  | some script =>
    (script.ending.outcome l.args, if script.removesFile then t.remove s.here (target l) else t)

def host (s : Snapshot) : Host :=
  { find := s.find
    launch := s.launch
    processors := s.processors
    output := if s.isTerminal then .terminal else .plain
    here := s.here
    lookup := .direct
    numerals := Intake.numerals
    schedule := fun _ => [] }

def run {α : Type} (s : Snapshot) (x : Run α) : Except Failure α × Session :=
  Run.exec x s.host (Session.start s.tree)

end Snapshot

end FormatAudit
