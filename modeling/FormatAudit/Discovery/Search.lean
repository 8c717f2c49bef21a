import FormatAudit.Discovery.Braces
import FormatAudit.Discovery.Extension
import FormatAudit.Discovery.Glob
import FormatAudit.FileTree.Basic

/-!
Searching a directory for files. What is found is named by the path from that directory on. Names
that begin with a point, and all that is below them, are left out.
-/
namespace FormatAudit

namespace Search

/-- How the names of a pattern are looked up. Under `direct` an exact name is asked for by its path.
Under `listed` it is looked for among the entries of the directory, as other names are, and an entry
for which it cannot be told whether it is a directory is passed over. -/
inductive Lookup where
  | direct
  | listed
  deriving DecidableEq, Repr

structure Base where
  tree : FileTree
  here : FileTree.Place
  path : Path

namespace Base

def child (b : Base) (names : List Text) : Path :=
  ⟨b.path.slashes, b.path.parts ++ names⟩

def isThere (b : Base) (names : List Text) : Except FileError Bool :=
  b.tree.isThere b.here (b.child names)

def isDir (b : Base) (names : List Text) : Except FileError Bool :=
  b.tree.isDir b.here (b.child names)

def isFile (b : Base) (names : List Text) : Except FileError Bool :=
  b.tree.isFile b.here (b.child names)

def names (b : Base) (dir : List Text) : List Text :=
  (b.tree.list b.here (b.child dir)).map (·.1)

def directories (b : Base) (dir : List Text) : List (List Text) :=
  match b.tree.entry b.here (b.child dir) with
  | .ok t => t.directories.map (dir ++ ·)
  | .error _ => []

def isDirEntry (b : Base) (l : Lookup) (dir : List Text) :
    Text × FileTree → Except FileError Bool
  | (_, .dir _) => .ok true
  | (_, .file ..) => .ok false
  | (n, .link _) => match l, b.isDir (dir ++ [n]) with
    | .listed, .error _ => .ok false
    | _, answer => answer

def entries (b : Base) (l : Lookup) (dirs : Bool) (dir : List Text) :
    Except FileError (List Text) :=
  if dirs then
    ((b.tree.list b.here (b.child dir)).filterM (b.isDirEntry l dir)).map fun es => es.map (·.1)
  else .ok (b.names dir)

def entryNamed (b : Base) (l : Lookup) (dirs : Bool) (dir : List Text) (name : Text) :
    Except FileError (List Text) :=
  match l with
  | .direct => do
    let found ← if dirs then b.isDir (dir ++ [name]) else b.isThere (dir ++ [name])
    return if found then [name] else []
  | .listed => do
    return (← b.entries .listed dirs dir).filter (· = name)

end Base

/-- The entries that components match from the directory `dir` on. All components match directories
only, apart from the last one unless `dirs` says so. -/
def select (b : Base) (l : Lookup) (dirs : Bool) :
    List Glob.Component → List Text → Except FileError (List (List Text))
  | [], dir => .ok [dir]
  | .deep :: rest, dir => do
    return ((← (b.directories dir).mapM (select b l dirs rest)).flatten).eraseDups
  | .up :: rest, dir => select b l dirs rest (dir ++ [FileTree.up])
  | .exact name :: rest, dir => do
    let found ← b.entryNamed l (dirs || !rest.isEmpty) dir name
    return (← found.mapM fun n => select b l dirs rest (dir ++ [n])).flatten
  | .name tokens :: rest, dir => do
    let found ← b.entries l (dirs || !rest.isEmpty) dir
    let matching := found.filter (Glob.matchTokens tokens)
    return (← matching.mapM fun n => select b l dirs rest (dir ++ [n])).flatten

def isHidden (names : List Text) : Bool :=
  names.any fun n => n.head? = some '.'

def filesOf (b : Base) (l : Lookup) (g : Glob) : Except FileError (List (List Text)) := do
  if ← b.isDir [] then
    let found ← select b l g.directoriesOnly g.components []
    (found.filter fun names => !isHidden names).filterM b.isFile
  else return []

inductive Fault where
  | noExtension
  | badPattern (fault : Glob.Fault)
  | file (error : FileError)
  deriving DecidableEq, Repr

def Fault.message : Fault → Text
  | .noExtension => "at least one file extension is required".toList
  | .badPattern fault => fault.message
  | .file error => error.message

def filesMatchingOne (b : Base) (l : Lookup) (pattern : Text) :
    Except Fault (List (List Text)) :=
  match Glob.ofText pattern with
  | .error fault => .error (.badPattern fault)
  | .ok g => (filesOf b l g).mapError .file

/-- The files that a pattern with groups matches; a file that several alternatives match comes
several times. -/
def filesMatching (b : Base) (l : Lookup) (pattern : Text) : Except Fault (List (List Text)) :=
  ((Braces.expand pattern).mapM (filesMatchingOne b l)).map List.flatten

def pathsMatching (b : Base) (pattern : Text) (l : Lookup := .direct) : Except Fault (List Text) :=
  (filesMatching b l pattern).map fun files => (files.map Path.partsText).mergeSort Text.le

def patternFor (extensions : List Text) : Except Fault Text :=
  match Extension.normalize? extensions with
  | some ts => .ok (Extension.pattern ts)
  | none => .error .noExtension

def discover (b : Base) (extensions : List Text) (l : Lookup := .direct) :
    Except Fault (List Text) := do
  let files ← filesMatching b l (← patternFor extensions)
  return Text.sortedSet (files.map Path.partsText)

end Search

end FormatAudit
