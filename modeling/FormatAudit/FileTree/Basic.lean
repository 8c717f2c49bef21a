import FormatAudit.Path
import FormatAudit.Text.Quoted
import FormatAudit.Text.Utf8

/-!
Trees of files, directories and symbolic links, and what a path leads to in them. A place is the
list of names from the top of the tree to an entry; a path may lead to it over links.
-/
namespace FormatAudit

/-- A link has the text of the path that it stands for. Only files have permissions: it is assumed of
directories that all of them can be listed and searched. -/
inductive FileTree where
  | file (content : Bytes) (readable executable : Bool)
  | dir (entries : List (Text × FileTree))
  | link (target : Text)

inductive FileFault where
  | missing
  | denied
  | notDirectory
  | isDirectory
  | nameTooLong
  | tooManyLinks
  | nullCharacter
  deriving DecidableEq, Repr

namespace FileFault

def message : FileFault → Text
  | .missing => "[Errno 2] No such file or directory".toList
  | .denied => "[Errno 13] Permission denied".toList
  | .notDirectory => "[Errno 20] Not a directory".toList
  | .isDirectory => "[Errno 21] Is a directory".toList
  | .nameTooLong => "[Errno 36] File name too long".toList
  | .tooManyLinks => "[Errno 40] Too many levels of symbolic links".toList
  | .nullCharacter => "embedded null byte".toList

def isAbsence : FileFault → Bool
  | .missing | .notDirectory | .tooManyLinks | .nullCharacter => true
  | _ => false

end FileFault

structure FileError where
  fault : FileFault
  path : Text
  deriving DecidableEq, Repr

def FileError.message (e : FileError) : Text :=
  if e.fault = .nullCharacter then e.fault.message
  else e.fault.message ++ ": ".toList ++ Text.quoted e.path

namespace FileTree

/-- The names from the top of a tree to an entry. -/
abbrev Place := List Text

def up : Text := ['.', '.']

def same : Text := ['.']

def lookup (entries : List (Text × FileTree)) (name : Text) : Option FileTree :=
  (entries.find? fun e => e.1 = name).map (·.2)

def at? : Place → FileTree → Option FileTree
  | [], t => some t
  | name :: rest, .dir entries => (lookup entries name).bind (at? rest)
  | _ :: _, _ => none

def byteCount (t : Text) : Nat :=
  (Utf8.encode t).length

def longestName : Nat := 255

def longestPath : Nat := 4095

/-- How far a path leads without following a link: to its end, to a fault, or to a link in the
directory `here` with parts of the path left. -/
inductive Walk where
  | arrived (place : Place)
  | stopped (fault : FileFault)
  | linked (here : Place) (target : Text) (rest : List Text)

def walk (t : FileTree) (follow : Bool) : Place → List Text → Walk
  | place, [] => .arrived place
  | place, part :: rest =>
    match t.at? place with
    | some (.dir entries) =>
      if part = up then walk t follow place.dropLast rest
      else if part = same then walk t follow place rest
      else if longestName < byteCount part then .stopped .nameTooLong
      else match lookup entries part with
        | none => .stopped .missing
        | some (.link target) =>
          if rest = [] ∧ !follow then .arrived (place ++ [part]) else .linked place target rest
        | some _ => walk t follow (place ++ [part]) rest
    | some _ => .stopped .notDirectory
    | none => .stopped .missing

/-- The parts of the path that a link stands for. If only a directory can be meant, that is the last
thing to be looked at. -/
def targetParts (target : Text) : List Text :=
  Path.partsOf target ++ if Path.isOfDirectory target then [same] else []

def resolveOver (t : FileTree) (follow : Bool) : Nat → Place → List Text → Except FileFault Place
  | links, place, parts => match walk t follow place parts with
    | .arrived place => .ok place
    | .stopped fault => .error fault
    | .linked here target rest => match links with
      | 0 => .error .tooManyLinks
      | links + 1 =>
        let start := if (Path.ofText target).isAbsolute then [] else here
        resolveOver t follow links start (targetParts target ++ rest)

def mostLinks : Nat := 40

def resolve (t : FileTree) (here : Place) (p : Path) : Except FileFault Place :=
  resolveOver t true mostLinks (if p.isAbsolute then [] else here) p.parts

def textFault? (p : Path) : Option FileFault :=
  if p.text.contains '\x00' then some .nullCharacter
  else if longestPath < byteCount p.text then some .nameTooLong
  else none

def entry (t : FileTree) (here : Place) (p : Path) : Except FileFault FileTree :=
  match textFault? p with
  | some fault => .error fault
  | none => match t.resolve here p with
    | .error fault => .error fault
    | .ok place => match t.at? place with
      | some e => .ok e
      | none => .error .missing

/-- The entry that a path leads to, if there is one. Where this cannot be told is an error. -/
def seek (t : FileTree) (here : Place) (p : Path) : Except FileError (Option FileTree) :=
  match t.entry here p with
  | .ok e => .ok (some e)
  | .error fault => if fault.isAbsence then .ok none else .error ⟨fault, p.text⟩

def isThere (t : FileTree) (here : Place) (p : Path) : Except FileError Bool :=
  (t.seek here p).map Option.isSome

def isFile (t : FileTree) (here : Place) (p : Path) : Except FileError Bool :=
  (t.seek here p).map fun
    | some (.file ..) => true
    | _ => false

def isDir (t : FileTree) (here : Place) (p : Path) : Except FileError Bool :=
  (t.seek here p).map fun
    | some (.dir _) => true
    | _ => false

def isExecutable (t : FileTree) (here : Place) (p : Path) : Bool :=
  match t.entry here p with
  | .ok (.file _ _ executable) => executable
  | _ => false

def read (t : FileTree) (here : Place) (p : Path) : Except FileError Bytes :=
  match t.entry here p with
  | .ok (.file content readable _) =>
    if readable then .ok content else .error ⟨.denied, p.text⟩
  | .ok _ => .error ⟨.isDirectory, p.text⟩
  | .error fault => .error ⟨fault, p.text⟩

def list (t : FileTree) (here : Place) (p : Path) : List (Text × FileTree) :=
  match t.entry here p with
  | .ok (.dir entries) => entries
  | _ => []

def eraseName (name : Text) (entries : List (Text × FileTree)) : List (Text × FileTree) :=
  entries.filter fun e => e.1 ≠ name

def setName (name : Text) (t : FileTree) : List (Text × FileTree) → List (Text × FileTree)
  | [] => [(name, t)]
  | (n, s) :: r => if n = name then (n, t) :: r else (n, s) :: setName name t r

/-- Changes the entries of the directory at a place. Directories that are missing on the way are
made, and what is not a directory stays as it is. -/
def modify (change : List (Text × FileTree) → List (Text × FileTree)) :
    Place → FileTree → FileTree
  | [], .dir entries => .dir (change entries)
  | name :: rest, .dir entries =>
    .dir (setName name (modify change rest ((lookup entries name).getD (.dir []))) entries)
  | _, t => t

def remove (t : FileTree) (here : Place) (p : Path) : FileTree :=
  match resolveOver t false mostLinks (if p.isAbsolute then [] else here) p.parts with
  | .ok place => match place.getLast? with
    | some name => modify (eraseName name) place.dropLast t
    | none => t
  | .error _ => t

mutual

def directories : FileTree → List Place
  | .dir entries => [] :: directoriesIn entries
  | _ => []

def directoriesIn : List (Text × FileTree) → List Place
  | [] => []
  | (name, t) :: r => t.directories.map (name :: ·) ++ directoriesIn r

end

end FileTree

end FormatAudit
