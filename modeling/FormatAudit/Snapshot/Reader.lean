import FormatAudit.Snapshot.Basic
import FormatAudit.Text.Digits

/-!
Reading snapshots from tables. What is not there takes a standard value: no files, one program,
one processor, and no terminal.
-/
namespace FormatAudit

namespace Snapshot

def workspace : FileTree.Place :=
  ["workspace-trees".toList, "world".toList]

def nest : FileTree.Place → FileTree
  | [] => .dir []
  | name :: rest => .dir [(name, nest rest)]

def textAt (key : String) (fs : Fields) : Option Text :=
  match fs.get? key.toList with
  | some (.text t) => some t
  | _ => none

def flagAt (key : String) (fs : Fields) : Bool :=
  ((fs.get? key.toList).getD .null).holds

def listAt (key : String) (fs : Fields) : Option (List Value) :=
  match fs.get? key.toList with
  | some (.list vs) => some vs
  | _ => none

def tableAt (key : String) (fs : Fields) : Option Fields :=
  match fs.get? key.toList with
  | some (.table sub) => some sub
  | _ => none

def readStream : Value → Option Stream
  | .text t => some (.text t)
  | .table fs => ((textAt "hex" fs).bind Hex.toBytes?).map .bytes
  | _ => none

def streamAt (key : String) (fs : Fields) : Option Stream :=
  (fs.get? key.toList).bind readStream

def streamText : Option Stream → Option Text
  | some (.text t) => some t
  | _ => none

def readKind (t : Text) : ForeignKind :=
  if t = "system".toList then .system
  else if t = "value".toList then .value
  else if t = "end of input".toList then .endOfInput
  else if t = "interruption".toList then .interruption
  else if t = "departure".toList then .departure
  else .other

def codeAt (default : Int) (fs : Fields) : Int :=
  match fs.get? "code".toList with
  | some (.int n) => n
  | _ => default

def readEnding (fs : Fields) : Ending :=
  let stdout := streamAt "stdout" fs
  let stderr := streamAt "stderr" fs
  if flagAt "timeout" fs then .timesOut stdout stderr
  else if flagAt "refused" fs then
    .refuses (codeAt 1 fs) (streamText stdout) (streamText stderr)
  else match textAt "failure" fs with
    | some kind =>
      .fails (readKind kind) ((textAt "name" fs).getD []) ((textAt "message" fs).getD [])
    | none => .exits (codeAt 0 fs) stdout stderr

def readScript (fs : Fields) : Script :=
  ⟨flagAt "remove" fs, readEnding fs⟩

/-- What the owner of a file may do with it: the third of the last octal digits of its mode. -/
def ownerDigit (mode : Text) : Nat :=
  (mode.reverse[2]?.bind Text.hexValue?).getD 0

def standardMode : Text := "644".toList

def readEntry (fs : Fields) : FileTree :=
  if flagAt "dir" fs then .dir []
  else match textAt "link" fs with
    | some target => .link target
    | none =>
      let bytes := match textAt "hex" fs with
        | some digits => (Hex.toBytes? digits).getD []
        | none => Utf8.encode ((textAt "text" fs).getD [])
      let allowed := ownerDigit ((textAt "mode" fs).getD standardMode)
      .file bytes (!flagAt "unreadable" fs && 4 ≤ allowed) (allowed % 2 = 1)

def hasDirectory (t : FileTree) (p : Path) : Bool :=
  match t.entry workspace p with
  | .ok (.dir _) => true
  | _ => false

def addEntry (t : FileTree) (fs : Fields) : FileTree :=
  let p := Path.ofText ((textAt "path" fs).getD [])
  if flagAt "dir" fs && hasDirectory t p then t else put t workspace p (readEntry fs)

def readTree (entries : List Value) : FileTree :=
  entries.foldl (fun t v => match v with
    | .table fs => addEntry t fs
    | _ => t) (nest workspace)

def readProcessors (fs : Fields) : Option Int :=
  match fs.get? "cpus".toList with
  | some (.int n) => some n
  | some _ => none
  | none => some 1

def ofFields (fs : Fields) : Snapshot :=
  { tree := readTree ((listAt "files" fs).getD [])
    here := workspace
    programs := match listAt "available" fs with
      | some vs => vs.filterMap fun
        | .text t => some t
        | _ => none
      | none => ["clang-format".toList]
    processors := readProcessors fs
    isTerminal := flagAt "tty" fs
    everyCommand := (tableAt "outcome" fs).map readScript
    scripts := ((tableAt "formatter" fs).getD []).filterMap fun f => match f.2 with
      | .table script => some (f.1, readScript script)
      | _ => none }

end Snapshot

end FormatAudit
