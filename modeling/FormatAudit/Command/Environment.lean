import FormatAudit.Failure
import FormatAudit.Json.Printer

/-!
The environment of a command: a table, or anything that is a list of pairs. A text counts as the
list of its characters, a table inside a list as the list of its keys. Of a repeated name the last
value counts.
-/
namespace FormatAudit

namespace Command

def kindName : Value → Text
  | .null => "NoneType".toList
  | .bool _ => "bool".toList
  | .int _ => "int".toList
  | .float _ => "float".toList
  | .text _ => "str".toList
  | .moment => "datetime".toList
  | .list _ => "list".toList
  | .table _ => "dict".toList

def items? : Value → Option (List Value)
  | .text t => some (t.map fun c => .text [c])
  | .list vs => some vs
  | .table fs => some (fs.map fun f => .text f.1)
  | _ => none

def variableName : Value → Except EnvironmentFault Text
  | .text t => .ok t
  | .list vs => .error (.badName (kindName (.list vs)))
  | .table fs => .error (.badName (kindName (.table fs)))
  | v => .ok (Json.print v)

def pairAt (place : Nat) (v : Value) : Except EnvironmentFault (Text × Value) :=
  match items? v with
  | none => .error (.notItems place)
  | some [name, value] => (variableName name).map fun t => (t, value)
  | some items => .error (.notPair place items.length)

def putVariables : Nat → Fields → List Value → Except EnvironmentFault Fields
  | _, fs, [] => .ok fs
  | place, fs, v :: vs => do
    let (name, value) ← pairAt place v
    putVariables (place + 1) (fs.insert name value) vs

def environment : Value → Except EnvironmentFault Value
  | .null => .ok .null
  | .table fs => .ok (.table fs)
  | v => match items? v with
    | none => .error (.notList (kindName v))
    | some items => (putVariables 0 [] items).map .table

end Command

end FormatAudit
