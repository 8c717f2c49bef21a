import FormatAudit.Number.Shortest
import FormatAudit.Text.Quoted
import FormatAudit.Value

/-!
Values in plain words. A text is shown as it is, and in quotes where it stands in a list or a table.
-/
namespace FormatAudit

namespace Value

mutual

def displayInside : Value → Text
  | .null => "None".toList
  | .bool b => if b then "True".toList else "False".toList
  | .int n => Text.ofInt n
  | .float x => x.text
  | .text t => Text.quoted t
  | .moment => "moment".toList
  | .list [] => "[]".toList
  | .list (v :: vs) => '[' :: displayInside v ++ displayItems vs
  | .table [] => ['\x7b', '\x7d']
  | .table ((k, v) :: fs) =>
    '\x7b' :: Text.quoted k ++ ": ".toList ++ displayInside v ++ displayFields fs

def displayItems : List Value → Text
  | [] => [']']
  | v :: vs => ", ".toList ++ displayInside v ++ displayItems vs

def displayFields : List (Text × Value) → Text
  | [] => ['\x7d']
  | (k, v) :: fs =>
    ", ".toList ++ Text.quoted k ++ ": ".toList ++ displayInside v ++ displayFields fs

end

def display : Value → Text
  | .text t => t
  | v => v.displayInside

end Value

end FormatAudit
