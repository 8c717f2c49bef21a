import FormatAudit.Number.Shortest
import FormatAudit.Value

/-!
JSON texts without any blanks. Only quotes, backslashes and control characters are escaped; all
other characters stand for themselves.
-/
namespace FormatAudit

namespace Json

def escape (c : Char) : Text :=
  if c = '"' then ['\\', '"']
  else if c = '\\' then ['\\', '\\']
  else if c = '\n' then ['\\', 'n']
  else if c = '\r' then ['\\', 'r']
  else if c = '\t' then ['\\', 't']
  else if c.toNat = 8 then ['\\', 'b']
  else if c.toNat = 12 then ['\\', 'f']
  else if c.toNat < 32 then '\\' :: 'u' :: Text.hex 4 c.toNat
  else [c]

def string (t : Text) : Text :=
  '"' :: t.flatMap escape ++ ['"']

mutual

def print : Value → Text
  | .null => "null".toList
  | .bool b => if b then "true".toList else "false".toList
  | .int n => Text.ofInt n
  | .float x => x.text
  | .text t => string t
  | .moment => "null".toList
  | .list [] => "[]".toList
  | .list (v :: vs) => '[' :: print v ++ printItems vs
  | .table [] => ['\x7b', '\x7d']
  | .table ((k, v) :: fs) => '\x7b' :: string k ++ ':' :: print v ++ printFields fs

/-- The items after the first, and the end of the list. -/
def printItems : List Value → Text
  | [] => [']']
  | v :: vs => ',' :: print v ++ printItems vs

def printFields : List (Text × Value) → Text
  | [] => ['\x7d']
  | (k, v) :: fs => ',' :: string k ++ ':' :: print v ++ printFields fs

end

end Json

end FormatAudit
