import FormatAudit.Number.Binary64
import FormatAudit.Text.Basic

/-!
Untyped data, as JSON and TOML texts hold it, before anything is known of its shape. A table keeps
its keys in the order in which they were given.
-/
namespace FormatAudit

/-- A piece of untyped data. A moment is a date or a time, which nothing here looks into. -/
inductive Value where
  | null
  | bool (b : Bool)
  | int (n : Int)
  | float (x : Binary64)
  | text (t : Text)
  | moment
  | list (items : List Value)
  | table (fields : List (Text × Value))

abbrev Fields := List (Text × Value)

namespace Fields

def insert (key : Text) (v : Value) : Fields → Fields
  | [] => [(key, v)]
  | (k, w) :: r => if k = key then (k, v) :: r else (k, w) :: insert key v r

def get? (fields : Fields) (key : Text) : Option Value :=
  (fields.find? fun f => f.1 = key).map (·.2)

end Fields

namespace Value

def holds : Value → Bool
  | .null => false
  | .bool b => b
  | .int n => n != 0
  | .float (.finite _ m _) => m != 0
  | .float _ => true
  | .text t => t != []
  | .moment => true
  | .list items => !items.isEmpty
  | .table fields => !fields.isEmpty

end Value

end FormatAudit
