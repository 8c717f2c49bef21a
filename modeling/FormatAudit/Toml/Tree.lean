import FormatAudit.Value

/-!
Tables of a document while it is read. A table that a header or a dotted key has made must not be
made again by another section, so it carries the number of the section that made it; a table that
only lies on the way to another one carries none.
-/
namespace FormatAudit

namespace Toml

/-- What a key of an unfinished table stands for: a value that is final, a table, or a list of
tables of which only the last one can still grow. -/
inductive Node where
  | value (v : Value)
  | table (madeBy : Option Nat) (members : List (Text × Node))
  | tables (earlier : List (List (Text × Node))) (members : List (Text × Node))

abbrev Members := List (Text × Node)

/-- The keys from the outermost table inwards. -/
abbrev Key := List Text

namespace Members

def get? (ms : Members) (k : Text) : Option Node :=
  (ms.find? fun m => m.1 = k).map (·.2)

def set (k : Text) (n : Node) : Members → Members
  | [] => [(k, n)]
  | (j, m) :: r => if j = k then (j, n) :: r else (j, m) :: set k n r

/-- Changes the table under a header's key, making the tables on the way that are missing. -/
def under (change : Members → Option Members) : Key → Members → Option Members
  | [], ms => change ms
  | k :: ks, ms => match ms.get? k with
    | none => (under change ks []).map fun sub => ms.set k (.table none sub)
    | some (.table made sub) => (under change ks sub).map fun sub => ms.set k (.table made sub)
    | some (.tables earlier sub) =>
      (under change ks sub).map fun sub => ms.set k (.tables earlier sub)
    | some (.value _) => none

def declare (made : Nat) (k : Text) (ms : Members) : Option Members :=
  match ms.get? k with
  | none => some (ms.set k (.table (some made) []))
  | some (.table none sub) => some (ms.set k (.table (some made) sub))
  | some _ => none

def append (k : Text) (ms : Members) : Option Members :=
  match ms.get? k with
  | none => some (ms.set k (.tables [] []))
  | some (.tables earlier sub) => some (ms.set k (.tables (earlier ++ [sub]) []))
  | some _ => none

def assign (made : Nat) (last : Text) (v : Value) : Key → Members → Option Members
  | [], ms => match ms.get? last with
    | none => some (ms.set last (.value v))
    | some _ => none
  | k :: ks, ms => match ms.get? k with
    | none => (assign made last v ks []).map fun sub => ms.set k (.table (some made) sub)
    | some (.table before sub) =>
      if before = none ∨ before = some made then
        (assign made last v ks sub).map fun sub => ms.set k (.table (some made) sub)
      else none
    | some _ => none

end Members

mutual

def Node.toValue : Node → Value
  | .value v => v
  | .table _ ms => .table (toFields ms)
  | .tables earlier ms => .list (toTables earlier ++ [.table (toFields ms)])

def toFields : List (Text × Node) → List (Text × Value)
  | [] => []
  | (k, n) :: r => (k, n.toValue) :: toFields r

def toTables : List (List (Text × Node)) → List Value
  | [] => []
  | ms :: r => .table (toFields ms) :: toTables r

end

end Toml

end FormatAudit
