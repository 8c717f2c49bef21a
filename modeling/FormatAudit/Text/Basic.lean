/-!
Texts as lists of characters, and the operations on them that every other module uses: cutting at
a separator, joining, taking a known beginning off, and the order by code point.
-/
namespace FormatAudit

/-- A text, one entry for each Unicode scalar value. -/
abbrev Text := List Char

namespace Text

/-- The pieces between the occurrences of `sep`. There is always one piece more than separators. -/
def pieces (sep : Char) : Text → List Text
  | [] => [[]]
  | c :: r =>
    if c = sep then [] :: pieces sep r
    else match pieces sep r with
      | [] => [[c]]
      | p :: ps => (c :: p) :: ps

def after? : Text → Text → Option Text
  | [], t => some t
  | _ :: _, [] => none
  | c :: s, d :: t => if c = d then after? s t else none

def dropRight (c : Char) (t : Text) : Text :=
  (t.reverse.dropWhile (· = c)).reverse

def le : Text → Text → Bool
  | [], _ => true
  | _ :: _, [] => false
  | c :: s, d :: t => if c = d then le s t else c.toNat < d.toNat

def insertSorted (t : Text) : List Text → List Text
  | [] => [t]
  | s :: r => if t = s then s :: r else if le t s then t :: s :: r else s :: insertSorted t r

def sortedSet (ts : List Text) : List Text :=
  ts.foldr insertSorted []

end Text

end FormatAudit
