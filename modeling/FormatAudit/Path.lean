import FormatAudit.Text.Basic

/-!
Paths as lists of parts. Repeated slashes and parts that are a single point vanish when a path is
read, a part of two points stays. A path that begins with exactly two slashes keeps both.
-/
namespace FormatAudit

/-- A path: `slashes` is 0 for a relative path, else the number of slashes it begins with. -/
structure Path where
  slashes : Nat
  parts : List Text
  deriving DecidableEq, Repr

namespace Path

def here : Path := ⟨0, []⟩

def partsOf (t : Text) : List Text :=
  (Text.pieces '/' t).filter fun p => p ≠ [] ∧ p ≠ ['.']

def ofText (t : Text) : Path :=
  let n := (t.takeWhile (· = '/')).length
  ⟨if n ≤ 2 then n else 1, partsOf t⟩

def partsText (parts : List Text) : Text :=
  ['/'].intercalate parts

def text (p : Path) : Text :=
  if p.slashes = 0 ∧ p.parts = [] then ['.']
  else List.replicate p.slashes '/' ++ partsText p.parts

def isAbsolute (p : Path) : Bool :=
  p.slashes != 0

/-- Whether a text can only be the path of a directory: it ends in a slash, or in a part that is a
single point. -/
def isOfDirectory (t : Text) : Bool :=
  match (Text.pieces '/' t).getLast? with
  | some last => last = [] || last = ['.']
  | none => false

def join (p q : Path) : Path :=
  if q.isAbsolute then q else ⟨p.slashes, p.parts ++ q.parts⟩

def name (p : Path) : Text :=
  p.parts.getLast?.getD []

end Path

end FormatAudit
