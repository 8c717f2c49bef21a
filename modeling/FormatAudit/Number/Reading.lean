import FormatAudit.Number.Binary64
import FormatAudit.Text.Digits

/-!
Numbers read from texts in their plain forms, which take a sign and ASCII digits only. Readers that
allow blanks or underscores remove them first, each by its own rule.
-/
namespace FormatAudit

namespace Number

/-- More digits than this are refused wherever a text is read as an integer. -/
def mostDigits : Nat := 4300

def splitSign : Text → Bool × Text
  | '-' :: r => (true, r)
  | '+' :: r => (false, r)
  | t => (false, t)

def signed (negative : Bool) (n : Nat) : Int :=
  if negative then -(n : Int) else n

def readInt? (t : Text) : Option Int :=
  let (s, ds) := splitSign t
  if ds ≠ [] ∧ ds.all isDigit then some (signed s (Text.toNat ds)) else none

def readPower? : Text → Option Int
  | [] => some 0
  | c :: r => if c = 'e' ∨ c = 'E' then readInt? r else none

def readDecimal? (negative : Bool) (t : Text) : Option Binary64 :=
  let whole := t.takeWhile isDigit
  let rest := t.dropWhile isDigit
  let (fraction, rest) := match rest with
    | '.' :: r => (r.takeWhile isDigit, r.dropWhile isDigit)
    | r => ([], r)
  if whole ++ fraction = [] then none
  else (readPower? rest).map fun power =>
    Binary64.ofDecimal negative (Text.toNat (whole ++ fraction)) (power - fraction.length)

def readFloat? (t : Text) : Option Binary64 :=
  let (s, body) := splitSign t
  let name := body.map Char.toLower
  if name = "inf".toList ∨ name = "infinity".toList then some (.infinite s)
  else if name = "nan".toList then some .nan
  else readDecimal? s body

end Number

/-- How numbers are read where nothing is said about the form of their texts. -/
structure Numerals where
  int : Text → Option Int
  float : Text → Option Binary64

end FormatAudit
