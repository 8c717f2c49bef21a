import FormatAudit.Text.Basic

/-!
Blank characters and the trimming of texts. Two classes are in use: the characters with the
White_Space property, and the larger class that also counts the four information separators.
-/
namespace FormatAudit

def isWhiteSpace (c : Char) : Bool :=
  let n := c.toNat
  (0x09 ≤ n && n ≤ 0x0d) || n == 0x20 || n == 0x85 || n == 0xa0 || n == 0x1680 ||
    (0x2000 ≤ n && n ≤ 0x200a) || n == 0x2028 || n == 0x2029 || n == 0x202f || n == 0x205f ||
    n == 0x3000

def isBlank (c : Char) : Bool :=
  isWhiteSpace c || (0x1c ≤ c.toNat && c.toNat ≤ 0x1f)

namespace Text

def trim (p : Char → Bool) (t : Text) : Text :=
  ((t.dropWhile p).reverse.dropWhile p).reverse

def strip (t : Text) : Text :=
  trim isBlank t

def commaItems (t : Text) : List Text :=
  ((pieces ',' t).map strip).filter (· ≠ [])

end Text

end FormatAudit
