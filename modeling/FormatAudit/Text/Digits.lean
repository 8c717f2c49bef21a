import FormatAudit.Text.Utf8

/-!
Numbers in decimal and hexadecimal digits, and bytes as pairs of hexadecimal digits. Only ASCII digits
count. Numbers of any size are written: that a runtime may refuse to write, as it refuses to read,
more than 4300 digits is left out.
-/
namespace FormatAudit

def isDigit (c : Char) : Bool :=
  48 ≤ c.toNat && c.toNat ≤ 57

def digitValue (c : Char) : Nat :=
  c.toNat - 48

namespace Text

def toNat (t : Text) : Nat :=
  t.foldl (fun n c => 10 * n + digitValue c) 0

/-- The most significant digit comes first. However many there are, they are written. -/
def ofNat (n : Nat) : Text :=
  Nat.toDigits 10 n

def hexDigit (n : Nat) : Char :=
  if n < 10 then Char.ofNat (48 + n) else Char.ofNat (87 + n)

def hex : Nat → Nat → Text
  | 0, _ => []
  | width + 1, n => hex width (n / 16) ++ [hexDigit (n % 16)]

def hexValue? (c : Char) : Option Nat :=
  let n := c.toNat
  if 48 ≤ n && n ≤ 57 then some (n - 48)
  else if 97 ≤ n && n ≤ 102 then some (n - 87)
  else if 65 ≤ n && n ≤ 70 then some (n - 55)
  else none

def ofHex? (t : Text) : Option Nat :=
  (t.mapM hexValue?).map fun ds => ds.foldl (fun n d => 16 * n + d) 0

/-- As `ofNat`, without a bound on the number of digits. -/
def ofInt : Int → Text
  | .ofNat n => ofNat n
  | .negSucc n => '-' :: ofNat (n + 1)

end Text

namespace Hex

def ofBytes (bytes : Bytes) : Text :=
  bytes.flatMap fun b => Text.hex 2 b.toNat

def toBytes? : Text → Option Bytes
  | [] => some []
  | [_] => none
  | a :: b :: r => do
    let high ← Text.hexValue? a
    let low ← Text.hexValue? b
    return UInt8.ofNat (16 * high + low) :: (← toBytes? r)

end Hex

end FormatAudit
