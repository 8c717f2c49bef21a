import FormatAudit.Number.Binary64
import FormatAudit.Text.Digits

/-!
Decimal texts of floating-point numbers. The shortest form has the fewest digits that read back as
the same number, and of those the nearest to it. The tenths form rounds the exact value to one
place, a tie going to the even digit.
-/
namespace FormatAudit

namespace Binary64

structure Decimal where
  digits : Nat
  power : Int
  deriving DecidableEq, Repr

def quotient (m : Nat) (e : Int) : Nat × Nat :=
  if e < 0 then (m, twoTo (-e).toNat) else (m * twoTo e.toNat, 1)

/-- The number of places before the decimal point; not positive for a value below one tenth. -/
def places (num den : Nat) : Int :=
  ((Nat.toDigits 10 (num * tenTo 400 / den)).length : Int) - 400

/-- The neighbours of the value on the grid of `count` digits that read back as the number `m * 2 ^ e`,
the nearer one first. -/
def readingBack (m : Nat) (e : Int) (count : Nat) : Option Decimal :=
  let (num, den) := quotient m e
  let power := places num den - count
  let (a, b) :=
    if power < 0 then (num * tenTo (-power).toNat, den) else (num, den * tenTo power.toNat)
  let below : Decimal := ⟨a / b, power⟩
  let above : Decimal := ⟨a / b + 1, power⟩
  let hit (d : Decimal) : Bool := ofDecimal false d.digits d.power == .finite false m e
  let nearer := if 2 * (a % b) < b then [below, above]
    else if b < 2 * (a % b) then [above, below]
    else if a / b % 2 = 0 then [below, above] else [above, below]
  nearer.find? hit

def Decimal.trimmed : Nat → Decimal → Decimal
  | 0, d => d
  | n + 1, d => if d.digits % 10 = 0 then trimmed n ⟨d.digits / 10, d.power + 1⟩ else d

/-- The shortest decimal of a positive finite number; seventeen digits are always enough. -/
def shortest (m : Nat) (e : Int) : Decimal :=
  (((List.range 17).findSome? fun n => readingBack m e (n + 1)).getD ⟨m, e⟩).trimmed 400

def mostPlaces : Int := 16

def leastPlaces : Int := -3

def exponentText (n : Int) : Text :=
  let ds := Text.ofNat n.natAbs
  (if n < 0 then '-' else '+') :: (if ds.length < 2 then '0' :: ds else ds)

def Decimal.text (d : Decimal) : Text :=
  let ds := Text.ofNat d.digits
  let point : Int := ds.length + d.power
  if point < leastPlaces || mostPlaces < point then
    match ds with
    | [] => []
    | [c] => c :: 'e' :: exponentText (point - 1)
    | c :: r => c :: '.' :: r ++ 'e' :: exponentText (point - 1)
  else if point ≤ 0 then "0.".toList ++ List.replicate (-point).toNat '0' ++ ds
  else if d.power < 0 then ds.take point.toNat ++ '.' :: ds.drop point.toNat
  else ds ++ List.replicate d.power.toNat '0' ++ ".0".toList

def text : Binary64 → Text
  | .nan => "nan".toList
  | .infinite s => if s then "-inf".toList else "inf".toList
  | .finite s m e =>
    let body := if m = 0 then "0.0".toList else (shortest m e).text
    if s then '-' :: body else body

def tenthsText : Binary64 → Text
  | .nan => "nan".toList
  | .infinite s => if s then "-inf".toList else "inf".toList
  | .finite s m e =>
    let (num, den) := quotient m e
    let n := roundDiv (num * 10) den
    let body := Text.ofNat (n / 10) ++ '.' :: Text.ofNat (n % 10)
    if s then '-' :: body else body

end Binary64

end FormatAudit
