/-!
Binary floating-point numbers of 64 bits, kept exact: a finite number is a sign, a mantissa and a
power of two. Every number comes from rounding a quotient to the nearest representable value, a
tie going to the even mantissa, so comparisons and conversions are integer arithmetic.
-/
namespace FormatAudit

def twoTo (n : Nat) : Nat :=
  Nat.pow 2 n

def tenTo (n : Nat) : Nat :=
  Nat.pow 10 n

/-- The finite number with the given sign is `mantissa * 2 ^ exponent`. Numbers made by rounding
have a mantissa below 2^53, and below 2^52 only at the least exponent. -/
inductive Binary64 where
  | finite (negative : Bool) (mantissa : Nat) (exponent : Int)
  | infinite (negative : Bool)
  | nan
  deriving DecidableEq, Repr

namespace Binary64

def leastExponent : Int := -1074

def greatestExponent : Int := 971

/-- The quotient rounded to the nearest integer, a tie to the even one. -/
def roundDiv (num den : Nat) : Nat :=
  let q := num / den
  let r := 2 * (num % den)
  if r < den then q
  else if den < r then q + 1
  else if q % 2 = 0 then q else q + 1

def scale (num den : Nat) (e : Int) : Nat × Nat :=
  if e < 0 then (num * twoTo (-e).toNat, den) else (num, den * twoTo e.toNat)

def ofQuotient (negative : Bool) (num den : Nat) : Binary64 :=
  if num = 0 then .finite negative 0 leastExponent
  else
    let guess : Int := (num.log2 : Int) - den.log2 - 52
    let (a, b) := scale num den guess
    let e := if a < b * twoTo 52 then guess - 1 else guess
    let e := if e < leastExponent then leastExponent else e
    let (a, b) := scale num den e
    let m := roundDiv a b
    let (m, e) := if m = twoTo 53 then (twoTo 52, e + 1) else (m, e)
    if greatestExponent < e then .infinite negative else .finite negative m e

/-- The number nearest to `digits * 10 ^ power`. Powers far outside the range are settled without
computing them. -/
def ofDecimal (negative : Bool) (digits : Nat) (power : Int) : Binary64 :=
  let size : Int := (Nat.toDigits 10 digits).length + power
  if digits = 0 || size < -330 then .finite negative 0 leastExponent
  else if 320 < size then .infinite negative
  else if power < 0 then ofQuotient negative digits (tenTo (-power).toNat)
  else ofQuotient negative (digits * tenTo power.toNat) 1

def ofInt (n : Int) : Binary64 :=
  ofQuotient (n < 0) n.natAbs 1

def ofScaled (negative : Bool) (digits : Nat) (power : Int) : Binary64 :=
  if 0 ≤ power then ofQuotient negative (digits * twoTo power.toNat) 1
  else ofQuotient negative digits (twoTo (-power).toNat)

def mul : Binary64 → Binary64 → Binary64
  | .finite s m e, .finite t n f => ofScaled (s != t) (m * n) (e + f)
  | .finite s m _, .infinite t => if m = 0 then .nan else .infinite (s != t)
  | .infinite s, .finite t n _ => if n = 0 then .nan else .infinite (s != t)
  | .infinite s, .infinite t => .infinite (s != t)
  | _, _ => .nan

def floor? : Binary64 → Option Int
  | .finite s m e =>
    let n : Int := if s then -(m : Int) else m
    if 0 ≤ e then some (n * twoTo e.toNat) else some (n.fdiv (twoTo (-e).toNat))
  | _ => none

def zero : Binary64 := .finite false 0 leastExponent

def one : Binary64 := ofInt 1

def isPositive : Binary64 → Bool
  | .finite s m _ => !s && m != 0
  | .infinite s => !s
  | .nan => false

def isNegative : Binary64 → Bool
  | .finite s m _ => s && m != 0
  | .infinite s => s
  | .nan => false

/-- The value times `2 ^ 1074`, which is an integer for every number made by rounding. -/
def units (s : Bool) (m : Nat) (e : Int) : Int :=
  let n : Int := m * twoTo (e - leastExponent).toNat
  if s then -n else n

def lt : Binary64 → Binary64 → Bool
  | .nan, _ => false
  | _, .nan => false
  | .infinite s, .infinite t => s && !t
  | .infinite s, .finite .. => s
  | .finite .., .infinite t => !t
  | .finite s m e, .finite t n f => units s m e < units t n f

def toInt? : Binary64 → Option Int
  | .finite s m e =>
    let signed (n : Nat) : Int := if s then -(n : Int) else n
    if 0 ≤ e then some (signed (m * twoTo e.toNat))
    else
      let d := twoTo (-e).toNat
      if m % d = 0 then some (signed (m / d)) else none
  | _ => none

def isFinite : Binary64 → Bool
  | .finite .. => true
  | _ => false

end Binary64

end FormatAudit
