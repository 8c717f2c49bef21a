import FormatAudit.Intake.Checked
import FormatAudit.Number.Reading
import FormatAudit.Path
import FormatAudit.Text.Blank

/-!
Readers for single values. They are lenient: an integer may come as a truth value, a whole
floating-point number or a decimal text, a truth value as one of a few words, and so on.
-/
namespace FormatAudit

namespace Intake

def text : Value → Checked Text
  | .text t => .ok t
  | _ => refuse .notText

/-- What follows a run of zeros and underscores of which `last` is the last character so far. One
character of the run is kept where no other digit follows. A minus sign may stand behind the run,
too. -/
def afterZeros (last : Char) : Text → Option Text
  | [] => some [last]
  | c :: r =>
    if c = '0' || c = '_' then afterZeros c r
    else if isDigit c || c = '-' then some (c :: r)
    else if c = '.' then some (last :: c :: r)
    else none

def withoutZeros? : Text → Option Text
  | [] => none
  | c :: r =>
    if c = '0' then afterZeros c r
    else if isDigit c then some (c :: r)
    else none

def withoutFraction (t : Text) : Text :=
  match t.dropWhile (· != '.') with
  | _ :: d :: r => if (d :: r).all (· = '0') then t.takeWhile (· != '.') else t
  | _ => t

def withoutUnderscores? (t : Text) : Option Text :=
  let groups := Text.pieces '_' t
  if groups.length = 1 || groups.any (·.isEmpty) then none else some groups.flatten

/-- An integer in its plain form: digits without a zero in front, or a single zero, behind a minus
sign or none. Too many digits are too many whatever comes after them. -/
def plainInt (t : Text) : Except Cause Int :=
  let (negative, body) : Bool × Text := match t with
    | '-' :: r => (true, r)
    | _ => (false, t)
  let digits := body.takeWhile isDigit
  if digits = [] || (digits.head? = some '0' && 1 < digits.length) then .error .notIntText
  else if Number.mostDigits < digits.length then .error .tooLarge
  else if digits.length < body.length then .error .notIntText
  else .ok (Number.signed negative (Text.toNat digits))

def simplified? (t : Text) : Option Text :=
  let (negative, body) := Number.splitSign (Text.trim isWhiteSpace t)
  (withoutZeros? body).map fun s =>
    let whole := withoutFraction s
    let digits := (withoutUnderscores? whole).getD whole
    if negative then '-' :: digits else digits

def intText (t : Text) : Checked Int :=
  match plainInt t with
  | .ok n => .ok n
  | .error .tooLarge => refuse .tooLarge
  | .error _ => match (simplified? t).map plainInt with
    | some (.ok n) => .ok n
    | _ => refuse .notIntText

def wholeFloat (x : Binary64) : Checked Int :=
  if !x.isFinite then refuse .notFinite
  else match x.toInt? with
    | none => refuse .notWhole
    | some n => if n.natAbs < twoTo 63 then .ok n else refuse .tooLarge

def int : Value → Checked Int
  | .bool b => .ok (if b then 1 else 0)
  | .int n => .ok n
  | .float x => wholeFloat x
  | .text t => intText t
  | _ => refuse .notInt

def falseWords : List Text :=
  ["0".toList, "off".toList, "f".toList, "false".toList, "n".toList, "no".toList]

def trueWords : List Text :=
  ["1".toList, "on".toList, "t".toList, "true".toList, "y".toList, "yes".toList]

def boolOfInt (n : Int) : Checked Bool :=
  if n = 0 then .ok false else if n = 1 then .ok true else refuse .notBoolText

def bool : Value → Checked Bool
  | .bool b => .ok b
  | .int n => if -(twoTo 63 : Int) ≤ n ∧ n < (twoTo 63 : Int) then boolOfInt n else refuse .notBool
  | .float x => match wholeFloat x with
    | .ok n => boolOfInt n
    | .error _ => refuse .notBool
  | .text t =>
    let word := t.map Char.toLower
    if falseWords.contains word then .ok false
    else if trueWords.contains word then .ok true
    else refuse .notBoolText
  | _ => refuse .notBool

/-- A floating-point number from a text, which has either blanks around it or underscores. -/
def floatText (t : Text) : Checked Binary64 :=
  match Number.readFloat? (Text.trim isWhiteSpace t) with
  | some x => .ok x
  | none => match (withoutUnderscores? t).bind Number.readFloat? with
    | some x => .ok x
    | none => refuse .notFloatText

/-- Numbers read as in the fields of records, except that there is no not-a-number. -/
def numerals : Numerals where
  int t := (intText t).toOption
  float t := (floatText t).toOption.filter (· ≠ .nan)

def float : Value → Checked Binary64
  | .bool b => .ok (Binary64.ofInt (if b then 1 else 0))
  | .int n => if (Binary64.ofInt n).isFinite then .ok (Binary64.ofInt n) else refuse .notFloat
  | .float x => .ok x
  | .text t => floatText t
  | _ => refuse .notFloat

def atLeast (bound : Nat) (n : Int) : Checked Nat :=
  if (bound : Int) ≤ n then .ok n.toNat else refuse (.below bound)

def positive (x : Binary64) : Checked Binary64 :=
  if x.isPositive then .ok x else refuse (.notAbove 0)

def nullable {α : Type} (read : Value → Checked α) : Value → Checked (Option α)
  | .null => .ok none
  | v => (read v).map some

def listOf {α : Type} (read : Value → Checked α) : Value → Checked (List α)
  | .list vs => each read 0 vs
  | _ => refuse .notList

def sequenceOf {α : Type} (form : Form) (read : Value → Checked α) : Value → Checked (List α)
  | .list vs => each read 0 vs
  | _ => refuse (.notSequence form)

def tableOf {α : Type} (read : Value → Checked α) : Value → Checked (List (Text × α))
  | .table fs => eachField read fs
  | _ => refuse .notTable

def path : Value → Checked Path
  | .text t => .ok (Path.ofText t)
  | _ => refuse .notPath

end Intake

end FormatAudit
