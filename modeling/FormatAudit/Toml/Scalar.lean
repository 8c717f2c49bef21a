import FormatAudit.Number.Reading
import FormatAudit.Value

/-!
Strings, numbers and moments of TOML texts. Each reader takes its part off the front of a text.
-/
namespace FormatAudit

namespace Toml

/-- Why a text cannot be read: it is not well formed, or one of its integers is too long. -/
inductive Fault where
  | malformed
  | longInteger (digits : Nat)
  deriving DecidableEq, Repr

def isBlankChar (c : Char) : Bool :=
  c = ' ' || c = '\t'

def isControl (c : Char) : Bool :=
  (c.toNat < 32 && c != '\t') || c.toNat == 127

def isControlInLines (c : Char) : Bool :=
  isControl c && c != '\n'

def upTo? (stop : Text) : Text → Option (Text × Text)
  | [] => if stop = [] then some ([], []) else none
  | c :: r => match Text.after? stop (c :: r) with
    | some rest => some ([], rest)
    | none => (upTo? stop r).map fun (before, rest) => (c :: before, rest)

def literal (stop : Text) (control : Char → Bool) (t : Text) : Except Fault (Text × Text) :=
  match upTo? stop t with
  | some (s, rest) => if s.any control then .error .malformed else .ok (s, rest)
  | none => .error .malformed

def hexChar (width : Nat) (t : Text) : Except Fault (Char × Text) :=
  match Text.ofHex? (t.take width) with
  | some n =>
    if (t.take width).length = width ∧ n.isValidChar then .ok (Char.ofNat n, t.drop width)
    else .error .malformed
  | none => .error .malformed

def shortEscape? (c : Char) : Option Char :=
  if c = 'b' then some '\x08'
  else if c = 't' then some '\t'
  else if c = 'n' then some '\n'
  else if c = 'f' then some '\x0c'
  else if c = 'r' then some '\r'
  else if c = '"' then some '"'
  else if c = '\\' then some '\\'
  else none

/-- A line break behind a backslash, with the blanks before it and all blanks and line breaks
after it. -/
def lineJoin? (t : Text) : Option Text :=
  match t.dropWhile isBlankChar with
  | [] => if t = [] then none else some []
  | c :: r =>
    if c = '\n' then some (r.dropWhile fun c => isBlankChar c || c = '\n') else none

def escape : Text → Except Fault (Char × Text)
  | 'u' :: r => hexChar 4 r
  | 'U' :: r => hexChar 8 r
  | c :: r => match shortEscape? c with
    | some d => .ok (d, r)
    | none => .error .malformed
  | [] => .error .malformed

/-- A basic string up to its closing quotes, which are `stop`. Every character takes one unit of
`fuel`. -/
def basic (stop : Text) (control : Char → Bool) (joins : Bool) : Nat → Text → Except Fault (Text × Text)
  | 0, _ => .error .malformed
  | fuel + 1, t => match Text.after? stop t, t with
    | some rest, _ => .ok ([], rest)
    | none, [] => .error .malformed
    | none, c :: r =>
      if c = '\\' then
        match (if joins then lineJoin? r else none) with
        | some rest => basic stop control joins fuel rest
        | none => do
          let (d, rest) ← escape r
          let (s, rest) ← basic stop control joins fuel rest
          return (d :: s, rest)
      else if control c then .error .malformed
      else do
        let (s, rest) ← basic stop control joins fuel r
        return (c :: s, rest)

def moreQuotes (quote : Char) (s t : Text) : Text × Text :=
  let more := ((t.take 2).takeWhile (· = quote)).length
  (s ++ List.replicate more quote, t.drop more)

def longString (quote : Char) (t : Text) : Except Fault (Text × Text) := do
  let body := match t with
    | '\n' :: r => r
    | t => t
  let stop := [quote, quote, quote]
  let (s, rest) ← if quote = '\'' then literal stop isControlInLines body
    else basic stop isControlInLines true (body.length + 1) body
  return moreQuotes quote s rest

def shortString (quote : Char) (t : Text) : Except Fault (Text × Text) :=
  if quote = '\'' then literal [quote] isControl t
  else basic [quote] isControl false (t.length + 1) t

/-- Digits of a class up to the first character that neither belongs to it nor is an underscore
before such a digit. -/
def groupedDigits (ok : Char → Bool) : Text → Text × Text
  | [] => ([], [])
  | c :: r =>
    if ok c then (c :: (groupedDigits ok r).1, (groupedDigits ok r).2)
    else if c = '_' ∧ r.head?.any ok then groupedDigits ok r
    else ([], c :: r)

def digitRun (ok : Char → Bool) (t : Text) : Text × Text :=
  if t.head?.any ok then groupedDigits ok t else ([], t)

def ofDigits (base : Nat) (ds : Text) : Nat :=
  ds.foldl (fun n c => base * n + (Text.hexValue? c).getD 0) 0

def base? : Char → Option (Nat × (Char → Bool))
  | 'x' => some (16, fun c => (Text.hexValue? c).isSome)
  | 'o' => some (8, fun c => isDigit c && c.toNat < 56)
  | 'b' => some (2, fun c => c = '0' || c = '1')
  | _ => none

def basedNumber? (t : Text) : Option (Value × Text) :=
  match t with
  | '0' :: b :: r => match base? b with
    | some (base, ok) =>
      let (ds, rest) := digitRun ok r
      if ds = [] then none else some (.int (ofDigits base ds), rest)
    | none => none
  | _ => none

def wholePart : Text → Text × Text
  | '0' :: r => (['0'], r)
  | t => digitRun isDigit t

def fractionPart (t : Text) : Text × Text :=
  match t with
  | '.' :: r =>
    let (ds, rest) := digitRun isDigit r
    if ds = [] then ([], t) else ('.' :: ds, rest)
  | _ => ([], t)

def exponentPart (t : Text) : Text × Text :=
  match t with
  | e :: r =>
    if e = 'e' || e = 'E' then
      let (sign, r') := match r with
        | '+' :: r' => (['+'], r')
        | '-' :: r' => (['-'], r')
        | _ => ([], r)
      let (ds, rest) := digitRun isDigit r'
      if ds = [] then ([], t) else ('e' :: sign ++ ds, rest)
    else ([], t)
  | [] => ([], t)

def decimalNumber? (negative : Bool) (t : Text) : Option (Except Fault (Value × Text)) :=
  let (whole, rest) := wholePart t
  if whole = [] then none
  else
    let (fraction, rest) := fractionPart rest
    let (exponent, rest) := exponentPart rest
    if fraction ++ exponent = [] then
      some <| if Number.mostDigits < whole.length then .error (.longInteger whole.length)
        else .ok (.int (Number.signed negative (Text.toNat whole)), rest)
    else
      some <| match Number.readDecimal? negative (whole ++ fraction ++ exponent) with
        | some x => .ok (.float x, rest)
        | none => .error .malformed

def namedNumber? (negative : Bool) (t : Text) : Option (Value × Text) :=
  match Text.after? "inf".toList t with
  | some rest => some (.float (.infinite negative), rest)
  | none => (Text.after? "nan".toList t).map fun rest => (.float .nan, rest)

def number (t : Text) : Except Fault (Value × Text) :=
  match basedNumber? t with
  | some read => .ok read
  | none =>
    let (negative, body) := Number.splitSign t
    match decimalNumber? negative body with
    | some read => read
    | none => match namedNumber? negative body with
      | some read => .ok read
      | none => .error .malformed

def digits? (count : Nat) (t : Text) : Option (Nat × Text) :=
  let ds := t.take count
  if ds.length = count ∧ ds.all isDigit then some (Text.toNat ds, t.drop count) else none

def timeRest? (t : Text) : Option Text := do
  let (hour, r) ← digits? 2 t
  let r ← Text.after? [':'] r
  let (minute, r) ← digits? 2 r
  let r ← Text.after? [':'] r
  let (second, r) ← digits? 2 r
  if hour < 24 ∧ minute < 60 ∧ second < 60 then
    match r with
    | '.' :: d :: r' => if isDigit d then some (r'.dropWhile isDigit) else some r
    | _ => some r
  else none

def offsetRest (t : Text) : Text :=
  match t with
  | 'Z' :: r => r
  | 'z' :: r => r
  | c :: r =>
    if c = '+' || c = '-' then
      let rest? : Option Text := do
        let (hour, r) ← digits? 2 r
        let r ← Text.after? [':'] r
        let (minute, r) ← digits? 2 r
        if hour < 24 ∧ minute < 60 then some r else none
      rest?.getD t
    else t
  | [] => t

def isLeapYear (year : Nat) : Bool :=
  year % 4 = 0 && (year % 100 != 0 || year % 400 = 0)

def daysInMonth (year month : Nat) : Nat :=
  if month = 2 then (if isLeapYear year then 29 else 28)
  else if month = 4 || month = 6 || month = 9 || month = 11 then 30
  else 31

def moment? (t : Text) : Option (Except Fault (Value × Text)) := do
  let (year, r) ← digits? 4 t
  let r ← Text.after? ['-'] r
  let (month, r) ← digits? 2 r
  let r ← Text.after? ['-'] r
  let (day, r) ← digits? 2 r
  if 1 ≤ month ∧ month ≤ 12 ∧ 1 ≤ day ∧ day ≤ 31 then
    let rest := match r with
      | c :: r' =>
        if c = 'T' || c = 't' || c = ' ' then ((timeRest? r').map offsetRest).getD r else r
      | [] => r
    some <| if 1 ≤ year ∧ day ≤ daysInMonth year month then .ok (.moment, rest)
      else .error .malformed
  else none

def plainValue (t : Text) : Except Fault (Value × Text) :=
  match moment? t with
  | some read => read
  | none => match timeRest? t with
    | some rest => .ok (.moment, rest)
    | none => number t

end Toml

end FormatAudit
