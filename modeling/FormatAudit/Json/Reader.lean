import FormatAudit.Number.Reading
import FormatAudit.Value

/-!
Reading JSON texts. Besides the standard form the names of infinity and not-a-number are taken. Of
a repeated key the last value counts. The nesting of lists and tables and the digits of a number
are bounded.
-/
namespace FormatAudit

namespace Json

/-- How deep lists and tables may nest, where those with nothing in them do not count, and how many
digits a number may have before its point. -/
structure Bounds where
  depth : Nat
  digits : Nat
  deriving DecidableEq, Repr

def Bounds.standard : Bounds := ⟨200, Number.mostDigits⟩

def Bounds.wide (t : Text) : Bounds := ⟨t.length, t.length⟩

def skipBlanks (t : Text) : Text :=
  t.dropWhile fun c => c = ' ' || c = '\t' || c = '\n' || c = '\r'

def shortEscape? (c : Char) : Option Char :=
  if c = '"' || c = '\\' || c = '/' then some c
  else if c = 'b' then some '\x08'
  else if c = 'f' then some '\x0c'
  else if c = 'n' then some '\n'
  else if c = 'r' then some '\r'
  else if c = 't' then some '\t'
  else none

/-- The characters of a string up to the quote that closes it, with escapes as they are written, and
what follows it. -/
def rawString : Text → Option (Text × Text)
  | '\\' :: c :: r => (rawString r).map fun (s, rest) => ('\\' :: c :: s, rest)
  | c :: r =>
    if c = '"' then some ([], r)
    else if c.toNat < 32 then none
    else (rawString r).map fun (s, rest) => (c :: s, rest)
  | [] => none

def ofSurrogates (high low : Nat) : Char :=
  Char.ofNat (0x10000 + (high - 0xd800) * 0x400 + (low - 0xdc00))

def isHighSurrogate (n : Nat) : Bool :=
  0xd800 ≤ n && n < 0xdc00

def isLowSurrogate (n : Nat) : Bool :=
  0xdc00 ≤ n && n < 0xe000

/-- Replaces escapes. A leading surrogate needs a trailing one in the escape behind it. -/
def unescape? : Text → Option Text
  | '\\' :: 'u' :: a :: b :: c :: d :: r => do
    let n ← Text.ofHex? [a, b, c, d]
    if isHighSurrogate n then
      match r with
      | '\\' :: 'u' :: e :: f :: g :: h :: r =>
        let m ← Text.ofHex? [e, f, g, h]
        if isLowSurrogate m then (unescape? r).map (ofSurrogates n m :: ·) else none
      | _ => none
    else if isLowSurrogate n then none
    else (unescape? r).map (Char.ofNat n :: ·)
  | '\\' :: c :: r => do
    let d ← shortEscape? c
    (unescape? r).map (d :: ·)
  | c :: r => (unescape? r).map (c :: ·)
  | [] => some []

def stringFrom (t : Text) : Option (Text × Text) := do
  let (raw, rest) ← rawString t
  return (← unescape? raw, rest)

def fractionPart (t : Text) : Text × Text :=
  let (fraction, r) := match t with
    | '.' :: r => ('.' :: r.takeWhile isDigit, r.dropWhile isDigit)
    | r => ([], r)
  match r with
  | e :: r' =>
    if e = 'e' || e = 'E' then
      let (sign, r'') := match r' with
        | '+' :: r'' => (['+'], r'')
        | '-' :: r'' => (['-'], r'')
        | r'' => ([], r'')
      (fraction ++ e :: sign ++ r''.takeWhile isDigit, r''.dropWhile isDigit)
    else (fraction, r)
  | [] => (fraction, r)

def wellFormedPart (part : Text) : Bool :=
  let ok (ds : Text) : Bool := ds.head?.any isDigit
  let exponentOk (t : Text) : Bool := match t with
    | [] => true
    | _ :: '+' :: ds => ok ds
    | _ :: '-' :: ds => ok ds
    | _ :: ds => ok ds
  match part with
  | '.' :: r => ok r && exponentOk (r.dropWhile isDigit)
  | r => exponentOk r

def numberFrom (most : Nat) (negative : Bool) (t : Text) : Option (Value × Text) :=
  match Text.after? "Infinity".toList t with
  | some r => some (.float (.infinite negative), r)
  | none =>
    let whole := t.takeWhile isDigit
    let (part, rest) := fractionPart (t.dropWhile isDigit)
    if whole = [] || (whole.head? = some '0' && whole.length > 1) || most < whole.length then none
    else if part = [] then some (.int (Number.signed negative (Text.toNat whole)), rest)
    else if wellFormedPart part then
      (Number.readDecimal? negative (whole ++ part)).map fun x => (.float x, rest)
    else none

def scalar (most : Nat) (t : Text) : Option (Value × Text) :=
  match t with
  | '-' :: r => numberFrom most true r
  | _ =>
    match Text.after? "null".toList t with
    | some r => some (.null, r)
    | none => match Text.after? "true".toList t with
      | some r => some (.bool true, r)
      | none => match Text.after? "false".toList t with
        | some r => some (.bool false, r)
        | none => match Text.after? "NaN".toList t with
          | some r => some (.float .nan, r)
          | none => numberFrom most false t

mutual

/-- The value at the front of a text, and what follows it. Every call takes one unit of `fuel`;
`depth` is the nesting that is still allowed. -/
def value (most : Nat) : Nat → Nat → Text → Option (Value × Text)
  | 0, _, _ => none
  | fuel + 1, depth, t =>
    match skipBlanks t with
    | [] => none
    | c :: r =>
      if c = '"' then (stringFrom r).map fun (s, r) => (.text s, r)
      else if c = '[' then
        match depth, skipBlanks r with
        | _, ']' :: r => some (.list [], r)
        | 0, _ => none
        | depth + 1, r => (items most fuel depth r).map fun (vs, r) => (.list vs, r)
      else if c = '\x7b' then
        match depth, skipBlanks r with
        | _, '\x7d' :: r => some (.table [], r)
        | 0, _ => none
        | depth + 1, r => (members most fuel depth [] r).map fun (fs, r) => (.table fs, r)
      else scalar most (c :: r)

def items (most : Nat) : Nat → Nat → Text → Option (List Value × Text)
  | 0, _, _ => none
  | fuel + 1, depth, t => do
    let (v, r) ← value most fuel depth t
    match skipBlanks r with
    | ',' :: r => do
      let (vs, r) ← items most fuel depth r
      some (v :: vs, r)
    | ']' :: r => some ([v], r)
    | _ => none

def members (most : Nat) : Nat → Nat → Fields → Text → Option (Fields × Text)
  | 0, _, _, _ => none
  | fuel + 1, depth, before, t =>
    match skipBlanks t with
    | '"' :: r => do
      let (k, r) ← stringFrom r
      match skipBlanks r with
      | ':' :: r => do
        let (v, r) ← value most fuel depth r
        match skipBlanks r with
        | ',' :: r => members most fuel depth (before.insert k v) r
        | '\x7d' :: r => some (before.insert k v, r)
        | _ => none
      | _ => none
    | _ => none

end

def parseWithin? (b : Bounds) (t : Text) : Option Value := do
  let (v, r) ← value b.digits (2 * t.length + 2) b.depth t
  if skipBlanks r = [] then some v else none

def parse? (t : Text) : Option Value :=
  parseWithin? (Bounds.wide t) t

end Json

end FormatAudit
