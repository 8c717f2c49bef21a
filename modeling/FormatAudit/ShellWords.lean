import FormatAudit.Text.Digits

/-!
Command lines as texts, in the quoting rules of the shell. A backslash outside quotes takes the
next character literally; between double quotes it does so before a double quote or a backslash
only; between single quotes nothing is special. Joining quotes each word that needs it, so that
splitting gives the words back.
-/
namespace FormatAudit

namespace ShellWords

inductive Fault where
  | unclosedQuote
  | danglingEscape
  deriving DecidableEq, Repr

def Fault.message : Fault → Text
  | .unclosedQuote => "No closing quotation".toList
  | .danglingEscape => "No escaped character".toList

/-- Where a character stands: between words, in a word outside quotes, between single or double
quotes, or behind a backslash outside or between double quotes. -/
inductive Mode where
  | gap
  | bare
  | single
  | double
  | escape
  | doubleEscape
  deriving DecidableEq, Repr

def isGap (c : Char) : Bool :=
  c = ' ' || c = '\t' || c = '\r' || c = '\n'

def opened (c : Char) : Mode :=
  if c = '\'' then .single else if c = '"' then .double else .escape

def isSpecial (c : Char) : Bool :=
  c = '\'' || c = '"' || c = '\\'

/-- The words of a text that is read from the place `mode` on. The characters of the word before it
are in `word`, the last one first. -/
def scan (mode : Mode) (word : Text) : Text → Except Fault (List Text)
  | [] => match mode with
    | .gap => .ok []
    | .bare => .ok [word.reverse]
    | .single | .double => .error .unclosedQuote
    | .escape | .doubleEscape => .error .danglingEscape
  | c :: r => match mode with
    | .gap =>
      if isGap c then scan .gap [] r
      else if isSpecial c then scan (opened c) [] r
      else scan .bare [c] r
    | .bare =>
      if isGap c then (scan .gap [] r).map (word.reverse :: ·)
      else if isSpecial c then scan (opened c) word r
      else scan .bare (c :: word) r
    | .single => if c = '\'' then scan .bare word r else scan .single (c :: word) r
    | .double =>
      if c = '"' then scan .bare word r
      else if c = '\\' then scan .doubleEscape word r
      else scan .double (c :: word) r
    | .escape => scan .bare (c :: word) r
    | .doubleEscape =>
      if c = '"' ∨ c = '\\' then scan .double (c :: word) r
      else scan .double (c :: '\\' :: word) r

def split (t : Text) : Except Fault (List Text) :=
  scan .gap [] t

def isPlain (c : Char) : Bool :=
  isDigit c || c.isAlpha || "_@%+=:,./-".toList.contains c

def quote (word : Text) : Text :=
  if word ≠ [] ∧ word.all isPlain then word
  else '\'' :: word.flatMap (fun c => if c = '\'' then "'\"'\"'".toList else [c]) ++ ['\'']

def join (words : List Text) : Text :=
  [' '].intercalate (words.map quote)

end ShellWords

end FormatAudit
