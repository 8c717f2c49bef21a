import FormatAudit.Text.Width

/-!
Text on a terminal. Some control characters are left out, tabs become blanks up to the next tab
stop, and a styled part of a line stands between codes of its own. A tab ends such a part.
-/
namespace FormatAudit

namespace Console

/-- A style by the parameters of its code. -/
abbrev Style := Text

def isDropped (c : Char) : Bool :=
  c.toNat = 7 || c.toNat = 8 || c.toNat = 11 || c.toNat = 12 || c.toNat = 13

def clean (t : Text) : Text :=
  t.filter fun c => !isDropped c

def tabWidth : Nat := 8

/-- The pieces of a line that stand between tabs, of which the first begins in the given column. A
tab is a blank, and more blanks up to the next tab stop, at the end of the piece before it. -/
def piecesAtStops : Nat → List Text → List Text
  | _, [] => []
  | _, [piece] => [piece]
  | column, piece :: rest =>
    let stop := column + Text.width (piece ++ [' '])
    let more := (tabWidth - stop % tabWidth) % tabWidth
    (piece ++ ' ' :: List.replicate more ' ') :: piecesAtStops (stop + more) rest

def tabPieces (column : Nat) (line : Text) : List Text :=
  piecesAtStops column (Text.pieces '\t' line)

def expandTabs (column : Nat) (line : Text) : Text :=
  (tabPieces column line).flatten

def code (style : Style) : Text :=
  '\x1b' :: '[' :: style ++ ['m']

def dress : Option Style → Text → Text
  | none, t => t
  | some style, t => if t = [] then [] else code style ++ t ++ code ['0']

structure Span where
  style : Option Style
  text : Text
  deriving DecidableEq, Repr

/-- The pieces of the lines of a text, of which the first line begins in the given column, and the
column behind the last line. -/
def linePieces (column : Nat) (t : Text) : List (List Text) × Nat :=
  match Text.pieces '\n' t with
  | [] => ([], column)
  | first :: rest =>
    let lines := tabPieces column first :: rest.map (tabPieces 0)
    let before := if rest = [] then column else 0
    (lines, before + Text.width (lines.getLast?.getD []).flatten)

def spansFrom : Nat → List Span → Text
  | _, [] => []
  | column, s :: r =>
    let (lines, column) := linePieces column (clean s.text)
    ['\n'].intercalate (lines.map fun pieces => pieces.flatMap (dress s.style)) ++ spansFrom column r

def printed (colored : Bool) (spans : List Span) : Text :=
  let spans := if colored then spans else spans.map fun s => ⟨none, s.text⟩
  spansFrom 0 spans ++ ['\n']

end Console

end FormatAudit
