import FormatAudit.Text.Blank

/-!
Lines of a text, and lines as they are shown in a message. Only a line feed ends a line, and the
line keeps it, so the lines of a text concatenate to the text again. In a message the blanks at both
ends of a line, its margins, are made visible; the blanks between them stay as they are.
-/
namespace FormatAudit

def splitLines : Text → List Text
  | [] => []
  | c :: r =>
    if c = '\n' then [c] :: splitLines r
    else match splitLines r with
      | [] => [[c]]
      | l :: ls => (c :: l) :: ls

def spaceMark : Char := '\u00b7'

def tabMark : Char := '\u25b8'

def visibleChar (c : Char) : Text :=
  if c = ' ' then [spaceMark] else if c = '\t' then [tabMark, '\t'] else [c]

def visible (t : Text) : Text :=
  t.flatMap visibleChar

/-- A line in three parts: the blanks it begins with, the rest, and the blanks it ends with. The
blanks of a line that has nothing else belong to the first part. -/
structure MarginedLine where
  leading : Text
  core : Text
  trailing : Text
  deriving DecidableEq, Repr

namespace MarginedLine

def ofLine (line : Text) : MarginedLine :=
  let rest := line.dropWhile isBlank
  ⟨line.takeWhile isBlank, (rest.reverse.dropWhile isBlank).reverse,
    (rest.reverse.takeWhile isBlank).reverse⟩

def shown (l : MarginedLine) : Text :=
  visible l.leading ++ l.core ++ visible l.trailing

end MarginedLine

/-- The lines of a text without their ends. A line feed at the end of the text opens no line, and
the empty text is one empty line. -/
def shownLines (t : Text) : List Text :=
  let lines := Text.pieces '\n' t
  if t.getLast? = some '\n' then lines.dropLast else lines

def renderLines (t lead : Text) : Text :=
  ['\n'].intercalate ((shownLines t).map fun line => lead ++ (MarginedLine.ofLine line).shown)

end FormatAudit
