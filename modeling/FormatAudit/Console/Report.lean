import FormatAudit.Report

/-!
Reports on the terminal: the violations of each linter under a header of its own, and the
summaries of all linters.
-/
namespace FormatAudit

namespace Console

def severityStyle : Severity → Style
  | .error => "1;31".toList
  | .warning => "1;33".toList

def locationStyle : Style := "1".toList

def violationSpans (v : Violation) (s : Severity) (color : Bool) : List Span :=
  let styled (style : Style) : Option Style := if color then some style else none
  [⟨styled (severityStyle s), s.name ++ ": ".toList⟩, ⟨styled locationStyle, clean v.location⟩,
    ⟨none, '\n' :: clean (Text.dropRight '\n' v.message)⟩]

def plainText (spans : List Span) : Text :=
  spans.flatMap (·.text)

end Console

namespace Run

def showViolation (console : Console.Setup) (s : Severity) (v : Violation) : Run Unit :=
  print (Console.printed console.isColored (Console.violationSpans v s console.color))

def showReport (console : Console.Setup) (r : Report) : Run Unit := do
  if r.findings.violations = [] then return
  header r.name console.color
  for s in Severity.all do
    for v in r.findings.ofSeverity s do
      showViolation console s v

def showReports (reports : List Report) (output : Output) : Run Unit := do
  let console ← Run.console output.color output.emoji
  for r in reports do
    showReport console r
  header "Summary".toList output.color
  for r in reports do
    print (Console.printed false [⟨none, r.summary⟩])

end Run

end FormatAudit
