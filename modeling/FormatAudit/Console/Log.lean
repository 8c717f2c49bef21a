import FormatAudit.Console.Text
import FormatAudit.Session

/-!
Messages and section headers. Colour shows only if it is on and the output is a terminal.
-/
namespace FormatAudit

namespace Console

inductive Level where
  | info
  | ok
  | warn
  | fail
  deriving DecidableEq, Repr

namespace Level

def all : List Level := [info, ok, warn, fail]

def name : Level → Text
  | .info => "info".toList
  | .ok => "ok".toList
  | .warn => "warn".toList
  | .fail => "fail".toList

def sign : Level → Text
  | .info => ['\u2139', '\ufe0f', ' ']
  | .ok => ['\u2705', ' ']
  | .warn => ['\u26a0', '\ufe0f', ' ']
  | .fail => ['\u274c', ' ']

def style : Level → Style
  | .info => "36".toList
  | .ok => "32".toList
  | .warn => "33".toList
  | .fail => "31".toList

end Level

def message (level : Level) (t : Text) (emoji colored : Bool) : Text :=
  printed colored [⟨some level.style, (if emoji then level.sign else []) ++ t⟩]

def ruleWidth : Nat := 80

def ruleChar : Char := '\u2500'

def ruleStyle : Style := "92".toList

/-- As many clusters as fit into a width that is too small for all of them. A wide one that only
half fits leaves a blank. -/
def fitting : Nat → List Text.Cluster → Text
  | _, [] => []
  | room, c :: r =>
    if c.width ≤ room then c.text ++ fitting (room - c.width) r
    else if room = 0 then [] else [' ']

def shortTitle (t : Text) : Text :=
  if Text.width t ≤ ruleWidth - 4 then t
  else fitting (ruleWidth - 5) (Text.clusters t) ++ ['\u2026']

/-- A line across the terminal with a title in its middle. It is drawn one or two columns too long
and cut. -/
def rule (title : Text) (colored : Bool) : Text :=
  if title = [] then
    printed colored [⟨some ruleStyle, List.replicate ruleWidth ruleChar⟩]
  else
    let t := shortTitle (expandTabs 0 ((clean title).map fun c => if c = '\n' then ' ' else c))
    let side := (ruleWidth - Text.width t) / 2
    let left := List.replicate (side - 1) ruleChar ++ [' ']
    let right := ' ' :: List.replicate (side + 1) ruleChar
    let excess := Text.width (left ++ t ++ right) - ruleWidth
    printed colored
      [⟨some ruleStyle, left⟩, ⟨none, t⟩, ⟨some ruleStyle, right.take (right.length - excess)⟩]

def header (title : Text) (color isTerminal : Bool) : Text :=
  if color then '\n' :: rule title isTerminal
  else printed false [⟨none, "\n--- ".toList ++ title ++ " ---".toList⟩]

end Console

namespace Run

def say (level : Console.Level) (t : Text) (emoji : Bool) (color : Option Bool) : Run Unit := do
  let console ← Run.console (color.getD (← read).isTerminal) emoji
  print (Console.message level t emoji console.isColored)

def header (title : Text) (color : Bool) : Run Unit := do
  let console ← Run.console color true
  print (Console.header title color console.isTerminal)

end Run

end FormatAudit
