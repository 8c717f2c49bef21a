import FormatAudit.CommandLine.Words
import FormatAudit.Config.Override

/-!
What a command line asks for: help, the names of the linters, or a run of linters over a
workspace.
-/
namespace FormatAudit

structure LintRequest where
  root : Text
  linters : List Text
  overrides : Overrides
  fix : Bool
  jobs : Option Nat
  timeout : Option Binary64
  configFile : Option Path
  noEmoji : Bool
  noColor : Bool
  deriving DecidableEq, Repr

inductive Request where
  | help
  | listLinters
  | lint (r : LintRequest)
  deriving DecidableEq, Repr

namespace CommandLine

def helpSwitch : List (Text × Switch) :=
  [("--help".toList, .help)]

def helpOnly : Options := ⟨helpSwitch, [], []⟩

def lintOptions : Options :=
  { switches := helpSwitch ++ [("--fix".toList, .fix), ("--no-emoji".toList, .noEmoji),
      ("--no-color".toList, .noColor)]
    keys := [("--linter".toList, .linter), ("--extensions".toList, .extensions),
      ("--args".toList, .args), ("--prefix".toList, .launcher), ("--jobs".toList, .jobs),
      ("--timeout".toList, .timeout), ("--config".toList, .config)]
    letters := [('l', .linter), ('j', .jobs)] }

def readJobs (n : Numerals) (t : Text) : Except UsageFault Nat :=
  match n.int t with
  | some jobs => if jobs < 1 then .error (.badValue t) else .ok jobs.toNat
  | none => .error (.badValue t)

def leastTimeout : Binary64 :=
  Binary64.ofDecimal false 1 (-1)

def readTimeout (n : Numerals) (t : Text) : Except UsageFault Binary64 :=
  match n.float t with
  | some timeout => if timeout.lt leastTimeout then .error (.badValue t) else .ok timeout
  | none => .error (.badValue t)

def readPath (t : Text) : Except UsageFault Text :=
  if t.contains '\x00' then .error (.badValue t) else .ok t

def readValue {α : Type} (read : Text → Except UsageFault α) (k : Key) (ws : List Word) :
    Except UsageFault (Option α) :=
  match value? k ws with
  | some t => (read t).map some
  | none => .ok none

def readRoot (ws : List Word) : Except UsageFault Text :=
  match operands ws with
  | [] => .ok ['.']
  | [root] => readPath root
  | _ :: extra :: _ => .error (.extraOperand extra)

def lintRequest (n : Numerals) (ws : List Word) : Except UsageFault LintRequest := do
  let jobs ← readValue (readJobs n) .jobs ws
  let timeout ← readValue (readTimeout n) .timeout ws
  let root ← readRoot ws
  let configFile ← readValue readPath .config ws
  return {
    root := root
    linters := valuesOf .linter ws
    overrides := ⟨value? .extensions ws, value? .args ws, value? .launcher ws⟩
    fix := ws.contains (.switch .fix)
    jobs := jobs
    timeout := timeout
    configFile := configFile.map Path.ofText
    noEmoji := ws.contains (.switch .noEmoji)
    noColor := ws.contains (.switch .noColor) }

/-- The request of a command. Help comes before everything that its values could be wrong about. -/
def ofCommand (n : Numerals) (name : Text) (args : List Text) : Except UsageFault Request := do
  if name = "lint".toList then
    let ws ← words lintOptions true args
    if ws.contains (.switch .help) then return .help
    return .lint (← lintRequest n ws)
  else if name = "list".toList then
    let ws ← words helpOnly true args
    if ws.contains (.switch .help) then return .help
    match operands ws with
    | [] => return .listLinters
    | extra :: _ => throw (.extraOperand extra)
  else throw (.unknownCommand name)

end CommandLine

def Request.ofArguments (n : Numerals) (args : List Text) :
    Except CommandLine.UsageFault Request := do
  let ws ← CommandLine.words CommandLine.helpOnly false args
  if ws.contains (.switch .help) then return .help
  match CommandLine.operands ws with
  | [] => throw .noCommand
  | name :: rest => CommandLine.ofCommand n name rest

end FormatAudit
