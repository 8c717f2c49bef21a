import FormatAudit.Text.Basic

/-!
The words of a command line. A long option has two hyphens and may have its value behind an equals
sign; a short one has one hyphen and may have its value right behind its letter. A value that is
not attached is the next argument, whatever that looks like.
-/
namespace FormatAudit

namespace CommandLine

inductive Switch where
  | help
  | fix
  | noEmoji
  | noColor
  deriving DecidableEq, Repr

inductive Key where
  | linter
  | extensions
  | args
  | launcher
  | jobs
  | timeout
  | config
  deriving DecidableEq, Repr

structure Options where
  switches : List (Text × Switch)
  keys : List (Text × Key)
  letters : List (Char × Key)

inductive Word where
  | switch (s : Switch)
  | setting (k : Key) (value : Text)
  | operand (t : Text)
  deriving DecidableEq, Repr

inductive UsageFault where
  | unknownOption (given : Text)
  | missingValue (given : Text)
  | unwantedValue (given : Text)
  | badValue (given : Text)
  | extraOperand (given : Text)
  | unknownCommand (given : Text)
  | noCommand
  | notDirectory (given : Text)
  deriving DecidableEq, Repr

def UsageFault.message : UsageFault → Text
  | .unknownOption given => "unknown option: ".toList ++ given
  | .missingValue given => "no value for option: ".toList ++ given
  | .unwantedValue given => "option takes no value: ".toList ++ given
  | .badValue given => "bad value: ".toList ++ given
  | .extraOperand given => "unexpected argument: ".toList ++ given
  | .unknownCommand given => "unknown command: ".toList ++ given
  | .noCommand => "a command is required".toList
  | .notDirectory given => "not a directory: ".toList ++ given

def endOfOptions : Text := ['-', '-']

def isOption : Text → Bool
  | '-' :: _ :: _ => true
  | _ => false

inductive Opening where
  | switch (s : Switch)
  | key (k : Key) (attached : Option Text)
  deriving DecidableEq, Repr

def named {α β : Type} [DecidableEq α] (name : α) (entries : List (α × β)) : Option β :=
  (entries.find? fun e => e.1 = name).map (·.2)

def splitValue (arg : Text) : Text × Option Text :=
  match arg.dropWhile (· != '=') with
  | [] => (arg, none)
  | _ :: value => (arg.takeWhile (· != '='), some value)

def shortOpening (o : Options) (arg : Text) : Except UsageFault Opening :=
  match arg with
  | '-' :: letter :: rest => match named letter o.letters with
    | some k => .ok (.key k (if rest = [] then none else some rest))
    | none => .error (.unknownOption arg)
  | _ => .error (.unknownOption arg)

def opening (o : Options) (arg : Text) : Except UsageFault Opening :=
  let (name, value) := splitValue arg
  match named name o.keys with
  | some k => .ok (.key k value)
  | none => match named name o.switches with
    | some s => if value.isNone then .ok (.switch s) else .error (.unwantedValue arg)
    | none => shortOpening o arg

/-- The words of a command line. Unless options may stand `anywhere`, the first operand ends
them. -/
def words (o : Options) (anywhere : Bool) : List Text → Except UsageFault (List Word)
  | [] => .ok []
  | arg :: rest =>
    if arg = endOfOptions then .ok (rest.map .operand)
    else if isOption arg then
      match opening o arg with
      | .error fault => .error fault
      | .ok (.switch s) => (words o anywhere rest).map (.switch s :: ·)
      | .ok (.key k (some value)) => (words o anywhere rest).map (.setting k value :: ·)
      | .ok (.key k none) => match rest with
        | [] => .error (.missingValue arg)
        | value :: rest => (words o anywhere rest).map (.setting k value :: ·)
    else if anywhere then (words o anywhere rest).map (.operand arg :: ·)
    else .ok ((arg :: rest).map .operand)

def operands (ws : List Word) : List Text :=
  ws.filterMap fun
    | .operand t => some t
    | _ => none

def valuesOf (k : Key) (ws : List Word) : List Text :=
  ws.filterMap fun
    | .setting l value => if l = k then some value else none
    | _ => none

/-- The value that counts for an option that is given more than once. -/
def value? (k : Key) (ws : List Word) : Option Text :=
  (valuesOf k ws).getLast?

end CommandLine

end FormatAudit
