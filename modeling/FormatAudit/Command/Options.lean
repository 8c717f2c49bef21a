import FormatAudit.Number.Binary64
import FormatAudit.Session

/-!
The options of a command. Overrides replace options by name; they may hold any value.
-/
namespace FormatAudit

namespace Command

def optionNames : List Text :=
  ["cwd".toList, "env".toList, "check".toList, "capture_output".toList, "text".toList,
    "timeout".toList, "discard_stdin".toList]

structure Options where
  directory : Value
  environment : Value
  check : Value
  captureOutput : Value
  asText : Value
  timeout : Value
  discardInput : Value

namespace Options

def standard : Options :=
  ⟨.null, .null, .bool true, .bool false, .bool true, .null, .bool false⟩

def set (o : Options) (name : Text) (v : Value) : Options :=
  if name = "cwd".toList then { o with directory := v }
  else if name = "env".toList then { o with environment := v }
  else if name = "check".toList then { o with check := v }
  else if name = "capture_output".toList then { o with captureOutput := v }
  else if name = "text".toList then { o with asText := v }
  else if name = "timeout".toList then { o with timeout := v }
  else if name = "discard_stdin".toList then { o with discardInput := v }
  else o

def setAll (o : Options) (overrides : Fields) : Options :=
  overrides.foldl (fun o f => o.set f.1 f.2) o

def isNegative : Value → Bool
  | .int n => n < 0
  | .float x => x.isNegative
  | _ => false

def unknown (overrides : Fields) : List Text :=
  (overrides.map (·.1)).filter fun name => !optionNames.contains name

def override (o : Options) (overrides : Fields) : Except Failure Options :=
  if unknown overrides ≠ [] then
    .error (.unknownOptions ((unknown overrides).mergeSort Text.le))
  else if isNegative ((overrides.get? "timeout".toList).getD o.timeout) then
    .error .negativeTimeout
  else .ok (o.setAll overrides)

def toFields (o : Options) : Fields :=
  [("cwd".toList, o.directory), ("env".toList, o.environment), ("check".toList, o.check),
    ("capture_output".toList, o.captureOutput), ("text".toList, o.asText),
    ("timeout".toList, o.timeout), ("discard_stdin".toList, o.discardInput)]

end Options

end Command

end FormatAudit
