import FormatAudit.Discovery.Search
import FormatAudit.Intake.Issue
import FormatAudit.ShellWords

/-!
What can go wrong, as causes. The wording of each cause is in one place.
-/
namespace FormatAudit

inductive ConfigFault where
  | absent (path : Text)
  | unreadable (path : Text) (error : FileError)
  | malformed (path : Text)
  | invalid (path : Text) (issues : List Intake.Issue)
  | noExtensionNamed (given : Text)
  deriving DecidableEq, Repr

def ConfigFault.message : ConfigFault → Text
  | .absent path => "Configuration file ".toList ++ path ++ " does not exist".toList
  | .unreadable path error =>
    "Unable to read configuration at ".toList ++ path ++ ": ".toList ++ error.message
  | .malformed path => "Invalid TOML in ".toList ++ path
  | .invalid path _ => "Invalid configuration in ".toList ++ path
  | .noExtensionNamed given =>
    "--extensions must name at least one extension, got ".toList ++ Text.quoted given

/-- The kinds of failure that the system reports by a name of its own. A linter survives those of
the system and those about a value. The end of the input, an interruption and a departure ask the
whole program to end. -/
inductive ForeignKind where
  | system
  | value
  | endOfInput
  | interruption
  | departure
  | other
  deriving DecidableEq, Repr

inductive TimeoutFault where
  | tooLarge
  | text
  | list
  | table
  deriving DecidableEq, Repr

def TimeoutFault.message : TimeoutFault → Text
  | .tooLarge => "int too large to convert to float".toList
  | .text => "Unknown format code 'f' for object of type 'str'".toList
  | .list => "unsupported format string passed to list.__format__".toList
  | .table => "unsupported format string passed to dict.__format__".toList

/-- Why a value is no environment: it is no list of pairs, or one of its items, at a place counted
from zero, is none, or a name is a list or a table. -/
inductive EnvironmentFault where
  | notList (kind : Text)
  | notPair (place size : Nat)
  | notItems (place : Nat)
  | badName (kind : Text)
  deriving DecidableEq, Repr

def EnvironmentFault.message : EnvironmentFault → Text
  | .notList kind => '\'' :: kind ++ "' object is not iterable".toList
  | .notPair place size =>
    "dictionary update sequence element #".toList ++ Text.ofNat place ++ " has length ".toList ++
      Text.ofNat size ++ "; 2 is required".toList
  | .notItems place =>
    "cannot convert dictionary update sequence element #".toList ++ Text.ofNat place ++
      " to a sequence".toList
  | .badName kind => "unhashable type: '".toList ++ kind ++ ['\'']

inductive Failure where
  | rejected (rejection : Intake.Rejection)
  | config (fault : ConfigFault)
  | notUtf8
  | longInteger (digits : Nat)
  | search (fault : Search.Fault)
  | quoting (fault : ShellWords.Fault)
  | file (error : FileError)
  | linkLoop (path : Text)
  | notInstalled (linter program : Text)
  | unknownLinter (name : Text)
  | alreadyRegistered (name : Text)
  | emptyCommand
  | notOnPath (program : Text)
  | unknownOptions (names : List Text)
  | negativeTimeout
  | tooManyProcessors
  | environment (fault : EnvironmentFault)
  | timeout (fault : TimeoutFault)
  | exited (command : List Text) (code : Int) (stdout stderr : Option Text)
  | foreign (kind : ForeignKind) (name message : Text)
  deriving DecidableEq, Repr

namespace Failure

def shownStderr (stderr : Option Text) : Text :=
  if stderr.getD [] = [] then "<none>".toList else stderr.getD []

def message : Failure → Text
  | .rejected _ => []
  | .config fault => fault.message
  | .notUtf8 => []
  | .longInteger digits =>
    "Exceeds the limit (4300 digits) for integer string conversion: value has ".toList ++
      Text.ofNat digits ++ " digits; use sys.set_int_max_str_digits() to increase the limit".toList
  | .search fault => fault.message
  | .quoting fault => fault.message
  | .file error => error.message
  | .linkLoop path => "Symlink loop from ".toList ++ Text.quoted path
  | .notInstalled linter program =>
    program ++ " is not installed (required by ".toList ++ linter ++ [')']
  | .unknownLinter name => "Unknown linter '".toList ++ name ++ ['\'']
  | .alreadyRegistered name => "Linter '".toList ++ name ++ "' already registered".toList
  | .emptyCommand => "subprocess command requires at least one argument".toList
  | .notOnPath program => "Executable '".toList ++ program ++ "' was not found on PATH".toList
  | .unknownOptions names =>
    "Unknown command option(s): ".toList ++ ", ".toList.intercalate names
  | .negativeTimeout => "timeout override must be non-negative".toList
  | .tooManyProcessors => "int too large to convert to float".toList
  | .environment fault => fault.message
  | .timeout fault => fault.message
  | .exited command code _ stderr =>
    "Command '".toList ++ command.headD [] ++ "' exited with status ".toList ++ Text.ofInt code ++
      ". stderr: ".toList ++ shownStderr stderr
  | .foreign _ _ message => message

def isOfCommand : Failure → Bool
  | .file _ | .emptyCommand | .notOnPath _ | .negativeTimeout | .exited .. => true
  | .timeout fault => fault = .text
  | .environment (.notPair ..) => true
  | .foreign kind _ _ => kind = .system || kind = .value
  | _ => false

def isOfUser : Failure → Bool
  | .config _ | .unknownLinter _ => true
  | _ => false

end Failure

end FormatAudit
