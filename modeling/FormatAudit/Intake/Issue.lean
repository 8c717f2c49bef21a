import FormatAudit.Text.Digits

/-!
What can be wrong with untyped data: a cause and the place where it was found. Every cause has a
code and, with one exception, a message.
-/
namespace FormatAudit

namespace Intake

inductive Step where
  | field (name : Text)
  | item (index : Nat)
  deriving DecidableEq, Repr

/-- Whether the data came as values or as a JSON text; the two name containers differently. -/
inductive Form where
  | values
  | json
  deriving DecidableEq, Repr

inductive Cause where
  | missing
  | unknownField
  | notText
  | notInt
  | notIntText
  | notWhole
  | tooLarge
  | notFinite
  | notFloat
  | notFloatText
  | notBool
  | notBoolText
  | notAbove (bound : Int)
  | below (bound : Int)
  | notOneOf (names : List Text)
  | notList
  | notTable
  | notSequence (form : Form)
  | notRecord (form : Form) (name : Text)
  | notPath
  | invalid (reason : Text)
  | frozen
  | noAttribute (name : Text)
  | notJson
  deriving DecidableEq, Repr

def alternatives : List Text → Text
  | [] => []
  | [t] => '\'' :: t ++ ['\'']
  | [s, t] => alternatives [s] ++ " or ".toList ++ alternatives [t]
  | s :: t :: ts => '\'' :: s ++ "', ".toList ++ alternatives (t :: ts)

namespace Cause

def code : Cause → Text
  | .missing => "missing".toList
  | .unknownField => "extra_forbidden".toList
  | .notText => "string_type".toList
  | .notInt => "int_type".toList
  | .notIntText => "int_parsing".toList
  | .notWhole => "int_from_float".toList
  | .tooLarge => "int_parsing_size".toList
  | .notFinite => "finite_number".toList
  | .notFloat => "float_type".toList
  | .notFloatText => "float_parsing".toList
  | .notBool => "bool_type".toList
  | .notBoolText => "bool_parsing".toList
  | .notAbove _ => "greater_than".toList
  | .below _ => "greater_than_equal".toList
  | .notOneOf _ => "enum".toList
  | .notList => "list_type".toList
  | .notTable => "dict_type".toList
  | .notSequence _ => "tuple_type".toList
  | .notRecord .. => "model_type".toList
  | .notPath => "path_type".toList
  | .invalid _ => "value_error".toList
  | .frozen => "frozen_instance".toList
  | .noAttribute _ => "no_such_attribute".toList
  | .notJson => "json_invalid".toList

def message? : Cause → Option Text
  | .missing => some "Field required".toList
  | .unknownField => some "Extra inputs are not permitted".toList
  | .notText => some "Input should be a valid string".toList
  | .notInt => some "Input should be a valid integer".toList
  | .notIntText =>
    some "Input should be a valid integer, unable to parse string as an integer".toList
  | .notWhole =>
    some "Input should be a valid integer, got a number with a fractional part".toList
  | .tooLarge =>
    some "Unable to parse input string as an integer, exceeded maximum size".toList
  | .notFinite => some "Input should be a finite number".toList
  | .notFloat => some "Input should be a valid number".toList
  | .notFloatText => some "Input should be a valid number, unable to parse string as a number".toList
  | .notBool => some "Input should be a valid boolean".toList
  | .notBoolText => some "Input should be a valid boolean, unable to interpret input".toList
  | .notAbove bound => some ("Input should be greater than ".toList ++ Text.ofInt bound)
  | .below bound => some ("Input should be greater than or equal to ".toList ++ Text.ofInt bound)
  | .notOneOf names => some ("Input should be ".toList ++ alternatives names)
  | .notList => some "Input should be a valid list".toList
  | .notTable => some "Input should be a valid dictionary".toList
  | .notSequence .values => some "Input should be a valid tuple".toList
  | .notSequence .json => some "Input should be a valid array".toList
  | .notRecord .values name =>
    some ("Input should be a valid dictionary or instance of ".toList ++ name)
  | .notRecord .json _ => some "Input should be an object".toList
  | .notPath => some "Input is not a valid path for <class 'pathlib.Path'>".toList
  | .invalid reason => some ("Value error, ".toList ++ reason)
  | .frozen => some "Instance is frozen".toList
  | .noAttribute name => some ("Object has no attribute '".toList ++ name ++ ['\''])
  | .notJson => none

end Cause

structure Issue where
  place : List Step
  cause : Cause
  deriving DecidableEq, Repr

structure Rejection where
  record : Text
  issues : List Issue
  deriving DecidableEq, Repr

end Intake

end FormatAudit
