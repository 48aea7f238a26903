import Runbook.Text.Quoted
import Runbook.Timestamp
import Runbook.Value.Height

/-! Faults found in raw data, and the failures of the library. -/
namespace Runbook

/-- A step on the way to a place inside raw data. -/
inductive Place where
  | field (name : String)
  | item (index : Int)
  deriving DecidableEq, Inhabited

/-- What raw data can be read from: values as given, or JSON text. -/
inductive Carrier where
  | data
  | json
  deriving DecidableEq, Inhabited

namespace Fault

inductive Cause where
  | notText
  | notList (carrier : Carrier)
  | notRecord (carrier : Carrier)
  | notFlag
  | flagUnreadable
  | notInteger
  | integerUnreadable
  | integerTooLong
  | fractional
  | notFinite
  | notNumber
  | numberUnreadable
  | notPositive
  | notStatus
  | missing
  | notModel (carrier : Carrier) (model : String)
  | notStep
  | noType
  | unknownType (given : String)
  | notTime
  | timeUnreadable (why : Timestamp.Flaw)
  | dateUnreadable (why : Timestamp.Flaw)
  /-- The text is no JSON; `what` says why and where. -/
  | badJson (what : String)
  deriving DecidableEq, Inhabited

namespace Cause

def kind : Cause → String
  | .notText => "string_type"
  | .notList _ => "list_type"
  | .notRecord _ => "dict_type"
  | .notFlag => "bool_type"
  | .flagUnreadable => "bool_parsing"
  | .notInteger => "int_type"
  | .integerUnreadable => "int_parsing"
  | .integerTooLong => "int_parsing_size"
  | .fractional => "int_from_float"
  | .notFinite => "finite_number"
  | .notNumber => "float_type"
  | .numberUnreadable => "float_parsing"
  | .notPositive => "greater_than"
  | .notStatus => "enum"
  | .missing => "missing"
  | .notModel .. => "model_type"
  | .notStep => "model_attributes_type"
  | .noType => "union_tag_not_found"
  | .unknownType _ => "union_tag_invalid"
  | .notTime => "datetime_type"
  | .timeUnreadable _ => "datetime_parsing"
  | .dateUnreadable _ => "datetime_from_date_parsing"
  | .badJson _ => "json_invalid"

/-- The types a step may have, as the message about an unknown one lists them. -/
def expectedTypes : String :=
  "'question', 'decision', 'simple_decision', 'action', 'checkpoint', 'sub_flow', 'message', " ++
    "'escalate', 'resolve'"

def message : Cause → String
  | .notText => "Input should be a valid string"
  | .notList .data => "Input should be a valid list"
  | .notList .json => "Input should be a valid array"
  | .notRecord .data => "Input should be a valid dictionary"
  | .notRecord .json | .notModel .json _ => "Input should be an object"
  | .notFlag => "Input should be a valid boolean"
  | .flagUnreadable => "Input should be a valid boolean, unable to interpret input"
  | .notInteger => "Input should be a valid integer"
  | .integerUnreadable =>
    "Input should be a valid integer, unable to parse string as an integer"
  | .integerTooLong => "Unable to parse input string as an integer, exceeded maximum size"
  | .fractional => "Input should be a valid integer, got a number with a fractional part"
  | .notFinite => "Input should be a finite number"
  | .notNumber => "Input should be a valid number"
  | .numberUnreadable => "Input should be a valid number, unable to parse string as a number"
  | .notPositive => "Input should be greater than 0"
  | .notStatus => "Input should be 'active', 'completed', 'stopped', 'timeout' or 'error'"
  | .missing => "Field required"
  | .notModel .data model => "Input should be a valid dictionary or instance of " ++ model
  | .notStep => "Input should be a valid dictionary or object to extract fields from"
  | .noType => "Unable to extract tag using discriminator 'type'"
  | .unknownType given =>
    "Input tag '" ++ given ++ "' found using 'type' does not match any of the expected tags: " ++
      expectedTypes
  | .notTime => "Input should be a valid datetime"
  | .timeUnreadable why => "Input should be a valid datetime, " ++ why.message
  | .dateUnreadable why => "Input should be a valid datetime or date, " ++ why.message
  | .badJson what => "Invalid JSON: " ++ what

end Cause
end Fault

structure Fault where
  path : List Place
  cause : Fault.Cause
  deriving DecidableEq, Inhabited

def Fault.under (place : Place) (f : Fault) : Fault := { f with path := place :: f.path }

/-- Why a call of the library gave no result. -/
inductive Failure where
  /-- Raw data for the named model has faults. -/
  | faults (model : String) (faults : List Fault)
  /-- A workflow cannot be used, for the problems listed. -/
  | problems (problems : List String)
  /-- The branches of a decision are a single value of that kind. -/
  | notIterable (kind : String)
  /-- A variable name is a list or a record. -/
  | unhashable (kind : String)
  /-- A whole number in a comparison by order, or a ceiling on time, is too large for a float. -/
  | tooLarge
  /-- An input is not of the form `name=value`; its quoted text is kept. -/
  | badPair (quoted : String)
  /-- A value is nested too deep to be written as JSON text. -/
  | tooDeepForText (why : Value.DepthFlaw)
  /-- A value is nested too deep to be written as the data of a file. -/
  | tooDeepForData (why : Value.DepthFlaw)
  /-- A path leads to a folder where a file is wanted. -/
  | isFolder (path : String)
  /-- A file stands where a path needs a folder. -/
  | notFolder (path : String)
  /-- The folder for a new file does not exist. -/
  | noFolder (path : String)
  /-- A path, or a part of it, is longer than it can be. -/
  | longName (path : String)
  /-- A file of settings holds no record. -/
  | notSettings
  /-- A file of a definition holds no record. -/
  | notDefinition (file : String)
  deriving DecidableEq, Inhabited

def Failure.message : Failure → String
  | .faults name _ => "faults in " ++ name
  | .problems list => "; ".intercalate list
  | .notIterable kind => "'" ++ kind ++ "' object is not iterable"
  | .unhashable kind => "unhashable type: '" ++ kind ++ "'"
  | .tooLarge => "int too large to convert to float"
  | .badPair quoted => "Expected name=value, got " ++ quoted
  | .tooDeepForText why => "Error serializing to JSON: ValueError: " ++ why.message
  | .tooDeepForData why => why.message
  | .isFolder path => "[Errno 21] Is a directory: " ++ Text.quote path
  | .notFolder path => "[Errno 20] Not a directory: " ++ Text.quote path
  | .noFolder path => "[Errno 2] No such file or directory: " ++ Text.quote path
  | .longName path => "[Errno 36] File name too long: " ++ Text.quote path
  | .notSettings => ""
  | .notDefinition file => file ++ " does not contain a workflow mapping"

end Runbook
