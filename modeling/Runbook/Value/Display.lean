import Runbook.Value
import Runbook.Text.Quoted

/-! The text of a value, as templates, trails and listings show it. -/
namespace Runbook.Value

def flagText (b : Bool) : String := if b then "True" else "False"

mutual

/-- The text of a value inside a list or a record, where texts are quoted. -/
def quoted : Value → String
  | .null => "None"
  | .flag b => flagText b
  | .whole n => (Number.whole n).display
  | .real x => (Number.real x).display
  | .text s => Text.quote s
  | .list items => "[" ++ ", ".intercalate (quotedItems items) ++ "]"
  | .record fields => "\x7b" ++ ", ".intercalate (quotedFields fields) ++ "\x7d"

def quotedItems : List Value → List String
  | [] => []
  | v :: rest => quoted v :: quotedItems rest

def quotedFields : List (String × Value) → List String
  | [] => []
  | (k, v) :: rest => (Text.quote k ++ ": " ++ quoted v) :: quotedFields rest

end

/-- The text of a value on its own, where a text stands for itself. There is one for every value: whole
numbers have no bound on their digits here. -/
def display : Value → String
  | .text s => s
  | v => quoted v

/-- The text a template inserts: nothing for null. -/
def inserted : Value → String
  | .null => ""
  | v => display v

end Runbook.Value
