import Runbook.Store
import Runbook.Number.Shortest

/-! Compact JSON text: no blanks, every character as it is but for the quote, the backslash and the
control characters. -/
namespace Runbook.Json
open Runbook.Text

/-- Positional from `0.00001` up to below `10 ^ 16`; else a signed exponent of any length. -/
def floatStyle : Binary64.Style := ⟨-5, 16, true, 1⟩

def escapeChar (c : Char) : List Char :=
  if c == '"' || c == '\\' then ['\\', c]
  else if 32 ≤ c.toNat then [c]
  else match c.toNat with
    | 8 => ['\\', 'b']
    | 9 => ['\\', 't']
    | 10 => ['\\', 'n']
    | 12 => ['\\', 'f']
    | 13 => ['\\', 'r']
    | n => '\\' :: 'u' :: hexDigits 4 n

def quote (s : String) : String :=
  String.ofList ('"' :: s.toList.flatMap escapeChar ++ ['"'])

/-- A number that is not finite has no JSON form and is written as null. -/
def printReal (x : Binary64) : String :=
  if x.isFinite then x.write floatStyle else "null"

mutual

def print : Value → String
  | .null => "null"
  | .flag b => if b then "true" else "false"
  | .whole n => toString n
  | .real x => printReal x
  | .text s => quote s
  | .list items => "[" ++ ",".intercalate (printItems items) ++ "]"
  | .record fields => "\x7b" ++ ",".intercalate (printFields fields) ++ "\x7d"

def printItems : List Value → List String
  | [] => []
  | v :: rest => print v :: printItems rest

def printFields : List (String × Value) → List String
  | [] => []
  | (k, v) :: rest => (quote k ++ ":" ++ print v) :: printFields rest

end

/-- The text a key has in JSON, where only texts can be keys. -/
def keyText : Key → String
  | .text s => s
  | .whole n => toString n
  | .flag b => if b then "true" else "false"
  | .null => "None"

def ofStore (store : Store) : Value :=
  .record (store.map fun (k, v) => (keyText k, v))

end Runbook.Json
