import Runbook.Number.Binary64
import Runbook.Text.Blank
import Runbook.Text.Digit

/-! Reading numbers from text. A numeral is an optional sign, digits with an optional point, and an
optional exponent; single low lines may stand between its digits as separators. -/
namespace Runbook.Numeral
open Runbook.Text

/-- Splits off a leading sign; the flag tells a minus. -/
def sign : List Char → Bool × List Char
  | '+' :: cs => (false, cs)
  | '-' :: cs => (true, cs)
  | cs => (false, cs)

/-- Splits off the leading digits and gives their values. -/
def digits (value? : Char → Option Nat) : List Char → List Nat × List Char
  | [] => ([], [])
  | c :: cs =>
    match value? c with
    | some d => let (ds, rest) := digits value? cs; (d :: ds, rest)
    | none => ([], c :: cs)

/-- The most digits that an integer may have in data. -/
def maxDigits : Nat := 4300

def ofDigits (ds : List Nat) : Nat := ds.foldl (fun n d => 10 * n + d) 0

/-- The exponent part, which must take all the text that is left. -/
def exponent? (value? : Char → Option Nat) : List Char → Option Int
  | [] => some 0
  | e :: cs =>
    if e == 'e' || e == 'E' then
      let (negative, cs) := sign cs
      match digits value? cs with
      | (d :: ds, []) => some (if negative then -(ofDigits (d :: ds) : Int) else ofDigits (d :: ds))
      | _ => none
    else none

/-- Reads a plain numeral, without separators. At least one digit stands before or after the
point. -/
def decimal? (value? : Char → Option Nat) (cs : List Char) : Option Binary64.Decimal :=
  let (negative, cs) := sign cs
  let (whole, rest) := digits value? cs
  let (fraction, rest) := match rest with
    | '.' :: rest => digits value? rest
    | rest => ([], rest)
  if whole.isEmpty && fraction.isEmpty then none
  else (exponent? value? rest).map fun e =>
    ⟨negative, ofDigits (whole ++ fraction), e - fraction.length⟩

/-- The names of the numbers that are not finite, in any case. -/
def named? (cs : List Char) : Option Binary64 :=
  let (negative, cs) := sign cs
  let name := String.ofList (cs.map Char.toLower)
  if name == "inf" || name == "infinity" then some (.inf negative)
  else if name == "nan" then some .nan
  else none

def float? (value? : Char → Option Nat) (cs : List Char) : Option Binary64 :=
  match named? cs with
  | some x => some x
  | none => (decimal? value? cs).map Binary64.ofDecimal

/-- Removes separators, each of which must stand between two digits. The flag tells whether a digit
stands in front. -/
def joinDigits? (value? : Char → Option Nat) : Bool → List Char → Option (List Char)
  | _, [] => some []
  | afterDigit, '_' :: rest =>
    match afterDigit, rest with
    | true, d :: rest' =>
      if (value? d).isSome then (joinDigits? value? true rest').map (d :: ·) else none
    | _, _ => none
  | _, c :: rest => (joinDigits? value? (value? c).isSome rest).map (c :: ·)

/-- Reads a number from the text of an answer: digits of any script, separators between digits. -/
def ofAnswer? (s : String) : Option Binary64 :=
  (joinDigits? digitValue? false (trimChars isBlank s.toList)).bind (float? digitValue?)

end Runbook.Numeral
