import Runbook.Value.Display
import Runbook.Text.Lower

/-! Variable names made from titles: `What is your issue?` gives `what_is_your_issue`. -/
namespace Runbook.VariableName
open Text

def maxLength : Nat := 30

def isPunctuation (c : Char) : Bool :=
  "?!.,;:\"()[]\x7b\x7d".toList.contains c || c == Char.ofNat 39

def isNameChar (c : Char) : Bool := ('a' ≤ c && c ≤ 'z') || ('0' ≤ c && c ≤ '9')

/-- Keeps name characters and puts one low line for each gap between them; `gap` tells that one is
due. -/
def joinWords (gap : Bool) : List Char → List Char
  | [] => []
  | c :: cs =>
    if isNameChar c then (if gap then ['_', c] else [c]) ++ joinWords false cs
    else joinWords true cs

def dropLowLines (cs : List Char) : List Char :=
  (cs.reverse.dropWhile (· == '_')).reverse

def ofChars (cs : List Char) : List Char :=
  let kept := ((trimChars isBlank cs).filter (!isPunctuation ·))
  let words := joinWords false ((lowerFrom [] kept).dropWhile (!isNameChar ·))
  dropLowLines (words.take maxLength)

/-- The name for a title; titles without a letter or digit that can be kept give none. -/
def ofTitle? (title : String) : Option String :=
  match ofChars title.toList with
  | [] => none
  | cs => some (String.ofList cs)

def ofValue? (title : Value) : Option String :=
  if title.present then ofTitle? title.display else none

end Runbook.VariableName
