import Runbook.Text.Blank
import Runbook.Text.Digit
import Runbook.Text.Word
import Runbook.Text.Quoted

/-! Conditions: a variable compared with a literal, as in `count >= 10` or `state == 'open'`. -/
namespace Runbook
open Text

inductive Comparison where
  | eq
  | ne
  | ge
  | le
  | gt
  | lt
  deriving DecidableEq, Inhabited

def Comparison.symbol : Comparison → String
  | .eq => "=="
  | .ne => "!="
  | .ge => ">="
  | .le => "<="
  | .gt => ">"
  | .lt => "<"

inductive Literal where
  | quoted (s : String)
  | numeral (s : String)
  deriving DecidableEq, Inhabited

/-- The text of a literal, without its quotes. -/
def Literal.content : Literal → String
  | .quoted s | .numeral s => s

def Literal.isNumeral : Literal → Bool
  | .numeral _ => true
  | .quoted _ => false

structure Condition where
  name : String
  comparison : Comparison
  literal : Literal
  deriving DecidableEq, Inhabited

namespace Condition

def skipBlanks (cs : List Char) : List Char := cs.dropWhile isBlank

/-- Splits off a comparison symbol, the longer one first. -/
def comparison? : List Char → Option (Comparison × List Char)
  | '=' :: '=' :: cs => some (.eq, cs)
  | '!' :: '=' :: cs => some (.ne, cs)
  | '>' :: '=' :: cs => some (.ge, cs)
  | '<' :: '=' :: cs => some (.le, cs)
  | '>' :: cs => some (.gt, cs)
  | '<' :: cs => some (.lt, cs)
  | _ => none

/-- Splits off an optional sign. -/
def signPart : List Char → List Char × List Char
  | '+' :: cs => (['+'], cs)
  | '-' :: cs => (['-'], cs)
  | cs => ([], cs)

/-- Splits off a point and the digits behind it, if there are any. -/
def fractionPart : List Char → List Char × List Char
  | '.' :: cs =>
    match cs.takeWhile isDigit with
    | [] => ([], '.' :: cs)
    | ds => ('.' :: ds, cs.dropWhile isDigit)
  | cs => ([], cs)

def numeral? (cs : List Char) : Option (Literal × List Char) :=
  let (sign, cs) := signPart cs
  match cs.takeWhile isDigit with
  | [] => none
  | whole =>
    let (fraction, rest) := fractionPart (cs.dropWhile isDigit)
    some (.numeral (String.ofList (sign ++ whole ++ fraction)), rest)

/-- Splits off the text up to the closing mark. -/
def quoted? (mark : Char) (cs : List Char) : Option (Literal × List Char) :=
  match cs.dropWhile (· != mark) with
  | [] => none
  | _ :: rest => some (.quoted (String.ofList (cs.takeWhile (· != mark))), rest)

def literal? : List Char → Option (Literal × List Char)
  | [] => none
  | c :: cs => if c == singleQuote || c == doubleQuote then quoted? c cs else numeral? (c :: cs)

def parseChars? (cs : List Char) : Option Condition := do
  let cs := skipBlanks cs
  let name := cs.takeWhile isWord
  if name.isEmpty then none
  let (comparison, cs) ← comparison? (skipBlanks (cs.dropWhile isWord))
  let (literal, cs) ← literal? (skipBlanks cs)
  if cs.all isBlank then some ⟨String.ofList name, comparison, literal⟩ else none

/-- Reads a condition; blanks may stand around each of its three parts. -/
def parse? (expression : String) : Option Condition := parseChars? expression.toList

def isValid (expression : String) : Bool := (parse? expression).isSome

/-- Writes a condition with the given quotation mark around a quoted literal. -/
def render (mark : Char) (c : Condition) : String :=
  let literal := match c.literal with
    | .quoted s => String.singleton mark ++ s ++ String.singleton mark
    | .numeral s => s
  c.name ++ " " ++ c.comparison.symbol ++ " " ++ literal

end Condition
end Runbook
