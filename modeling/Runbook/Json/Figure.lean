import Runbook.Json.Mistake
import Runbook.Number.Numeral
import Runbook.Value

/-! Numbers in JSON, read by a machine that takes one character at a time. -/
namespace Runbook.Json

/-- Where the machine stands: behind a minus, a lone zero, so many digits of a whole number, a
point, digits of a fraction, the letter of an exponent, its sign, or its digits. -/
inductive Figure where
  | minus
  | zero
  | whole (count : Nat)
  | point
  | fraction
  | letter
  | sign
  | power
  deriving DecidableEq, Inhabited

namespace Figure

/-- Whether a number may end here. -/
def isComplete : Figure → Bool
  | zero | whole _ | fraction | power => true
  | _ => false

/-- Begins a number, where one begins. -/
def begin? (c : Char) : Option Figure :=
  if c == '-' then some .minus
  else if c == '0' then some .zero
  else if c.isDigit then some (.whole 1)
  else none

/-- Goes on behind the digits of a whole number. -/
def afterWhole? (c : Char) : Option Figure :=
  if c == '.' then some .point
  else if c == 'e' || c == 'E' then some .letter
  else none

/-- Takes a character that belongs to the number. -/
def next? (f : Figure) (c : Char) : Option Figure :=
  match f with
  | minus => if c == '0' then some .zero else if c.isDigit then some (.whole 1) else none
  | zero => afterWhole? c
  | whole n => if c.isDigit then some (.whole (n + 1)) else afterWhole? c
  | point => if c.isDigit then some .fraction else none
  | fraction =>
    if c.isDigit then some .fraction
    else if c == 'e' || c == 'E' then some .letter
    else none
  | letter =>
    if c == '+' || c == '-' then some .sign else if c.isDigit then some .power else none
  | sign | power => if c.isDigit then some .power else none

/-- Takes a character, or none if the number ends before it. -/
def step (f : Figure) (c : Char) : Except Flaw (Option Figure) :=
  match f.next? c with
  | some f' => .ok (some f')
  | none =>
    if !f.isComplete || (f == .zero && c.isDigit) then .error .badNumber else .ok none

/-- Whether the number has become too long. -/
def tooLong : Figure → Bool
  | whole n => Numeral.maxDigits < n
  | _ => false

/-- What the characters of a complete number stand for: a fraction or an exponent makes it a
float. -/
def value (f : Figure) (cs : List Char) : Value :=
  match f with
  | zero | whole _ =>
    let (negative, body) := Numeral.sign cs
    let n := Numeral.ofDigits (Numeral.digits Text.latinDigit? body).1
    .whole (if negative then -(n : Int) else n)
  | _ => .real (((Numeral.decimal? Text.latinDigit? cs).map Binary64.ofDecimal).getD .zero)

end Figure
end Runbook.Json
