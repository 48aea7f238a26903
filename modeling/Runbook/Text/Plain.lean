/-! Text without the sequences that steer a terminal: an escape character and an opening bracket,
then digits, semicolons and question marks, then a letter. -/
namespace Runbook.Text

def isSteering (c : Char) : Bool := c.isDigit || c == ';' || c == '?'

/-- How many characters a sequence at the front of a text takes; none if there is no sequence. -/
def steeringLength : List Char → Nat
  | c :: '[' :: rest =>
    let body := rest.takeWhile isSteering
    if c.toNat = 27 && (rest.drop body.length).head?.any Char.isAlpha then body.length + 3
    else 0
  | _ => 0

/-- Drops the sequences; `skip` characters of one are still to be dropped. -/
def dropSteering (skip : Nat) : List Char → List Char
  | [] => []
  | c :: rest =>
    match skip with
    | skip + 1 => dropSteering skip rest
    | 0 =>
      match steeringLength (c :: rest) with
      | 0 => c :: dropSteering 0 rest
      | length + 1 => dropSteering length rest

def plain (s : String) : String := String.ofList (dropSteering 0 s.toList)

end Runbook.Text
