import Runbook.Number.Numeral

/-! Numbers in texts that someone has entered: digits `0` to `9`, blanks around them, and low lines
as separators that stand neither at an end nor next to each other. An integer may have leading zeros
and a fraction of zeros. -/
namespace Runbook.Lenient
open Runbook.Text Runbook.Numeral

/-- Removes the separators of a text that has some, all of them well placed. -/
def join? (cs : List Char) : Option (List Char) :=
  let doubled := (cs.zip (cs.drop 1)).any fun (a, b) => a == '_' && b == '_'
  if !cs.contains '_' || cs.head? == some '_' || cs.getLast? == some '_' || doubled then none
  else some (cs.filter (· != '_'))

/-- Reads a number. With separators no blanks may stand around it. -/
def float? (s : String) : Option Binary64 :=
  match Numeral.float? latinDigit? (trimChars isSpacing s.toList) with
  | some x => some x
  | none => (join? s.toList).bind (Numeral.float? latinDigit?)

/-- Why a text is no integer. -/
inductive Misread where
  | unreadable
  | tooLong
  deriving DecidableEq, Inhabited

/-- Reads an integer in canonical form: an optional minus and digits, the first of which is zero
only if it is alone. The length counts also where something else follows. -/
def canonical (cs : List Char) : Except Misread Int :=
  let (negative, body) : Bool × List Char := match cs with
    | '-' :: rest => (true, rest)
    | rest => (false, rest)
  match digits latinDigit? body with
  | ([], _) | (0 :: _ :: _, _) => .error .unreadable
  | (ds, rest) =>
    if maxDigits < ds.length then .error .tooLong
    else if rest.isEmpty then .ok (if negative then -(ofDigits ds : Int) else ofDigits ds)
    else .error .unreadable

/-- Drops zeros in front, with the separators among them, where `last` is the one read last. Of a
number that is zero, or zero up to its point, the last character of the row stays. -/
def dropZeros? (last : Char) : List Char → Option (List Char)
  | [] => some [last]
  | c :: rest =>
    if c == '0' || c == '_' then dropZeros? c rest
    else if c == '.' then some (last :: c :: rest)
    else if c == '-' || c.isDigit then some (c :: rest)
    else none

/-- Drops zeros where a number begins. -/
def dropLeading? : List Char → Option (List Char)
  | [] => none
  | c :: rest =>
    if c == '0' then dropZeros? c rest
    else if c == '-' || c.isDigit then some (c :: rest)
    else none

/-- Drops a plus, and the zeros behind it or behind a minus, which stays. -/
def dropFront? : List Char → Option (List Char)
  | '+' :: '-' :: _ => none
  | '+' :: rest => dropLeading? rest
  | '-' :: rest => (dropLeading? rest).map ('-' :: ·)
  | rest => dropLeading? rest

/-- Drops the first point and what follows, if that is zeros and at least one. -/
def dropFraction (cs : List Char) : List Char :=
  let fraction := (cs.dropWhile (· != '.')).drop 1
  if !fraction.isEmpty && fraction.all (· == '0') then cs.takeWhile (· != '.') else cs

/-- Takes away what an integer may have around its canonical form, if there is anything. -/
def tidy? (cs : List Char) : Option (List Char) :=
  (dropFront? (trimChars isSpacing cs)).bind fun front =>
    let core := dropFraction front
    match join? core with
    | some joined => some joined
    | none => if core.length = cs.length then none else some core

/-- Reads an integer: as it stands, or else tidied. -/
def integer (s : String) : Except Misread Int :=
  match canonical s.toList with
  | .error .unreadable =>
    match (tidy? s.toList).map canonical with
    | some (.ok n) => .ok n
    | _ => .error .unreadable
  | result => result

end Runbook.Lenient
