import Runbook.Json.Mistake

/-! Quoted text in JSON, read by a machine that takes one character at a time after the opening
quote. -/
namespace Runbook.Json

/-- Where the machine stands. Of a pair of codes that make one character the first one is kept. -/
inductive Quotation where
  | plain
  | escape
  | code (high : Option Nat) (due value : Nat)
  | pairSlash (high : Nat)
  | pairLetter (high : Nat)
  deriving DecidableEq, Inhabited

namespace Quotation

/-- What a character does: it is taken with the characters that it completes, or it ends the text. -/
inductive Move where
  | take (q : Quotation) (read : List Char)
  | close
  deriving DecidableEq, Inhabited

def hexValue? (c : Char) : Option Nat :=
  if c.isDigit then some (c.toNat - 48)
  else if 'a' ≤ c && c ≤ 'f' then some (c.toNat - 87)
  else if 'A' ≤ c && c ≤ 'F' then some (c.toNat - 55)
  else none

def escaped? : Char → Option Char
  | '"' => some '"'
  | '\\' => some '\\'
  | '/' => some '/'
  | 'b' => some (Char.ofNat 8)
  | 'f' => some (Char.ofNat 12)
  | 'n' => some '\n'
  | 'r' => some '\r'
  | 't' => some '\t'
  | _ => none

def isHigh (n : Nat) : Bool := 0xD800 ≤ n && n ≤ 0xDBFF

def isLow (n : Nat) : Bool := 0xDC00 ≤ n && n ≤ 0xDFFF

/-- Takes a complete code; one half of a pair must be followed by the other. -/
def complete (high : Option Nat) (n : Nat) : Except Flaw Move :=
  match high with
  | some h =>
    if isLow n then
      .ok (.take .plain [Char.ofNat (0x10000 + (h - 0xD800) * 0x400 + (n - 0xDC00))])
    else .error .loneHalf
  | none =>
    if isHigh n then .ok (.take (.pairSlash n) [])
    else if isLow n then .error .loneHalf
    else .ok (.take .plain [Char.ofNat n])

/-- Whether four bytes are there for a code. Where they are not, the text ends too early, whatever
they are. -/
def fourBytes (rest : List Char) : Bool :=
  4 ≤ (String.ofList (rest.take 4)).utf8ByteSize

/-- Begins a code behind its letter. -/
def begin (high : Option Nat) (rest : List Char) : Except Flaw Move :=
  if fourBytes rest then .ok (.take (.code high 4 0) []) else .error .openText

/-- Takes a character, in view of what follows it. -/
def step (q : Quotation) (c : Char) (rest : List Char) : Except Flaw Move :=
  match q with
  | plain =>
    if c == '"' then .ok .close
    else if c == '\\' then .ok (.take .escape [])
    else if c.toNat < 32 then .error .control
    else .ok (.take .plain [c])
  | escape =>
    if c == 'u' then begin none rest
    else match escaped? c with
      | some d => .ok (.take .plain [d])
      | none => .error .badEscape
  | code high due value =>
    match hexValue? c with
    | none => .error .badEscape
    | some d =>
      if due ≤ 1 then complete high (value * 16 + d)
      else .ok (.take (.code high (due - 1) (value * 16 + d)) [])
  | pairSlash high =>
    if c != '\\' then .error .cutPair
    else if rest.isEmpty then .error .openText
    else .ok (.take (.pairLetter high) [])
  | pairLetter high => if c == 'u' then begin (some high) rest else .error .cutPair

end Quotation
end Runbook.Json
