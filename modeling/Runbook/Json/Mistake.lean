/-! What can be wrong with JSON text, and where. -/
namespace Runbook.Json

inductive Flaw where
  /-- The text ends inside a list, a record or a quoted text, or where a value is due. -/
  | openList
  | openRecord
  | openText
  | noEnd
  /-- Something else stands where a value, a known word, a name or a mark is due. -/
  | noValue
  | noWord
  | noName
  | noColon
  | noListComma
  | noRecordComma
  /-- A comma stands before the end of a list or a record. -/
  | looseComma
  /-- Something follows the value. -/
  | excess
  | badNumber
  | longNumber
  | badEscape
  /-- The first half of a pair of codes is not followed by another code, or a half stands alone. -/
  | cutPair
  | loneHalf
  | control
  | tooDeep
  deriving DecidableEq, Inhabited

def Flaw.message : Flaw → String
  | .openList => "EOF while parsing a list"
  | .openRecord => "EOF while parsing an object"
  | .openText => "EOF while parsing a string"
  | .noEnd => "EOF while parsing a value"
  | .noValue => "expected value"
  | .noWord => "expected ident"
  | .noName => "key must be a string"
  | .noColon => "expected `:`"
  | .noListComma => "expected `,` or `]`"
  | .noRecordComma => "expected `,` or `\x7d`"
  | .looseComma => "trailing comma"
  | .excess => "trailing characters"
  | .badNumber => "invalid number"
  | .longNumber => "number out of range"
  | .badEscape => "invalid escape"
  | .cutPair => "unexpected end of hex escape"
  | .loneHalf => "lone leading surrogate in hex escape"
  | .control => "control character (\\u0000-\\u001F) found while parsing a string"
  | .tooDeep => "recursion limit exceeded"

/-- A flaw and the place where it shows, in bytes from the start of the text. -/
structure Mistake where
  flaw : Flaw
  offset : Nat
  deriving DecidableEq, Inhabited

/-- The line and the column of a byte. A newline has column zero of the line it opens, and the end
of the text has the column of its last byte. -/
def locate (offset : Nat) : (line start here : Nat) → List Char → Nat × Nat
  | line, start, here, [] => (line, here - start)
  | line, start, here, c :: rest =>
    let (line, start) := if c == '\n' then (line + 1, here + 1) else (line, start)
    if offset < here + c.utf8Size then (line, offset + 1 - start)
    else locate offset line start (here + c.utf8Size) rest

def Mistake.describe (m : Mistake) (text : String) : String :=
  let (line, column) := locate m.offset 1 0 0 text.toList
  m.flaw.message ++ " at line " ++ toString line ++ " column " ++ toString column

end Runbook.Json
