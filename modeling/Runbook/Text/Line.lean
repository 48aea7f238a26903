/-! Lines of a text, and their ends. -/
namespace Runbook.Text

/-- Splits what someone types at line feeds, at carriage returns and at the pair of the two; the last
line needs no end. `line` is the part of the current line that is read, last character first. -/
def splitLines (line : List Char) : List Char → List (List Char)
  | [] => if line.isEmpty then [] else [line.reverse]
  | '\r' :: '\n' :: rest => line.reverse :: splitLines [] rest
  | c :: rest =>
    if c = '\n' || c = '\r' then line.reverse :: splitLines [] rest
    else splitLines (c :: line) rest

/-- Writes a line feed alone for each pair of a carriage return and a line feed. -/
def joinEnds : List Char → List Char
  | '\r' :: '\n' :: rest => '\n' :: joinEnds rest
  | c :: rest => c :: joinEnds rest
  | [] => []

def withLineFeeds (s : String) : String := String.ofList (joinEnds s.toList)

def lines (s : String) : List String := (splitLines [] s.toList).map String.ofList

end Runbook.Text
