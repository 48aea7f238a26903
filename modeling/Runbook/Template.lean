import Runbook.Store
import Runbook.Text.Word

/-! Templates: texts with `{{name}}` slots that take the values of variables. -/
namespace Runbook.Template
open Text

inductive Piece where
  | plain (c : Char)
  | slot (name : String)
  deriving DecidableEq, Inhabited

/-- The name of the slot that starts here: two opening braces, word characters, two closing ones. -/
def slotName? : List Char → Option (List Char)
  | '\x7b' :: '\x7b' :: cs =>
    match cs.takeWhile isWord, cs.dropWhile isWord with
    | name@(_ :: _), '\x7d' :: '\x7d' :: _ => some name
    | _, _ => none
  | _ => none

/-- Cuts a text into pieces from left to right; `skip` characters belong to the slot before. -/
def piecesFrom : Nat → List Char → List Piece
  | _, [] => []
  | skip + 1, _ :: cs => piecesFrom skip cs
  | 0, c :: cs =>
    match slotName? (c :: cs) with
    | some name => .slot (String.ofList name) :: piecesFrom (name.length + 3) cs
    | none => .plain c :: piecesFrom 0 cs

def pieces (text : String) : List Piece := piecesFrom 0 text.toList

def Piece.source : Piece → List Char
  | .plain c => [c]
  | .slot name => '\x7b' :: '\x7b' :: name.toList ++ ['\x7d', '\x7d']

def Piece.name? : Piece → Option String
  | .plain _ => none
  | .slot name => some name

/-- The last value whose key has that text. -/
def binding? (values : Store) (name : String) : Option Value :=
  (values.reverse.find? fun (k, _) => k.display == name).map (·.2)

/-- A slot takes the text of its variable; an unknown one stays as it is. -/
def Piece.fill (values : Store) : Piece → List Char
  | .plain c => [c]
  | .slot name =>
    match binding? values name with
    | some v => v.inserted.toList
    | none => (Piece.slot name).source

/-- Fills all slots in one pass: inserted text is not looked at again. -/
def fill (values : Store) (text : String) : String :=
  String.ofList ((pieces text).flatMap (Piece.fill values))

/-- The names of the slots, each once, in order of first use. -/
def names (text : String) : List String := ((pieces text).filterMap Piece.name?).eraseDups

def hasSlots (text : String) : Bool := (pieces text).any (·.name?.isSome)

end Runbook.Template
