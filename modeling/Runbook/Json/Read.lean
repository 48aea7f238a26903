import Runbook.Json.Figure
import Runbook.Json.Quotation

/-! Reading JSON text, by a machine that takes one character at a time, with the open lists and
records on a stack. It stops at the first character that rules the text out. -/
namespace Runbook.Json

/-- An open list with its items, last first, or an open record with the name whose value is due. -/
inductive Frame where
  | items (done : List Value)
  | fields (done : Fields) (name : String)

/-- Where the machine stands between the parts of a text, or inside one of them. What it has
gathered of a part is kept last character first. -/
inductive Due where
  | value
  | firstItem
  | nextItem
  | firstName
  | nextName (done : Fields)
  | colon (done : Fields) (name : String)
  | more (v : Value)
  | word (v : Value) (left : List Char)
  | number (f : Figure) (gathered : List Char)
  | text (q : Quotation) (gathered : List Char)
  | name (q : Quotation) (gathered : List Char) (done : Fields)

structure Reader where
  due : Due
  stack : List Frame

def isGap (c : Char) : Bool := c == ' ' || c == '\t' || c == '\n' || c == '\r'

def isOpenBrace (c : Char) : Bool := c.toNat = 123

def isCloseBrace (c : Char) : Bool := c.toNat = 125

/-- The words that stand for values, by their first letters. -/
def word? : Char → Option Due
  | 't' => some (.word (.flag true) "rue".toList)
  | 'f' => some (.word (.flag false) "alse".toList)
  | 'n' => some (.word .null "ull".toList)
  | 'N' => some (.word (.real .nan) "aN".toList)
  | 'I' => some (.word (.real (.inf false)) "nfinity".toList)
  | _ => none

def signedWord? : Char → Option Due
  | 'I' => some (.word (.real (.inf true)) "nfinity".toList)
  | _ => none

namespace Reader

def start (limit : Option Nat) (stack : List Frame) (c : Char) : Except Flaw Reader :=
  if limit.any (· < stack.length) then .error .tooDeep
  else if c == '[' then .ok ⟨.firstItem, .items [] :: stack⟩
  else if isOpenBrace c then .ok ⟨.firstName, stack⟩
  else if c == '"' then .ok ⟨.text .plain [], stack⟩
  else match (Figure.begin? c).map (Due.number · [c]) <|> word? c with
    | some due => .ok ⟨due, stack⟩
    | none => .error .noValue

def follow (v : Value) (stack : List Frame) (c : Char) : Except Flaw Reader :=
  if isGap c then .ok ⟨.more v, stack⟩
  else match stack with
    | [] => .error .excess
    | .items done :: outer =>
      if c == ',' then .ok ⟨.nextItem, .items (v :: done) :: outer⟩
      else if c == ']' then .ok ⟨.more (.list (v :: done).reverse), outer⟩
      else .error .noListComma
    | .fields done name :: outer =>
      if c == ',' then .ok ⟨.nextName (done.put name v), outer⟩
      else if isCloseBrace c then .ok ⟨.more (.record (done.put name v)), outer⟩
      else .error .noRecordComma

/-- Takes a character of a number, or what follows the number. -/
def goOn (f : Figure) (gathered : List Char) (stack : List Frame) (c : Char) :
    Except Flaw Reader :=
  match f, signedWord? c with
  | .minus, some due => .ok ⟨due, stack⟩
  | f, _ =>
    match f.step c with
    | .error flaw => .error flaw
    | .ok (some f') => .ok ⟨.number f' (c :: gathered), stack⟩
    | .ok none => follow (f.value gathered.reverse) stack c

/-- Takes a character of quoted text, which ends in the given way. -/
def quoted (q : Quotation) (gathered : List Char) (c : Char) (rest : List Char)
    (inside : Quotation → List Char → Reader) (closed : String → Reader) :
    Except Flaw Reader :=
  match q.step c rest with
  | .error flaw => .error flaw
  | .ok (.take q' read) => .ok (inside q' (read ++ gathered))
  | .ok .close => .ok (closed (String.ofList gathered.reverse))

/-- Takes a character, in view of what follows it. -/
def step (limit : Option Nat) (r : Reader) (c : Char) (rest : List Char) : Except Flaw Reader :=
  match r.due with
  | .value => if isGap c then .ok r else start limit r.stack c
  | .firstItem =>
    if isGap c then .ok r
    else if c == ']' then .ok ⟨.more (.list []), r.stack.drop 1⟩
    else start limit r.stack c
  | .nextItem =>
    if isGap c then .ok r
    else if c == ']' then .error .looseComma
    else start limit r.stack c
  | .firstName =>
    if isGap c then .ok r
    else if c == '"' then .ok ⟨.name .plain [] [], r.stack⟩
    else if isCloseBrace c then .ok ⟨.more (.record []), r.stack⟩
    else .error .noName
  | .nextName done =>
    if isGap c then .ok r
    else if c == '"' then .ok ⟨.name .plain [] done, r.stack⟩
    else if isCloseBrace c then .error .looseComma
    else .error .noName
  | .colon done name =>
    if isGap c then .ok r
    else if c == ':' then .ok ⟨.value, .fields done name :: r.stack⟩
    else .error .noColon
  | .more v => follow v r.stack c
  | .word v left =>
    match left with
    | [] => follow v r.stack c
    | d :: left =>
      if c != d then .error .noWord
      else .ok ⟨if left.isEmpty then .more v else .word v left, r.stack⟩
  | .number f gathered => goOn f gathered r.stack c
  | .text q gathered =>
    quoted q gathered c rest (fun q' g => ⟨.text q' g, r.stack⟩)
      fun s => ⟨.more (.text s), r.stack⟩
  | .name q gathered done =>
    quoted q gathered c rest (fun q' g => ⟨.name q' g done, r.stack⟩)
      fun s => ⟨.colon done s, r.stack⟩

/-- What is missing after a value at the end of the text, if anything is. -/
def close (v : Value) : List Frame → Except Flaw Value
  | [] => .ok v
  | .items _ :: _ => .error .openList
  | .fields .. :: _ => .error .openRecord

def finish (r : Reader) : Except Flaw Value :=
  match r.due with
  | .more v => close v r.stack
  | .number f gathered =>
    if f.isComplete then close (f.value gathered.reverse) r.stack else .error .noEnd
  | .firstItem => .error .openList
  | .firstName | .colon .. => .error .openRecord
  | .text .. | .name .. => .error .openText
  | .value | .nextItem | .nextName _ | .word .. => .error .noEnd

/-- The place of a flaw that a character shows: the end of the text if that comes too early, else
the character. -/
def place (flaw : Flaw) (here : Nat) (c : Char) (rest : List Char) : Nat :=
  match flaw with
  | .openText => here + (String.ofList (c :: rest)).utf8ByteSize
  | _ => here

/-- Whether the number being read has become too long. -/
def overlong (r : Reader) : Bool :=
  match r.due with
  | .number f _ => f.tooLong
  | _ => false

def run (limit : Option Nat) (r : Reader) (here : Nat) : List Char → Except Mistake Value
  | [] =>
    match r.finish with
    | .ok v => .ok v
    | .error flaw => .error ⟨flaw, here⟩
  | c :: rest =>
    match r.step limit c rest with
    | .error flaw => .error ⟨flaw, place flaw here c rest⟩
    | .ok r' =>
      -- the character that is one too many has been taken
      if r'.overlong then .error ⟨.longNumber, here + 1⟩
      else run limit r' (here + c.utf8Size) rest

end Reader

/-- The value a JSON text stands for. A field given twice keeps its first place and its last value.
Not more than `limit` lists and records may be open around another that is not empty. -/
def read (limit : Option Nat) (text : String) : Except Mistake Value :=
  Reader.run limit ⟨.value, []⟩ 0 text.toList

/-- The value a text stands for, however deep it is nested. -/
def read? (text : String) : Option Value := (read none text).toOption

end Runbook.Json
