import Runbook.Number
import Runbook.Text.Blank

/-! Values of answers, results and raw definitions. -/
namespace Runbook

inductive Value where
  | null
  | flag (b : Bool)
  | whole (n : Int)
  | real (x : Binary64)
  | text (s : String)
  | list (items : List Value)
  | record (fields : List (String × Value))
  deriving Inhabited

/-- The fields of a record, in order. -/
abbrev Fields := List (String × Value)

namespace Fields

/-- The first field of that name. -/
def get? : Fields → String → Option Value
  | [], _ => none
  | (k, v) :: rest, name => if k == name then some v else get? rest name

/-- The value of a field, null if there is none. -/
def get (fields : Fields) (name : String) : Value := (fields.get? name).getD .null

/-- Sets a field; a new one goes last, an old one keeps its place. -/
def put : Fields → String → Value → Fields
  | [], name, v => [(name, v)]
  | (k, w) :: rest, name, v => if k == name then (k, v) :: rest else (k, w) :: put rest name v

def without (names : List String) (fields : Fields) : Fields :=
  fields.filter fun (k, _) => !names.contains k

theorem get?_put_self (fields : Fields) (name : String) (v : Value) :
    (fields.put name v).get? name = some v := by
  induction fields with
  | nil => simp [put, get?]
  | cons head rest ih => by_cases h : head.1 == name <;> simp_all [put, get?]

theorem get?_put_ne (fields : Fields) {name other : String} (v : Value) (h : name ≠ other) :
    (fields.put name v).get? other = fields.get? other := by
  induction fields with
  | nil => simp [put, get?, h]
  | cons head rest ih =>
    by_cases hk : head.1 = name
    · simp [put, get?, hk, h]
    · by_cases ho : head.1 = other
      · subst ho; simp [put, get?, hk]
      · simp [put, get?, hk, ho, ih]

end Fields

namespace Value

def ofText? : Option String → Value
  | some s => .text s
  | none => .null

def isNull : Value → Bool
  | .null => true
  | _ => false

/-- Holds of every value but null, zero and the empty ones. -/
def truthy : Value → Bool
  | .null => false
  | .flag b => b
  | .whole n => n ≠ 0
  | .real x => !x.isZero
  | .text s => !s.isEmpty
  | .list items => !items.isEmpty
  | .record fields => !fields.isEmpty

/-- Holds of every value but null and a text of blanks. -/
def present : Value → Bool
  | .null => false
  | .text s => !Text.allBlank s
  | _ => true

/-- Trims a text and takes a blank one for null. -/
def trimmed : Value → Value
  | .text s => if Text.allBlank s then .null else .text (Text.trim s)
  | v => v

/-- The number a flag or a number stands for. -/
def number? : Value → Option Number
  | .flag b => some (.whole (if b then 1 else 0))
  | .whole n => some (.whole n)
  | .real x => some (.real x)
  | _ => none

mutual

/-- Equal as data: numbers and flags compare by number, and the order of fields does not count. -/
def same : Value → Value → Bool
  | .null, .null => true
  | .text s, .text t => s == t
  | .list xs, .list ys => sameItems xs ys
  | .record xs, .record ys => xs.length == ys.length && sameFields xs ys
  | v, w =>
    match v.number?, w.number? with
    | some a, some b => a.same b
    | _, _ => false

def sameItems : List Value → List Value → Bool
  | [], [] => true
  | x :: xs, y :: ys => same x y && sameItems xs ys
  | _, _ => false

/-- Every field of the first record is in the second. -/
def sameFields : List (String × Value) → List (String × Value) → Bool
  | [], _ => true
  | (k, x) :: xs, ys =>
    (match Fields.get? ys k with
      | some y => same x y
      | none => false) && sameFields xs ys

end

end Value
end Runbook
