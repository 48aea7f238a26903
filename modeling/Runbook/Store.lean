import Runbook.Value.Display

/-! Stores: the ordered mappings that hold results, inputs and template variables. -/
namespace Runbook

/-- Keys are nearly always texts; a caller may also use a number, a flag or null as a key. -/
inductive Key where
  | text (s : String)
  | whole (n : Int)
  | flag (b : Bool)
  | null
  deriving DecidableEq, Inhabited

namespace Key

def toValue : Key → Value
  | .text s => .text s
  | .whole n => .whole n
  | .flag b => .flag b
  | .null => .null

def display (k : Key) : String := k.toValue.display

/-- Two keys that share one place; a flag shares the place of its number. -/
def same (k l : Key) : Bool := k.toValue.same l.toValue

theorem same_text (s t : String) : same (.text s) (.text t) = (s == t) := rfl

@[simp] theorem same_self (k : Key) : k.same k = true := by
  cases k <;> simp [same, toValue, Value.same, Value.number?, Number.same]

end Key

abbrev Store := List (Key × Value)

namespace Store

def get? : Store → Key → Option Value
  | [], _ => none
  | (k, v) :: rest, key => if k.same key then some v else get? rest key

/-- The value at a key, null if there is none. -/
def get (store : Store) (key : Key) : Value := (store.get? key).getD .null

/-- Sets a value; a new key goes last, an old one keeps its place and its spelling. -/
def put : Store → Key → Value → Store
  | [], key, v => [(key, v)]
  | (k, w) :: rest, key, v => if k.same key then (k, v) :: rest else (k, w) :: put rest key v

/-- Sets the value under a text, unless the text is empty. -/
def record (store : Store) (name : String) (v : Value) : Store :=
  if name.isEmpty then store else store.put (.text name) v

/-- Puts all entries of the second store, in order, into the first. -/
def merge (store added : Store) : Store :=
  added.foldl (fun s (k, v) => s.put k v) store

/-- The same keys with the same values, in any order. -/
def same (s t : Store) : Bool :=
  s.length == t.length && s.all fun (k, v) => (t.get? k).any v.same

def ofPairs (pairs : List (Key × Value)) : Store := merge [] pairs

@[simp] theorem get?_put_self (store : Store) (key : Key) (v : Value) :
    (store.put key v).get? key = some v := by
  induction store with
  | nil => simp [put, get?]
  | cons head rest ih => by_cases h : head.1.same key = true <;> simp_all [put, get?]

@[simp] theorem get_put_self (store : Store) (key : Key) (v : Value) :
    (store.put key v).get key = v := by
  simp [get]

end Store
end Runbook
