import Runbook.Fault
import Runbook.Number.Lenient
import Runbook.Value.Display

/-! Lenient reading of raw data. A reading goes on after a fault with a stand-in, so that all faults
of a record are found in the order of its fields; its value counts only when there is none. -/
namespace Runbook

structure Reading (α : Type) where
  value : α
  faults : List Fault

namespace Reading
variable {α β : Type}

instance : Monad Reading where
  pure a := ⟨a, []⟩
  bind r f := ⟨(f r.value).value, r.faults ++ (f r.value).faults⟩

def fault [Inhabited α] (cause : Fault.Cause) : Reading α := ⟨default, [⟨[], cause⟩]⟩

def under (place : Place) (r : Reading α) : Reading α :=
  { r with faults := r.faults.map (·.under place) }

def toExcept (model : String) (r : Reading α) : Except Failure α :=
  if r.faults.isEmpty then .ok r.value else .error (.faults model r.faults)

@[simp] theorem faults_pure (a : α) : (pure a : Reading α).faults = [] := rfl

@[simp] theorem value_pure (a : α) : (pure a : Reading α).value = a := rfl

@[simp] theorem faults_bind (r : Reading α) (f : α → Reading β) :
    (r >>= f).faults = r.faults ++ (f r.value).faults := rfl

@[simp] theorem value_bind (r : Reading α) (f : α → Reading β) :
    (r >>= f).value = (f r.value).value := rfl

@[simp] theorem faults_map (f : α → β) (r : Reading α) : (f <$> r).faults = r.faults :=
  List.append_nil _

@[simp] theorem value_map (f : α → β) (r : Reading α) : (f <$> r).value = f r.value := rfl

def text : Value → Reading String
  | .text s => pure s
  | _ => fault .notText

/-- Null stands for nothing. -/
def optional (read : Value → Reading α) : Value → Reading (Option α)
  | .null => pure none
  | v => some <$> read v

def optionalText : Value → Reading (Option String) := optional text

/-- A text is trimmed, and a blank one stands for nothing. -/
def trimmedText (v : Value) : Reading (Option String) := optionalText v.trimmed

/-- A reference is a text; other values stand for their text. -/
def reference? : Value → Option String
  | .null => none
  | .text s => if Text.allBlank s then none else some (Text.trim s)
  | v => some v.display

def reference (v : Value) : Reading (Option String) := pure (reference? v)

def flagTexts : List (String × Bool) :=
  [("0", false), ("off", false), ("f", false), ("false", false), ("n", false), ("no", false),
    ("1", true), ("on", true), ("t", true), ("true", true), ("y", true), ("yes", true)]

/-- Flags, the numbers zero and one, and the usual words. -/
def flag : Value → Reading Bool
  | .flag b => pure b
  | .whole 0 => pure false
  | .whole 1 => pure true
  | .whole n => fault (if fitsWord n then .flagUnreadable else .notFlag)
  | .real x =>
    match x.toInt? with
    | some 0 => pure false
    | some 1 => pure true
    | some n => if n.natAbs < twoTo 63 then fault .flagUnreadable else fault .notFlag
    | none => fault .notFlag
  | .text s =>
    match flagTexts.lookup (s.map Char.toLower) with
    | some b => pure b
    | none => fault .flagUnreadable
  | _ => fault .notFlag

/-- Integers, flags, floats without a fraction and their texts. -/
def integer : Value → Reading Int
  | .flag b => pure (if b then 1 else 0)
  | .whole n => pure n
  | .real x =>
    if !x.isFinite then fault .notFinite
    else match x.toInt? with
      | none => fault .fractional
      | some n => if n.natAbs < twoTo 63 then pure n else fault .integerTooLong
  | .text s =>
    match Lenient.integer s with
    | .ok n => pure n
    | .error .tooLong => fault .integerTooLong
    | .error .unreadable => fault .integerUnreadable
  | _ => fault .notInteger

def number : Value → Reading Binary64
  | .flag b => pure (Binary64.ofInt (if b then 1 else 0))
  | .whole n =>
    match Binary64.ofInt? n with
    | some x => pure x
    | none => fault .notNumber
  | .real x => pure x
  | .text s =>
    match Lenient.float? s with
    | some x => pure x
    | none => fault .numberUnreadable
  | _ => fault .notNumber

/-- Reads the items of a list, each under its index from `start` on. -/
def items (read : Value → Reading α) (start : Nat) : List Value → Reading (List α)
  | [] => pure []
  | v :: rest => do
    let a ← (read v).under (.item start)
    let as ← items read (start + 1) rest
    pure (a :: as)

def list (carrier : Carrier) (read : Value → Reading α) : Value → Reading (List α)
  | .list vs => items read 0 vs
  | _ => fault (.notList carrier)

/-- Reads the fields of a record, each under its name. -/
def entries (read : Value → Reading α) : List (String × Value) → Reading (List (String × α))
  | [] => pure []
  | (k, v) :: rest => do
    let a ← (read v).under (.field k)
    let as ← entries read rest
    pure ((k, a) :: as)

def mapping (carrier : Carrier) (read : Value → Reading α) : Value → Reading (List (String × α))
  | .record fields => entries read fields
  | _ => fault (.notRecord carrier)

/-- Reads the named model from a record. -/
def model [Inhabited α] (carrier : Carrier) (name : String) (read : Fields → Reading α) :
    Value → Reading α
  | .record fields => read fields
  | _ => fault (.notModel carrier name)

/-- The first of the names that the record has. -/
def used? (fields : Fields) (names : List String) : Option String :=
  names.find? fun n => (fields.get? n).isSome

/-- Reads the field that has the first of the names present, if any has. -/
def field (fields : Fields) (names : List String) (absent : Reading α)
    (read : Value → Reading α) : Reading α :=
  match used? fields names with
  | some n => (read (fields.get n)).under (.field n)
  | none => absent

/-- A field without which the record is faulty. -/
def required [Inhabited α] (fields : Fields) (name : String) (read : Value → Reading α) :
    Reading α :=
  field fields [name] ((fault .missing).under (.field name)) read

end Reading
end Runbook
