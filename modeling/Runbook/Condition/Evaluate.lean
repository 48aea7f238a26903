import Runbook.Condition
import Runbook.Number.Numeral
import Runbook.Store
import Runbook.Text.Lower

/-! The truth of a condition over a store of results. -/
namespace Runbook
open Text

/-- A whole number that no float is near to stops a comparison. -/
structure Overflow where
  number : Int
  deriving DecidableEq, Inhabited

namespace Store

/-- The value most recently added. -/
def latest (results : Store) : Value :=
  match results.getLast? with
  | some (_, v) => v
  | none => .null

/-- The first value that is not null under a key with the same text, ignoring case. -/
def lookupFolded (results : Store) (name : String) : Value :=
  match results.find? fun (k, v) => lower k.display == lower name && !v.isNull with
  | some (_, v) => v
  | none => .null

/-- The value of a variable: that of the exact key; for the name `answer` the latest value; that of
a key that differs in case only. A null is passed over each time. -/
def lookup (results : Store) (name : String) : Value :=
  let exact := results.get (.text name)
  if !exact.isNull then exact
  else if lower name == "answer" && !results.latest.isNull then results.latest
  else results.lookupFolded name

end Store

namespace Condition

/-- The number a value is compared as. Flags, and texts that are no numerals, have none. -/
def numberOf : Value → Except Overflow (Option Binary64)
  | .flag _ => pure none
  | .whole n =>
    match Binary64.ofInt? n with
    | some x => pure (some x)
    | none => throw ⟨n⟩
  | .real x => pure (some x)
  | v => pure (Numeral.ofAnswer? v.display)

/-- The text a value is compared as. -/
def textOf : Value → String
  | .null => ""
  | v => lower v.display

/-- Comparison by order: a missing value counts as zero. -/
def ordered (compare : Binary64 → Binary64 → Bool) (actual : Value) (literal : String) :
    Except Overflow Bool := do
  let left ← if actual.isNull then pure (some .zero) else numberOf actual
  match left, Numeral.ofAnswer? literal with
  | some x, some y => pure (compare x y)
  | _, _ => pure false

/-- Equality compares texts and ignores case; order compares numbers. -/
def compareWith (c : Condition) (actual : Value) : Except Overflow Bool :=
  let literal := c.literal.content
  match c.comparison with
  | .eq => pure (textOf actual == lower literal)
  | .ne => pure (textOf actual != lower literal)
  | .gt => ordered (fun x y => y.lt x) actual literal
  | .lt => ordered Binary64.lt actual literal
  | .ge => ordered (fun x y => y.le x) actual literal
  | .le => ordered Binary64.le actual literal

def eval (c : Condition) (results : Store) : Except Overflow Bool :=
  c.compareWith (results.lookup c.name)

/-- The truth of an expression; one that cannot be read is false. -/
def holds (expression : String) (results : Store) : Except Overflow Bool :=
  match parse? expression with
  | some c => c.eval results
  | none => pure false

/-- The truth of an expression that may be missing; a missing one is false. -/
def truth (expression : Option String) (results : Store) : Except Overflow Bool :=
  match expression with
  | some e => holds e results
  | none => pure false

end Condition
end Runbook
