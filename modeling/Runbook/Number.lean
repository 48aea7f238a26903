import Runbook.Number.Shortest

/-! Numbers as values hold them: whole numbers of any size, and floats. -/
namespace Runbook

inductive Number where
  | whole (n : Int)
  | real (x : Binary64)
  deriving DecidableEq, Inhabited

namespace Number

/-- Positional from `0.0001` up to below `10 ^ 16`; else a signed exponent of two digits or more. -/
def floatStyle : Binary64.Style := ⟨-4, 16, true, 2⟩

/-- Whole numbers are written in full, however long they are. An interpreter that bounds the digits
of a number it writes refuses the longer ones; no such bound is part of this. -/
def display : Number → String
  | .whole n => toString n
  | .real x => x.write floatStyle

/-- The nearest float, if a whole number is not too large for one. -/
def toFloat? : Number → Option Binary64
  | .whole n => Binary64.ofInt? n
  | .real x => some x

/-- Equal as numbers; no rounding comes in. -/
def same : Number → Number → Bool
  | .whole a, .whole b => a == b
  | .real x, .real y => x.same y
  | .whole a, .real x | .real x, .whole a => x.toInt? == some a

end Number
end Runbook
