/-! Floating-point numbers of 64 bits, in exact integer arithmetic.

The finite magnitudes are numbered in ascending order: code `c` below `2 ^ 52` stands for `c`
units, and above that each stretch of `2 ^ 52` codes doubles the step, where the unit is
`2 ^ -1074`. So the order of magnitudes is the order of codes, and rounding up past the end of a
stretch needs no care. -/
namespace Runbook

def twoTo (n : Nat) : Nat := Nat.pow 2 n

def tenTo (n : Nat) : Nat := Nat.pow 10 n

/-- Whether a signed word of 64 bits holds a whole number. -/
def fitsWord (n : Int) : Bool := -(twoTo 63 : Int) ≤ n && n < twoTo 63

/-- One more than the largest code of a finite magnitude. -/
def codeLimit : Nat := 2047 * twoTo 52

inductive Binary64 where
  | nan
  | inf (negative : Bool)
  | finite (negative : Bool) (code : Fin codeLimit)
  deriving DecidableEq

namespace Binary64

def zero : Binary64 := .finite false ⟨0, by decide⟩

instance : Inhabited Binary64 := ⟨zero⟩

/-- The magnitude with a given code, counted in units of `2 ^ -1074`. -/
def unitsOf (code : Nat) : Nat :=
  if code < twoTo 52 then code
  else (twoTo 52 + code % twoTo 52) * twoTo (code / twoTo 52 - 1)

/-- How many units make one. -/
def unit : Nat := twoTo 1074

/-- The value in units; a number that is not finite counts as none. -/
def units : Binary64 → Int
  | .finite negative c => if negative then -(unitsOf c : Int) else unitsOf c
  | _ => 0

/-- The magnitude with a given code, or infinity past the last code. -/
def ofCode (negative : Bool) (code : Nat) : Binary64 :=
  if h : code < codeLimit then .finite negative ⟨code, h⟩ else .inf negative

/-- The quotient rounded to the nearest integer, a half going to the even neighbour. -/
def divNearest (a b : Nat) : Nat :=
  let q := a / b
  let r := a % b
  if 2 * r > b || (2 * r == b && q % 2 == 1) then q + 1 else q

/-- How many times the step must be doubled, from the unit on, for a quotient `a / b` of units to
have at most 53 binary digits. -/
def doublings (a b : Nat) : Nat :=
  let d := a.log2 - b.log2 - 52
  if a < twoTo (52 + d) * b then d - 1 else d

/-- The float nearest to `± a / b`; a tie goes to the even code. -/
def ofRatio (negative : Bool) (a b : Nat) : Binary64 :=
  let s := doublings (a * unit) b
  ofCode negative (s * twoTo 52 + divNearest (a * unit) (b * twoTo s))

def ofInt : Int → Binary64
  | .ofNat n => ofRatio false n 1
  | .negSucc n => ofRatio true (n + 1) 1

/-- The nearest float, if it is finite. -/
def ofInt? (n : Int) : Option Binary64 :=
  match ofInt n with
  | .inf _ => none
  | x => some x

/-- A decimal number `± digits · 10 ^ exponent`. -/
structure Decimal where
  negative : Bool
  digits : Nat
  exponent : Int
  deriving DecidableEq, Inhabited

/-- The float nearest to a decimal. Exponents far outside the range are settled by the count of
digits, so that no huge power is built. -/
def ofDecimal (d : Decimal) : Binary64 :=
  let lead : Int := (Nat.toDigits 10 d.digits).length + d.exponent
  if d.digits = 0 || lead < -400 then .finite d.negative ⟨0, by decide⟩
  else if lead > 400 then .inf d.negative
  else if 0 ≤ d.exponent then ofRatio d.negative (d.digits * tenTo d.exponent.toNat) 1
  else ofRatio d.negative d.digits (tenTo (-d.exponent).toNat)

def isNegative : Binary64 → Bool
  | .nan => false
  | .inf n => n
  | .finite n _ => n

def isFinite : Binary64 → Bool
  | .finite _ _ => true
  | _ => false

def isZero : Binary64 → Bool
  | .finite _ c => c.val == 0
  | _ => false

/-- Place on the number line; the two zeros share one place, and `nan` has none. -/
def rank? : Binary64 → Option Int
  | .nan => none
  | .inf n => some (if n then -codeLimit else codeLimit)
  | .finite n c => some (if n then -(c.val : Int) else c.val)

/-- Compares two numbers; every comparison with `nan` fails. -/
def compare (holds : Int → Int → Bool) (x y : Binary64) : Bool :=
  match x.rank?, y.rank? with
  | some a, some b => holds a b
  | _, _ => false

def lt : Binary64 → Binary64 → Bool := compare (fun a b => a < b)

def le : Binary64 → Binary64 → Bool := compare (fun a b => a ≤ b)

/-- Equal as numbers: the zeros agree, and `nan` equals nothing. -/
def same : Binary64 → Binary64 → Bool := compare (fun a b => a == b)

/-- The sum, rounded to nearest. -/
def add : Binary64 → Binary64 → Binary64
  | .nan, _ | _, .nan => .nan
  | .inf a, .inf b => if a == b then .inf a else .nan
  | .inf a, _ => .inf a
  | _, .inf b => .inf b
  | x@(.finite a _), y@(.finite b _) =>
    let sum := x.units + y.units
    if sum = 0 then .finite (a && b) ⟨0, by decide⟩
    else ofRatio (sum < 0) sum.natAbs unit

/-- The integer a float stands for, if it has no fractional part. -/
def toInt? : Binary64 → Option Int
  | x@(.finite _ _) => if x.units % unit = 0 then some (x.units / unit) else none
  | _ => none

end Binary64
end Runbook
