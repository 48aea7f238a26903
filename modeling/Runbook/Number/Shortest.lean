import Runbook.Number.Binary64

/-! The decimal with the fewest digits that reads back as a given float, and its written forms.

The candidates of `n` digits are the first `n` digits of the exact decimal expansion, and the same
with the last digit one up. Each is read back to test it, so the result is right by construction. -/
namespace Runbook.Binary64

/-- The exact decimal expansion of a magnitude. -/
def exactDecimal (code : Nat) : Decimal :=
  ⟨false, unitsOf code * Nat.pow 5 1074, -1074⟩

def readsBack (code : Nat) (d : Decimal) : Bool :=
  ofDecimal d == ofCode false code

/-- The candidate of `n` digits that reads back; of two the nearer, and of two as near the even. -/
def candidate? (code : Nat) (exact : Decimal) (width n : Nat) : Option Decimal :=
  let cut := tenTo (width - n)
  let q := exact.digits / cut
  let r := exact.digits % cut
  let down : Decimal := ⟨false, q, exact.exponent + (width - n : Nat)⟩
  let up : Decimal := { down with digits := q + 1 }
  match readsBack code down, readsBack code up with
  | true, true => some (if 2 * r < cut || (2 * r == cut && q % 2 == 0) then down else up)
  | true, false => some down
  | false, true => some up
  | false, false => none

def shortest (code : Nat) : Decimal :=
  let exact := exactDecimal code
  let width := (Nat.toDigits 10 exact.digits).length
  ((List.range' 1 17).findSome? (candidate? code exact width)).getD exact

/-- How a float is written: positionally while the point's place, counted from the front of the
first digit, is over `above` and at most `upTo`; else with an exponent of at least `padding` digits,
where `plus` tells whether a sign is written before a positive one. -/
structure Style where
  above : Int
  upTo : Int
  plus : Bool
  padding : Nat

def dropTrailingZeros (cs : List Char) : List Char :=
  (cs.reverse.dropWhile (· == '0')).reverse

def zeros (n : Nat) : List Char := List.replicate n '0'

def writeExponent (style : Style) (e : Int) : List Char :=
  let digits := Nat.toDigits 10 e.natAbs
  (if e < 0 then ['-'] else if style.plus then ['+'] else []) ++
    zeros (style.padding - digits.length) ++ digits

/-- Writes significant digits with the point `place` digits after their start. -/
def writeDigits (style : Style) (ds : List Char) (place : Int) : List Char :=
  if style.above < place && place ≤ style.upTo then
    if place ≤ 0 then '0' :: '.' :: zeros (-place).toNat ++ ds
    else
      let whole := place.toNat
      ds.take whole ++ zeros (whole - ds.length) ++
        '.' :: (if ds.length ≤ whole then ['0'] else ds.drop whole)
  else
    ds.take 1 ++ (if ds.length ≤ 1 then [] else '.' :: ds.drop 1) ++
      'e' :: writeExponent style (place - 1)

def write (style : Style) : Binary64 → String
  | .nan => "nan"
  | .inf negative => if negative then "-inf" else "inf"
  | .finite negative c =>
    let body :=
      if c.val = 0 then writeDigits style ['0'] 1
      else
        let d := shortest c
        let ds := Nat.toDigits 10 d.digits
        writeDigits style (dropTrailingZeros ds) (ds.length + d.exponent)
    String.ofList (if negative then '-' :: body else body)

end Runbook.Binary64
