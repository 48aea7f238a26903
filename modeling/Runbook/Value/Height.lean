import Runbook.Value

/-! How deep values are nested, and how deep they may be to be written. A value has a part at a level
exactly if it is that deep. -/
namespace Runbook.Value

mutual

/-- The levels of a value: one for itself, and those of its deepest part. -/
def height : Value → Nat
  | .list items => heightOfItems items + 1
  | .record fields => heightOfFields fields + 1
  | _ => 1

def heightOfItems : List Value → Nat
  | [] => 0
  | v :: rest => max (height v) (heightOfItems rest)

def heightOfFields : List (String × Value) → Nat
  | [] => 0
  | (_, v) :: rest => max (height v) (heightOfFields rest)

end

mutual

/-- The first part of a value, in reading order, that lies so many levels below it. -/
def partAt? : Nat → Value → Option Value
  | 0, v => some v
  | n + 1, .list items => partAtItems? n items
  | n + 1, .record fields => partAtFields? n fields
  | _ + 1, _ => none

def partAtItems? (n : Nat) : List Value → Option Value
  | [] => none
  | v :: rest => (partAt? n v).or (partAtItems? n rest)

def partAtFields? (n : Nat) : List (String × Value) → Option Value
  | [] => none
  | (_, v) :: rest => (partAt? n v).or (partAtFields? n rest)

end

mutual

/-- A value has parts at every level that it has, and at no other. -/
theorem isSome_partAt? (n : Nat) (v : Value) : (partAt? n v).isSome ↔ n < v.height := by
  cases n with
  | zero => cases v <;> simp [partAt?, height]
  | succ n =>
    cases v with
    | list items => simpa [partAt?, height] using isSome_partAtItems? n items
    | record fields => simpa [partAt?, height] using isSome_partAtFields? n fields
    | null | flag | whole | real | text => simp [partAt?, height]

theorem isSome_partAtItems? (n : Nat) (items : List Value) :
    (partAtItems? n items).isSome ↔ n < heightOfItems items := by
  cases items with
  | nil => simp [partAtItems?, heightOfItems]
  | cons v rest =>
    simp only [partAtItems?, heightOfItems, Option.isSome_or, Bool.or_eq_true]
    rw [isSome_partAt? n v, isSome_partAtItems? n rest]
    omega

theorem isSome_partAtFields? (n : Nat) (fields : List (String × Value)) :
    (partAtFields? n fields).isSome ↔ n < heightOfFields fields := by
  cases fields with
  | nil => simp [partAtFields?, heightOfFields]
  | cons field rest =>
    obtain ⟨_, v⟩ := field
    simp only [partAtFields?, heightOfFields, Option.isSome_or, Bool.or_eq_true]
    rw [isSome_partAt? n v, isSome_partAtFields? n rest]
    omega

end

/-- The most levels of a value that can be written. -/
def maxHeight : Nat := 255

def isWritable (v : Value) : Bool := v.height ≤ maxHeight

/-- Whether a value is null, a flag, a whole number or text. -/
def isPlain : Value → Bool
  | .null | .flag _ | .whole _ | .text _ => true
  | _ => false

/-- Why a value cannot be written. -/
inductive DepthFlaw where
  /-- It has too many levels. -/
  | tooDeep
  /-- A part of it seems to hold itself. -/
  | circular
  deriving DecidableEq, Inhabited

def DepthFlaw.message : DepthFlaw → String
  | .tooDeep => "Maximum serialization depth exceeded"
  | .circular => "Circular reference detected (id repeated)"

/-- The flaw of a value that is written in one try. -/
def depthFlaw? (v : Value) : Option DepthFlaw := if v.isWritable then none else some .tooDeep

/-- The flaw of a value that is written one level down and tried twice. The second try meets the
part again at which the first one stopped, and takes it for a circle unless it is plain. -/
def retriedFlaw? (v : Value) : Option DepthFlaw :=
  (v.partAt? (maxHeight - 1)).map fun part => if part.isPlain then .tooDeep else .circular

end Runbook.Value
