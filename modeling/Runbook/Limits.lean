import Runbook.Reading

/-! Limits: ceilings for runs and for the size of definitions. -/
namespace Runbook

structure Limits where
  maxIterations : Int
  maxTime : Number
  maxConditionDepth : Int
  maxSteps : Int
  maxTotalSize : Int
  maxTitleLength : Int
  maxContentSize : Int
  maxOptions : Int
  maxBranches : Int
  maxJumps : Int
  deriving DecidableEq

namespace Limits

def standard : Limits :=
  ⟨1000, .whole 30, 50, 200, 10000000, 500, 50000, 100, 50, 50⟩

instance : Inhabited Limits := ⟨standard⟩

open Reading

def positiveInteger (v : Value) : Reading Int := do
  let r := integer v
  let n ← r
  if r.faults.isEmpty && n ≤ 0 then fault .notPositive else pure n

def positiveNumber (v : Value) : Reading Number := do
  let r := number v
  let x ← r
  if r.faults.isEmpty && !Binary64.zero.lt x then fault .notPositive else pure (.real x)

/-- Reads limits; those that are not given have their standard value. -/
def read : Value → Reading Limits :=
  model .data "LimitsConfig" fun f => do
    let int := fun (name : String) (standard : Int) =>
      field f [name] (pure standard) positiveInteger
    let maxIterations ← int "max_iterations" standard.maxIterations
    let maxTime ← field f ["max_execution_time"] (pure standard.maxTime) positiveNumber
    let maxConditionDepth ← int "max_condition_depth" standard.maxConditionDepth
    let maxSteps ← int "max_steps" standard.maxSteps
    let maxTotalSize ← int "max_total_steps_size" standard.maxTotalSize
    let maxTitleLength ← int "max_step_title_length" standard.maxTitleLength
    let maxContentSize ← int "max_step_content_length" standard.maxContentSize
    let maxOptions ← int "max_options" standard.maxOptions
    let maxBranches ← int "max_branches" standard.maxBranches
    let maxJumps ← int "max_jumps" standard.maxJumps
    pure ⟨maxIterations, maxTime, maxConditionDepth, maxSteps, maxTotalSize, maxTitleLength,
      maxContentSize, maxOptions, maxBranches, maxJumps⟩

def toRecord (l : Limits) : Fields :=
  [("max_iterations", .whole l.maxIterations),
    ("max_execution_time", match l.maxTime with
      | .whole n => .whole n
      | .real x => .real x),
    ("max_condition_depth", .whole l.maxConditionDepth), ("max_steps", .whole l.maxSteps),
    ("max_total_steps_size", .whole l.maxTotalSize),
    ("max_step_title_length", .whole l.maxTitleLength),
    ("max_step_content_length", .whole l.maxContentSize), ("max_options", .whole l.maxOptions),
    ("max_branches", .whole l.maxBranches), ("max_jumps", .whole l.maxJumps)]

end Limits
end Runbook
