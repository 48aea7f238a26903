import Runbook.Limits
import Runbook.Run

/-! The guard: ceilings on the steps and the time of a run. -/
namespace Runbook

structure Guard where
  maxIterations : Int
  maxTime : Number
  deriving DecidableEq, Inhabited

/-- What clocks show: whether one moment is at or past another can be told, and a limit on time can
be put on top of a moment, unless it is too large for it. Nothing else is asked of moments. -/
class Moment (τ : Type) where
  reached : (deadline now : τ) → Bool
  after : (now : τ) → (limit : Number) → Except Failure τ

instance : Moment Binary64 where
  reached deadline now := deadline.le now
  after now limit :=
    match limit.toFloat? with
    | some most => .ok (now.add most)
    | none => .error .tooLarge

/-- A source of clock readings, one after another. Each reading gives a moment, and from then on
until the next one the clock shows a universal time as well. -/
class Clock (κ : Type) (τ : outParam Type) where
  read : κ → τ × κ
  now : κ → Instant

/-- A clock that goes on by the same step at every reading, while its universal time stands still. -/
structure SteadyClock where
  moment : Binary64
  step : Binary64
  now : Instant
  deriving DecidableEq, Inhabited

instance : Clock SteadyClock Binary64 where
  read c := (c.moment, { c with moment := c.moment.add c.step })
  now c := c.now

/-- Any sequence of readings. -/
instance {τ : Type} : Clock (Nat → τ × Instant) τ where
  read f := ((f 0).1, fun n => f (n + 1))
  now f := (f 0).2

namespace Guard

def ofLimits (l : Limits) : Guard := ⟨l.maxIterations, l.maxTime⟩

/-- Whether the count leaves room for one more step. -/
def hasRoom (g : Guard) (r : Run) : Bool := r.iterations < g.maxIterations

def overrunMessage (g : Guard) : String :=
  "Simulation exceeded maximum iterations (" ++ toString g.maxIterations ++ ")"

/-- What a batch says when it stops at the ceiling. -/
def ceilingMessage (g : Guard) : String :=
  "Simulation exceeded maximum of " ++ toString g.maxIterations ++ " iterations"

def timeoutMessage (g : Guard) : String :=
  "Simulation timed out after " ++ g.maxTime.display ++ " seconds"

/-- Counts one more step, or ends the run with an error. -/
def count (g : Guard) (r : Run) : Run × Bool :=
  if g.hasRoom r then ({ r with iterations := r.iterations + 1 }, true)
  else (r.fail .error g.overrunMessage, false)

/-- The latest time for a run that starts at a reading. There is none if the ceiling is too large
for it. -/
def deadline {τ : Type} [Moment τ] (g : Guard) (now : τ) : Except Failure τ :=
  Moment.after now g.maxTime

end Guard
end Runbook
