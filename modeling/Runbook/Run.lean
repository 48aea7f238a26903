import Runbook.Reading
import Runbook.Store
import Runbook.Workflow

/-! Runs: the state of one execution of a workflow, with the trail of what happened. -/
namespace Runbook

inductive Status where
  | active
  | completed
  | stopped
  | timeout
  | error
  deriving DecidableEq, Inhabited

namespace Status

def all : List Status := [.active, .completed, .stopped, .timeout, .error]

def name : Status → String
  | .active => "active"
  | .completed => "completed"
  | .stopped => "stopped"
  | .timeout => "timeout"
  | .error => "error"

def ofName? (s : String) : Option Status := all.find? (·.name == s)

/-- Every status but active is final. -/
def isFinal (s : Status) : Bool := s ≠ .active

end Status

/-- Reads a position as saved data holds it. A value that is neither an integer nor a text nor null
must stand for an integer; else both readings of it are at fault. -/
def Position.read (v : Value) : Reading Position :=
  match Position.ofValue v with
  | .foreign v =>
    let asInteger := (Reading.integer v).under (.field "int")
    if asInteger.faults.isEmpty then pure (.index asInteger.value)
    else ⟨.nowhere, asInteger.faults ++ [⟨[.field "str"], .notText⟩]⟩
  | p => pure p

structure Entry where
  position : Position
  stepId : Option String
  stepTitle : String
  stepType : String
  answer : Value
  reason : Option String
  branch : Option String
  resolved : Option Bool
  notes : Option String
  subFlow : Option String
  content : Option String
  escalated : Option Bool
  time : Timestamp
  deriving Inhabited

/-- The entry that is made of a step at a position, with nothing but what every entry has. -/
def Entry.of (now : Instant) (position : Position) (s : Step) : Entry :=
  ⟨position, some s.id, s.title, s.kind, .null, none, none, none, none, none, none, none,
    now.stamp⟩

@[ext]
structure Run where
  id : String
  workflowId : Option String
  status : Status
  position : Position
  stoppedAt : Position
  trail : List Entry
  results : Store
  inputs : Store
  iterations : Int
  deriving Inhabited

namespace Run

def errorKey : Key := .text "_error"

def isFinal (r : Run) : Bool := r.status.isFinal

/-- The message of the guard that ended the run, if one did. -/
def error (r : Run) : Value := r.results.get errorKey

def fail (r : Run) (status : Status) (message : String) : Run :=
  { r with status, results := r.results.put errorKey (.text message) }

def append (r : Run) (e : Entry) : Run := { r with trail := r.trail ++ [e] }

/-- Completes the run at the end of its workflow. -/
def finish (r : Run) (w : Workflow) : Run :=
  { r with position := w.endPosition, status := .completed }

/-- Goes on to a position, which completes the run if it is past the end. -/
def move (r : Run) (w : Workflow) (position : Position) : Run :=
  if w.isPastEnd position then r.finish w else { r with position }

/-- Ends the run early, wherever it stands. -/
def stop (r : Run) (place : Value) : Run :=
  { r with
    stoppedAt := if place.isNull then r.position else .ofValue place
    status := .stopped }

end Run
end Runbook
