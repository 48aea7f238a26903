import Runbook.Json.Print
import Runbook.Json.Read
import Runbook.Run
import Runbook.Value.Height

/-! Saved runs: the JSON text of a run, and reading it back. -/
namespace Runbook
open Reading Value

def Value.ofFlag? : Option Bool → Value
  | some b => .flag b
  | none => .null

/-- The value of a position in saved data, where a flag is written as its number. -/
def Position.saved : Position → Value
  | .foreign (.flag b) => .whole (if b then 1 else 0)
  | p => p.toValue

namespace Entry

def toRecord (e : Entry) : Fields :=
  [("position", e.position.saved), ("step_id", ofText? e.stepId),
    ("step_title", .text e.stepTitle), ("step_type", .text e.stepType), ("answer", e.answer),
    ("condition_result", ofText? e.reason), ("matched_branch", ofText? e.branch),
    ("resolved", ofFlag? e.resolved), ("notes", ofText? e.notes),
    ("subflow_target", ofText? e.subFlow), ("content", ofText? e.content),
    ("escalated", ofFlag? e.escalated), ("timestamp", .text e.time.write)]

/-- A time, where a flaw in it is a fault of the given kind. -/
def timed (cause : Timestamp.Flaw → Fault.Cause) :
    Except Timestamp.Flaw Timestamp → Reading Timestamp
  | .ok t => if t.date.year = 0 then fault (.timeUnreadable .yearZero) else pure t
  | .error flaw => fault (cause flaw)

/-- Reads a time. Whole numbers that no word holds are none in JSON; elsewhere they count as
floats. -/
def readTime (carrier : Carrier) : Value → Reading Timestamp
  | .text s => timed .dateUnreadable (Timestamp.ofText s)
  | .real x => timed .timeUnreadable (Timestamp.ofFloat x)
  | .whole n =>
    if fitsWord n then timed .timeUnreadable (Timestamp.ofCount n)
    else match carrier, Binary64.ofInt? n with
      | .data, some x => timed .timeUnreadable (Timestamp.ofFloat x)
      | _, _ => fault .notTime
  | _ => fault .notTime

/-- Reads an entry; `now` is its time if it states none. -/
def read (carrier : Carrier) (now : Instant) : Value → Reading Entry :=
  model carrier "ExecutionEntry" fun f => do
    let position ← field f ["position"] (pure .nowhere) Position.read
    let stepId ← field f ["step_id"] (pure none) optionalText
    let stepTitle ← field f ["step_title"] (pure "") text
    let stepType ← required f "step_type" text
    let reason ← field f ["condition_result"] (pure none) optionalText
    let branch ← field f ["matched_branch"] (pure none) optionalText
    let resolved ← field f ["resolved"] (pure none) (optional flag)
    let notes ← field f ["notes"] (pure none) optionalText
    let subFlow ← field f ["subflow_target"] (pure none) optionalText
    let content ← field f ["content"] (pure none) optionalText
    let escalated ← field f ["escalated"] (pure none) (optional flag)
    let time ← field f ["timestamp"] (pure now.stamp) (readTime carrier)
    pure ⟨position, stepId, stepTitle, stepType, f.get "answer", reason, branch, resolved, notes,
      subFlow, content, escalated, time⟩

end Entry

namespace Run

def toRecord (r : Run) : Fields :=
  [("id", .text r.id), ("workflow_id", ofText? r.workflowId), ("status", .text r.status.name),
    ("current_position", r.position.saved), ("stopped_at", r.stoppedAt.saved),
    ("execution_path", .list (r.trail.map fun e => .record e.toRecord)),
    ("results", Json.ofStore r.results), ("inputs", Json.ofStore r.inputs),
    ("iteration_count", .whole r.iterations)]

/-- The values in a run that callers choose freely. -/
def givenValues (r : Run) : List Value :=
  [r.position.toValue, r.stoppedAt.toValue] ++
    r.trail.flatMap (fun e => [e.position.toValue, e.answer]) ++ r.results.map (·.2) ++
    r.inputs.map (·.2)

/-- The run as JSON text, unless a value in it is nested too deep. -/
def toJson (r : Run) : Except Failure String :=
  match r.givenValues.findSome? (·.depthFlaw?) with
  | none => .ok (Json.print (.record r.toRecord))
  | some why => .error (.tooDeepForText why)

def readStatus : Value → Reading Status
  | .text s =>
    match Status.ofName? s with
    | some status => pure status
    | none => fault .notStatus
  | _ => fault .notStatus

def readStore (carrier : Carrier) (v : Value) : Reading Store := do
  let entries ← mapping carrier pure v
  pure (entries.map fun (k, x) => (.text k, x))

/-- Reads a run; `fresh` is its id if it states none, and `now` the time of the entries that state
none. Fields that are not known are ignored. -/
def read (carrier : Carrier) (fresh : String) (now : Instant) : Value → Reading Run :=
  model carrier "Simulation" fun f => do
    let id ← field f ["id"] (pure fresh) text
    let workflowId ← field f ["workflow_id"] (pure none) optionalText
    let status ← field f ["status"] (pure .active) readStatus
    let position ← field f ["current_position"] (pure (.index 0)) Position.read
    let stoppedAt ← field f ["stopped_at"] (pure .nowhere) Position.read
    let trail ← field f ["execution_path"] (pure []) (list carrier (Entry.read carrier now))
    let results ← field f ["results"] (pure []) (readStore carrier)
    let inputs ← field f ["inputs"] (pure []) (readStore carrier)
    let iterations ← field f ["iteration_count"] (pure 0) integer
    pure ⟨id, workflowId, status, position, stoppedAt, trail, results, inputs, iterations⟩

def ofValue (fresh : String) (now : Instant) (v : Value) : Except Failure Run :=
  (read .data fresh now v).toExcept "Simulation"

/-- The most lists and records that may be open in the JSON text of a run. -/
def maxOpen : Nat := 200

def ofJson (fresh : String) (now : Instant) (text : String) : Except Failure Run :=
  match Json.read (some maxOpen) text with
  | .ok v => (read .json fresh now v).toExcept "Simulation"
  | .error m => .error (.faults "Simulation" [⟨[], .badJson (m.describe text)⟩])

/-- Whether a text states no id, so that reading it takes a fresh one. -/
def statesNoId (text : String) : Bool :=
  match Json.read (some maxOpen) text with
  | .ok (.record fields) => (Fields.get? fields "id").isNone
  | _ => false

/-- Equal as data, field by field. The keys of stores count as what they are, not as their
texts. -/
def same (r s : Run) : Bool :=
  let others := fun (x : Run) => Value.record (x.toRecord.without ["results", "inputs"])
  (others r).same (others s) && r.results.same s.results && r.inputs.same s.inputs

end Run
end Runbook
