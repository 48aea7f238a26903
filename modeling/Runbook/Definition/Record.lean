import Runbook.Json.Print
import Runbook.Fault
import Runbook.Value.Height
import Runbook.Workflow

/-! The records that workflows and their parts are written as. -/
namespace Runbook
open Value

def Transition.toRecord (t : Transition) : Fields :=
  [("target_id", ofText? t.target), ("condition", ofText? t.condition),
    ("label", ofText? t.label)]

def Branch.toRecord (b : Branch) : Fields :=
  [("condition", ofText? b.condition), ("target", ofText? b.target)]

def Jump.toRecord (j : Jump) : Fields :=
  [("condition", ofText? j.condition), ("target", ofText? j.target)]

def OutputField.toRecord (o : OutputField) : Fields :=
  [("name", .text o.name), ("value_template", .text o.template)]

/-- Records are written in full or without nulls. -/
def Fields.full (fields : Fields) : Fields := fields

def Fields.compact (fields : Fields) : Fields := fields.filter fun (_, v) => !v.isNull

def Value.ofRecords (shape : Fields → Fields) (records : List Fields) : Value :=
  .list (records.map fun r => .record (shape r))

def Body.toRecord (shape : Fields → Fields) : Body → Fields
  | .question q =>
    [("question", ofText? q.question), ("variable_name", ofText? q.variableName),
      ("answer_type", .text q.answerType), ("options", .list q.options)]
  | .decision d =>
    [("branches", ofRecords shape (d.branches.map (·.toRecord))),
      ("else_target", ofText? d.elseTarget)]
  | .action a =>
    [("instructions", ofText? a.instructions),
      ("output_fields", ofRecords shape (a.outputs.map (·.toRecord)))]
  | .checkpoint m => [("message", ofText? m)]
  | .subFlow f =>
    [("target_workflow_id", ofText? f.target),
      ("variable_mapping", .record (f.mapping.map fun (k, v) => (k, .text v)))]
  | .message content => [("content", ofText? content)]
  | .escalate e =>
    [("target_type", ofText? e.targetType), ("target_value", ofText? e.targetValue),
      ("priority", ofText? e.priority), ("reason_required", .flag e.reasonRequired),
      ("notes", ofText? e.notes)]
  | .resolve r =>
    [("resolution_type", ofText? r.resolutionType), ("resolution_code", ofText? r.code),
      ("notes_required", .flag r.notesRequired), ("survey_trigger", .flag r.surveyTrigger)]

def Step.toRecord (shape : Fields → Fields) (s : Step) : Fields :=
  [("id", .text s.id), ("title", .text s.title), ("description", ofText? s.description),
    ("jumps", ofRecords shape (s.jumps.map (·.toRecord))),
    ("transitions", ofRecords shape (s.transitions.map (·.toRecord))), ("type", .text s.kind)] ++
    s.body.toRecord shape ++ s.extras

def Workflow.toRecord (shape : Fields → Fields) (w : Workflow) : Fields :=
  [("id", .text w.id), ("title", .text w.title), ("graph_mode", .flag w.isGraph),
    ("start_node_id", ofText? w.startId),
    ("steps", ofRecords shape (w.steps.map (·.toRecord shape)))]

/-- All fields of a workflow, null where unset. -/
def Workflow.toValue (w : Workflow) : Value := .record (w.toRecord Fields.full)

mutual

/-- Takes numbers that JSON cannot write for null. -/
def Value.finiteOnly : Value → Value
  | .real x => if x.isFinite then .real x else .null
  | .list items => .list (finiteItems items)
  | .record fields => .record (finiteFields fields)
  | v => v

def Value.finiteItems : List Value → List Value
  | [] => []
  | v :: rest => finiteOnly v :: finiteItems rest

def Value.finiteFields : List (String × Value) → List (String × Value)
  | [] => []
  | (k, v) :: rest => (k, finiteOnly v) :: finiteFields rest

end

/-- The values in a step that its author chooses freely. -/
def Step.givenValues (s : Step) : List Value :=
  (match s.body with
    | .question q => q.options
    | _ => []) ++ s.extras.map (·.2)

/-- What keeps the values that an author chose in a step from being written. A decision goes by two
type names, and is therefore tried as either. -/
def Step.depthFlaw? (s : Step) : Option DepthFlaw :=
  match s.body with
  | .decision _ => s.givenValues.findSome? (·.retriedFlaw?)
  | _ => s.givenValues.findSome? (·.depthFlaw?)

/-- The data a definition file holds: the fields that are set. -/
def Workflow.toData (w : Workflow) : Except Failure Value :=
  match w.steps.findSome? (·.depthFlaw?) with
  | none => .ok (Value.record (w.toRecord Fields.compact).compact).finiteOnly
  | some why => .error (.tooDeepForData why)

/-- What keeps a step from being written as one value. Its own level counts as well. -/
def Step.recordFlaw? (s : Step) : Option DepthFlaw :=
  s.depthFlaw?.or (Value.record (s.toRecord Fields.full)).depthFlaw?

/-- The bytes that the steps of a workflow take as JSON. -/
def Workflow.stepBytes (w : Workflow) : Except Failure Nat :=
  match w.steps.findSome? (·.recordFlaw?) with
  | none =>
    let records := w.steps.map (·.toRecord Fields.full)
    .ok (Json.print (.record [("steps", ofRecords Fields.full records)])).utf8ByteSize
  | some why => .error (.tooDeepForText why)

end Runbook
